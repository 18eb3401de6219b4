namespace Loadable.Text

-- The parts of a text between separators. There is one part more than there are
-- separators, so parts may be empty.
def split (separator : Char) : List Char → List (List Char)
  | [] => [[]]
  | c :: rest =>
    match split separator rest with
    | [] => [[c]]
    | part :: parts =>
      if c = separator then [] :: part :: parts else (c :: part) :: parts

end Loadable.Text
