namespace Loadable.Bundle

def nameCharacters : List Char := "abcdefghijklmnopqrstuvwxyz0123456789".toList

-- The outcome of drawing characters: them, the number of words that were used, and
-- the words that are left.
structure Draw where
  characters : List Char
  used : Nat
  rest : List UInt64

-- Draws one character. A word is multiplied by the number of characters, and the
-- upper half of the product selects one, unless the lower half lies in the last,
-- incomplete stretch, where the selection would be uneven; then the next word is
-- taken. Once the words have run out, all further ones are zero.
def drawCharacter : List UInt64 → Draw
  | [] => ⟨['a'], 1, []⟩
  | word :: rest =>
    let product := word.toNat * 36
    if product % UInt64.size < 36 <<< 58 then
      ⟨[nameCharacters.getD (product / UInt64.size) 'a'], 1, rest⟩
    else
      let draw := drawCharacter rest
      { draw with used := draw.used + 1 }

def drawCharacters : Nat → List UInt64 → Draw
  | 0, words => ⟨[], 0, words⟩
  | count + 1, words =>
    let first := drawCharacter words
    let others := drawCharacters count first.rest
    ⟨first.characters ++ others.characters, first.used + others.used, others.rest⟩

-- The name of a bundle that was given none.
def randomName (words : List UInt64) : String :=
  "bundle_" ++ String.ofList (drawCharacters 4 words).characters ++ ".bin"

end Loadable.Bundle
