import Loadable.Text.Numeral

namespace Loadable.Text

inductive Style
  | red
  | green
  | yellow
  | cyan
  | white
  | dim
deriving DecidableEq

-- The terminal sequence that turns a style on. All colours are the bright ones.
def Style.opening : Style → String
  | .red => "\x1b[38;5;9m"
  | .green => "\x1b[38;5;10m"
  | .yellow => "\x1b[38;5;11m"
  | .cyan => "\x1b[38;5;14m"
  | .white => "\x1b[38;5;15m"
  | .dim => "\x1b[2m"

def Style.paint (style : Style) (colour : Bool) (text : String) : String :=
  if colour then style.opening ++ text ++ "\x1b[0m" else text

end Loadable.Text
