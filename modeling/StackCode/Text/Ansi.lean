/-!
# Terminal styles

A style wraps a text in the sequence that switches it on and the one that switches it off again.
Dimming and bold are undone by a full reset, a colour by the default colour.
-/

set_option autoImplicit false

namespace StackCode.Text

/-- The ways a listing or an error line sets off a text. -/
inductive Style where
  | dim | bold | red | green | yellow | magenta | cyan
deriving DecidableEq

/-- A terminal control sequence with one numeric parameter. -/
def ansiSequence (parameter : String) : String :=
  "\x1b[" ++ parameter ++ "m"

namespace Style

/-- The parameter that switches a style on. -/
def start : Style → String
  | .dim => "2"
  | .bold => "1"
  | .red => "31"
  | .green => "32"
  | .yellow => "33"
  | .magenta => "35"
  | .cyan => "36"

/-- The parameter that switches a style off. -/
def stop : Style → String
  | .dim | .bold => "0"
  | _ => "39"

/-- `text` shown in this style. -/
def paint (style : Style) (text : String) : String :=
  ansiSequence style.start ++ text ++ ansiSequence style.stop

end Style

end StackCode.Text
