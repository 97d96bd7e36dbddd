import Lila.Number.Fixed
import Lila.Source.Span

/-!
# Tokens

The words of the language, and lexemes: tokens with their place in the source.
-/

namespace Lila

inductive Token where
  | number (value : Double)
  | ident (name : String)
  | binop (op : String)
  | kwDef
  | kwVal
  | assign
  | comma
  | colon
  | blockOpen
  | blockClose
  | parenOpen
  | parenClose
  | newline
deriving DecidableEq

/-- Tokens show as they are written, numbers with six places and a line break
as a backslash and an `n`. -/
def Token.display : Token → String
  | .number value => value.display
  | .ident name => name
  | .binop op => op
  | .kwDef => "def"
  | .kwVal => "val"
  | .assign => "="
  | .comma => ","
  | .colon => ":"
  | .blockOpen => "\x7b"
  | .blockClose => "\x7d"
  | .parenOpen => "("
  | .parenClose => ")"
  | .newline => "\\n"

structure Lexeme where
  span : Span
  token : Token
deriving DecidableEq

end Lila
