import Lila.Token.Basic

/-!
# Why a program is refused

A parse error is a cause and the place of the token at fault. Errors without a
place are about the end of the input.
-/

namespace Lila

inductive Expectation where
  | token (token : Token)
  | primary
  | valueName
  | definitionName
  | argument
  | argumentName
  | argumentSeparator
  | parameterSeparator
  | statementEnd
deriving DecidableEq

def Expectation.display : Expectation → String
  | .token t => s!"\"{t.display}\""
  | .primary => "primary"
  | .valueName => "value name"
  | .definitionName => "def name"
  | .argument => "an argument"
  | .argumentName => "an argument name"
  | .argumentSeparator => "\",\" or \")\""
  | .parameterSeparator => "arguments or end of arguments, i.e. \")\""
  | .statementEnd => "a newline after the statement"

inductive ParseError.Cause where
  | unexpectedToken (found : Token) (expected : Expectation)
  | unexpectedEnd (expected : Expectation)
  | alreadyDefined (name : String)
  | repeatedParameter (name : String)
  | missingArgument
  | surplusArgument
  | unknownName (name path : String)
  | emptyBlock
  | blockWithoutValue
  | emptyProgram
  | programWithoutValue
deriving DecidableEq

structure ParseError where
  cause : ParseError.Cause
  span : Option Span
deriving DecidableEq

namespace ParseError

def message (e : ParseError) : String :=
  match e.cause with
  | .unexpectedToken found expected =>
      s!"unexpected token \"{found.display}\" when expecting {expected.display}"
  | .unexpectedEnd expected => s!"unexpected end of input when expecting {expected.display}"
  | .alreadyDefined name => s!"{name} is already defined"
  | .repeatedParameter name => s!"{name} is already defined as another argument"
  | .missingArgument => "expecting an argument"
  | .surplusArgument => "didn't expect another argument"
  | .unknownName name path => s!"unknown identifier \"{name}\" in scope {path}"
  | .emptyBlock => "empty block"
  | .blockWithoutValue => "block does not end in expression"
  | .emptyProgram => "empty program"
  | .programWithoutValue => "top level block does not end in expression"

def display (e : ParseError) : String :=
  match e.span with
  | some span => s!"{e.message} at {span.display}"
  | none => s!"{e.message} at end of input"

end ParseError

end Lila
