import Lila.Source.Input
import Lila.Token.Lexer
import Lila.Tree.ParseError

/-!
# Failures of all stages

Every failure shows with the stage it comes from.
-/

namespace Lila

structure CodegenError where
  message : String
  scope : String
deriving DecidableEq

def CodegenError.display (e : CodegenError) : String := s!"{e.message} (scope {e.scope})"

inductive JitError where
  | target (reason : String)
  | engine (reason : String)
  | unresolvedSymbol (name : String)
  | symbolNotFound (name : String)
deriving DecidableEq

def JitError.display : JitError → String
  | .target reason => s!"could not set up the host target: {reason}"
  | .engine reason => s!"could not create execution engine: {reason}"
  | .unresolvedSymbol name => s!"unresolved symbol \"{name}\""
  | .symbolNotFound name => s!"symbol \"{name}\" not found"

inductive LineError where
  | endOfFile
  | interrupted
deriving DecidableEq

def LineError.display : LineError → String
  | .endOfFile => "EOF"
  | .interrupted => "Interrupted"

structure ArgumentCountError where
  expected : Nat
  actual : Nat
deriving DecidableEq

def ArgumentCountError.display (e : ArgumentCountError) : String :=
  s!"WrongArgumentsCount \x7b expected: {e.expected}, actual: {e.actual} \x7d"

inductive Failure where
  | lex (e : LexError)
  | parse (e : ParseError)
  | codegen (e : CodegenError)
  | jit (e : JitError)
  | emit (reason : String)
  | read (e : ReadError)
  | line (e : LineError)
deriving DecidableEq

def Failure.display : Failure → String
  | .lex e => s!"[lexer] [error] {e.display}"
  | .parse e => s!"[parser] [error] {e.display}"
  | .codegen e => s!"[codegen] [error] {e.display}"
  | .jit e => s!"[jit] [error] {e.display}"
  | .emit reason => s!"[emit] [error] {reason}"
  | .read e => s!"[io] [error] {e.message}"
  | .line e => s!"[io] [error] {e.display}"

end Lila
