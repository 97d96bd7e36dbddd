import Lila.Failure
import Lila.Tree.Parser
import Lila.Tree.Printer

/-!
# Stages of a compilation

A stage that is asked to echo shows its result once it has one. `Staged` pairs
the outcome with what was echoed up to it.
-/

namespace Lila

structure Staged (α : Type) where
  outcome : Except Failure α
  echo : String

namespace Stage

def lex (source : String) (verbose : Bool) : Staged (List Lexeme) :=
  match tokenize source with
  | .error e => ⟨.error (.lex e), ""⟩
  | .ok lexemes =>
      let line (x : Lexeme) := "[token] \"" ++ x.token.display ++ "\"\n"
      ⟨.ok lexemes, if verbose then String.join (lexemes.map line) else ""⟩

def parse (source : String) (verbose : Bool) : Staged Tree :=
  match lex source verbose with
  | ⟨.error failure, echo⟩ => ⟨.error failure, echo⟩
  | ⟨.ok lexemes, echo⟩ =>
      match Lila.parse lexemes with
      | .error e => ⟨.error (.parse e), echo⟩
      | .ok tree =>
          ⟨.ok tree, if verbose then echo ++ "[ast] " ++ tree.display ++ "\n" else echo⟩

end Stage

end Lila
