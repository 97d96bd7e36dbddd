import Lila.Shell.Arguments
import Lila.Source.Input

/-!
# What the tools are asked to do
-/

namespace Lila.Shell

structure SessionConfig where
  verbose : Bool := false
  prompt : String := defaultPrompt
  history : Option String := none
deriving DecidableEq

structure LilaConfig where
  /-- The file to run in place of a session. -/
  input : Option String
  session : SessionConfig
  logLevel : String
deriving DecidableEq

structure LilacConfig where
  input : Input
  output : String
  verbose : Bool
  logLevel : String
deriving DecidableEq

def valueOf? (tool : Tool) (given : List (Setting × String)) (s : Setting) : Option String :=
  (given.lookup s).or (tool.default? s)

def LilaConfig.ofArguments (arguments : List String) : Except Interruption LilaConfig := do
  let given ← Tool.settings .lila arguments
  let value? := valueOf? .lila given
  return {
    input := value? .input
    session := {
      verbose := (value? .verbose).isSome
      prompt := (value? .prompt).getD defaultPrompt
      history := value? .history }
    logLevel := (value? .logLevel).getD defaultLogLevel }

/-- What a command line asks of `lilac`. The input `-` is standard input. -/
def LilacConfig.ofArguments (arguments : List String) : Except Interruption LilacConfig := do
  let given ← Tool.settings .lilac arguments
  let value? := valueOf? .lilac given
  let path := (value? .input).getD "-"
  return {
    input := if path = "-" then .standard else .file path
    output := (value? .output).getD defaultOutput
    verbose := (value? .verbose).isSome
    logLevel := (value? .logLevel).getD defaultLogLevel }

end Lila.Shell
