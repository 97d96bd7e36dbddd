import Lila.Failure
import Lila.Log.Filter
import Lila.Shell.Config

/-!
# Starting a tool

A call of a tool ends at once (with help, its version, a refused command line or
a source that cannot be read) or goes on to work.
-/

namespace Lila.Shell

structure Exit where
  status : Nat
  out : String := ""
  err : String := ""
deriving DecidableEq

inductive Task where
  | session (config : SessionConfig)
  | run (input : Input) (verbose : Bool)
  | compile (input : Input) (output : String) (verbose : Bool)
deriving DecidableEq

inductive Start where
  | exit (exit : Exit)
  | session (config : SessionConfig)
  | run (source : String) (verbose : Bool)
  | compile (source output : String) (verbose : Bool)
deriving DecidableEq

def Interruption.exit (tool : Tool) : Interruption → Exit
  | .help => { status := 0, out := tool.help }
  | .version => { status := 0, out := tool.versionText }
  | .refused refusal => { status := 2, err := refusal.message tool }

def failed (failure : Failure) : Exit := { status := 1, err := failure.display ++ "\n" }

def Tool.task (arguments : List String) : Tool → Except Exit (Task × String)
  | .lila =>
      match LilaConfig.ofArguments arguments with
      | .error e => .error (e.exit .lila)
      | .ok config =>
          let task := match config.input with
            | none => .session config.session
            | some path => .run (.file path) config.session.verbose
          .ok (task, config.logLevel)
  | .lilac =>
      match LilacConfig.ofArguments arguments with
      | .error e => .error (e.exit .lilac)
      | .ok config => .ok (.compile config.input config.output config.verbose, config.logLevel)

def Task.start (host : Host) : Task → Start
  | .session config => .session config
  | .run input verbose =>
      match input.read host with
      | .error e => .exit (failed (.read e))
      | .ok source => .run source verbose
  | .compile input output verbose =>
      match input.read host with
      | .error e => .exit (failed (.read e))
      | .ok source => .compile source output verbose

/-- What is written before a task is begun: the notes on the log filter. -/
def preamble (log : Option String) (logLevel : String) : String :=
  String.join ((Log.Filter.notes log logLevel).map fun note => note.display ++ "\n")

/-- What a call comes to, `log` being the log filter of the environment. An exit
has everything that the call writes. -/
def Tool.start (host : Host) (log : Option String) (arguments : List String) (tool : Tool) : Start :=
  match tool.task arguments with
  | .error exit => .exit exit
  | .ok (task, logLevel) =>
      match task.start host with
      | .exit exit => .exit { exit with err := preamble log logLevel ++ exit.err }
      | start => start

end Lila.Shell
