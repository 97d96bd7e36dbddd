import Lila.Log.Record
import Lila.Session
import Lila.Shell.Start

/-!
# The command line

The first argument is the name of the tool. Programs are taken through all
stages up to their tree.
-/

namespace Lila.Shell

def readBytes (input : Input) : IO (Except ReadError ByteArray) := do
  match input with
  | .standard => return .ok (← (← IO.getStdin).readBinToEnd)
  | .file path =>
      try return .ok (← IO.FS.readBinFile path)
      catch
        | .inappropriateType _ code _ =>
            return .error (if code = 20 then .notADirectory else .isADirectory)
        | _ => return .error .notFound

/-- The machine as a task needs it: with the one source that it reads. -/
def hostOf (task : Task) : IO Host := do
  match task with
  | .session _ => return .bare .empty
  | .run input _ | .compile input _ _ =>
      let contents ← readBytes input
      return { file := fun _ => contents, standard := contents.toOption.getD .empty }

def process (filter : Log.Filter) (source : String) (verbose : Bool) : IO Bool := do
  for line in Log.lines filter source do
    IO.eprintln line
  let staged := Stage.parse source verbose
  IO.eprint staged.echo
  match staged.outcome with
  | .ok _ => return true
  | .error failure =>
      IO.eprintln failure.display
      return false

partial def converse (filter : Log.Filter) (config : SessionConfig) : IO Unit := do
  IO.print config.prompt
  (← IO.getStdout).flush
  let line ← (← IO.getStdin).getLine
  if line.isEmpty then
    IO.println ":quit"
    return
  let line := if line.endsWith "\n" then (line.dropEnd 1).toString else line
  match Session.Command.ofLine? line with
  | some .help =>
      IO.println Session.helpText
      converse filter config
  | some .silent => converse filter { config with verbose := false }
  | some .verbose => converse filter { config with verbose := true }
  | some .quit => return
  | none =>
      if !line.toList.all Text.isBlank then
        let _ ← process filter line config.verbose
      converse filter config

def runTool (tool : Tool) (arguments : List String) : IO UInt32 := do
  let finish (exit : Exit) : IO UInt32 := do
    IO.print exit.out
    IO.eprint exit.err
    return exit.status.toUInt32
  match tool.task arguments with
  | .error exit => finish exit
  | .ok (task, logLevel) =>
      let log ← IO.getEnv "LILA_LOG"
      let filter := Log.Filter.inForce log logLevel
      IO.eprint (preamble log logLevel)
      match task.start (← hostOf task) with
      | .exit exit => finish exit
      | .session config =>
          converse filter config
          return 0
      | .run source verbose | .compile source _ verbose =>
          return if ← process filter source verbose then 0 else 1

end Lila.Shell

def main (arguments : List String) : IO UInt32 := do
  match arguments with
  | "lilac" :: arguments => Lila.Shell.runTool .lilac arguments
  | "lila" :: arguments => Lila.Shell.runTool .lila arguments
  | arguments => Lila.Shell.runTool .lila arguments
