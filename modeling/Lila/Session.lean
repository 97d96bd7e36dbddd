/-!
# Commands of an interactive session
-/

namespace Lila.Session

inductive Command where
  | help
  | silent
  | verbose
  | quit
deriving DecidableEq

def Command.ofLine? : String → Option Command
  | ":help" => some .help
  | ":silent" => some .silent
  | ":verbose" => some .verbose
  | ":quit" => some .quit
  | _ => none

def helpText : String :=
  "\n".intercalate
    [":help     show this text",
      ":silent   stop echoing tokens, ast and ir",
      ":verbose  echo tokens, ast and ir of every line",
      ":quit     leave the repl"]

end Lila.Session
