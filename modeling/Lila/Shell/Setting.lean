/-!
# Settings of the two tools

`lila` runs programs interactively, `lilac` compiles one. Both take an input and
options; a setting is any of these.
-/

namespace Lila.Shell

inductive Tool where
  | lila
  | lilac
deriving DecidableEq

inductive Setting where
  | input
  | verbose
  | prompt
  | history
  | output
  | logLevel
  | help
  | version
deriving DecidableEq

namespace Setting

/-- The long name of an option. The input has none. -/
def long? : Setting → Option String
  | .input => none
  | .verbose => some "verbose"
  | .prompt => some "prompt"
  | .history => some "history"
  | .output => some "output"
  | .logLevel => some "log-level"
  | .help => some "help"
  | .version => some "version"

def short? : Setting → Option Char
  | .verbose => some 'v'
  | .output => some 'o'
  | .help => some 'h'
  | .version => some 'V'
  | _ => none

/-- What the value of a setting is called. Settings without one are flags. -/
def valueName? : Setting → Option String
  | .input => some "INPUT"
  | .prompt => some "PROMPT"
  | .history => some "HISTORY"
  | .output => some "OUTPUT"
  | .logLevel => some "LOG_LEVEL"
  | _ => none

/-- A setting as messages name it. The input stands in brackets unless it is
`given`. -/
def display (s : Setting) (given : Bool) : String :=
  match s.long?, s.valueName? with
  | some long, some value => s!"--{long} <{value}>"
  | some long, none => s!"--{long}"
  | none, some value => if given then s!"<{value}>" else s!"[{value}]"
  | none, none => ""

/-- A setting as one of several alternatives, where the input has no brackets. -/
def alternative (s : Setting) : String :=
  match s with
  | .input => "INPUT"
  | _ => s.display true

end Setting

def defaultPrompt : String := "lila> "

def defaultOutput : String := "a.out.bc"

def defaultLogLevel : String := "warn"

namespace Tool

def name : Tool → String
  | .lila => "lila"
  | .lilac => "lilac"

def version : String := "0.1.0"

def about : Tool → String
  | .lila => "Interactive lila compiler"
  | .lilac => "Compiles a lila program to LLVM bitcode"

def options : Tool → List Setting
  | .lila => [.verbose, .prompt, .history, .logLevel, .help, .version]
  | .lilac => [.output, .verbose, .logLevel, .help, .version]

def configurable (tool : Tool) : List Setting :=
  .input :: tool.options.filter fun s => s != .help && s != .version

def ofLong? (tool : Tool) (long : String) : Option Setting :=
  tool.options.find? (·.long? = some long)

def ofShort? (tool : Tool) (short : Char) : Option Setting :=
  tool.options.find? (·.short? = some short)

def refusesEmpty : Tool → Setting → Bool
  | _, .history | _, .output | .lila, .input => true
  | _, _ => false

def default? : Tool → Setting → Option String
  | .lilac, .input => some "-"
  | _, .prompt => some defaultPrompt
  | _, .output => some defaultOutput
  | _, .logLevel => some defaultLogLevel
  | _, _ => none

def environment? : Setting → Option String
  | .history => some "LILA_HISTORY"
  | _ => none

def description? : Tool → Setting → Option String
  | .lila, .input => some "Run this file once instead of starting the REPL"
  | .lilac, .input => some "Source file, or \"-\" for standard input"
  | .lila, .verbose => some "Echo tokens, AST and IR of every input"
  | .lilac, .verbose => some "Echo tokens, AST and IR of the input"
  | _, .history => some "File to load and save the REPL history from"
  | _, .logLevel => some "Default log filter, overridden by LILA_LOG"
  | _, .help => some "Print help"
  | _, .version => some "Print version"
  | _, _ => none

end Tool

end Lila.Shell
