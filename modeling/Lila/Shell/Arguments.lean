import Lila.Shell.Similarity
import Lila.Shell.Help
import Lila.Text.Terminal

/-!
# Reading a command line

Arguments are read one by one. A value is held back until the next argument is
understood, so that an unknown argument is reported before a missing value, and
a missing or repeated one before what comes after it. Flags for help and version
end the reading where they are met.
-/

namespace Lila.Shell

inductive Tip where
  | similar (setting : Setting)
  | afterDashes
deriving DecidableEq

/-- Why a command line is refused. `usage` is what the usage line of the message
shows. -/
inductive Refusal where
  | unknown (argument : String) (tip : Option Tip) (usage : Usage)
  | repeated (setting : Setting)
  | missingValue (setting : Setting)
  | surplusValue (setting : Setting) (value : String) (usage : Usage)
deriving DecidableEq

inductive Interruption where
  | help
  | version
  | refused (refusal : Refusal)
deriving DecidableEq

namespace Refusal

/-- What is wrong. Texts from the command line are shown without terminal control. -/
def reason : Refusal → String
  | .unknown argument _ _ => s!"unexpected argument '{Text.Terminal.plain argument}' found"
  | .repeated s => s!"the argument '{s.display false}' cannot be used multiple times"
  | .missingValue s => s!"a value is required for '{s.display false}' but none was supplied"
  | .surplusValue s value _ =>
      s!"unexpected value '{Text.Terminal.plain value}' for '{s.display false}' found; no more were expected"

def tipText? : Refusal → Option String
  | .unknown _ (some (.similar s)) _ =>
      s.long?.map fun long => s!"a similar argument exists: '--{long}'"
  | .unknown argument (some .afterDashes) _ =>
      let argument := Text.Terminal.plain argument
      some s!"to pass '{argument}' as a value, use '-- {argument}'"
  | _ => none

def usage? : Refusal → Option Usage
  | .unknown _ _ usage => some usage
  | .repeated _ => some .general
  | .missingValue _ => none
  | .surplusValue _ _ usage => some usage

def message (tool : Tool) (r : Refusal) : String :=
  "\n\n".intercalate
    (["error: " ++ r.reason] ++ r.tipText?.toList.map ("  tip: " ++ ·) ++
      r.usage?.toList.map tool.usage ++ ["For more information, try '--help'.\n"])

end Refusal

structure Reading where
  /-- The settings given so far with their values, in order. -/
  given : List (Setting × String) := []
  /-- The setting that is held back, with its value if that has been read. -/
  pending : Option (Setting × Option String) := none
  /-- Whether the input has been read. -/
  hasInput : Bool := false
  /-- Whether all further arguments are inputs. -/
  escaped : Bool := false

abbrev Reader := EStateM Interruption Reading

namespace Reader

variable {α : Type}

def refuse (r : Refusal) : Reader α := throw (.refused r)

def give (tool : Tool) (s : Setting) (value : String) : Reader Unit := do
  let given := (← get).given
  if given.any (·.1 = s) then
    modify fun r => { r with given := given.filter (·.1 ≠ s) }
    refuse (.repeated s)
  modify fun r => { r with given := given ++ [(s, value)] }
  if value = "" && tool.refusesEmpty s then refuse (.missingValue s)

/-- Deals with the setting that is held back. -/
def settle (tool : Tool) : Reader Unit := do
  let pending := (← get).pending
  modify fun r => { r with pending := none }
  match pending with
  | none => return
  | some (s, none) => refuse (.missingValue s)
  | some (s, some value) => give tool s value

def settleQuietly (tool : Tool) : Reader Unit := fun r =>
  match settle tool r with
  | .ok _ r | .error _ r => .ok () r

def hold (tool : Tool) (s : Setting) (value : Option String) : Reader Unit := do
  settle tool
  modify fun r => { r with pending := some (s, value) }

def flag (tool : Tool) (s : Setting) : Reader Unit := do
  settle tool
  match s with
  | .help => throw .help
  | .version => throw .version
  | _ => give tool s "true"

def attached (tool : Tool) (s : Setting) (value : String) : Reader Unit := do
  settle tool
  give tool s value

def usageSoFar : Reader Usage := do
  match (← get).given.map (·.1) with
  | [] => return .general
  | shown => return .naming shown

def usageWith (s : Setting) : Reader Usage := do
  let shown := (← get).given.map (·.1)
  return .naming (if shown.contains s then shown else shown ++ [s])

/-- The usage for a setting that is written wrong: its name, or the choice between
all settings once there is a setting that has been given. -/
def usageFor (s : Setting) : Reader Usage := do
  return if (← get).given.isEmpty then .naming [s] else .choosing s

/-- An argument that starts with two dashes, `long` being what follows them up
to the equals sign and `value` what follows that. -/
def longOption (tool : Tool) (long : String) (value : Option String) : Reader Unit := do
  match tool.ofLong? long, value with
  | some s, some value =>
      if s.valueName?.isSome then attached tool s value
      else refuse (.surplusValue s value (← usageFor s))
  | some s, none => if s.valueName?.isSome then hold tool s none else flag tool s
  | none, _ =>
      settleQuietly tool
      let names := tool.options.filterMap Setting.long?
      match (Similarity.best? long names).bind tool.ofLong? with
      | some s => refuse (.unknown s!"--{long}" (some (.similar s)) (← usageWith s))
      | none => refuse (.unknown s!"--{long}" (some .afterDashes) (← usageSoFar))

/-- The letters of an argument that starts with one dash. The first option that
takes a value has what follows it for its value. -/
def shortOptions (tool : Tool) : List Char → Reader Unit
  | [] => return
  | c :: letters => do
      match tool.ofShort? c with
      | some s =>
          if s.valueName?.isSome then
            match letters with
            | [] => hold tool s none
            | '=' :: value => attached tool s (String.ofList value)
            | value => attached tool s (String.ofList value)
          else
            flag tool s
            shortOptions tool letters
      | none =>
          settleQuietly tool
          refuse (.unknown (String.ofList ['-', c]) (some .afterDashes) .general)

def plain (tool : Tool) (text : String) : Reader Unit := do
  if (← get).hasInput then
    settleQuietly tool
    refuse (.unknown text none .general)
  hold tool .input (some text)
  modify fun r => { r with hasInput := true }

def argument (tool : Tool) (text : String) : Reader Unit := do
  let r ← get
  if r.escaped then plain tool text
  else
    match text.toList with
    | ['-', '-'] => set { r with escaped := true }
    | '-' :: '-' :: long =>
        match long.span (· != '=') with
        | (long, []) => longOption tool (String.ofList long) none
        | (long, _ :: value) => longOption tool (String.ofList long) (some (String.ofList value))
    | '-' :: c :: letters => shortOptions tool (c :: letters)
    | _ =>
        match r.pending with
        | some (s, none) => set { r with pending := some (s, some text) }
        | _ => plain tool text

end Reader

def Tool.settings (tool : Tool) (arguments : List String) :
    Except Interruption (List (Setting × String)) :=
  let read : Reader Unit := do
    arguments.forM (Reader.argument tool)
    Reader.settle tool
  match read {} with
  | .ok _ r => .ok r.given
  | .error e _ => .error e

end Lila.Shell
