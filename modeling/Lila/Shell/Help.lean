import Lila.Shell.Setting

/-!
# Usage and help texts
-/

namespace Lila.Shell

/-- What a usage line shows: that there are options, certain settings in place of
them, or a setting and the choice between all others. -/
inductive Usage where
  | general
  | naming (shown : List Setting)
  | choosing (setting : Setting)
deriving DecidableEq

namespace Tool

def alternatives (tool : Tool) : String :=
  "<" ++ "|".intercalate (tool.configurable.map Setting.alternative) ++ ">"

def usageParts (tool : Tool) : Usage → List String
  | .general => ["[OPTIONS]", Setting.input.display false]
  | .naming shown =>
      (shown.filter (· != .input)).map (·.display true) ++
        [Setting.input.display (shown.contains .input)]
  | .choosing s =>
      if tool.configurable.contains s then [tool.alternatives]
      else [s.display true, tool.alternatives]

def usage (tool : Tool) (u : Usage) : String :=
  " ".intercalate ("Usage:" :: tool.name :: tool.usageParts u)

/-- A default value, in quotes if it has a space. -/
def defaultNote (value : String) : String :=
  if value.contains ' ' then s!"[default: \"{value}\"]" else s!"[default: {value}]"

def explanation (tool : Tool) (s : Setting) : String :=
  " ".intercalate
    ((tool.description? s).toList ++ (environment? s).toList.map (fun v => s!"[env: {v}=]") ++
      (tool.default? s).toList.map defaultNote)

def spelling (s : Setting) : String :=
  match s.short? with
  | some c => s!"-{c}, {s.display true}"
  | none => s!"    {s.display true}"

def padTo (width : Nat) (text : String) : String :=
  text ++ String.ofList (List.replicate (width - text.length) ' ')

def help (tool : Tool) : String :=
  let width := (tool.options.map fun s => (spelling s).length).foldl max 0
  let option (s : Setting) := s!"  {padTo width (spelling s)}  {tool.explanation s}\n"
  String.join
    ([tool.about ++ "\n\n", tool.usage .general ++ "\n\n",
      "Arguments:\n", s!"  {Setting.input.display false}  {tool.explanation .input}\n\n",
      "Options:\n"] ++ tool.options.map option)

def versionText (tool : Tool) : String := s!"{tool.name} {version}\n"

end Tool

end Lila.Shell
