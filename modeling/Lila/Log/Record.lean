import Lila.Log.Filter
import Lila.Stage
import Lila.Text.Quoted

/-!
# Log records

What a compilation logs: every token and every character passed over, then every
scope entered and left.
-/

namespace Lila.Log

structure Record where
  level : Level
  source : String
  /-- The names of its fields, of which the message is one. -/
  fields : List String
  text : String
deriving DecidableEq

def Record.display (r : Record) : String := s!"{r.level.name} {r.source}: {r.text}"

def ofLexEvent (event : LexEvent) : Record :=
  let record (fields : List String) (text : String) : Record :=
    ⟨.trace, "lila_syntax::lexer", "message" :: fields, text⟩
  match event with
  | .token x => record ["span", "token"] s!"token span={x.span.display} token={x.token.display}"
  | .skipped c lo =>
      record ["c", "lo"] s!"skipping unrecognized character c={Text.quoted c} lo={lo}"

/-- The record of a scope event. Bindings are not logged. -/
def ofScopeEvent? (event : Scope.Event) : Option Record :=
  let record (text : String) : Record := ⟨.debug, "lila_syntax::parser", ["message", "scope"], text⟩
  match event with
  | .entered stack => some (record s!"enter scope scope={Scope.pathOf stack}")
  | .left stack => some (record s!"leave scope scope={Scope.pathOf stack}")
  | .bound .. => none

def records (source : String) : List Record :=
  match (Lexer.ofString source).run with
  | .error _ l => l.events.reverse.map ofLexEvent
  | .ok lexemes l =>
      let events := match parseRun lexemes with
        | .ok _ s | .error _ s => s.events
      l.events.reverse.map ofLexEvent ++ events.reverse.filterMap ofScopeEvent?

def lines (filter : Filter) (source : String) : List String :=
  ((records source).filter fun r => filter.shows r.source r.fields r.level).map Record.display

end Lila.Log
