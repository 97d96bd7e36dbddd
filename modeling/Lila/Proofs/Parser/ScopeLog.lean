import Lila.Log.Record
import Lila.Proofs.Parser.Stepwise
import Lila.Proofs.Scope.Bracketing

/-! # The log of a parse

The log of every parse is bracketed, of one that fails as well. Which scopes it enters is
told by the tokens alone: a block opens at its brace, and a definition at its name. Where a
scope ends is told by them as well, if the tokens are read up to the next line break or
brace: a block ends at its closing brace and a definition with its line. The outline of
some tokens says what of all this is known when they have been read, and is compared with
a run of the parser step by step.
-/

namespace Lila.Parser

open Scope

/-! ## Outlines -/

/-- The scopes of a program as far as its tokens have been read. -/
structure Outline where
  /-- The number of blocks that have been opened. -/
  opened : Nat := 0
  /-- The scopes that are open, innermost first. -/
  scopes : List Entry := []
  /-- The scopes that have been entered, in order. -/
  entered : List Entry := []
  /-- The last token is the keyword of a definition. -/
  afterDef : Bool := false
deriving DecidableEq

namespace Outline

def enter (o : Outline) (entry : Entry) : Outline :=
  { o with scopes := entry :: o.scopes, entered := o.entered ++ [entry], afterDef := false }

def next (o : Outline) : Token → Outline
  | .blockOpen => { o.enter (.block o.opened) with opened := o.opened + 1 }
  | .blockClose =>
      { o with scopes := (o.scopes.dropWhile Entry.isDefinition).tail, afterDef := false }
  | .newline => { o with scopes := o.scopes.dropWhile Entry.isDefinition, afterDef := false }
  | .kwDef => { o with afterDef := true }
  | .ident name => if o.afterDef then o.enter (.definition name) else o
  | _ => { o with afterDef := false }

def read (o : Outline) (lexemes : List Lexeme) : Outline :=
  lexemes.foldl (fun o x => o.next x.token) o

theorem read_cons (o : Outline) (x : Lexeme) (lexemes : List Lexeme) :
    o.read (x :: lexemes) = (o.next x.token).read lexemes := rfl

theorem read_append (o : Outline) (lexemes more : List Lexeme) :
    o.read (lexemes ++ more) = (o.read lexemes).read more := List.foldl_append

theorem next_plain {o : Outline} {token : Token} (hafter : o.afterDef = false)
    (htoken : isPlain token = true) : o.next token = o := by
  obtain ⟨opened, scopes, entered, afterDef⟩ := o
  cases hafter
  cases token
  case newline | blockOpen | blockClose | kwDef => cases htoken
  all_goals rfl

theorem read_plain {o : Outline} (hafter : o.afterDef = false) {lexemes : List Lexeme}
    (h : ∀ x ∈ lexemes, isPlain x.token = true) : o.read lexemes = o := by
  induction lexemes with
  | nil => rfl
  | cons x lexemes ih =>
      obtain ⟨hx, hlexemes⟩ := List.forall_mem_cons.1 h
      rw [read_cons, next_plain hafter hx, ih hlexemes]

theorem entered_next (o : Outline) (token : Token) : o.entered <+: (o.next token).entered := by
  cases token
  case blockOpen => exact List.prefix_append _ _
  case ident name =>
    rw [next]
    split
    · exact List.prefix_append _ _
    · exact List.prefix_rfl
  all_goals exact List.prefix_rfl

theorem entered_read (o : Outline) (lexemes : List Lexeme) :
    o.entered <+: (o.read lexemes).entered := by
  induction lexemes generalizing o with
  | nil => exact List.prefix_rfl
  | cons x lexemes ih => exact (o.entered_next x.token).trans (ih (o.next x.token))

/-- The blocks that have been entered are numbered from 0 on. -/
def Numbered (o : Outline) : Prop := o.entered.filterMap Entry.index? = List.range o.opened

theorem Numbered.next {o : Outline} (h : o.Numbered) (token : Token) : (o.next token).Numbered := by
  unfold Numbered at h ⊢
  cases token
  case blockOpen =>
    rw [Outline.next, enter, List.filterMap_append, h, List.range_succ]
    rfl
  case ident name =>
    rw [Outline.next]
    split
    · rw [enter, List.filterMap_append, h]
      exact List.append_nil _
    · exact h
  all_goals exact h

theorem Numbered.read {o : Outline} (h : o.Numbered) (lexemes : List Lexeme) :
    (o.read lexemes).Numbered := by
  induction lexemes generalizing o with
  | nil => exact h
  | cons x lexemes ih => exact ih (h.next x.token)

end Outline

def outline (lexemes : List Lexeme) : Outline := Outline.read {} lexemes

/-- However many of the scopes are entered, their blocks are numbered without a gap. -/
theorem index_eq_range {lexemes : List Lexeme} {entries : List Entry}
    (h : entries <+: (outline lexemes).entered) :
    ∃ blocks, entries.filterMap Entry.index? = List.range blocks := by
  have hempty : Outline.Numbered {} := rfl
  have hnumbered : (outline lexemes).Numbered := hempty.read lexemes
  have hprefix := h.filterMap Entry.index?
  rw [hnumbered] at hprefix
  rw [List.prefix_iff_eq_take.1 hprefix, List.take_range]
  exact ⟨_, rfl⟩

/-! ## Lines -/

def State.log (s : State) : List Line := s.events.reverse.filterMap Event.line?

theorem log_enter (name : String) (s : State) :
    (enter name s).log = s.log ++ [.enter (s.scopes.path ++ "." ++ name)] := by
  rw [Chain.path_eq]
  simp [State.log, enter, Event.line?, pathOf_cons s.scopes.stack_ne_nil]

theorem log_leave (s : State) : (leave s).log = s.log ++ [.leave s.scopes.path] := by
  unfold State.log leave
  rw [List.reverse_cons, List.filterMap_append, Chain.path_eq]
  rfl

theorem log_define (name : String) (params : List String) (s : State) :
    (endState (define name params s)).log = s.log := by
  simp [State.log, define_run, Event.line?]

/-- A run has entered the scopes and left them again, and logged it. -/
structure Logged (s t : State) (entries : List Entry) (lines : List Line) : Prop where
  log : t.log = s.log ++ lines
  bracketed : Bracketed s.scopes.path entries lines
  stack : t.scopes.stack = s.scopes.stack

namespace Logged

variable {s t u : State} {entries more : List Entry} {lines later : List Line}

theorem quiet (hlog : t.log = s.log) (hstack : t.scopes.stack = s.scopes.stack) :
    Logged s t [] [] :=
  ⟨by rw [hlog, List.append_nil], .nil _, hstack⟩

theorem congr (h : Logged s t entries lines) (hevents : u.events = t.events)
    (hscopes : u.scopes = t.scopes) : Logged s u entries lines where
  log := by rw [State.log, hevents, ← State.log, h.log]
  bracketed := h.bracketed
  stack := by rw [hscopes, h.stack]

theorem path (h : Logged s t entries lines) : t.scopes.path = s.scopes.path := by
  rw [Chain.path_eq, h.stack, Chain.path_eq]

theorem trans (h : Logged s t entries lines) (h' : Logged t u more later) :
    Logged s u (entries ++ more) (lines ++ later) where
  log := by rw [h'.log, h.log, List.append_assoc]
  bracketed := h.bracketed.append (h.path ▸ h'.bracketed)
  stack := h'.stack.trans h.stack

end Logged

/-! ## Runs -/

/-- The outline of what has been read fits a state: as many blocks have been opened, and no
keyword waits for its name. -/
structure Fits (o : Outline) (s : State) : Prop where
  opened : o.opened = s.opened
  afterDef : o.afterDef = false

/-- No definition is open in the innermost block. -/
def Settled (scopes : List Entry) : Prop := ∀ entry ∈ scopes.head?, entry.isDefinition = false

/-- A run that succeeds reads tokens and leaves open no scope but the given ones, in an
outline whose open scopes are of the given kind. -/
def Passes (Ready : List Entry → Prop) (ended : List Entry) (s t : State) : Prop :=
  ∃ read entries lines, s.rest = read ++ t.rest ∧ Logged s t entries lines ∧
    ∀ o, Fits o s → Ready o.scopes →
      o.read read = ⟨t.opened, ended ++ o.scopes, o.entered ++ entries, false⟩

/-- A name is not known behind the tokens `read`, where the scopes `inner` are open. From
there on these are left, and nothing else is logged. -/
structure Missing (Ready : List Entry → Prop) (s : State) (lines : List Line) (x : String)
    (span : Span) (read rest : List Lexeme) (inner : List Entry) (before : List Line) : Prop where
  rest : s.rest = read ++ ⟨span, .ident x⟩ :: rest
  lines : lines = before ++ (pathsIn s.scopes.path inner).map .leave
  opened : ∀ paths, openAfter paths before = pathsIn s.scopes.path inner ++ paths
  scopes : ∀ o, Fits o s → Ready o.scopes → (o.read read).scopes = inner ++ o.scopes

/-- An unknown name is reported with the path of the innermost scope open in front of it. -/
def Reports (Ready : List Entry → Prop) (s : State) (lines : List Line) (e : ParseError) : Prop :=
  ∀ x path, e.cause = .unknownName x path →
    ∃ span read rest inner before, e.span = some span ∧ path = pathIn s.scopes.path inner ∧
      Missing Ready s lines x span read rest inner before

/-- A run that fails has entered some of the scopes that are to come. -/
def Fails (Ready : List Entry → Prop) (s : State) (e : ParseError) (t : State) : Prop :=
  ∃ entries lines, Logged s t entries lines ∧
    (∀ o, Fits o s → Ready o.scopes → o.entered ++ entries <+: (o.read s.rest).entered) ∧
    Reports Ready s lines e

section Runs

variable {Ready : List Entry → Prop} {ended : List Entry} {s t u : State} {e : ParseError}

theorem Passes.trans (h : Passes Ready [] s t) (h' : Passes Ready ended t u) :
    Passes Ready ended s u := by
  obtain ⟨read, entries, lines, hrest, hlogged, hread⟩ := h
  obtain ⟨read', entries', lines', hrest', hlogged', hread'⟩ := h'
  refine ⟨read ++ read', entries ++ entries', lines ++ lines', ?_, hlogged.trans hlogged', ?_⟩
  · rw [hrest, hrest', List.append_assoc]
  · -- The outline between the two runs fits the state there, and has the same open scopes.
    intro o hfits hready
    rw [Outline.read_append, hread o hfits hready, ← List.append_assoc]
    exact hread' ⟨t.opened, o.scopes, o.entered ++ entries, false⟩ ⟨rfl, rfl⟩ hready

theorem Passes.fails (h : Passes Ready [] s t) (h' : Fails Ready t e u) : Fails Ready s e u := by
  obtain ⟨read, entries, lines, hrest, hlogged, hread⟩ := h
  obtain ⟨entries', lines', hlogged', hprefix, hreports⟩ := h'
  refine ⟨entries ++ entries', lines ++ lines', hlogged.trans hlogged', ?_, ?_⟩
  · intro o hfits hready
    rw [hrest, Outline.read_append, hread o hfits hready, ← List.append_assoc]
    exact hprefix ⟨t.opened, o.scopes, o.entered ++ entries, false⟩ ⟨rfl, rfl⟩ hready
  · intro x path hcause
    obtain ⟨span, read', rest, inner, before, hspan, hpath, hmissing⟩ := hreports x path hcause
    have hlines := hmissing.lines
    have hopened := hmissing.opened
    rw [hlogged.path] at hpath hlines hopened
    refine ⟨span, read ++ read', rest, inner, lines ++ before, hspan, hpath, ?_, ?_, ?_, ?_⟩
    · rw [hrest, hmissing.rest, List.append_assoc]
    · rw [hlines, List.append_assoc]
    · intro paths
      rw [openAfter_append, hlogged.bracketed.openAfter_eq, hopened]
    · intro o hfits hready
      rw [Outline.read_append, hread o hfits hready]
      exact hmissing.scopes ⟨t.opened, o.scopes, o.entered ++ entries, false⟩ ⟨rfl, rfl⟩ hready

/-- A run that meets no scope. -/
theorem passes_quiet {read : List Lexeme} (hrest : s.rest = read ++ t.rest)
    (hread : ∀ x ∈ read, isPlain x.token = true) (hlog : t.log = s.log)
    (hstack : t.scopes.stack = s.scopes.stack) (hopened : t.opened = s.opened) :
    Passes Ready [] s t := by
  refine ⟨read, [], [], hrest, .quiet hlog hstack, ?_⟩
  intro o hfits _
  rw [Outline.read_plain hfits.afterDef hread, hopened, ← hfits.opened, ← hfits.afterDef,
    List.append_nil, List.nil_append]

theorem Passes.mono {Ready' : List Entry → Prop} (h : Passes Ready ended s t)
    (hready : ∀ scopes, Ready' scopes → Ready scopes) : Passes Ready' ended s t := by
  obtain ⟨read, entries, lines, hrest, hlogged, hread⟩ := h
  exact ⟨read, entries, lines, hrest, hlogged, fun o ho hscopes => hread o ho (hready _ hscopes)⟩

theorem Fails.mono {Ready' : List Entry → Prop} (h : Fails Ready s e t)
    (hready : ∀ scopes, Ready' scopes → Ready scopes) : Fails Ready' s e t := by
  obtain ⟨entries, lines, hlogged, hprefix, hreports⟩ := h
  refine ⟨entries, lines, hlogged, fun o ho hscopes => hprefix o ho (hready _ hscopes), ?_⟩
  intro x path hcause
  obtain ⟨span, read, rest, inner, before, hspan, hpath, hmissing⟩ := hreports x path hcause
  exact ⟨span, read, rest, inner, before, hspan, hpath, hmissing.rest, hmissing.lines,
    hmissing.opened, fun o ho hscopes => hmissing.scopes o ho (hready _ hscopes)⟩

theorem Fails.congr (h : Fails Ready s e t) (hevents : u.events = t.events)
    (hscopes : u.scopes = t.scopes) : Fails Ready s e u := by
  obtain ⟨entries, lines, hlogged, hrest⟩ := h
  exact ⟨entries, lines, hlogged.congr hevents hscopes, hrest⟩

theorem reports_of_ne {lines : List Line} (h : ∀ x path, e.cause ≠ .unknownName x path) :
    Reports Ready s lines e :=
  fun x path hcause => (h x path hcause).elim

theorem Passes.stop (h : Passes Ready ended s t)
    (hcause : ∀ x path, e.cause ≠ .unknownName x path) : Fails Ready s e t := by
  obtain ⟨read, entries, lines, hrest, hlogged, hread⟩ := h
  refine ⟨entries, lines, hlogged, ?_, reports_of_ne hcause⟩
  intro o hfits hready
  have hentered := Outline.entered_read (o.read read) t.rest
  rw [← Outline.read_append, ← hrest, hread o hfits hready] at hentered
  exact hentered

theorem fails_quiet (hlog : t.log = s.log) (hstack : t.scopes.stack = s.scopes.stack)
    (hcause : ∀ x path, e.cause ≠ .unknownName x path) : Fails Ready s e t := by
  refine ⟨[], [], .quiet hlog hstack, ?_, reports_of_ne hcause⟩
  intro o _ _
  rw [List.append_nil]
  exact o.entered_read s.rest

theorem fails_unknown {span : Span} {x : String} {rest : List Lexeme}
    (hs : s.rest = ⟨span, .ident x⟩ :: rest) :
    Fails Ready s ⟨.unknownName x s.scopes.path, some span⟩ s := by
  refine ⟨[], [], .quiet rfl rfl, ?_, ?_⟩
  · intro o _ _
    rw [List.append_nil]
    exact o.entered_read s.rest
  · intro y path hcause
    cases hcause
    exact ⟨span, [], rest, [], [], rfl, rfl, hs, rfl, fun _ => rfl, fun _ _ _ => rfl⟩

end Runs

/-! ## Scopes -/

structure Enters (entry : Entry) (s : State) (opening : List Lexeme) (s' : State) : Prop where
  rest : s.rest = opening ++ s'.rest
  log : s'.log = s.log ++ [.enter (s.scopes.path ++ "." ++ entry.name)]
  stack : ∃ slot, s'.scopes.stack = ⟨entry.name, slot⟩ :: s.scopes.stack
  outline : ∀ o, Fits o s →
    o.read opening = ⟨s'.opened, entry :: o.scopes, o.entered ++ [entry], false⟩

theorem enters_definition {s : State} {span span' : Span} {x : String} {rest : List Lexeme}
    (hs : s.rest = ⟨span, .kwDef⟩ :: ⟨span', .ident x⟩ :: rest) :
    Enters (.definition x) s [⟨span, .kwDef⟩, ⟨span', .ident x⟩]
      (enter x { s with rest := rest }) where
  rest := hs
  log := log_enter x { s with rest := rest }
  stack := ⟨_, Chain.stack_push s.scopes x⟩
  outline := by
    intro o hfits
    rw [← hfits.opened]
    rfl

theorem enters_block {s : State} {span : Span} {rest : List Lexeme}
    (hs : s.rest = ⟨span, .blockOpen⟩ :: rest) :
    Enters (.block s.opened) s [⟨span, .blockOpen⟩] (blockStart s rest) where
  rest := hs
  log := log_enter _ _
  stack := ⟨_, Chain.stack_push s.scopes _⟩
  outline := by
    intro o hfits
    show _ = Outline.mk (s.opened + 1) (.block s.opened :: o.scopes) _ false
    rw [← hfits.opened]
    rfl

section Scopes

variable {entry : Entry} {opening : List Lexeme} {s s' t : State}

theorem Enters.path (h : Enters entry s opening s') :
    s'.scopes.path = s.scopes.path ++ "." ++ entry.name := by
  obtain ⟨slot, hstack⟩ := h.stack
  rw [Chain.path_eq, hstack, Chain.path_eq]
  exact pathOf_cons s.scopes.stack_ne_nil

theorem Enters.logged (h : Enters entry s opening s') {entries : List Entry} {lines : List Line}
    (h' : Logged s' t entries lines) :
    Logged s (leave t) (entry :: entries) (.enter (s.scopes.path ++ "." ++ entry.name) :: lines ++
      [.leave (s.scopes.path ++ "." ++ entry.name)]) where
  log := by
    rw [log_leave, h'.log, h.log, h'.path, h.path]
    simp only [List.append_assoc, List.cons_append, List.nil_append]
  bracketed := .single (h.path ▸ h'.bracketed)
  stack := by
    obtain ⟨slot, hstack⟩ := h.stack
    exact Chain.stack_pop (h'.stack.trans hstack) s.scopes.stack_ne_nil

/-- A failure inside a scope is one of the scope, which is the outermost of those open. -/
theorem Enters.fails {Ready Ready' : List Entry → Prop} {e : ParseError}
    (h : Enters entry s opening s') (hready : ∀ scopes, Ready scopes → Ready' (entry :: scopes))
    (h' : Fails Ready' s' e t) : Fails Ready s e (leave t) := by
  obtain ⟨entries, lines, hlogged, hprefix, hreports⟩ := h'
  have hfits : ∀ o, Fits o s →
      Fits ⟨s'.opened, entry :: o.scopes, o.entered ++ [entry], false⟩ s' := fun _ _ => ⟨rfl, rfl⟩
  refine ⟨entry :: entries, _, h.logged hlogged, ?_, ?_⟩
  · intro o ho hscopes
    have hinside := hprefix _ (hfits o ho) (hready o.scopes hscopes)
    rw [h.rest, Outline.read_append, h.outline o ho]
    rw [List.append_assoc] at hinside
    exact hinside
  · intro x path hcause
    obtain ⟨span, read, rest, inner, before, hspan, hpath, hmissing⟩ := hreports x path hcause
    have hlines := hmissing.lines
    have hopened := hmissing.opened
    rw [h.path] at hpath hlines hopened
    -- The scopes are listed innermost first, so that the one around comes last.
    refine ⟨span, opening ++ read, rest, inner ++ [entry],
      .enter (s.scopes.path ++ "." ++ entry.name) :: before, hspan, ?_, ?_, ?_, ?_, ?_⟩
    · rw [hpath, pathIn_concat]
    · rw [h.rest, hmissing.rest, List.append_assoc]
    · rw [hlines, pathsIn_concat, List.map_append]
      simp only [List.cons_append, List.append_assoc]
      rfl
    · intro paths
      rw [openAfter, hopened, pathsIn_concat, List.append_assoc]
      rfl
    · intro o ho hscopes
      rw [Outline.read_append, h.outline o ho,
        hmissing.scopes _ (hfits o ho) (hready o.scopes hscopes), List.append_assoc]
      rfl

/-- The scope of a definition is left, but in the outline the definition ends later. -/
theorem Enters.passes_definition {x : String} (h : Enters (.definition x) s opening s')
    (h' : Passes (fun _ => True) [] s' t) : Passes Settled [.definition x] s (leave t) := by
  obtain ⟨read, entries, lines, hrest, hlogged, hread⟩ := h'
  refine ⟨opening ++ read, .definition x :: entries, _, ?_, h.logged hlogged, ?_⟩
  · rw [h.rest, hrest, List.append_assoc]
    rfl
  · intro o ho _
    rw [Outline.read_append, h.outline o ho, hread _ ⟨rfl, rfl⟩ trivial, List.append_assoc]
    rfl

theorem settled_block (index : Nat) (scopes : List Entry) : Settled (.block index :: scopes) := by
  intro entry hentry
  cases hentry
  rfl

theorem dropWhile_ended {ended scopes : List Entry} (h : ∀ entry ∈ ended, entry.isDefinition = true)
    (hsettled : Settled scopes) :
    (ended ++ scopes).dropWhile Entry.isDefinition = scopes := by
  rw [List.dropWhile_append_of_pos h]
  cases scopes with
  | nil => rfl
  | cons entry outer => exact List.dropWhile_cons_of_neg (by simp [hsettled entry rfl])

/-- At the closing brace all definitions of the block have ended. -/
theorem Enters.passes_block {index : Nat} (h : Enters (.block index) s opening s')
    {ended : List Entry} (hended : ∀ entry ∈ ended, entry.isDefinition = true)
    (h' : Passes Settled ended s' t) {span : Span} {rest : List Lexeme}
    (ht : t.rest = ⟨span, .blockClose⟩ :: rest) :
    Passes (fun _ => True) [] s (blockEnd { t with rest := rest }) := by
  obtain ⟨read, entries, lines, hrest, hlogged, hread⟩ := h'
  refine ⟨opening ++ (read ++ [⟨span, .blockClose⟩]), .block index :: entries, _, ?_,
    (h.logged hlogged).congr rfl rfl, ?_⟩
  · rw [h.rest, hrest, ht]
    simp [blockEnd, leave]
  · intro o ho _
    have hsettled := settled_block index o.scopes
    rw [Outline.read_append, h.outline o ho, Outline.read_append, hread _ ⟨rfl, rfl⟩ hsettled]
    show Outline.mk _ ((ended ++ .block index :: o.scopes).dropWhile Entry.isDefinition).tail _ _
      = _
    rw [dropWhile_ended hended hsettled, List.append_assoc]
    rfl

/-- A line break ends the definitions in front of it. -/
theorem Passes.settle {ended : List Entry} (h : Passes Settled ended s t)
    (hended : ∀ entry ∈ ended, entry.isDefinition = true) {span : Span} {rest : List Lexeme}
    (ht : t.rest = ⟨span, .newline⟩ :: rest) : Passes Settled [] s { t with rest := rest } := by
  obtain ⟨read, entries, lines, hrest, hlogged, hread⟩ := h
  refine ⟨read ++ [⟨span, .newline⟩], entries, lines, ?_, hlogged.congr rfl rfl, ?_⟩
  · rw [hrest, ht, List.append_assoc]
    rfl
  · intro o ho hsettled
    rw [Outline.read_append, hread o ho hsettled]
    show Outline.mk _ ((ended ++ o.scopes).dropWhile Entry.isDefinition) _ _ = _
    rw [dropWhile_ended hended hsettled]
    rfl

end Scopes

/-! ## Parses -/

/-- What a run does to the log, whether it succeeds or fails. -/
inductive Logs (Ready Ended : List Entry → Prop) (s : State) : Option ParseError → State → Prop
  | ok {ended : List Entry} {t : State} (hended : Ended ended) (h : Passes Ready ended s t) :
      Logs Ready Ended s none t
  | error {e : ParseError} {t : State} (h : Fails Ready s e t) : Logs Ready Ended s (some e) t

def LogsExpression : State → Option ParseError → State → Prop := Logs (fun _ => True) (· = [])

/-- Behind statements, a definition may still wait for the end of its line. -/
def LogsStatements : State → Option ParseError → State → Prop :=
  Logs Settled fun ended => ∀ entry ∈ ended, entry.isDefinition = true

theorem stepwise_log : Stepwise LogsExpression LogsStatements where
  stay := fun s => .ok rfl (passes_quiet rfl (List.forall_mem_nil _) rfl rfl rfl)
  move := by
    intro s x rest hs hx
    exact .ok rfl (passes_quiet hs (List.forall_mem_singleton.2 hx) rfl rfl rfl)
  trans := by
    intro s t u e h h'
    cases h with
    | ok hended h =>
        subst hended
        cases h' with
        | ok hended' h' => exact .ok hended' (h.trans h')
        | error h' => exact .error (h.fails h')
  fail := fun s _ _ _ hcause => .error (fails_quiet rfl rfl hcause)
  unknown := fun hs => .error (fails_unknown hs)
  define := by
    intro s x params _
    have hstack := Chain.stack_define s.scopes x params
    exact .ok rfl (passes_quiet rfl (List.forall_mem_nil _) (log_define x params s) hstack rfl)
  block := by
    intro s t span span' rest rest' hs h ht
    cases h with
    | ok hended h => exact .ok rfl ((enters_block hs).passes_block hended h ht)
  blockError := by
    intro s t e span rest hs h
    cases h with
    | error h =>
        refine .error (Fails.congr ((enters_block hs).fails ?_ h) rfl rfl)
        exact fun scopes _ => settled_block s.opened scopes
  widen := by
    intro s t e h
    cases h with
    | ok hended h =>
        subst hended
        exact .ok (List.forall_mem_nil _) (h.mono fun _ _ => trivial)
    | error h => exact .error (h.mono fun _ _ => trivial)
  definition := by
    intro s t e span span' x rest hs h
    cases h with
    | ok hended h =>
        subst hended
        exact .ok (List.forall_mem_singleton.2 rfl) ((enters_definition hs).passes_definition h)
    | error h => exact .error ((enters_definition hs).fails (fun _ _ => trivial) h)
  bound := by
    intro s t x params h _
    cases h with
    | ok hended h =>
        obtain ⟨read, entries, lines, hrest, hlogged, hread⟩ := h
        refine .ok hended ⟨read, entries, lines, hrest, ⟨?_, hlogged.bracketed, ?_⟩, hread⟩
        · rw [log_define, hlogged.log]
        · exact (Chain.stack_define t.scopes x params).trans hlogged.stack
  line := by
    intro s t u e span rest h ht h'
    cases h with
    | ok hended h =>
        have hsettled := h.settle hended ht
        cases h' with
        | ok hended' h' => exact .ok hended' (hsettled.trans h')
        | error h' => exact .error (hsettled.fails h')
  stop := by
    intro s t cause span h hcause
    cases h with
    | ok hended h => exact .error (h.stop hcause)

def scopeLog (lexemes : List Lexeme) : List Line := (endState (parseRun lexemes)).log

def recordOf (line : Line) : Log.Record :=
  let record (text : String) : Log.Record :=
    ⟨.debug, "lila_syntax::parser", ["message", "scope"], text⟩
  match line with
  | .enter path => record s!"enter scope scope={path}"
  | .leave path => record s!"leave scope scope={path}"

theorem ofScopeEvent?_eq (event : Event) :
    Log.ofScopeEvent? event = event.line?.map recordOf := by
  cases event <;> rfl

theorem fits_empty (lexemes : List Lexeme) : Fits {} { rest := lexemes } := ⟨rfl, rfl⟩

theorem settled_nil : Settled [] := fun _ hentry => by cases hentry

/-- What is left behind a parse that succeeds. -/
theorem rest_of_parseRun {lexemes : List Lexeme} {tree : Tree} {s : State}
    (h : parseRun lexemes = .ok tree s) : s.rest = [] := by
  rw [parseRun_eq] at h
  cases hbody : statements expression false lexemes { rest := lexemes } with
  | error e t =>
      rw [hbody] at h
      cases h
  | ok body t =>
      have hrest :=
        statements_rest reader_expression (s := { rest := lexemes }) (Nat.le_refl _) hbody
      rw [hbody] at h
      dsimp only at h
      cases hprogram : programOf body with
      | error cause =>
          rw [hprogram] at h
          cases h
      | ok tree' =>
          rw [hprogram] at h
          cases h
          exact hrest

theorem bracketed_of_ok {lexemes : List Lexeme} {tree : Tree} {t : State}
    (h : parseRun lexemes = .ok tree t) :
    Bracketed "global" (outline lexemes).entered (scopeLog lexemes) := by
  have hlogs := stepwise_log.parseRun lexemes
  rw [Follows, h] at hlogs
  cases hlogs with
  | ok hended hpasses =>
      obtain ⟨read, entries, lines, hread, hlogged, houtline⟩ := hpasses
      have hall : lexemes = read := by
        rw [endState_ok, rest_of_parseRun h, List.append_nil] at hread
        exact hread
      have hentered : (outline lexemes).entered = entries := by
        rw [hall, outline, houtline {} (fits_empty lexemes) settled_nil]
        exact List.nil_append _
      have hlog : scopeLog lexemes = lines := by
        rw [scopeLog, h]
        exact hlogged.log
      rw [hentered, hlog]
      exact hlogged.bracketed

theorem exists_bracketed_of_error {lexemes : List Lexeme} {e : ParseError} {t : State}
    (h : parseRun lexemes = .error e t) :
    ∃ entries, Bracketed "global" entries (scopeLog lexemes) ∧
      entries <+: (outline lexemes).entered ∧
      Reports Settled { rest := lexemes } (scopeLog lexemes) e := by
  have hlogs := stepwise_log.parseRun lexemes
  rw [Follows, h] at hlogs
  cases hlogs with
  | error hfails =>
      obtain ⟨entries, lines, hlogged, hprefix, hreports⟩ := hfails
      have hlog : scopeLog lexemes = lines := by
        rw [scopeLog, h]
        exact hlogged.log
      rw [hlog]
      exact ⟨entries, hlogged.bracketed, hprefix {} (fits_empty lexemes) settled_nil, hreports⟩

/-- The log of every parse is bracketed. The scopes it enters are the first ones in the
outline of the tokens, and all of them if the parse succeeds; the blocks among them are
numbered from 0 without a gap. An unknown name is reported with the path of the innermost
scope open in front of it, from where on the open scopes are left. -/
theorem parse_log_bracketed (lexemes : List Lexeme) :
    (endState (parseRun lexemes)).events.reverse.filterMap Log.ofScopeEvent? =
      (scopeLog lexemes).map recordOf ∧
    ∃ entries, Bracketed "global" entries (scopeLog lexemes) ∧
      entries <+: (outline lexemes).entered ∧
      (∃ blocks, entries.filterMap Entry.index? = List.range blocks) ∧
      (∀ tree s, parseRun lexemes = .ok tree s → entries = (outline lexemes).entered) ∧
      ∀ e s x path, parseRun lexemes = .error e s → e.cause = .unknownName x path →
        ∃ span read rest before, e.span = some span ∧
          lexemes = read ++ ⟨span, .ident x⟩ :: rest ∧
          openAfter [] before = pathsIn "global" (outline read).scopes ∧
          path = (openAfter [] before).headD "global" ∧
          e.message = "unknown identifier \"" ++ x ++ "\" in scope " ++ path ∧
          scopeLog lexemes = before ++ (openAfter [] before).map .leave := by
  refine ⟨?_, ?_⟩
  · rw [scopeLog, State.log, List.map_filterMap]
    exact congrArg (List.filterMap · _) (funext ofScopeEvent?_eq)
  · cases hrun : parseRun lexemes with
    | ok tree t =>
        refine ⟨_, bracketed_of_ok hrun, List.prefix_rfl, index_eq_range List.prefix_rfl,
          fun _ _ _ => rfl, ?_⟩
        intro e s x path herror
        cases herror
    | error e t =>
        obtain ⟨entries, hbracketed, hprefix, hreports⟩ := exists_bracketed_of_error hrun
        refine ⟨entries, hbracketed, hprefix, index_eq_range hprefix, ?_, ?_⟩
        · intro tree s hok
          cases hok
        · intro e' s x path herror hcause
          cases herror
          obtain ⟨span, read, rest, inner, before, hspan, hpath, hmissing⟩ :=
            hreports x path hcause
          have hinner : (outline read).scopes = inner := by
            rw [outline, hmissing.scopes {} (fits_empty lexemes) settled_nil]
            exact List.append_nil inner
          have hopen : openAfter [] before = pathsIn "global" inner := by
            rw [hmissing.opened]
            exact List.append_nil _
          refine ⟨span, read, rest, before, hspan, hmissing.rest, ?_, ?_, ?_, ?_⟩
          · rw [hopen, hinner]
          · rw [hopen, headD_pathsIn]
            exact hpath
          · rw [ParseError.message, hcause]
            rfl
          · rw [hopen]
            exact hmissing.lines

/-- A parse that succeeds, and one that fails at a name inside a definition, behind a block
on the line above. -/
theorem parse_log_bracketed_behind_block :
    let block : List Lexeme := [⟨⟨0, 1, 1⟩, .blockOpen⟩, ⟨⟨1, 2, 1⟩, .number (.ofRatio 1 1)⟩,
      ⟨⟨2, 3, 1⟩, .blockClose⟩]
    let definition : List Lexeme := [⟨⟨4, 7, 2⟩, .kwDef⟩, ⟨⟨8, 9, 2⟩, .ident "f"⟩,
      ⟨⟨10, 11, 2⟩, .assign⟩, ⟨⟨12, 13, 2⟩, .blockOpen⟩, ⟨⟨13, 14, 2⟩, .ident "y"⟩]
    let lexemes := block ++ ⟨⟨3, 4, 1⟩, .newline⟩ :: definition
    (∃ tree s, parseRun block = .ok tree s) ∧
    Bracketed "global" (outline block).entered (scopeLog block) ∧
    (∃ s, parseRun lexemes =
      .error ⟨.unknownName "y" "global.f.anon1", some ⟨13, 14, 2⟩⟩ s) ∧
    ∃ span read rest before, some ⟨13, 14, 2⟩ = some span ∧
      lexemes = read ++ ⟨span, .ident "y"⟩ :: rest ∧
      openAfter [] before = pathsIn "global" (outline read).scopes ∧
      "global.f.anon1" = (openAfter [] before).headD "global" ∧
      ParseError.message ⟨.unknownName "y" "global.f.anon1", some ⟨13, 14, 2⟩⟩ =
        "unknown identifier \"" ++ "y" ++ "\" in scope " ++ "global.f.anon1" ∧
      scopeLog lexemes = before ++ (openAfter [] before).map .leave := by
  intro block definition lexemes
  have hpath : pathOf [⟨"anon" ++ toString 1, 3⟩, ⟨"f", 2⟩, ⟨"global", 0⟩] = "global.f.anon1" := by
    decide
  have herror : ∃ s, parseRun lexemes = .error ⟨.unknownName "y"
      (pathOf [⟨"anon" ++ toString 1, 3⟩, ⟨"f", 2⟩, ⟨"global", 0⟩]), some ⟨13, 14, 2⟩⟩ s := ⟨_, rfl⟩
  rw [hpath] at herror
  refine ⟨⟨_, _, rfl⟩, ?_, herror, ?_⟩
  · obtain ⟨-, entries, hbracketed, -, -, hentered, -⟩ := parse_log_bracketed block
    rw [← hentered _ _ rfl]
    exact hbracketed
  · obtain ⟨s, herror⟩ := herror
    obtain ⟨-, entries, -, -, -, -, hunknown⟩ := parse_log_bracketed lexemes
    exact hunknown _ s _ _ herror rfl

end Lila.Parser
