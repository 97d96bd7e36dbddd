import Lila.Proofs.Parser.Stepwise

/-! # Scopes behind a production

Every production gives the scopes back as it found them, whether it succeeds or
fails. The one exception is a value or a definition that is read to its end: its
name, and no other, is then bound in the innermost scope, where it was free. No
binding is ever replaced.

The productions that begin with a token of their own do not look at it. What they
do with the scopes is thus the same at any token, while the count of the opened
blocks is right only where they are called, in front of that token.
-/

namespace Lila

def Tree.bindings : Tree → Scope.Bindings (List String)
  | .value name _ => [(name, [])]
  | .definition name params _ => [(name, params)]
  | _ => []

theorem Tree.bindings_of_isExpr {tree : Tree} (h : tree.isExpr = true) : tree.bindings = [] := by
  cases tree
  case value => cases h
  case definition => cases h
  all_goals rfl

namespace Parser

variable {α : Type}

/-- The functions of the parser, by what they read. -/
inductive Production where
  | statement
  | expression
  | primary
  | group
  | call (name : String)
  | arguments
  | parameters
  | value
  | definition
  | block (opening : Span)

def bindingsOf : EStateM.Result ParseError State Tree → Scope.Bindings (List String)
  | .ok tree _ => tree.bindings
  | .error .. => []

namespace Production

def Result : Production → Type
  | .arguments => List Tree
  | .parameters => List String
  | _ => Tree

def run : (p : Production) → Parser p.Result
  | .statement => Parser.statement Parser.expression
  | .expression => Parser.expression
  | .primary => Parser.primary Parser.expression
  | .group => Parser.group Parser.expression
  | .call name => Parser.call Parser.expression name
  | .arguments => Parser.arguments Parser.expression
  | .parameters => Parser.parameters
  | .value => Parser.value Parser.expression
  | .definition => Parser.definition Parser.expression
  | .block opening => Parser.block Parser.expression opening

def after (p : Production) (s : State) : State := endState (p.run s)

/-- A production that begins with a token of its own is called in front of it. -/
def StartsAt : Production → State → Prop
  | .group, s | .arguments, s => s.rest.head?.map Lexeme.token = some .parenOpen
  | .call name, s => s.rest.head?.map Lexeme.token = some (.ident name)
  | .value, s => s.rest.head?.map Lexeme.token = some .kwVal
  | .definition, s => s.rest.head?.map Lexeme.token = some .kwDef
  | .block opening, s => s.rest.head? = some ⟨opening, .blockOpen⟩
  | _, _ => True

def Binds : Production → State → Prop
  | .statement, s =>
      s.rest.head?.map Lexeme.token = some .kwDef ∨ s.rest.head?.map Lexeme.token = some .kwVal
  | .value, _ | .definition, _ => True
  | _, _ => False

def added : (p : Production) → State → Scope.Bindings (List String)
  | .statement, s => bindingsOf (Parser.statement Parser.expression s)
  | .value, s => bindingsOf (Parser.value Parser.expression s)
  | .definition, s => bindingsOf (Parser.definition Parser.expression s)
  | _, _ => []

/-- What a production does to the scopes and to the blocks of the state it is called in. -/
structure Restores (p : Production) (s : State) : Prop where
  stack : (p.after s).scopes.stack = s.scopes.stack
  path : (p.after s).scopes.path = s.scopes.path
  scopeDepth : (p.after s).scopes.depth = s.scopes.depth
  blockDepth : (p.after s).depth = s.depth
  lookup : ∀ x, (p.after s).scopes.lookup x = ((p.added s).lookup x).or (s.scopes.lookup x)
  here : ∀ x, (p.after s).scopes.isDefinedHere x =
    (((p.added s).lookup x).isSome || s.scopes.isDefinedHere x)
  /-- Only a value or a definition that is read to its end adds a name. -/
  quiet : ¬ p.Binds s → p.added s = []
  failed : ∀ e t, p.run s = .error e t → p.added s = []
  /-- It is the name behind the keyword, which was free. -/
  named : p.Binds s → ∀ a t, p.run s = .ok a t →
    ∃ x, s.rest.tail.head?.map Lexeme.token = some (.ident x) ∧
      (p.added s).map Prod.fst = [x] ∧ s.scopes.isDefinedHere x = false
  opened : p.StartsAt s → ∃ read, s.rest = read ++ (p.after s).rest ∧
    (p.after s).opened = s.opened + opensIn read
  /-- The events so far stay, and among the new ones no binding replaces another. -/
  events : ∃ new, (p.after s).events = new ++ s.events ∧ ∀ x, .bound x true ∉ new

end Production

/-! ## Bindings -/

/-- The later state has everything of the earlier one but tokens, and more in the
innermost scope. -/
structure Extended (s : State) (more : Scope.Bindings (List String)) (t : State) : Prop
    extends Framed s t where
  here : t.scopes.frames.head? = s.scopes.frames.head?.map (more ++ ·)

theorem Kept.extended {s t : State} (h : Kept s t) : Extended s [] t where
  toFramed := h.toFramed
  here := by simp [h.here]

theorem Extended.of_kept {s t u : State} {more : Scope.Bindings (List String)} (h : Kept s t)
    (h' : Extended t more u) : Extended s more u where
  toFramed := h.toFramed.trans h'.toFramed
  here := by rw [h'.here, h.here]

theorem Extended.bind {p : Parser α} {f : α → Parser Tree} {s : State} (hp : Tidy s (p s))
    (hf : ∀ a t, p s = .ok a t → Extended t (bindingsOf (f a t)) (endState (f a t))) :
    Extended s (bindingsOf ((p >>= f) s)) (endState ((p >>= f) s)) := by
  rw [bind_run]
  cases h : p s with
  | ok a t =>
      rw [h] at hp
      exact Extended.of_kept hp.kept (hf a t h)
  | error e t =>
      rw [h] at hp
      exact hp.kept.extended

theorem extended_define (x : String) (params : List String) (s : State) :
    Extended s [(x, params)] (endState (define x params s)) where
  toFramed := framed_define x params s
  here := by
    obtain ⟨table, outer, hframes⟩ := List.exists_cons_of_ne_nil s.scopes.frames_ne_nil
    simp [define_run, hframes, Scope.bindFront]

theorem extended_afterVal (s : State) :
    Extended s (bindingsOf (afterVal expression s)) (endState (afterVal expression s)) := by
  refine Extended.bind (tidy_newName _ s) fun x t _ => ?_
  refine Extended.bind (tidy_expect (by simp) t) fun _ u _ => ?_
  exact Extended.bind (reader_expression.tidy u) fun _ v _ => extended_define x [] v

theorem extended_afterDef (s : State) :
    Extended s (bindingsOf (afterDef expression s)) (endState (afterDef expression s)) := by
  refine Extended.bind (tidy_newName _ s) fun x t _ => ?_
  have hscope := tidy_inScope (orderly_definitionInside reader_expression (enter x t))
  exact Extended.bind hscope fun inside u _ => extended_define x inside.1 u

theorem bindingsOf_expression (s : State) : bindingsOf (expression s) = [] := by
  cases h : expression s with
  | ok tree t => exact Tree.bindings_of_isExpr (sound_expression.isExpr h)
  | error e t => rfl

theorem extended_statement (s : State) :
    Extended s (bindingsOf (statement expression s)) (endState (statement expression s)) := by
  by_cases hdef : s.rest.head?.map Lexeme.token = some .kwDef
  · obtain ⟨span, rest, hs⟩ := exists_of_head hdef
    rw [statement_definition expression hs]
    exact Extended.of_kept (kept_advance hs (by simp)) (extended_afterDef _)
  · by_cases hval : s.rest.head?.map Lexeme.token = some .kwVal
    · obtain ⟨span, rest, hs⟩ := exists_of_head hval
      rw [statement_value expression hs]
      exact Extended.of_kept (kept_advance hs (by simp)) (extended_afterVal _)
    · rw [statement_expression expression hdef hval, bindingsOf_expression]
      exact (reader_expression.tidy s).kept.extended

theorem tidy_arguments {s : State} {span : Span} {rest : List Lexeme}
    (hs : s.rest = ⟨span, .parenOpen⟩ :: rest) : Tidy s (arguments expression s) := by
  rw [arguments, bind_run, advance_run, hs]
  exact Tidy.of_kept (kept_advance hs (by simp)) (tidy_argumentList reader_expression rest _)

namespace Extended

variable {s t : State} {more : Scope.Bindings (List String)}

theorem exists_frames (h : Extended s more t) :
    ∃ table outer, s.scopes.frames = table :: outer ∧ t.scopes.frames = (more ++ table) :: outer := by
  have houter := h.outer
  have hhere := h.here
  obtain ⟨table, outer, hs⟩ := List.exists_cons_of_ne_nil s.scopes.frames_ne_nil
  obtain ⟨table', outer', ht⟩ := List.exists_cons_of_ne_nil t.scopes.frames_ne_nil
  simp only [hs, ht, List.tail_cons, List.head?_cons, Option.map_some, Option.some.injEq]
    at houter hhere
  exact ⟨table, outer, hs, by rw [ht, houter, hhere]⟩

theorem lookup_eq (h : Extended s more t) (x : String) :
    t.scopes.lookup x = (more.lookup x).or (s.scopes.lookup x) := by
  obtain ⟨table, outer, hs, ht⟩ := h.exists_frames
  simp only [Scope.Chain.lookup_eq_frames, hs, ht, List.findSome?_cons, List.lookup_append]
  cases more.lookup x <;> rfl

theorem isDefinedHere_eq (h : Extended s more t) (x : String) :
    t.scopes.isDefinedHere x = ((more.lookup x).isSome || s.scopes.isDefinedHere x) := by
  obtain ⟨table, outer, hs, ht⟩ := h.exists_frames
  have hhere : ∀ u : State, u.scopes.isDefinedHere x = (u.scopes.here? x).isSome := fun _ => rfl
  simp only [hhere, Scope.Chain.here?_eq_frames, hs, ht, List.head?_cons, Option.bind_some,
    List.lookup_append, Option.isSome_or]

end Extended

/-- The tokens that are read are those in front of the ones that are left. -/
theorem Framed.exists_read {s t : State} (h : Framed s t) :
    ∃ read, s.rest = read ++ t.rest ∧ t.opened = s.opened + opensIn read := by
  obtain ⟨read, hread⟩ := h.rest
  have hopened := h.opened
  rw [← hread, opensIn, opensIn, List.countP_append] at hopened
  refine ⟨read, hread.symm, ?_⟩
  unfold opensIn
  omega

/-! ## Names -/

theorem head_of_newName {expected : Expectation} {s t : State} {x : String}
    (h : newName expected s = .ok x t) : s.rest.head?.map Lexeme.token = some (.ident x) := by
  by_cases hs : ∃ span y rest, s.rest = ⟨span, .ident y⟩ :: rest
  · obtain ⟨span, y, rest, hs⟩ := hs
    rw [newName_ident expected hs] at h
    split at h
    · cases h
    · cases h
      rw [hs]
      rfl
  · rw [newName_other expected fun span y rest hs' => hs ⟨span, y, rest, hs'⟩] at h
    exact (unexpected_ne_ok h).elim

/-- The tree binds the name at the current token, which is free. -/
def BindsHead (s : State) (tree : Tree) : Prop :=
  ∃ x, s.rest.head?.map Lexeme.token = some (.ident x) ∧ tree.bindings.map Prod.fst = [x] ∧
    s.scopes.isDefinedHere x = false

theorem bindsHead_afterVal {s t : State} {tree : Tree} (h : afterVal expression s = .ok tree t) :
    BindsHead s tree := by
  obtain ⟨x, u, hx, h⟩ := bind_eq_ok.1 h
  obtain ⟨_, v, -, h⟩ := bind_eq_ok.1 h
  obtain ⟨expr, w, -, h⟩ := bind_eq_ok.1 h
  cases h
  exact ⟨x, head_of_newName hx, rfl, free_of_newName hx⟩

theorem bindsHead_afterDef {s t : State} {tree : Tree} (h : afterDef expression s = .ok tree t) :
    BindsHead s tree := by
  obtain ⟨x, u, hx, h⟩ := bind_eq_ok.1 h
  obtain ⟨inside, v, -, h⟩ := bind_eq_ok.1 h
  cases h
  exact ⟨x, head_of_newName hx, rfl, free_of_newName hx⟩

/-! ## Events -/

/-- The events so far stay, and no new binding replaces another. -/
def Unreplaced (s t : State) : Prop :=
  ∃ new, t.events = new ++ s.events ∧ ∀ x, .bound x true ∉ new

theorem Unreplaced.leave {s t : State} {x : String} (h : Unreplaced (enter x s) t) :
    Unreplaced s (leave t) := by
  obtain ⟨new, hnew, hbound⟩ := h
  refine ⟨.left t.scopes.stack :: new ++ [.entered (s.scopes.push x).stack], ?_, ?_⟩
  · simp [Parser.leave, hnew, enter]
  · simpa using hbound

theorem Unreplaced.trans {s t u : State} (h : Unreplaced s t) (h' : Unreplaced t u) :
    Unreplaced s u := by
  obtain ⟨new, hnew, hbound⟩ := h
  obtain ⟨newer, hnewer, hbound'⟩ := h'
  refine ⟨newer ++ new, by rw [hnewer, hnew, List.append_assoc], ?_⟩
  intro x hx
  exact (List.mem_append.1 hx).elim (hbound' x) (hbound x)

theorem unreplaced_of_events {s t : State} (h : t.events = s.events) : Unreplaced s t :=
  ⟨[], h, by simp⟩

/-- Every call of `define` is among the events, with whether it replaces a binding. -/
theorem events_define (x : String) (params : List String) (s : State) :
    (endState (define x params s)).events = .bound x (s.scopes.here? x).isSome :: s.events := by
  rw [define_run]
  rfl

theorem unreplaced_define {s : State} {x : String} (params : List String)
    (hfree : s.scopes.isDefinedHere x = false) : Unreplaced s (endState (define x params s)) := by
  have hnone : (s.scopes.here? x).isSome = false := hfree
  exact ⟨[.bound x false], by rw [events_define, hnone]; rfl, by simp⟩

theorem stepwise_unreplaced :
    Stepwise (fun s _ t => Unreplaced s t) (fun s _ t => Unreplaced s t) where
  stay := fun _ => unreplaced_of_events rfl
  move := fun _ _ => unreplaced_of_events rfl
  trans := Unreplaced.trans
  fail := fun _ _ _ _ _ => unreplaced_of_events rfl
  unknown := fun _ => unreplaced_of_events rfl
  define := unreplaced_define
  block := fun _ h _ => h.leave
  blockError := fun _ h => h.leave
  widen := fun h => h
  definition := fun _ h => h.leave
  bound := fun params h hfree => h.trans (unreplaced_define params hfree)
  line := fun h _ h' => h.trans h'
  stop := fun _ h _ => h

/-! ## Productions -/

namespace Production

/-- A production does the same at the token it is called at as at any other. -/
theorem exists_startsAt (p : Production) (s : State) :
    ∃ rest, p.StartsAt { s with rest := rest } ∧
      p.after { s with rest := rest } = p.after s ∧ p.added { s with rest := rest } = p.added s := by
  cases p with
  -- These look at the current token themselves and may be called at any.
  | statement => exact ⟨s.rest, trivial, rfl, rfl⟩
  | expression => exact ⟨s.rest, trivial, rfl, rfl⟩
  | primary => exact ⟨s.rest, trivial, rfl, rfl⟩
  | parameters => exact ⟨s.rest, trivial, rfl, rfl⟩
  -- And these move on from it first of all, so that any token may stand there.
  | group => exact ⟨⟨⟨0, 0, 0⟩, .parenOpen⟩ :: s.rest.tail, rfl, rfl, rfl⟩
  | call name => exact ⟨⟨⟨0, 0, 0⟩, .ident name⟩ :: s.rest.tail, rfl, rfl, rfl⟩
  | arguments => exact ⟨⟨⟨0, 0, 0⟩, .parenOpen⟩ :: s.rest.tail, rfl, rfl, rfl⟩
  | value => exact ⟨⟨⟨0, 0, 0⟩, .kwVal⟩ :: s.rest.tail, rfl, rfl, rfl⟩
  | definition => exact ⟨⟨⟨0, 0, 0⟩, .kwDef⟩ :: s.rest.tail, rfl, rfl, rfl⟩
  | block opening => exact ⟨⟨opening, .blockOpen⟩ :: s.rest.tail, rfl, rfl, rfl⟩

theorem extended_run {p : Production} {s : State} (hstart : p.StartsAt s) :
    Extended s (p.added s) (p.after s) := by
  cases p with
  | statement => exact extended_statement s
  | expression => exact (reader_expression.tidy s).kept.extended
  | primary => exact (tidy_primary reader_expression s).kept.extended
  | parameters => exact (tidy_parameters s).kept.extended
  | group =>
      obtain ⟨span, rest, hs⟩ := exists_of_head hstart
      have hkept := (tidy_group reader_expression hs).kept
      exact ((kept_advance hs (by simp)).trans hkept).extended
  | call name =>
      obtain ⟨span, rest, hs⟩ := exists_of_head hstart
      have hkept := (tidy_call reader_expression name hs).kept
      exact ((kept_advance hs (by simp)).trans hkept).extended
  | arguments =>
      obtain ⟨span, rest, hs⟩ := exists_of_head hstart
      exact (tidy_arguments hs).kept.extended
  | value =>
      obtain ⟨span, rest, hs⟩ := exists_of_head hstart
      have hafter := extended_afterVal { s with rest := rest }
      rw [← value_run Parser.expression hs] at hafter
      exact Extended.of_kept (kept_advance hs (by simp)) hafter
  | definition =>
      obtain ⟨span, rest, hs⟩ := exists_of_head hstart
      have hafter := extended_afterDef { s with rest := rest }
      rw [← definition_run Parser.expression hs] at hafter
      exact Extended.of_kept (kept_advance hs (by simp)) hafter
  | block opening =>
      obtain ⟨rest, hs⟩ := List.head?_eq_some_iff.1 hstart
      exact (tidy_block reader_expression hs).kept.extended

theorem unreplaced_run {p : Production} {s : State} (hstart : p.StartsAt s) :
    Unreplaced s (p.after s) := by
  have hR := stepwise_unreplaced
  have hn := hR.expression
  cases p with
  | statement => exact hR.statement hn s
  | expression => exact hn.follows s
  | primary => exact hR.primary hn s
  | parameters => exact hR.parameters s
  | group =>
      obtain ⟨span, rest, hs⟩ := exists_of_head hstart
      exact hR.group hn hs
  | call name =>
      obtain ⟨span, rest, hs⟩ := exists_of_head hstart
      exact hR.call hn name hs
  | arguments =>
      obtain ⟨span, rest, hs⟩ := exists_of_head hstart
      exact hR.arguments hn hs
  | value =>
      obtain ⟨span, rest, hs⟩ := exists_of_head hstart
      have hafter := hR.of_move hs rfl (hR.afterVal hn _)
      rw [← value_run Parser.expression hs] at hafter
      exact hafter
  | definition =>
      obtain ⟨span, rest, hs⟩ := exists_of_head hstart
      have hafter := hR.afterDef hn hs
      rw [← definition_run Parser.expression hs] at hafter
      exact hafter
  | block opening =>
      obtain ⟨rest, hs⟩ := List.head?_eq_some_iff.1 hstart
      exact hR.blockAt hn hs

theorem added_of_not_binds {p : Production} {s : State} (h : ¬ p.Binds s) : p.added s = [] := by
  cases p with
  | statement =>
      rw [Binds, not_or] at h
      rw [added, statement_expression Parser.expression h.1 h.2, bindingsOf_expression]
  | value => exact (h trivial).elim
  | definition => exact (h trivial).elim
  | _ => rfl

theorem added_of_error {p : Production} {s t : State} {e : ParseError}
    (h : p.run s = .error e t) : p.added s = [] := by
  cases p with
  | statement => exact congrArg bindingsOf h
  | value => exact congrArg bindingsOf h
  | definition => exact congrArg bindingsOf h
  | _ => rfl

/-- What a value or a definition binds stands behind its keyword. -/
theorem named_of_ok {p : Production} {s t : State} {a : p.Result} (hbinds : p.Binds s)
    (h : p.run s = .ok a t) :
    ∃ x, s.rest.tail.head?.map Lexeme.token = some (.ident x) ∧
      (p.added s).map Prod.fst = [x] ∧ s.scopes.isDefinedHere x = false := by
  cases p with
  | statement =>
      change Parser.statement Parser.expression s = .ok a t at h
      rw [added, h]
      rcases hbinds with hdef | hval
      · obtain ⟨span, rest, hs⟩ := exists_of_head hdef
        rw [statement_definition Parser.expression hs] at h
        rw [hs]
        exact bindsHead_afterDef h
      · obtain ⟨span, rest, hs⟩ := exists_of_head hval
        rw [statement_value Parser.expression hs] at h
        rw [hs]
        exact bindsHead_afterVal h
  | value =>
      have hadded : Production.value.added s = Tree.bindings a := congrArg bindingsOf h
      rw [hadded]
      exact bindsHead_afterVal (s := { s with rest := s.rest.tail }) h
  | definition =>
      have hadded : Production.definition.added s = Tree.bindings a := congrArg bindingsOf h
      rw [hadded]
      exact bindsHead_afterDef (s := { s with rest := s.rest.tail }) h
  | _ => exact hbinds.elim

end Production

/-- Every production, in every state, gives back the scopes and blocks it was called with,
up to the name of a value or definition that was read to its end; and over a whole parse no
binding takes the place of another. -/
theorem production_restores_scopes :
    (∀ (p : Production) (s : State), p.Restores s) ∧
    ∀ (lexemes : List Lexeme) (x : String),
      .bound x true ∉ (endState (parseRun lexemes)).events := by
  constructor
  · intro p s
    -- The scopes do not depend on the first token; the count of blocks does.
    obtain ⟨rest, hstart, hafter, hadded⟩ := p.exists_startsAt s
    have hextended := Production.extended_run hstart
    have hevents := Production.unreplaced_run hstart
    rw [hafter] at hevents
    rw [hafter, hadded] at hextended
    have hstack : (p.after s).scopes.stack = s.scopes.stack := hextended.stack
    exact {
      stack := hstack
      path := by rw [Scope.Chain.path_eq, hstack, Scope.Chain.path_eq]
      scopeDepth := by rw [Scope.Chain.depth_eq, hstack, Scope.Chain.depth_eq]
      blockDepth := hextended.depth
      lookup := hextended.lookup_eq
      here := hextended.isDefinedHere_eq
      quiet := Production.added_of_not_binds
      failed := fun _ _ => Production.added_of_error
      named := fun hbinds _ _ => Production.named_of_ok hbinds
      opened := fun hstart => (Production.extended_run hstart).exists_read
      events := hevents }
  · intro lexemes x
    obtain ⟨new, hnew, hbound⟩ := stepwise_unreplaced.parseRun lexemes
    rw [hnew, List.append_nil]
    exact hbound x

/-- At a block in a block of which the inner one is empty, and at a value. -/
theorem production_restores_scopes_twice :
    let braces : State := { rest := [⟨⟨0, 1, 1⟩, .blockOpen⟩, ⟨⟨1, 2, 1⟩, .blockOpen⟩,
      ⟨⟨2, 3, 1⟩, .blockClose⟩] }
    let block := Production.block ⟨0, 1, 1⟩
    let binding : State := {
      rest := [⟨⟨0, 3, 1⟩, .kwVal⟩, ⟨⟨4, 5, 1⟩, .ident "a"⟩, ⟨⟨6, 7, 1⟩, .assign⟩,
        ⟨⟨8, 9, 1⟩, .ident "b"⟩]
      scopes := Scope.Chain.new.define "b" [] }
    (block.StartsAt braces ∧ (∃ e t, block.run braces = .error e t) ∧ block.added braces = [] ∧
      ∃ read, braces.rest = read ++ (block.after braces).rest ∧
        (block.after braces).opened = braces.opened + opensIn read) ∧
    (Production.value.Binds binding ∧ (∃ tree t, Production.value.run binding = .ok tree t) ∧
      ∃ x, binding.rest.tail.head?.map Lexeme.token = some (.ident x) ∧
        (Production.value.added binding).map Prod.fst = [x] ∧
        binding.scopes.isDefinedHere x = false) := by
  intro braces block binding
  refine ⟨⟨rfl, ⟨_, _, rfl⟩, ?_, ?_⟩, trivial, ⟨_, _, rfl⟩, ?_⟩
  · exact (production_restores_scopes.1 block braces).failed _ _ rfl
  · exact (production_restores_scopes.1 block braces).opened rfl
  · exact (production_restores_scopes.1 .value binding).named trivial _ _ rfl

end Parser

end Lila
