import Lila.Proofs.Grammar.Derivation
import Lila.Proofs.Parser.Frame

/-! # The environment of a state

What the grammar knows of a state of the parser: the tokens without their places,
and the names in its open scopes. Each operation on scopes is one on environments.
-/

namespace Lila.Parser

open Grammar

def State.tokens (s : State) : List Token := s.rest.map Lexeme.token

def State.env (s : State) : Env where
  here := (s.scopes.frames.headD []).map Prod.fst
  around := s.scopes.frames.tail.map fun table => table.map Prod.fst

theorem State.tokens_cons {s : State} {x : Lexeme} {rest : List Lexeme} (hs : s.rest = x :: rest) :
    s.tokens = x.token :: rest.map Lexeme.token := by
  rw [State.tokens, hs, List.map_cons]

theorem lookup_isSome_iff_mem {α : Type} {table : Scope.Bindings α} {name : String} :
    (List.lookup name table).isSome = true ↔ name ∈ table.map Prod.fst := by
  rw [List.lookup_isSome_iff, List.mem_map]
  constructor
  · rintro ⟨entry, hentry, he⟩
    exact ⟨entry, hentry, (beq_iff_eq.1 he).symm⟩
  · rintro ⟨entry, hentry, he⟩
    exact ⟨entry, hentry, beq_iff_eq.2 he.symm⟩

theorem isDefinedHere_iff (s : State) (name : String) :
    s.scopes.isDefinedHere name = true ↔ name ∈ s.env.here := by
  obtain ⟨table, outer, hframes⟩ := List.exists_cons_of_ne_nil s.scopes.frames_ne_nil
  have hhere : s.scopes.isDefinedHere name = (s.scopes.here? name).isSome := rfl
  rw [hhere, Scope.Chain.here?_eq_frames, State.env, hframes]
  exact lookup_isSome_iff_mem

theorem lookup_isNone_eq_false_iff (s : State) (name : String) :
    (s.scopes.lookup name).isNone = false ↔ s.env.Sees name := by
  obtain ⟨table, outer, hframes⟩ := List.exists_cons_of_ne_nil s.scopes.frames_ne_nil
  rw [Option.isNone_eq_false_iff]
  rw [Scope.Chain.lookup_eq_frames, List.findSome?_isSome_iff, State.env, Env.Sees, hframes]
  have houter : (∃ names ∈ outer.map fun table => table.map Prod.fst, name ∈ names) ↔
      ∃ table ∈ outer, name ∈ table.map Prod.fst := by
    constructor
    · rintro ⟨names, hnames, hname⟩
      obtain ⟨table, htable, rfl⟩ := List.mem_map.1 hnames
      exact ⟨table, htable, hname⟩
    · rintro ⟨table, htable, hname⟩
      exact ⟨_, List.mem_map_of_mem htable, hname⟩
  rw [List.tail_cons, houter]
  simp only [List.mem_cons, exists_eq_or_imp, lookup_isSome_iff_mem, List.headD_cons]

theorem Kept.env {s t : State} (h : Kept s t) : t.env = s.env := by
  rw [State.env, State.env, h.frames]

theorem env_enter (name : String) (s : State) : (enter name s).env = s.env.inside := by
  obtain ⟨table, outer, hframes⟩ := List.exists_cons_of_ne_nil s.scopes.frames_ne_nil
  simp [State.env, enter, Env.inside, hframes]

theorem env_define (s : State) (name : String) (params : List String) (events : List Scope.Event) :
    State.env { s with scopes := s.scopes.define name params, events := events } =
      s.env.bind name := by
  obtain ⟨table, outer, hframes⟩ := List.exists_cons_of_ne_nil s.scopes.frames_ne_nil
  simp [State.env, Env.bind, hframes, Scope.bindFront]

/-- Binding the parameters reads nothing. -/
theorem defineAll_run (params : List String) (s : State) :
    ∃ t, (params.forM fun param => define param []) s = .ok () t ∧ t.rest = s.rest ∧
      t.depth = s.depth ∧ t.env = s.env.bindAll params := by
  induction params generalizing s with
  | nil => exact ⟨s, rfl, rfl, rfl, rfl⟩
  | cons param params ih =>
      obtain ⟨t, ht, hrest, hdepth, henv⟩ := ih { s with
        scopes := s.scopes.define param []
        events := .bound param (s.scopes.isDefinedHere param) :: s.events }
      rw [env_define] at henv
      exact ⟨t, ht, hrest, hdepth, henv⟩

/-! ## Blocks -/

def blockStart (s : State) (rest : List Lexeme) : State :=
  enter ("anon" ++ toString s.opened)
    { s with rest := rest, opened := s.opened + 1, depth := s.depth + 1 }

def blockEnd (t : State) : State :=
  let t := leave t
  { t with depth := t.depth - 1 }

theorem env_blockStart (s : State) (rest : List Lexeme) :
    (blockStart s rest).env = s.env.inside := env_enter _ _

theorem block_eq (nested : Parser Tree) (opening : Span) {s : State} {x : Lexeme}
    {rest : List Lexeme} (hs : s.rest = x :: rest) :
    block nested opening s =
      match statements nested true rest (blockStart s rest) with
      | .error e t => .error e (blockEnd t)
      | .ok body t =>
          match blockOf (s.depth + 1) body with
          | .ok tree => .ok tree (blockEnd { t with rest := t.rest.tail })
          | .error cause =>
              .error ⟨cause, some opening⟩ (blockEnd { t with rest := t.rest.tail }) := by
  rw [block_run nested opening hs, inScope, blockInside_run, ← blockStart]
  rw [show (blockStart s rest).rest = rest from rfl]
  cases statements nested true rest (blockStart s rest) with
  | ok body t => rfl
  | error e t => rfl

end Lila.Parser
