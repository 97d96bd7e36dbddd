import Lila.Proofs.Parser.Restoring
import Lila.Proofs.Parser.Recursion

/-! # Progress

Every production leaves some end of the tokens it is called with, and one that is shorter
when it succeeds. A production that begins with a token of its own has read that one in any
case. So each turn of a loop and each expression inside another one finds fewer tokens, and
productions that call each other with no bound on their loops end, at a depth of calls that
the tokens left give. A bound on the loops by these tokens changes nothing.
-/

namespace Lila.Parser

/-- A run that starts behind the current token leaves fewer tokens. -/
theorem shorter_behind {α : Type} {r : EStateM.Result ParseError State α} {s t : State} {a : α}
    {x : Lexeme} {rest : List Lexeme} (hs : s.rest = x :: rest)
    (h : Framed { s with rest := rest } (endState r)) (hr : r = .ok a t) :
    t.rest.length < s.rest.length := by
  rw [hr] at h
  exact Framed.length_lt hs h.rest

theorem arguments_run {nested : Parser Tree} {s : State} {x : Lexeme} {rest : List Lexeme}
    (hs : s.rest = x :: rest) :
    arguments nested s = argumentList nested rest { s with rest := rest } := by
  rw [arguments, bind_run, advance_run, hs]
  rfl

namespace Production

/-- What a production leaves of the tokens that it is called with. -/
structure Advances (p : Production) (s : State) : Prop where
  suffix : (p.after s).rest <:+ s.rest
  /-- Parameters may be missing altogether, with nothing to read. -/
  shorter : p ≠ .parameters → ∀ a t, p.run s = .ok a t → t.rest.length < s.rest.length

theorem shorter_of_ok {p : Production} {s t : State} {a : p.Result} (hp : p ≠ .parameters)
    (hstart : p.StartsAt s) (h : p.run s = .ok a t) : t.rest.length < s.rest.length := by
  have hn := reader_expression
  cases p with
  | parameters => exact (hp rfl).elim
  | statement => exact statement_shorter hn h
  | expression => exact hn.shorter h
  | primary => exact primary_shorter hn h
  | group =>
      obtain ⟨span, rest, hs⟩ := exists_of_head hstart
      exact shorter_behind hs (tidy_group hn hs).kept.toFramed h
  | call name =>
      obtain ⟨span, rest, hs⟩ := exists_of_head hstart
      exact shorter_behind hs (tidy_call hn name hs).kept.toFramed h
  | arguments =>
      obtain ⟨span, rest, hs⟩ := exists_of_head hstart
      have hlist := (tidy_argumentList hn rest { s with rest := rest }).kept.toFramed
      exact shorter_behind hs hlist ((arguments_run hs).symm.trans h)
  | value =>
      obtain ⟨span, rest, hs⟩ := exists_of_head hstart
      have hafter := (orderly_afterVal hn { s with rest := rest }).framed
      exact shorter_behind hs hafter ((value_run Parser.expression hs).symm.trans h)
  | definition =>
      obtain ⟨span, rest, hs⟩ := exists_of_head hstart
      have hafter := (orderly_afterDef hn { s with rest := rest }).framed
      exact shorter_behind hs hafter ((definition_run Parser.expression hs).symm.trans h)
  | block opening =>
      obtain ⟨rest, hs⟩ := List.head?_eq_some_iff.1 hstart
      exact block_shorter hn hs h

theorem advances {p : Production} {s : State} (hstart : p.StartsAt s) : p.Advances s where
  suffix := (extended_run hstart).rest
  shorter := fun hp _ _ h => shorter_of_ok hp hstart h

def within (depth : Nat) : (p : Production) → Attempt p.Result
  | .statement => (Calls.within depth).statement
  | .expression => (Calls.within depth).expression
  | .primary => (Calls.within depth).primary
  | .group => (Calls.within depth).group
  | .call name => (Calls.within depth).call name
  | .arguments => (Calls.within depth).arguments
  | .parameters => Body.parameters (.within depth)
  | .value => (Calls.within depth).value
  | .definition => (Calls.within depth).definition
  | .block opening => (Calls.within depth).block opening

theorem ends (p : Production) {s : State} {depth : Nat} (h : 6 * (s.rest.length + 1) ≤ depth) :
    Ends (p.within depth) p.run s := by
  have hd := calls_suffice depth
  have htail := List.length_tail (l := s.rest)
  cases p with
  | statement => exact hd.statement (by omega)
  | expression => exact hd.expression (by omega)
  | primary => exact hd.primary (by omega)
  | group => exact hd.group (by omega)
  | call name => exact hd.call (by omega)
  | arguments => exact hd.arguments (by omega)
  | parameters => exact hd.parameters (by omega)
  | value => exact hd.value (by omega)
  | definition => exact hd.definition (by omega)
  | block opening => exact hd.block (by omega)

end Production

/-- The loop over operators does nothing at all, or it reads on, also if it fails. -/
theorem operators_progress (left : List Lexeme) (lhs : Tree) (least : Nat) (s : State) :
    operators expression left lhs least s = .ok lhs s ∨
      (endState (operators expression left lhs least s)).rest.length < s.rest.length := by
  cases left with
  | nil => exact .inl rfl
  | cons y left =>
      rcases operators_step expression y left lhs least s with
        ⟨-, he⟩ | ⟨span, op, rest, hs, -, he⟩
      · exact .inl he
      · have htidy := tidy_afterOperator reader_expression
          (tidy_operators reader_expression left) lhs least op { s with rest := rest }
        rw [← he] at htidy
        exact .inr (Framed.length_lt hs htidy.kept.rest)

/-- A bound beyond the tokens that are left is not felt. -/
theorem expressionWithin_eq {left : List Lexeme} {s : State} (h : s.rest.length ≤ left.length) :
    expressionWithin left s = expression s := by
  rw [expression_run]
  exact (Pairing.agree_expressionWithin (Pairing.paired_same s) h (Nat.le_refl _)).eq

/-- From the state on, every loop ends within the depth of calls, and as it does with a bound
by the given tokens. -/
structure LoopsEnd (s : State) (left : List Lexeme) (depth : Nat) : Prop where
  statements : ∀ braced, (Calls.within depth).statements braced s =
    ended (Parser.statements expression braced left s)
  arguments : (Calls.within depth).argumentList s = ended (argumentList expression left s)
  parameters : ∀ seen, (Calls.within depth).parameterList seen s =
    ended (parameterList left seen s)
  operators : ∀ lhs least, (Calls.within depth).operators lhs least s =
    ended (Parser.operators expression left lhs least s)
  expressions : (Calls.within depth).expression s = ended (expressionWithin left s)

theorem loopsEnd {s : State} {left : List Lexeme} {depth : Nat}
    (hleft : s.rest.length ≤ left.length) (h : 6 * (s.rest.length + 1) ≤ depth) :
    LoopsEnd s left depth where
  statements := fun _ => (calls_suffice depth).statements hleft (by omega)
  arguments := (calls_suffice depth).argumentList hleft (by omega)
  parameters := fun _ => (calls_suffice depth).parameterList hleft (by omega)
  operators := fun _ _ => (calls_suffice depth).operators hleft (by omega)
  expressions := by
    rw [expressionWithin_eq hleft]
    exact (calls_suffice depth).expression (by omega)

theorem ends_program {s : State} {depth : Nat} (h : 6 * (s.rest.length + 1) ≤ depth) :
    Ends (Body.program (.within depth)) program s := by
  apply Ends.of_bound
  refine .bind ((loopsEnd (Nat.le_refl _) h).statements false) fun body t _ => ?_
  cases programOf body with
  | ok tree => exact .lift (pure tree) t
  | error cause => exact .lift (throw _) t

/-- The parser always reads on and comes to an end: productions and the loop over operators
leave fewer tokens, and all of them end, in every state and on every input, where nothing
but the tokens left bounds the depth of the recursion. -/
theorem parser_progresses_and_ends :
    (∀ (p : Production) (s : State), p.StartsAt s → p.Advances s) ∧
    (∀ (left : List Lexeme) (lhs : Tree) (least : Nat) (s : State),
      let r := operators expression left lhs least s
      (endState r).rest <:+ s.rest ∧
        (r = .ok lhs s ∨ (endState r).rest.length < s.rest.length)) ∧
    (∀ (p : Production) (s : State) (depth : Nat), 6 * (s.rest.length + 1) ≤ depth →
      p.within depth s = ended (p.run s)) ∧
    (∀ (s : State) (left : List Lexeme) (depth : Nat), s.rest.length ≤ left.length →
      6 * (s.rest.length + 1) ≤ depth → LoopsEnd s left depth) ∧
    ∀ (lexemes : List Lexeme) (depth : Nat), 6 * (lexemes.length + 1) ≤ depth →
      Body.program (.within depth) { rest := lexemes } = ended (parseRun lexemes) := by
  refine ⟨fun _ _ => Production.advances, ?_, fun p _ _ => p.ends, fun _ _ _ => loopsEnd, ?_⟩
  · intro left lhs least s
    have hsuffix := (tidy_operators reader_expression left lhs least s).kept.rest
    exact ⟨hsuffix, operators_progress left lhs least s⟩
  · intro lexemes depth hdepth
    have hend : Ends (Body.program (.within depth)) program { rest := lexemes } :=
      ends_program hdepth
    exact hend

/-- At a definition in front of a brace that nothing opens and a parenthesis that nothing
closes. -/
theorem parser_progresses_before_stray_brace :
    let s : State := { rest := [⟨⟨0, 3, 1⟩, .kwDef⟩, ⟨⟨4, 5, 1⟩, .ident "f"⟩,
      ⟨⟨5, 6, 1⟩, .parenOpen⟩, ⟨⟨6, 7, 1⟩, .ident "a"⟩, ⟨⟨7, 8, 1⟩, .parenClose⟩,
      ⟨⟨9, 10, 1⟩, .assign⟩, ⟨⟨11, 12, 1⟩, .ident "a"⟩, ⟨⟨12, 13, 1⟩, .blockClose⟩,
      ⟨⟨13, 14, 1⟩, .parenOpen⟩] }
    let p := Production.definition
    p.StartsAt s ∧ p ≠ .parameters ∧
      (∃ tree t, p.run s = .ok tree t ∧ t.rest.length < s.rest.length ∧
        p.within 60 s = some (.ok tree, t)) ∧
      LoopsEnd s s.rest 60 ∧ Body.program (.within 60) s = ended (parseRun s.rest) := by
  intro s p
  obtain ⟨hadvances, -, hends, hloops, hprogram⟩ := parser_progresses_and_ends
  have hp : p ≠ .parameters := Production.noConfusion
  have hdepth : 6 * (s.rest.length + 1) ≤ 60 := Nat.le_refl 60
  refine ⟨rfl, hp, ⟨_, _, rfl, ?_, ?_⟩, ?_, ?_⟩
  · exact (hadvances p s rfl).shorter hp _ _ rfl
  · exact hends p s 60 hdepth
  · exact hloops s s.rest 60 (Nat.le_refl _) hdepth
  · exact hprogram s.rest 60 hdepth

end Lila.Parser
