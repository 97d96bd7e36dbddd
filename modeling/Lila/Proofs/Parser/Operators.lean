import Lila.Proofs.Grammar.Grouping
import Lila.Proofs.Parser.Frame

/-! # The loop over operators

The loop reads a chain of operands, one after the other, and returns the tree
that groups it by precedence. `Chained` is the reading alone: each operator with
the run of its operand. What the loop adds to it is `Grouping`, so that it takes
all operators in front that bind tightly enough, and an error is the error of an
operand in the chain.
-/

namespace Lila.Parser

variable {nested : Parser Tree}

/-- Operators with their operands, read one after the other. -/
inductive Chained (nested : Parser Tree) : State → Links → State → Prop
  | nil (s : State) : Chained nested s [] s
  | cons {s t u : State} {span : Span} {op : String} {rest : List Lexeme} {operand : Tree}
      {links : Links} (hs : s.rest = ⟨span, .binop op⟩ :: rest)
      (hoperand : primary nested { s with rest := rest } = .ok operand t)
      (hlinks : Chained nested t links u) : Chained nested s ((op, operand) :: links) u

namespace Chained

theorem append {s t u : State} {links more : Links} (h : Chained nested s links t)
    (h' : Chained nested t more u) : Chained nested s (links ++ more) u := by
  induction h with
  | nil s => exact h'
  | cons hs hoperand _ ih => exact .cons hs hoperand (ih h')

theorem kept (hn : Reader nested) {s t : State} {links : Links} (h : Chained nested s links t) :
    Kept s t := by
  induction h with
  | nil s => exact Kept.refl s
  | @cons s t u span op rest operand links hs hoperand _ ih =>
      have htidy := tidy_primary hn { s with rest := rest }
      rw [hoperand] at htidy
      exact ((kept_advance hs (by simp)).trans htidy.kept).trans ih

/-- The first link of a chain stands in front of it. -/
theorem head_le {s t : State} {links : Links} {least : Nat} (h : Chained nested s links t)
    (hs : Stops (least + 1) s) : ∀ link ∈ links.head?, precedence link.1 ≤ least := by
  intro link hlink
  cases h with
  | nil => simp at hlink
  | cons hr _ _ =>
      rw [List.head?_cons, Option.mem_some] at hlink
      rw [← hlink]
      exact Nat.le_of_lt_succ (hs _ _ _ hr)

/-- A chain behind which no operator stands goes on from wherever another one ends. -/
theorem exists_more {s t t' : State} {links links' : Links} (h : Chained nested s links t)
    (hstop : Stops 0 t) (h' : Chained nested s links' t') :
    ∃ more, links = links' ++ more ∧ Chained nested t' more t := by
  induction h' generalizing links with
  | nil s => exact ⟨links, rfl, h⟩
  | @cons s u t' span op rest operand links' hs hoperand _ ih =>
      cases h with
      | nil => exact absurd (hstop span op rest hs) (Nat.not_lt_zero _)
      | cons hs' hoperand' hlinks =>
          rw [hs] at hs'
          cases hs'
          rw [hoperand] at hoperand'
          cases hoperand'
          obtain ⟨more, rfl, hmore⟩ := ih hlinks
          exact ⟨more, rfl, hmore⟩

end Chained

/-- The loop reads a chain as far as its operators bind tightly enough, and groups it. -/
theorem operators_eq_ok (hn : Reader nested) {left : List Lexeme} {lhs tree : Tree} {least : Nat}
    {s t : State} (hleft : s.rest.length ≤ left.length)
    (h : operators nested left lhs least s = .ok tree t) :
    ∃ links, Chained nested s links t ∧ (∀ link ∈ links, least ≤ precedence link.1) ∧
      Grouping lhs links tree ∧ Stops least t := by
  induction left generalizing lhs tree least s t with
  | nil =>
      have hs : s.rest = [] := List.eq_nil_of_length_eq_zero (Nat.le_zero.1 hleft)
      rw [operators_stop nested [] lhs (stops_of_nil least hs)] at h
      obtain ⟨rfl, rfl⟩ := EStateM.Result.ok.inj h
      exact ⟨[], .nil s, by simp, .single lhs, stops_of_nil least hs⟩
  | cons y left ih =>
      rcases operators_step nested y left lhs least s with
        ⟨hstop, he⟩ | ⟨span, op, rest, hs, hop, he⟩
      · rw [he] at h
        obtain ⟨rfl, rfl⟩ := EStateM.Result.ok.inj h
        exact ⟨[], .nil s, by simp, .single lhs, hstop⟩
      · rw [he, afterOperator] at h
        obtain ⟨operand, u, hoperand, h⟩ := bind_eq_ok.1 h
        obtain ⟨rhs, v, hrhs, h⟩ := bind_eq_ok.1 h
        have hu := primary_shorter hn hoperand
        have htidy := tidy_operators hn left operand (precedence op + 1) u
        rw [hrhs] at htidy
        have hv : v.rest.length ≤ u.rest.length := htidy.kept.rest.length_le
        simp only [hs, List.length_cons] at hleft hu
        obtain ⟨tighter, hchain, htighter, hgroup, hstop⟩ :=
          ih (show u.rest.length ≤ left.length by omega) hrhs
        obtain ⟨links, hchain', hlinks, hgroup', hstop'⟩ :=
          ih (show v.rest.length ≤ left.length by omega) h
        refine ⟨(op, operand) :: tighter ++ links, .cons hs hoperand (hchain.append hchain'), ?_,
          hgroup.absorb htighter hgroup' (hchain'.head_le hstop), hstop'⟩
        intro link hlink
        rcases List.mem_append.1 hlink with hlink | hlink
        · rcases List.mem_cons.1 hlink with rfl | hlink
          · exact hop
          · exact Nat.le_trans hop (Nat.le_of_lt (htighter link hlink))
        · exact hlinks link hlink

/-- An error of the loop is the error of an operand, behind a chain of others. -/
theorem operators_eq_error (hn : Reader nested) {left : List Lexeme} {lhs : Tree} {least : Nat}
    {s u : State} {e : ParseError} (hleft : s.rest.length ≤ left.length)
    (h : operators nested left lhs least s = .error e u) :
    ∃ links t span op rest, Chained nested s links t ∧ t.rest = ⟨span, .binop op⟩ :: rest ∧
      primary nested { t with rest := rest } = .error e u := by
  induction left generalizing lhs least s with
  | nil => cases h
  | cons y left ih =>
      rcases operators_step nested y left lhs least s with
        ⟨hstop, he⟩ | ⟨span, op, rest, hs, hop, he⟩
      · rw [he] at h
        cases h
      · rw [he, afterOperator, bind_run] at h
        cases hoperand : primary nested { s with rest := rest } with
        | error e' u' =>
            rw [hoperand] at h
            cases h
            exact ⟨[], s, span, op, rest, .nil s, hs, hoperand⟩
        | ok operand t =>
            rw [hoperand] at h
            dsimp only at h
            rw [bind_run] at h
            have ht := primary_shorter hn hoperand
            simp only [hs, List.length_cons] at hleft ht
            cases hrhs : operators nested left operand (precedence op + 1) t with
            | error e' u' =>
                rw [hrhs] at h
                cases h
                obtain ⟨links, v, span', op', rest', hlinks, hv, herror⟩ := ih (by omega) hrhs
                exact ⟨_, v, span', op', rest', .cons hs hoperand hlinks, hv, herror⟩
            | ok rhs v =>
                rw [hrhs] at h
                obtain ⟨tighter, htighter, -, -, -⟩ := operators_eq_ok hn (by omega) hrhs
                have hv : v.rest.length ≤ t.rest.length := (htighter.kept hn).rest.length_le
                obtain ⟨links, w, span', op', rest', hlinks, hw, herror⟩ := ih (by omega) h
                exact ⟨_, w, span', op', rest', .cons hs hoperand (htighter.append hlinks), hw,
                  herror⟩

/-- The loop succeeds on a chain behind which no operator stands. -/
theorem operators_of_chained (hn : Reader nested) {left : List Lexeme} {lhs tree : Tree}
    {s t : State} {links : Links} (hleft : s.rest.length ≤ left.length)
    (hlinks : Chained nested s links t) (hstop : Stops 0 t) (hgroup : Grouping lhs links tree) :
    operators nested left lhs 0 s = .ok tree t := by
  cases h : operators nested left lhs 0 s with
  | ok tree' t' =>
      obtain ⟨links', hlinks', -, hgroup', hstop'⟩ := operators_eq_ok hn hleft h
      obtain ⟨more, rfl, hmore⟩ := hlinks.exists_more hstop hlinks'
      cases hmore with
      | nil =>
          rw [List.append_nil] at hgroup
          rw [hgroup.unique hgroup']
      | cons hs _ _ => exact absurd (hstop' _ _ _ hs) (Nat.not_lt_zero _)
  | error e u =>
      -- The operand that fails would have to be read in the chain, or to stand behind it.
      obtain ⟨links', t', span, op, rest, hlinks', ht', herror⟩ := operators_eq_error hn hleft h
      obtain ⟨more, rfl, hmore⟩ := hlinks.exists_more hstop hlinks'
      cases hmore with
      | nil => exact absurd (hstop span op rest ht') (Nat.not_lt_zero _)
      | cons hs hoperand _ =>
          rw [ht'] at hs
          cases hs
          rw [herror] at hoperand
          cases hoperand

end Lila.Parser
