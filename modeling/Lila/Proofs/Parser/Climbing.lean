import Lila.Proofs.Parser.Agreement
import Lila.Proofs.Parser.Operators

/-! # Expressions as grouped chains

The tree of a chain of operands can be computed from the chain as a whole: cut it at
the operator that binds least, the last one of several, and do the same with both
sides. The parser never sees the whole chain. It goes through the operators once and
keeps for each open operation the precedence that the next operator has to reach. Both
come to the same tree.
-/

namespace Lila

theorem precedence_eq (op : String) :
    precedence op = if op = "*" then 40 else if op = "+" ∨ op = "-" then 20 else 0 := by
  unfold precedence precedences
  by_cases hsum : op = "+"
  · subst hsum
    rfl
  · by_cases hdifference : op = "-"
    · subst hdifference
      rfl
    · by_cases hproduct : op = "*"
      · subst hproduct
        rfl
      · simp [List.lookup_cons, hsum, hdifference, hproduct, beq_eq_false_iff_ne.2]

/-! ## The tree of a chain -/

/-- The chain cut at the operator that binds least, the last one of several: what is left
of it, the operator with its operand, and what is right of that. -/
def Links.root? : Links → Option (Links × (String × Tree) × Links)
  | [] => none
  | link :: links =>
      match root? links with
      | none => some ([], link, [])
      | some (left, root, right) =>
          if precedence root.1 ≤ precedence link.1 then some (link :: left, root, right)
          else some ([], link, links)

theorem Links.root?_eq_none {links : Links} : links.root? = none ↔ links = [] := by
  cases links with
  | nil => simp [root?]
  | cons link links =>
      unfold root?
      split
      · simp
      · split <;> simp

theorem Links.root?_spec {links left right : Links} {root : String × Tree}
    (h : links.root? = some (left, root, right)) :
    links = left ++ root :: right ∧ (∀ link ∈ left, precedence root.1 ≤ precedence link.1) ∧
      ∀ link ∈ right, precedence root.1 < precedence link.1 := by
  induction links generalizing left root right with
  | nil => cases h
  | cons link links ih =>
      unfold root? at h
      cases hroot : root? links with
      | none =>
          rw [hroot] at h
          cases h
          simp [root?_eq_none.1 hroot]
      | some parts =>
          obtain ⟨left', root', right'⟩ := parts
          obtain ⟨hlinks, hleft, hright⟩ := ih hroot
          rw [hroot] at h
          dsimp only at h
          by_cases hle : precedence root'.1 ≤ precedence link.1
          · rw [if_pos hle] at h
            cases h
            exact ⟨congrArg (link :: ·) hlinks, List.forall_mem_cons.2 ⟨hle, hleft⟩, hright⟩
          · rw [if_neg hle] at h
            cases h
            refine ⟨rfl, by simp, ?_⟩
            intro other hother
            rw [hlinks, List.mem_append, List.mem_cons] at hother
            obtain hother | rfl | hother := hother
            · have hge := hleft other hother
              omega
            · omega
            · have hgt := hright other hother
              omega

/-- The tree of a first operand and the chain behind it. -/
def grouped (first : Tree) (links : Links) : Tree :=
  match h : links.root? with
  | none => first
  | some (left, (op, operand), right) =>
      have hlength := congrArg List.length (Links.root?_spec h).1
      have hleft : left.length < links.length := by
        rw [List.length_append, List.length_cons] at hlength
        omega
      have hright : right.length < links.length := by
        rw [List.length_append, List.length_cons] at hlength
        omega
      .binary op (grouped first left) (grouped operand right)
termination_by links.length

theorem grouping_grouped (first : Tree) (links : Links) :
    Grouping first links (grouped first links) := by
  fun_induction grouped first links with
  | case1 first links hroot =>
      rw [Links.root?_eq_none.1 hroot]
      exact .single first
  | case2 first links left op operand right hroot _ _ _ ihleft ihright =>
      obtain ⟨hlinks, hleft, hright⟩ := Links.root?_spec hroot
      rw [hlinks]
      exact .split hleft hright ihleft ihright

theorem Grouping.eq_grouped {first tree : Tree} {links : Links} (h : Grouping first links tree) :
    tree = grouped first links :=
  h.unique (grouping_grouped first links)

/-- A product, a sum in front of a loose operator, and a difference behind it. -/
example (a b c d e : Tree) :
    grouped a [("*", b), ("+", c), ("/", d), ("-", e)] =
      .binary "/" (.binary "+" (.binary "*" a b) c) (.binary "-" d e) := by
  cbv

/-! ## The tree of an expression -/

namespace Parser

theorem stops_zero_iff {s : State} :
    Stops 0 s ↔ ∀ op, s.rest.head?.map Lexeme.token ≠ some (.binop op) := by
  constructor
  · intro h op hhead
    obtain ⟨span, rest, hs⟩ := exists_of_head hhead
    exact Nat.not_lt_zero _ (h span op rest hs)
  · intro h span op rest hs
    exact absurd (by rw [hs]; rfl) (h op)

theorem expression_eq_ok {s u : State} {tree : Tree} (h : expression s = .ok tree u) :
    ∃ first t links, primary expression s = .ok first t ∧ Chained expression t links u ∧
      (∀ op, u.rest.head?.map Lexeme.token ≠ some (.binop op)) ∧ tree = grouped first links := by
  rw [expression_eq, expressionAround_run] at h
  cases hfirst : primary expression s with
  | error e t =>
      rw [hfirst] at h
      cases h
  | ok first t =>
      rw [hfirst] at h
      obtain ⟨links, hlinks, -, hgroup, hstop⟩ :=
        operators_eq_ok reader_expression (Nat.le_refl _) h
      exact ⟨first, t, links, rfl, hlinks, stops_zero_iff.1 hstop, hgroup.eq_grouped⟩

theorem expression_of_chained {s t u : State} {first : Tree} {links : Links}
    (hfirst : primary expression s = .ok first t) (hlinks : Chained expression t links u)
    (hstop : ∀ op, u.rest.head?.map Lexeme.token ≠ some (.binop op)) :
    expression s = .ok (grouped first links) u := by
  rw [expression_eq, expressionAround_run, hfirst]
  exact operators_of_chained reader_expression (Nat.le_refl _) hlinks (stops_zero_iff.2 hstop)
    (grouping_grouped first links)

/-- Products bind at 40, sums and differences at 20, and all else at 0. An expression is read
exactly if a first operand is, and behind it operators with their operands, as far as
operators follow. Its tree groups them by these precedences, and what follows is left. -/
theorem expression_groups_by_precedence :
    (∀ op, precedence op = if op = "*" then 40 else if op = "+" ∨ op = "-" then 20 else 0) ∧
    ∀ (s u : State) (tree : Tree), expression s = .ok tree u ↔
      ∃ first t links, primary expression s = .ok first t ∧ Chained expression t links u ∧
        (∀ op, u.rest.head?.map Lexeme.token ≠ some (.binop op)) ∧ tree = grouped first links := by
  refine ⟨precedence_eq, fun s u tree => ⟨expression_eq_ok, ?_⟩⟩
  rintro ⟨first, t, links, hfirst, hlinks, hstop, rfl⟩
  exact expression_of_chained hfirst hlinks hstop

end Parser

end Lila
