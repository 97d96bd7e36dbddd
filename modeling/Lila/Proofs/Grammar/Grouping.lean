import Lila.Tree.Basic
import Lila.Tree.Precedence

/-! # Grouping by precedence

A chain of operands joined by operators stands for one tree. Its root is the
operator that binds least, and of several such operators the last one, so that
operators of one precedence group to the left. This says nothing about the order
in which a parser finds the tree: `Grouping.absorb` is the step that a parser
takes which goes through the chain once, from left to right.
-/

namespace Lila

abbrev Links := List (String × Tree)

/-- The tree of a first operand and the chain behind it. -/
inductive Grouping : Tree → Links → Tree → Prop
  | single (first : Tree) : Grouping first [] first
  | split {first lhs operand rhs : Tree} {left right : Links} {op : String}
      (hleft : ∀ link ∈ left, precedence op ≤ precedence link.1)
      (hright : ∀ link ∈ right, precedence op < precedence link.1)
      (hlhs : Grouping first left lhs) (hrhs : Grouping operand right rhs) :
      Grouping first (left ++ (op, operand) :: right) (.binary op lhs rhs)

namespace Grouping

/-- In front of operators that all bind more tightly, an operator is the root. -/
theorem of_tighter (first : Tree) {operand rhs : Tree} {op : String} {links : Links}
    (hlinks : ∀ link ∈ links, precedence op < precedence link.1)
    (hrhs : Grouping operand links rhs) :
    Grouping first ((op, operand) :: links) (.binary op first rhs) :=
  show Grouping first ([] ++ (op, operand) :: links) _ from
    split (by simp) hlinks (.single first) hrhs

/-- What holds of the operands, and of an operation if it holds of both sides, holds
of the tree. -/
theorem of_operands {P : Tree → Prop} {first tree : Tree} {links : Links}
    (h : Grouping first links tree)
    (hbinary : ∀ link ∈ links, ∀ lhs rhs, P lhs → P rhs → P (.binary link.1 lhs rhs))
    (hfirst : P first) (hlinks : ∀ link ∈ links, P link.2) : P tree := by
  induction h with
  | single first => exact hfirst
  | @split first lhs operand rhs left right op _ _ _ _ ihl ihr =>
      rw [List.forall_mem_append, List.forall_mem_cons] at hbinary hlinks
      obtain ⟨hbinaryl, hbinary, hbinaryr⟩ := hbinary
      obtain ⟨hleft, hoperand, hright⟩ := hlinks
      exact hbinary lhs rhs (ihl hbinaryl hfirst hleft) (ihr hbinaryr hoperand hright)

/-- Changes inside the operands leave the grouping as it is. -/
theorem map {f : Tree → Tree}
    (hf : ∀ op lhs rhs, f (.binary op lhs rhs) = .binary op (f lhs) (f rhs))
    {first tree : Tree} {links : Links} (h : Grouping first links tree) :
    Grouping (f first) (links.map (Prod.map id f)) (f tree) := by
  induction h with
  | single first => exact .single (f first)
  | @split first lhs operand rhs left right op hleft hright _ _ ihl ihr =>
      rw [hf, List.map_append, List.map_cons]
      refine split ?_ ?_ ihl ihr
      · intro link hlink
        obtain ⟨old, hold, rfl⟩ := List.mem_map.1 hlink
        exact hleft old hold
      · intro link hlink
        obtain ⟨old, hold, rfl⟩ := List.mem_map.1 hlink
        exact hright old hold

/-- The root of a chain stands at one place only. -/
theorem root_unique {left right left' right' : Links} {op op' : String} {operand operand' : Tree}
    (heq : left ++ (op, operand) :: right = left' ++ (op', operand') :: right')
    (hright : ∀ link ∈ right, precedence op < precedence link.1)
    (hleft' : ∀ link ∈ left', precedence op' ≤ precedence link.1) :
    ∃ more, left = left' ++ more := by
  rcases List.append_eq_append_iff.1 heq with ⟨more, hmore, hrest⟩ | ⟨more, hmore, hrest⟩
  · cases more with
    | nil => exact ⟨[], by simpa using hmore.symm⟩
    | cons link more =>
        -- The first root would lie among the operators left of the second one.
        obtain ⟨rfl, rfl⟩ := List.cons.inj hrest
        have hle := hleft' (op, operand) (by simp [hmore])
        have hlt := hright (op', operand') (by simp)
        dsimp only at hle hlt
        omega
  · exact ⟨more, hmore⟩

theorem unique {first t t' : Tree} {chain : Links} (h : Grouping first chain t)
    (h' : Grouping first chain t') : t = t' := by
  induction h generalizing t' with
  | single first =>
      generalize hnil : ([] : Links) = chain at h'
      cases h' with
      | single => rfl
      | split => simp at hnil
  | @split first lhs operand rhs left right op hleft hright hlhs hrhs ihl ihr =>
      generalize heq : left ++ (op, operand) :: right = chain at h'
      cases h' with
      | single => simp at heq
      | split hleft' hright' hlhs' hrhs' =>
          obtain ⟨more, hmore⟩ := root_unique heq hright hleft'
          obtain ⟨more', hmore'⟩ := root_unique heq.symm hright' hleft
          have hnil : more = [] := by
            have hlength := congrArg List.length (hmore'.trans (by rw [hmore]))
            simp only [List.length_append] at hlength
            exact List.eq_nil_of_length_eq_zero (by omega)
          rw [hnil, List.append_nil] at hmore
          subst hmore
          simp only [List.append_cancel_left_eq, List.cons.injEq, Prod.mk.injEq] at heq
          obtain ⟨⟨rfl, rfl⟩, rfl⟩ := heq
          rw [ihl hlhs', ihr hrhs']

/-- One more operator goes to the root, or into the right operand of the root. -/
theorem exists_snoc {first t : Tree} {chain : Links} (h : Grouping first chain t) (op : String)
    (operand : Tree) : ∃ t', Grouping first (chain ++ [(op, operand)]) t' := by
  induction h with
  | single first =>
      exact ⟨_, of_tighter first (by simp) (.single operand)⟩
  | @split first lhs operand' rhs left right op' hleft hright hlhs hrhs _ ihr =>
      by_cases hop : precedence op ≤ precedence op'
      · have hall :
            ∀ link ∈ left ++ (op', operand') :: right, precedence op ≤ precedence link.1 := by
          intro link hlink
          rcases List.mem_append.1 hlink with hlink | hlink
          · exact Nat.le_trans hop (hleft link hlink)
          · rcases List.mem_cons.1 hlink with rfl | hlink
            · exact hop
            · exact Nat.le_trans hop (Nat.le_of_lt (hright link hlink))
        exact ⟨_, split hall (by simp) (split hleft hright hlhs hrhs) (.single operand)⟩
      · obtain ⟨rhs', hrhs'⟩ := ihr
        have hall : ∀ link ∈ right ++ [(op, operand)], precedence op' < precedence link.1 := by
          intro link hlink
          rcases List.mem_append.1 hlink with hlink | hlink
          · exact hright link hlink
          · rw [List.mem_singleton.1 hlink]
            exact Nat.lt_of_not_le hop
        refine ⟨.binary op' lhs rhs', ?_⟩
        rw [List.append_assoc, List.cons_append]
        exact split hleft hall hlhs hrhs'

theorem exists_tree (first : Tree) (chain : Links) : ∃ t, Grouping first chain t := by
  induction h : chain.reverse generalizing chain with
  | nil =>
      rw [List.reverse_eq_nil_iff] at h
      exact ⟨first, h ▸ .single first⟩
  | cons link links ih =>
      obtain ⟨op, operand⟩ := link
      have hchain : chain = links.reverse ++ [(op, operand)] := by
        simpa using congrArg List.reverse h
      obtain ⟨t, ht⟩ := ih links.reverse (by simp)
      rw [hchain]
      exact ht.exists_snoc op operand

/-- An operator with all those behind its operand that bind more tightly may be
taken first, as long as the next operator does not bind more tightly. -/
theorem absorb {lhs operand rhs t : Tree} {op : String} {tighter chain : Links}
    (hrhs : Grouping operand tighter rhs)
    (htighter : ∀ link ∈ tighter, precedence op < precedence link.1)
    (h : Grouping (.binary op lhs rhs) chain t)
    (hnext : ∀ link ∈ chain.head?, precedence link.1 ≤ precedence op) :
    Grouping lhs ((op, operand) :: tighter ++ chain) t := by
  generalize hfirst : Tree.binary op lhs rhs = first at h
  induction h with
  | single first =>
      subst hfirst
      rw [List.append_nil]
      exact of_tighter lhs htighter hrhs
  | @split first lhs' operand' rhs' left right op' hleft hright _ hrhs' ihl _ =>
      have hop : precedence op' ≤ precedence op := by
        cases left with
        | nil => exact hnext (op', operand') (by simp)
        | cons link left =>
            exact Nat.le_trans (hleft link (by simp)) (hnext link (by simp))
      have hnext' : ∀ link ∈ left.head?, precedence link.1 ≤ precedence op := by
        intro link hlink
        refine hnext link ?_
        rw [Option.mem_def] at hlink ⊢
        rw [List.head?_append, hlink, Option.some_or]
      have hall : ∀ link ∈ (op, operand) :: tighter ++ left,
          precedence op' ≤ precedence link.1 := by
        intro link hlink
        rcases List.mem_append.1 hlink with hlink | hlink
        · rcases List.mem_cons.1 hlink with rfl | hlink
          · exact hop
          · exact Nat.le_trans hop (Nat.le_of_lt (htighter link hlink))
        · exact hleft link hlink
      rw [← List.append_assoc]
      exact split hall hright (ihl hnext' hfirst) hrhs'

end Grouping

end Lila
