import Lila.Proofs.Grammar.Soundness
import Mathlib.Logic.Relation

/-! # The shape of a parsed tree

What the later stages may rely on. The tree of a program is a block of depth 0. Every
block ends in an expression and lies deeper than the blocks around it, and none but the
whole program has one element only. Bindings stand in blocks and nowhere else.

`Formed` says this from the root on, with a bound for the depths of the blocks. A block
of one element is replaced by the element, which then has one block less around it. It
keeps its form there, as the depths inside it are greater than those that are asked for.
-/

namespace Lila

namespace Tree

def children : Tree → List Tree
  | .number _ => []
  | .binary _ lhs rhs => [lhs, rhs]
  | .call _ args => args
  | .value _ expr => [expr]
  | .definition _ _ body => [body]
  | .block _ body => body

/-- The first tree is the second one or stands in it. -/
def Within : Tree → Tree → Prop :=
  Relation.ReflTransGen fun inner outer => inner ∈ outer.children

/-- The first tree stands in the second one, below its root. -/
def Inside (inner outer : Tree) : Prop := ∃ child ∈ outer.children, inner.Within child

structure WellFormed (tree : Tree) : Prop where
  root : ∃ body, tree = .block 0 body ∧ body ≠ []
  two_le_length : ∀ depth body, (block depth body).Inside tree → 2 ≤ body.length
  depth_lt : ∀ depth body depth' body', (block depth body).Within tree →
    (block depth' body').Inside (block depth body) → depth < depth'
  isExpr_last : ∀ depth body, (block depth body).Within tree → body.getLast?.any isExpr = true
  binding_in_block : ∀ outer inner : Tree, outer.Within tree → inner ∈ outer.children →
    (∃ name expr, inner = value name expr) ∨
      (∃ name params body, inner = definition name params body) →
    ∃ depth body, outer = block depth body
  nodup_params : ∀ name params body, (definition name params body).Within tree → params.Nodup

/-- Trees in which all blocks are deeper than `d`, and have the form of blocks that are not
a whole program. -/
inductive Formed : Nat → Tree → Prop
  | number (d : Nat) (x : Double) : Formed d (.number x)
  | binary {d : Nat} {lhs rhs : Tree} (op : String) (hl : lhs.isExpr = true) (hlhs : Formed d lhs)
      (hr : rhs.isExpr = true) (hrhs : Formed d rhs) : Formed d (.binary op lhs rhs)
  | call {d : Nat} {args : List Tree} (name : String) (hexprs : ∀ arg ∈ args, arg.isExpr = true)
      (hargs : ∀ arg ∈ args, Formed d arg) : Formed d (.call name args)
  | value {d : Nat} {expr : Tree} (name : String) (hexpr : expr.isExpr = true)
      (h : Formed d expr) : Formed d (.value name expr)
  | definition {d : Nat} {params : List String} {body : Tree} (name : String)
      (hparams : params.Nodup) (hexpr : body.isExpr = true) (h : Formed d body) :
      Formed d (.definition name params body)
  | block {d depth : Nat} {body : List Tree} (hdepth : d < depth) (hlength : 2 ≤ body.length)
      (hlast : body.getLast?.any isExpr = true) (h : ∀ element ∈ body, Formed depth element) :
      Formed d (.block depth body)

namespace Formed

variable {d : Nat} {tree : Tree}

theorem mono {d' : Nat} (h : Formed d tree) (hle : d' ≤ d) : Formed d' tree := by
  induction h with
  | number d x => exact .number d' x
  | binary op hl _ hr _ ihl ihr => exact .binary op hl (ihl hle) hr (ihr hle)
  | call name hexprs _ ih => exact .call name hexprs fun arg harg => ih arg harg hle
  | value name hexpr _ ih => exact .value name hexpr (ih hle)
  | definition name hparams hexpr _ ih => exact .definition name hparams hexpr (ih hle)
  | block hdepth hlength hlast h _ => exact .block (Nat.lt_of_le_of_lt hle hdepth) hlength hlast h

/-- What stands in a formed tree is formed, and bindings stand in blocks only. -/
theorem child (h : Formed d tree) {inner : Tree} (hinner : inner ∈ tree.children) :
    Formed d inner ∧ (inner.isExpr = true ∨ ∃ depth body, tree = .block depth body) := by
  cases h with
  | number => cases hinner
  | binary op hl hlhs hr hrhs =>
      rcases List.mem_cons.1 hinner with rfl | hinner
      · exact ⟨hlhs, .inl hl⟩
      · obtain rfl := List.mem_singleton.1 hinner
        exact ⟨hrhs, .inl hr⟩
  | call name hexprs hargs => exact ⟨hargs inner hinner, .inl (hexprs inner hinner)⟩
  | value name hexpr h =>
      obtain rfl := List.mem_singleton.1 hinner
      exact ⟨h, .inl hexpr⟩
  | definition name _ hexpr h =>
      obtain rfl := List.mem_singleton.1 hinner
      exact ⟨h, .inl hexpr⟩
  | block hdepth _ _ h => exact ⟨(h inner hinner).mono (Nat.le_of_lt hdepth), .inr ⟨_, _, rfl⟩⟩

theorem within (h : Formed d tree) {inner : Tree} (hinner : inner.Within tree) :
    Formed d inner := by
  induction hinner using Relation.ReflTransGen.head_induction_on with
  | refl => exact h
  | head hchild _ ih => exact (ih.child hchild).1

end Formed

theorem formed_ofBody {d : Nat} {body : List Tree} (hlast : body.getLast?.any isExpr = true)
    (h : ∀ element ∈ body, Formed (d + 1) element) : Formed d (ofBody (d + 1) body) := by
  cases body with
  | nil => cases hlast
  | cons first body =>
      cases body with
      | nil => exact (List.forall_mem_singleton.1 h).mono (Nat.le_succ d)
      | cons second body =>
          have hlength : 2 ≤ (first :: second :: body).length := Nat.le_add_left 2 body.length
          exact .block (Nat.lt_succ_self d) hlength hlast h

/-- Blocks inside a block are deeper, whether or not the outer one is a whole program. -/
theorem depth_lt_of_inside {depth depth' : Nat} {body body' : List Tree}
    (h : ∀ element ∈ body, Formed depth element)
    (hinside : (block depth' body').Inside (block depth body)) : depth < depth' := by
  obtain ⟨element, helement, hwithin⟩ := hinside
  cases (h element helement).within hwithin with
  | block hdepth => exact hdepth

theorem within_iff {inner outer : Tree} :
    inner.Within outer ↔ inner = outer ∨ inner.Inside outer := by
  constructor
  · intro h
    cases h with
    | refl => exact .inl rfl
    | tail hwithin hchild => exact .inr ⟨_, hchild, hwithin⟩
  · rintro (rfl | ⟨child, hchild, hwithin⟩)
    · exact .refl
    · exact .tail hwithin hchild

theorem wellFormed_block {body : List Tree} (hlast : body.getLast?.any isExpr = true)
    (h : ∀ element ∈ body, Formed 0 element) : WellFormed (block 0 body) := by
  have hinside : ∀ inner : Tree, inner.Inside (block 0 body) → Formed 0 inner := by
    rintro inner ⟨element, helement, hwithin⟩
    exact (h element helement).within hwithin
  constructor
  case root =>
    refine ⟨body, rfl, ?_⟩
    rintro rfl
    cases hlast
  case two_le_length =>
    intro depth inner hinner
    cases hinside _ hinner with
    | block _ hlength => exact hlength
  case depth_lt =>
    intro depth outer depth' inner houter hinner
    rcases within_iff.1 houter with heq | houter
    · cases heq
      exact depth_lt_of_inside h hinner
    · cases hinside _ houter with
      | block _ _ _ h => exact depth_lt_of_inside h hinner
  case isExpr_last =>
    intro depth inner hinner
    rcases within_iff.1 hinner with heq | hinner
    · cases heq
      exact hlast
    · cases hinside _ hinner with
      | block _ _ hlast => exact hlast
  case binding_in_block =>
    intro outer inner houter hinner hbinding
    rcases within_iff.1 houter with rfl | houter
    · exact ⟨0, body, rfl⟩
    · rcases ((hinside _ houter).child hinner).2 with hexpr | hblock
      · obtain ⟨name, expr, rfl⟩ | ⟨name, params, body, rfl⟩ := hbinding <;> cases hexpr
      · exact hblock
  case nodup_params =>
    intro name params inner hinner
    rcases within_iff.1 hinner with heq | hinner
    · cases heq
    · cases hinside _ hinner with
      | definition _ hparams => exact hparams

end Tree

namespace Grammar

open Lila.Tree (Formed)

mutual

theorem Expression.formed {Γ : Env} {d : Nat} {ts : List Token} {tree : Tree} :
    Expression .ofBody Γ d ts tree → tree.isExpr = true ∧ Formed d tree
  | .mk hfirst hlinks hgroup =>
      hgroup.of_operands (P := fun tree => tree.isExpr = true ∧ Formed d tree)
        (fun link _ _ _ hlhs hrhs => ⟨rfl, .binary link.1 hlhs.1 hlhs.2 hrhs.1 hrhs.2⟩)
        hfirst.formed hlinks.formed

theorem Operators.formed {Γ : Env} {d : Nat} {ts : List Token} {links : Links} :
    Operators .ofBody Γ d ts links → ∀ link ∈ links, link.2.isExpr = true ∧ Formed d link.2
  | .nil .. => by simp
  | .cons _ hoperand hlinks => List.forall_mem_cons.2 ⟨hoperand.formed, hlinks.formed⟩

theorem Operand.formed {Γ : Env} {d : Nat} {ts : List Token} {tree : Tree} :
    Operand .ofBody Γ d ts tree → tree.isExpr = true ∧ Formed d tree
  | .number _ _ x => ⟨rfl, .number d x⟩
  | .name .. => ⟨rfl, .call _ (by simp) (by simp)⟩
  | .call _ hargs => by
      have h := hargs.formed
      exact ⟨rfl, .call _ (fun arg harg => (h arg harg).1) fun arg harg => (h arg harg).2⟩
  | .group h => h.formed
  | .block _ _ h => by
      have hlast := h.isExpr_last valued_ofBody
      exact ⟨valued_ofBody _ _ hlast, Tree.formed_ofBody hlast h.formed⟩

theorem Arguments.formed {Γ : Env} {d : Nat} {ts : List Token} {args : List Tree} :
    Arguments .ofBody Γ d ts args → ∀ arg ∈ args, arg.isExpr = true ∧ Formed d arg
  | .one h => List.forall_mem_singleton.2 h.formed
  | .cons h hargs => List.forall_mem_cons.2 ⟨h.formed, hargs.formed⟩

theorem Statement.formed {Γ : Env} {d : Nat} {ts : List Token} {tree : Tree} :
    Statement .ofBody Γ d ts tree → Formed d tree
  | .value _ h => .value _ h.formed.1 h.formed.2
  | .definition _ _ hdistinct h => .definition _ hdistinct h.formed.1 h.formed.2
  | .expression h => h.formed.2

theorem Body.formed {Γ : Env} {d : Nat} {ts : List Token} {body : List Tree} :
    Body .ofBody Γ d ts body → ∀ element ∈ body, Formed d element
  | .last h => List.forall_mem_singleton.2 h.formed.2
  | .cons _ h hbody => List.forall_mem_cons.2 ⟨h.formed, hbody.formed⟩

end

theorem Program.wellFormed {ts : List Token} {tree : Tree} (h : Program .ofBody ts tree) :
    tree.WellFormed := by
  cases h with
  | mk before behind h => exact Tree.wellFormed_block (h.isExpr_last valued_ofBody) h.formed

end Grammar

namespace Parser

/-- Whatever the tokens, the tree that comes of them has the shape of a program. -/
theorem parse_tree_wellFormed {lexemes : List Lexeme} {tree : Tree}
    (h : parse lexemes = .ok tree) : tree.WellFormed :=
  (program_of_parse h).wellFormed

/-- A block in a block of one element keeps the depth that it was read at. -/
theorem parse_tree_wellFormed_nested :
    ∃ tree, parse ([.kwDef, .ident "f", .parenOpen, .ident "a", .comma, .ident "b", .parenClose,
      .assign, .blockOpen, .blockOpen, .kwVal, .ident "c", .assign, .ident "a", .newline,
      .blockOpen, .ident "b", .newline, .ident "c", .blockClose, .blockClose, .blockClose,
      .newline, .ident "f", .parenOpen, .number (.ofBits 0), .comma, .number (.ofBits 0),
      .parenClose].map fun token => ⟨⟨0, 0, 1⟩, token⟩) = .ok tree ∧
      tree = .block 0 [.definition "f" ["a", "b"] (.block 2 [.value "c" (.call "a" []),
          .block 3 [.call "b" [], .call "c" []]]),
        .call "f" [.number (.ofBits 0), .number (.ofBits 0)]] ∧
      tree.WellFormed := by
  suffices h : parse _ = .ok _ from ⟨_, h, rfl, parse_tree_wellFormed h⟩
  decide +kernel

end Parser

end Lila
