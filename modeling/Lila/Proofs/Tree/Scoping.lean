import Lila.Proofs.Grammar.Derivation
import Lila.Proofs.Scope.Frames

/-! # The scopes of a tree

A tree alone says which binder each name in it belongs to. A walk goes over the
tree from left to right, with a scope for each block and for each definition, and
binds a name behind the value or the body that it stands for. It fails at a call of
a name that is not bound, at a second binding in one scope, and at a definition
that its own body calls.

Binders are numbered in the order of the walk, and the walk notes the number of the
binder for each call. Whether a block of one expression is kept or replaced by the
expression makes no difference to any of this.
-/

namespace Lila

structure Walk where
  /-- The names of the open scopes with their binders, innermost first. -/
  scopes : List (Scope.Bindings Nat) := []
  /-- The number of binders passed. -/
  binders : Nat := 0
  /-- The binders of the calls passed, newest first. -/
  calls : List Nat := []
deriving DecidableEq

namespace Walk

def call (name : String) (w : Walk) : Option Walk :=
  (w.scopes.findSome? (List.lookup name)).map fun binder => { w with calls := binder :: w.calls }

def isBoundHere (name : String) (w : Walk) : Bool :=
  ((w.scopes.headD []).lookup name).isSome

/-- Passes a binder, the name of which must not be bound in the innermost scope. -/
def bind (name : String) (w : Walk) : Option Walk :=
  if w.isBoundHere name then none
  else
    some { w with
      scopes := Scope.bindFront name w.binders w.scopes
      binders := w.binders + 1 }

def bindAll : List String → Walk → Option Walk
  | [], w => some w
  | name :: names, w => (w.bind name).bind (bindAll names)

/-- Passes the binder of a definition. No call passed so far may have it. Of itself that is
so in a walk from the start: the name is bound behind the body, and the calls there have
binders with smaller numbers. -/
def define (name : String) (w : Walk) : Option Walk :=
  if w.binders ∈ w.calls then none else w.bind name

def inside (w : Walk) (body : Walk → Option Walk) : Option Walk :=
  (body { w with scopes := [] :: w.scopes }).map fun inner => { inner with scopes := w.scopes }

end Walk

namespace Tree

mutual

def walk : Tree → Walk → Option Walk
  | .number _, w => some w
  | .binary _ lhs rhs, w => (lhs.walk w).bind rhs.walk
  | .call name args, w => (w.call name).bind (walkAll args)
  | .value name expr, w => (expr.walk w).bind (Walk.bind name)
  | .definition name params body, w =>
      (w.inside fun inner => (inner.bindAll params).bind body.walk).bind (Walk.define name)
  | .block _ body, w => w.inside (walkAll body)

def walkAll : List Tree → Walk → Option Walk
  | [], w => some w
  | tree :: trees, w => (tree.walk w).bind (walkAll trees)

end

/-- A walk over the tree reaches its end. -/
def WellScoped (tree : Tree) : Prop := (tree.walk {}).isSome = true

instance : DecidablePred WellScoped := fun tree =>
  inferInstanceAs (Decidable ((tree.walk {}).isSome = true))

/-- A definition cannot call itself, but it can call what it hides. -/
example : ¬ WellScoped (.block 0 [.definition "f" [] (.call "f" [])]) ∧
    WellScoped (.block 0 [.value "f" (.number (.ofBits 0)),
      .block 1 [.definition "f" [] (.call "f" []), .call "f" []]]) := by decide

mutual

/-- The tree with every block of one element replaced by the element. -/
def collapse : Tree → Tree
  | .number x => .number x
  | .binary op lhs rhs => .binary op lhs.collapse rhs.collapse
  | .call name args => .call name (collapseAll args)
  | .value name expr => .value name expr.collapse
  | .definition name params body => .definition name params body.collapse
  | .block depth body => ofBody depth (collapseAll body)

def collapseAll : List Tree → List Tree
  | [] => []
  | tree :: trees => tree.collapse :: collapseAll trees

end

mutual

/-- Bindings stand in blocks only, and every block ends in an expression. -/
def Proper : Tree → Prop
  | .number _ => True
  | .binary _ lhs rhs =>
      (lhs.isExpr = true ∧ lhs.Proper) ∧ rhs.isExpr = true ∧ rhs.Proper
  | .call _ args => (∀ arg ∈ args, arg.isExpr = true) ∧ ProperAll args
  | .value _ expr => expr.isExpr = true ∧ expr.Proper
  | .definition _ _ body => body.isExpr = true ∧ body.Proper
  | .block _ body => body.getLast?.any isExpr = true ∧ ProperAll body

def ProperAll : List Tree → Prop
  | [] => True
  | tree :: trees => tree.Proper ∧ ProperAll trees

end

end Tree

/-! ## Empty scopes

A scope without names in it can be seen only by the bindings made in it. -/

namespace Walk

/-- One more scope, with no names in it and `k` scopes inside it. -/
def pad (k : Nat) (w : Walk) : Walk := { w with scopes := w.scopes.insertIdx k [] }

theorem findSome?_insertIdx_nil (name : String) (scopes : List (Scope.Bindings Nat)) (k : Nat) :
    (scopes.insertIdx k []).findSome? (List.lookup name) =
      scopes.findSome? (List.lookup name) := by
  induction k generalizing scopes with
  | zero => rfl
  | succ k ih =>
      cases scopes with
      | nil => rfl
      | cons table outer =>
          rw [List.insertIdx_succ_cons, List.findSome?_cons, List.findSome?_cons, ih]

theorem call_pad (name : String) (k : Nat) (w : Walk) :
    (w.pad k).call name = (w.call name).map (pad k) := by
  rw [call, call, pad, findSome?_insertIdx_nil, Option.map_map]
  rfl

theorem isBoundHere_pad (name : String) (k : Nat) (w : Walk) :
    (w.pad (k + 1)).isBoundHere name = w.isBoundHere name := by
  obtain ⟨scopes, binders, calls⟩ := w
  cases scopes with
  | nil => rfl
  | cons table outer => rfl

theorem bindFront_insertIdx (name : String) (binder k : Nat) (scopes : List (Scope.Bindings Nat)) :
    Scope.bindFront name binder (scopes.insertIdx (k + 1) []) =
      (Scope.bindFront name binder scopes).insertIdx (k + 1) [] := by
  cases scopes with
  | nil => rfl
  | cons table outer => rfl

theorem bind_pad (name : String) (k : Nat) (w : Walk) :
    (w.pad (k + 1)).bind name = (w.bind name).map (pad (k + 1)) := by
  unfold bind
  rw [isBoundHere_pad]
  cases w.isBoundHere name with
  | true => rfl
  | false =>
      simp only [Bool.false_eq_true, if_false, Option.map_some, Option.some.injEq]
      simp only [pad, bindFront_insertIdx]

theorem bindAll_pad (names : List String) (k : Nat) (w : Walk) :
    (w.pad (k + 1)).bindAll names = (w.bindAll names).map (pad (k + 1)) := by
  induction names generalizing w with
  | nil => rfl
  | cons name names ih =>
      rw [bindAll, bindAll, bind_pad]
      cases w.bind name with
      | none => rfl
      | some v => exact ih v

theorem define_pad (name : String) (k : Nat) (w : Walk) :
    (w.pad (k + 1)).define name = (w.define name).map (pad (k + 1)) := by
  unfold define
  rw [show (w.pad (k + 1)).binders = w.binders from rfl]
  rw [show (w.pad (k + 1)).calls = w.calls from rfl]
  split
  · rfl
  · exact bind_pad name k w

theorem inside_pad {body : Walk → Option Walk} {k : Nat}
    (h : ∀ w, body (pad (k + 1) w) = (body w).map (pad (k + 1))) (w : Walk) :
    (w.pad k).inside body = (w.inside body).map (pad k) := by
  unfold inside
  rw [show { w.pad k with scopes := [] :: (w.pad k).scopes } =
    pad (k + 1) { w with scopes := [] :: w.scopes } from rfl, h, Option.map_map, Option.map_map]
  rfl

theorem bind_map_pad {k : Nat} {r : Option Walk} {f : Walk → Option Walk}
    (h : ∀ w, f (pad k w) = (f w).map (pad k)) :
    (r.map (pad k)).bind f = (r.bind f).map (pad k) := by
  cases r with
  | none => rfl
  | some w => exact h w

end Walk

namespace Tree

open Walk (pad)

mutual

theorem walk_pad_succ (k : Nat) :
    ∀ (tree : Tree) (w : Walk), tree.walk (w.pad (k + 1)) = (tree.walk w).map (pad (k + 1))
  | .number _, w => rfl
  | .binary op lhs rhs, w => by
      rw [walk, walk, walk_pad_succ k lhs w]
      exact Walk.bind_map_pad (walk_pad_succ k rhs)
  | .call name args, w => by
      rw [walk, walk, Walk.call_pad]
      exact Walk.bind_map_pad (walkAll_pad_succ k args)
  | .value name expr, w => by
      rw [walk, walk, walk_pad_succ k expr w]
      exact Walk.bind_map_pad (Walk.bind_pad name k)
  | .definition name params body, w => by
      have hbody : ∀ v : Walk, ((v.pad (k + 2)).bindAll params).bind body.walk =
          ((v.bindAll params).bind body.walk).map (pad (k + 2)) := by
        intro v
        rw [Walk.bindAll_pad params (k + 1) v]
        exact Walk.bind_map_pad (walk_pad_succ (k + 1) body)
      rw [walk, walk, Walk.inside_pad hbody]
      exact Walk.bind_map_pad (Walk.define_pad name k)
  | .block depth body, w => Walk.inside_pad (walkAll_pad_succ (k + 1) body) w

theorem walkAll_pad_succ (k : Nat) :
    ∀ (trees : List Tree) (w : Walk),
      walkAll trees (w.pad (k + 1)) = (walkAll trees w).map (pad (k + 1))
  | [], w => rfl
  | tree :: trees, w => by
      rw [walkAll, walkAll, walk_pad_succ k tree w]
      exact Walk.bind_map_pad (walkAll_pad_succ k trees)

end

/-! ## Expressions

Of the bindings in an expression none is made in the scope that the expression
stands in. -/

mutual

theorem scopes_of_walk :
    ∀ (tree : Tree), tree.isExpr = true → tree.Proper →
      ∀ {w v : Walk}, tree.walk w = some v → v.scopes = w.scopes
  | .number _, _, _, w, v, h => by rw [← Option.some.inj h]
  | .binary op lhs rhs, _, hproper, w, v, h => by
      obtain ⟨⟨hl, hlhs⟩, hr, hrhs⟩ := hproper
      obtain ⟨u, hu, hv⟩ := Option.bind_eq_some_iff.1 h
      exact (scopes_of_walk rhs hr hrhs hv).trans (scopes_of_walk lhs hl hlhs hu)
  | .call name args, _, hproper, w, v, h => by
      obtain ⟨hexprs, hargs⟩ := hproper
      obtain ⟨u, hu, hv⟩ := Option.bind_eq_some_iff.1 h
      obtain ⟨binder, -, rfl⟩ := Option.map_eq_some_iff.1 hu
      exact (scopes_of_walkAll args hexprs hargs hv).trans rfl
  | .block depth body, _, _, w, v, h => by
      obtain ⟨inner, -, rfl⟩ := Option.map_eq_some_iff.1 h
      rfl

theorem scopes_of_walkAll :
    ∀ (trees : List Tree), (∀ tree ∈ trees, tree.isExpr = true) → ProperAll trees →
      ∀ {w v : Walk}, walkAll trees w = some v → v.scopes = w.scopes
  | [], _, _, w, v, h => by rw [← Option.some.inj h]
  | tree :: trees, hexprs, hproper, w, v, h => by
      obtain ⟨u, hu, hv⟩ := Option.bind_eq_some_iff.1 h
      obtain ⟨hexpr, hexprs⟩ := List.forall_mem_cons.1 hexprs
      exact (scopes_of_walkAll trees hexprs hproper.2 hv).trans
        (scopes_of_walk tree hexpr hproper.1 hu)

end

mutual

theorem walk_pad_zero :
    ∀ (tree : Tree), tree.isExpr = true → tree.Proper →
      ∀ w : Walk, tree.walk (w.pad 0) = (tree.walk w).map (pad 0)
  | .number _, _, _, w => rfl
  | .binary op lhs rhs, _, hproper, w => by
      obtain ⟨⟨hl, hlhs⟩, hr, hrhs⟩ := hproper
      rw [walk, walk, walk_pad_zero lhs hl hlhs w]
      exact Walk.bind_map_pad (walk_pad_zero rhs hr hrhs)
  | .call name args, _, hproper, w => by
      rw [walk, walk, Walk.call_pad]
      exact Walk.bind_map_pad (walkAll_pad_zero args hproper.1 hproper.2)
  | .block depth body, _, _, w => Walk.inside_pad (walkAll_pad_succ 0 body) w

theorem walkAll_pad_zero :
    ∀ (trees : List Tree), (∀ tree ∈ trees, tree.isExpr = true) → ProperAll trees →
      ∀ w : Walk, walkAll trees (w.pad 0) = (walkAll trees w).map (pad 0)
  | [], _, _, w => rfl
  | tree :: trees, hexprs, hproper, w => by
      obtain ⟨hexpr, hexprs⟩ := List.forall_mem_cons.1 hexprs
      rw [walkAll, walkAll, walk_pad_zero tree hexpr hproper.1 w]
      exact Walk.bind_map_pad (walkAll_pad_zero trees hexprs hproper.2)

end

/-- The scope of an expression by itself stays empty, and is not missed. -/
theorem inside_walk {tree : Tree} (hexpr : tree.isExpr = true) (hproper : tree.Proper) (w : Walk) :
    w.inside tree.walk = tree.walk w := by
  unfold Walk.inside
  rw [show { w with scopes := [] :: w.scopes } = w.pad 0 from rfl]
  rw [walk_pad_zero tree hexpr hproper w, Option.map_map]
  cases hv : tree.walk w with
  | none => rfl
  | some v =>
      rw [Option.map_some, Function.comp_apply, ← scopes_of_walk tree hexpr hproper hv]
      rfl

/-! ## Collapsing blocks -/

mutual

/-- Replacing blocks of one element by the element changes neither whether a tree is
well scoped nor the binder of any call. -/
theorem walk_collapse :
    ∀ (tree : Tree), tree.Proper → ∀ w : Walk, tree.collapse.walk w = tree.walk w
  | .number _, _, w => rfl
  | .binary op lhs rhs, hproper, w => by
      rw [collapse, walk, walk, walk_collapse lhs hproper.1.2 w]
      congr 1
      exact funext (walk_collapse rhs hproper.2.2)
  | .call name args, hproper, w => by
      rw [collapse, walk, walk]
      congr 1
      exact funext (walkAll_collapseAll args hproper.2)
  | .value name expr, hproper, w => by
      rw [collapse, walk, walk, walk_collapse expr hproper.2 w]
  | .definition name params body, hproper, w => by
      rw [collapse, walk, walk, show body.collapse.walk = body.walk from
        funext (walk_collapse body hproper.2)]
  | .block depth [], hproper, w => rfl
  | .block depth [element], hproper, w => by
      obtain ⟨hexpr, helement, -⟩ := hproper
      have hinside : w.inside element.walk = element.walk w := inside_walk hexpr helement w
      rw [show collapse (.block depth [element]) = element.collapse from rfl]
      rw [walk_collapse element helement w, walk, ← hinside]
      congr 1
      funext v
      exact (Option.bind_fun_some (element.walk v)).symm
  | .block depth (first :: second :: more), hproper, w => by
      have hall := walkAll_collapseAll (first :: second :: more) hproper.2
      rw [show collapse (.block depth (first :: second :: more)) =
        .block depth (collapseAll (first :: second :: more)) from rfl]
      rw [walk, walk, show walkAll (collapseAll (first :: second :: more)) =
        walkAll (first :: second :: more) from funext hall]

theorem walkAll_collapseAll :
    ∀ (trees : List Tree), ProperAll trees → ∀ w : Walk,
      walkAll (collapseAll trees) w = walkAll trees w
  | [], _, w => rfl
  | tree :: trees, hproper, w => by
      rw [collapseAll, walkAll, walkAll, walk_collapse tree hproper.1 w]
      congr 1
      exact funext (walkAll_collapseAll trees hproper.2)

end

end Tree

end Lila
