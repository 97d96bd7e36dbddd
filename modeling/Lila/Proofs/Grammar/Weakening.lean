import Lila.Proofs.Grammar.Lines

/-! # More names

What the grammar derives in an environment, it derives with more names as well, and
with the same tree. Every name that was visible still is, and which of several
bindings it has is no matter of the grammar. Only the innermost scope refuses
something: a name that it has already. The blocks inside a statement start with an
innermost scope of their own, so that the names in question are those that the
statements themselves bind.
-/

namespace Lila

namespace Tree

def binds : Tree → Option String
  | .value name _ => some name
  | .definition name _ _ => some name
  | _ => none

def boundNames (body : List Tree) : List String := body.filterMap binds

end Tree

namespace Grammar

open Lila.Tree (boundNames)

namespace Env

def Within (Γ Γ' : Env) : Prop := ∀ name, Γ.Sees name → Γ'.Sees name

variable {Γ Γ' : Env}

theorem sees_inside {name : String} : Γ.inside.Sees name ↔ Γ.Sees name := by
  simp [Sees, inside]

theorem sees_bind {name other : String} :
    (Γ.bind other).Sees name ↔ name = other ∨ Γ.Sees name := by
  simp [Sees, bind, or_assoc]

theorem Within.inside (h : Within Γ Γ') : Within Γ.inside Γ'.inside :=
  fun name hname => sees_inside.2 (h name (sees_inside.1 hname))

theorem Within.bind (h : Within Γ Γ') (name : String) : Within (Γ.bind name) (Γ'.bind name) :=
  fun other hother => sees_bind.2 ((sees_bind.1 hother).imp_right (h other))

theorem Within.bindAll (h : Within Γ Γ') (names : List String) :
    Within (Γ.bindAll names) (Γ'.bindAll names) := by
  induction names generalizing Γ Γ' with
  | nil => exact h
  | cons name names ih => exact ih (h.bind name)

theorem Within.after (h : Within Γ Γ') (tree : Tree) : Within (Γ.after tree) (Γ'.after tree) := by
  cases tree with
  | value name expr => exact h.bind name
  | definition name params body => exact h.bind name
  | number | binary | call | block => exact h

theorem here_after_eq (Γ : Env) (tree : Tree) :
    (Γ.after tree).here = tree.binds.toList ++ Γ.here := by
  cases tree <;> rfl

theorem here_after (h : Γ'.here = Γ.here) (tree : Tree) :
    (Γ'.after tree).here = (Γ.after tree).here := by
  rw [here_after_eq, here_after_eq, h]

theorem mem_here_afterAll {name : String} {body : List Tree} :
    name ∈ (Γ.afterAll body).here ↔ name ∈ boundNames body ∨ name ∈ Γ.here := by
  induction body generalizing Γ with
  | nil => simp [afterAll, boundNames]
  | cons tree body ih =>
      rw [show Γ.afterAll (tree :: body) = (Γ.after tree).afterAll body from rfl, ih,
        here_after_eq, List.mem_append, Option.mem_toList]
      cases hbinds : tree.binds with
      | none => simp [boundNames, hbinds]
      | some other => simp [boundNames, hbinds, or_assoc, or_left_comm, eq_comm]

/-- Of the given names, the innermost scope of `Γ'` has no more than that of `Γ`. -/
def Free (names : List String) (Γ Γ' : Env) : Prop :=
  ∀ name ∈ names, name ∈ Γ'.here → name ∈ Γ.here

theorem Free.head {tree : Tree} {body : List Tree} (h : Free (boundNames (tree :: body)) Γ Γ') :
    Free tree.binds.toList Γ Γ' := by
  intro name hname
  apply h name
  exact List.mem_filterMap.2 ⟨tree, List.mem_cons_self, Option.mem_toList.1 hname⟩

theorem Free.after {tree : Tree} {body : List Tree} (h : Free (boundNames (tree :: body)) Γ Γ') :
    Free (boundNames body) (Γ.after tree) (Γ'.after tree) := by
  intro name hname
  have hmem : name ∈ boundNames (tree :: body) := by
    obtain ⟨other, hother, hbinds⟩ := List.mem_filterMap.1 hname
    exact List.mem_filterMap.2 ⟨other, List.mem_cons_of_mem _ hother, hbinds⟩
  rw [here_after_eq, here_after_eq, List.mem_append, List.mem_append]
  exact Or.imp_right (h name hmem)

theorem Free.notMem {names : List String} (h : Free names Γ Γ') {name : String}
    (hname : name ∈ names) (hfree : name ∉ Γ.here) : name ∉ Γ'.here :=
  fun hmem => hfree (h name hname hmem)

end Env

variable {fold : Nat → List Tree → Tree}

mutual

theorem Expression.weaken {Γ Γ' : Env} {d : Nat} {ts : List Token} {tree : Tree} :
    Expression fold Γ d ts tree → Γ.Within Γ' → Expression fold Γ' d ts tree
  | .mk hfirst hlinks hgroup, h => .mk (hfirst.weaken h) (hlinks.weaken h) hgroup

theorem Operators.weaken {Γ Γ' : Env} {d : Nat} {ts : List Token} {links : Links} :
    Operators fold Γ d ts links → Γ.Within Γ' → Operators fold Γ' d ts links
  | .nil _ d, _ => .nil Γ' d
  | .cons op hoperand hlinks, h => .cons op (hoperand.weaken h) (hlinks.weaken h)

theorem Operand.weaken {Γ Γ' : Env} {d : Nat} {ts : List Token} {tree : Tree} :
    Operand fold Γ d ts tree → Γ.Within Γ' → Operand fold Γ' d ts tree
  | .number _ d value, _ => .number Γ' d value
  | .name d hname, h => .name d (h _ hname)
  | .call hname hargs, h => .call (h _ hname) (hargs.weaken h)
  | .group hinner, h => .group (hinner.weaken h)
  | .block before behind hbody, h =>
      .block before behind (hbody.weaken h.inside fun _ _ hmem => hmem)

theorem Arguments.weaken {Γ Γ' : Env} {d : Nat} {ts : List Token} {args : List Tree} :
    Arguments fold Γ d ts args → Γ.Within Γ' → Arguments fold Γ' d ts args
  | .one hfirst, h => .one (hfirst.weaken h)
  | .cons hfirst hargs, h => .cons (hfirst.weaken h) (hargs.weaken h)

theorem Statement.weaken {Γ Γ' : Env} {d : Nat} {ts : List Token} {tree : Tree} :
    Statement fold Γ d ts tree → Γ.Within Γ' → Env.Free tree.binds.toList Γ Γ' →
      Statement fold Γ' d ts tree
  | .value hname hexpr, h, hfree =>
      .value (hfree.notMem List.mem_cons_self hname) (hexpr.weaken h)
  | .definition hname hparams hdistinct hbody, h, hfree =>
      .definition (hfree.notMem List.mem_cons_self hname) hparams hdistinct
        (hbody.weaken (h.inside.bindAll _))
  | .expression hexpr, h, _ => .expression (hexpr.weaken h)

theorem Body.weaken {Γ Γ' : Env} {d : Nat} {ts : List Token} {body : List Tree} :
    Body fold Γ d ts body → Γ.Within Γ' → Env.Free (boundNames body) Γ Γ' →
      Body fold Γ' d ts body
  | .last hlast, h, _ => .last (hlast.weaken h)
  | .cons between hfirst hbody, h, hfree =>
      .cons between (hfirst.weaken h hfree.head) (hbody.weaken (h.after _) hfree.after)

end

theorem Lines.weaken {Γ Γ' : Env} {d : Nat} {ts : List Token} {body : List Tree}
    (hlines : Lines fold Γ d ts body) (h : Γ.Within Γ') (hfree : Env.Free (boundNames body) Γ Γ') :
    Lines fold Γ' d ts body := by
  induction hlines generalizing Γ' with
  | nil Γ d => exact .nil Γ' d
  | newline hlines ih => exact .newline (ih h hfree)
  | last hlast => exact .last (hlast.weaken h hfree.head)
  | cons hfirst hlines ih =>
      exact .cons (hfirst.weaken h hfree.head) (ih (h.after _) hfree.after)

end Grammar

end Lila
