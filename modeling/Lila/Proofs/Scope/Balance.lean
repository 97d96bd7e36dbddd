import Lila.Proofs.Scope.Layers
import Mathlib.Data.List.Infix

/-! # Balanced runs

Operations are balanced if they close every scope that they open, and none besides.
Carried out in a scope that is opened for them, they leave no trace when it is closed:
they never come down to the layers below it, so that whatever they bind, be it a name in
use outside or not, goes away with the layers that they have put on. Nor do they meet the
bottom layer, which a `pop` would leave where it is.
-/

namespace Lila.Scope

variable {α : Type} {ops : List (Operation α)}

/-! ## Counting -/

def Operation.isPush : Operation α → Bool
  | .push _ => true
  | _ => false

def Operation.isPop : Operation α → Bool
  | .pop => true
  | _ => false

def pushes (ops : List (Operation α)) : Nat := ops.countP Operation.isPush

def pops (ops : List (Operation α)) : Nat := ops.countP Operation.isPop

theorem pushes_cons (op : Operation α) (ops : List (Operation α)) :
    pushes (op :: ops) = pushes [op] + pushes ops := by
  rw [pushes, ← List.singleton_append, List.countP_append]
  rfl

theorem pops_cons (op : Operation α) (ops : List (Operation α)) :
    pops (op :: ops) = pops [op] + pops ops := by
  rw [pops, ← List.singleton_append, List.countP_append]
  rfl

/-- As many scopes are closed as are opened, and never more up to any point. -/
structure Balanced (ops : List (Operation α)) : Prop where
  front : ∀ front, front <+: ops → pops front ≤ pushes front
  total : pops ops = pushes ops

theorem balanced_iff :
    Balanced ops ↔ (∀ front ∈ ops.inits, pops front ≤ pushes front) ∧ pops ops = pushes ops := by
  simp only [List.mem_inits]
  exact ⟨fun h => ⟨h.front, h.total⟩, fun h => ⟨h.1, h.2⟩⟩

instance : DecidablePred (Balanced (α := α)) := fun _ => decidable_of_iff' _ balanced_iff

/-! ## Layers -/

namespace Layers

variable {s : Layers α} {base : List (Layer α)} {m : Nat}

def after (s : Layers α) (ops : List (Operation α)) : Layers α :=
  ops.foldl (fun s op => (s.apply op).2) s

theorem eq_of_all {s t : Layers α} (h : s.all = t.all) : s = t := by
  cases s
  cases t
  cases h
  rfl

/-- The layers of `base` are at the bottom, and a number of others above them. -/
def Above (base : List (Layer α)) (count : Nat) (s : Layers α) : Prop :=
  ∃ inner, s.all = inner ++ base ∧ inner.length = count

/-- As long as there is a layer above, an operation leaves the base alone. -/
theorem Above.apply (h : s.Above base m) (hpos : 0 < m) (hbase : base ≠ []) (op : Operation α) :
    ∃ n, (s.apply op).2.Above base n ∧ n + pops [op] = m + pushes [op] := by
  obtain ⟨inner, hall, rfl⟩ := h
  obtain ⟨top, inner, rfl⟩ := List.exists_cons_of_length_pos hpos
  obtain ⟨rfl, hbelow⟩ : s.top = top ∧ s.below = inner ++ base := List.cons.inj hall
  cases op with
  | push name =>
      refine ⟨inner.length + 2, ⟨.empty name :: s.top :: inner, ?_, rfl⟩, rfl⟩
      exact congrArg (Layer.empty name :: ·) hall
  | pop =>
      refine ⟨inner.length, ⟨inner, ?_, rfl⟩, rfl⟩
      -- The top is not the bottom layer, so it is taken off.
      have hne : inner ++ base ≠ [] := List.append_ne_nil_of_right_ne_nil inner hbase
      obtain ⟨next, more, hnext⟩ := List.exists_cons_of_ne_nil hne
      rw [hnext] at hbelow
      simp only [Layers.apply, Layers.pop, hbelow]
      exact hnext.symm
  | define name value =>
      refine ⟨inner.length + 1, ⟨(s.define name value).top :: inner, ?_, rfl⟩, rfl⟩
      exact congrArg ((s.define name value).top :: ·) hbelow
  | lookup name => exact ⟨inner.length + 1, ⟨s.top :: inner, hall, rfl⟩, rfl⟩
  | isDefinedHere name => exact ⟨inner.length + 1, ⟨s.top :: inner, hall, rfl⟩, rfl⟩

/-- The same for a sequence of operations, if there is a layer above the base in front of
each of them. -/
theorem Above.after (h : s.Above base m) (hbase : base ≠ [])
    (hfront : ∀ front, front <+: ops → pops front < m + pushes front) :
    ∃ n, (s.after ops).Above base n ∧ n + pops ops = m + pushes ops := by
  induction ops generalizing s m with
  | nil => exact ⟨m, h, rfl⟩
  | cons op ops ih =>
      have hpos : 0 < m := by simpa [pops, pushes] using hfront [] List.nil_prefix
      obtain ⟨k, hk, hcount⟩ := h.apply hpos hbase op
      have hrest : ∀ front, front <+: ops → pops front < k + pushes front := by
        intro front hprefix
        have hlt := hfront (op :: front) (List.cons_prefix_cons.2 ⟨rfl, hprefix⟩)
        rw [pops_cons, pushes_cons] at hlt
        omega
      obtain ⟨n, hn, htotal⟩ := ih hk hrest
      refine ⟨n, hn, ?_⟩
      rw [pops_cons, pushes_cons]
      omega

theorem after_balanced (s : Layers α) (name : String) (h : Balanced ops) :
    s.after (.push name :: ops ++ [.pop]) = s := by
  have hstart : (s.push name).Above s.all 1 := ⟨[.empty name], rfl, rfl⟩
  have hbase : s.all ≠ [] := List.cons_ne_nil _ _
  have htotal := h.total
  have hfront : ∀ front, front <+: ops → pops front < 1 + pushes front := by
    intro front hprefix
    have hle := h.front front hprefix
    omega
  obtain ⟨m, hinside, hm⟩ := hstart.after hbase hfront
  obtain ⟨n, ⟨inner, hall, rfl⟩, hn⟩ := hinside.apply (by omega) hbase .pop
  have hinner : inner = [] := by
    have hpop : pops [(.pop : Operation α)] = 1 := rfl
    have hpush : pushes [(.pop : Operation α)] = 0 := rfl
    exact List.eq_nil_of_length_eq_zero (by omega)
  have hlast : s.after (.push name :: ops ++ [.pop]) =
      (((s.push name).after ops).apply .pop).2 := by
    simp [after, apply]
  rw [hlast]
  apply eq_of_all
  rw [hall, hinner, List.nil_append]

end Layers

/-! ## Chains -/

def Chain.after (c : Chain α) (ops : List (Operation α)) : Chain α :=
  ops.foldl (fun c op => (c.apply op).2) c

theorem Shows.after {c : Chain α} {s : Layers α} (h : Shows c s) (ops : List (Operation α)) :
    Shows (c.after ops) (s.after ops) := by
  induction ops generalizing c s with
  | nil => exact h
  | cons op ops ih => exact ih (h.apply op).2

/-- Behind a scope and a balanced run in it, a chain shows the depth, the path and the
bindings that it has shown before, and no later operation tells it from the chain that it
was. -/
theorem balanced_leaves_no_trace (history : List (Operation α)) (name : String)
    (h : Balanced ops) :
    let c := (Chain.new : Chain α).after history
    let d := c.after (.push name :: ops ++ [.pop])
    d.depth = c.depth ∧ d.path = c.path ∧ (∀ x, d.lookup x = c.lookup x) ∧
      (∀ x, d.isDefinedHere x = c.isDefinedHere x) ∧ ∀ later, d.run later = c.run later := by
  intro c d
  let s : Layers α := Layers.new.after history
  have hc : Shows c s := Shows.new.after history
  have hd : Shows d s := by
    rw [← s.after_balanced name h]
    exact hc.after _
  refine ⟨?_, ?_, fun x => ?_, fun x => ?_, fun later => ?_⟩
  · rw [hd.depth_eq, hc.depth_eq]
  · rw [hd.path_eq, hc.path_eq]
  · rw [hd.lookup_eq, hc.lookup_eq]
  · show (d.here? x).isSome = (c.here? x).isSome
    rw [hd.here?_eq, hc.here?_eq]
  · rw [hd.run, hc.run]

/-- Inside, the name is bound twice and in two scopes. -/
theorem balanced_leaves_no_trace_rebound :
    let history : List (Operation Nat) := [.push "f", .define "x" 1]
    let ops : List (Operation Nat) := [.define "x" 2, .push "h", .define "x" 3, .define "x" 4,
      .lookup "x", .pop, .define "y" 5, .lookup "x"]
    let d := (Chain.new.after history).after (.push "g" :: ops ++ [.pop])
    Balanced ops ∧ d.path = "global.f" ∧ d.lookup "x" = some 1 ∧ d.isDefinedHere "y" = false := by
  intro history ops d
  have h : Balanced ops := by decide
  obtain ⟨-, hpath, hlookup, hhere, -⟩ := balanced_leaves_no_trace history "g" h
  exact ⟨h, hpath.trans rfl, (hlookup "x").trans rfl, (hhere "y").trans rfl⟩

end Lila.Scope
