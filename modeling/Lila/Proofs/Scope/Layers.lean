import Lila.Proofs.Scope.Frames
import Lila.Scope.Operation

/-! # Chains as layers

What a chain is to its users: a stack of named maps, with the map `global` at its
bottom. There is no arena here, and a layer that is taken off is gone. A chain shows
the layers of its open scopes; every operation does to it what it does to them, and
gives the same answer, so that a table that was left behind in the arena is never
seen again.

The places of the open scopes are followed apart from that. An arena that checks each
place before it reads a name or a binding there never finds one that is wrong.
-/

namespace Lila.Scope

variable {α : Type}

/-! ## Layers -/

structure Layer (α : Type) where
  name : String
  value : String → Option α

def Layer.empty (name : String) : Layer α := ⟨name, fun _ => none⟩

/-- Layers on top of each other. There is always one. -/
structure Layers (α : Type) where
  top : Layer α
  /-- From the top to the bottom. -/
  below : List (Layer α)

namespace Layers

def all (s : Layers α) : List (Layer α) := s.top :: s.below

def new : Layers α := ⟨.empty "global", []⟩

def push (s : Layers α) (name : String) : Layers α := ⟨.empty name, s.all⟩

def pop (s : Layers α) : Layers α :=
  match s.below with
  | [] => s
  | next :: more => ⟨next, more⟩

def define (s : Layers α) (name : String) (value : α) : Layers α :=
  { s with top := { s.top with value := fun x => if x = name then some value else s.top.value x } }

def lookup (s : Layers α) (name : String) : Option α := s.all.findSome? fun layer => layer.value name

def depth (s : Layers α) : Nat := s.all.length - 1

def path (s : Layers α) : String := ".".intercalate (s.all.reverse.map Layer.name)

/-- Carries an operation out. A definition answers with the value it replaces. -/
def apply (s : Layers α) : Operation α → Answer α × Layers α
  | .push name => (.done, s.push name)
  | .pop => (.done, s.pop)
  | .define name value => (.value (s.top.value name), s.define name value)
  | .lookup name => (.value (s.lookup name), s)
  | .isDefinedHere name => (.flag (s.top.value name).isSome, s)

def run (s : Layers α) : List (Operation α) → List (Step α)
  | [] => []
  | op :: ops =>
      let (answer, s) := s.apply op
      ⟨answer, s.depth, s.path⟩ :: run s ops

end Layers

/-! ## The layers of a chain -/

theorem Chain.pop_of_single {c : Chain α} {scope : Open} (h : c.stack = [scope]) : c.pop = c := by
  have hslots := c.stack_eq.symm.trans h
  obtain ⟨slot, hslots, -⟩ := List.map_eq_singleton_iff.1 hslots
  obtain ⟨⟨tables, slots⟩, valid, stack, stack_eq⟩ := c
  cases h
  cases hslots
  rfl

/-- The open scopes of the chain are the layers, with the same names and values. -/
structure Shows (c : Chain α) (s : Layers α) : Prop where
  names : c.stack.map Open.name = s.all.map Layer.name
  values : (c.frames.map fun table name => List.lookup name table) = s.all.map Layer.value

namespace Shows

variable {c : Chain α} {s : Layers α}

theorem lookup_eq (h : Shows c s) (name : String) : c.lookup name = s.lookup name := by
  calc
    c.lookup name = c.frames.findSome? (List.lookup name) := c.lookup_eq_frames name
    _ = (c.frames.map fun table x => List.lookup x table).findSome? fun value => value name := by
      simp [List.findSome?_map, Function.comp_def]
    _ = (s.all.map Layer.value).findSome? fun value => value name := by rw [h.values]
    _ = s.lookup name := by simp [Layers.lookup, List.findSome?_map, Function.comp_def]

theorem here?_eq (h : Shows c s) (name : String) : c.here? name = s.top.value name := by
  have hvalues := h.values
  rw [c.here?_eq_frames]
  cases hframes : c.frames with
  | nil => exact absurd hframes c.frames_ne_nil
  | cons table outer =>
      rw [hframes, Layers.all, List.map_cons, List.map_cons] at hvalues
      exact congrFun (List.cons.inj hvalues).1 name

theorem depth_eq (h : Shows c s) : c.depth = s.depth := by
  have hlength := congrArg List.length h.names
  rw [List.length_map, List.length_map] at hlength
  rw [c.depth_eq, Layers.depth, hlength]

theorem path_eq (h : Shows c s) : c.path = s.path := by
  rw [c.path_eq, pathOf, List.map_reverse, h.names, ← List.map_reverse]
  rfl

theorem new : Shows (Chain.new : Chain α) Layers.new := ⟨rfl, rfl⟩

theorem push (h : Shows c s) (name : String) : Shows (c.push name) (s.push name) := by
  constructor
  · rw [Chain.stack_push, List.map_cons, h.names]
    rfl
  · rw [Chain.frames_push, List.map_cons, h.values]
    rfl

theorem define (h : Shows c s) (name : String) (value : α) :
    Shows (c.define name value) (s.define name value) := by
  have hvalues := h.values
  constructor
  · rw [Chain.stack_define, h.names]
    rfl
  · rw [Chain.frames_define]
    cases hframes : c.frames with
    | nil => exact absurd hframes c.frames_ne_nil
    | cons table outer =>
        rw [hframes, Layers.all, List.map_cons, List.map_cons] at hvalues
        obtain ⟨htop, hbelow⟩ := List.cons.inj hvalues
        have hnew : (fun x => List.lookup x ((name, value) :: table)) =
            fun x => if x = name then some value else s.top.value x := by
          funext x
          have hx := congrFun htop x
          by_cases hname : x = name
          · simp [hname]
          · simp [List.lookup_cons, beq_eq_false_iff_ne.2 hname, hname, hx]
        simp only [bindFront, Layers.all, Layers.define, List.map_cons, hnew, hbelow]

/-- The only layer stays, as the outermost scope does. -/
theorem pop (h : Shows c s) : Shows c.pop s.pop := by
  have hnames := h.names
  have hvalues := h.values
  cases hstack : c.stack with
  | nil => exact absurd hstack c.stack_ne_nil
  | cons top outer =>
      cases hframes : c.frames with
      | nil => exact absurd hframes c.frames_ne_nil
      | cons table tables =>
          rw [hstack, Layers.all, List.map_cons, List.map_cons] at hnames
          rw [hframes, Layers.all, List.map_cons, List.map_cons] at hvalues
          have hnames := (List.cons.inj hnames).2
          have hvalues := (List.cons.inj hvalues).2
          cases hbelow : s.below with
          | nil =>
              have houter : outer = [] := by simpa [hbelow] using hnames
              have hpop : c.pop = c := Chain.pop_of_single (houter ▸ hstack)
              rw [hpop, Layers.pop, hbelow]
              exact h
          | cons next more =>
              have houter : outer ≠ [] := by
                intro hnil
                simp [hnil, hbelow] at hnames
              have htables : tables ≠ [] := by
                intro hnil
                simp [hnil, hbelow] at hvalues
              rw [Layers.pop, hbelow]
              constructor
              · rw [Chain.stack_pop hstack houter, hnames, hbelow]
                rfl
              · rw [Chain.frames_pop hframes htables, hvalues, hbelow]
                rfl

theorem apply (h : Shows c s) (op : Operation α) :
    (c.apply op).1 = (s.apply op).1 ∧ Shows (c.apply op).2 (s.apply op).2 := by
  cases op with
  | push name => exact ⟨rfl, h.push name⟩
  | pop => exact ⟨rfl, h.pop⟩
  | define name value => exact ⟨congrArg Answer.value (h.here?_eq name), h.define name value⟩
  | lookup name => exact ⟨congrArg Answer.value (h.lookup_eq name), h⟩
  | isDefinedHere name =>
      refine ⟨?_, h⟩
      show Answer.flag (c.here? name).isSome = Answer.flag (s.top.value name).isSome
      rw [h.here?_eq]

theorem run (h : Shows c s) (ops : List (Operation α)) : c.run ops = s.run ops := by
  induction ops generalizing c s with
  | nil => rfl
  | cons op ops ih =>
      have hop := h.apply op
      simp only [Chain.run, Layers.run]
      rw [hop.1, hop.2.depth_eq, hop.2.path_eq, ih hop.2]

end Shows

/-! ## Places -/

namespace Arena

structure Indexed (a : Arena α) : Prop where
  ne_nil : a.slots ≠ []
  bottom : a.slots.getLast? = some 0
  /-- From the outermost scope to the innermost one. -/
  grows : a.slots.reverse.Pairwise (· < ·)
  inside : ∀ slot ∈ a.slots, slot < a.tables.size

theorem Valid.indexed {a : Arena α} (h : a.Valid) : a.Indexed where
  ne_nil := by
    intro hnil
    have hbottom := h.bottom
    rw [hnil] at hbottom
    cases hbottom
  bottom := h.bottom
  grows := List.pairwise_reverse.2 h.grows
  inside := h.inside

/-- The innermost scope, nothing if no scope is open or if its place is outside the
arena. -/
def current? (a : Arena α) : Option (Table α) := a.slots.head?.bind fun slot => a.tables[slot]?

/-- The value of a name in the first of the scopes that binds it, nothing if it comes to
a place outside the arena. -/
def search? (a : Arena α) (name : String) : List Nat → Option (Option α)
  | [] => some none
  | slot :: outer =>
      match a.tables[slot]? with
      | none => none
      | some table =>
          match table.bindings.lookup name with
          | some value => some (some value)
          | none => search? a name outer

def depth? (a : Arena α) : Option Nat :=
  if 1 ≤ a.slots.length then some (a.slots.length - 1) else none

def path? (a : Arena α) : Option String :=
  (a.slots.reverse.mapM fun slot => a.tables[slot]?.map Table.name).map ".".intercalate

def step? (a : Arena α) : Operation α → Option (Answer α × Arena α)
  | .push name => some (.done, a.push name)
  | .pop => some (.done, a.pop)
  | .define name value =>
      a.current?.map fun table => (.value (table.bindings.lookup name), a.define name value)
  | .lookup name => (a.search? name a.slots).map fun value => (.value value, a)
  | .isDefinedHere name =>
      a.current?.map fun table => (.flag (table.bindings.lookup name).isSome, a)

/-- The steps of a sequence of operations with each place checked, and the arena behind
them. -/
def run? (a : Arena α) : List (Operation α) → Option (List (Step α) × Arena α)
  | [] => some ([], a)
  | op :: ops => do
      let (answer, a) ← a.step? op
      let depth ← a.depth?
      let path ← a.path?
      let (steps, last) ← run? a ops
      return (⟨answer, depth, path⟩ :: steps, last)

theorem table_of_inside {a : Arena α} {slot : Nat} (h : slot < a.tables.size) :
    a.tables[slot]? = some (a.table slot) := by
  simp [table, h]

theorem search?_eq {a : Arena α} (name : String) {slots : List Nat}
    (h : ∀ slot ∈ slots, slot < a.tables.size) :
    a.search? name slots =
      some (slots.findSome? fun slot => (a.table slot).bindings.lookup name) := by
  induction slots with
  | nil => rfl
  | cons slot outer ih =>
      obtain ⟨hslot, houter⟩ := List.forall_mem_cons.1 h
      rw [search?, table_of_inside hslot, List.findSome?_cons]
      dsimp only
      cases (a.table slot).bindings.lookup name with
      | none => exact ih houter
      | some value => rfl

theorem names?_eq {a : Arena α} {slots : List Nat} (h : ∀ slot ∈ slots, slot < a.tables.size) :
    (slots.mapM fun slot => a.tables[slot]?.map Table.name) =
      some (slots.map fun slot => (a.table slot).name) := by
  induction slots with
  | nil => rfl
  | cons slot slots ih =>
      obtain ⟨hslot, hslots⟩ := List.forall_mem_cons.1 h
      rw [List.mapM_cons, table_of_inside hslot, ih hslots]
      rfl

end Arena

namespace Chain

theorem current?_eq (c : Chain α) :
    ∃ table, c.arena.current? = some table ∧ ∀ name, table.bindings.lookup name = c.here? name := by
  have hinside := c.valid.inside
  cases hslots : c.arena.slots with
  | nil => exact absurd hslots c.valid.indexed.ne_nil
  | cons top outer =>
      rw [hslots] at hinside
      refine ⟨c.arena.table top, ?_, ?_⟩
      · rw [Arena.current?, hslots]
        exact Arena.table_of_inside (hinside top List.mem_cons_self)
      · intro name
        simp [here?, Arena.here?, hslots]

theorem step?_eq (c : Chain α) (op : Operation α) :
    c.arena.step? op = some ((c.apply op).1, (c.apply op).2.arena) := by
  obtain ⟨table, hcurrent, htable⟩ := c.current?_eq
  cases op with
  | push name => rfl
  | pop => rfl
  | define name value =>
      rw [Arena.step?, hcurrent, Option.map_some, htable]
      rfl
  | lookup name =>
      rw [Arena.step?, Arena.search?_eq name c.valid.inside]
      rfl
  | isDefinedHere name =>
      rw [Arena.step?, hcurrent, Option.map_some, htable]
      rfl

theorem depth?_eq (c : Chain α) : c.arena.depth? = some c.depth := by
  have hpos : 1 ≤ c.arena.slots.length := List.length_pos_iff.2 c.valid.indexed.ne_nil
  rw [Arena.depth?, if_pos hpos]
  rfl

theorem path?_eq (c : Chain α) : c.arena.path? = some c.path := by
  have hinside : ∀ slot ∈ c.arena.slots.reverse, slot < c.arena.tables.size :=
    fun slot hslot => c.valid.inside slot (List.mem_reverse.1 hslot)
  rw [Arena.path?, Arena.names?_eq hinside, Option.map_some]
  simp [path, Arena.path, pathOf, Arena.stack, Function.comp_def]

/-- With each place checked, a run goes through, and leaves the places in order. -/
theorem exists_run? (c : Chain α) (ops : List (Operation α)) :
    ∃ last, c.arena.run? ops = some (c.run ops, last) ∧ last.Indexed := by
  induction ops generalizing c with
  | nil => exact ⟨c.arena, rfl, c.valid.indexed⟩
  | cons op ops ih =>
      obtain ⟨last, hrun, hindexed⟩ := ih (c.apply op).2
      refine ⟨last, ?_, hindexed⟩
      simp only [Arena.run?, c.step?_eq op, depth?_eq, path?_eq, hrun, Option.bind_eq_bind,
        Option.bind_some]
      rfl

end Chain

/-- Whatever operations are carried out on a new chain, one after the other, each of them
answers what it answers on layers, and so do the depth and the path behind it. No place
outside the arena is used, and no scope is missing; behind the operations, which may be
any part of a longer sequence, the places of the open scopes start at 0, grow, and lie in
the arena. -/
theorem run_as_layers (ops : List (Operation α)) :
    (Chain.new : Chain α).run ops = (Layers.new : Layers α).run ops ∧
    ∃ last, (Arena.new : Arena α).run? ops = some ((Layers.new : Layers α).run ops, last) ∧
      last.Indexed := by
  have hrun := (Shows.new : Shows (Chain.new : Chain α) _).run ops
  obtain ⟨last, hchecked, hindexed⟩ := (Chain.new : Chain α).exists_run? ops
  rw [hrun] at hchecked
  exact ⟨hrun, last, hchecked, hindexed⟩

end Lila.Scope
