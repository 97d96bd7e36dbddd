/-!
# The scope arena

Every scope that was ever opened has its name and its bindings in the arena, and
the open scopes are a stack of places in it. Closing a scope drops its place from
the stack and leaves it where it is, out of reach. `Valid` is what every operation
keeps: the stack is never empty, its bottom is the first place, and its places lie
in the arena and grow from the bottom to the top.
-/

namespace Lila.Scope

/-- The names bound in one scope, the newest binding first. -/
abbrev Bindings (α : Type) := List (String × α)

structure Table (α : Type) where
  name : String
  bindings : Bindings α := []

structure Open where
  name : String
  slot : Nat
deriving DecidableEq

/-- The names of the open scopes from the outermost to the innermost, given
with the innermost first. -/
def pathOf (stack : List Open) : String :=
  ".".intercalate (stack.reverse.map Open.name)

/-- What is left of a stack when its top is taken off. The last element stays. -/
def outside {β : Type} : List β → List β
  | _ :: outer :: more => outer :: more
  | stack => stack

structure Arena (α : Type) where
  tables : Array (Table α)
  /-- Innermost first. -/
  slots : List Nat

namespace Arena

variable {α : Type}

def new : Arena α := ⟨#[{ name := "global" }], [0]⟩

def push (a : Arena α) (name : String) : Arena α :=
  ⟨a.tables.push { name := name }, a.tables.size :: a.slots⟩

/-- Closes the innermost scope. The outermost one stays. -/
def pop (a : Arena α) : Arena α := { a with slots := outside a.slots }

def depth (a : Arena α) : Nat := a.slots.length - 1

def table (a : Arena α) (slot : Nat) : Table α := a.tables[slot]?.getD { name := "" }

/-- The open scopes, innermost first. -/
def stack (a : Arena α) : List Open := a.slots.map fun slot => ⟨(a.table slot).name, slot⟩

def path (a : Arena α) : String := pathOf a.stack

def here? (a : Arena α) (name : String) : Option α :=
  a.slots.head?.bind fun slot => (a.table slot).bindings.lookup name

def isDefinedHere (a : Arena α) (name : String) : Bool := (a.here? name).isSome

/-- Binds a name in the innermost scope, in place of what it was bound to there. -/
def define (a : Arena α) (name : String) (value : α) : Arena α :=
  match a.slots with
  | [] => a
  | slot :: _ =>
      { a with
        tables := a.tables.modify slot fun table =>
          { table with bindings := (name, value) :: table.bindings } }

def lookup (a : Arena α) (name : String) : Option α :=
  a.slots.findSome? fun slot => (a.table slot).bindings.lookup name

/-! ## The invariant -/

structure Valid (a : Arena α) : Prop where
  bottom : a.slots.getLast? = some 0
  inside : ∀ slot ∈ a.slots, slot < a.tables.size
  grows : a.slots.Pairwise fun inner outer => outer < inner

theorem valid_new : (new : Arena α).Valid where
  bottom := rfl
  inside := by simp [new]
  grows := by simp [new]

theorem Valid.push {a : Arena α} (h : a.Valid) (name : String) : (a.push name).Valid where
  bottom := by
    have hb := h.bottom
    simp only [Arena.push]
    cases hs : a.slots with
    | nil => simp [hs] at hb
    | cons slot more => simpa [hs, List.getLast?_cons_cons] using hb
  inside := by
    intro slot hslot
    simp only [Arena.push, List.mem_cons, Array.size_push] at hslot ⊢
    rcases hslot with rfl | hslot
    · exact Nat.lt_succ_self _
    · exact Nat.lt_succ_of_lt (h.inside slot hslot)
  grows := List.pairwise_cons.2 ⟨h.inside, h.grows⟩

theorem Valid.pop {a : Arena α} (h : a.Valid) : a.pop.Valid := by
  obtain ⟨tables, slots⟩ := a
  rcases slots with _ | ⟨top, _ | ⟨outer, more⟩⟩
  · exact h
  · exact h
  · obtain ⟨hbottom, hinside, hgrows⟩ := h
    exact ⟨hbottom, (List.forall_mem_cons.1 hinside).2, (List.pairwise_cons.1 hgrows).2⟩

theorem Valid.define {a : Arena α} (h : a.Valid) (name : String) (value : α) :
    (a.define name value).Valid := by
  unfold Arena.define
  split
  · exact h
  · exact ⟨h.bottom, by simpa using h.inside, h.grows⟩

/-! ## The open scopes -/

theorem table_push {a : Arena α} {slot : Nat} (h : slot < a.tables.size) (name : String) :
    (a.push name).table slot = a.table slot := by
  simp [table, push, Array.getElem?_push_lt h, Array.getElem?_eq_getElem h]

/-- A new scope comes in front of the others, which are as before. -/
theorem Valid.map_push {β : Type} {a : Arena α} (h : a.Valid) (name : String)
    (f : Nat → Table α → β) :
    ((a.push name).slots.map fun slot => f slot ((a.push name).table slot)) =
      f a.tables.size { name := name } :: a.slots.map fun slot => f slot (a.table slot) := by
  have hnew : (a.push name).table a.tables.size = { name := name } := by simp [table, Arena.push]
  have hrest : (a.slots.map fun slot => f slot ((a.push name).table slot)) =
      a.slots.map fun slot => f slot (a.table slot) := by
    apply List.map_congr_left
    intro slot hslot
    rw [table_push (h.inside slot hslot)]
  calc ((a.push name).slots.map fun slot => f slot ((a.push name).table slot))
      = f a.tables.size ((a.push name).table a.tables.size) ::
          a.slots.map fun slot => f slot ((a.push name).table slot) := rfl
    _ = f a.tables.size { name := name } :: a.slots.map fun slot => f slot (a.table slot) := by
      rw [hnew, hrest]

theorem Valid.stack_push {a : Arena α} (h : a.Valid) (name : String) :
    (a.push name).stack = ⟨name, a.tables.size⟩ :: a.stack :=
  h.map_push name fun slot table => Open.mk table.name slot

theorem stack_pop (a : Arena α) : a.pop.stack = outside a.stack := by
  obtain ⟨tables, slots⟩ := a
  rcases slots with _ | ⟨top, _ | ⟨outer, more⟩⟩ <;> rfl

theorem name_define (a : Arena α) (name : String) (value : α) (slot : Nat) :
    ((a.define name value).table slot).name = (a.table slot).name := by
  unfold define
  split
  · rfl
  · simp only [table, Array.getElem?_modify]
    split <;> cases a.tables[slot]? <;> rfl

theorem stack_define (a : Arena α) (name : String) (value : α) :
    (a.define name value).stack = a.stack := by
  have hslots : (a.define name value).slots = a.slots := by
    unfold define
    split <;> rfl
  simp only [stack, hslots, name_define]

end Arena

end Lila.Scope
