import Lila.Scope.Chain

/-! # The frames of a chain

The bindings of the open scopes, innermost first, are all that a lookup can see of
an arena. Each operation is an operation on this list: `push` puts an empty frame in
front, `pop` takes the front one off, and `define` adds to it. That `define` leaves
the other frames alone rests on the places of the open scopes being pairwise
different.
-/

namespace Lila.Scope

variable {α : Type}

def bindFront (name : String) (value : α) : List (Bindings α) → List (Bindings α)
  | [] => []
  | table :: outer => ((name, value) :: table) :: outer

@[simp] theorem tail_bindFront (name : String) (value : α) (frames : List (Bindings α)) :
    (bindFront name value frames).tail = frames.tail := by
  cases frames <;> rfl

namespace Arena

/-- The bindings of the open scopes, innermost first. -/
def frames (a : Arena α) : List (Bindings α) := a.slots.map fun slot => (a.table slot).bindings

theorem lookup_eq_frames (a : Arena α) (name : String) :
    a.lookup name = a.frames.findSome? (List.lookup name) := by
  simp [lookup, frames, List.findSome?_map, Function.comp_def]

theorem here?_eq_frames (a : Arena α) (name : String) :
    a.here? name = a.frames.head?.bind (List.lookup name) := by
  cases hs : a.slots <;> simp [here?, frames, hs]

theorem Valid.frames_ne_nil {a : Arena α} (h : a.Valid) : a.frames ≠ [] := by
  have hb := h.bottom
  intro hn
  rw [frames, List.map_eq_nil_iff] at hn
  simp [hn] at hb

theorem Valid.frames_push {a : Arena α} (h : a.Valid) (name : String) :
    (a.push name).frames = [] :: a.frames :=
  h.map_push name fun _ table => table.bindings

theorem frames_pop {a : Arena α} {table outer : Bindings α} {more : List (Bindings α)}
    (h : a.frames = table :: outer :: more) : a.pop.frames = outer :: more := by
  unfold frames at h
  cases hs : a.slots with
  | nil => simp [hs] at h
  | cons top rest =>
      cases rest with
      | nil => simp [hs] at h
      | cons next rest =>
          rw [hs, List.map_cons, List.map_cons] at h
          simp only [frames, pop, hs]
          exact (List.cons.inj h).2

theorem bindings_define {a : Arena α} {top : Nat} {rest : List Nat} (h : a.slots = top :: rest)
    (name : String) (value : α) {slot : Nat} (hslot : slot < a.tables.size) :
    ((a.define name value).table slot).bindings =
      if top = slot then (name, value) :: (a.table slot).bindings
      else (a.table slot).bindings := by
  simp only [define, h, table, Array.getElem?_modify]
  split <;> simp [Array.getElem?_eq_getElem hslot]

/-- Only the innermost scope grows: the places of the scopes around it are smaller. -/
theorem Valid.frames_define {a : Arena α} (h : a.Valid) (name : String) (value : α) :
    (a.define name value).frames = bindFront name value a.frames := by
  cases hs : a.slots with
  | nil => simp [frames, Arena.define, hs, bindFront]
  | cons top rest =>
      have hslots : (a.define name value).slots = top :: rest := by simp [Arena.define, hs]
      have hin := h.inside
      have hgrows := h.grows
      rw [hs] at hin hgrows
      have htop := bindings_define hs name value (hin top List.mem_cons_self)
      have hrest : rest.map (fun slot => ((a.define name value).table slot).bindings) =
          rest.map fun slot => (a.table slot).bindings := by
        apply List.map_congr_left
        intro slot hslot
        have hlt := (List.pairwise_cons.1 hgrows).1 slot hslot
        rw [bindings_define hs name value (hin slot (List.mem_cons_of_mem _ hslot)),
          if_neg (by omega)]
      simp only [frames, hslots, hs, List.map_cons, hrest, htop, if_true, bindFront]

end Arena

namespace Chain

def frames (c : Chain α) : List (Bindings α) := c.arena.frames

theorem frames_ne_nil (c : Chain α) : c.frames ≠ [] := c.valid.frames_ne_nil

@[simp] theorem frames_new : (new : Chain α).frames = [[]] := rfl

@[simp] theorem frames_push (c : Chain α) (name : String) :
    (c.push name).frames = [] :: c.frames := c.valid.frames_push name

@[simp] theorem stack_push (c : Chain α) (name : String) :
    (c.push name).stack = ⟨name, c.arena.tables.size⟩ :: c.stack := rfl

@[simp] theorem frames_define (c : Chain α) (name : String) (value : α) :
    (c.define name value).frames = bindFront name value c.frames :=
  c.valid.frames_define name value

@[simp] theorem stack_define (c : Chain α) (name : String) (value : α) :
    (c.define name value).stack = c.stack := rfl

/-- Closing a scope that was opened inside others brings back their frames. -/
theorem frames_pop {c : Chain α} {table : Bindings α} {outer : List (Bindings α)}
    (h : c.frames = table :: outer) (houter : outer ≠ []) : c.pop.frames = outer := by
  obtain ⟨next, more, rfl⟩ := List.exists_cons_of_ne_nil houter
  exact Arena.frames_pop h

theorem stack_pop {c : Chain α} {top : Open} {outer : List Open}
    (h : c.stack = top :: outer) (houter : outer ≠ []) : c.pop.stack = outer := by
  obtain ⟨next, more, rfl⟩ := List.exists_cons_of_ne_nil houter
  exact congrArg outside h

theorem stack_ne_nil (c : Chain α) : c.stack ≠ [] := by
  have hframes := c.frames_ne_nil
  rw [frames, Arena.frames, ne_eq, List.map_eq_nil_iff] at hframes
  rw [c.stack_eq, Arena.stack, ne_eq, List.map_eq_nil_iff]
  exact hframes

theorem depth_eq (c : Chain α) : c.depth = c.stack.length - 1 := by
  rw [c.stack_eq, Arena.stack, List.length_map]
  rfl

theorem path_eq (c : Chain α) : c.path = pathOf c.stack := by
  rw [c.stack_eq]
  rfl

theorem lookup_eq_frames (c : Chain α) (name : String) :
    c.lookup name = c.frames.findSome? (List.lookup name) := c.arena.lookup_eq_frames name

theorem here?_eq_frames (c : Chain α) (name : String) :
    c.here? name = c.frames.head?.bind (List.lookup name) := c.arena.here?_eq_frames name

end Chain

end Lila.Scope
