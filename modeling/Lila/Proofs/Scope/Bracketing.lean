import Lila.Proofs.Scope.Frames
import Lila.Scope.Event

/-! # The log of scopes

Entering a scope is logged and so is leaving it, each with the path of the scope. The log
is bracketed if every scope is left that is entered, with the path it was entered with,
and if that path goes on from the path of the scope around it. `Bracketed` says this, and
which scopes are entered in which order.
-/

namespace Lila.Scope

/-- A scope that a program opens: a block, by the number of blocks opened before it, or the
inside of a definition. -/
inductive Entry where
  | block (index : Nat)
  | definition (name : String)
deriving DecidableEq

namespace Entry

def name : Entry → String
  | .block index => "anon" ++ toString index
  | .definition name => name

def index? : Entry → Option Nat
  | .block index => some index
  | .definition _ => none

def isDefinition : Entry → Bool
  | .block _ => false
  | .definition _ => true

end Entry

inductive Line where
  | enter (path : String)
  | leave (path : String)
deriving DecidableEq

def Event.line? : Event → Option Line
  | .entered stack => some (.enter (pathOf stack))
  | .left stack => some (.leave (pathOf stack))
  | .bound .. => none

/-! ## Brackets -/

/-- In the scope with the given path, the entries are entered in this order, and each is
left again before the log ends. -/
inductive Bracketed : String → List Entry → List Line → Prop
  | nil (path : String) : Bracketed path [] []
  | scope {path : String} (entry : Entry) {inner outer : List Entry} {inside after : List Line}
      (hinside : Bracketed (path ++ "." ++ entry.name) inner inside)
      (hafter : Bracketed path outer after) :
      Bracketed path (entry :: inner ++ outer)
        (.enter (path ++ "." ++ entry.name) :: inside ++
          .leave (path ++ "." ++ entry.name) :: after)

theorem Bracketed.append {path : String} {entries more : List Entry} {lines later : List Line}
    (h : Bracketed path entries lines) (h' : Bracketed path more later) :
    Bracketed path (entries ++ more) (lines ++ later) := by
  induction h with
  | nil path => exact h'
  | scope entry hinside hafter _ ih =>
      have hscope := Bracketed.scope entry hinside (ih h')
      simp only [List.cons_append, List.append_assoc] at hscope ⊢
      exact hscope

theorem Bracketed.single {path : String} {entry : Entry} {entries : List Entry}
    {lines : List Line} (h : Bracketed (path ++ "." ++ entry.name) entries lines) :
    Bracketed path (entry :: entries)
      (.enter (path ++ "." ++ entry.name) :: lines ++ [.leave (path ++ "." ++ entry.name)]) := by
  have hscope := Bracketed.scope entry h (.nil path)
  rw [List.append_nil] at hscope
  exact hscope

/-- The paths of the scopes that are open behind the lines, innermost first, if the given
ones are open in front of them. -/
def openAfter : List String → List Line → List String
  | paths, [] => paths
  | paths, .enter path :: lines => openAfter (path :: paths) lines
  | paths, .leave _ :: lines => openAfter paths.tail lines

theorem openAfter_append (paths : List String) (lines later : List Line) :
    openAfter paths (lines ++ later) = openAfter (openAfter paths lines) later := by
  induction lines generalizing paths with
  | nil => rfl
  | cons line lines ih =>
      cases line with
      | enter path => exact ih (path :: paths)
      | leave path => exact ih paths.tail

theorem Bracketed.openAfter_eq {path : String} {entries : List Entry} {lines : List Line}
    (h : Bracketed path entries lines) (paths : List String) : openAfter paths lines = paths := by
  induction h generalizing paths with
  | nil path => rfl
  | @scope path entry _ _ inside after _ _ ih ih' =>
      rw [openAfter_append]
      show openAfter (openAfter ((path ++ "." ++ entry.name) :: paths) inside).tail after = paths
      rw [ih, List.tail_cons, ih']

/-! ## Paths -/

def pathIn (path : String) : List Entry → String
  | [] => path
  | entry :: outer => pathIn path outer ++ "." ++ entry.name

def pathsIn (path : String) : List Entry → List String
  | [] => []
  | entry :: outer => pathIn path (entry :: outer) :: pathsIn path outer

theorem pathIn_concat (path : String) (inner : List Entry) (entry : Entry) :
    pathIn path (inner ++ [entry]) = pathIn (path ++ "." ++ entry.name) inner := by
  induction inner with
  | nil => rfl
  | cons first inner ih => rw [List.cons_append, pathIn, ih, pathIn]

theorem pathsIn_concat (path : String) (inner : List Entry) (entry : Entry) :
    pathsIn path (inner ++ [entry]) =
      pathsIn (path ++ "." ++ entry.name) inner ++ [path ++ "." ++ entry.name] := by
  induction inner with
  | nil => rfl
  | cons first inner ih =>
      rw [List.cons_append, pathsIn, ← List.cons_append, pathIn_concat, ih]
      rfl

theorem headD_pathsIn (path : String) (entries : List Entry) :
    (pathsIn path entries).headD path = pathIn path entries := by
  cases entries with
  | nil => rfl
  | cons entry outer => rfl

theorem intercalate_concat (separator : String) {names : List String} (hne : names ≠ [])
    (name : String) :
    separator.intercalate (names ++ [name]) = separator.intercalate names ++ separator ++ name := by
  induction names with
  | nil => exact (hne rfl).elim
  | cons first names ih =>
      cases names with
      | nil => rw [List.singleton_append, String.intercalate_cons_cons,
          String.intercalate_singleton, String.intercalate_singleton]
      | cons second names =>
          have hrest := ih (List.cons_ne_nil second names)
          rw [List.cons_append, List.cons_append, String.intercalate_cons_cons, ← List.cons_append,
            hrest, String.intercalate_cons_cons]
          simp only [String.append_assoc]

theorem pathOf_cons {scope : Open} {stack : List Open} (hne : stack ≠ []) :
    pathOf (scope :: stack) = pathOf stack ++ "." ++ scope.name := by
  unfold pathOf
  rw [List.reverse_cons, List.map_append]
  exact intercalate_concat "." (by simpa using hne) scope.name

end Lila.Scope
