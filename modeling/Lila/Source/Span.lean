/-!
# Places in a source text
-/

namespace Lila

/-- A stretch of a source text: the byte offsets of its start and of its end,
and the number of its line, counted from 1. -/
structure Span where
  lo : Nat
  hi : Nat
  line : Nat
deriving DecidableEq

def Span.display (s : Span) : String := s!"{s.line}:{s.lo}..{s.hi}"

def byteLength : List Char → Nat
  | [] => 0
  | c :: text => c.utf8Size + byteLength text

theorem byteLength_append (a b : List Char) :
    byteLength (a ++ b) = byteLength a + byteLength b := by
  induction a with
  | nil => simp [byteLength]
  | cons c a ih => simp [byteLength, ih, Nat.add_assoc]

end Lila
