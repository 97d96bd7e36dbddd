/-!
# Similar words

The Jaro similarity of two words, from 0 to 1: characters match that are equal
and stand at nearly the same place, and matches out of order count half.
-/

namespace Lila.Shell.Similarity

/-- Marks the first unmarked `c` at a place from `lo` to `hi`, `place` being
that of the first character. -/
def mark? (c : Char) (lo hi : Nat) : Nat → List (Char × Bool) → Option (List (Char × Bool))
  | _, [] => none
  | place, (d, marked) :: rest =>
      if lo ≤ place && place ≤ hi && c == d && !marked then some ((d, true) :: rest)
      else (mark? c lo hi (place + 1) rest).map ((d, marked) :: ·)

/-- The characters of a word that find a match in another one at most `reach`
places away, and the other word with the matches marked. -/
def matchFrom (reach : Nat) : Nat → List Char → List (Char × Bool) → List Char × List (Char × Bool)
  | _, [], other => ([], other)
  | place, c :: word, other =>
      match mark? c (place - reach) (place + reach) 0 other with
      | some other =>
          let (found, other) := matchFrom reach (place + 1) word other
          (c :: found, other)
      | none => matchFrom reach (place + 1) word other

def jaro (a b : List Char) : Float :=
  let reach := max a.length b.length / 2 - 1
  let (inA, marked) := matchFrom reach 0 a (b.map (·, false))
  let inB := (marked.filter (·.2)).map (·.1)
  let common := inA.length
  if common = 0 then 0
  else
    let swapped := ((inA.zip inB).countP fun (x, y) => x != y) / 2
    (common.toFloat / a.length.toFloat + common.toFloat / b.length.toFloat +
      (common - swapped).toFloat / common.toFloat) / 3

/-- The word most similar to a given one, of those above 0.7; of equally similar
ones the last. -/
def best? (word : String) (candidates : List String) : Option String :=
  let better (best : Option (String × Float)) (candidate : String) :=
    let similarity := jaro word.toList candidate.toList
    match best with
    | none => if 0.7 < similarity then some (candidate, similarity) else none
    | some (_, top) => if top ≤ similarity then some (candidate, similarity) else best
  (candidates.foldl better none).map (·.1)

end Lila.Shell.Similarity
