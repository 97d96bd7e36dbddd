import Lila.Proofs.Parser.Places

/-! # Blank lines

A line break behind another one changes nothing, wherever the two stand and whether the
input is accepted or not. Either the parser fails at the first one or in front of it, and
then it never comes to the second, or it goes past the first one. Only the loop over
statements does that, and it goes past all line breaks that follow.
-/

namespace Lila.Parser

theorem skipLines_append (xs ys : List Lexeme) :
    skipLines (xs ++ ys) = if skipLines xs = [] then skipLines ys else skipLines xs ++ ys := by
  unfold skipLines
  simp only [List.dropWhile_append, List.isEmpty_iff]

/-- Of line breaks that follow each other, the first one is enough. -/
theorem skipLines_drop_second {x y : Lexeme} (hx : x.token = .newline) (hy : y.token = .newline)
    (back : List Lexeme) : skipLines (x :: y :: back) = skipLines (x :: back) := by
  rw [skipLines_cons hx, skipLines_cons hy, skipLines_cons hx]

namespace Pairing

/-- Inputs that have the line breaks `x` and `y` in front of `back`, with the ones that
have `x` alone there. Behind the line breaks, an input is paired with itself. -/
def blankLine {x y : Lexeme} (hx : x.token = .newline) (hy : y.token = .newline)
    (back : List Lexeme) : Pairing where
  rel us vs := us = vs ∨ ∃ front, us = front ++ x :: y :: back ∧ vs = front ++ x :: back
  place := Eq
  cut := False
  cons := by
    intro z us vs h
    rcases h with rfl | ⟨front, hus, rfl⟩
    · exact ⟨z, us, rfl, rfl, rfl, fun _ => .inl rfl⟩
    · cases front with
      | nil =>
          -- Behind `x` alone the inputs are not paired: a line break is passed with all others.
          cases hus
          exact ⟨x, back, rfl, rfl, rfl, fun hne => (hne hx).elim⟩
      | cons first front =>
          cases hus
          exact ⟨z, front ++ x :: back, rfl, rfl, rfl, fun _ => .inr ⟨front, rfl, rfl⟩⟩
  nil := by
    intro vs h
    rcases h with rfl | ⟨front, hus, -⟩
    · exact .inl rfl
    · simp at hus
  lines := by
    intro z us vs h hz
    left
    rw [← skipLines_cons hz us]
    rcases h with rfl | ⟨front, hus, rfl⟩
    · exact .inl rfl
    · rw [hus, skipLines_append, skipLines_append, skipLines_drop_second hx hy]
      by_cases hfront : skipLines front = []
      · rw [if_pos hfront, if_pos hfront]
        exact .inl rfl
      · rw [if_neg hfront, if_neg hfront]
        exact .inr ⟨skipLines front, rfl, rfl⟩

/-- Inputs that are paired to their ends, with the same places, give the same result. -/
theorem parse_eq {M : Pairing} {xs ys : List Lexeme} (h : M.rel xs ys)
    (hplace : ∀ {span span'}, M.place span span' → span = span') (hcut : ¬ M.cut) :
    parse xs = parse ys := by
  have hagree := M.agree_parseRun h
  unfold parse
  generalize parseRun xs = r at hagree
  generalize parseRun ys = r' at hagree
  cases hagree with
  | ok tree => rfl
  | error cause hspan => rw [hplace hspan]
  | errorAtEnd cause => rfl
  | okCut tree h => exact (hcut h).elim
  | errorCut cause h => exact (hcut h).elim

end Pairing

/-- A second line break behind a first one has no part in the result, be it a tree or an
error with its message and its place. -/
theorem parse_blank_line (front back : List Lexeme) (first second : Span) :
    parse (front ++ [⟨first, .newline⟩, ⟨second, .newline⟩] ++ back) =
      parse (front ++ [⟨first, .newline⟩] ++ back) := by
  let M : Pairing := .blankLine (x := ⟨first, .newline⟩) (y := ⟨second, .newline⟩) rfl rfl back
  have hrel : M.rel (front ++ [⟨first, .newline⟩, ⟨second, .newline⟩] ++ back)
      (front ++ [⟨first, .newline⟩] ++ back) :=
    .inr ⟨front, by simp, by simp⟩
  exact Pairing.parse_eq hrel (fun hspan => hspan) (fun hcut => hcut)

end Lila.Parser
