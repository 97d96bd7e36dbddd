import Lila.Proofs.Grammar.Completeness
import Lila.Proofs.Parser.Places

/-! # Errors at the end of the input

An error has no place if it was found at the end of the input, and that means that
the input is the beginning of a program. An error with a place stands, whatever
follows: an input and the same input with more tokens behind it are read alike up
to the end of the first one.
-/

namespace Lila.Parser

open Grammar

namespace Pairing

def continuation (us : List Lexeme) : Pairing where
  rel xs ys := ys = xs ++ us
  place := Eq
  cut := True
  cons := by
    rintro x xs ys rfl
    exact ⟨x, xs ++ us, rfl, rfl, rfl, fun _ => rfl⟩
  nil := fun _ => .inr trivial
  lines := by
    rintro x xs ys rfl hx
    by_cases hnil : skipLines xs = []
    · exact .inr ⟨trivial, hnil⟩
    · refine .inl ?_
      rw [List.cons_append, skipLines_cons hx]
      rw [skipLines, List.dropWhile_append, if_neg]
      · rfl
      · rwa [List.isEmpty_iff]

end Pairing

theorem parse_error_append {lexemes : List Lexeme} {e : ParseError}
    (h : parse lexemes = .error e) (hspan : e.span ≠ none) (us : List Lexeme) :
    parse (lexemes ++ us) = .error e := by
  have hagree : (Pairing.continuation us).Agree (parseRun lexemes) (parseRun (lexemes ++ us)) :=
    Pairing.agree_parseRun _ rfl
  rw [parse] at h ⊢
  generalize parseRun lexemes = r at h hagree
  generalize parseRun (lexemes ++ us) = r' at hagree
  cases hagree with
  | ok tree => cases h
  | error cause hplace =>
      cases h
      rw [show _ = _ from hplace]
  | errorAtEnd cause =>
      cases h
      exact (hspan rfl).elim
  | okCut tree => cases h
  | errorCut cause =>
      cases h
      exact (hspan rfl).elim

theorem exists_continuation {lexemes : List Lexeme} {e : ParseError}
    (h : parse lexemes = .error e) (hspan : e.span = none) :
    ∃ us tree, parse (lexemes ++ us) = .ok tree := by
  obtain ⟨us, tree, hprogram⟩ := exists_program_of_parse h hspan
  refine ⟨us.map fun token => ⟨⟨0, 0, 0⟩, token⟩, tree, parse_of_program ?_⟩
  rw [List.map_append, List.map_map]
  rwa [show Lexeme.token ∘ (fun token => (⟨⟨0, 0, 0⟩, token⟩ : Lexeme)) = id from rfl, List.map_id]

/-- A parse fails without a place exactly if its input can be continued to a
program. With a place, every continuation fails in the same way. -/
theorem parse_error_span_none_iff {lexemes : List Lexeme} {e : ParseError}
    (h : parse lexemes = .error e) :
    (e.span ≠ none → ∀ us, parse (lexemes ++ us) = .error e) ∧
      (e.span = none → ∃ us tree, parse (lexemes ++ us) = .ok tree) ∧
      (e.span = none ↔ ∃ us tree, parse (lexemes ++ us) = .ok tree) := by
  refine ⟨parse_error_append h, exists_continuation h, exists_continuation h, ?_⟩
  rintro ⟨us, tree, htree⟩
  refine Decidable.byContradiction fun hspan => ?_
  rw [parse_error_append h hspan us] at htree
  cases htree

/-- An open brace around an open parenthesis can still be closed, but nothing mends a
definition whose name is in use. -/
theorem unfinished_block_and_second_binding :
    (∃ us tree, parse ([⟨⟨0, 1, 1⟩, .blockOpen⟩, ⟨⟨2, 5, 1⟩, .kwVal⟩, ⟨⟨6, 7, 1⟩, .ident "x"⟩,
      ⟨⟨8, 9, 1⟩, .assign⟩, ⟨⟨10, 11, 1⟩, .parenOpen⟩, ⟨⟨11, 12, 1⟩, .number (.ofBits 0)⟩,
      ⟨⟨13, 14, 1⟩, .binop "+"⟩] ++ us) = .ok tree) ∧
    ∀ us, parse ([⟨⟨0, 3, 1⟩, .kwVal⟩, ⟨⟨4, 5, 1⟩, .ident "x"⟩, ⟨⟨6, 7, 1⟩, .assign⟩,
      ⟨⟨8, 9, 1⟩, .number (.ofBits 0)⟩, ⟨⟨9, 10, 1⟩, .newline⟩, ⟨⟨10, 13, 2⟩, .kwDef⟩,
      ⟨⟨14, 15, 2⟩, .ident "x"⟩] ++ us) = .error ⟨.alreadyDefined "x", some ⟨14, 15, 2⟩⟩ :=
  ⟨(parse_error_span_none_iff rfl).2.1 rfl, (parse_error_span_none_iff rfl).1 (by decide)⟩

end Lila.Parser
