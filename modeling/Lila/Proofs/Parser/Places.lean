import Lila.Proofs.Grammar.Soundness
import Lila.Proofs.Parser.Agreement

/-! # Places of tokens

The parser carries the places of tokens along and decides nothing by them. Two
inputs with the same tokens are read in step, so that what is kept of a token until
an error is found, be it a name or an opening brace, comes from the same position of
both inputs.
-/

namespace Lila.Parser

namespace Pairing

/-- Whole parses of paired inputs agree. -/
theorem agree_parseRun (M : Pairing) {xs ys : List Lexeme} (h : M.rel xs ys) :
    M.Agree (parseRun xs) (parseRun ys) := by
  have hstart : M.Paired { rest := xs } { rest := ys } := ⟨h, rfl, rfl, rfl, rfl⟩
  have hbody := agree_statements (nested_expression M xs.length ys.length) false hstart
    (Nat.le_refl _) (Nat.le_refl _) (Nat.le_refl _) (Nat.le_refl _)
  dsimp only at hbody
  rw [parseRun_eq, parseRun_eq]
  generalize statements expression false xs { rest := xs } = r at hbody
  generalize statements expression false ys { rest := ys } = r' at hbody
  cases hbody with
  | ok body hpaired =>
      dsimp only
      cases programOf body with
      | ok tree => exact .ok tree hpaired
      | error cause => exact .errorAtEnd cause hpaired
  | error cause hplace hpaired => exact .error cause hplace hpaired
  | errorAtEnd cause hpaired => exact .errorAtEnd cause hpaired
  | okCut body hcut hnil =>
      dsimp only
      cases programOf body with
      | ok tree => exact .okCut tree hcut hnil _
      | error cause => exact .errorCut cause hcut _
  | errorCut cause hcut => exact .errorCut cause hcut _

/-! ## Inputs with the same tokens -/

/-- As many line breaks are in front of the one input as of the other. -/
theorem exists_skipLines_drop {us vs : List Lexeme}
    (h : us.map Lexeme.token = vs.map Lexeme.token) :
    ∃ count, skipLines us = us.drop count ∧ skipLines vs = vs.drop count := by
  induction us generalizing vs with
  | nil =>
      have hvs : vs = [] := List.map_eq_nil_iff.1 h.symm
      subst hvs
      exact ⟨0, rfl, rfl⟩
  | cons x us ih =>
      obtain ⟨y, vs, rfl, hy, hvs⟩ := List.map_eq_cons_iff.1 h.symm
      by_cases hx : x.token = .newline
      · obtain ⟨count, hus, hvs⟩ := ih hvs.symm
        refine ⟨count + 1, ?_, ?_⟩
        · rw [skipLines_cons hx, hus, List.drop_succ_cons]
        · rw [skipLines_cons (hy.trans hx), hvs, List.drop_succ_cons]
      · have hy' : y.token ≠ .newline := hy ▸ hx
        refine ⟨0, ?_, ?_⟩
        · simp [skipLines, hx]
        · simp [skipLines, hy']

theorem getElem?_of_drop_eq_cons {xs us : List Lexeme} {x : Lexeme} {count : Nat}
    (h : xs.drop count = x :: us) : xs[count]? = some x ∧ xs.drop (count + 1) = us := by
  constructor
  · rw [← List.head?_drop, h, List.head?_cons]
  · rw [← List.tail_drop, h, List.tail_cons]

/-- Two inputs with the same tokens, of which the same number has been read. -/
def sameTokens (xs ys : List Lexeme) (h : xs.map Lexeme.token = ys.map Lexeme.token) :
    Pairing where
  rel us vs := ∃ count, us = xs.drop count ∧ vs = ys.drop count
  place span span' :=
    ∃ (i : Nat) (x y : Lexeme), xs[i]? = some x ∧ ys[i]? = some y ∧ x.span = span ∧ y.span = span'
  cut := False
  cons := by
    rintro x us vs ⟨count, hus, rfl⟩
    have htokens := congrArg (List.drop count) h
    rw [← List.map_drop, ← List.map_drop, ← hus, List.map_cons] at htokens
    obtain ⟨y, vs, hvs, hy, -⟩ := List.map_eq_cons_iff.1 htokens.symm
    obtain ⟨hfront, hback⟩ := getElem?_of_drop_eq_cons hus.symm
    obtain ⟨hfront', hback'⟩ := getElem?_of_drop_eq_cons hvs
    exact ⟨y, vs, hvs, hy, ⟨count, x, y, hfront, hfront', rfl, rfl⟩,
      fun _ => ⟨count + 1, hback.symm, hback'.symm⟩⟩
  nil := by
    rintro vs ⟨count, hus, rfl⟩
    refine .inl (List.drop_eq_nil_iff.2 ?_)
    have hlength := congrArg List.length h
    rw [List.length_map, List.length_map] at hlength
    rw [← hlength]
    exact List.drop_eq_nil_iff.1 hus.symm
  lines := by
    rintro x us vs ⟨count, hus, rfl⟩ hx
    have htokens := congrArg (List.drop count) h
    rw [← List.map_drop, ← List.map_drop, ← hus] at htokens
    obtain ⟨more, hmore, hmore'⟩ := exists_skipLines_drop htokens
    rw [skipLines_cons hx] at hmore
    refine .inl ⟨count + more, ?_, ?_⟩
    · rw [hmore, hus, List.drop_drop]
    · rw [hmore', List.drop_drop]

end Pairing

/-- Inputs with the same tokens give the same tree, or fail for the same reason and
with the same message. They then fail at the end, both of them, or at tokens in the
same position. Numbers are the same if their bits are: the zeros of either sign are two
tokens, of which the lexer gives the positive one only. -/
theorem parse_ignores_places {xs ys : List Lexeme}
    (h : xs.map Lexeme.token = ys.map Lexeme.token) :
    (∃ tree, parse xs = .ok tree ∧ parse ys = .ok tree) ∨
    ∃ e e', parse xs = .error e ∧ parse ys = .error e' ∧ e.cause = e'.cause ∧
      e.message = e'.message ∧
      (e.span = none ∧ e'.span = none ∨
        ∃ (i : Nat) (x y : Lexeme), xs[i]? = some x ∧ ys[i]? = some y ∧
          e.span = some x.span ∧ e'.span = some y.span) := by
  have hagree : (Pairing.sameTokens xs ys h).Agree (parseRun xs) (parseRun ys) :=
    Pairing.agree_parseRun _ ⟨0, rfl, rfl⟩
  rw [parse, parse]
  generalize parseRun xs = r at hagree
  generalize parseRun ys = r' at hagree
  cases hagree with
  | ok tree => exact .inl ⟨tree, rfl, rfl⟩
  | error cause hplace =>
      obtain ⟨i, x, y, hx, hy, rfl, rfl⟩ := hplace
      exact .inr ⟨_, _, rfl, rfl, rfl, rfl, .inr ⟨i, x, y, hx, hy, rfl, rfl⟩⟩
  | errorAtEnd cause => exact .inr ⟨_, _, rfl, rfl, rfl, rfl, .inl ⟨rfl, rfl⟩⟩
  | okCut tree hcut => exact hcut.elim
  | errorCut cause hcut => exact hcut.elim

/-- The place of the brace is reported when its block turns out to have no value. -/
theorem parse_ignores_place_of_brace :
    ∃ xs ys : List Lexeme,
      xs.map Lexeme.token = [.blockOpen, .kwVal, .ident "x", .assign, .number (.ofBits 0),
        .blockClose] ∧
      xs.map Lexeme.token = ys.map Lexeme.token ∧
      parse xs = .error ⟨.blockWithoutValue, some ⟨0, 1, 1⟩⟩ ∧
      ∃ e, parse ys = .error e ∧ e.message = "block does not end in expression" ∧
        ∃ (i : Nat) (x y : Lexeme), xs[i]? = some x ∧ ys[i]? = some y ∧ x.span = ⟨0, 1, 1⟩ ∧
          e.span = some y.span := by
  let tokens : List Token :=
    [.blockOpen, .kwVal, .ident "x", .assign, .number (.ofBits 0), .blockClose]
  let xs : List Lexeme := tokens.mapIdx fun i token => ⟨⟨2 * i, 2 * i + 1, 1⟩, token⟩
  let ys : List Lexeme := tokens.mapIdx fun i token => ⟨⟨40 - i, 3, i⟩, token⟩
  have htokens : xs.map Lexeme.token = ys.map Lexeme.token := rfl
  have hxs : parse xs = .error ⟨.blockWithoutValue, some ⟨0, 1, 1⟩⟩ := rfl
  refine ⟨xs, ys, rfl, htokens, hxs, ?_⟩
  obtain ⟨tree, htree, -⟩ | ⟨e, e', he, he', -, hmessage, hspan⟩ := parse_ignores_places htokens
  · rw [hxs] at htree
    cases htree
  · rw [hxs] at he
    cases he
    rcases hspan with ⟨hspan, -⟩ | ⟨i, x, y, hx, hy, hspan, hspan'⟩
    · cases hspan
    · exact ⟨e', he', hmessage.symm, i, x, y, hx, hy, (Option.some.inj hspan).symm, hspan'⟩

end Lila.Parser
