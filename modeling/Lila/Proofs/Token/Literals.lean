import Lila.Proofs.Number.Decimal
import Lila.Proofs.Token.Reading

/-! # Numeric literals

Digits, and digits on both sides of a point, are one token that spans the whole text; a
point with nothing behind it is a token of its own. The number of the token is the one
nearest to what the digits write, however many there are.
-/

namespace Lila

namespace Literal

theorem byteLength_digits {digits : List Char} (h : ∀ c ∈ digits, c.isDigit = true) :
    byteLength digits = digits.length := by
  have hsize : ∀ c : Char, c.isDigit = true → c.utf8Size = 1 := by
    intro c hc
    obtain ⟨-, hle⟩ := Bool.and_eq_true_iff.1 hc
    exact Char.utf8Size_eq_one_iff.2 (UInt32.le_trans (of_decide_eq_true hle) (by decide))
  induction digits with
  | nil => rfl
  | cons c digits ih =>
      obtain ⟨hc, hdigits⟩ := List.forall_mem_cons.1 h
      rw [byteLength, hsize c hc, ih hdigits, List.length_cons, Nat.add_comm]

end Literal

namespace Lexer

/-! ## Tokens of literals -/

/-- A literal at the front is the next token; a point behind an integer is kept for the
token after it. -/
theorem next_literal {l : Lexer} {text more : List Char} {value : Double}
    (hl : l.rest = text ++ more) (hfailed : l.failed = false) (hdot : l.loneDot = false)
    (hcut : Literal.Cut text more) (hvalue : Literal.value? text = some value) :
    ∃ events, l.next = (some (.ok ⟨l.span text, .number value⟩),
      { l with
        rest := more
        offset := l.offset + byteLength text
        loneDot := !text.contains '.' && more.head? == some '.'
        events := events }) := by
  obtain ⟨c, text, rfl⟩ := List.exists_cons_of_ne_nil (Spells.number hvalue).ne_nil
  have hdigit := Literal.isDigit_of_value? hvalue
  have hc := not_isTrivia_of_isAlphanum (c := c) (by rw [Char.isAlphanum, hdigit, Bool.or_true])
  have hskip : l.skipTrivia = l := skipTrivia_of_ends (hl ▸ ends_cons.2 hc)
  have hnumber := number_run (hl ▸ hcut.split) hvalue
  rw [← token_number hdot hdigit] at hnumber
  exact ⟨_, next_eq_ok.2 ⟨hfailed, c, text ++ more, _, by rw [hskip, hl]; rfl,
    by rw [hskip]; exact hnumber, rfl⟩⟩

theorem next_point {l : Lexer} {more : List Char} (hl : l.rest = '.' :: more)
    (hfailed : l.failed = false) (hdot : l.loneDot = true) :
    ∃ events, l.next = (some (.ok ⟨l.span ['.'], .binop "."⟩),
      { l with rest := more, offset := l.offset + 1, loneDot := false, events := events }) := by
  have hskip : l.skipTrivia = l := skipTrivia_of_ends (hl ▸ ends_cons.2 (by decide))
  exact ⟨_, next_eq_ok.2 ⟨hfailed, '.', more, _, by rw [hskip, hl],
    by rw [hskip]; exact token_loneDot hdot, rfl⟩⟩

theorem span_ofString (source : String) (text : List Char) :
    (ofString source).span text = ⟨0, byteLength text, 1⟩ := by
  simp [span, ofString]

/-- A literal with nothing behind it is the only token. -/
theorem tokenize_of_literal {source : String} {value : Double}
    (h : Literal.value? source.toList = some value) :
    tokenize source = .ok [⟨⟨0, byteLength source.toList, 1⟩, .number value⟩] := by
  have hcut := (Literal.written_of_value? h).cut (ends_nil _) (by simp)
  have hrest : (ofString source).rest = source.toList ++ [] := (List.append_nil _).symm
  obtain ⟨events, hnext⟩ := next_literal hrest rfl rfl hcut h
  rw [span_ofString] at hnext
  refine tokenize_eq_ok_iff.2 ⟨_, _, .cons hnext (.nil _), At.next_none ⟨rfl, ?_, [], ?_, rfl⟩⟩
  · exact Bool.and_false _
  · simp

/-- Behind an integer, a point with nothing behind it is a token of its own. -/
theorem tokenize_of_pointed {source : String} {whole : List Char} {value : Double}
    (hsource : source.toList = whole ++ ['.']) (hwhole : ∀ c ∈ whole, c.isDigit = true)
    (h : Literal.value? whole = some value) :
    tokenize source = .ok [⟨⟨0, byteLength whole, 1⟩, .number value⟩,
      ⟨⟨byteLength whole, byteLength whole + 1, 1⟩, .binop "."⟩] := by
  have hcut : Literal.Cut whole ['.'] :=
    .whole hwhole (ends_cons.2 (by decide)) fun d more heq => by cases heq
  have hrest : (ofString source).rest = whole ++ ['.'] := hsource
  obtain ⟨events, hnext⟩ := next_literal hrest rfl rfl hcut h
  have hpoint : whole.contains '.' = false := by
    refine Bool.eq_false_iff.2 fun hcontains => ?_
    have hdigit := hwhole '.' (List.contains_iff_mem.1 hcontains)
    revert hdigit
    decide
  have hoffset : (ofString source).offset + byteLength whole = byteLength whole := Nat.zero_add _
  rw [span_ofString, hoffset, hpoint] at hnext
  obtain ⟨events', hnext'⟩ := next_point (l := { (ofString source) with
    rest := ['.'], offset := byteLength whole, loneDot := true, events := events }) rfl rfl rfl
  exact tokenize_eq_ok_iff.2 ⟨_, _, .cons hnext (.cons hnext' (.nil _)),
    At.next_none ⟨rfl, rfl, [], by simp, rfl⟩⟩

end Lexer

/-- Digits are one token, and so are digits on both sides of a point; digits with a point
behind them are two. Each number is the nearest one to what its digits write. -/
theorem tokenize_literal (whole places : String) (hne : whole ≠ "") (hne' : places ≠ "")
    (hwhole : ∀ c ∈ whole.toList, c.isDigit = true)
    (hplaces : ∀ c ∈ places.toList, c.isDigit = true) :
    ∃ x y : Double,
      x.Nearest (Literal.decimal whole.toList []) ∧
      y.Nearest (Literal.decimal whole.toList places.toList) ∧
      tokenize whole = .ok [⟨⟨0, whole.length, 1⟩, .number x⟩] ∧
      tokenize (whole ++ "." ++ places) =
        .ok [⟨⟨0, whole.length + 1 + places.length, 1⟩, .number y⟩] ∧
      tokenize (whole ++ ".") = .ok [⟨⟨0, whole.length, 1⟩, .number x⟩,
        ⟨⟨whole.length, whole.length + 1, 1⟩, .binop "."⟩] := by
  have hne : whole.toList ≠ [] := fun h => hne (String.toList_eq_nil_iff.1 h)
  have hne' : places.toList ≠ [] := fun h => hne' (String.toList_eq_nil_iff.1 h)
  obtain ⟨x, hx, hnearest⟩ := Literal.exists_nearest_whole hne hwhole
  obtain ⟨y, hy, hnearest'⟩ := Literal.exists_nearest_fraction hne hwhole hne' hplaces
  have hlength := Literal.byteLength_digits hwhole
  have hlength' := Literal.byteLength_digits hplaces
  have hfraction : (whole ++ "." ++ places).toList = whole.toList ++ '.' :: places.toList := by
    simp
  refine ⟨x, y, hnearest, hnearest', ?_, ?_, ?_⟩
  · rw [Lexer.tokenize_of_literal hx, hlength]
    rfl
  · rw [← hfraction] at hy
    rw [Lexer.tokenize_of_literal hy, hfraction, byteLength_append, byteLength, hlength, hlength',
      ← Nat.add_assoc]
    rfl
  · rw [Lexer.tokenize_of_pointed (by simp) hwhole hx, hlength]
    rfl

/-- The digits write `2 ^ 53 + 1`, in the middle between two numbers, and with a place behind
the point they are beyond it. -/
theorem tokenize_literal_middle :
    (∀ c ∈ "9007199254740993".toList, c.isDigit = true) ∧
    (∀ c ∈ "5".toList, c.isDigit = true) ∧
    ∃ x y : Double,
      x.Nearest (Literal.decimal "9007199254740993".toList []) ∧
      y.Nearest (Literal.decimal "9007199254740993".toList "5".toList) ∧
      tokenize "9007199254740993" = .ok [⟨⟨0, 16, 1⟩, .number x⟩] ∧
      tokenize "9007199254740993.5" = .ok [⟨⟨0, 18, 1⟩, .number y⟩] ∧
      tokenize "9007199254740993." =
        .ok [⟨⟨0, 16, 1⟩, .number x⟩, ⟨⟨16, 17, 1⟩, .binop "."⟩] := by
  have hwhole : ∀ c ∈ "9007199254740993".toList, c.isDigit = true := List.all_eq_true.1 rfl
  have hplaces : ∀ c ∈ "5".toList, c.isDigit = true := List.all_eq_true.1 rfl
  exact ⟨hwhole, hplaces,
    tokenize_literal "9007199254740993" "5" (by decide) (by decide) hwhole hplaces⟩

end Lila
