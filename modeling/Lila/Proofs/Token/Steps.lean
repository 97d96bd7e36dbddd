import Lila.Proofs.Number.Literal
import Lila.Token.Lexer

/-! # Runs of the lexer

A run is the answers of `next` one after the other, here without a bound on their
number. Each answer takes a text off the front that spells the token, so that the
bound of `run` is never reached before the end.
-/

namespace Lila

/-! ## Classes of characters -/

theorem isDigit_iff {c : Char} : c.isDigit = true ↔ 48 ≤ c.toNat ∧ c.toNat ≤ 57 := by
  simp [Char.isDigit, UInt32.le_iff_toNat_le]

theorem isAlpha_iff {c : Char} :
    c.isAlpha = true ↔ 65 ≤ c.toNat ∧ c.toNat ≤ 90 ∨ 97 ≤ c.toNat ∧ c.toNat ≤ 122 := by
  show (decide (c.val ≥ 'A'.val ∧ c.val ≤ 'Z'.val) ||
    (decide (c.val ≥ 'a'.val) && decide (c.val ≤ 'z'.val))) = true ↔ _
  simp [UInt32.le_iff_toNat_le]

theorem isPunctuation_iff {c : Char} :
    isPunctuation c = true ↔ 33 ≤ c.toNat ∧ c.toNat ≤ 47 ∨ 58 ≤ c.toNat ∧ c.toNat ≤ 64 ∨
      91 ≤ c.toNat ∧ c.toNat ≤ 96 ∨ 123 ≤ c.toNat ∧ c.toNat ≤ 126 := by
  simp [isPunctuation, or_assoc]

theorem isBlank_eq_false {c : Char} (h : 33 ≤ c.toNat ∧ c.toNat ≤ 126) :
    Text.isBlank c = false := by
  simp only [Text.isBlank, Text.blankRanges, List.any_cons, List.any_nil, Bool.or_false,
    Bool.or_eq_false_iff, Bool.and_eq_false_iff, decide_eq_false_iff_not]
  omega

theorem not_isTrivia_of_isAlphanum {c : Char} (h : c.isAlphanum = true) : isTrivia c = false := by
  have hrange : 33 ≤ c.toNat ∧ c.toNat ≤ 126 := by
    rw [Char.isAlphanum, Bool.or_eq_true, isAlpha_iff, isDigit_iff] at h
    omega
  simp [isTrivia, isUnrecognized, isBlank_eq_false hrange, h]

theorem not_isTrivia_of_isPunctuation {c : Char} (h : isPunctuation c = true) :
    isTrivia c = false := by
  have hrange : 33 ≤ c.toNat ∧ c.toNat ≤ 126 := by
    rw [isPunctuation_iff] at h
    omega
  simp [isTrivia, isUnrecognized, isBlank_eq_false hrange, h]

theorem not_isDigit_of_isAlpha {c : Char} (h : c.isAlpha = true) : c.isDigit = false := by
  rw [isAlpha_iff] at h
  rw [Bool.eq_false_iff, ne_eq, isDigit_iff]
  omega

theorem not_isAlphanum_of_isPunctuation {c : Char} (h : isPunctuation c = true) :
    c.isAlphanum = false := by
  rw [isPunctuation_iff] at h
  rw [Bool.eq_false_iff, ne_eq, Char.isAlphanum, Bool.or_eq_true, isAlpha_iff, isDigit_iff]
  omega

/-- A character that is no trivia is of one of the classes that tokens start with. -/
theorem class_of_not_isTrivia {c : Char} (hc : isTrivia c = false) :
    c.isDigit = true ∨ c.isAlpha = true ∨ isOperatorChar c = true ∨ c = '\n' ∨
      isDelimiter c = true := by
  obtain ⟨hblank, hunrecognized⟩ := Bool.or_eq_false_iff.1 hc
  cases halphanum : c.isAlphanum with
  | true => exact (Bool.or_eq_true_iff.1 halphanum).elim (.inr ∘ .inl) .inl
  | false =>
      by_cases hline : c = '\n'
      · exact .inr (.inr (.inr (.inl hline)))
      · have hnonblank : Text.isBlank c = false := by simpa [hline] using hblank
        have hpunctuation : isPunctuation c = true := by
          simpa [isUnrecognized, halphanum, hnonblank] using hunrecognized
        cases hdelimiter : isDelimiter c with
        | true => exact .inr (.inr (.inr (.inr rfl)))
        | false =>
            refine .inr (.inr (.inl ?_))
            rw [isOperatorChar, hpunctuation, hdelimiter]
            rfl

/-! ## Counted characters -/

/-- The lexer keeps count of lines and of brackets. -/
def isCounted (c : Char) : Bool := c == '\n' || c == '{' || c == '}' || c == '(' || c == ')'

def Uncounted (p : Char → Bool) : Prop := ['\n', '{', '}', '(', ')'].any p = false

instance : DecidablePred Uncounted := fun _ => inferInstanceAs (Decidable (_ = false))

theorem Uncounted.isCounted_eq_false {p : Char → Bool} (hp : Uncounted p) {c : Char}
    (hc : p c = true) : isCounted c = false := by
  cases hcounted : isCounted c with
  | false => rfl
  | true =>
      have hmem : c ∈ ['\n', '{', '}', '(', ')'] := by simpa [isCounted, or_assoc] using hcounted
      exact (List.any_eq_false.1 hp c hmem hc).elim

/-- Runs of such characters, of which the first one may be of a class of its own. -/
theorem Uncounted.cons {p q : Char → Bool} (hp : Uncounted p) (hq : Uncounted q) {first : Char}
    {text : List Char} (hfirst : p first = true) (htext : ∀ c ∈ text, q c = true) :
    ∀ c ∈ first :: text, isCounted c = false :=
  List.forall_mem_cons.2
    ⟨hp.isCounted_eq_false hfirst, fun c hc => hq.isCounted_eq_false (htext c hc)⟩

theorem count_eq_zero {text : List Char} (h : ∀ c ∈ text, isCounted c = false) {c : Char}
    (hc : isCounted c = true) : text.count c = 0 := by
  apply List.count_eq_zero.2
  intro hmem
  rw [h c hmem] at hc
  cases hc

/-! ## Spelling -/

/-- The texts that a token is written as. -/
inductive Spells : List Char → Token → Prop
  | number {text : List Char} {value : Double} (h : Literal.value? text = some value) :
      Spells text (.number value)
  | word {c : Char} {text : List Char} (hfirst : c.isAlpha = true)
      (h : ∀ c ∈ text, c.isAlphanum = true) : Spells (c :: text) (Lexer.wordToken (c :: text))
  | operator {c : Char} {text : List Char} (hfirst : isOperatorChar c = true)
      (h : ∀ c ∈ text, isOperatorChar c = true) :
      Spells (c :: text) (Lexer.operatorToken (c :: text))
  | newline : Spells ['\n'] .newline
  | comma : Spells [','] .comma
  | blockOpen : Spells ['{'] .blockOpen
  | blockClose : Spells ['}'] .blockClose
  | parenOpen : Spells ['('] .parenOpen
  | parenClose : Spells [')'] .parenClose

theorem Spells.ne_nil {text : List Char} {token : Token} (h : Spells text token) : text ≠ [] := by
  cases h with
  | number h =>
      rintro rfl
      cases h
  | _ => exact List.cons_ne_nil _ _

namespace Lexer

theorem wordToken_cases (text : List Char) :
    text = ['d', 'e', 'f'] ∧ wordToken text = .kwDef ∨
      text = ['v', 'a', 'l'] ∧ wordToken text = .kwVal ∨
        wordToken text = .ident (String.ofList text) := by
  unfold wordToken
  split
  · next h => exact .inl ⟨h, rfl⟩
  · split
    · next h => exact .inr (.inl ⟨h, rfl⟩)
    · exact .inr (.inr rfl)

theorem operatorToken_cases (text : List Char) :
    text = ['='] ∧ operatorToken text = .assign ∨ text = [':'] ∧ operatorToken text = .colon ∨
      operatorToken text = .binop (String.ofList text) := by
  unfold operatorToken
  split
  · next h => exact .inl ⟨h, rfl⟩
  · split
    · next h => exact .inr (.inl ⟨h, rfl⟩)
    · exact .inr (.inr rfl)

/-! ## Tokens by their first character -/

section Token

variable {l : Lexer} {c : Char} {rest : List Char}

theorem token_loneDot (hdot : l.loneDot = true) :
    l.token c rest = .ok (l.emit (.binop (String.ofList [c])) [c] rest) := by
  simp [token, hdot]

theorem token_number (hdot : l.loneDot = false) (hc : c.isDigit = true) :
    l.token c rest = l.number := by
  simp [token, hdot, hc]

theorem token_word (hdot : l.loneDot = false) (hc : c.isAlpha = true) :
    l.token c rest = .ok (l.runOf Char.isAlphanum wordToken) := by
  simp [token, hdot, hc, not_isDigit_of_isAlpha hc]

theorem token_operator (hdot : l.loneDot = false) (hc : isOperatorChar c = true) :
    l.token c rest = .ok (l.runOf isOperatorChar operatorToken) := by
  have halphanum := not_isAlphanum_of_isPunctuation (Bool.and_eq_true_iff.1 hc).1
  obtain ⟨halpha, hdigit⟩ := Bool.or_eq_false_iff.1 halphanum
  unfold token
  simp only [hdot, hdigit, halpha, Bool.false_eq_true, if_false]
  split
  case h_7 => rfl
  all_goals exact absurd hc (by decide)

theorem token_newline (hdot : l.loneDot = false) :
    l.token '\n' rest =
      .ok ((l.emit .newline ['\n'] rest).1,
        { (l.emit .newline ['\n'] rest).2 with line := l.line + 1 }) := by
  unfold token
  rw [hdot]
  rfl

theorem token_comma (hdot : l.loneDot = false) :
    l.token ',' rest = .ok (l.emit .comma [','] rest) := by
  unfold token
  rw [hdot]
  rfl

theorem token_parenOpen (hdot : l.loneDot = false) :
    l.token '(' rest =
      .ok (emit { l with openParens := l.openParens + 1 } .parenOpen ['('] rest) := by
  unfold token
  rw [hdot]
  rfl

theorem token_blockOpen (hdot : l.loneDot = false) :
    l.token '{' rest =
      .ok (emit { l with openBlocks := l.openBlocks + 1 } .blockOpen ['{'] rest) := by
  unfold token
  rw [hdot]
  rfl

theorem token_parenClose (hdot : l.loneDot = false) :
    l.token ')' rest =
      match l.openParens with
      | 0 => .error ⟨.unopenedParen, l.span [')']⟩
      | n + 1 => .ok (emit { l with openParens := n } .parenClose [')'] rest) := by
  unfold token
  rw [hdot]
  rfl

theorem token_blockClose (hdot : l.loneDot = false) :
    l.token '}' rest =
      match l.openBlocks with
      | 0 => .error ⟨.unopenedBlock, l.span ['}']⟩
      | n + 1 => .ok (emit { l with openBlocks := n } .blockClose ['}'] rest) := by
  unfold token
  rw [hdot]
  rfl

end Token

/-! ## Literals -/

theorem number_run {l : Lexer} {text rest : List Char} {value : Double}
    (hsplit : Literal.split l.rest = (text, rest)) (hvalue : Literal.value? text = some value) :
    l.number = .ok ((l.emit (.number value) text rest).1,
      { (l.emit (.number value) text rest).2 with
        loneDot := !text.contains '.' && rest.head? == some '.' }) := by
  rw [number, Literal.scan_eq, hsplit]
  dsimp only
  rw [hvalue]

theorem exists_split_of_number {l k : Lexer} {x : Lexeme} (h : l.number = .ok (x, k)) :
    ∃ text rest value, Literal.split l.rest = (text, rest) ∧ Literal.value? text = some value ∧
      x.token = .number value ∧ k.rest = rest := by
  generalize hparts : Literal.split l.rest = parts
  obtain ⟨text, rest⟩ := parts
  cases hvalue : Literal.value? text with
  | none =>
      rw [number, Literal.scan_eq, hparts] at h
      dsimp only at h
      rw [hvalue] at h
      cases h
  | some value =>
      rw [number_run hparts hvalue] at h
      cases h
      exact ⟨text, rest, value, rfl, hvalue, rfl, rfl⟩

end Lexer

namespace Literal

theorem Written.isCounted_eq_false {text : List Char} (h : Written text) :
    ∀ c ∈ text, isCounted c = false := by
  have hdigit : ∀ c : Char, c.isDigit = true → isCounted c = false :=
    fun c => Uncounted.isCounted_eq_false (by decide)
  cases h with
  | whole hne hdigits => exact fun c hc => hdigit c (hdigits c hc)
  | fraction hne hdigits hne' hplaces =>
      intro c hc
      rcases List.mem_append.1 hc with hc | hc
      · exact hdigit c (hdigits c hc)
      · rcases List.mem_cons.1 hc with rfl | hc
        · decide
        · exact hdigit c (hplaces c hc)

end Literal

/-! ## Moving over a text -/

def LexEvent.skipped? : LexEvent → Option (Nat × Char)
  | .skipped c lo => some (lo, c)
  | .token _ => none

namespace Lexer

/-- The lexer goes from the front of the text to its end, and counts what is in it. -/
structure Moves (l : Lexer) (text : List Char) (m : Lexer) : Prop where
  rest : l.rest = text ++ m.rest
  offset : m.offset = l.offset + byteLength text
  line : m.line = l.line + text.count '\n'
  blocks : m.openBlocks + text.count '}' = l.openBlocks + text.count '{'
  parens : m.openParens + text.count ')' = l.openParens + text.count '('

namespace Moves

variable {l m n : Lexer} {text more : List Char}

theorem refl (l : Lexer) : Moves l [] l := ⟨rfl, rfl, rfl, rfl, rfl⟩

theorem trans (h : Moves l text m) (h' : Moves m more n) : Moves l (text ++ more) n := by
  have hblocks := h.blocks
  have hblocks' := h'.blocks
  have hparens := h.parens
  have hparens' := h'.parens
  constructor
  · rw [h.rest, h'.rest, List.append_assoc]
  · rw [h'.offset, h.offset, byteLength_append, Nat.add_assoc]
  · rw [h'.line, h.line, List.count_append, Nat.add_assoc]
  · simp only [List.count_append]
    omega
  · simp only [List.count_append]
    omega

/-- Only the offset changes where nothing is counted. -/
theorem of_plain (hrest : l.rest = text ++ m.rest) (hoffset : m.offset = l.offset + byteLength text)
    (hline : m.line = l.line) (hblocks : m.openBlocks = l.openBlocks)
    (hparens : m.openParens = l.openParens) (htext : ∀ c ∈ text, isCounted c = false) :
    Moves l text m := by
  have hzero : ∀ c, isCounted c = true → text.count c = 0 := fun c => count_eq_zero htext
  constructor
  · exact hrest
  · exact hoffset
  · rw [hline, hzero '\n' (by decide), Nat.add_zero]
  · rw [hblocks, hzero '{' (by decide), hzero '}' (by decide)]
  · rw [hparens, hzero '(' (by decide), hzero ')' (by decide)]

/-! From the front of a source, a lexer counts from nothing and in line 1. -/

variable {source : String}

theorem toList_eq (h : Moves (ofString source) text l) : source.toList = text ++ l.rest := h.rest

theorem offset_eq (h : Moves (ofString source) text l) : l.offset = byteLength text :=
  h.offset.trans (Nat.zero_add _)

theorem line_eq (h : Moves (ofString source) text l) : l.line = 1 + text.count '\n' := h.line

theorem blocks_eq (h : Moves (ofString source) text l) :
    l.openBlocks + text.count '}' = text.count '{' :=
  h.blocks.trans (Nat.zero_add _)

theorem parens_eq (h : Moves (ofString source) text l) :
    l.openParens + text.count ')' = text.count '(' :=
  h.parens.trans (Nat.zero_add _)

end Moves

theorem skipTrivia_moves (l : Lexer) : Moves l (l.rest.takeWhile isTrivia) l.skipTrivia := by
  refine .of_plain List.takeWhile_append_dropWhile.symm rfl rfl rfl rfl ?_
  exact fun c hc => Uncounted.isCounted_eq_false (by decide) (List.mem_takeWhile_imp hc)

def skipped (l : Lexer) : List (Nat × Char) := l.events.reverse.filterMap LexEvent.skipped?

/-! ## One token -/

/-- A point set aside by a literal is still in front. -/
def Sane (l : Lexer) : Prop := l.loneDot = true → l.rest.head? = some '.'

theorem sane_of_not_loneDot {l : Lexer} (h : l.loneDot = false) : l.Sane := by
  intro hdot
  rw [h] at hdot
  cases hdot

/-- What a step does: it moves over a text that spells the token. -/
structure Takes (l : Lexer) (x : Lexeme) (m : Lexer) : Prop where
  text : ∃ text, l.Moves text m ∧ Spells text x.token ∧ x.span = l.span text
  sane : m.Sane
  failed : m.failed = l.failed
  skipped : m.skipped = l.skipped

theorem number_takes {l m : Lexer} {x : Lexeme} (h : l.number = .ok (x, m)) : l.Takes x m := by
  have hsplit := Literal.split_append l.rest
  obtain ⟨text, rest, value, hparts, hvalue, -, -⟩ := exists_split_of_number h
  rw [hparts] at hsplit
  rw [number_run hparts hvalue] at h
  cases h
  have hplain := (Literal.written_of_value? hvalue).isCounted_eq_false
  refine ⟨⟨text, ?_, .number hvalue, rfl⟩, ?_, rfl, rfl⟩
  · exact .of_plain hsplit.symm rfl rfl rfl rfl hplain
  · intro hdot
    exact beq_iff_eq.1 (Bool.and_eq_true_iff.1 hdot).2

theorem runOf_takes {l : Lexer} {c : Char} {rest : List Char} {p : Char → Bool}
    {token : List Char → Token} (hl : l.rest = c :: rest) (hc : p c = true) (hp : Uncounted p)
    (hspells : ∀ text, (∀ c ∈ text, p c = true) → Spells (c :: text) (token (c :: text))) :
    l.Takes (l.runOf p token).1 (l.runOf p token).2 := by
  have htext : l.rest.takeWhile p = c :: rest.takeWhile p := by
    rw [hl, List.takeWhile_cons_of_pos hc]
  refine ⟨⟨l.rest.takeWhile p, ?_, ?_, rfl⟩, ?_, rfl, rfl⟩
  · refine .of_plain List.takeWhile_append_dropWhile.symm rfl rfl rfl rfl ?_
    exact fun c hc => hp.isCounted_eq_false (List.mem_takeWhile_imp hc)
  · show Spells _ (token (l.rest.takeWhile p))
    rw [htext]
    exact hspells _ fun _ hc => List.mem_takeWhile_imp hc
  · exact sane_of_not_loneDot rfl

/-- A token of one character. The lexer `k` differs from `l` in its counters. -/
theorem emit_takes {l k : Lexer} {c : Char} {rest : List Char} {token : Token}
    (h : Spells [c] token) (hk : l.span [c] = k.span [c]) (hfailed : k.failed = l.failed)
    (hskipped : k.skipped = l.skipped) (hmoves : l.Moves [c] (k.emit token [c] rest).2) :
    l.Takes (k.emit token [c] rest).1 (k.emit token [c] rest).2 :=
  ⟨⟨[c], hmoves, h, hk.symm⟩, sane_of_not_loneDot rfl, hfailed, hskipped⟩

theorem delimiter_takes {l m : Lexer} {c : Char} {rest : List Char} {x : Lexeme}
    (hl : l.rest = c :: rest) (hdot : l.loneDot = false) (hc : isDelimiter c = true)
    (h : l.token c rest = .ok (x, m)) : l.Takes x m := by
  simp only [isDelimiter, Bool.or_eq_true, beq_iff_eq] at hc
  obtain (((rfl | rfl) | rfl) | rfl) | rfl := hc
  · rw [token_comma hdot] at h
    cases h
    exact emit_takes .comma rfl rfl rfl ⟨hl, rfl, rfl, rfl, rfl⟩
  · rw [token_blockOpen hdot] at h
    cases h
    exact emit_takes .blockOpen rfl rfl rfl ⟨hl, rfl, rfl, rfl, rfl⟩
  · rw [token_blockClose hdot] at h
    cases hopen : l.openBlocks with
    | zero =>
        rw [hopen] at h
        cases h
    | succ n =>
        rw [hopen] at h
        cases h
        exact emit_takes .blockClose rfl rfl rfl ⟨hl, rfl, rfl, hopen.symm, rfl⟩
  · rw [token_parenOpen hdot] at h
    cases h
    exact emit_takes .parenOpen rfl rfl rfl ⟨hl, rfl, rfl, rfl, rfl⟩
  · rw [token_parenClose hdot] at h
    cases hopen : l.openParens with
    | zero =>
        rw [hopen] at h
        cases h
    | succ n =>
        rw [hopen] at h
        cases h
        exact emit_takes .parenClose rfl rfl rfl ⟨hl, rfl, rfl, rfl, hopen.symm⟩

theorem token_takes {l m : Lexer} {c : Char} {rest : List Char} {x : Lexeme}
    (hl : l.rest = c :: rest) (hc : isTrivia c = false) (hsane : l.Sane)
    (h : l.token c rest = .ok (x, m)) : l.Takes x m := by
  cases hdot : l.loneDot with
  | true =>
      have hhead := hsane hdot
      rw [hl] at hhead
      obtain rfl := Option.some.inj hhead
      rw [token_loneDot hdot] at h
      cases h
      have hspells : Spells ['.'] (operatorToken ['.']) := .operator (by decide) (by simp)
      exact emit_takes hspells rfl rfl rfl ⟨hl, rfl, rfl, rfl, rfl⟩
  | false =>
      rcases class_of_not_isTrivia hc with hdigit | halpha | hoperator | rfl | hdelimiter
      · rw [token_number hdot hdigit] at h
        exact number_takes h
      · rw [token_word hdot halpha] at h
        cases h
        have hfirst : c.isAlphanum = true := by rw [Char.isAlphanum, halpha, Bool.true_or]
        exact runOf_takes hl hfirst (by decide) fun text htext => .word halpha htext
      · rw [token_operator hdot hoperator] at h
        cases h
        exact runOf_takes hl hoperator (by decide) fun text htext => .operator hoperator htext
      · rw [token_newline hdot] at h
        cases h
        exact ⟨⟨['\n'], ⟨hl, rfl, rfl, rfl, rfl⟩, .newline, rfl⟩, sane_of_not_loneDot rfl, rfl, rfl⟩
      · exact delimiter_takes hl hdot hdelimiter h

/-! ## One call -/

theorem sane_skipTrivia {l : Lexer} (h : l.Sane) : l.skipTrivia.Sane := by
  intro hdot
  have hhead := h hdot
  obtain ⟨rest, hrest⟩ := List.head?_eq_some_iff.1 hhead
  show (l.rest.dropWhile isTrivia).head? = some '.'
  rw [hrest, List.dropWhile_cons_of_neg (by decide)]
  rfl

theorem isTrivia_of_skipTrivia {l : Lexer} {c : Char} {rest : List Char}
    (h : l.skipTrivia.rest = c :: rest) : isTrivia c = false := by
  have hdrop : l.rest.dropWhile isTrivia = c :: rest := h
  have hhead := List.head?_dropWhile_not isTrivia l.rest
  rw [hdrop] at hhead
  simpa using hhead

theorem next_eq_ok {l m : Lexer} {x : Lexeme} :
    l.next = (some (.ok x), m) ↔
      l.failed = false ∧ ∃ c rest k, l.skipTrivia.rest = c :: rest ∧
        l.skipTrivia.token c rest = .ok (x, k) ∧ m = { k with events := .token x :: k.events } := by
  unfold next
  cases hfailed : l.failed with
  | true => simp
  | false =>
      simp only [Bool.false_eq_true, if_false, true_and]
      cases hrest : l.skipTrivia.rest with
      | nil => simp
      | cons c rest =>
          cases htoken : l.skipTrivia.token c rest with
          | error e => simp [htoken]
          | ok answer =>
              obtain ⟨y, k⟩ := answer
              simp only [htoken, Prod.mk.injEq, Option.some.injEq, Except.ok.injEq, List.cons.injEq]
              constructor
              · rintro ⟨rfl, rfl⟩
                exact ⟨c, rest, k, ⟨rfl, rfl⟩, htoken, rfl⟩
              · rintro ⟨c', rest', k', ⟨rfl, rfl⟩, htoken', rfl⟩
                rw [htoken] at htoken'
                cases htoken'
                exact ⟨rfl, rfl⟩

theorem next_eq_none {l m : Lexer} (hfailed : l.failed = false) :
    l.next = (none, m) ↔ l.skipTrivia.rest = [] ∧ m = l.skipTrivia := by
  unfold next
  rw [hfailed, if_neg Bool.false_ne_true]
  dsimp only
  cases hrest : l.skipTrivia.rest with
  | nil => simp [eq_comm]
  | cons c rest =>
      cases htoken : l.skipTrivia.token c rest with
      | error e => simp [htoken]
      | ok answer => simp [htoken]

/-- The trivia in front of a token, and its text. -/
theorem next_takes {l m : Lexer} {x : Lexeme} (hsane : l.Sane) (h : l.next = (some (.ok x), m)) :
    l.skipTrivia.Takes x m := by
  obtain ⟨-, c, rest, k, hrest, htoken, rfl⟩ := next_eq_ok.1 h
  have hc := isTrivia_of_skipTrivia hrest
  obtain ⟨⟨text, hmoves, hspells, hspan⟩, hsane', hfailed, hskipped⟩ :=
    token_takes hrest hc (sane_skipTrivia hsane) htoken
  have hmoves' : l.skipTrivia.Moves text { k with events := .token x :: k.events } :=
    ⟨hmoves.rest, hmoves.offset, hmoves.line, hmoves.blocks, hmoves.parens⟩
  have hskipped' : skipped { k with events := .token x :: k.events } = k.skipped := by
    simp [skipped, LexEvent.skipped?]
  exact ⟨⟨text, hmoves', hspells, hspan⟩, hsane', hfailed, hskipped'.trans hskipped⟩

theorem next_length_lt {l m : Lexer} {x : Lexeme} (hsane : l.Sane)
    (h : l.next = (some (.ok x), m)) : m.rest.length < l.rest.length := by
  obtain ⟨text, hmoves, hspells, -⟩ := (next_takes hsane h).text
  have hlength := congrArg List.length (l.skipTrivia_moves.trans hmoves).rest
  rw [List.length_append, List.length_append] at hlength
  have hpos := List.length_pos_iff.2 hspells.ne_nil
  omega

/-! ## Runs -/

inductive Steps : Lexer → List Lexeme → Lexer → Prop
  | nil (l : Lexer) : Steps l [] l
  | cons {l m n : Lexer} {x : Lexeme} {xs : List Lexeme} (h : l.next = (some (.ok x), m))
      (hsteps : Steps m xs n) : Steps l (x :: xs) n

theorem Steps.append {l m n : Lexer} {xs ys : List Lexeme} (h : Steps l xs m)
    (h' : Steps m ys n) : Steps l (xs ++ ys) n := by
  induction h with
  | nil => exact h'
  | cons hnext _ ih => exact .cons hnext (ih h')

theorem Steps.sane {l m : Lexer} {xs : List Lexeme} (h : Steps l xs m) (hsane : l.Sane) :
    m.Sane := by
  induction h with
  | nil => exact hsane
  | cons hnext _ ih => exact ih (next_takes hsane hnext).sane

theorem Steps.spells {l m : Lexer} {xs : List Lexeme} (h : Steps l xs m) (hsane : l.Sane) :
    ∀ x ∈ xs, ∃ text, Spells text x.token := by
  induction h with
  | nil => simp
  | cons hnext _ ih =>
      obtain ⟨⟨text, -, hspells, -⟩, hsane', -⟩ := next_takes hsane hnext
      exact List.forall_mem_cons.2 ⟨⟨text, hspells⟩, ih hsane'⟩

theorem Steps.failed {l m : Lexer} {xs : List Lexeme} (h : Steps l xs m) (hsane : l.Sane) :
    m.failed = l.failed := by
  induction h with
  | nil => rfl
  | cons hnext _ ih =>
      have htakes := next_takes hsane hnext
      exact (ih htakes.sane).trans htakes.failed

theorem Steps.length_le {l m : Lexer} {xs : List Lexeme} (h : Steps l xs m) (hsane : l.Sane) :
    xs.length ≤ l.rest.length := by
  induction h with
  | nil => exact Nat.zero_le _
  | cons hnext _ ih =>
      have hlt := next_length_lt hsane hnext
      have hle := ih (next_takes hsane hnext).sane
      rw [List.length_cons]
      omega

theorem runFrom_of_steps {l m n : Lexer} {xs : List Lexeme} (h : Steps l xs m)
    (hend : m.next = (none, n)) {calls : Nat} (hcalls : xs.length < calls) (found : List Lexeme) :
    runFrom calls found l = .ok (found.reverse ++ xs) n := by
  induction h generalizing calls found with
  | nil l =>
      obtain ⟨calls, rfl⟩ := Nat.exists_eq_succ_of_ne_zero (Nat.ne_of_gt hcalls)
      rw [runFrom, hend, List.append_nil]
  | @cons l m n x xs hnext _ ih =>
      obtain ⟨calls, rfl⟩ := Nat.exists_eq_succ_of_ne_zero (Nat.ne_of_gt (Nat.zero_lt_of_lt hcalls))
      rw [runFrom, hnext]
      dsimp only
      rw [ih hend (Nat.lt_of_succ_lt_succ hcalls), List.reverse_cons, List.append_assoc]
      rfl

theorem exists_steps_of_runFrom {calls : Nat} {l : Lexer} (hsane : l.Sane)
    (hcalls : l.rest.length < calls) (found : List Lexeme) :
    ∃ xs m n, Steps l xs m ∧
      (m.next = (none, n) ∧ runFrom calls found l = .ok (found.reverse ++ xs) n ∨
        ∃ e, m.next = (some (.error e), n) ∧ runFrom calls found l = .error e n) := by
  induction calls generalizing l found with
  | zero => cases hcalls
  | succ calls ih =>
      rw [runFrom]
      split
      · next n hnext => exact ⟨[], l, n, .nil l, .inl ⟨hnext, by rw [List.append_nil]⟩⟩
      · next e n hnext => exact ⟨[], l, n, .nil l, .inr ⟨e, hnext, rfl⟩⟩
      · next x m hnext =>
          have hlt := next_length_lt hsane hnext
          obtain ⟨xs, k, n, hsteps, hend⟩ :=
            ih (next_takes hsane hnext).sane (by omega) (x :: found)
          rw [List.reverse_cons, List.append_assoc] at hend
          exact ⟨x :: xs, k, n, .cons hnext hsteps, hend⟩

/-- A run gives lexemes until `next` has no more, or fails. -/
theorem run_cases (source : String) :
    ∃ xs m n, Steps (ofString source) xs m ∧
      (m.next = (none, n) ∧ (ofString source).run = .ok xs n ∨
        ∃ e, m.next = (some (.error e), n) ∧ (ofString source).run = .error e n) :=
  exists_steps_of_runFrom (sane_of_not_loneDot rfl) (Nat.lt_succ_self _) []

end Lexer

theorem tokenize_eq_ok_iff {source : String} {lexemes : List Lexeme} :
    tokenize source = .ok lexemes ↔
      ∃ m n, Lexer.Steps (.ofString source) lexemes m ∧ m.next = (none, n) := by
  constructor
  · intro h
    obtain ⟨xs, m, n, hsteps, ⟨hend, hrun⟩ | ⟨e, -, hrun⟩⟩ := Lexer.run_cases source
    · rw [tokenize, hrun] at h
      cases h
      exact ⟨m, n, hsteps, hend⟩
    · rw [tokenize, hrun] at h
      cases h
  · rintro ⟨m, n, hsteps, hend⟩
    have hlength := hsteps.length_le (Lexer.sane_of_not_loneDot rfl)
    rw [tokenize, Lexer.run, Lexer.runFrom_of_steps hsteps hend (Nat.lt_succ_of_le hlength)]
    rfl

end Lila
