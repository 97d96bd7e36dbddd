import Lila.Proofs.Token.Nesting

/-! # Sources joined by a line break

A line break ends every other token, and of what is in front of it the lexer keeps the
offset, the line and the counts of open brackets only. These decide nothing about the
tokens of a source that has tokens by itself; they only move the places of the tokens. So
a source behind another one, on a new line, is read as it is read alone.
-/

namespace Lila

/-! ## Places -/

/-- What is in front of a text in a longer source: bytes, lines, and open brackets of
both kinds. -/
structure Shift where
  bytes : Nat := 0
  lines : Nat := 0
  blocks : Nat := 0
  parens : Nat := 0

def Span.moved (bytes lines : Nat) (span : Span) : Span :=
  ⟨span.lo + bytes, span.hi + bytes, span.line + lines⟩

def Lexeme.moved (bytes lines : Nat) (x : Lexeme) : Lexeme :=
  ⟨x.span.moved bytes lines, x.token⟩

theorem map_moved_zero (xs : List Lexeme) : xs.map (Lexeme.moved 0 0) = xs := List.map_id xs

/-! ## Breaks -/

/-- The text is empty or starts with a line break or a bracket, which ends every token in
front of it. -/
def Breaks (more : List Char) : Prop := ∀ c ∈ more.head?, isCounted c = true

theorem breaks_nil : Breaks [] := by
  intro c hc
  cases hc

theorem breaks_cons {c : Char} (hc : isCounted c = true) (text : List Char) :
    Breaks (c :: text) := by
  intro d hd
  rwa [← Option.some.inj hd]

theorem Breaks.ends {p : Char → Bool} {more : List Char} (h : Breaks more) (hp : Uncounted p) :
    Ends p more := by
  intro c hc
  cases hpc : p c with
  | false => rfl
  | true =>
      have hcounted := h c hc
      rw [hp.isCounted_eq_false hpc] at hcounted
      cases hcounted

theorem Breaks.head_ne {more : List Char} (h : Breaks more) : more.head? ≠ some '.' := by
  intro hhead
  have hpoint := h '.' hhead
  revert hpoint
  decide

theorem Ends.takeWhile_append {p : Char → Bool} {more : List Char} (h : Ends p more)
    (text : List Char) : (text ++ more).takeWhile p = text.takeWhile p := by
  have hends : Ends p (text.dropWhile p ++ more) := (ends_dropWhile p text).append fun _ => h
  have hall : ∀ c ∈ text.takeWhile p, p c = true := fun _ => List.mem_takeWhile_imp
  have hrun := takeWhile_run hall hends
  rwa [← List.append_assoc, List.takeWhile_append_dropWhile] at hrun

theorem Ends.dropWhile_append {p : Char → Bool} {more : List Char} (h : Ends p more)
    (text : List Char) : (text ++ more).dropWhile p = text.dropWhile p ++ more := by
  have hends : Ends p (text.dropWhile p ++ more) := (ends_dropWhile p text).append fun _ => h
  have hall : ∀ c ∈ text.takeWhile p, p c = true := fun _ => List.mem_takeWhile_imp
  have hrun := dropWhile_run hall hends
  rwa [← List.append_assoc, List.takeWhile_append_dropWhile] at hrun

theorem Breaks.split {more : List Char} (h : Breaks more) (text : List Char) :
    Literal.split (text ++ more) = ((Literal.split text).1, (Literal.split text).2 ++ more) := by
  have hcut := (Literal.cut_split text).append (h.ends (by decide)) h.head_ne
  have hsplit := hcut.split
  rwa [← List.append_assoc, Literal.split_append] at hsplit

namespace Lexer

/-! ## Lexers at the same text -/

/-- The second lexer is at the text of the first one, with `shift` in front of where that
one has started, and with `more` behind the text. What the two have noted may differ. -/
structure Shifted (shift : Shift) (more : List Char) (l l' : Lexer) : Prop where
  rest : l'.rest = l.rest ++ more
  offset : l'.offset = l.offset + shift.bytes
  line : l'.line = l.line + shift.lines
  blocks : l'.openBlocks = l.openBlocks + shift.blocks
  parens : l'.openParens = l.openParens + shift.parens
  loneDot : l'.loneDot = l.loneDot
  failed : l'.failed = l.failed

structure ShiftedAnswer (shift : Shift) (more : List Char) (a a' : Lexeme × Lexer) : Prop where
  lexeme : a'.1 = a.1.moved shift.bytes shift.lines
  lexer : Shifted shift more a.2 a'.2

namespace Shifted

variable {shift : Shift} {more rest : List Char} {l l' m : Lexer} {c : Char}
  {a : Lexeme × Lexer} {x : Lexeme} {xs : List Lexeme}

theorem emit (h : Shifted shift more l l') (token : Token) (text rest : List Char) :
    ShiftedAnswer shift more (l.emit token text rest) (l'.emit token text (rest ++ more)) := by
  constructor
  · simp only [Lexer.emit, span, Lexeme.moved, Span.moved, h.offset, h.line,
      Nat.add_right_comm _ shift.bytes]
  · refine ⟨rfl, ?_, h.line, h.blocks, h.parens, rfl, h.failed⟩
    simp only [Lexer.emit, h.offset, Nat.add_right_comm _ shift.bytes]

theorem runOf (h : Shifted shift more l l') {p : Char → Bool} (hends : Ends p more)
    (token : List Char → Token) :
    ShiftedAnswer shift more (l.runOf p token) (l'.runOf p token) := by
  unfold Lexer.runOf
  rw [h.rest, hends.takeWhile_append, hends.dropWhile_append]
  exact h.emit _ _ _

theorem number (h : Shifted shift more l l') (hmore : Breaks more) (ha : l.number = .ok a) :
    ∃ a', l'.number = .ok a' ∧ ShiftedAnswer shift more a a' := by
  obtain ⟨x, k⟩ := a
  obtain ⟨text, rest, value, hsplit, hvalue, -, -⟩ := exists_split_of_number ha
  have hsplit' : Literal.split l'.rest = (text, rest ++ more) := by
    rw [h.rest, hmore.split, hsplit]
  -- To set a point aside the lexer looks at what is behind the literal, which can be `more`.
  have hpoint : ((rest ++ more).head? == some '.') = (rest.head? == some '.') := by
    cases rest with
    | nil => exact beq_eq_false_iff_ne.2 hmore.head_ne
    | cons d rest => rfl
  rw [number_run hsplit hvalue] at ha
  cases ha
  obtain ⟨hlexeme, hlexer⟩ := h.emit (.number value) text rest
  refine ⟨_, number_run hsplit' hvalue, hlexeme, ?_⟩
  refine ⟨hlexer.rest, hlexer.offset, hlexer.line, hlexer.blocks, hlexer.parens, ?_, hlexer.failed⟩
  exact congrArg (!text.contains '.' && ·) hpoint

/-- Brackets that the first lexer finds open are open for the second one. -/
theorem delimiter (h : Shifted shift more l l') (hdot : l.loneDot = false)
    (hc : isDelimiter c = true) (ha : l.token c rest = .ok a) :
    ∃ a', l'.token c (rest ++ more) = .ok a' ∧ ShiftedAnswer shift more a a' := by
  have hdot' : l'.loneDot = false := h.loneDot.trans hdot
  have hblocks := h.blocks
  have hparens := h.parens
  simp only [isDelimiter, Bool.or_eq_true, beq_iff_eq] at hc
  -- Only a closing bracket depends on a count, and one that is positive is so with `shift`.
  obtain (((rfl | rfl) | rfl) | rfl) | rfl := hc
  · rw [token_comma hdot] at ha
    cases ha
    exact ⟨_, token_comma hdot', h.emit _ _ _⟩
  · rw [token_blockOpen hdot] at ha
    cases ha
    refine ⟨_, token_blockOpen hdot', emit ?_ _ _ _⟩
    exact ⟨h.rest, h.offset, h.line, by dsimp only; omega, h.parens, h.loneDot, h.failed⟩
  · rw [token_blockClose hdot] at ha
    cases hopen : l.openBlocks with
    | zero =>
        rw [hopen] at ha
        cases ha
    | succ n =>
        rw [hopen] at ha
        cases ha
        have hopen' : l'.openBlocks = n + shift.blocks + 1 := by omega
        rw [token_blockClose hdot', hopen']
        refine ⟨_, rfl, emit ?_ _ _ _⟩
        exact ⟨h.rest, h.offset, h.line, rfl, h.parens, h.loneDot, h.failed⟩
  · rw [token_parenOpen hdot] at ha
    cases ha
    refine ⟨_, token_parenOpen hdot', emit ?_ _ _ _⟩
    exact ⟨h.rest, h.offset, h.line, h.blocks, by dsimp only; omega, h.loneDot, h.failed⟩
  · rw [token_parenClose hdot] at ha
    cases hopen : l.openParens with
    | zero =>
        rw [hopen] at ha
        cases ha
    | succ n =>
        rw [hopen] at ha
        cases ha
        have hopen' : l'.openParens = n + shift.parens + 1 := by omega
        rw [token_parenClose hdot', hopen']
        refine ⟨_, rfl, emit ?_ _ _ _⟩
        exact ⟨h.rest, h.offset, h.line, h.blocks, rfl, h.loneDot, h.failed⟩

theorem token (h : Shifted shift more l l') (hmore : Breaks more) (hc : isTrivia c = false)
    (ha : l.token c rest = .ok a) :
    ∃ a', l'.token c (rest ++ more) = .ok a' ∧ ShiftedAnswer shift more a a' := by
  cases hdot : l.loneDot with
  | true =>
      have hdot' : l'.loneDot = true := h.loneDot.trans hdot
      rw [token_loneDot hdot] at ha
      cases ha
      exact ⟨_, token_loneDot hdot', h.emit _ _ _⟩
  | false =>
      have hdot' : l'.loneDot = false := h.loneDot.trans hdot
      rcases class_of_not_isTrivia hc with hdigit | halpha | hoperator | rfl | hdelimiter
      · rw [token_number hdot hdigit] at ha
        rw [token_number hdot' hdigit]
        exact h.number hmore ha
      · rw [token_word hdot halpha] at ha
        cases ha
        exact ⟨_, token_word hdot' halpha, h.runOf (hmore.ends (by decide)) wordToken⟩
      · rw [token_operator hdot hoperator] at ha
        cases ha
        exact ⟨_, token_operator hdot' hoperator, h.runOf (hmore.ends (by decide)) operatorToken⟩
      · rw [token_newline hdot] at ha
        cases ha
        obtain ⟨hlexeme, hlexer⟩ := h.emit .newline ['\n'] rest
        refine ⟨_, token_newline hdot', hlexeme, ?_⟩
        refine ⟨hlexer.rest, hlexer.offset, ?_, hlexer.blocks, hlexer.parens, rfl, hlexer.failed⟩
        dsimp only
        rw [h.line, Nat.add_right_comm]
      · exact h.delimiter hdot hdelimiter ha

theorem skipTrivia (h : Shifted shift more l l') (hmore : Breaks more) :
    Shifted shift more l.skipTrivia l'.skipTrivia := by
  have hends : Ends isTrivia more := hmore.ends (by decide)
  refine ⟨?_, ?_, h.line, h.blocks, h.parens, h.loneDot, h.failed⟩
  · show l'.rest.dropWhile isTrivia = l.rest.dropWhile isTrivia ++ more
    rw [h.rest, hends.dropWhile_append]
  · show l'.offset + byteLength (l'.rest.takeWhile isTrivia) =
      l.offset + byteLength (l.rest.takeWhile isTrivia) + shift.bytes
    rw [h.rest, hends.takeWhile_append, h.offset, Nat.add_right_comm]

/-! ## Runs at the same text -/

theorem next (h : Shifted shift more l l') (hmore : Breaks more)
    (hnext : l.next = (some (.ok x), m)) :
    ∃ m', l'.next = (some (.ok (x.moved shift.bytes shift.lines)), m') ∧
      Shifted shift more m m' := by
  obtain ⟨hfailed, c, rest, k, hrest, htoken, rfl⟩ := next_eq_ok.1 hnext
  have hskip := h.skipTrivia hmore
  obtain ⟨⟨x', k'⟩, htoken', rfl, hk⟩ := hskip.token hmore (isTrivia_of_skipTrivia hrest) htoken
  have hrest' : l'.skipTrivia.rest = c :: (rest ++ more) := by
    rw [hskip.rest, hrest, List.cons_append]
  refine ⟨_, next_eq_ok.2 ⟨h.failed.trans hfailed, c, _, k', hrest', htoken', rfl⟩, ?_⟩
  exact ⟨hk.rest, hk.offset, hk.line, hk.blocks, hk.parens, hk.loneDot, hk.failed⟩

theorem steps (h : Shifted shift more l l') (hmore : Breaks more) (hsteps : Steps l xs m) :
    ∃ m', Steps l' (xs.map (Lexeme.moved shift.bytes shift.lines)) m' ∧
      Shifted shift more m m' := by
  induction hsteps generalizing l' with
  | nil => exact ⟨l', .nil l', h⟩
  | cons hnext _ ih =>
      obtain ⟨k', hnext', hk⟩ := h.next hmore hnext
      obtain ⟨m', hsteps', hm⟩ := ih hk
      exact ⟨m', .cons hnext' hsteps', hm⟩

end Shifted

/-- At the end of a text there is no point to come back to. -/
theorem Sane.loneDot_at_end {l : Lexer} (h : l.Sane) (hrest : l.skipTrivia.rest = []) :
    l.loneDot = false := by
  cases hdot : l.loneDot with
  | false => rfl
  | true =>
      have hhead := sane_skipTrivia h hdot
      rw [hrest] at hhead
      cases hhead

/-- Behind a line break a lexer is where one that starts at the next line is. -/
theorem exists_next_newline {l : Lexer} {b : String} (hfailed : l.failed = false)
    (hdot : l.loneDot = false) (hrest : l.skipTrivia.rest = '\n' :: b.toList) :
    ∃ m, l.next =
        (some (.ok ⟨⟨l.skipTrivia.offset, l.skipTrivia.offset + 1, l.line⟩, .newline⟩), m) ∧
      Shifted ⟨l.skipTrivia.offset + 1, l.line, m.openBlocks, m.openParens⟩ []
        (.ofString b) m := by
  have hdot' : l.skipTrivia.loneDot = false := hdot
  refine ⟨_, next_eq_ok.2 ⟨hfailed, _, _, _, hrest, token_newline hdot', rfl⟩, ?_⟩
  exact ⟨(List.append_nil b.toList).symm, (Nat.zero_add _).symm, Nat.add_comm l.line 1,
    (Nat.zero_add _).symm, (Nat.zero_add _).symm, rfl, hfailed⟩

end Lexer

/-! ## Sources -/

/-- Behind the first source and a line break the lexer is at the second source, as if it
had been started there. -/
theorem exists_steps_over_line {a : String} {xs : List Lexeme} (ha : tokenize a = .ok xs)
    (b : String) :
    ∃ m, Lexer.Steps (.ofString (a ++ "\n" ++ b)) (xs ++
        [⟨⟨byteLength a.toList, byteLength a.toList + 1, a.toList.count '\n' + 1⟩, .newline⟩]) m ∧
      Lexer.Shifted ⟨byteLength a.toList + 1, a.toList.count '\n' + 1, m.openBlocks, m.openParens⟩
        [] (.ofString b) m := by
  obtain ⟨k, hsteps, hfailed, hrest, hmoves, -⟩ := exists_steps_to_end ha
  have hsane : k.Sane := hsteps.sane (Lexer.sane_of_not_loneDot rfl)
  have hdot : k.loneDot = false := hsane.loneDot_at_end hrest
  have hline : Breaks ('\n' :: b.toList) := breaks_cons (by decide) b.toList
  have htext : (a ++ "\n" ++ b).toList = a.toList ++ '\n' :: b.toList := by
    rw [String.toList_append, String.toList_append, List.append_assoc]
    rfl
  have hstart : Lexer.Shifted {} ('\n' :: b.toList) (.ofString a) (.ofString (a ++ "\n" ++ b)) :=
    ⟨htext, rfl, rfl, rfl, rfl, rfl, rfl⟩
  obtain ⟨k', hsteps', hk⟩ := hstart.steps hline hsteps
  rw [map_moved_zero] at hsteps'
  have hskip := hk.skipTrivia hline
  have hbreak : k'.skipTrivia.rest = '\n' :: b.toList := by rw [hskip.rest, hrest, List.nil_append]
  obtain ⟨m, hnext, hm⟩ :=
    Lexer.exists_next_newline (hk.failed.trans hfailed) (hk.loneDot.trans hdot) hbreak
  have hoffset : k'.skipTrivia.offset = byteLength a.toList := hskip.offset.trans hmoves.offset_eq
  have hlines : k'.line = a.toList.count '\n' + 1 := by
    rw [Nat.add_comm, ← hmoves.line_eq]
    exact hk.line
  rw [hoffset, hlines] at hnext hm
  exact ⟨m, hsteps'.append (.cons hnext (.nil m)), hm⟩

/-- Two sources that have tokens, with a line break between them, have the tokens of the
first one, the line break, and the tokens of the second one. Those are further on by the
bytes and the lines in front of them. -/
theorem tokenize_append_line {a b : String} {xs ys : List Lexeme} (ha : tokenize a = .ok xs)
    (hb : tokenize b = .ok ys) :
    tokenize (a ++ "\n" ++ b) = .ok (xs ++
      [⟨⟨byteLength a.toList, byteLength a.toList + 1, a.toList.count '\n' + 1⟩, .newline⟩] ++
      ys.map (Lexeme.moved (byteLength a.toList + 1) (a.toList.count '\n' + 1))) := by
  obtain ⟨m, hsteps, hm⟩ := exists_steps_over_line ha b
  obtain ⟨k, hsteps', hfailed, hrest, -, -⟩ := exists_steps_to_end hb
  obtain ⟨n, hmore, hn⟩ := hm.steps breaks_nil hsteps'
  have hend : n.skipTrivia.rest = [] := by
    rw [(hn.skipTrivia breaks_nil).rest, hrest, List.nil_append]
  have hnone := (Lexer.next_eq_none (hn.failed.trans hfailed)).2 ⟨hend, rfl⟩
  exact tokenize_eq_ok_iff.2 ⟨n, _, hsteps.append hmore, hnone⟩

/-- The first source leaves two brackets open and ends with a literal and a lone point; the
second one starts with a point. -/
theorem tokenize_append_line_unclosed :
    tokenize "(\x7bé\n1." = .ok [⟨⟨0, 1, 1⟩, .parenOpen⟩, ⟨⟨1, 2, 1⟩, .blockOpen⟩,
      ⟨⟨4, 5, 1⟩, .newline⟩, ⟨⟨5, 6, 2⟩, .number (.ofRatio 1 1)⟩, ⟨⟨6, 7, 2⟩, .binop "."⟩] ∧
    tokenize ".+(5)" = .ok [⟨⟨0, 2, 1⟩, .binop ".+"⟩, ⟨⟨2, 3, 1⟩, .parenOpen⟩,
      ⟨⟨3, 4, 1⟩, .number (.ofRatio 5 1)⟩, ⟨⟨4, 5, 1⟩, .parenClose⟩] ∧
    tokenize "(\x7bé\n1.\n.+(5)" = .ok [⟨⟨0, 1, 1⟩, .parenOpen⟩, ⟨⟨1, 2, 1⟩, .blockOpen⟩,
      ⟨⟨4, 5, 1⟩, .newline⟩, ⟨⟨5, 6, 2⟩, .number (.ofRatio 1 1)⟩, ⟨⟨6, 7, 2⟩, .binop "."⟩,
      ⟨⟨7, 8, 2⟩, .newline⟩, ⟨⟨8, 10, 3⟩, .binop ".+"⟩, ⟨⟨10, 11, 3⟩, .parenOpen⟩,
      ⟨⟨11, 12, 3⟩, .number (.ofRatio 5 1)⟩, ⟨⟨12, 13, 3⟩, .parenClose⟩] := by
  refine ⟨?first, ?second, tokenize_append_line ?first ?second⟩
  case first => rfl
  case second => rfl

end Lila
