import Lila.Proofs.Token.Reading

/-! # Nesting of brackets

The lexer fails at a closing bracket that no bracket of its kind is open for, and
nowhere else. Its counters of open brackets say how far the text in front of it has
opened more brackets than it has closed. So the place of a failure can be told from
the text alone: it is the end of the shortest prefix that closes more brackets of a
kind than it opens.
-/

namespace Lila

namespace Lexer

/-! ## Failures -/

theorem number_ne_error {l : Lexer} {c : Char} {rest : List Char} (hl : l.rest = c :: rest)
    (hc : c.isDigit = true) (e : LexError) : l.number ≠ .error e := by
  have hparts := Literal.split_append l.rest
  have hwritten := (Literal.cut_split l.rest).written (hl.symm.trans hparts.symm) hc
  obtain ⟨value, hvalue⟩ := Option.isSome_iff_exists.1 hwritten.isSome_value?
  rw [number_run rfl hvalue]
  exact fun h => by cases h

/-- The lexer `l` has come to a closing bracket with no open one of its kind. -/
inductive Unopened (l : Lexer) : Char → LexError → Prop
  | block (h : l.openBlocks = 0) : Unopened l '}' ⟨.unopenedBlock, l.span ['}']⟩
  | paren (h : l.openParens = 0) : Unopened l ')' ⟨.unopenedParen, l.span [')']⟩

theorem delimiter_eq_error {l : Lexer} {c : Char} {rest : List Char} {e : LexError}
    (hdot : l.loneDot = false) (hc : isDelimiter c = true) (h : l.token c rest = .error e) :
    l.Unopened c e := by
  simp only [isDelimiter, Bool.or_eq_true, beq_iff_eq] at hc
  obtain (((rfl | rfl) | rfl) | rfl) | rfl := hc
  · rw [token_comma hdot] at h
    cases h
  · rw [token_blockOpen hdot] at h
    cases h
  · rw [token_blockClose hdot] at h
    cases hopen : l.openBlocks with
    | zero =>
        rw [hopen] at h
        cases h
        exact .block hopen
    | succ n =>
        rw [hopen] at h
        cases h
  · rw [token_parenOpen hdot] at h
    cases h
  · rw [token_parenClose hdot] at h
    cases hopen : l.openParens with
    | zero =>
        rw [hopen] at h
        cases h
        exact .paren hopen
    | succ n =>
        rw [hopen] at h
        cases h

theorem token_eq_error {l : Lexer} {c : Char} {rest : List Char} {e : LexError}
    (hl : l.rest = c :: rest) (hc : isTrivia c = false) (h : l.token c rest = .error e) :
    l.Unopened c e := by
  cases hdot : l.loneDot with
  | true =>
      rw [token_loneDot hdot] at h
      cases h
  | false =>
      rcases class_of_not_isTrivia hc with hdigit | halpha | hoperator | rfl | hdelimiter
      · rw [token_number hdot hdigit] at h
        exact (number_ne_error hl hdigit e h).elim
      · rw [token_word hdot halpha] at h
        cases h
      · rw [token_operator hdot hoperator] at h
        cases h
      · rw [token_newline hdot] at h
        cases h
      · exact delimiter_eq_error hdot hdelimiter h

theorem next_eq_error {l m : Lexer} {e : LexError} (h : l.next = (some (.error e), m)) :
    ∃ c rest, l.skipTrivia.rest = c :: rest ∧ l.skipTrivia.Unopened c e ∧
      m = { l.skipTrivia with failed := true } := by
  unfold next at h
  split at h
  · cases h
  · dsimp only at h
    split at h
    · cases h
    · next c rest hrest =>
        split at h
        · next e' htoken =>
            cases h
            exact ⟨c, rest, hrest, token_eq_error hrest (isTrivia_of_skipTrivia hrest) htoken, rfl⟩
        · cases h

end Lexer

/-! ## Brackets of a text -/

/-- The text closes more brackets of one kind than it opens. -/
def Premature (text : List Char) : Prop :=
  text.count '{' < text.count '}' ∨ text.count '(' < text.count ')'

/-- No part at the front of the text closes a bracket too early. -/
def Nested (text : List Char) : Prop := ∀ front, front <+: text → ¬ Premature front

theorem nested_nil : Nested [] := by
  intro front hfront
  rw [List.prefix_nil.1 hfront]
  simp [Premature]

theorem Nested.concat {text : List Char} (h : Nested text) {c : Char}
    (hc : ¬ Premature (text ++ [c])) : Nested (text ++ [c]) := by
  intro front hfront
  rcases List.prefix_concat_iff.1 hfront with rfl | hfront
  · exact hc
  · exact h front hfront

theorem premature_append {text more : List Char} (hmore : ∀ c ∈ more, isCounted c = false) :
    Premature (text ++ more) ↔ Premature text := by
  have hzero : ∀ c, isCounted c = true → (text ++ more).count c = text.count c := by
    intro c hc
    rw [List.count_append, count_eq_zero hmore hc, Nat.add_zero]
  unfold Premature
  rw [hzero '{' (by decide), hzero '}' (by decide), hzero '(' (by decide), hzero ')' (by decide)]

theorem Nested.append {text more : List Char} (h : Nested text)
    (hmore : ∀ c ∈ more, isCounted c = false) : Nested (text ++ more) := by
  induction more generalizing text with
  | nil => rwa [List.append_nil]
  | cons c more ih =>
      obtain ⟨hc, hmore⟩ := List.forall_mem_cons.1 hmore
      rw [List.append_cons]
      refine ih (h.concat ?_) hmore
      rw [premature_append (by simpa using hc)]
      exact h text (List.prefix_refl text)

/-- A token is one character, or has none in it that is counted. -/
theorem Spells.single_or_plain {text : List Char} {token : Token} (h : Spells text token) :
    (∃ c, text = [c]) ∨ ∀ c ∈ text, isCounted c = false := by
  cases h with
  | number h => exact .inr (Literal.written_of_value? h).isCounted_eq_false
  | word hfirst h =>
      have hletter : Uncounted Char.isAlpha := by decide
      exact .inr (hletter.cons (by decide) hfirst h)
  | operator hfirst h =>
      have hoperator : Uncounted isOperatorChar := by decide
      exact .inr (hoperator.cons hoperator hfirst h)
  | newline | comma | blockOpen | blockClose | parenOpen | parenClose => exact .inl ⟨_, rfl⟩

/-! ## Runs -/

namespace Lexer

def Nests (source : String) (l : Lexer) : Prop :=
  ∃ text, (ofString source).Moves text l ∧ Nested text

theorem Moves.not_premature {source : String} {text : List Char} {l : Lexer}
    (h : (ofString source).Moves text l) : ¬ Premature text := by
  have hblocks := h.blocks_eq
  have hparens := h.parens_eq
  unfold Premature
  omega

theorem nests_ofString (source : String) : (ofString source).Nests source :=
  ⟨[], .refl _, nested_nil⟩

theorem Nests.skipTrivia {source : String} {l : Lexer} (h : l.Nests source) :
    l.skipTrivia.Nests source := by
  obtain ⟨text, hmoves, hnested⟩ := h
  have htrivia : Uncounted isTrivia := by decide
  refine ⟨_, hmoves.trans l.skipTrivia_moves, hnested.append ?_⟩
  exact fun c hc => htrivia.isCounted_eq_false (List.mem_takeWhile_imp hc)

theorem Nests.takes {source : String} {l m : Lexer} {x : Lexeme} (h : l.Nests source)
    (htakes : l.Takes x m) : m.Nests source := by
  obtain ⟨text, hmoves, hnested⟩ := h
  obtain ⟨slice, hslice, hspells, -⟩ := htakes.text
  have hmoves' := hmoves.trans hslice
  refine ⟨text ++ slice, hmoves', ?_⟩
  rcases hspells.single_or_plain with ⟨c, rfl⟩ | hplain
  · exact hnested.concat hmoves'.not_premature
  · exact hnested.append hplain

theorem Steps.nests {source : String} {l m : Lexer} {xs : List Lexeme} (h : Steps l xs m)
    (hsane : l.Sane) (hl : l.Nests source) : m.Nests source := by
  induction h with
  | nil => exact hl
  | cons hnext _ ih =>
      have htakes := next_takes hsane hnext
      exact ih htakes.sane (hl.skipTrivia.takes htakes)

/-- A bracket that is not open is the first to be closed too early. -/
theorem Unopened.premature {source : String} {text : List Char} {l : Lexer} {c : Char}
    {e : LexError} (h : l.Unopened c e) (hmoves : (ofString source).Moves text l) :
    Premature (text ++ [c]) := by
  cases h with
  | block hopen =>
      have hblocks := hmoves.blocks_eq
      left
      simp only [List.count_append]
      show text.count '{' + 0 < text.count '}' + 1
      omega
  | paren hopen =>
      have hparens := hmoves.parens_eq
      right
      simp only [List.count_append]
      show text.count '(' + 0 < text.count ')' + 1
      omega

end Lexer

/-! ## Sources -/

/-- A run that ends without a failure has passed over the whole source. -/
theorem exists_steps_to_end {source : String} {lexemes : List Lexeme}
    (h : tokenize source = .ok lexemes) :
    ∃ m, Lexer.Steps (.ofString source) lexemes m ∧ m.failed = false ∧ m.skipTrivia.rest = [] ∧
      (Lexer.ofString source).Moves source.toList m.skipTrivia ∧ Nested source.toList := by
  obtain ⟨m, n, hsteps, hend⟩ := tokenize_eq_ok_iff.1 h
  have hsane : (Lexer.ofString source).Sane := Lexer.sane_of_not_loneDot rfl
  have hfailed : m.failed = false := hsteps.failed hsane
  have hrest : m.skipTrivia.rest = [] := ((Lexer.next_eq_none hfailed).1 hend).1
  have hnests := hsteps.nests hsane (Lexer.nests_ofString source)
  obtain ⟨text, hmoves, hnested⟩ := hnests.skipTrivia
  have htext : source.toList = text := by rw [hmoves.toList_eq, hrest, List.append_nil]
  rw [htext]
  exact ⟨m, hsteps, hfailed, hrest, hmoves, hnested⟩

theorem nested_of_tokenize {source : String} {lexemes : List Lexeme}
    (h : tokenize source = .ok lexemes) : Nested source.toList := by
  obtain ⟨-, -, -, -, -, hnested⟩ := exists_steps_to_end h
  exact hnested

/-- A failure is at the first bracket that is closed too early, and says of which kind
it is. -/
theorem exists_premature_of_tokenize {source : String} {e : LexError}
    (h : tokenize source = .error e) :
    ∃ before c, before ++ [c] <+: source.toList ∧ Nested before ∧ Premature (before ++ [c]) ∧
      e.span = ⟨byteLength before, byteLength before + 1, 1 + before.count '\n'⟩ ∧
      (c = '}' ∧ e.cause = .unopenedBlock ∨ c = ')' ∧ e.cause = .unopenedParen) := by
  obtain ⟨xs, m, n, hsteps, ⟨-, hrun⟩ | ⟨e', hend, hrun⟩⟩ := Lexer.run_cases source
  · rw [tokenize, hrun] at h
    cases h
  · rw [tokenize, hrun] at h
    cases h
    have hsane : (Lexer.ofString source).Sane := Lexer.sane_of_not_loneDot rfl
    have hnests := hsteps.nests hsane (Lexer.nests_ofString source)
    obtain ⟨text, hmoves, hnested⟩ := hnests.skipTrivia
    obtain ⟨c, rest, hrest, hunopened, -⟩ := Lexer.next_eq_error hend
    have hsource := hmoves.toList_eq
    rw [hrest, List.append_cons] at hsource
    refine ⟨text, c, ⟨rest, hsource.symm⟩, hnested, hunopened.premature hmoves, ?_, ?_⟩
    · rw [← hmoves.offset_eq, ← hmoves.line_eq]
      cases hunopened with
      | block => rfl
      | paren => rfl
    · cases hunopened with
      | block => exact .inl ⟨rfl, rfl⟩
      | paren => exact .inr ⟨rfl, rfl⟩

/-- A source has no tokens exactly if some part at its front closes more brackets of a
kind than it opens. The failure is at the last character of the shortest such part, and
its message tells the kind of the bracket. -/
theorem tokenize_fails_at_first_premature (source : String) :
    ((∃ e, tokenize source = .error e) ↔ ∃ front, front <+: source.toList ∧ Premature front) ∧
    ∀ e, tokenize source = .error e →
      ∃ before c, before ++ [c] <+: source.toList ∧ Premature (before ++ [c]) ∧
        (∀ front, front <+: source.toList → Premature front →
          (before ++ [c]).length ≤ front.length) ∧
        e.span = ⟨byteLength before, byteLength before + 1, 1 + before.count '\n'⟩ ∧
        (c = '}' ∧ e.cause = .unopenedBlock ∧ e.message = "closing block when none is open" ∨
          c = ')' ∧ e.cause = .unopenedParen ∧ e.message = "closing parens when none is open") := by
  constructor
  · constructor
    · rintro ⟨e, he⟩
      obtain ⟨before, c, hprefix, -, hpremature, -⟩ := exists_premature_of_tokenize he
      exact ⟨before ++ [c], hprefix, hpremature⟩
    · rintro ⟨front, hfront, hpremature⟩
      cases htokens : tokenize source with
      | error e => exact ⟨e, rfl⟩
      | ok lexemes => exact (nested_of_tokenize htokens front hfront hpremature).elim
  · intro e he
    obtain ⟨before, c, hprefix, hnested, hpremature, hspan, hcause⟩ :=
      exists_premature_of_tokenize he
    refine ⟨before, c, hprefix, hpremature, ?_, hspan, ?_⟩
    · intro front hfront hfront'
      by_contra hlength
      have hshorter : front <+: before ++ [c] :=
        List.prefix_of_prefix_length_le hfront hprefix (by omega)
      rcases List.prefix_concat_iff.1 hshorter with rfl | hbefore
      · exact hlength (Nat.le_refl _)
      · exact hnested front hbefore hfront'
    · unfold LexError.message
      rcases hcause with ⟨hc, hcause⟩ | ⟨hc, hcause⟩
      · exact .inl ⟨hc, hcause, by rw [hcause]⟩
      · exact .inr ⟨hc, hcause, by rw [hcause]⟩

/-- The parenthesis is left open, and the point behind the literal is a token, before
the brace closes nothing on the second line. -/
theorem tokenize_fails_behind_open_paren :
    tokenize "(1.\n\x7d" = .error ⟨.unopenedBlock, ⟨4, 5, 2⟩⟩ ∧
      ∃ before c, before ++ [c] <+: "(1.\n\x7d".toList ∧ Premature (before ++ [c]) ∧
        byteLength before = 4 ∧ 1 + before.count '\n' = 2 := by
  have h : tokenize "(1.\n\x7d" = .error ⟨.unopenedBlock, ⟨4, 5, 2⟩⟩ := rfl
  obtain ⟨before, c, hprefix, hpremature, -, hspan, -⟩ :=
    (tokenize_fails_at_first_premature _).2 _ h
  obtain ⟨hlo, -, hline⟩ := Span.mk.inj hspan
  exact ⟨h, before, c, hprefix, hpremature, hlo.symm, hline.symm⟩

end Lila
