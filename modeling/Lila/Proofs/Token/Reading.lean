import Lila.Proofs.Token.Steps

/-! # Reading a text back

How the lexer goes through a text that is put together from tokens and blanks,
whatever its position in the source. A word, an operator and a literal each end
where the next character cannot be part of them, which is asked of the text behind.
-/

namespace Lila

/-- Neither a word nor an operator nor a literal can go on with the text. -/
def Apart (more : List Char) : Prop := Ends (fun c => c.isAlphanum || isOperatorChar c) more

namespace Apart

variable {more : List Char}

theorem alphanum (h : Apart more) : Ends Char.isAlphanum more :=
  h.imp fun _ hc => (Bool.or_eq_false_iff.1 hc).1

theorem operator (h : Apart more) : Ends isOperatorChar more :=
  h.imp fun _ hc => (Bool.or_eq_false_iff.1 hc).2

theorem digit (h : Apart more) : Ends Char.isDigit more :=
  h.alphanum.imp fun _ hc => (Bool.or_eq_false_iff.1 hc).2

theorem head_ne (h : Apart more) : more.head? ≠ some '.' := by
  intro hpoint
  have hclass := h '.' hpoint
  revert hclass
  decide

end Apart

namespace Lexer

/-! ## Reading on -/

theorem skipTrivia_of_ends {l : Lexer} (h : Ends isTrivia l.rest) : l.skipTrivia = l := by
  have hnone : ∀ c ∈ ([] : List Char), isTrivia c = true := by simp
  have htake : l.rest.takeWhile isTrivia = [] := takeWhile_run hnone h
  have hdrop : l.rest.dropWhile isTrivia = l.rest := dropWhile_run hnone h
  unfold skipTrivia
  rw [htake, hdrop]
  rfl

/-- The lexer has come to the text, with trivia in front of it at most. -/
structure At (l : Lexer) (text : List Char) : Prop where
  failed : l.failed = false
  loneDot : l.loneDot = false
  rest : ∃ trivia, (∀ c ∈ trivia, isTrivia c = true) ∧ l.rest = trivia ++ text

theorem at_ofString (source : String) : (ofString source).At source.toList :=
  ⟨rfl, rfl, [], by simp, rfl⟩

theorem At.skipTrivia {l : Lexer} {c : Char} {text : List Char} (h : l.At (c :: text))
    (hc : isTrivia c = false) : l.skipTrivia.rest = c :: text := by
  obtain ⟨trivia, htrivia, hrest⟩ := h.rest
  show l.rest.dropWhile isTrivia = c :: text
  rw [hrest]
  exact dropWhile_run htrivia (ends_cons.2 hc)

theorem At.next {l k : Lexer} {c : Char} {text : List Char} {x : Lexeme} (h : l.At (c :: text))
    (hc : isTrivia c = false) (htoken : l.skipTrivia.token c text = .ok (x, k)) :
    l.next = (some (.ok x), { k with events := .token x :: k.events }) :=
  next_eq_ok.2 ⟨h.failed, c, text, k, h.skipTrivia hc, htoken, rfl⟩

theorem At.next_none {l : Lexer} (h : l.At []) : l.next = (none, l.skipTrivia) := by
  obtain ⟨trivia, htrivia, hrest⟩ := h.rest
  refine (next_eq_none h.failed).2 ⟨?_, rfl⟩
  show l.rest.dropWhile isTrivia = []
  rw [hrest]
  exact dropWhile_run htrivia (ends_nil _)

def opens (l : Lexer) : Nat × Nat := (l.openBlocks, l.openParens)

/-- With the other text behind it, the text is read as the tokens, and leaves as many
brackets open as it has found. -/
def Reads (text : List Char) (tokens : List Token) (more : List Char) : Prop :=
  ∀ l : Lexer, l.At (text ++ more) →
    ∃ xs m, Steps l xs m ∧ xs.map Lexeme.token = tokens ∧ m.At more ∧ m.opens = l.opens

theorem reads_nil (more : List Char) : Reads [] [] more :=
  fun l hl => ⟨[], l, .nil l, rfl, hl, rfl⟩

theorem Reads.append {text text' more : List Char} {tokens tokens' : List Token}
    (h : Reads text tokens (text' ++ more)) (h' : Reads text' tokens' more) :
    Reads (text ++ text') (tokens ++ tokens') more := by
  intro l hl
  rw [List.append_assoc] at hl
  obtain ⟨xs, m, hsteps, rfl, hm, hopens⟩ := h l hl
  obtain ⟨ys, n, hsteps', rfl, hn, hopens'⟩ := h' m hm
  exact ⟨xs ++ ys, n, hsteps.append hsteps', List.map_append, hn, hopens'.trans hopens⟩

theorem reads_trivia {text : List Char} (htext : ∀ c ∈ text, isTrivia c = true)
    (more : List Char) : Reads text [] more := by
  intro l hl
  obtain ⟨trivia, htrivia, hrest⟩ := hl.rest
  refine ⟨[], l, .nil l, rfl, ⟨hl.failed, hl.loneDot, trivia ++ text, ?_, ?_⟩, rfl⟩
  · exact fun c hc => (List.mem_append.1 hc).elim (htrivia c) (htext c)
  · rw [hrest, List.append_assoc]

def Advances (l : Lexer) (token : Token) (more : List Char) (opens : Nat × Nat) : Prop :=
  ∃ x m, l.next = (some (.ok x), m) ∧ x.token = token ∧ m.At more ∧ m.opens = opens

theorem At.advances {l k : Lexer} {c : Char} {text more : List Char} {x : Lexeme}
    (h : l.At (c :: text)) (hc : isTrivia c = false)
    (htoken : l.skipTrivia.token c text = .ok (x, k)) (hrest : k.rest = more)
    (hdot : k.loneDot = false) (hfailed : k.failed = l.failed) :
    l.Advances x.token more k.opens :=
  ⟨x, _, h.next hc htoken, rfl, ⟨hfailed.trans h.failed, hdot, [], by simp, hrest⟩, rfl⟩

/-- One token that opens and closes no bracket. -/
theorem reads_of_advances {text more : List Char} {token : Token}
    (h : ∀ l : Lexer, l.At (text ++ more) → l.Advances token more l.opens) :
    Reads text [token] more := by
  intro l hl
  obtain ⟨x, m, hnext, rfl, hm, hopens⟩ := h l hl
  exact ⟨[x], m, .cons hnext (.nil m), rfl, hm, hopens⟩

/-- A text in brackets, if the lexer keeps count of them. -/
theorem Reads.between {o c : Char} {opening closing : Token} {text more : List Char}
    {tokens : List Token} (h : Reads text tokens (c :: more)) (deeper : Nat × Nat → Nat × Nat)
    (hopen : ∀ (l : Lexer) (rest : List Char), l.At (o :: rest) →
      l.Advances opening rest (deeper l.opens))
    (hclose : ∀ (l : Lexer) (opens : Nat × Nat), l.At (c :: more) → l.opens = deeper opens →
      l.Advances closing more opens) :
    Reads (o :: text ++ [c]) (opening :: tokens ++ [closing]) more := by
  intro l hl
  rw [List.append_assoc] at hl
  obtain ⟨x, m, hnext, rfl, hm, hopens⟩ := hopen l _ hl
  obtain ⟨xs, n, hsteps, rfl, hn, hopens'⟩ := h m hm
  obtain ⟨y, k, hnext', rfl, hk, hopens''⟩ := hclose n _ hn (hopens'.trans hopens)
  refine ⟨x :: xs ++ [y], k, ?_, ?_, hk, hopens''⟩
  · exact .cons hnext (hsteps.append (.cons hnext' (.nil k)))
  · rw [List.map_append, List.map_cons]
    rfl

theorem reads_comma (more : List Char) : Reads [','] [.comma] more :=
  reads_of_advances fun _ hl =>
    hl.advances (by decide) (token_comma hl.loneDot) rfl rfl rfl

theorem reads_newline (more : List Char) : Reads ['\n'] [.newline] more :=
  reads_of_advances fun _ hl =>
    hl.advances (by decide) (token_newline hl.loneDot) rfl rfl rfl

theorem runOf_run {l : Lexer} {p : Char → Bool} {token : List Char → Token} {text more : List Char}
    (hl : l.rest = text ++ more) (htext : ∀ c ∈ text, p c = true) (hmore : Ends p more) :
    l.runOf p token = l.emit (token text) text more := by
  rw [runOf, hl, takeWhile_run htext hmore, dropWhile_run htext hmore]

/-- A token that is the longest run of characters of a class. -/
theorem reads_run {p : Char → Bool} {token : List Char → Token} {c : Char} {text more : List Char}
    (hc : isTrivia c = false)
    (htoken : ∀ (l : Lexer) (rest : List Char), l.loneDot = false →
      l.token c rest = .ok (l.runOf p token))
    (hfirst : p c = true) (htext : ∀ c ∈ text, p c = true) (hmore : Ends p more) :
    Reads (c :: text) [token (c :: text)] more := by
  refine reads_of_advances fun l hl => ?_
  have hrun := htoken l.skipTrivia (text ++ more) hl.loneDot
  rw [runOf_run (hl.skipTrivia hc) (List.forall_mem_cons.2 ⟨hfirst, htext⟩) hmore] at hrun
  exact hl.advances hc hrun rfl rfl rfl

theorem reads_word {c : Char} {text more : List Char} (hc : c.isAlpha = true)
    (htext : ∀ c ∈ text, c.isAlphanum = true) (hmore : Ends Char.isAlphanum more) :
    Reads (c :: text) [wordToken (c :: text)] more := by
  have hfirst : c.isAlphanum = true := by rw [Char.isAlphanum, hc, Bool.true_or]
  exact reads_run (not_isTrivia_of_isAlphanum hfirst) (fun _ _ hdot => token_word hdot hc) hfirst
    htext hmore

theorem reads_operator {c : Char} {text more : List Char} (hc : isOperatorChar c = true)
    (htext : ∀ c ∈ text, isOperatorChar c = true) (hmore : Ends isOperatorChar more) :
    Reads (c :: text) [operatorToken (c :: text)] more :=
  reads_run (not_isTrivia_of_isPunctuation (Bool.and_eq_true_iff.1 hc).1)
    (fun _ _ hdot => token_operator hdot hc) hc htext hmore

section Brackets

variable {l : Lexer} {more : List Char} {n : Nat}

theorem At.parenOpen (h : l.At ('(' :: more)) :
    l.Advances .parenOpen more (l.openBlocks, l.openParens + 1) :=
  h.advances (by decide) (token_parenOpen h.loneDot) rfl rfl rfl

theorem At.blockOpen (h : l.At ('{' :: more)) :
    l.Advances .blockOpen more (l.openBlocks + 1, l.openParens) :=
  h.advances (by decide) (token_blockOpen h.loneDot) rfl rfl rfl

theorem At.parenClose (h : l.At (')' :: more)) (hopen : l.openParens = n + 1) :
    l.Advances .parenClose more (l.openBlocks, n) := by
  have htoken : l.skipTrivia.token ')' more = _ := token_parenClose h.loneDot
  rw [show l.skipTrivia.openParens = n + 1 from hopen] at htoken
  exact h.advances (by decide) htoken rfl rfl rfl

theorem At.blockClose (h : l.At ('}' :: more)) (hopen : l.openBlocks = n + 1) :
    l.Advances .blockClose more (n, l.openParens) := by
  have htoken : l.skipTrivia.token '}' more = _ := token_blockClose h.loneDot
  rw [show l.skipTrivia.openBlocks = n + 1 from hopen] at htoken
  exact h.advances (by decide) htoken rfl rfl rfl

end Brackets

theorem reads_parens {text more : List Char} {tokens : List Token}
    (h : Reads text tokens (')' :: more)) :
    Reads ('(' :: text ++ [')']) (.parenOpen :: tokens ++ [.parenClose]) more := by
  refine h.between (fun opens => (opens.1, opens.2 + 1)) ?_ ?_
  · exact fun l rest hl => hl.parenOpen
  · rintro l ⟨blocks, parens⟩ hl hopens
    obtain ⟨rfl, hparens⟩ := Prod.mk.inj hopens
    exact hl.parenClose hparens

theorem reads_braces {text more : List Char} {tokens : List Token}
    (h : Reads text tokens ('}' :: more)) :
    Reads ('{' :: text ++ ['}']) (.blockOpen :: tokens ++ [.blockClose]) more := by
  refine h.between (fun opens => (opens.1 + 1, opens.2)) ?_ ?_
  · exact fun l rest hl => hl.blockOpen
  · rintro l ⟨blocks, parens⟩ hl hopens
    obtain ⟨hblocks, rfl⟩ := Prod.mk.inj hopens
    exact hl.blockClose hblocks

end Lexer

/-! ## Numbers -/

theorem Spells.value? {text : List Char} {value : Double} (h : Spells text (.number value)) :
    Literal.value? text = some value := by
  generalize htoken : Token.number value = token at h
  cases h with
  | number h =>
      cases htoken
      exact h
  | word hfirst h =>
      obtain ⟨-, h⟩ | ⟨-, h⟩ | h := Lexer.wordToken_cases _
      all_goals
        rw [h] at htoken
        cases htoken
  | operator hfirst h =>
      obtain ⟨-, h⟩ | ⟨-, h⟩ | h := Lexer.operatorToken_cases _
      all_goals
        rw [h] at htoken
        cases htoken
  | newline | comma | blockOpen | blockClose | parenOpen | parenClose => cases htoken

theorem Literal.isDigit_of_value? {c : Char} {text : List Char} {value : Double}
    (h : Literal.value? (c :: text) = some value) : c.isDigit = true := by
  cases hc : c.isDigit with
  | true => rfl
  | false =>
      rw [Literal.value?, List.takeWhile_cons_of_neg (by simp [hc])] at h
      cases h

namespace Lexer

/-- A source that is one number has a literal in it, and trivia around it. -/
theorem exists_cut_of_tokenize {source : String} {x : Lexeme} {value : Double}
    (h : tokenize source = .ok [x]) (hx : x.token = .number value) :
    ∃ trivia text rest, source.toList = trivia ++ (text ++ rest) ∧
      (∀ c ∈ trivia, isTrivia c = true) ∧ (∀ c ∈ rest, isTrivia c = true) ∧
      Literal.Cut text rest ∧ Literal.value? text = some value := by
  obtain ⟨m, n, hsteps, hend⟩ := tokenize_eq_ok_iff.1 h
  cases hsteps with
  | cons hnext hnil =>
      cases hnil
      obtain ⟨-, c, rest, k, hrest, htoken, rfl⟩ := next_eq_ok.1 hnext
      have htakes := next_takes (sane_of_not_loneDot rfl) hnext
      obtain ⟨text, hmoves, hspells, -⟩ := htakes.text
      have htext := hmoves.rest
      rw [hx] at hspells
      have hvalue := hspells.value?
      obtain ⟨c', text, rfl⟩ := List.exists_cons_of_ne_nil hspells.ne_nil
      rw [hrest] at htext
      obtain ⟨rfl, -⟩ := List.cons.inj htext
      rw [token_number rfl (Literal.isDigit_of_value? hvalue)] at htoken
      obtain ⟨text, rest', value', hsplit, hvalue', hx', rfl⟩ := exists_split_of_number htoken
      cases hx.symm.trans hx'
      have hcut := Literal.cut_split (skipTrivia (ofString source)).rest
      have hparts := Literal.split_append (skipTrivia (ofString source)).rest
      rw [hsplit] at hcut hparts
      refine ⟨source.toList.takeWhile isTrivia, text, k.rest, ?_,
        fun _ hc => List.mem_takeWhile_imp hc, ?_, hcut, hvalue'⟩
      · exact hparts ▸ List.takeWhile_append_dropWhile.symm
      · exact List.dropWhile_eq_nil_iff.1 ((next_eq_none htakes.failed).1 hend).1

theorem reads_literal {text more : List Char} {value : Double} (hcut : Literal.Cut text more)
    (hvalue : Literal.value? text = some value) (hpoint : more.head? ≠ some '.') :
    Reads text [.number value] more := by
  obtain ⟨c, text, rfl⟩ := List.exists_cons_of_ne_nil (Spells.number hvalue).ne_nil
  have hdigit := Literal.isDigit_of_value? hvalue
  have hc := not_isTrivia_of_isAlphanum (c := c) (by rw [Char.isAlphanum, hdigit, Bool.or_true])
  refine reads_of_advances fun l hl => ?_
  have hrest : l.skipTrivia.rest = c :: text ++ more := hl.skipTrivia hc
  have hnumber := number_run (hrest ▸ hcut.split) hvalue
  have hdot : l.skipTrivia.loneDot = false := hl.loneDot
  refine hl.advances hc ((token_number hdot hdigit).trans hnumber) rfl ?_ rfl
  show (!(c :: text).contains '.' && more.head? == some '.') = false
  rw [beq_eq_false_iff_ne.2 hpoint, Bool.and_false]

/-- A number that is read from a source by itself is read from it also in a longer text. -/
theorem reads_number {source : String} {x : Lexeme} {value : Double} {more : List Char}
    (h : tokenize source = .ok [x]) (hx : x.token = .number value)
    (hdigit : Ends Char.isDigit more) (hpoint : more.head? ≠ some '.') :
    Reads source.toList [.number value] more := by
  obtain ⟨trivia, text, rest, hsource, htrivia, hrest, hcut, hvalue⟩ := exists_cut_of_tokenize h hx
  have hhead : rest.head? ≠ some '.' := by
    intro hdot
    have htrivial := hrest '.' (List.mem_of_mem_head? hdot)
    revert htrivial
    decide
  have hhead' : (rest ++ more).head? ≠ some '.' := by
    cases rest with
    | nil => exact hpoint
    | cons c rest => exact hhead
  have hliteral := reads_literal (hcut.append hdigit hpoint) hvalue hhead'
  rw [hsource]
  exact (reads_trivia htrivia _).append (hliteral.append (reads_trivia hrest more))

end Lexer

/-- A text that is read with nothing behind it is a source. -/
theorem exists_tokenize_of_reads {source : String} {tokens : List Token}
    (h : Lexer.Reads source.toList tokens []) :
    ∃ lexemes, tokenize source = .ok lexemes ∧ lexemes.map Lexeme.token = tokens := by
  have hat := Lexer.at_ofString source
  rw [← List.append_nil source.toList] at hat
  obtain ⟨xs, m, hsteps, htokens, hm, -⟩ := h _ hat
  exact ⟨xs, tokenize_eq_ok_iff.2 ⟨m, _, hsteps, hm.next_none⟩, htokens⟩

end Lila
