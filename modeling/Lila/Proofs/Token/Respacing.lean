import Lila.Proofs.Token.Longest

/-! # Tokens spaced anew

The texts of the tokens of a source, laid out with other trivia between them, are read as
the same tokens. Trivia ends every token, so that a text is read as the token that it spells
wherever it stands: also the point behind an integer literal, which is then an operator like
others, and the run of operator characters that has followed it. Closing brackets find open
ones, for the brackets come in the same order as in the source.
-/

namespace Lila

/-- The texts one behind the other, with the gaps in front of them, between them and at the
end. -/
def spaced (gap : Nat → List Char) : List (List Char) → List Char
  | [] => gap 0
  | text :: texts => gap 0 ++ (text ++ spaced (fun i => gap (i + 1)) texts)

/-- No token can go on with trivia. -/
theorem apart_of_isTrivia {c : Char} (hc : isTrivia c = true) (more : List Char) :
    Apart (c :: more) := by
  rw [Apart, ends_cons, Bool.or_eq_false_iff]
  constructor
  · by_contra h
    rw [Bool.not_eq_false] at h
    rw [not_isTrivia_of_isAlphanum h] at hc
    cases hc
  · by_contra h
    rw [Bool.not_eq_false] at h
    rw [not_isTrivia_of_isPunctuation (Bool.and_eq_true_iff.1 h).1] at hc
    cases hc

/-- Behind a text comes trivia or nothing, if the gap in front of the next one is not empty. -/
theorem apart_spaced {gap : Nat → List Char} (htrivia : ∀ i, ∀ c ∈ gap i, isTrivia c = true)
    {texts : List (List Char)} (hne : texts ≠ [] → gap 0 ≠ []) : Apart (spaced gap texts) := by
  cases hgap : gap 0 with
  | nil =>
      cases texts with
      | nil =>
          rw [spaced, hgap]
          exact ends_nil _
      | cons text texts => exact (hne (List.cons_ne_nil _ _) hgap).elim
  | cons c more =>
      have hc : isTrivia c = true := htrivia 0 c (by simp [hgap])
      cases texts with
      | nil =>
          rw [spaced, hgap]
          exact apart_of_isTrivia hc more
      | cons text texts =>
          rw [spaced, hgap]
          exact apart_of_isTrivia hc _

namespace Lexer

variable {l m : Lexer} {text more : List Char} {token : Token}

/-! ## One token -/

def Arrives (l : Lexer) (tokens : List Token) (more : List Char) (opens : Nat × Nat) : Prop :=
  ∃ xs m, Steps l xs m ∧ xs.map Lexeme.token = tokens ∧ m.At more ∧ m.opens = opens

theorem Advances.arrives {opens : Nat × Nat} (h : l.Advances token more opens) :
    l.Arrives [token] more opens := by
  obtain ⟨x, m, hnext, rfl, hm, hopens⟩ := h
  exact ⟨[x], m, .cons hnext (.nil m), rfl, hm, hopens⟩

/-- A text that stands apart is read as the token that it spells, if the brackets that it
closes are open. -/
theorem arrives_of_spells {blocks parens : Nat} (h : Spells text token) (hmore : Apart more)
    (hl : l.At (text ++ more))
    (hblocks : blocks + text.count '}' = l.openBlocks + text.count '{')
    (hparens : parens + text.count ')' = l.openParens + text.count '(') :
    l.Arrives [token] more (blocks, parens) := by
  have hplain : Reads text [token] more → (∀ c ∈ text, isCounted c = false) →
      l.Arrives [token] more (blocks, parens) := by
    intro hreads htext
    have hzero : ∀ c, isCounted c = true → text.count c = 0 := fun c => count_eq_zero htext
    rw [hzero '{' (by decide), hzero '}' (by decide)] at hblocks
    rw [hzero '(' (by decide), hzero ')' (by decide)] at hparens
    cases hblocks
    cases hparens
    exact hreads l hl
  cases h with
  | number h =>
      have hwritten := Literal.written_of_value? h
      have hcut := hwritten.cut hmore.digit hmore.head_ne
      exact hplain (reads_literal hcut h hmore.head_ne) hwritten.isCounted_eq_false
  | word hfirst h =>
      have hletter : Uncounted Char.isAlpha := by decide
      exact hplain (reads_word hfirst h hmore.alphanum) (hletter.cons (by decide) hfirst h)
  | operator hfirst h =>
      have hoperator : Uncounted isOperatorChar := by decide
      exact hplain (reads_operator hfirst h hmore.operator) (hoperator.cons hoperator hfirst h)
  | newline =>
      cases hblocks
      cases hparens
      exact reads_newline more l hl
  | comma =>
      cases hblocks
      cases hparens
      exact reads_comma more l hl
  | blockOpen =>
      cases hblocks
      cases hparens
      exact hl.blockOpen.arrives
  | blockClose =>
      cases hparens
      exact (hl.blockClose hblocks.symm).arrives
  | parenOpen =>
      cases hblocks
      cases hparens
      exact hl.parenOpen.arrives
  | parenClose =>
      cases hblocks
      exact (hl.parenClose hparens.symm).arrives

/-- In a run the text at the span of a lexeme is the one that the lexer moves over. -/
theorem Steps.spells_slice {source : String} {xs : List Lexeme} {x : Lexeme}
    (hsteps : Steps (ofString source) xs l) (hnext : l.next = (some (.ok x), m)) :
    Spells (x.span.slice source.toList) x.token ∧
      l.skipTrivia.Moves (x.span.slice source.toList) m := by
  have hsane : (ofString source).Sane := sane_of_not_loneDot rfl
  obtain ⟨front, -, hfront, -, -⟩ := hsteps.lays hsane (lays_ofString source)
  obtain ⟨text, hmoves, hspells, hspan⟩ := (next_takes (hsteps.sane hsane) hnext).text
  have htrivia := hfront.trans l.skipTrivia_moves
  have hslice : x.span.slice source.toList = text := by
    rw [(htrivia.trans hmoves).toList_eq, hspan, Lexer.span, htrivia.offset_eq, ← byteLength_append]
    exact slice_eq _ text m.rest _
  rw [hslice]
  exact ⟨hspells, hmoves⟩

/-! ## All tokens -/

/-- What a run reads from a place on in a source, another lexer reads from the texts spaced
anew, if it has as many open brackets to start with. -/
theorem Steps.arrives_spaced {source : String} {before xs : List Lexeme} {l' : Lexer}
    (hsteps : Steps l xs m) (hbefore : Steps (ofString source) before l) {gap : Nat → List Char}
    (htrivia : ∀ i, ∀ c ∈ gap i, isTrivia c = true)
    (hbetween : ∀ i, 0 < i → i < xs.length → gap i ≠ [])
    (hl : l'.At (spaced gap (xs.map fun x => x.span.slice source.toList)))
    (hopens : l'.opens = l.opens) : l'.Arrives (xs.map Lexeme.token) [] m.opens := by
  induction hsteps generalizing before gap l' with
  | nil l =>
      rw [List.map_nil, spaced, ← List.append_nil (gap 0)] at hl
      obtain ⟨ys, n, hys, htokens, hn, hnopens⟩ := reads_trivia (htrivia 0) [] l' hl
      exact ⟨ys, n, hys, htokens, hn, hnopens.trans hopens⟩
  | @cons l m n x xs hnext _ ih =>
      obtain ⟨hspells, hmoves⟩ := hbefore.spells_slice hnext
      obtain ⟨hblocks, hparens⟩ := Prod.mk.inj hopens
      have hapart : Apart (spaced (fun i => gap (i + 1))
          (xs.map fun x => x.span.slice source.toList)) := by
        refine apart_spaced (fun i => htrivia (i + 1)) fun hne => hbetween 1 Nat.one_pos ?_
        have hpos := List.length_pos_iff.2 hne
        rw [List.length_map] at hpos
        rw [List.length_cons]
        omega
      rw [List.map_cons, spaced] at hl
      obtain ⟨_, k, hgap, htokens, hk, hkopens⟩ := reads_trivia (htrivia 0) _ l' hl
      obtain ⟨hkblocks, hkparens⟩ := Prod.mk.inj hkopens
      obtain ⟨ys, k', hys, hy, hk', hk'opens⟩ : k.Arrives [x.token] _ m.opens := by
        apply arrives_of_spells hspells hapart hk
        · rw [hkblocks, hblocks]
          exact hmoves.blocks
        · rw [hkparens, hparens]
          exact hmoves.parens
      obtain ⟨zs, n', hzs, hz, hn', hn'opens⟩ := ih (hbefore.append (.cons hnext (.nil m)))
        (fun i => htrivia (i + 1)) (fun i hi hlt => hbetween (i + 1) (Nat.succ_pos i)
          (Nat.succ_lt_succ hlt)) hk' hk'opens
      refine ⟨_, n', hgap.append (hys.append hzs), ?_, hn', hn'opens⟩
      rw [List.map_append, List.map_append, htokens, hy, hz]
      rfl

end Lexer

/-- The texts of the tokens of a source, with any trivia around them and some between any two
of them, are a source with the same tokens. -/
theorem tokenize_respaced {source : String} {xs : List Lexeme} (h : tokenize source = .ok xs)
    (gap : Nat → List Char)
    (htrivia : ∀ i, ∀ c ∈ gap i, Text.isBlank c = true ∧ c ≠ '\n' ∨ isUnrecognized c = true)
    (hbetween : ∀ i, 0 < i → i < xs.length → gap i ≠ []) :
    ∃ ys, tokenize (String.ofList
        (spaced gap (xs.map fun x => x.span.slice source.toList))) = .ok ys ∧
      ys.map Lexeme.token = xs.map Lexeme.token := by
  obtain ⟨m, -, hsteps, -⟩ := tokenize_eq_ok_iff.1 h
  have hgap : ∀ i, ∀ c ∈ gap i, isTrivia c = true := by
    intro i c hc
    simpa [isTrivia] using htrivia i c hc
  have hat := Lexer.at_ofString
    (String.ofList (spaced gap (xs.map fun x => x.span.slice source.toList)))
  rw [String.toList_ofList] at hat
  obtain ⟨ys, n, hys, htokens, hn, -⟩ := hsteps.arrives_spaced (.nil _) hgap hbetween hat rfl
  exact ⟨ys, tokenize_eq_ok_iff.2 ⟨n, _, hys, hn.next_none⟩, htokens⟩

/-- The literal, the point behind it and the operator behind the point are set apart from
each other, the last two by an accented letter. -/
theorem tokenize_respaced_points :
    ∃ xs ys, tokenize "5..=(x)" = .ok xs ∧
      spaced (fun i => if i = 2 then ['é'] else [' ']) (xs.map fun x =>
        x.span.slice "5..=(x)".toList) = " 5 .é.= ( x ) ".toList ∧
      tokenize " 5 .é.= ( x ) " = .ok ys ∧
      ys.map Lexeme.token = xs.map Lexeme.token := by
  have h : tokenize "5..=(x)" = .ok [⟨⟨0, 1, 1⟩, .number (.ofRatio 5 1)⟩, ⟨⟨1, 2, 1⟩, .binop "."⟩,
      ⟨⟨2, 4, 1⟩, .binop ".="⟩, ⟨⟨4, 5, 1⟩, .parenOpen⟩, ⟨⟨5, 6, 1⟩, .ident "x"⟩,
      ⟨⟨6, 7, 1⟩, .parenClose⟩] := rfl
  have htrivia : ∀ i : Nat, ∀ c ∈ (if i = 2 then ['é'] else [' ']),
      Text.isBlank c = true ∧ c ≠ '\n' ∨ isUnrecognized c = true := by
    intro i
    split
    · exact List.forall_mem_singleton.2 (.inr rfl)
    · exact List.forall_mem_singleton.2 (.inl ⟨rfl, by decide⟩)
  obtain ⟨ys, hys, htokens⟩ := tokenize_respaced h (fun i => if i = 2 then ['é'] else [' '])
    htrivia (by intro i _ _; split <;> decide)
  exact ⟨_, ys, h, rfl, hys, htokens⟩

end Lila
