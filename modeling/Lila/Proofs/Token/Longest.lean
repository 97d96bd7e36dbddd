import Lila.Proofs.Token.Reading
import Lila.Proofs.Token.Tiling

/-! # Longest tokens

Every token reaches as far as the characters of its class do, with one exception: a
point right behind an integer literal is a token by itself, whatever follows it. The
lexer decides about that point where it cuts the literal, and keeps it in mind until it
reads on. From the outside it is told by the tokens and the source alone, as an operator
that starts with a point exactly where a literal without a point ends.
-/

namespace Lila

/-! ## Parts of a source -/

def Span.slice (source : List Char) (span : Span) : List Char :=
  ((placed 0 source).filter fun place => span.covers place.1).map Prod.snd

def textFrom (source : List Char) (offset : Nat) : List Char :=
  ((placed 0 source).filter fun place => offset ≤ place.1).map Prod.snd

theorem map_snd_placed (lo : Nat) (text : List Char) : (placed lo text).map Prod.snd = text := by
  induction text generalizing lo with
  | nil => rfl
  | cons c text ih => rw [placed, List.map_cons, ih]

/-- A filter by places takes all of a text, or nothing of it, if it does so at every
place of the text. -/
theorem filter_placed (lo : Nat) (text : List Char) {p : Nat → Bool} (keep : Bool)
    (h : ∀ offset, lo ≤ offset → offset < lo + byteLength text → p offset = keep) :
    ((placed lo text).filter fun place => p place.1).map Prod.snd =
      if keep = true then text else [] := by
  have hplaces : ∀ place ∈ placed lo text, p place.1 = keep := by
    intro place hplace
    have hbounds := bounds_of_mem_placed hplace
    exact h place.1 hbounds.1 hbounds.2
  cases keep with
  | true => rw [List.filter_eq_self.2 hplaces, map_snd_placed, if_pos rfl]
  | false =>
      have hnone : ∀ place ∈ placed lo text, ¬p place.1 = true := by
        intro place hplace
        rw [hplaces place hplace]
        exact Bool.false_ne_true
      rw [List.filter_eq_nil_iff.2 hnone, List.map_nil, if_neg Bool.false_ne_true]

theorem slice_eq (before text after : List Char) (line : Nat) :
    Span.slice (before ++ text ++ after) ⟨byteLength before, byteLength (before ++ text), line⟩ =
      text := by
  unfold Span.slice
  simp only [placed_append, List.filter_append, List.map_append, byteLength_append]
  rw [filter_placed 0 before false, filter_placed _ text true, filter_placed _ after false]
  · simp
  all_goals
    intro offset hlo hhi
    simp only [Span.covers, Bool.and_eq_true, Bool.and_eq_false_iff, decide_eq_true_eq,
      decide_eq_false_iff_not]
    omega

theorem textFrom_eq (before after : List Char) :
    textFrom (before ++ after) (byteLength before) = after := by
  unfold textFrom
  simp only [placed_append, List.filter_append, List.map_append]
  rw [filter_placed 0 before (p := fun offset => byteLength before ≤ offset) false,
    filter_placed _ after (p := fun offset => byteLength before ≤ offset) true]
  · simp
  all_goals
    intro offset hlo hhi
    simp only [decide_eq_true_eq, decide_eq_false_iff_not]
    omega

/-! ## Classes of tokens -/

/-- Words are identifiers and keywords, and operators all runs of operator characters. -/
inductive Token.Kind where
  | word
  | number
  | operator
  | mark
deriving DecidableEq

def Token.kind : Token → Kind
  | .ident _ | .kwDef | .kwVal => .word
  | .number _ => .number
  | .binop _ | .assign | .colon => .operator
  | .comma | .blockOpen | .blockClose | .parenOpen | .parenClose | .newline => .mark

/-- The text of an identifier or a keyword, and the text behind it. -/
structure LongestWord (text after : List Char) (token : Token) : Prop where
  letters : ∃ c more, text = c :: more ∧ c.isAlpha = true ∧ ∀ d ∈ more, d.isAlphanum = true
  ends : Ends Char.isAlphanum after
  kwDef : token = .kwDef ↔ text = ['d', 'e', 'f']
  kwVal : token = .kwVal ↔ text = ['v', 'a', 'l']

/-- The text of a literal, and the text behind it. -/
structure LongestNumber (text after : List Char) : Prop where
  written : Literal.Written text
  ends : Ends Char.isDigit after
  point : '.' ∉ text → ∀ d more, after = '.' :: d :: more → d.isDigit = false

structure OperatorText (text : List Char) (token : Token) : Prop where
  ne_nil : text ≠ []
  chars : ∀ c ∈ text, isOperatorChar c = true
  assign : token = .assign ↔ text = ['=']
  colon : token = .colon ↔ text = [':']

/-- The token starts with a point, right where a literal without a point ends. -/
def BehindInteger (source : List Char) (lexemes : List Lexeme) (x : Lexeme) : Prop :=
  (x.span.slice source).head? = some '.' ∧
    ∃ y ∈ lexemes, y.token.kind = .number ∧ '.' ∉ y.span.slice source ∧ y.span.hi = x.span.lo

instance (source : List Char) (lexemes : List Lexeme) (x : Lexeme) :
    Decidable (BehindInteger source lexemes x) :=
  inferInstanceAs (Decidable (_ ∧ _))

/-- The token is the longest one at its place, or the point behind an integer literal. In
that case the operator characters that follow it are a token. -/
structure Longest (source : List Char) (lexemes : List Lexeme) (x : Lexeme) : Prop where
  word : x.token.kind = .word →
    LongestWord (x.span.slice source) (textFrom source x.span.hi) x.token
  number : x.token.kind = .number →
    LongestNumber (x.span.slice source) (textFrom source x.span.hi)
  operator : x.token.kind = .operator → OperatorText (x.span.slice source) x.token
  run : x.token.kind = .operator → ¬BehindInteger source lexemes x →
    Ends isOperatorChar (textFrom source x.span.hi)
  point : x.token.kind = .operator → BehindInteger source lexemes x →
    x.span.slice source = ['.'] ∧
    ((textFrom source x.span.hi).takeWhile isOperatorChar ≠ [] →
      ∃ y ∈ lexemes, y.span.lo = x.span.hi ∧
        y.span.slice source = (textFrom source x.span.hi).takeWhile isOperatorChar)

/-! ## Spellings by class -/

namespace Lexer

theorem wordToken_kind (text : List Char) : (wordToken text).kind = .word := by
  obtain ⟨-, h⟩ | ⟨-, h⟩ | h := wordToken_cases text <;> rw [h] <;> rfl

theorem operatorToken_kind (text : List Char) : (operatorToken text).kind = .operator := by
  obtain ⟨-, h⟩ | ⟨-, h⟩ | h := operatorToken_cases text <;> rw [h] <;> rfl

theorem wordToken_eq_keyword_iff (text : List Char) :
    (wordToken text = .kwDef ↔ text = ['d', 'e', 'f']) ∧
      (wordToken text = .kwVal ↔ text = ['v', 'a', 'l']) := by
  unfold wordToken
  by_cases hdef : text = ['d', 'e', 'f']
  · simp [hdef]
  · by_cases hval : text = ['v', 'a', 'l'] <;> simp [hdef, hval]

theorem operatorToken_eq_sign_iff (text : List Char) :
    (operatorToken text = .assign ↔ text = ['=']) ∧
      (operatorToken text = .colon ↔ text = [':']) := by
  unfold operatorToken
  by_cases hassign : text = ['=']
  · simp [hassign]
  · by_cases hcolon : text = [':'] <;> simp [hassign, hcolon]

end Lexer

namespace Spells

variable {text after : List Char} {token : Token}

theorem longestWord (h : Spells text token) (hkind : token.kind = .word)
    (hafter : Ends Char.isAlphanum after) : LongestWord text after token := by
  cases h with
  | @word c more hfirst hmore =>
      have hkeyword := Lexer.wordToken_eq_keyword_iff (c :: more)
      exact ⟨⟨c, more, rfl, hfirst, hmore⟩, hafter, hkeyword.1, hkeyword.2⟩
  | operator =>
      rw [Lexer.operatorToken_kind] at hkind
      cases hkind
  | _ => cases hkind

theorem operatorText (h : Spells text token) (hkind : token.kind = .operator) :
    OperatorText text token := by
  cases h with
  | @operator c more hfirst hmore =>
      have hsign := Lexer.operatorToken_eq_sign_iff (c :: more)
      exact ⟨List.cons_ne_nil c more, List.forall_mem_cons.2 ⟨hfirst, hmore⟩, hsign.1, hsign.2⟩
  | word =>
      rw [Lexer.wordToken_kind] at hkind
      cases hkind
  | _ => cases hkind

theorem longestNumber (h : Spells text token) (hkind : token.kind = .number)
    (hcut : Literal.Cut text after) : LongestNumber text after := by
  have hwritten : Literal.Written text := by
    cases token with
    | number value => exact Literal.written_of_value? h.value?
    | _ => cases hkind
  cases hcut with
  | whole hdigits hafter hpoint => exact ⟨hwritten, hafter, fun _ => hpoint⟩
  | fraction hdigits hplaces hne hafter => exact ⟨hwritten, hafter, by simp⟩

end Spells

/-! ## How far a step reaches -/

namespace Lexer

/-- A step over the text to the lexer `m` stops where the class of the token ends, and
keeps the point behind an integer literal in mind. -/
structure Reaches (l : Lexer) (text : List Char) (token : Token) (m : Lexer) : Prop where
  word : token.kind = .word → Ends Char.isAlphanum m.rest
  number : token.kind = .number → Literal.Cut text m.rest
  run : token.kind = .operator → l.loneDot = false → Ends isOperatorChar m.rest
  point : token.kind = .operator → l.loneDot = true → text = ['.']
  loneDot : m.loneDot = true ↔
    token.kind = .number ∧ '.' ∉ text ∧ m.rest.head? = some '.'

theorem number_reaches {l m : Lexer} {x : Lexeme} (h : l.number = .ok (x, m)) :
    ∃ text, l.rest = text ++ m.rest ∧ l.Reaches text x.token m := by
  have hcut := Literal.cut_split l.rest
  have hsplit := Literal.split_append l.rest
  obtain ⟨text, rest, value, hparts, hvalue, -, -⟩ := exists_split_of_number h
  rw [number_run hparts hvalue] at h
  rw [hparts] at hcut hsplit
  cases h
  refine ⟨text, hsplit.symm, ?_⟩
  constructor
  · intro hkind
    cases hkind
  · exact fun _ => hcut
  · intro hkind
    cases hkind
  · intro hkind
    cases hkind
  · simp [emit, Token.kind]

/-- A run of one class, which may be that of words or that of operators. -/
theorem runOf_reaches {l : Lexer} {p : Char → Bool} {token : List Char → Token}
    (hdot : l.loneDot = false)
    (hword : ∀ text, (token text).kind = .word → p = Char.isAlphanum)
    (hoperator : ∀ text, (token text).kind = .operator → p = isOperatorChar)
    (hnumber : ∀ text, (token text).kind ≠ .number) :
    ∃ text, l.rest = text ++ (l.runOf p token).2.rest ∧
      l.Reaches text (l.runOf p token).1.token (l.runOf p token).2 := by
  have hends := ends_dropWhile p l.rest
  refine ⟨l.rest.takeWhile p, List.takeWhile_append_dropWhile.symm, ?_⟩
  constructor
  · intro hkind
    exact hword _ hkind ▸ hends
  · intro hkind
    exact absurd hkind (hnumber _)
  · intro hkind _
    exact hoperator _ hkind ▸ hends
  · intro _ hlone
    rw [hdot] at hlone
    cases hlone
  · constructor
    · intro hlone
      cases hlone
    · intro hkind
      exact absurd hkind.1 (hnumber _)

theorem delimiter_mark {l m : Lexer} {c : Char} {rest : List Char} {x : Lexeme}
    (hdot : l.loneDot = false) (hc : isDelimiter c = true) (h : l.token c rest = .ok (x, m)) :
    x.token.kind = .mark ∧ m.loneDot = false := by
  simp only [isDelimiter, Bool.or_eq_true, beq_iff_eq] at hc
  obtain (((rfl | rfl) | rfl) | rfl) | rfl := hc
  · rw [token_comma hdot] at h
    cases h
    exact ⟨rfl, rfl⟩
  · rw [token_blockOpen hdot] at h
    cases h
    exact ⟨rfl, rfl⟩
  · rw [token_blockClose hdot] at h
    cases hopen : l.openBlocks with
    | zero =>
        rw [hopen] at h
        cases h
    | succ n =>
        rw [hopen] at h
        cases h
        exact ⟨rfl, rfl⟩
  · rw [token_parenOpen hdot] at h
    cases h
    exact ⟨rfl, rfl⟩
  · rw [token_parenClose hdot] at h
    cases hopen : l.openParens with
    | zero =>
        rw [hopen] at h
        cases h
    | succ n =>
        rw [hopen] at h
        cases h
        exact ⟨rfl, rfl⟩

theorem reaches_mark {l m : Lexer} {text : List Char} {token : Token} (hkind : token.kind = .mark)
    (hdot : m.loneDot = false) : l.Reaches text token m := by
  constructor <;> simp [hkind, hdot]

theorem token_reaches {l m : Lexer} {c : Char} {rest : List Char} {x : Lexeme}
    (hl : l.rest = c :: rest) (hc : isTrivia c = false) (hsane : l.Sane)
    (h : l.token c rest = .ok (x, m)) :
    ∃ text, l.rest = text ++ m.rest ∧ l.Reaches text x.token m := by
  obtain ⟨text, hmoves, -, -⟩ := (token_takes hl hc hsane h).text
  cases hdot : l.loneDot with
  | true =>
      have hhead := hsane hdot
      rw [hl] at hhead
      obtain rfl := Option.some.inj hhead
      rw [token_loneDot hdot] at h
      cases h
      refine ⟨['.'], hl, ?_⟩
      constructor <;> simp [Token.kind, hdot]
  | false =>
      rcases class_of_not_isTrivia hc with hdigit | halpha | hoperator | rfl | hdelimiter
      · rw [token_number hdot hdigit] at h
        exact number_reaches h
      · rw [token_word hdot halpha] at h
        cases h
        apply runOf_reaches hdot <;> simp [wordToken_kind]
      · rw [token_operator hdot hoperator] at h
        cases h
        apply runOf_reaches hdot <;> simp [operatorToken_kind]
      · rw [token_newline hdot] at h
        cases h
        exact ⟨text, hmoves.rest, reaches_mark rfl rfl⟩
      · have hmark := delimiter_mark hdot hdelimiter h
        exact ⟨text, hmoves.rest, reaches_mark hmark.1 hmark.2⟩

/-! ## Steps in a source -/

theorem Steps.of_append {l n : Lexer} {xs ys : List Lexeme} (h : Steps l (xs ++ ys) n) :
    ∃ m, Steps l xs m ∧ Steps m ys n := by
  induction xs generalizing l with
  | nil => exact ⟨l, .nil l, h⟩
  | cons x xs ih =>
      cases h with
      | cons hnext hsteps =>
          obtain ⟨m, hxs, hys⟩ := ih hsteps
          exact ⟨m, .cons hnext hxs, hys⟩

variable {source : String} {xs : List Lexeme} {l m : Lexer} {x : Lexeme}

/-- A step of a run: the trivia that it passes over, the text of the token, and how far
that reaches. -/
structure StepsOver (source : String) (l : Lexer) (x : Lexeme) (m : Lexer)
    (front trivia text : List Char) : Prop where
  whole : source.toList = front ++ trivia ++ text ++ m.rest
  rest : l.rest = trivia ++ text ++ m.rest
  offset : l.offset = byteLength front
  isTrivia : ∀ c ∈ trivia, isTrivia c = true
  span : x.span = ⟨byteLength (front ++ trivia), byteLength (front ++ trivia ++ text),
    1 + (front ++ trivia).count '\n'⟩
  behind : m.offset = byteLength (front ++ trivia ++ text)
  spells : Spells text x.token
  reaches : l.Reaches text x.token m

theorem Steps.exists_stepsOver (hsteps : Steps (ofString source) xs l)
    (hnext : l.next = (some (.ok x), m)) :
    ∃ front trivia text, StepsOver source l x m front trivia text := by
  have hsane : l.Sane := hsteps.sane (sane_of_not_loneDot rfl)
  obtain ⟨front, between, hfront, -, -⟩ :=
    hsteps.lays (sane_of_not_loneDot rfl) (lays_ofString source)
  obtain ⟨text, hmoves, hspells, hspan⟩ := (next_takes hsane hnext).text
  obtain ⟨-, c, rest, k, hrest, htoken, rfl⟩ := next_eq_ok.1 hnext
  obtain ⟨text', hrest', hreaches⟩ :=
    token_reaches hrest (isTrivia_of_skipTrivia hrest) (sane_skipTrivia hsane) htoken
  obtain rfl : text = text' := List.append_cancel_right (hmoves.rest.symm.trans hrest')
  have htrivia := hfront.trans l.skipTrivia_moves
  have hall := htrivia.trans hmoves
  refine ⟨front, l.rest.takeWhile isTrivia, text, ?_⟩
  constructor
  · exact hall.toList_eq
  · rw [List.append_assoc, ← hmoves.rest]
    exact l.skipTrivia_moves.rest
  · exact hfront.offset_eq
  · exact fun _ hc => List.mem_takeWhile_imp hc
  · rw [hspan, Lexer.span, htrivia.offset_eq, htrivia.line_eq, byteLength_append _ text]
  · exact hall.offset_eq
  · exact hspells
  -- To pass over trivia leaves the point in mind, so that it does not matter which lexer.
  · exact ⟨hreaches.word, hreaches.number, hreaches.run, hreaches.point, hreaches.loneDot⟩

namespace StepsOver

variable {front trivia text : List Char}

theorem slice_eq (h : StepsOver source l x m front trivia text) :
    x.span.slice source.toList = text := by
  rw [h.whole, h.span]
  exact Lila.slice_eq (front ++ trivia) text m.rest _

theorem textFrom_eq (h : StepsOver source l x m front trivia text) :
    textFrom source.toList x.span.hi = m.rest := by
  rw [h.whole, h.span]
  exact Lila.textFrom_eq (front ++ trivia ++ text) m.rest

theorem hi_eq (h : StepsOver source l x m front trivia text) : x.span.hi = m.offset := by
  rw [h.span, h.behind]

/-- A part of the text behind the token, right at its end. -/
theorem slice_behind (h : StepsOver source l x m front trivia text) {run after : List Char}
    (hrest : m.rest = run ++ after) : Span.slice source.toList (m.span run) = run := by
  rw [h.whole, hrest, ← List.append_assoc, Lexer.span, h.behind, ← byteLength_append]
  exact Lila.slice_eq (front ++ trivia ++ text) run after _

/-- No trivia is passed over exactly if the token starts where the lexer stands. -/
theorem trivia_eq_nil_iff (h : StepsOver source l x m front trivia text) :
    trivia = [] ↔ x.span.lo = l.offset := by
  rw [h.span, h.offset]
  dsimp only
  rw [byteLength_append]
  constructor
  · intro hnil
    simp [hnil, byteLength]
  · intro hlo
    by_contra hne
    have hpos := byteLength_pos hne
    omega

end StepsOver

theorem Steps.exists_last {y : Lexeme} (hsteps : Steps (ofString source) xs l)
    (hlast : xs.getLast? = some y) :
    ∃ k front trivia text, StepsOver source k y l front trivia text := by
  obtain ⟨ys, rfl⟩ := List.getLast?_eq_some_iff.1 hlast
  obtain ⟨k, hys, hstep⟩ := hsteps.of_append
  cases hstep with
  | cons hnext hnil =>
      cases hnil
      exact ⟨k, hys.exists_stepsOver hnext⟩

/-- The lexer keeps in mind whether the last token is an integer literal with a point
behind it, and nothing else. -/
theorem Steps.loneDot_iff (hsteps : Steps (ofString source) xs l) :
    l.loneDot = true ↔ l.rest.head? = some '.' ∧ ∃ y, xs.getLast? = some y ∧
      y.token.kind = .number ∧ '.' ∉ y.span.slice source.toList := by
  cases hlast : xs.getLast? with
  | none =>
      obtain rfl := List.getLast?_eq_none_iff.1 hlast
      cases hsteps
      simp [ofString]
  | some y =>
      obtain ⟨k, front, trivia, text, hover⟩ := hsteps.exists_last hlast
      rw [hover.reaches.loneDot]
      simp only [Option.some.injEq, exists_eq_left', hover.slice_eq]
      exact ⟨fun h => ⟨h.2.2, h.1, h.2.1⟩, fun h => ⟨h.2.1, h.2.2, h.1⟩⟩

/-- A token that ends where another one starts is the last one in front of it. -/
theorem getLast?_of_adjacent {ys : List Lexeme} {y : Lexeme}
    (hordered : (xs ++ x :: ys).Pairwise fun x y => x.span.hi ≤ y.span.lo)
    (hbounds : ∀ z ∈ xs ++ x :: ys, z.span.lo < z.span.hi) (hy : y ∈ xs ++ x :: ys)
    (hadjacent : y.span.hi = x.span.lo) : xs.getLast? = some y := by
  have hyy := hbounds y hy
  have hxx := hbounds x (by simp)
  obtain ⟨hfront, hback, hacross⟩ := List.pairwise_append.1 hordered
  rcases List.mem_append.1 hy with hy | hy
  · rcases List.eq_nil_or_concat xs with rfl | ⟨zs, z, rfl⟩
    · cases hy
    · rw [List.concat_eq_append] at hfront hacross hbounds hy ⊢
      rcases List.mem_append.1 hy with hy | hy
      · have hyz := (List.pairwise_append.1 hfront).2.2 y hy z (by simp)
        have hzz := hbounds z (by simp)
        have hzx := hacross z (by simp) x (by simp)
        omega
      · rw [List.mem_singleton.1 hy, List.getLast?_concat]
  · rcases List.mem_cons.1 hy with rfl | hy
    · omega
    · have hxy := (List.pairwise_cons.1 hback).1 y hy
      omega

theorem behindInteger_iff {ys : List Lexeme} {front trivia text : List Char}
    (hordered : (xs ++ x :: ys).Pairwise fun x y => x.span.hi ≤ y.span.lo)
    (hbounds : ∀ z ∈ xs ++ x :: ys, z.span.lo < z.span.hi)
    (hsteps : Steps (ofString source) xs l) (hover : StepsOver source l x m front trivia text)
    (hkind : x.token.kind = .operator) :
    BehindInteger source.toList (xs ++ x :: ys) x ↔ l.loneDot = true := by
  have hrest := hover.rest
  rw [BehindInteger, hover.slice_eq]
  constructor
  · intro h
    obtain ⟨hhead, y, hy, hnumber, hpoint, hadjacent⟩ := h
    have hlast := getLast?_of_adjacent hordered hbounds hy hadjacent
    obtain ⟨_, _, _, _, hbefore⟩ := hsteps.exists_last hlast
    have hnil := hover.trivia_eq_nil_iff.2 (hadjacent.symm.trans hbefore.hi_eq)
    rw [hnil, List.nil_append] at hrest
    apply hsteps.loneDot_iff.2
    exact ⟨by simp [hrest, hhead], y, hlast, hnumber, hpoint⟩
  · intro hdot
    have htext := hover.reaches.point hkind hdot
    obtain ⟨hhead, y, hlast, hnumber, hpoint⟩ := hsteps.loneDot_iff.1 hdot
    obtain ⟨_, _, _, _, hbefore⟩ := hsteps.exists_last hlast
    have hnil : trivia = [] := by
      cases trivia with
      | nil => rfl
      | cons c trivia =>
          have hc := hover.isTrivia c List.mem_cons_self
          rw [hrest] at hhead
          obtain rfl := Option.some.inj hhead
          exact absurd hc (by decide)
    have hlo := hover.trivia_eq_nil_iff.1 hnil
    have hy : y ∈ xs ++ x :: ys := List.mem_append_left _ (List.mem_of_getLast? hlast)
    exact ⟨by simp [htext], y, hy, hnumber, hpoint, hbefore.hi_eq.trans hlo.symm⟩

/-- Operator characters in front of a lexer are its next token. -/
theorem Steps.exists_operator {n k : Lexer} {ys : List Lexeme} (hsteps : Steps l ys n)
    (hend : n.next = (none, k)) (hfailed : l.failed = false) (hdot : l.loneDot = false)
    (hrun : l.rest.takeWhile isOperatorChar ≠ []) :
    ∃ y ∈ ys, y.span = l.span (l.rest.takeWhile isOperatorChar) := by
  cases hrest : l.rest with
  | nil => simp [hrest] at hrun
  | cons c rest =>
      have hc : isOperatorChar c = true := by
        by_contra hc
        simp [hrest, hc] at hrun
      have htrivia := not_isTrivia_of_isPunctuation (Bool.and_eq_true_iff.1 hc).1
      have hat : l.At (c :: rest) := ⟨hfailed, hdot, [], by simp, hrest⟩
      have hskip : l.skipTrivia.span (l.skipTrivia.rest.takeWhile isOperatorChar) =
          l.span (l.rest.takeWhile isOperatorChar) := by
        have hnone : l.rest.takeWhile isTrivia = [] := by simp [hrest, htrivia]
        rw [hat.skipTrivia htrivia, hrest]
        simp [Lexer.span, Lexer.skipTrivia, hnone, byteLength]
      have hnext := hat.next htrivia (token_operator (l := l.skipTrivia) hdot hc)
      cases hsteps with
      | nil =>
          rw [hnext] at hend
          cases hend
      | cons hfirst hmore =>
          rw [hnext] at hfirst
          cases hfirst
          exact ⟨_, List.mem_cons_self, hrest ▸ hskip⟩

theorem longest_of_steps {n k : Lexer} {ys : List Lexeme}
    (hxs : Steps (ofString source) xs l) (hnext : l.next = (some (.ok x), m))
    (hys : Steps m ys n) (hend : n.next = (none, k)) :
    Longest source.toList (xs ++ x :: ys) x := by
  have hsane : (ofString source).Sane := sane_of_not_loneDot rfl
  have hall : Steps (ofString source) (xs ++ x :: ys) n := hxs.append (.cons hnext hys)
  obtain ⟨whole, between, -, htiled, -⟩ := hall.lays hsane (lays_ofString source)
  rw [List.nil_append] at htiled
  have hbounds : ∀ z ∈ xs ++ x :: ys, z.span.lo < z.span.hi := fun z hz => (htiled.bounds z hz).1
  obtain ⟨front, trivia, text, hover⟩ := hxs.exists_stepsOver hnext
  have hreaches := hover.reaches
  have hbehind := behindInteger_iff htiled.ordered hbounds hxs hover
  constructor
  · intro hkind
    rw [hover.slice_eq, hover.textFrom_eq]
    exact hover.spells.longestWord hkind (hreaches.word hkind)
  · intro hkind
    rw [hover.slice_eq, hover.textFrom_eq]
    exact hover.spells.longestNumber hkind (hreaches.number hkind)
  · intro hkind
    rw [hover.slice_eq]
    exact hover.spells.operatorText hkind
  · intro hkind hinteger
    rw [hbehind hkind, Bool.not_eq_true] at hinteger
    rw [hover.textFrom_eq]
    exact hreaches.run hkind hinteger
  · intro hkind hinteger
    rw [hbehind hkind] at hinteger
    rw [hover.slice_eq, hover.textFrom_eq]
    refine ⟨hreaches.point hkind hinteger, ?_⟩
    intro hrun
    have hdot : m.loneDot = false := by
      rw [Bool.eq_false_iff, ne_eq, hreaches.loneDot, hkind]
      simp
    have hfailed : m.failed = false := (hxs.append (.cons hnext (.nil m))).failed hsane
    obtain ⟨y, hy, hspan⟩ := hys.exists_operator hend hfailed hdot hrun
    refine ⟨y, by simp [hy], ?_, ?_⟩
    · rw [hspan, hover.hi_eq]
      rfl
    · rw [hspan]
      exact hover.slice_behind List.takeWhile_append_dropWhile.symm

end Lexer

/-- Every token of a source is the longest one at its place, but for the point behind an
integer literal. -/
theorem tokenize_longest {source : String} {lexemes : List Lexeme}
    (h : tokenize source = .ok lexemes) :
    ∀ x ∈ lexemes, Longest source.toList lexemes x := by
  intro x hx
  obtain ⟨n, k, hsteps, hend⟩ := tokenize_eq_ok_iff.1 h
  obtain ⟨xs, ys, rfl⟩ := List.append_of_mem hx
  obtain ⟨l, hxs, hrest⟩ := hsteps.of_append
  cases hrest with
  | cons hnext hys => exact Lexer.longest_of_steps hxs hnext hys hend

/-- The first point stands behind an integer literal, and the sign of equality behind it is
a token. The last point stands behind a literal with a point, and goes with the operator. -/
theorem tokenize_longest_points :
    ∃ lexemes, tokenize "5.=1.5.+x" = .ok lexemes ∧
      BehindInteger "5.=1.5.+x".toList lexemes ⟨⟨1, 2, 1⟩, .binop "."⟩ ∧
      (∃ y ∈ lexemes, y.span.lo = 2 ∧ y.span.slice "5.=1.5.+x".toList = ['=']) ∧
      ¬BehindInteger "5.=1.5.+x".toList lexemes ⟨⟨6, 8, 1⟩, .binop ".+"⟩ ∧
      Ends isOperatorChar (textFrom "5.=1.5.+x".toList 8) := by
  have h : tokenize "5.=1.5.+x" = .ok [⟨⟨0, 1, 1⟩, .number (.ofRatio 5 1)⟩,
      ⟨⟨1, 2, 1⟩, .binop "."⟩, ⟨⟨2, 3, 1⟩, .assign⟩, ⟨⟨3, 6, 1⟩, .number (.ofRatio 15 10)⟩,
      ⟨⟨6, 8, 1⟩, .binop ".+"⟩, ⟨⟨8, 9, 1⟩, .ident "x"⟩] := rfl
  have hpoint := (tokenize_longest h ⟨⟨1, 2, 1⟩, .binop "."⟩ (by simp)).point rfl (by decide)
  have hrun := (tokenize_longest h ⟨⟨6, 8, 1⟩, .binop ".+"⟩ (by simp)).run rfl (by decide)
  exact ⟨_, h, by decide, hpoint.2 (by decide), by decide, hrun⟩

end Lila
