import Lila.Proofs.Number.Decimal
import Lila.Proofs.Token.Nesting

/-! # Tokens and gaps

A source is cut into tokens and the trivia between them. `Tiled` follows the text from
its front and says where each piece stands, without the lexer. A run of the lexer lays
such a tiling, up to the end or to the place of a failure, and notes the characters
that it passes over. What holds of the spans of the tokens is read off the tiling.
-/

namespace Lila

/-! ## Places -/

/-- The characters of a text with their byte offsets, the first being at `lo`. -/
def placed : Nat → List Char → List (Nat × Char)
  | _, [] => []
  | lo, c :: text => (lo, c) :: placed (lo + c.utf8Size) text

theorem placed_append (lo : Nat) (text more : List Char) :
    placed lo (text ++ more) = placed lo text ++ placed (lo + byteLength text) more := by
  induction text generalizing lo with
  | nil => rfl
  | cons c text ih => simp [placed, ih, byteLength, Nat.add_assoc]

theorem bounds_of_mem_placed {lo : Nat} {text : List Char} {place : Nat × Char}
    (h : place ∈ placed lo text) : lo ≤ place.1 ∧ place.1 < lo + byteLength text := by
  induction text generalizing lo with
  | nil => cases h
  | cons c text ih =>
      have hsize := c.utf8Size_pos
      rw [placed, List.mem_cons] at h
      rw [byteLength]
      rcases h with rfl | h
      · dsimp only
        omega
      · have hbounds := ih h
        omega

theorem snd_mem_of_mem_placed {lo : Nat} {text : List Char} {place : Nat × Char}
    (h : place ∈ placed lo text) : place.2 ∈ text := by
  induction text generalizing lo with
  | nil => cases h
  | cons c text ih =>
      rw [placed, List.mem_cons] at h
      rcases h with rfl | h
      · exact List.mem_cons_self
      · exact List.mem_cons_of_mem _ (ih h)

theorem byteLength_pos {text : List Char} (h : text ≠ []) : 0 < byteLength text := by
  cases text with
  | nil => exact (h rfl).elim
  | cons c text =>
      have hsize := c.utf8Size_pos
      rw [byteLength]
      omega

def Span.covers (span : Span) (offset : Nat) : Bool := span.lo ≤ offset && offset < span.hi

def isGap (lexemes : List Lexeme) (offset : Nat) : Bool :=
  lexemes.all fun x => !x.span.covers offset

theorem isGap_concat (xs : List Lexeme) (x : Lexeme) (offset : Nat) :
    isGap (xs ++ [x]) offset = (isGap xs offset && !x.span.covers offset) := by
  simp [isGap]

/-- The characters in front of `stop` that no lexeme covers. -/
def gaps (source : List Char) (stop : Nat) (lexemes : List Lexeme) : List (Nat × Char) :=
  (placed 0 source).filter fun place => place.1 < stop && isGap lexemes place.1

/-! ## Tilings -/

/-- A text in tokens, each with its place, and trivia. The characters of the trivia are
collected with their places. -/
inductive Tiled : List Char → List Lexeme → List (Nat × Char) → Prop
  | nil : Tiled [] [] []
  | trivia {text more : List Char} {xs : List Lexeme} {between : List (Nat × Char)}
      (h : Tiled text xs between) (hmore : ∀ c ∈ more, isTrivia c = true) :
      Tiled (text ++ more) xs (between ++ placed (byteLength text) more)
  | token {text slice : List Char} {xs : List Lexeme} {between : List (Nat × Char)} {x : Lexeme}
      (h : Tiled text xs between) (hslice : Spells slice x.token)
      (hspan : x.span = ⟨byteLength text, byteLength (text ++ slice), 1 + text.count '\n'⟩) :
      Tiled (text ++ slice) (xs ++ [x]) between

namespace Tiled

variable {text : List Char} {xs : List Lexeme} {between : List (Nat × Char)}

theorem slices (h : Tiled text xs between) :
    ∀ x ∈ xs, ∃ before slice after, text = before ++ slice ++ after ∧
      x.span = ⟨byteLength before, byteLength (before ++ slice), 1 + before.count '\n'⟩ ∧
      Spells slice x.token := by
  induction h with
  | nil => simp
  | @trivia text more xs between _ _ ih =>
      intro x hx
      obtain ⟨before, slice, after, rfl, hspan, hspells⟩ := ih x hx
      exact ⟨before, slice, after ++ more, by rw [List.append_assoc], hspan, hspells⟩
  | @token text slice xs between x _ hslice hspan ih =>
      intro y hy
      rcases List.mem_append.1 hy with hy | hy
      · obtain ⟨before, slice', after, rfl, hspan', hspells⟩ := ih y hy
        exact ⟨before, slice', after ++ slice, by rw [List.append_assoc], hspan', hspells⟩
      · rw [List.mem_singleton.1 hy]
        exact ⟨text, slice, [], by rw [List.append_nil], hspan, hslice⟩

theorem bounds (h : Tiled text xs between) :
    ∀ x ∈ xs, x.span.lo < x.span.hi ∧ x.span.hi ≤ byteLength text := by
  intro x hx
  obtain ⟨before, slice, after, rfl, hspan, hspells⟩ := h.slices x hx
  have hpos := byteLength_pos hspells.ne_nil
  rw [hspan]
  simp only [byteLength_append]
  omega

theorem ordered (h : Tiled text xs between) :
    xs.Pairwise fun x y => x.span.hi ≤ y.span.lo := by
  induction h with
  | nil => exact .nil
  | trivia _ _ ih => exact ih
  | @token text slice xs between x h _ hspan ih =>
      rw [List.pairwise_append]
      refine ⟨ih, List.pairwise_singleton _ _, ?_⟩
      intro y hy z hz
      rw [List.mem_singleton.1 hz, hspan]
      exact (h.bounds y hy).2

theorem isTrivia_between (h : Tiled text xs between) :
    ∀ place ∈ between, isTrivia place.2 = true := by
  induction h with
  | nil => simp
  | trivia _ hmore ih =>
      rw [List.forall_mem_append]
      exact ⟨ih, fun place hplace => hmore _ (snd_mem_of_mem_placed hplace)⟩
  | token _ _ _ ih => exact ih

/-- What no token covers is the trivia. -/
theorem filter_isGap (h : Tiled text xs between) :
    ((placed 0 text).filter fun place => isGap xs place.1) = between := by
  induction h with
  | nil => rfl
  | @trivia text more xs between h _ ih =>
      rw [placed_append, List.filter_append, ih, Nat.zero_add]
      congr 1
      apply List.filter_eq_self.2
      intro place hplace
      apply List.all_eq_true.2
      intro x hx
      have hlo := (bounds_of_mem_placed hplace).1
      have hhi := (h.bounds x hx).2
      simp only [Span.covers, Bool.not_eq_true', Bool.and_eq_false_iff, decide_eq_false_iff_not]
      omega
  | @token text slice xs between x h _ hspan ih =>
      rw [placed_append, List.filter_append, Nat.zero_add]
      have hfront : ((placed 0 text).filter fun place => isGap (xs ++ [x]) place.1) = between := by
        rw [← ih]
        apply List.filter_congr
        intro place hplace
        have hlt := (bounds_of_mem_placed hplace).2
        have hbefore : x.span.covers place.1 = false := by
          rw [hspan]
          simp only [Span.covers, Bool.and_eq_false_iff, decide_eq_false_iff_not]
          omega
        rw [isGap_concat, hbefore, Bool.not_false, Bool.and_true]
      have hback : ((placed (byteLength text) slice).filter
          fun place => isGap (xs ++ [x]) place.1) = [] := by
        apply List.filter_eq_nil_iff.2
        intro place hplace
        have hbounds := bounds_of_mem_placed hplace
        have hinside : x.span.covers place.1 = true := by
          rw [hspan]
          simp only [Span.covers, byteLength_append, Bool.and_eq_true, decide_eq_true_eq]
          exact hbounds
        rw [isGap_concat, hinside, Bool.not_true, Bool.and_false]
        exact Bool.false_ne_true
      rw [hfront, hback, List.append_nil]

theorem gaps_eq (h : Tiled text xs between) (rest : List Char) :
    gaps (text ++ rest) (byteLength text) xs = between := by
  rw [gaps, placed_append, List.filter_append, Nat.zero_add]
  have hfront : ((placed 0 text).filter
      fun place => place.1 < byteLength text && isGap xs place.1) = between := by
    rw [← h.filter_isGap]
    apply List.filter_congr
    intro place hplace
    have hlt := (bounds_of_mem_placed hplace).2
    rw [Nat.zero_add] at hlt
    rw [decide_eq_true hlt, Bool.true_and]
  have hback : ((placed (byteLength text) rest).filter
      fun place => place.1 < byteLength text && isGap xs place.1) = [] := by
    apply List.filter_eq_nil_iff.2
    intro place hplace
    have hle := (bounds_of_mem_placed hplace).1
    rw [decide_eq_false (Nat.not_lt.2 hle), Bool.false_and]
    exact Bool.false_ne_true
  rw [hfront, hback, List.append_nil]

end Tiled

/-! ## Events -/

namespace Lexer

theorem skipEvents_skipped (lo : Nat) (text : List Char) (events : List LexEvent) :
    (skipEvents lo text events).reverse.filterMap LexEvent.skipped? =
      events.reverse.filterMap LexEvent.skipped? ++
        (placed lo text).filter fun place => isUnrecognized place.2 := by
  induction text generalizing lo events with
  | nil => rw [skipEvents, placed, List.filter_nil, List.append_nil]
  | cons c text ih =>
      rw [skipEvents, ih, placed, List.filter_cons]
      cases isUnrecognized c with
      | true => simp [LexEvent.skipped?]
      | false => simp

theorem skipped_skipTrivia (l : Lexer) :
    l.skipTrivia.skipped = l.skipped ++
      (placed l.offset (l.rest.takeWhile isTrivia)).filter fun place => isUnrecognized place.2 :=
  skipEvents_skipped _ _ _

/-! ## Laying a tiling -/

/-- The lexer has laid the lexemes over the part of the source in front of it, and has
noted what is unrecognized in the gaps. -/
def Lays (source : String) (xs : List Lexeme) (l : Lexer) : Prop :=
  ∃ text between, (ofString source).Moves text l ∧ Tiled text xs between ∧
    l.skipped = between.filter fun place => isUnrecognized place.2

variable {source : String} {xs : List Lexeme} {l m : Lexer}

theorem lays_ofString (source : String) : Lays source [] (ofString source) :=
  ⟨[], [], .refl _, .nil, rfl⟩

theorem Lays.skipTrivia (h : Lays source xs l) : Lays source xs l.skipTrivia := by
  obtain ⟨text, between, hmoves, htiled, hskipped⟩ := h
  have htrivia : ∀ c ∈ l.rest.takeWhile isTrivia, isTrivia c = true :=
    fun _ hc => List.mem_takeWhile_imp hc
  refine ⟨_, _, hmoves.trans l.skipTrivia_moves, htiled.trivia htrivia, ?_⟩
  rw [skipped_skipTrivia, hskipped, hmoves.offset_eq, List.filter_append]

theorem Lays.takes {x : Lexeme} (h : Lays source xs l) (htakes : l.Takes x m) :
    Lays source (xs ++ [x]) m := by
  obtain ⟨text, between, hmoves, htiled, hskipped⟩ := h
  obtain ⟨slice, hslice, hspells, hspan⟩ := htakes.text
  refine ⟨_, _, hmoves.trans hslice, htiled.token hspells ?_, htakes.skipped.trans hskipped⟩
  rw [hspan, span, hmoves.offset_eq, hmoves.line_eq, byteLength_append]

theorem Steps.lays {ys : List Lexeme} (h : Steps l ys m) (hsane : l.Sane)
    (hl : Lays source xs l) : Lays source (xs ++ ys) m := by
  induction h generalizing xs with
  | nil => rwa [List.append_nil]
  | @cons l m n x ys hnext _ ih =>
      have htakes := next_takes hsane hnext
      rw [List.append_cons]
      exact ih htakes.sane (hl.skipTrivia.takes htakes)

/-! ## The answers of a run -/

/-- A lexer that has come to the end or has failed has no more to give. -/
theorem next_again {n : Lexer} (h : m.next = (none, n)) : n.next = (none, n) := by
  cases hfailed : m.failed with
  | true =>
      rw [next, hfailed, if_pos rfl] at h
      cases h
      rw [next, hfailed, if_pos rfl]
  | false =>
      obtain ⟨hrest, rfl⟩ := (next_eq_none hfailed).1 h
      have hfailed' : m.skipTrivia.failed = false := hfailed
      have hskip := skipTrivia_of_ends (hrest ▸ ends_nil isTrivia)
      exact (next_eq_none hfailed').2 ⟨by rwa [hskip], hskip.symm⟩

theorem next_after_error {n : Lexer} {e : LexError} (h : m.next = (some (.error e), n)) :
    n.next = (none, n) := by
  obtain ⟨c, rest, -, -, rfl⟩ := next_eq_error h
  rfl

theorem take_of_steps {ys : List Lexeme} (h : Steps l ys m) (calls : Nat) :
    take (ys.length + calls) l = ys.map (fun x => some (.ok x)) ++ take calls m := by
  induction h with
  | nil => rw [List.length_nil, Nat.zero_add, List.map_nil, List.nil_append]
  | @cons l m n x ys hnext _ ih =>
      rw [List.length_cons, Nat.add_right_comm, take, hnext, List.map_cons, List.cons_append, ← ih]

theorem take_of_none {n : Lexer} (h : m.next = (none, n)) (calls : Nat) :
    take calls m = List.replicate calls none := by
  induction calls generalizing m with
  | zero => rfl
  | succ calls ih =>
      have hrest := ih (next_again h)
      rw [take, h, List.replicate_succ]
      exact congrArg (none :: ·) hrest

theorem take_of_error {n : Lexer} {e : LexError} (h : m.next = (some (.error e), n))
    (calls : Nat) : take (calls + 1) m = some (.error e) :: List.replicate calls none := by
  have hrest := take_of_none (next_after_error h) calls
  rw [take, h]
  exact congrArg (some (.error e) :: ·) hrest

def lexemes (calls : Nat) (l : Lexer) : List Lexeme :=
  (take calls l).filterMap fun answer => answer.bind Except.toOption

theorem lexemes_of_steps {ys : List Lexeme} (h : Steps l ys m) (calls : Nat) :
    lexemes (ys.length + calls) l = ys ++ lexemes calls m := by
  rw [lexemes, take_of_steps h, List.filterMap_append, List.filterMap_map]
  congr 1
  exact List.filterMap_some

theorem lexemes_of_none {n : Lexer} (h : m.next = (none, n)) (calls : Nat) :
    lexemes calls m = [] := by
  simp [lexemes, take_of_none h]

theorem lexemes_of_error {n : Lexer} {e : LexError} (h : m.next = (some (.error e), n))
    (calls : Nat) : lexemes calls m = [] := by
  cases calls with
  | zero => rfl
  | succ calls => simp [lexemes, take_of_error h, Except.toOption]

end Lexer

/-! ## Sources -/

/-- The lexemes of a source up to its end or to a failure. -/
def lexemesOf (source : String) : List Lexeme :=
  (Lexer.ofString source).lexemes (source.toList.length + 1)

/-- How far a source is read: to its end, or to the place of a failure. -/
def stopOf (source : String) : Nat :=
  match tokenize source with
  | .ok _ => byteLength source.toList
  | .error e => e.span.lo

def skippedOf (source : String) : List (Nat × Char) :=
  match (Lexer.ofString source).run with
  | .ok _ l | .error _ l => l.skipped

/-- A run stops where the lexer has passed over the last trivia. -/
theorem exists_stop (source : String) :
    ∃ l, Lexer.Lays source (lexemesOf source) l ∧ l.offset = stopOf source ∧
      l.skipped = skippedOf source ∧
      ∀ xs, tokenize source = .ok xs → lexemesOf source = xs := by
  have hsane : (Lexer.ofString source).Sane := Lexer.sane_of_not_loneDot rfl
  obtain ⟨xs, m, n, hsteps, hend⟩ := Lexer.run_cases source
  have hlays := (hsteps.lays hsane (Lexer.lays_ofString source)).skipTrivia
  have hlength : xs.length ≤ source.toList.length := hsteps.length_le hsane
  have hcalls : source.toList.length + 1 = xs.length + (source.toList.length + 1 - xs.length) := by
    omega
  have hlexemes := Lexer.lexemes_of_steps hsteps (source.toList.length + 1 - xs.length)
  rw [← hcalls] at hlexemes
  rw [List.nil_append] at hlays
  refine ⟨m.skipTrivia, ?_⟩
  rcases hend with ⟨hnext, hrun⟩ | ⟨e, hnext, hrun⟩
  · have hxs : lexemesOf source = xs := by
      rw [lexemesOf, hlexemes, Lexer.lexemes_of_none hnext, List.append_nil]
    have htokenize : tokenize source = .ok xs := by rw [tokenize, hrun]
    obtain ⟨hrest, rfl⟩ := (Lexer.next_eq_none (hsteps.failed hsane)).1 hnext
    rw [hxs, stopOf, htokenize, skippedOf, hrun]
    refine ⟨hlays, ?_, rfl, fun ys hys => Except.ok.inj hys⟩
    obtain ⟨text, -, hmoves, -⟩ := hlays
    rw [hmoves.offset_eq, hmoves.toList_eq, hrest, List.append_nil]
  · have hxs : lexemesOf source = xs := by
      rw [lexemesOf, hlexemes, Lexer.lexemes_of_error hnext, List.append_nil]
    have htokenize : tokenize source = .error e := by rw [tokenize, hrun]
    obtain ⟨c, rest, -, hunopened, rfl⟩ := Lexer.next_eq_error hnext
    rw [hxs, stopOf, htokenize, skippedOf, hrun]
    refine ⟨hlays, ?_, rfl, fun ys hys => by cases hys⟩
    cases hunopened with
    | block => rfl
    | paren => rfl

/-- The text of a token in the source: the one that it shows as, but for line breaks and
literals. A number is the one nearest to what its literal writes. -/
def Token.IsText : Token → List Char → Prop
  | .number value, text => Literal.Written text ∧ value.Nearest (Literal.decimalOf text)
  | .newline, text => text = ['\n']
  | token, text => token.display.toList = text

theorem Spells.isText {text : List Char} {token : Token} (h : Spells text token) :
    token.IsText text := by
  cases h with
  | number h => exact ⟨Literal.written_of_value? h, Literal.nearest_of_value? h⟩
  | word hfirst h =>
      obtain ⟨htext, htoken⟩ | ⟨htext, htoken⟩ | htoken := Lexer.wordToken_cases _
      · rw [htoken, htext]
        rfl
      · rw [htoken, htext]
        rfl
      · rw [htoken]
        exact String.toList_ofList
  | operator hfirst h =>
      obtain ⟨htext, htoken⟩ | ⟨htext, htoken⟩ | htoken := Lexer.operatorToken_cases _
      · rw [htoken, htext]
        rfl
      · rw [htoken, htext]
        rfl
      · rw [htoken]
        exact String.toList_ofList
  | newline | comma | blockOpen | blockClose | parenOpen | parenClose => rfl

/-- The lexemes lie in the source in front of `stop`, one behind the other, each on the
text of its token and with its line, and leave out only what belongs to no token. -/
structure Tiles (source : List Char) (stop : Nat) (lexemes : List Lexeme) : Prop where
  bounds : ∀ x ∈ lexemes, x.span.lo < x.span.hi ∧ x.span.hi ≤ stop
  slices : ∀ x ∈ lexemes, ∃ before text after, source = before ++ text ++ after ∧
    x.span = ⟨byteLength before, byteLength (before ++ text), 1 + before.count '\n'⟩ ∧
    x.token.IsText text
  ordered : lexemes.Pairwise fun x y => x.span.hi ≤ y.span.lo
  gaps : ∀ place ∈ gaps source stop lexemes,
    Text.isBlank place.2 = true ∧ place.2 ≠ '\n' ∨ isUnrecognized place.2 = true

theorem Tiled.tiles {text : List Char} {xs : List Lexeme} {between : List (Nat × Char)}
    (h : Tiled text xs between) (rest : List Char) : Tiles (text ++ rest) (byteLength text) xs := by
  constructor
  · exact h.bounds
  · intro x hx
    obtain ⟨before, slice, after, rfl, hspan, hspells⟩ := h.slices x hx
    exact ⟨before, slice, after ++ rest, by rw [List.append_assoc], hspan, hspells.isText⟩
  · exact h.ordered
  · intro place hplace
    rw [h.gaps_eq] at hplace
    have htrivia := h.isTrivia_between place hplace
    simpa [isTrivia] using htrivia

/-- The tokens of a source tile it, up to the end or to a failure, and the lexer reports
each character in the gaps that is not white space, in the order of the source. -/
theorem lexemes_tile_source (source : String) :
    (∀ lexemes, tokenize source = .ok lexemes → lexemesOf source = lexemes) ∧
    Tiles source.toList (stopOf source) (lexemesOf source) ∧
    skippedOf source = (gaps source.toList (stopOf source) (lexemesOf source)).filter
      fun place => isUnrecognized place.2 := by
  obtain ⟨l, ⟨text, between, hmoves, htiled, hskipped⟩, hstop, hskippedOf, hlexemes⟩ :=
    exists_stop source
  have hoffset := hmoves.offset_eq
  rw [hstop] at hoffset
  rw [hmoves.toList_eq, hoffset]
  refine ⟨hlexemes, htiled.tiles l.rest, ?_⟩
  rw [htiled.gaps_eq, ← hskippedOf, hskipped]

/-- The point is a token, the accented letter is passed over, and the brace is not read. -/
example : stopOf "5.é \x7d" = 5 ∧ skippedOf "5.é \x7d" = [(2, 'é')] := ⟨rfl, rfl⟩

end Lila
