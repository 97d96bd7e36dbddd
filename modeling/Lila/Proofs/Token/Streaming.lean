import Lila.Proofs.Token.Joining
import Lila.Proofs.Token.Tiling

/-! # Tokens one at a time

A caller of `next` gets the tokens that the whole run collects, one by one, then the
failure if there is one, and nothing from then on. The tokens in front of a failure are
those of the text up to it: the bracket that fails ends every token in front of it, so that
the text is read as if it ended there. As each answer takes a character, there are no more
answers than bytes.
-/

namespace Lila

theorem length_le_byteLength (text : List Char) : text.length ≤ byteLength text := by
  induction text with
  | nil => exact Nat.le_refl 0
  | cons c text ih =>
      have hsize := c.utf8Size_pos
      rw [List.length_cons, byteLength]
      omega

namespace Lexer

variable {l m k : Lexer} {xs ys : List Lexeme}

/-! ## Calls -/

/-- Call by call the lexer gives the answers, and then nothing for ever. -/
def Answers (l : Lexer) (answers : List (Except LexError Lexeme)) : Prop :=
  ∀ calls, take calls l = (answers.map some ++ List.replicate calls none).take calls

theorem take_of_more (calls more : Nat) (l : Lexer) :
    take calls l = (take (calls + more) l).take calls := by
  induction calls generalizing l with
  | zero => rfl
  | succ calls ih =>
      rw [Nat.add_right_comm, take, take, List.take_succ_cons, ← ih]

theorem answers_of_none {n : Lexer} (h : Steps l xs m) (hend : m.next = (none, n)) :
    l.Answers (xs.map .ok) := by
  intro calls
  rw [take_of_more calls xs.length, Nat.add_comm, take_of_steps h, take_of_none hend, List.map_map]
  rfl

theorem answers_of_error {n : Lexer} {e : LexError} (h : Steps l xs m)
    (hend : m.next = (some (.error e), n)) : l.Answers (xs.map .ok ++ [.error e]) := by
  intro calls
  rw [take_of_more calls (xs.length + 1), Nat.add_left_comm, take_of_steps h, take_of_error hend,
    List.map_append, List.map_map, List.append_assoc]
  rfl

theorem Answers.count_le {answers : List (Except LexError Lexeme)} (h : l.Answers answers)
    (calls : Nat) : (take calls l).countP Option.isSome ≤ answers.length := by
  have hnone : (List.replicate calls (none : Option (Except LexError Lexeme))).countP
      Option.isSome = 0 := by
    simp [List.countP_replicate]
  calc (take calls l).countP Option.isSome
      ≤ (answers.map some ++ List.replicate calls none).countP Option.isSome := by
        rw [h calls]
        exact (List.take_sublist _ _).countP_le
    _ ≤ answers.length := by
        rw [List.countP_append, hnone, Nat.add_zero]
        exact List.countP_le_length.trans (List.length_map some).le

/-! ## Two runs of one lexer -/

/-- Of two runs one goes on from where the other one stops. -/
theorem Steps.compare (h : Steps l xs m) (h' : Steps l ys k) :
    (∃ zs, ys = xs ++ zs ∧ Steps m zs k) ∨ ∃ zs, xs = ys ++ zs ∧ Steps k zs m := by
  induction h generalizing ys with
  | nil l => exact .inl ⟨ys, rfl, h'⟩
  | @cons l m n x xs hnext hsteps ih =>
      cases h' with
      | nil => exact .inr ⟨x :: xs, rfl, .cons hnext hsteps⟩
      | cons hnext' hsteps' =>
          rw [hnext] at hnext'
          cases hnext'
          rcases ih hsteps' with ⟨zs, rfl, hzs⟩ | ⟨zs, rfl, hzs⟩
          · exact .inl ⟨zs, rfl, hzs⟩
          · exact .inr ⟨zs, rfl, hzs⟩

theorem Steps.length_add_le (h : Steps l xs m) (hsane : l.Sane) :
    xs.length + m.rest.length ≤ l.rest.length := by
  induction h with
  | nil => rw [List.length_nil, Nat.zero_add]
  | cons hnext _ ih =>
      have hlt := next_length_lt hsane hnext
      have hle := ih (next_takes hsane hnext).sane
      rw [List.length_cons]
      omega

theorem length_skipTrivia_le (l : Lexer) : l.skipTrivia.rest.length ≤ l.rest.length :=
  (List.dropWhile_suffix isTrivia).length_le

/-- No step leads from one place to the same place. -/
theorem Steps.eq_nil_of_rest (h : Steps l xs m) (hsane : l.Sane)
    (hrest : m.skipTrivia.rest = l.skipTrivia.rest) : xs = [] := by
  cases h with
  | nil => rfl
  | @cons _ n _ x xs hnext hsteps =>
      have htakes := next_takes hsane hnext
      obtain ⟨text, hmoves, hspells, -⟩ := htakes.text
      have hlength := congrArg List.length hmoves.rest
      have hpos := List.length_pos_iff.2 hspells.ne_nil
      have hle := hsteps.length_add_le htakes.sane
      have hskip := length_skipTrivia_le m
      rw [hrest] at hskip
      rw [List.length_append] at hlength
      omega

/-! ## Up to a failure -/

/-- The text in front of a failure has the tokens that are found up to it. -/
theorem tokenize_front {source : String} {n : Lexer} {e : LexError} {front : List Char}
    (hsteps : Steps (ofString source) xs m) (hend : m.next = (some (.error e), n))
    (hmoves : (ofString source).Moves front m.skipTrivia) (hnested : Nested front) :
    tokenize (String.ofList front) = .ok xs := by
  have hsane : (ofString source).Sane := sane_of_not_loneDot rfl
  obtain ⟨c, rest, hrest, hunopened, -⟩ := next_eq_error hend
  have hsource : source.toList = (String.ofList front).toList ++ c :: rest := by
    rw [hmoves.toList_eq, hrest, String.toList_ofList]
  have hbreaks : Breaks (c :: rest) := by
    cases hunopened with
    | block => exact breaks_cons (by decide) rest
    | paren => exact breaks_cons (by decide) rest
  cases htokens : tokenize (String.ofList front) with
  | error e' =>
      obtain ⟨before, d, hbefore, -, hpremature, -⟩ := exists_premature_of_tokenize htokens
      rw [String.toList_ofList] at hbefore
      exact (hnested _ hbefore hpremature).elim
  | ok ys =>
      -- The run over the text in front is the beginning of the one over the source.
      obtain ⟨k, hfront, -, hnil, -, -⟩ := exists_steps_to_end htokens
      have hstart : Shifted {} (c :: rest) (ofString (String.ofList front)) (ofString source) :=
        ⟨hsource, rfl, rfl, rfl, rfl, rfl, rfl⟩
      obtain ⟨k', hys, hk⟩ := hstart.steps hbreaks hfront
      rw [map_moved_zero] at hys
      have hplace : k'.skipTrivia.rest = m.skipTrivia.rest := by
        rw [(hk.skipTrivia hbreaks).rest, hnil, hrest, List.nil_append]
      rcases hsteps.compare hys with ⟨zs, rfl, hzs⟩ | ⟨zs, rfl, hzs⟩
      · rw [hzs.eq_nil_of_rest (hsteps.sane hsane) hplace, List.append_nil]
      · rw [hzs.eq_nil_of_rest (hys.sane hsane) hplace.symm, List.append_nil]

/-- The failure starts where the text in front of it ends. -/
theorem exists_front {source : String} {n : Lexer} {e : LexError}
    (hsteps : Steps (ofString source) xs m) (hend : m.next = (some (.error e), n)) :
    ∃ front, front <+: source.toList ∧ byteLength front = e.span.lo ∧
      tokenize (String.ofList front) = .ok xs := by
  have hsane : (ofString source).Sane := sane_of_not_loneDot rfl
  obtain ⟨front, hmoves, hnested⟩ := (hsteps.nests hsane (nests_ofString source)).skipTrivia
  obtain ⟨c, rest, -, hunopened, -⟩ := next_eq_error hend
  refine ⟨front, ⟨_, hmoves.toList_eq.symm⟩, ?_, tokenize_front hsteps hend hmoves hnested⟩
  rw [← hmoves.offset_eq]
  cases hunopened with
  | block => rfl
  | paren => rfl

/-- The failure has a character of its own. -/
theorem Steps.length_lt_of_error {n : Lexer} {e : LexError} (hsteps : Steps l xs m) (hsane : l.Sane)
    (hend : m.next = (some (.error e), n)) : xs.length < l.rest.length := by
  obtain ⟨c, rest, hrest, -, -⟩ := next_eq_error hend
  have hle := hsteps.length_add_le hsane
  have hskip := m.length_skipTrivia_le
  rw [hrest, List.length_cons] at hskip
  omega

end Lexer

/-- The answers of a new lexer, call by call, are the tokens of the source and then nothing.
If the source has none because of a failure, they are the tokens of the text in front of
the failure, the failure once, and then nothing. There are no more answers than bytes. -/
theorem answers_as_tokenize (source : String) :
    (∀ xs, tokenize source = .ok xs → (Lexer.ofString source).Answers (xs.map .ok)) ∧
    (∀ e, tokenize source = .error e → ∃ front xs, front <+: source.toList ∧
      byteLength front = e.span.lo ∧ tokenize (String.ofList front) = .ok xs ∧
      (Lexer.ofString source).Answers (xs.map .ok ++ [.error e])) ∧
    ∀ calls, (Lexer.take calls (.ofString source)).countP Option.isSome ≤
      byteLength source.toList := by
  have hsane : (Lexer.ofString source).Sane := Lexer.sane_of_not_loneDot rfl
  obtain ⟨xs, m, n, hsteps, ⟨hend, hrun⟩ | ⟨e, hend, hrun⟩⟩ := Lexer.run_cases source
  · have htokens : tokenize source = .ok xs := by rw [tokenize, hrun]
    have hanswers := Lexer.answers_of_none hsteps hend
    refine ⟨?_, ?_, ?_⟩
    · intro ys hys
      rw [htokens] at hys
      cases hys
      exact hanswers
    · intro e he
      rw [htokens] at he
      cases he
    · intro calls
      calc _ ≤ (xs.map Except.ok).length := hanswers.count_le calls
        _ ≤ source.toList.length := by
          rw [List.length_map]
          exact hsteps.length_le hsane
        _ ≤ byteLength source.toList := length_le_byteLength _
  · have hfails : tokenize source = .error e := by rw [tokenize, hrun]
    have hanswers := Lexer.answers_of_error hsteps hend
    refine ⟨?_, ?_, ?_⟩
    · intro ys hys
      rw [hfails] at hys
      cases hys
    · intro e' he
      rw [hfails] at he
      cases he
      obtain ⟨front, hfront, hlength, htokens⟩ := Lexer.exists_front hsteps hend
      exact ⟨front, xs, hfront, hlength, htokens, hanswers⟩
    · intro calls
      calc _ ≤ (xs.map Except.ok ++ [Except.error e]).length := hanswers.count_le calls
        _ ≤ source.toList.length := by
          rw [List.length_append, List.length_map, List.length_singleton]
          exact hsteps.length_lt_of_error hsane hend
        _ ≤ byteLength source.toList := length_le_byteLength _

/-- The point behind the number is given before the parenthesis fails, as it is where the
source ends with it. -/
theorem answers_as_tokenize_held_back :
    (Lexer.ofString "1.").Answers
      [.ok ⟨⟨0, 1, 1⟩, .number (.ofRatio 1 1)⟩, .ok ⟨⟨1, 2, 1⟩, .binop "."⟩] ∧
    tokenize "1.)2" = .error ⟨.unopenedParen, ⟨2, 3, 1⟩⟩ ∧
    ∃ front xs, front <+: "1.)2".toList ∧ byteLength front = 2 ∧
      tokenize (String.ofList front) = .ok xs ∧
      (Lexer.ofString "1.)2").Answers
        (xs.map .ok ++ [.error ⟨.unopenedParen, ⟨2, 3, 1⟩⟩]) := by
  have hok : tokenize "1." = .ok [⟨⟨0, 1, 1⟩, .number (.ofRatio 1 1)⟩, ⟨⟨1, 2, 1⟩, .binop "."⟩] :=
    rfl
  have herror : tokenize "1.)2" = .error ⟨.unopenedParen, ⟨2, 3, 1⟩⟩ := rfl
  exact ⟨(answers_as_tokenize "1.").1 _ hok, herror,
    (answers_as_tokenize "1.)2").2.1 _ herror⟩

end Lila
