import Lila.Proofs.Grammar.Soundness
import Lila.Proofs.Token.Steps

/-! # Matching brackets

A closing bracket matches if it is of the kind of the innermost open one. The lexer
does not ask for that: it counts the two kinds apart, and it lets brackets stay open.
Every segment that the grammar derives closes what it opens, so that a program leaves
nothing open, and the counters of the lexer end where they began.
-/

namespace Lila

inductive Bracket where
  | block
  | paren
deriving DecidableEq

/-- The brackets open behind a token, given those open in front of it, the innermost
first. A closing bracket has to close the innermost one. -/
def Token.pass : Token → List Bracket → Option (List Bracket)
  | .blockOpen, stack => some (.block :: stack)
  | .parenOpen, stack => some (.paren :: stack)
  | .blockClose, .block :: stack => some stack
  | .parenClose, .paren :: stack => some stack
  | .blockClose, _ | .parenClose, _ => none
  | _, stack => some stack

def openBehind (stack : List Bracket) (ts : List Token) : Option (List Bracket) :=
  ts.foldlM (fun stack token => token.pass stack) stack

/-- Each closing bracket closes the innermost open one, and none stays open. -/
def Matched (ts : List Token) : Prop := openBehind [] ts = some []

instance : DecidablePred Matched := fun ts =>
  inferInstanceAs (Decidable (openBehind [] ts = some []))

theorem openBehind_cons (stack : List Bracket) (token : Token) (ts : List Token) :
    openBehind stack (token :: ts) = (token.pass stack).bind fun inner => openBehind inner ts :=
  List.foldlM_cons

theorem openBehind_append (stack : List Bracket) (ts us : List Token) :
    openBehind stack (ts ++ us) = (openBehind stack ts).bind fun inner => openBehind inner us :=
  List.foldlM_append

/-- Brackets do not match merely because as many are closed as were opened. -/
example : ¬ Matched [.blockOpen, .parenOpen, .blockClose, .parenClose] ∧
    Matched [.blockOpen, .parenOpen, .comma, .parenClose, .blockClose, .newline] := by decide

/-! ## Segments -/

/-- The tokens leave the brackets open that were open before, whichever these are. -/
def Neutral (ts : List Token) : Prop := ∀ stack, openBehind stack ts = some stack

theorem neutral_nil : Neutral [] := fun _ => rfl

namespace Neutral

variable {ts us : List Token}

theorem append (h : Neutral ts) (h' : Neutral us) : Neutral (ts ++ us) := by
  intro stack
  rw [openBehind_append, h stack]
  exact h' stack

theorem cons {token : Token} (htoken : ∀ stack, token.pass stack = some stack)
    (h : Neutral ts) : Neutral (token :: ts) := by
  intro stack
  rw [openBehind_cons, htoken stack]
  exact h stack

theorem between {opening closing : Token} {kind : Bracket}
    (hopen : ∀ stack, opening.pass stack = some (kind :: stack))
    (hclose : ∀ stack, closing.pass (kind :: stack) = some stack) (h : Neutral ts) :
    Neutral (opening :: ts ++ [closing]) := by
  intro stack
  rw [List.cons_append, openBehind_cons, hopen stack, Option.bind_some, openBehind_append,
    h (kind :: stack), Option.bind_some, openBehind_cons, hclose stack]
  rfl

theorem parens (h : Neutral ts) : Neutral (.parenOpen :: ts ++ [.parenClose]) :=
  h.between (fun _ => rfl) fun _ => rfl

theorem braces (h : Neutral ts) : Neutral (.blockOpen :: ts ++ [.blockClose]) :=
  h.between (fun _ => rfl) fun _ => rfl

end Neutral

namespace Grammar

theorem neutral_newlines (count : Nat) : Neutral (newlines count) := by
  induction count with
  | zero => exact neutral_nil
  | succ count ih => exact ih.cons fun _ => rfl

theorem ParameterList.neutral {ts : List Token} {names : List String} (h : ParameterList ts names) :
    Neutral ts := by
  induction h with
  | one name => exact neutral_nil.cons fun _ => rfl
  | cons name _ ih => exact (ih.cons fun _ => rfl).cons fun _ => rfl

theorem Parameters.neutral {ts : List Token} {names : List String} (h : Parameters ts names) :
    Neutral ts := by
  cases h with
  | none => exact neutral_nil
  | some h => exact h.neutral.parens

variable {fold : Nat → List Tree → Tree}

mutual

theorem Expression.neutral {Γ : Env} {d : Nat} {ts : List Token} {tree : Tree} :
    Expression fold Γ d ts tree → Neutral ts
  | .mk hfirst hlinks _ => hfirst.neutral.append hlinks.neutral

theorem Operators.neutral {Γ : Env} {d : Nat} {ts : List Token} {links : Links} :
    Operators fold Γ d ts links → Neutral ts
  | .nil .. => neutral_nil
  | .cons _ hoperand hlinks => (hoperand.neutral.cons fun _ => rfl).append hlinks.neutral

theorem Operand.neutral {Γ : Env} {d : Nat} {ts : List Token} {tree : Tree} :
    Operand fold Γ d ts tree → Neutral ts
  | .number .. => neutral_nil.cons fun _ => rfl
  | .name .. => neutral_nil.cons fun _ => rfl
  | .call _ hargs => hargs.neutral.parens.cons fun _ => rfl
  | .group h => h.neutral.parens
  | .block before behind h =>
      (((neutral_newlines before).append h.neutral).append (neutral_newlines behind)).braces

theorem Arguments.neutral {Γ : Env} {d : Nat} {ts : List Token} {args : List Tree} :
    Arguments fold Γ d ts args → Neutral ts
  | .one h => h.neutral
  | .cons h hargs => h.neutral.append (hargs.neutral.cons fun _ => rfl)

theorem Statement.neutral {Γ : Env} {d : Nat} {ts : List Token} {tree : Tree} :
    Statement fold Γ d ts tree → Neutral ts
  | .value _ h => ((h.neutral.cons fun _ => rfl).cons fun _ => rfl).cons fun _ => rfl
  | .definition _ hparams _ h =>
      ((hparams.neutral.append (h.neutral.cons fun _ => rfl)).cons fun _ => rfl).cons fun _ => rfl
  | .expression h => h.neutral

theorem Body.neutral {Γ : Env} {d : Nat} {ts : List Token} {body : List Tree} :
    Body fold Γ d ts body → Neutral ts
  | .last h => h.neutral
  | .cons between h hbody =>
      (h.neutral.append (neutral_newlines (between + 1))).append hbody.neutral

end

theorem Program.matched {ts : List Token} {tree : Tree} (h : Program fold ts tree) :
    Matched ts := by
  cases h with
  | mk before behind h =>
      exact (((neutral_newlines before).append h.neutral).append (neutral_newlines behind)) []

end Grammar

/-! ## The counters of the lexer -/

/-- Words are no brackets, and neither are runs of operator characters. -/
theorem pass_wordToken (text : List Char) (stack : List Bracket) :
    (Lexer.wordToken text).pass stack = some stack := by
  obtain ⟨-, h⟩ | ⟨-, h⟩ | h := Lexer.wordToken_cases text <;> rw [h] <;> rfl

theorem pass_operatorToken (text : List Char) (stack : List Bracket) :
    (Lexer.operatorToken text).pass stack = some stack := by
  obtain ⟨-, h⟩ | ⟨-, h⟩ | h := Lexer.operatorToken_cases text <;> rw [h] <;> rfl

/-- A token opens and closes the brackets that its text has in it. -/
theorem Spells.count_pass {text : List Char} {token : Token} {stack stack' : List Bracket}
    (h : Spells text token) (hpass : token.pass stack = some stack') :
    stack'.count .block + text.count '}' = stack.count .block + text.count '{' ∧
      stack'.count .paren + text.count ')' = stack.count .paren + text.count '(' := by
  have hplain : token.pass stack = some stack → (∀ c ∈ text, isCounted c = false) →
      stack'.count .block + text.count '}' = stack.count .block + text.count '{' ∧
        stack'.count .paren + text.count ')' = stack.count .paren + text.count '(' := by
    intro hsame htext
    obtain rfl := Option.some.inj (hpass.symm.trans hsame)
    have hzero : ∀ c, isCounted c = true → text.count c = 0 := fun c => count_eq_zero htext
    rw [hzero '{' (by decide), hzero '}' (by decide), hzero '(' (by decide), hzero ')' (by decide)]
    exact ⟨rfl, rfl⟩
  cases h with
  | number h => exact hplain rfl (Literal.written_of_value? h).isCounted_eq_false
  | word hfirst h =>
      have hletter : Uncounted Char.isAlpha := by decide
      exact hplain (pass_wordToken _ stack) (hletter.cons (by decide) hfirst h)
  | operator hfirst h =>
      have hoperator : Uncounted isOperatorChar := by decide
      exact hplain (pass_operatorToken _ stack) (hoperator.cons hoperator hfirst h)
  | newline | comma =>
      cases hpass
      exact ⟨rfl, rfl⟩
  | blockOpen | parenOpen =>
      cases hpass
      simp
  | blockClose | parenClose =>
      rcases stack with _ | ⟨_ | _, stack⟩ <;> cases hpass
      simp

namespace Lexer

structure Counts (l : Lexer) (stack : List Bracket) : Prop where
  blocks : l.openBlocks = stack.count .block
  parens : l.openParens = stack.count .paren

theorem Takes.counts {l m : Lexer} {x : Lexeme} {stack stack' : List Bracket} (h : l.Takes x m)
    (hl : l.Counts stack) (hpass : x.token.pass stack = some stack') : m.Counts stack' := by
  obtain ⟨text, hmoves, hspells, -⟩ := h.text
  obtain ⟨hblock, hparen⟩ := hspells.count_pass hpass
  have hblocks := hmoves.blocks
  have hparens := hmoves.parens
  rw [hl.blocks] at hblocks
  rw [hl.parens] at hparens
  exact ⟨by omega, by omega⟩

theorem Steps.counts {l m : Lexer} {xs : List Lexeme} {stack stack' : List Bracket}
    (h : Steps l xs m) (hsane : l.Sane) (hl : l.Counts stack)
    (hxs : openBehind stack (xs.map Lexeme.token) = some stack') : m.Counts stack' := by
  induction h generalizing stack with
  | nil =>
      cases hxs
      exact hl
  | cons hnext _ ih =>
      have htakes := next_takes hsane hnext
      rw [List.map_cons, openBehind_cons] at hxs
      obtain ⟨inner, hpass, hxs⟩ := Option.bind_eq_some_iff.1 hxs
      exact ih htakes.sane (htakes.counts ⟨hl.blocks, hl.parens⟩ hpass) hxs

end Lexer

/-- Where the tokens of a source match, the lexer ends with both counters at zero. -/
theorem Matched.exists_run {source : String} {lexemes : List Lexeme}
    (hmatched : Matched (lexemes.map Lexeme.token)) (h : tokenize source = .ok lexemes) :
    ∃ l, (Lexer.ofString source).run = .ok lexemes l ∧ l.openBlocks = 0 ∧ l.openParens = 0 := by
  have hsane : (Lexer.ofString source).Sane := Lexer.sane_of_not_loneDot rfl
  obtain ⟨xs, m, n, hsteps, ⟨hend, hrun⟩ | ⟨e, -, hrun⟩⟩ := Lexer.run_cases source
  · rw [tokenize, hrun] at h
    cases h
    have hcounts := hsteps.counts hsane ⟨rfl, rfl⟩ hmatched
    obtain ⟨-, rfl⟩ := (Lexer.next_eq_none (hsteps.failed hsane)).1 hend
    exact ⟨_, hrun, hcounts.blocks, hcounts.parens⟩
  · rw [tokenize, hrun] at h
    cases h

namespace Parser

/-- The brackets of a program match, and when a lexer has read a program from a source
no bracket of either kind is open for it. -/
theorem parse_matched :
    (∀ lexemes tree, parse lexemes = .ok tree → Matched (lexemes.map Lexeme.token)) ∧
    ∀ source lexemes tree, tokenize source = .ok lexemes → parse lexemes = .ok tree →
      ∃ l, (Lexer.ofString source).run = .ok lexemes l ∧ l.openBlocks = 0 ∧ l.openParens = 0 := by
  have hmatched : ∀ lexemes tree, parse lexemes = .ok tree → Matched (lexemes.map Lexeme.token) :=
    fun _ _ h => (program_of_parse h).matched
  exact ⟨hmatched, fun _ lexemes tree htokens h => (hmatched lexemes tree h).exists_run htokens⟩

/-- Parentheses of parameters, of a group in braces, and of arguments. -/
theorem parse_matched_definition :
    ∃ lexemes l, tokenize "def f(a) = \x7b(a)\x7d\nf(f)" = .ok lexemes ∧
      parse lexemes = .ok (.block 0 [.definition "f" ["a"] (.call "a" []),
        .call "f" [.call "f" []]]) ∧ Matched (lexemes.map Lexeme.token) ∧
      (Lexer.ofString "def f(a) = \x7b(a)\x7d\nf(f)").run = .ok lexemes l ∧
      l.openBlocks = 0 ∧ l.openParens = 0 := by
  obtain ⟨lexemes, htokens, htree⟩ : ∃ lexemes,
      tokenize "def f(a) = \x7b(a)\x7d\nf(f)" = .ok lexemes ∧
      parse lexemes = .ok (.block 0 [.definition "f" ["a"] (.call "a" []),
        .call "f" [.call "f" []]]) := by
    refine ⟨[⟨⟨0, 3, 1⟩, .kwDef⟩, ⟨⟨4, 5, 1⟩, .ident "f"⟩, ⟨⟨5, 6, 1⟩, .parenOpen⟩,
      ⟨⟨6, 7, 1⟩, .ident "a"⟩, ⟨⟨7, 8, 1⟩, .parenClose⟩, ⟨⟨9, 10, 1⟩, .assign⟩,
      ⟨⟨11, 12, 1⟩, .blockOpen⟩, ⟨⟨12, 13, 1⟩, .parenOpen⟩, ⟨⟨13, 14, 1⟩, .ident "a"⟩,
      ⟨⟨14, 15, 1⟩, .parenClose⟩, ⟨⟨15, 16, 1⟩, .blockClose⟩, ⟨⟨16, 17, 1⟩, .newline⟩,
      ⟨⟨17, 18, 2⟩, .ident "f"⟩, ⟨⟨18, 19, 2⟩, .parenOpen⟩, ⟨⟨19, 20, 2⟩, .ident "f"⟩,
      ⟨⟨20, 21, 2⟩, .parenClose⟩], rfl, ?_⟩
    decide +kernel
  obtain ⟨l, hrun, hblocks, hparens⟩ := parse_matched.2 _ lexemes _ htokens htree
  exact ⟨lexemes, l, htokens, htree, parse_matched.1 lexemes _ htree, hrun, hblocks, hparens⟩

end Parser

end Lila
