import Lila.Proofs.Token.Reading
import Lila.Tree.Printer
import Mathlib.Data.List.Forall2

/-! # The tokens of a printed tree

The text of a tree is read back as the tokens of the tree, if the names and the
operators in it are spelled as such and the numbers are those that their texts
stand for. A piece of the text is always followed by a blank, a bracket, a comma or
a line break, and so no token runs into the next one.
-/

namespace Lila

def separated : List (List Token) → List Token
  | [] => []
  | [item] => item
  | item :: next :: items => item ++ .comma :: separated (next :: items)

namespace Tree

def appliedTokens (name : String) : List (List Token) → List Token
  | [] => [.ident name]
  | items => .ident name :: .parenOpen :: separated items ++ [.parenClose]

mutual

def tokens : Tree → List Token
  | .number x => [.number x]
  | .binary op lhs rhs => .parenOpen :: (lhs.tokens ++ .binop op :: rhs.tokens) ++ [.parenClose]
  | .call name args => appliedTokens name (tokensAll args)
  | .value name expr => .kwVal :: .ident name :: .assign :: expr.tokens
  | .definition name params body =>
      .kwDef :: appliedTokens name (params.map fun param => [.ident param]) ++
        .assign :: body.tokens
  | .block _ body => .blockOpen :: .newline :: tokensLines body ++ [.blockClose]

def tokensAll : List Tree → List (List Token)
  | [] => []
  | tree :: trees => tree.tokens :: tokensAll trees

def tokensLines : List Tree → List Token
  | [] => []
  | tree :: trees => tree.tokens ++ .newline :: tokensLines trees

end

mutual

def numbers : Tree → List Double
  | .number x => [x]
  | .binary _ lhs rhs => lhs.numbers ++ rhs.numbers
  | .call _ args => numbersAll args
  | .value _ expr => expr.numbers
  | .definition _ _ body => body.numbers
  | .block _ body => numbersAll body

def numbersAll : List Tree → List Double
  | [] => []
  | tree :: trees => tree.numbers ++ numbersAll trees

end

end Tree

/-! ## Legible tokens -/

/-- A source with the number's text is the number. -/
def Double.Legible (x : Double) : Prop :=
  ∃ lexeme, tokenize x.display = .ok [lexeme] ∧ lexeme.token = .number x

/-- The token is read from the text that it is printed as. -/
def Token.Legible : Token → Prop
  | .number x => x.Legible
  | .ident name => Spells name.toList (.ident name)
  | .binop op => Spells op.toList (.binop op)
  | _ => True

theorem Spells.legible {text : List Char} {token : Token} (h : Spells text token)
    (hnumber : ∀ x, token ≠ .number x) : token.Legible := by
  cases h with
  | number h => exact (hnumber _ rfl).elim
  | word hfirst h =>
      have hspells := Spells.word hfirst h
      obtain ⟨-, htoken⟩ | ⟨-, htoken⟩ | htoken := Lexer.wordToken_cases _
      · rw [htoken]
        trivial
      · rw [htoken]
        trivial
      · rw [htoken] at hspells ⊢
        rwa [Token.Legible, String.toList_ofList]
  | operator hfirst h =>
      have hspells := Spells.operator hfirst h
      obtain ⟨-, htoken⟩ | ⟨-, htoken⟩ | htoken := Lexer.operatorToken_cases _
      · rw [htoken]
        trivial
      · rw [htoken]
        trivial
      · rw [htoken] at hspells ⊢
        rwa [Token.Legible, String.toList_ofList]
  | newline | comma | blockOpen | blockClose | parenOpen | parenClose => trivial

namespace Tree

mutual

/-- The names, operators and numbers in the tree are legible. -/
def Legible : Tree → Prop
  | .number x => x.Legible
  | .binary op lhs rhs => Token.Legible (.binop op) ∧ lhs.Legible ∧ rhs.Legible
  | .call name args => Token.Legible (.ident name) ∧ LegibleAll args
  | .value name expr => Token.Legible (.ident name) ∧ expr.Legible
  | .definition name params body =>
      Token.Legible (.ident name) ∧ (∀ param ∈ params, Token.Legible (.ident param)) ∧ body.Legible
  | .block _ body => LegibleAll body

def LegibleAll : List Tree → Prop
  | [] => True
  | tree :: trees => tree.Legible ∧ LegibleAll trees

end

end Tree

namespace Lexer

theorem reads_of_spells {text : List Char} {token : Token} (h : Spells text token)
    (htoken : (∃ name, token = .ident name) ∨ ∃ op, token = .binop op) {more : List Char}
    (hmore : Apart more) : Reads text [token] more := by
  cases h with
  | word hfirst h => exact reads_word hfirst h hmore.alphanum
  | operator hfirst h => exact reads_operator hfirst h hmore.operator
  | number | newline | comma | blockOpen | blockClose | parenOpen | parenClose => simp at htoken

theorem reads_ident {name : String} (h : Token.Legible (.ident name)) {more : List Char}
    (hmore : Apart more) : Reads name.toList [.ident name] more :=
  reads_of_spells h (.inl ⟨name, rfl⟩) hmore

theorem reads_binop {op : String} (h : Token.Legible (.binop op)) {more : List Char}
    (hmore : Apart more) : Reads op.toList [.binop op] more :=
  reads_of_spells h (.inr ⟨op, rfl⟩) hmore

theorem reads_double {x : Double} (h : x.Legible) {more : List Char} (hmore : Apart more) :
    Reads x.display.toList [.number x] more := by
  obtain ⟨lexeme, htokenize, hlexeme⟩ := h
  exact reads_number htokenize hlexeme hmore.digit hmore.head_ne

theorem reads_blank (more : List Char) : Reads [' '] [] more :=
  reads_trivia (List.all_eq_true.1 (by decide)) more

end Lexer

namespace Tree

open Lexer

/-! ## Parts of the text -/

/-- The text is read as the tokens wherever it does not run into what follows. -/
def Shows (text : String) (tokens : List Token) : Prop :=
  ∀ more, Apart more → Reads text.toList tokens more

theorem apart_cons {c : Char} {more : List Char} (hc : (c.isAlphanum || isOperatorChar c) = false) :
    Apart (c :: more) := ends_cons.2 hc

/-- Texts with commas between them. -/
theorem reads_intercalate {texts : List String} {items : List (List Token)}
    (h : List.Forall₂ Shows texts items) {more : List Char} (hmore : Apart more) :
    Reads (", ".intercalate texts).toList (separated items) more := by
  induction h with
  | nil => exact reads_nil more
  | @cons text item texts items htext hrest ih =>
      cases hrest with
      | nil =>
          rw [String.intercalate_singleton]
          exact htext more hmore
      | @cons next item' texts items hnext hrest =>
          have hcomma := (reads_comma _).append ((reads_blank _).append ih)
          have hall := (htext _ (apart_cons (by decide))).append hcomma
          rw [String.intercalate_cons_cons, String.toList_append, String.toList_append,
            List.append_assoc]
          exact hall

theorem reads_applied {name : String} (hname : Token.Legible (.ident name)) {texts : List String}
    {items : List (List Token)} (h : List.Forall₂ Shows texts items) :
    Shows (applied name texts) (appliedTokens name items) := by
  intro more hmore
  have hclose : Apart (')' :: more) := apart_cons (by decide)
  have hitems := reads_parens (reads_intercalate h hclose)
  have hall := (reads_ident hname (apart_cons (by decide))).append hitems
  cases h with
  | nil => exact reads_ident hname hmore
  | cons htext hrest => simpa [applied, appliedTokens] using hall

/-- The part of a binding behind its name. -/
theorem reads_assign {text : String} {tokens : List Token} (h : Shows text tokens)
    {more : List Char} (hmore : Apart more) :
    Reads (' ' :: '=' :: ' ' :: text.toList) (.assign :: tokens) more := by
  have hassign : Reads ['='] [.assign] (' ' :: text.toList ++ more) :=
    reads_operator (by decide) (by simp) (ends_cons.2 (by decide))
  exact (reads_blank _).append (hassign.append ((reads_blank _).append (h more hmore)))

theorem reads_keyword (c : Char) (text : List Char) (hc : c.isAlpha = true)
    (htext : text.all Char.isAlphanum = true) (more : List Char) :
    Reads (c :: text ++ [' ']) [wordToken (c :: text)] more :=
  (reads_word hc (List.all_eq_true.1 htext) (ends_cons.2 (by decide))).append (reads_blank more)

theorem forall₂_shows_ident {names : List String}
    (h : ∀ name ∈ names, Token.Legible (.ident name)) :
    List.Forall₂ Shows names (names.map fun name => [.ident name]) := by
  induction names with
  | nil => exact .nil
  | cons name names ih =>
      obtain ⟨hname, hnames⟩ := List.forall_mem_cons.1 h
      exact .cons (fun _ hmore => reads_ident hname hmore) (ih hnames)

theorem reads_indent (depth : Nat) (more : List Char) : Reads (indent depth).toList [] more := by
  refine reads_trivia (fun c hc => ?_) more
  rw [indent, String.toList_ofList] at hc
  rw [List.eq_of_mem_replicate hc]
  decide

/-! ## Trees -/

mutual

theorem shows_display : ∀ tree : Tree, tree.Legible → Shows tree.display tree.tokens
  | .number _, h => fun _ hmore => reads_double h hmore
  | .binary op lhs rhs, h => by
      intro more hmore
      obtain ⟨hop, hlhs, hrhs⟩ := h
      have hright := (reads_blank _).append
        (shows_display rhs hrhs (')' :: more) (apart_cons (by decide)))
      have hop' := (reads_blank _).append ((reads_binop hop (apart_cons (by decide))).append hright)
      have hall := (shows_display lhs hlhs _ (apart_cons (by decide))).append hop'
      simpa [display, tokens] using reads_parens hall
  | .call _ args, h => reads_applied h.1 (shows_displayAll args h.2)
  | .value name expr, h => by
      intro more hmore
      have hname := (reads_ident h.1 (apart_cons (by decide))).append
        (reads_assign (shows_display expr h.2) hmore)
      have hall := (reads_keyword 'v' ['a', 'l'] (by decide) (by decide) _).append
        hname
      simpa [display, tokens, wordToken] using hall
  | .definition name params body, h => by
      intro more hmore
      obtain ⟨hname, hparams, hbody⟩ := h
      have hassign := reads_assign (shows_display body hbody) hmore
      have happlied := reads_applied hname (forall₂_shows_ident hparams)
      have hall := (reads_keyword 'd' ['e', 'f'] (by decide) (by decide) _).append
        ((happlied _ (apart_cons (by decide))).append hassign)
      simpa [display, tokens, wordToken] using hall
  | .block depth body, h => by
      intro more hmore
      have hlines :=
        (reads_displayLines body h (depth + 1) _).append (reads_indent depth ('}' :: more))
      have hall := reads_braces ((reads_newline _).append hlines)
      simpa [display, tokens] using hall

theorem shows_displayAll :
    ∀ trees : List Tree, LegibleAll trees → List.Forall₂ Shows (displayAll trees) (tokensAll trees)
  | [], _ => .nil
  | tree :: trees, h => .cons (shows_display tree h.1) (shows_displayAll trees h.2)

/-- Each line ends in a line break, whatever follows. -/
theorem reads_displayLines :
    ∀ trees : List Tree, LegibleAll trees → ∀ (depth : Nat) (more : List Char),
      Reads (displayLines (indent depth) trees).toList (tokensLines trees) more
  | [], _, _, more => reads_nil more
  | tree :: trees, h, depth, more => by
      have hrest := (reads_newline _).append (reads_displayLines trees h.2 depth more)
      have hline := (shows_display tree h.1 _ (apart_cons (by decide))).append hrest
      simpa [displayLines, tokensLines] using (reads_indent depth _).append hline

end

/-- The text of a legible tree is a source with the tokens of the tree. -/
theorem exists_tokenize_display {tree : Tree} (h : tree.Legible) :
    ∃ lexemes, tokenize tree.display = .ok lexemes ∧ lexemes.map Lexeme.token = tree.tokens :=
  exists_tokenize_of_reads (shows_display tree h [] (ends_nil _))

end Tree

end Lila
