import Lila.Proofs.Grammar.Completeness
import Lila.Proofs.Grammar.Weakening

/-! # Brackets around a program

A program that is a single expression may stand in braces or in parentheses. In braces
it is read in a scope of its own and one block deeper. It needs no name of the scopes
around it and binds none in them, so that only the depths of its blocks change. The
parentheses change nothing; but inside them there is no place for line breaks.
-/

namespace Lila

namespace Tree

mutual

def deepen : Tree → Tree
  | .number x => .number x
  | .binary op lhs rhs => .binary op lhs.deepen rhs.deepen
  | .call name args => .call name (deepenAll args)
  | .value name expr => .value name expr.deepen
  | .definition name params body => .definition name params body.deepen
  | .block depth body => .block (depth + 1) (deepenAll body)

def deepenAll : List Tree → List Tree
  | [] => []
  | tree :: trees => tree.deepen :: deepenAll trees

end

theorem deepen_ofBody (depth : Nat) (body : List Tree) :
    (ofBody depth body).deepen = ofBody (depth + 1) (deepenAll body) := by
  cases body with
  | nil => rfl
  | cons tree trees =>
      cases trees with
      | nil => rfl
      | cons next trees => rfl

end Tree

namespace Grammar

open Lila.Tree (deepen deepenAll)

theorem Env.after_deepen (Γ : Env) (tree : Tree) : Γ.after tree.deepen = Γ.after tree := by
  cases tree <;> rfl

/-! ## One block deeper

The number of open blocks goes into the depths of the tree and nowhere else. -/

mutual

theorem Expression.deepen {Γ : Env} {d : Nat} {ts : List Token} {tree : Tree} :
    Expression .ofBody Γ d ts tree → Expression .ofBody Γ (d + 1) ts tree.deepen
  | .mk hfirst hlinks hgroup =>
      .mk hfirst.deepen hlinks.deepen (hgroup.map fun _ _ _ => rfl)

theorem Operators.deepen {Γ : Env} {d : Nat} {ts : List Token} {links : Links} :
    Operators .ofBody Γ d ts links →
      Operators .ofBody Γ (d + 1) ts (links.map (Prod.map id Tree.deepen))
  | .nil Γ d => .nil Γ (d + 1)
  | .cons op hoperand hlinks => .cons op hoperand.deepen hlinks.deepen

theorem Operand.deepen {Γ : Env} {d : Nat} {ts : List Token} {tree : Tree} :
    Operand .ofBody Γ d ts tree → Operand .ofBody Γ (d + 1) ts tree.deepen
  | .number Γ d value => .number Γ (d + 1) value
  | .name d hname => .name (d + 1) hname
  | .call hname hargs => .call hname hargs.deepen
  | .group h => .group h.deepen
  | .block before behind h => by
      rw [Tree.deepen_ofBody]
      exact .block before behind h.deepen

theorem Arguments.deepen {Γ : Env} {d : Nat} {ts : List Token} {args : List Tree} :
    Arguments .ofBody Γ d ts args → Arguments .ofBody Γ (d + 1) ts (deepenAll args)
  | .one h => .one h.deepen
  | .cons h hargs => .cons h.deepen hargs.deepen

theorem Statement.deepen {Γ : Env} {d : Nat} {ts : List Token} {tree : Tree} :
    Statement .ofBody Γ d ts tree → Statement .ofBody Γ (d + 1) ts tree.deepen
  | .value hname h => .value hname h.deepen
  | .definition hname hparams hdistinct h => .definition hname hparams hdistinct h.deepen
  | .expression h => .expression h.deepen

theorem Body.deepen {Γ : Env} {d : Nat} {ts : List Token} {body : List Tree} :
    Body .ofBody Γ d ts body → Body .ofBody Γ (d + 1) ts (deepenAll body)
  | .last h => .last h.deepen
  | .cons between h hbody => by
      have hnext := hbody.deepen
      rw [← Env.after_deepen] at hnext
      exact .cons between h.deepen hnext

end

/-! ## Single expressions -/

variable {fold : Nat → List Tree → Tree} {Γ : Env} {d : Nat} {ts : List Token} {tree : Tree}

/-- A body of one element is an expression. -/
theorem Body.expression_of_single (h : Body fold Γ d ts [tree]) : Expression fold Γ d ts tree := by
  generalize hbody : [tree] = body at h
  cases h with
  | last h =>
      cases hbody
      exact h
  | cons between h hnext =>
      cases hbody
      cases hnext

theorem Program.exists_expression (h : Program fold ts (.block 0 [tree])) :
    ∃ before us behind, ts = newlines before ++ us ++ newlines behind ∧
      Expression fold {} 0 us tree := by
  cases h with
  | mk before behind h => exact ⟨before, _, behind, rfl, h.expression_of_single⟩

theorem Program.braces (h : Program .ofBody ts (.block 0 [tree])) :
    Program .ofBody (.blockOpen :: ts ++ [.blockClose]) (.block 0 [tree.deepen]) := by
  obtain ⟨before, us, behind, hts, hexpr⟩ := h.exists_expression
  have hinside : Expression .ofBody (Env.inside {}) 1 us tree.deepen :=
    hexpr.deepen.weaken fun _ hname => Env.sees_inside.2 hname
  exact (Operand.of_body hts (.last hinside)).expression.program

/-- No line breaks are around tokens that neither start nor end with one. -/
theorem eq_of_ends {before behind : Nat} {us : List Token}
    (hts : ts = newlines before ++ us ++ newlines behind) (hfront : ts.head? ≠ some .newline)
    (hback : ts.getLast? ≠ some .newline) : ts = us := by
  cases before with
  | succ n =>
      rw [hts] at hfront
      exact (hfront rfl).elim
  | zero =>
      cases behind with
      | succ n =>
          have hlast : newlines (n + 1) = newlines n ++ [.newline] := List.replicate_succ'
          rw [hts, hlast, ← List.append_assoc, List.getLast?_concat] at hback
          exact (hback rfl).elim
      | zero =>
          rw [hts]
          exact List.append_nil us

theorem Program.parens (h : Program fold ts (.block 0 [tree])) (hfront : ts.head? ≠ some .newline)
    (hback : ts.getLast? ≠ some .newline) :
    Program fold (.parenOpen :: ts ++ [.parenClose]) (.block 0 [tree]) := by
  obtain ⟨before, us, behind, hts, hexpr⟩ := h.exists_expression
  rw [eq_of_ends hts hfront hback]
  exact (Operand.group hexpr).expression.program

end Grammar

namespace Parser

open Grammar

/-- Braces around a program that is a single expression make its blocks one block deeper.
Parentheses around it make no difference, if it has no line breaks at its ends. -/
theorem parse_enclosed {lexemes : List Lexeme} {tree : Tree}
    (h : parse lexemes = .ok (.block 0 [tree])) (opening closing : Span) :
    parse ([⟨opening, .blockOpen⟩] ++ lexemes ++ [⟨closing, .blockClose⟩]) =
        .ok (.block 0 [tree.deepen]) ∧
      (lexemes.head?.map Lexeme.token ≠ some .newline →
        lexemes.getLast?.map Lexeme.token ≠ some .newline →
        parse ([⟨opening, .parenOpen⟩] ++ lexemes ++ [⟨closing, .parenClose⟩]) =
          parse lexemes) := by
  have hprogram := program_of_parse h
  constructor
  · apply parse_of_program
    simpa using hprogram.braces
  · intro hfront hback
    rw [h]
    apply parse_of_program
    have hparens := hprogram.parens (by rwa [List.head?_map]) (by rwa [List.getLast?_map])
    simpa using hparens

/-- The block in a sum is at depth 1, and at depth 2 in braces around the sum. -/
theorem parse_enclosed_sum :
    let lexemes : List Lexeme := [.blockOpen, .kwVal, .ident "x", .assign, .number (.ofBits 0),
      .newline, .ident "x", .blockClose, .binop "+", .number (.ofBits 0)].map
        fun token => ⟨⟨0, 0, 1⟩, token⟩
    let elements : List Tree := [.value "x" (.number (.ofBits 0)), .call "x" []]
    parse lexemes = .ok (.block 0 [.binary "+" (.block 1 elements) (.number (.ofBits 0))]) ∧
      parse ([⟨⟨3, 4, 1⟩, .blockOpen⟩] ++ lexemes ++ [⟨⟨5, 6, 1⟩, .blockClose⟩]) =
        .ok (.block 0 [.binary "+" (.block 2 elements) (.number (.ofBits 0))]) ∧
      parse ([⟨⟨3, 4, 1⟩, .parenOpen⟩] ++ lexemes ++ [⟨⟨5, 6, 1⟩, .parenClose⟩]) =
        parse lexemes := by
  intro lexemes elements
  have h : parse lexemes =
      .ok (.block 0 [.binary "+" (.block 1 elements) (.number (.ofBits 0))]) := by
    decide +kernel
  have henclosed := parse_enclosed h
  exact ⟨h, (henclosed _ _).1, (henclosed _ _).2 (by decide) (by decide)⟩

end Parser

end Lila
