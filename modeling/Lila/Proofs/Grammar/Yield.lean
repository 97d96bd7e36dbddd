import Lila.Proofs.Grammar.Soundness

/-! # The yield of a tree

The numbers, names, operators and keywords of a program come back from its tree in
the order in which they were read. Grouping by precedence moves none of them: the
operator at the root of a chain stands between the operands of its two sides. Brackets,
commas and line breaks leave no trace but the form of the tree.
-/

namespace Lila

def Token.isContent : Token → Bool
  | .number _ | .ident _ | .binop _ | .kwDef | .kwVal => true
  | _ => false

def content (ts : List Token) : List Token := ts.filter Token.isContent

@[simp] theorem content_append (ts us : List Token) : content (ts ++ us) = content ts ++ content us :=
  List.filter_append ts us

namespace Tree

mutual

/-- The tokens that a tree is made of, from left to right. -/
def yield : Tree → List Token
  | .number x => [.number x]
  | .binary op lhs rhs => lhs.yield ++ .binop op :: rhs.yield
  | .call name args => .ident name :: yieldAll args
  | .value name expr => .kwVal :: .ident name :: expr.yield
  | .definition name params body => .kwDef :: .ident name :: params.map .ident ++ body.yield
  | .block _ body => yieldAll body

def yieldAll : List Tree → List Token
  | [] => []
  | tree :: trees => tree.yield ++ yieldAll trees

end

theorem yield_ofBody (depth : Nat) (body : List Tree) : (ofBody depth body).yield = yieldAll body := by
  cases body with
  | nil => rfl
  | cons tree trees =>
      cases trees with
      | nil => exact (List.append_nil _).symm
      | cons next trees => rfl

end Tree

def yieldLinks (links : Links) : List Token :=
  links.flatMap fun link => .binop link.1 :: link.2.yield

theorem Grouping.yield {first tree : Tree} {links : Links} (h : Grouping first links tree) :
    tree.yield = first.yield ++ yieldLinks links := by
  induction h with
  | single first => exact (List.append_nil _).symm
  | @split first lhs operand rhs left right op _ _ _ _ ihl ihr =>
      simp only [yieldLinks] at ihl ihr
      simp [Tree.yield, yieldLinks, ihl, ihr]

namespace Grammar

open Lila.Tree (yieldAll)

@[simp] theorem content_newlines (count : Nat) : content (newlines count) = [] := by
  apply List.filter_eq_nil_iff.2
  intro token htoken
  rw [List.eq_of_mem_replicate htoken]
  exact Bool.false_ne_true

theorem ParameterList.content {ts : List Token} {names : List String} (h : ParameterList ts names) :
    content ts = names.map .ident := by
  induction h with
  | one name => rfl
  | cons name _ ih => exact congrArg (Token.ident name :: ·) ih

theorem Parameters.content {ts : List Token} {names : List String} (h : Parameters ts names) :
    content ts = names.map .ident := by
  cases h with
  | none => rfl
  | some h =>
      rw [content_append]
      exact (List.append_nil _).trans h.content

mutual

theorem Expression.yield {Γ : Env} {d : Nat} {ts : List Token} {tree : Tree} :
    Expression .ofBody Γ d ts tree → content ts = tree.yield
  | .mk hfirst hlinks hgroup => by
      rw [content_append, hfirst.yield, hlinks.yield, hgroup.yield]

theorem Operators.yield {Γ : Env} {d : Nat} {ts : List Token} {links : Links} :
    Operators .ofBody Γ d ts links → content ts = yieldLinks links
  | .nil .. => rfl
  | .cons op hoperand hlinks => by
      rw [content_append, hlinks.yield]
      exact congrArg (Token.binop op :: · ++ _) hoperand.yield

theorem Operand.yield {Γ : Env} {d : Nat} {ts : List Token} {tree : Tree} :
    Operand .ofBody Γ d ts tree → content ts = tree.yield
  | .number .. => rfl
  | .name .. => rfl
  | @Operand.call _ _ _ name _ _ _ hargs => by
      rw [content_append]
      refine (List.append_nil _).trans ?_
      exact congrArg (Token.ident name :: ·) hargs.yield
  | .group h => by
      rw [content_append]
      exact (List.append_nil _).trans h.yield
  | .block before behind h => by
      have hopen : content (.blockOpen :: newlines before) = [] := content_newlines before
      have hclose : content [.blockClose] = [] := rfl
      simp only [content_append, hopen, hclose, content_newlines, List.nil_append, List.append_nil]
      rw [h.yield, Tree.yield_ofBody]

theorem Arguments.yield {Γ : Env} {d : Nat} {ts : List Token} {args : List Tree} :
    Arguments .ofBody Γ d ts args → content ts = yieldAll args
  | .one h => by
      rw [h.yield, yieldAll, yieldAll, List.append_nil]
  | .cons h hargs => by
      rw [content_append, h.yield]
      exact congrArg (_ ++ ·) hargs.yield

theorem Statement.yield {Γ : Env} {d : Nat} {ts : List Token} {tree : Tree} :
    Statement .ofBody Γ d ts tree → content ts = tree.yield
  | @Statement.value _ _ _ name _ _ _ h => congrArg (Token.kwVal :: .ident name :: ·) h.yield
  | @Statement.definition _ _ _ name ps _ params _ _ hparams _ h => by
      have hhead : content (.kwDef :: .ident name :: ps) =
          .kwDef :: .ident name :: params.map .ident :=
        congrArg (Token.kwDef :: .ident name :: ·) hparams.content
      rw [content_append, hhead]
      exact congrArg (_ ++ ·) h.yield
  | .expression h => h.yield

theorem Body.yield {Γ : Env} {d : Nat} {ts : List Token} {body : List Tree} :
    Body .ofBody Γ d ts body → content ts = yieldAll body
  | .last h => by
      rw [h.yield, yieldAll, yieldAll, List.append_nil]
  | .cons between h hbody => by
      rw [content_append, content_append, content_newlines, h.yield, hbody.yield, List.append_nil]
      rfl

end

theorem Program.yield {ts : List Token} {tree : Tree} (h : Program .ofBody ts tree) :
    content ts = tree.yield := by
  cases h with
  | mk before behind h =>
      rw [content_append, content_append, content_newlines, content_newlines, h.yield,
        List.append_nil]
      rfl

end Grammar

namespace Parser

/-- The tree of a program has the numbers, names, operators and keywords of its tokens,
all of them, once each and in their order. -/
theorem parse_keeps_content {lexemes : List Lexeme} {tree : Tree} (h : parse lexemes = .ok tree) :
    (lexemes.map Lexeme.token).filter Token.isContent = tree.yield :=
  (program_of_parse h).yield

/-- Operators of two precedences, parentheses, a block of one element and one of two. -/
theorem parse_keeps_content_regrouped :
    ∃ tree, parse ([.kwDef, .ident "f", .parenOpen, .ident "a", .comma, .ident "b", .parenClose,
      .assign, .blockOpen, .ident "a", .binop "-", .ident "b", .binop "*", .parenOpen, .ident "a",
      .binop "+", .ident "b", .parenClose, .binop "-", .ident "a", .blockClose, .newline,
      .blockOpen, .kwVal, .ident "x", .assign, .number (.ofBits 0), .newline, .ident "f",
      .parenOpen, .ident "x", .comma, .ident "x", .parenClose, .blockClose].map
        fun token => ⟨⟨0, 0, 1⟩, token⟩) = .ok tree ∧
      tree = .block 0 [.definition "f" ["a", "b"] (.binary "-" (.binary "-" (.call "a" [])
          (.binary "*" (.call "b" []) (.binary "+" (.call "a" []) (.call "b" []))))
          (.call "a" [])),
        .block 1 [.value "x" (.number (.ofBits 0)), .call "f" [.call "x" [], .call "x" []]]] ∧
      tree.yield = [.kwDef, .ident "f", .ident "a", .ident "b", .ident "a", .binop "-",
        .ident "b", .binop "*", .ident "a", .binop "+", .ident "b", .binop "-", .ident "a",
        .kwVal, .ident "x", .number (.ofBits 0), .ident "f", .ident "x", .ident "x"] := by
  suffices h : parse _ = .ok _ from ⟨_, h, rfl, (parse_keeps_content h).symm⟩
  decide +kernel

end Parser

end Lila
