import Lila.Proofs.Grammar.Grouping
import Lila.Token.Basic

/-! # The grammar

Which tokens form a program, and the tree that they stand for. The relations
speak of whole segments of the input; there is no order of reading in them, and
no token that is looked at before its turn.

Names are part of the grammar: an `Env` holds the names bound where a segment
stands, scope by scope. A block is a new scope, and so is a definition, with its
parameters. A statement binds its name for the statements behind it.

The parameter `fold` is the tree of a block, given the number of blocks open in
it and its elements. It is `Tree.ofBody` for the trees of programs, in which a
block of one element is that element, and `Tree.block` for trees that keep every
block.
-/

namespace Lila

/-- A block of one element is that element. -/
def Tree.ofBody (depth : Nat) : List Tree → Tree
  | [element] => element
  | body => .block depth body

namespace Grammar

/-- The names bound in the innermost scope, and in each scope around it. -/
structure Env where
  here : List String := []
  around : List (List String) := []

namespace Env

def Sees (Γ : Env) (name : String) : Prop :=
  name ∈ Γ.here ∨ ∃ names ∈ Γ.around, name ∈ names

def bind (Γ : Env) (name : String) : Env := { Γ with here := name :: Γ.here }

def bindAll (Γ : Env) (names : List String) : Env := names.foldl bind Γ

def inside (Γ : Env) : Env := ⟨[], Γ.here :: Γ.around⟩

def after (Γ : Env) : Tree → Env
  | .value name _ => Γ.bind name
  | .definition name _ _ => Γ.bind name
  | _ => Γ

theorem after_of_isExpr (Γ : Env) {tree : Tree} (h : tree.isExpr = true) : Γ.after tree = Γ := by
  cases tree <;> first | rfl | simp [Tree.isExpr] at h

end Env

def newlines (count : Nat) : List Token := List.replicate count .newline

inductive ParameterList : List Token → List String → Prop
  | one (name : String) : ParameterList [.ident name] [name]
  | cons (name : String) {ts : List Token} {names : List String} (h : ParameterList ts names) :
      ParameterList (.ident name :: .comma :: ts) (name :: names)

inductive Parameters : List Token → List String → Prop
  | none : Parameters [] []
  | some {ts : List Token} {names : List String} (h : ParameterList ts names) :
      Parameters (.parenOpen :: ts ++ [.parenClose]) names

mutual

/-- Operands joined by operators, grouped by precedence. -/
inductive Expression (fold : Nat → List Tree → Tree) : Env → Nat → List Token → Tree → Prop
  | mk {Γ : Env} {d : Nat} {ts us : List Token} {first tree : Tree} {links : Links}
      (hfirst : Operand fold Γ d ts first) (hlinks : Operators fold Γ d us links)
      (hgroup : Grouping first links tree) : Expression fold Γ d (ts ++ us) tree

inductive Operators (fold : Nat → List Tree → Tree) : Env → Nat → List Token → Links → Prop
  | nil (Γ : Env) (d : Nat) : Operators fold Γ d [] []
  | cons {Γ : Env} {d : Nat} {ts us : List Token} (op : String) {operand : Tree} {links : Links}
      (hoperand : Operand fold Γ d ts operand) (hlinks : Operators fold Γ d us links) :
      Operators fold Γ d (.binop op :: ts ++ us) ((op, operand) :: links)

inductive Operand (fold : Nat → List Tree → Tree) : Env → Nat → List Token → Tree → Prop
  | number (Γ : Env) (d : Nat) (value : Double) : Operand fold Γ d [.number value] (.number value)
  | name {Γ : Env} (d : Nat) {name : String} (hname : Γ.Sees name) :
      Operand fold Γ d [.ident name] (.call name [])
  | call {Γ : Env} {d : Nat} {name : String} {ts : List Token} {args : List Tree}
      (hname : Γ.Sees name) (hargs : Arguments fold Γ d ts args) :
      Operand fold Γ d (.ident name :: .parenOpen :: ts ++ [.parenClose]) (.call name args)
  | group {Γ : Env} {d : Nat} {ts : List Token} {tree : Tree} (h : Expression fold Γ d ts tree) :
      Operand fold Γ d (.parenOpen :: ts ++ [.parenClose]) tree
  | block {Γ : Env} {d : Nat} {ts : List Token} {body : List Tree} (before behind : Nat)
      (h : Body fold Γ.inside (d + 1) ts body) :
      Operand fold Γ d (.blockOpen :: newlines before ++ ts ++ newlines behind ++ [.blockClose])
        (fold (d + 1) body)

inductive Arguments (fold : Nat → List Tree → Tree) : Env → Nat → List Token → List Tree → Prop
  | one {Γ : Env} {d : Nat} {ts : List Token} {tree : Tree} (h : Expression fold Γ d ts tree) :
      Arguments fold Γ d ts [tree]
  | cons {Γ : Env} {d : Nat} {ts us : List Token} {tree : Tree} {args : List Tree}
      (h : Expression fold Γ d ts tree) (hargs : Arguments fold Γ d us args) :
      Arguments fold Γ d (ts ++ .comma :: us) (tree :: args)

inductive Statement (fold : Nat → List Tree → Tree) : Env → Nat → List Token → Tree → Prop
  | value {Γ : Env} {d : Nat} {name : String} {ts : List Token} {expr : Tree}
      (hname : name ∉ Γ.here) (h : Expression fold Γ d ts expr) :
      Statement fold Γ d (.kwVal :: .ident name :: .assign :: ts) (.value name expr)
  | definition {Γ : Env} {d : Nat} {name : String} {ps ts : List Token} {params : List String}
      {body : Tree} (hname : name ∉ Γ.here) (hparams : Parameters ps params)
      (hdistinct : params.Nodup) (h : Expression fold (Γ.inside.bindAll params) d ts body) :
      Statement fold Γ d (.kwDef :: .ident name :: ps ++ .assign :: ts)
        (.definition name params body)
  | expression {Γ : Env} {d : Nat} {ts : List Token} {tree : Tree}
      (h : Expression fold Γ d ts tree) : Statement fold Γ d ts tree

/-- Statements with line breaks between them, of which the last is an expression. -/
inductive Body (fold : Nat → List Tree → Tree) : Env → Nat → List Token → List Tree → Prop
  | last {Γ : Env} {d : Nat} {ts : List Token} {tree : Tree} (h : Expression fold Γ d ts tree) :
      Body fold Γ d ts [tree]
  | cons {Γ : Env} {d : Nat} {ts us : List Token} {tree : Tree} {body : List Tree} (between : Nat)
      (h : Statement fold Γ d ts tree) (hbody : Body fold (Γ.after tree) d us body) :
      Body fold Γ d (ts ++ newlines (between + 1) ++ us) (tree :: body)

end

/-- A program: statements, with line breaks between, before and behind them. -/
inductive Program (fold : Nat → List Tree → Tree) : List Token → Tree → Prop
  | mk {ts : List Token} {body : List Tree} (before behind : Nat) (h : Body fold {} 0 ts body) :
      Program fold (newlines before ++ ts ++ newlines behind) (.block 0 body)

end Grammar

end Lila
