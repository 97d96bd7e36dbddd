import Lila.Proofs.Grammar.Completeness
import Lila.Proofs.Grammar.Weakening
import Lila.Proofs.Tree.Printing

/-! # Printed programs

The text of the tree of a program is a program again. The parentheses around every
operation ask for no grouping, so that each printed expression is an operand. A
collapsed block has left its expression in the scope around it, where the
expression finds the same names; the whole program is in one scope more than
before. The depths of blocks are those of the new text.
-/

namespace Lila

namespace Tree

mutual

def withoutDepths : Tree → Tree
  | .number x => .number x
  | .binary op lhs rhs => .binary op lhs.withoutDepths rhs.withoutDepths
  | .call name args => .call name (withoutDepthsAll args)
  | .value name expr => .value name expr.withoutDepths
  | .definition name params body => .definition name params body.withoutDepths
  | .block _ body => .block 0 (withoutDepthsAll body)

def withoutDepthsAll : List Tree → List Tree
  | [] => []
  | tree :: trees => tree.withoutDepths :: withoutDepthsAll trees

end

theorem withoutDepths_ofBody (depth : Nat) (body : List Tree) :
    (ofBody depth body).withoutDepths = ofBody 0 (withoutDepthsAll body) := by
  cases body with
  | nil => rfl
  | cons tree trees =>
      cases trees with
      | nil => rfl
      | cons next trees => rfl

end Tree

namespace Grammar

open Lila.Tree (tokensAll tokensLines withoutDepthsAll)

theorem Env.after_withoutDepths (Γ : Env) (tree : Tree) :
    Γ.after tree.withoutDepths = Γ.after tree := by
  cases tree <;> rfl

/-! ## Lists in parentheses -/

theorem parameterList_separated (name : String) (names : List String) :
    ParameterList (separated ((name :: names).map fun name => [.ident name])) (name :: names) := by
  induction names generalizing name with
  | nil => exact .one name
  | cons next names ih => exact .cons name (ih next)

theorem exists_parameters (name : String) (params : List String) :
    ∃ ts, Tree.appliedTokens name (params.map fun param => [.ident param]) = .ident name :: ts ∧
      Parameters ts params := by
  cases params with
  | nil => exact ⟨[], rfl, .none⟩
  | cons param params => exact ⟨_, rfl, .some (parameterList_separated param params)⟩

/-! ## Derivations of printed tokens -/

/-- The tokens of the tree are an operand with the same tree, but for depths. -/
def Printed (Γ : Env) (d : Nat) (tree : Tree) : Prop :=
  ∃ tree', Operand .ofBody Γ d tree.tokens tree' ∧ tree'.withoutDepths = tree.withoutDepths

theorem Printed.binary {Γ : Env} {d : Nat} {lhs rhs : Tree} (op : String)
    (hlhs : Printed Γ d lhs) (hrhs : Printed Γ d rhs) : Printed Γ d (.binary op lhs rhs) := by
  obtain ⟨lhs', hlhs, heql⟩ := hlhs
  obtain ⟨rhs', hrhs, heqr⟩ := hrhs
  have hlinks := Operators.cons op hrhs (.nil Γ d)
  rw [List.append_nil] at hlinks
  have hgroup : Grouping lhs' [(op, rhs')] (.binary op lhs' rhs') :=
    .of_tighter lhs' (by simp) (.single rhs')
  refine ⟨.binary op lhs' rhs', .group (.mk hlhs hlinks hgroup), ?_⟩
  rw [Tree.withoutDepths, Tree.withoutDepths, heql, heqr]

/-- The lines of a block, without the line break behind the last one. -/
def PrintedLines (Γ : Env) (d : Nat) (body : List Tree) : Prop :=
  ∃ ts body', tokensLines body = ts ++ newlines 1 ∧ Body .ofBody Γ d ts body' ∧
    withoutDepthsAll body' = withoutDepthsAll body

theorem PrintedLines.block {Γ : Env} {d : Nat} {body : List Tree}
    (h : PrintedLines Γ.inside (d + 1) body) (depth : Nat) :
    ∃ tree', Operand .ofBody Γ d (Tree.block depth body).tokens tree' ∧
      tree'.withoutDepths = (Tree.ofBody depth body).withoutDepths := by
  obtain ⟨ts, body', hlines, hbody, heq⟩ := h
  refine ⟨.ofBody (d + 1) body', ?_, ?_⟩
  · rw [Tree.tokens, hlines]
    exact .block 1 1 hbody
  · rw [Tree.withoutDepths_ofBody, Tree.withoutDepths_ofBody, heq]

mutual

theorem Expression.printed {Γ Γ' : Env} {d : Nat} {ts : List Token} {tree : Tree} :
    Expression .ofBody Γ d ts tree → Γ.Within Γ' → ∀ d', Printed Γ' d' tree
  | .mk hfirst hlinks hgroup, h, d' =>
      hgroup.of_operands (P := Printed Γ' d') (fun link _ _ _ => .binary link.1)
        (hfirst.printed h d') (hlinks.printed h d')

theorem Operators.printed {Γ Γ' : Env} {d : Nat} {ts : List Token} {links : Links} :
    Operators .ofBody Γ d ts links → Γ.Within Γ' → ∀ d', ∀ link ∈ links, Printed Γ' d' link.2
  | .nil .., _, _ => by simp
  | .cons _ hoperand hlinks, h, d' =>
      List.forall_mem_cons.2 ⟨hoperand.printed h d', hlinks.printed h d'⟩

theorem Operand.printed {Γ Γ' : Env} {d : Nat} {ts : List Token} {tree : Tree} :
    Operand .ofBody Γ d ts tree → Γ.Within Γ' → ∀ d', Printed Γ' d' tree
  | .number _ _ x, _, d' => ⟨.number x, .number Γ' d' x, rfl⟩
  | .name _ hname, h, d' => ⟨.call _ [], .name d' (h _ hname), rfl⟩
  | .call hname hargs, h, d' => by
      obtain ⟨args', hargs', heq⟩ := hargs.printed h d'
      refine ⟨.call _ args', ?_, congrArg (Tree.call _) heq⟩
      cases hargs with
      | one => exact .call (h _ hname) hargs'
      | cons => exact .call (h _ hname) hargs'
  | .group hinner, h, d' => hinner.printed h d'
  | .block _ _ hbody, h, d' => by
      obtain ⟨hlines, hsingle⟩ := hbody.printed
      have hblock := (hlines h.inside rfl (d' + 1)).block (d + 1)
      cases hbody with
      | last => exact hsingle _ rfl (fun name hname => h name (Env.sees_inside.1 hname)) d'
      | cons between hfirst hrest =>
          cases hrest with
          | last => exact hblock
          | cons => exact hblock

theorem Arguments.printed {Γ Γ' : Env} {d : Nat} {ts : List Token} {args : List Tree} :
    Arguments .ofBody Γ d ts args → Γ.Within Γ' → ∀ d',
      ∃ args', Arguments .ofBody Γ' d' (separated (tokensAll args)) args' ∧
        withoutDepthsAll args' = withoutDepthsAll args
  | .one hfirst, h, d' => by
      obtain ⟨tree', htree', heq⟩ := hfirst.printed h d'
      exact ⟨[tree'], .one htree'.expression, congrArg (· :: []) heq⟩
  | .cons hfirst hargs, h, d' => by
      obtain ⟨tree', htree', heq⟩ := hfirst.printed h d'
      obtain ⟨args', hargs', heqs⟩ := hargs.printed h d'
      refine ⟨tree' :: args', ?_, congrArg₂ List.cons heq heqs⟩
      cases hargs with
      | one => exact .cons htree'.expression hargs'
      | cons => exact .cons htree'.expression hargs'

theorem Statement.printed {Γ Γ' : Env} {d : Nat} {ts : List Token} {tree : Tree} :
    Statement .ofBody Γ d ts tree → Γ.Within Γ' → Γ'.here = Γ.here → ∀ d',
      ∃ tree', Statement .ofBody Γ' d' tree.tokens tree' ∧
        tree'.withoutDepths = tree.withoutDepths
  | .value hname hexpr, h, hhere, d' => by
      obtain ⟨expr', hexpr', heq⟩ := hexpr.printed h d'
      rw [← hhere] at hname
      exact ⟨.value _ expr', .value hname hexpr'.expression, congrArg (Tree.value _) heq⟩
  | @Statement.definition _ _ _ name _ _ params _ hname hparams hdistinct hbody, h, hhere, d' => by
      obtain ⟨body', hbody', heq⟩ := hbody.printed (h.inside.bindAll params) d'
      obtain ⟨ts, hts, hparams'⟩ := exists_parameters name params
      rw [← hhere] at hname
      refine ⟨.definition name params body', ?_, congrArg (Tree.definition name params) heq⟩
      rw [Tree.tokens, hts]
      exact .definition hname hparams' hdistinct hbody'.expression
  | .expression hexpr, h, _, d' => by
      obtain ⟨tree', htree', heq⟩ := hexpr.printed h d'
      exact ⟨tree', .expression htree'.expression, heq⟩

/-- The lines of a body, and its element without a line of its own if there is only one. -/
theorem Body.printed {Γ : Env} {d : Nat} {ts : List Token} {body : List Tree} :
    Body .ofBody Γ d ts body →
      (∀ {Γ'}, Γ.Within Γ' → Γ'.here = Γ.here → ∀ d', PrintedLines Γ' d' body) ∧
      ∀ tree, body = [tree] → ∀ {Γ'}, Γ.Within Γ' → ∀ d', Printed Γ' d' tree
  | .last hlast => by
      refine ⟨fun h _ d' => ?_, fun tree htree _ h d' => ?_⟩
      · obtain ⟨tree', htree', heq⟩ := hlast.printed h d'
        exact ⟨_, [tree'], rfl, .last htree'.expression, congrArg (· :: []) heq⟩
      · obtain ⟨rfl, -⟩ := List.cons.inj htree
        exact hlast.printed h d'
  | @Body.cons _ _ _ _ _ tree body between hfirst hrest => by
      refine ⟨fun {Γ'} h hhere d' => ?_, fun tree htree _ h d' => ?_⟩
      · obtain ⟨tree', htree', heq⟩ := hfirst.printed h hhere d'
        obtain ⟨us, body', hlines, hbody', heqs⟩ :=
          hrest.printed.1 (h.after tree) (Env.here_after hhere tree) d'
        have hafter : Γ'.after tree = Γ'.after tree' := by
          rw [← Γ'.after_withoutDepths tree, ← heq, Γ'.after_withoutDepths tree']
        rw [hafter] at hbody'
        refine ⟨_, tree' :: body', ?_, .cons 0 htree' hbody', congrArg₂ List.cons heq heqs⟩
        rw [tokensLines, hlines, List.append_assoc, List.append_assoc]
        rfl
      · obtain ⟨-, rfl⟩ := List.cons.inj htree
        cases hrest

end

/-! ## Legible programs -/

def LegibleWords (ts : List Token) : Prop :=
  ∀ token ∈ ts, (∀ x, token ≠ .number x) → token.Legible

theorem LegibleWords.append {ts us : List Token} (h : LegibleWords (ts ++ us)) :
    LegibleWords ts ∧ LegibleWords us := List.forall_mem_append.1 h

theorem LegibleWords.cons {token : Token} {ts : List Token} (h : LegibleWords (token :: ts)) :
    ((∀ x, token ≠ .number x) → token.Legible) ∧ LegibleWords ts := List.forall_mem_cons.1 h

/-- A tree is legible if its numbers are. -/
def LegibleBut (tree : Tree) : Prop := (∀ x ∈ tree.numbers, x.Legible) → tree.Legible

def LegibleButAll (trees : List Tree) : Prop :=
  (∀ x ∈ Tree.numbersAll trees, x.Legible) → Tree.LegibleAll trees

theorem legibleButAll_cons {tree : Tree} {trees : List Tree} (h : LegibleBut tree)
    (hall : LegibleButAll trees) : LegibleButAll (tree :: trees) := by
  intro hnumbers
  obtain ⟨hfirst, hrest⟩ := List.forall_mem_append.1 hnumbers
  exact ⟨h hfirst, hall hrest⟩

theorem legibleBut_ofBody {body : List Tree} (h : LegibleButAll body) (depth : Nat) :
    LegibleBut (.ofBody depth body) := by
  cases body with
  | nil => exact h
  | cons tree trees =>
      cases trees with
      | nil =>
          intro hnumbers
          exact (h (by rwa [Tree.numbersAll, Tree.numbersAll, List.append_nil])).1
      | cons next trees => exact h

theorem ParameterList.legible {ts : List Token} {params : List String}
    (h : ParameterList ts params) (hts : LegibleWords ts) :
    ∀ param ∈ params, Token.Legible (.ident param) := by
  induction h with
  | one name => exact List.forall_mem_cons.2 ⟨hts.cons.1 (by simp), by simp⟩
  | cons name h ih => exact List.forall_mem_cons.2 ⟨hts.cons.1 (by simp), ih hts.cons.2.cons.2⟩

theorem Parameters.legible {ts : List Token} {params : List String} (h : Parameters ts params)
    (hts : LegibleWords ts) : ∀ param ∈ params, Token.Legible (.ident param) := by
  cases h with
  | none => simp
  | some h => exact h.legible hts.append.1.cons.2

mutual

theorem Expression.legible {Γ : Env} {d : Nat} {ts : List Token} {tree : Tree} :
    Expression .ofBody Γ d ts tree → LegibleWords ts → LegibleBut tree
  | .mk hfirst hlinks hgroup, hts => by
      have hlinks := hlinks.legible hts.append.2
      refine hgroup.of_operands ?_ (hfirst.legible hts.append.1) fun link hlink =>
        (hlinks link hlink).2
      intro link hlink lhs rhs hlhs hrhs hnumbers
      obtain ⟨hnumbersl, hnumbersr⟩ := List.forall_mem_append.1 hnumbers
      exact ⟨(hlinks link hlink).1, hlhs hnumbersl, hrhs hnumbersr⟩

theorem Operators.legible {Γ : Env} {d : Nat} {ts : List Token} {links : Links} :
    Operators .ofBody Γ d ts links → LegibleWords ts →
      ∀ link ∈ links, Token.Legible (.binop link.1) ∧ LegibleBut link.2
  | .nil .., _ => by simp
  | .cons _ hoperand hlinks, hts => by
      obtain ⟨hop, hts'⟩ := hts.append.1.cons
      exact List.forall_mem_cons.2
        ⟨⟨hop (by simp), hoperand.legible hts'⟩, hlinks.legible hts.append.2⟩

theorem Operand.legible {Γ : Env} {d : Nat} {ts : List Token} {tree : Tree} :
    Operand .ofBody Γ d ts tree → LegibleWords ts → LegibleBut tree
  | .number _ _ x, _ => fun hnumbers => hnumbers x (by simp [Tree.numbers])
  | .name .., hts => fun _ => ⟨hts.cons.1 (by simp), trivial⟩
  | .call _ hargs, hts => fun hnumbers =>
      ⟨hts.append.1.cons.1 (by simp), hargs.legible hts.append.1.cons.2.cons.2 hnumbers⟩
  | .group h, hts => h.legible hts.append.1.cons.2
  | .block _ _ h, hts =>
      legibleBut_ofBody (h.legible hts.append.1.cons.2.append.1.append.2) _

theorem Arguments.legible {Γ : Env} {d : Nat} {ts : List Token} {args : List Tree} :
    Arguments .ofBody Γ d ts args → LegibleWords ts → LegibleButAll args
  | .one h, hts => legibleButAll_cons (h.legible hts) fun _ => trivial
  | .cons h hargs, hts =>
      legibleButAll_cons (h.legible hts.append.1) (hargs.legible hts.append.2.cons.2)

theorem Statement.legible {Γ : Env} {d : Nat} {ts : List Token} {tree : Tree} :
    Statement .ofBody Γ d ts tree → LegibleWords ts → LegibleBut tree
  | .value _ h, hts => fun hnumbers =>
      ⟨hts.cons.2.cons.1 (by simp), h.legible hts.cons.2.cons.2.cons.2 hnumbers⟩
  | .definition _ hparams _ h, hts => fun hnumbers => by
      obtain ⟨hhead, htail⟩ := hts.append
      obtain ⟨hname, hps⟩ := hhead.cons.2.cons
      exact ⟨hname (by simp), hparams.legible hps, h.legible htail.cons.2 hnumbers⟩
  | .expression h, hts => h.legible hts

theorem Body.legible {Γ : Env} {d : Nat} {ts : List Token} {body : List Tree} :
    Body .ofBody Γ d ts body → LegibleWords ts → LegibleButAll body
  | .last h, hts => legibleButAll_cons (h.legible hts) fun _ => trivial
  | .cons _ h hbody, hts =>
      legibleButAll_cons (h.legible hts.append.1.append.1) (hbody.legible hts.append.2)

end

theorem Program.legible {ts : List Token} {tree : Tree} (h : Program .ofBody ts tree)
    (hts : LegibleWords ts) : LegibleBut tree := by
  cases h with
  | mk before behind h => exact h.legible hts.append.1.append.2

/-! ## Programs -/

/-- The tokens of the tree of a program are a program, with one block around. -/
theorem Program.printed {ts : List Token} {tree : Tree} (h : Program .ofBody ts tree) :
    ∃ body tree', tree = .block 0 body ∧ Program .ofBody tree.tokens (.block 0 [tree']) ∧
      tree'.withoutDepths = (Tree.ofBody 0 body).withoutDepths := by
  cases h with
  | @mk ts body before behind h =>
      have hwithin : Env.Within {} (Env.inside {}) := fun name hname => Env.sees_inside.2 hname
      obtain ⟨tree', htree', heq⟩ := (h.printed.1 hwithin rfl 1).block 0
      exact ⟨body, tree', rfl, htree'.expression.program, heq⟩

end Grammar

theorem legibleWords_of_tokenize {source : String} {lexemes : List Lexeme}
    (h : tokenize source = .ok lexemes) : Grammar.LegibleWords (lexemes.map Lexeme.token) := by
  obtain ⟨m, n, hsteps, -⟩ := tokenize_eq_ok_iff.1 h
  intro token htoken hnumber
  obtain ⟨x, hx, rfl⟩ := List.mem_map.1 htoken
  obtain ⟨text, hspells⟩ := hsteps.spells (Lexer.sane_of_not_loneDot rfl) x hx
  exact hspells.legible hnumber

/-- The text of the tree of a source is a source, if the numbers in the tree are read
from their texts. Its tree has the same statements in a block of their own, or the
same expression if there is only one. -/
theorem parse_display {source : String} {lexemes : List Lexeme} {tree : Tree}
    (hsource : tokenize source = .ok lexemes) (htree : parse lexemes = .ok tree)
    (hnumbers : ∀ x ∈ tree.numbers, x.Legible) :
    ∃ body lexemes' tree', tree = .block 0 body ∧ tokenize tree.display = .ok lexemes' ∧
      parse lexemes' = .ok tree' ∧
      tree'.withoutDepths = (Tree.block 0 [.ofBody 0 body]).withoutDepths := by
  have hprogram := Parser.program_of_parse htree
  have hlegible := hprogram.legible (legibleWords_of_tokenize hsource) hnumbers
  obtain ⟨lexemes', hlexemes', htokens⟩ := Tree.exists_tokenize_display hlegible
  obtain ⟨body, tree', rfl, hprinted, heq⟩ := hprogram.printed
  rw [← htokens] at hprinted
  refine ⟨body, lexemes', _, rfl, hlexemes', Parser.parse_of_program hprinted, ?_⟩
  simp only [Tree.withoutDepths, Tree.withoutDepthsAll, heq]

/-- A value and an operation on a block, as read from a source. The statements of the
program are in one more block when its text is read. -/
theorem parse_display_nested_block :
    ∃ lexemes' tree',
      tokenize (Tree.block 0 [.value "x" (.number (.ofRatio 25 10)),
        .binary "-" (.call "x" []) (.block 1 [.call "x" [], .call "x" []])]).display =
          .ok lexemes' ∧
      parse lexemes' = .ok tree' ∧
      tree'.withoutDepths = .block 0 [.block 0 [.value "x" (.number (.ofRatio 25 10)),
        .binary "-" (.call "x" []) (.block 0 [.call "x" [], .call "x" []])]] := by
  obtain ⟨lexemes, hsource, htree⟩ : ∃ lexemes : Double → List Lexeme,
      tokenize "val x = 2.5\nx - \x7b x\nx \x7d" = .ok (lexemes (.ofRatio 25 10)) ∧
      ∀ value, parse (lexemes value) = .ok (.block 0 [.value "x" (.number value),
        .binary "-" (.call "x" []) (.block 1 [.call "x" [], .call "x" []])]) := by
    refine ⟨fun value => [⟨⟨0, 3, 1⟩, .kwVal⟩, ⟨⟨4, 5, 1⟩, .ident "x"⟩, ⟨⟨6, 7, 1⟩, .assign⟩,
      ⟨⟨8, 11, 1⟩, .number value⟩, ⟨⟨11, 12, 1⟩, .newline⟩, ⟨⟨12, 13, 2⟩, .ident "x"⟩,
      ⟨⟨14, 15, 2⟩, .binop "-"⟩, ⟨⟨16, 17, 2⟩, .blockOpen⟩, ⟨⟨18, 19, 2⟩, .ident "x"⟩,
      ⟨⟨19, 20, 2⟩, .newline⟩, ⟨⟨20, 21, 3⟩, .ident "x"⟩, ⟨⟨22, 23, 3⟩, .blockClose⟩], rfl, ?_⟩
    intro value
    rfl
  have hlegible : (Double.ofRatio 25 10).Legible := by
    have hdisplay : (Double.ofRatio 25 10).display = "2.500000" := by decide +kernel
    have hvalue : Double.ofRatio 2500000 1000000 = Double.ofRatio 25 10 := by decide +kernel
    rw [Double.Legible, hdisplay, ← hvalue]
    exact ⟨⟨⟨0, 8, 1⟩, _⟩, rfl, rfl⟩
  have hnumbers : ∀ x ∈ [Double.ofRatio 25 10], x.Legible := by simpa using hlegible
  obtain ⟨body, lexemes', tree', hbody, hlexemes', htree', heq⟩ :=
    parse_display hsource (htree _) hnumbers
  obtain ⟨-, rfl⟩ := Tree.block.inj hbody
  exact ⟨lexemes', tree', hlexemes', htree', heq⟩

end Lila
