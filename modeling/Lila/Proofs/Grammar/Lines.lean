import Lila.Proofs.Grammar.Derivation
import Lila.Proofs.Parser.Runs

/-! # Lines of statements

The loop over statements reads line after line and asks of the last statement
only in the end whether it is an expression. `Lines` is what it has read up to
some point; with an expression at the end that is a `Body`, with line breaks
around it. Lines can always be completed to one.
-/

namespace Lila.Grammar

open Lila.Parser (startsOperand)

variable {fold : Nat → List Tree → Tree} {Γ : Env} {d : Nat}

/-! ## Front tokens -/

theorem Operand.head {ts : List Token} {tree : Tree} (h : Operand fold Γ d ts tree) :
    ∃ token us, ts = token :: us ∧ startsOperand token = true := by
  cases h with
  | number value => exact ⟨_, _, rfl, rfl⟩
  | name hname => exact ⟨_, _, rfl, rfl⟩
  | call hname hargs => exact ⟨_, _, rfl, rfl⟩
  | group h => exact ⟨_, _, rfl, rfl⟩
  | block before behind h => exact ⟨_, _, rfl, rfl⟩

theorem Expression.head {ts : List Token} {tree : Tree} (h : Expression fold Γ d ts tree) :
    ∃ token us, ts = token :: us ∧ startsOperand token = true := by
  cases h with
  | mk hfirst hlinks hgroup =>
      obtain ⟨token, us, rfl, htoken⟩ := hfirst.head
      exact ⟨token, _, rfl, htoken⟩

def StartsStatement (token : Token) : Prop :=
  startsOperand token = true ∨ token = .kwVal ∨ token = .kwDef

theorem StartsStatement.ne_newline {token : Token} (h : StartsStatement token) :
    token ≠ .newline := by
  rintro rfl
  simp [StartsStatement, startsOperand] at h

theorem StartsStatement.ne_blockClose {token : Token} (h : StartsStatement token) :
    token ≠ .blockClose := by
  rintro rfl
  simp [StartsStatement, startsOperand] at h

theorem Statement.head {ts : List Token} {tree : Tree} (h : Statement fold Γ d ts tree) :
    ∃ token us, ts = token :: us ∧ StartsStatement token := by
  cases h with
  | value hname h => exact ⟨_, _, rfl, .inr (.inl rfl)⟩
  | definition hname hparams hdistinct h => exact ⟨_, _, rfl, .inr (.inr rfl)⟩
  | expression h =>
      obtain ⟨token, us, rfl, htoken⟩ := h.head
      exact ⟨token, us, rfl, .inl htoken⟩

theorem Body.head {ts : List Token} {body : List Tree} (h : Body fold Γ d ts body) :
    ∃ token us, ts = token :: us ∧ StartsStatement token := by
  cases h with
  | last h => exact (Statement.expression h).head
  | cons between h hbody =>
      obtain ⟨token, us, rfl, htoken⟩ := h.head
      exact ⟨token, _, rfl, htoken⟩

/-! ## Back tokens -/

theorem getLast?_append_ne {ts us : List Token} {token : Token} (hus : us.getLast? ≠ some token)
    (hts : us = [] → ts.getLast? ≠ some token) : (ts ++ us).getLast? ≠ some token := by
  rw [List.getLast?_append]
  cases h : us.getLast? with
  | none =>
      rw [Option.none_or]
      exact hts (List.getLast?_eq_none_iff.1 h)
  | some last =>
      rw [h] at hus
      exact hus

theorem Operand.getLast?_ne_newline {ts : List Token} {tree : Tree}
    (h : Operand fold Γ d ts tree) : ts.getLast? ≠ some .newline := by
  cases h with
  | number | name => simp
  | call | group | block =>
      rw [List.getLast?_concat]
      simp

theorem Operators.getLast?_ne_newline {ts : List Token} {links : Links}
    (h : Operators fold Γ d ts links) : ts.getLast? ≠ some .newline := by
  generalize hn : links.length = n
  induction n generalizing ts links with
  | zero =>
      cases h with
      | nil => simp
      | cons => cases hn
  | succ n ih =>
      cases h with
      | nil => cases hn
      | cons op hoperand hlinks =>
          refine getLast?_append_ne (ih hlinks (by simpa using hn)) fun _ => ?_
          obtain ⟨token, us, rfl, -⟩ := hoperand.head
          rw [List.getLast?_cons_cons]
          exact hoperand.getLast?_ne_newline

theorem Body.getLast?_ne_newline {ts : List Token} {body : List Tree} (h : Body fold Γ d ts body) :
    ts.getLast? ≠ some .newline := by
  generalize hn : body.length = n
  induction n generalizing Γ ts body with
  | zero => cases h <;> cases hn
  | succ n ih =>
      cases h with
      | last h =>
          cases h with
          | mk hfirst hlinks hgroup =>
              exact getLast?_append_ne hlinks.getLast?_ne_newline fun _ =>
                hfirst.getLast?_ne_newline
      | cons between h hbody =>
          refine getLast?_append_ne (ih hbody (by simpa using hn)) fun hus => ?_
          obtain ⟨token, us, rfl, -⟩ := hbody.head
          cases hus

/-- One more operator, behind the others. -/
theorem Operators.snoc {ts us : List Token} {links : Links} {operand : Tree}
    (h : Operators fold Γ d ts links) (op : String) (hoperand : Operand fold Γ d us operand) :
    Operators fold Γ d (ts ++ .binop op :: us) (links ++ [(op, operand)]) := by
  generalize hn : links.length = n
  induction n generalizing ts links with
  | zero =>
      cases h with
      | nil => simpa using Operators.cons op hoperand (.nil Γ d)
      | cons => cases hn
  | succ n ih =>
      cases h with
      | nil => cases hn
      | cons op' hfirst hlinks =>
          have h := Operators.cons op' hfirst (ih hlinks (by simpa using hn))
          rwa [← List.append_assoc] at h

theorem Operand.expression {ts : List Token} {tree : Tree} (h : Operand fold Γ d ts tree) :
    Expression fold Γ d ts tree := by
  have hexpr := Expression.mk h (.nil Γ d) (.single tree)
  rwa [List.append_nil] at hexpr

theorem Operand.of_body {ts us : List Token} {body : List Tree} {before behind : Nat}
    (hus : us = newlines before ++ ts ++ newlines behind)
    (h : Body fold Γ.inside (d + 1) ts body) :
    Operand fold Γ d (.blockOpen :: us ++ [.blockClose]) (fold (d + 1) body) := by
  subst hus
  exact .block before behind h

/-- An expression by itself is a program. -/
theorem Expression.program {ts : List Token} {tree : Tree}
    (h : Expression fold {} 0 ts tree) : Program fold ts (.block 0 [tree]) := by
  have hprogram := Program.mk 0 0 (.last h)
  rwa [newlines, List.replicate_zero, List.nil_append, List.append_nil] at hprogram

/-! ## Expressions have values -/

/-- A block whose last element is an expression has a value. -/
def Valued (fold : Nat → List Tree → Tree) : Prop :=
  ∀ depth body, body.getLast?.any Tree.isExpr = true → (fold depth body).isExpr = true

theorem valued_block : Valued .block := fun _ _ _ => rfl

theorem valued_ofBody : Valued .ofBody
  | _, [], h => by cases h
  | _, [_], h => h
  | _, _ :: _ :: _, _ => rfl

theorem isExpr_of_grouping {first tree : Tree} {links : Links} (h : Grouping first links tree)
    (hfirst : first.isExpr = true) : tree.isExpr = true := by
  cases h with
  | single => exact hfirst
  | split => rfl

mutual

theorem Expression.isExpr (hfold : Valued fold) {Γ : Env} {d : Nat} {ts : List Token}
    {tree : Tree} : Expression fold Γ d ts tree → tree.isExpr = true
  | .mk hfirst _ hgroup => isExpr_of_grouping hgroup (hfirst.isExpr hfold)

theorem Operand.isExpr (hfold : Valued fold) {Γ : Env} {d : Nat} {ts : List Token} {tree : Tree} :
    Operand fold Γ d ts tree → tree.isExpr = true
  | .number .. => rfl
  | .name .. => rfl
  | .call .. => rfl
  | .group h => h.isExpr hfold
  | .block _ _ h => hfold _ _ (h.isExpr_last hfold)

theorem Body.isExpr_last (hfold : Valued fold) {Γ : Env} {d : Nat} {ts : List Token}
    {body : List Tree} : Body fold Γ d ts body → body.getLast?.any Tree.isExpr = true
  | .last h => h.isExpr hfold
  | .cons _ _ hbody => by
      have hlast := hbody.isExpr_last hfold
      cases hbody with
      | last h => rwa [List.getLast?_cons_cons]
      | cons between h hbody => rwa [List.getLast?_cons_cons]

end

/-! ## Lines -/

def Env.afterAll (Γ : Env) (body : List Tree) : Env := body.foldl after Γ

/-- Any number of statements, with line breaks between, before and behind them. -/
inductive Lines (fold : Nat → List Tree → Tree) : Env → Nat → List Token → List Tree → Prop
  | nil (Γ : Env) (d : Nat) : Lines fold Γ d [] []
  | newline {Γ : Env} {d : Nat} {ts : List Token} {body : List Tree} (h : Lines fold Γ d ts body) :
      Lines fold Γ d (.newline :: ts) body
  | last {Γ : Env} {d : Nat} {ts : List Token} {tree : Tree} (h : Statement fold Γ d ts tree) :
      Lines fold Γ d ts [tree]
  | cons {Γ : Env} {d : Nat} {ts us : List Token} {tree : Tree} {body : List Tree}
      (h : Statement fold Γ d ts tree) (hlines : Lines fold (Γ.after tree) d us body) :
      Lines fold Γ d (ts ++ .newline :: us) (tree :: body)

namespace Lines

theorem of_newline {ts : List Token} {body : List Tree}
    (h : Lines fold Γ d (.newline :: ts) body) : Lines fold Γ d ts body := by
  generalize heq : Token.newline :: ts = us at h
  cases h with
  | nil => cases heq
  | newline h =>
      cases heq
      exact h
  | last h =>
      obtain ⟨token, vs, rfl, htoken⟩ := h.head
      cases heq
      exact (htoken.ne_newline rfl).elim
  | cons h hlines =>
      obtain ⟨token, vs, rfl, htoken⟩ := h.head
      cases heq
      exact (htoken.ne_newline rfl).elim

theorem eq_nil_of_nil {body : List Tree} (h : Lines fold Γ d [] body) : body = [] := by
  generalize hts : ([] : List Token) = ts at h
  cases h with
  | nil => rfl
  | newline h => cases hts
  | last h =>
      obtain ⟨token, us, rfl, -⟩ := h.head
      cases hts
  | cons h hlines => simp at hts

/-- A statement in front of lines, on a line of its own. -/
theorem statement_cons {ts us : List Token} {tree : Tree} {body : List Tree}
    (h : Statement fold Γ d ts tree) (hlines : Lines fold (Γ.after tree) d us body)
    (hus : us = [] ∨ ∃ vs, us = .newline :: vs) : Lines fold Γ d (ts ++ us) (tree :: body) := by
  rcases hus with rfl | ⟨vs, rfl⟩
  · rw [hlines.eq_nil_of_nil, List.append_nil]
    exact .last h
  · exact .cons h hlines.of_newline

theorem newlines_of_nil {ts : List Token} (h : Lines fold Γ d ts []) : ∃ n, ts = newlines n := by
  generalize hbody : ([] : List Tree) = body at h
  induction h with
  | nil => exact ⟨0, rfl⟩
  | newline h ih =>
      obtain ⟨n, rfl⟩ := ih hbody
      exact ⟨n + 1, rfl⟩
  | last h => cases hbody
  | cons h hlines ih => cases hbody

/-- Lines that end in an expression are a body, with line breaks around it. -/
theorem exists_body {ts : List Token} {body : List Tree} (h : Lines fold Γ d ts body)
    (hlast : body.getLast?.any Tree.isExpr = true) :
    ∃ before us behind, ts = newlines before ++ us ++ newlines behind ∧
      Body fold Γ d us body := by
  have hexpr : ∀ {Γ ts tree}, Statement fold Γ d ts tree → tree.isExpr = true →
      Expression fold Γ d ts tree := by
    intro Γ ts tree h htree
    cases h with
    | value hname h => cases htree
    | definition hname hparams hdistinct h => cases htree
    | expression h => exact h
  induction h with
  | nil => cases hlast
  | newline h ih =>
      obtain ⟨before, us, behind, rfl, hbody⟩ := ih hlast hexpr
      exact ⟨before + 1, us, behind, rfl, hbody⟩
  | @last Γ d ts tree h =>
      exact ⟨0, ts, 0, by simp [newlines], .last (hexpr h (by simpa using hlast))⟩
  | @cons Γ d ts us tree body h hlines ih =>
      cases body with
      | nil =>
          obtain ⟨behind, rfl⟩ := hlines.newlines_of_nil
          refine ⟨0, ts, behind + 1, rfl, .last (hexpr h (by simpa using hlast))⟩
      | cons next body =>
          rw [List.getLast?_cons_cons] at hlast
          obtain ⟨between, vs, behind, rfl, hbody⟩ := ih hlast hexpr
          refine ⟨0, ts ++ newlines (between + 1) ++ vs, behind, ?_, .cons between h hbody⟩
          simp [newlines, List.replicate_succ]

/-- Lines go on with a line break. -/
theorem append {ts us : List Token} {body next : List Tree} (h : Lines fold Γ d ts body)
    (hnext : Lines fold (Γ.afterAll body) d us next) (hus : us = [] ∨ ∃ vs, us = .newline :: vs) :
    Lines fold Γ d (ts ++ us) (body ++ next) := by
  induction h with
  | nil Γ d => exact hnext
  | newline h ih => exact .newline (ih hnext)
  | last h => exact statement_cons h hnext hus
  | @cons Γ d ts vs tree body h hlines ih =>
      have hcons := Lines.cons h (ih hnext)
      rwa [← List.cons_append, ← List.append_assoc] at hcons

/-- A number on a line of its own is an end to any lines. -/
theorem append_number {ts : List Token} {body : List Tree} (h : Lines fold Γ d ts body)
    (value : Double) :
    Lines fold Γ d (ts ++ [.newline, .number value]) (body ++ [.number value]) := by
  refine h.append (.newline (.last (.expression ?_))) (.inr ⟨_, rfl⟩)
  exact .mk (.number _ d value) (.nil _ d) (.single _)

theorem exists_completion {ts : List Token} {body : List Tree} (h : Lines fold Γ d ts body)
    (value : Double) :
    ∃ before us behind body', ts ++ [.newline, .number value] =
      newlines before ++ us ++ newlines behind ∧ Body fold Γ d us body' := by
  obtain ⟨before, us, behind, hts, hbody⟩ :=
    (h.append_number value).exists_body (by simp [Tree.isExpr])
  exact ⟨before, us, behind, _, hts, hbody⟩

end Lines

end Lila.Grammar
