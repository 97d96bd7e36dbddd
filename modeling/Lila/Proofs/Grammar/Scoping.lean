import Lila.Proofs.Grammar.Soundness
import Lila.Proofs.Tree.Scoping

/-! # Scoping of programs

The names that a program may use are checked along its tokens, with a scope for
every pair of braces. The tree that keeps a block for every pair of braces has the
same scopes, so that a walk over it finds what the grammar has asked for. The tree
of the program comes from that one by collapsing blocks, which a walk does not see.
-/

namespace Lila.Grammar

open Lila.Tree (collapse collapseAll)

/-! ## Keeping every block -/

theorem Env.after_collapse (Γ : Env) {kept : Tree} (h : kept.isExpr = kept.collapse.isExpr) :
    Γ.after kept.collapse = Γ.after kept := by
  cases hexpr : kept.isExpr with
  | true => rw [Γ.after_of_isExpr (h ▸ hexpr), Γ.after_of_isExpr hexpr]
  | false =>
      cases kept with
      | value name expr => rfl
      | definition name params body => rfl
      | number | binary | call | block => cases hexpr

/-- The tree of a chain of operands, with every block kept if the operands keep them. -/
theorem exists_kept_grouping {first tree kept : Tree} {links keptLinks : Links}
    (hfirst : kept.collapse = first)
    (hlinks : keptLinks.map (Prod.map id collapse) = links) (h : Grouping first links tree) :
    ∃ keptTree, Grouping kept keptLinks keptTree ∧ keptTree.collapse = tree := by
  obtain ⟨keptTree, hkept⟩ := Grouping.exists_tree kept keptLinks
  have hmap := hkept.map (f := collapse) fun _ _ _ => rfl
  rw [hfirst, hlinks] at hmap
  exact ⟨keptTree, hkept, hmap.unique h⟩

mutual

theorem exists_kept_expression {Γ : Env} {d : Nat} {ts : List Token} {tree : Tree} :
    Expression .ofBody Γ d ts tree → ∃ kept, Expression .block Γ d ts kept ∧ kept.collapse = tree
  | .mk hfirst hlinks hgroup => by
      obtain ⟨kept, hkept, hcollapse⟩ := exists_kept_operand hfirst
      obtain ⟨keptLinks, hkeptLinks, hmap⟩ := exists_kept_operators hlinks
      obtain ⟨tree, hgroup, htree⟩ := exists_kept_grouping hcollapse hmap hgroup
      exact ⟨tree, .mk hkept hkeptLinks hgroup, htree⟩

theorem exists_kept_operators {Γ : Env} {d : Nat} {ts : List Token} {links : Links} :
    Operators .ofBody Γ d ts links →
      ∃ kept, Operators .block Γ d ts kept ∧ kept.map (Prod.map id collapse) = links
  | .nil .. => ⟨[], .nil Γ d, rfl⟩
  | .cons op hoperand hlinks => by
      obtain ⟨kept, hkept, rfl⟩ := exists_kept_operand hoperand
      obtain ⟨keptLinks, hkeptLinks, rfl⟩ := exists_kept_operators hlinks
      exact ⟨(op, kept) :: keptLinks, .cons op hkept hkeptLinks, rfl⟩

theorem exists_kept_operand {Γ : Env} {d : Nat} {ts : List Token} {tree : Tree} :
    Operand .ofBody Γ d ts tree → ∃ kept, Operand .block Γ d ts kept ∧ kept.collapse = tree
  | .number _ _ value => ⟨.number value, .number Γ d value, rfl⟩
  | .name _ hname => ⟨.call _ [], .name d hname, rfl⟩
  | .call hname hargs => by
      obtain ⟨kept, hkept, rfl⟩ := exists_kept_arguments hargs
      exact ⟨.call _ kept, .call hname hkept, rfl⟩
  | .group h => by
      obtain ⟨kept, hkept, rfl⟩ := exists_kept_expression h
      exact ⟨kept, .group hkept, rfl⟩
  | .block before behind h => by
      obtain ⟨kept, hkept, rfl⟩ := exists_kept_body h
      exact ⟨.block (d + 1) kept, .block before behind hkept, rfl⟩

theorem exists_kept_arguments {Γ : Env} {d : Nat} {ts : List Token} {args : List Tree} :
    Arguments .ofBody Γ d ts args →
      ∃ kept, Arguments .block Γ d ts kept ∧ collapseAll kept = args
  | .one h => by
      obtain ⟨kept, hkept, rfl⟩ := exists_kept_expression h
      exact ⟨[kept], .one hkept, rfl⟩
  | .cons h hargs => by
      obtain ⟨kept, hkept, rfl⟩ := exists_kept_expression h
      obtain ⟨keptArgs, hkeptArgs, rfl⟩ := exists_kept_arguments hargs
      exact ⟨kept :: keptArgs, .cons hkept hkeptArgs, rfl⟩

theorem exists_kept_statement {Γ : Env} {d : Nat} {ts : List Token} {tree : Tree} :
    Statement .ofBody Γ d ts tree →
      ∃ kept, Statement .block Γ d ts kept ∧ kept.collapse = tree ∧
        kept.isExpr = kept.collapse.isExpr
  | .value hname h => by
      obtain ⟨kept, hkept, rfl⟩ := exists_kept_expression h
      exact ⟨.value _ kept, .value hname hkept, rfl, rfl⟩
  | .definition hname hparams hdistinct h => by
      obtain ⟨kept, hkept, rfl⟩ := exists_kept_expression h
      exact ⟨.definition _ _ kept, .definition hname hparams hdistinct hkept, rfl, rfl⟩
  | .expression h => by
      obtain ⟨kept, hkept, rfl⟩ := exists_kept_expression h
      refine ⟨kept, .expression hkept, rfl, ?_⟩
      rw [hkept.isExpr valued_block, h.isExpr valued_ofBody]

theorem exists_kept_body {Γ : Env} {d : Nat} {ts : List Token} {body : List Tree} :
    Body .ofBody Γ d ts body → ∃ kept, Body .block Γ d ts kept ∧ collapseAll kept = body
  | .last h => by
      obtain ⟨kept, hkept, rfl⟩ := exists_kept_expression h
      exact ⟨[kept], .last hkept, rfl⟩
  | .cons between h hbody => by
      obtain ⟨keptBody, hkeptBody, rfl⟩ := exists_kept_body hbody
      obtain ⟨kept, hkept, rfl, hexpr⟩ := exists_kept_statement h
      rw [Γ.after_collapse hexpr] at hkeptBody
      exact ⟨kept :: keptBody, .cons between hkept hkeptBody, rfl⟩

end

/-! ## The form of the trees -/

mutual

theorem Expression.proper {Γ : Env} {d : Nat} {ts : List Token} {tree : Tree} :
    Expression .block Γ d ts tree → tree.isExpr = true ∧ tree.Proper
  | .mk hfirst hlinks hgroup =>
      hgroup.of_operands (P := fun tree => tree.isExpr = true ∧ tree.Proper)
        (fun _ _ _ _ hlhs hrhs => ⟨rfl, hlhs, hrhs⟩) hfirst.proper hlinks.proper

theorem Operators.proper {Γ : Env} {d : Nat} {ts : List Token} {links : Links} :
    Operators .block Γ d ts links → ∀ link ∈ links, link.2.isExpr = true ∧ link.2.Proper
  | .nil .. => by simp
  | .cons _ hoperand hlinks => List.forall_mem_cons.2 ⟨hoperand.proper, hlinks.proper⟩

theorem Operand.proper {Γ : Env} {d : Nat} {ts : List Token} {tree : Tree} :
    Operand .block Γ d ts tree → tree.isExpr = true ∧ tree.Proper
  | .number .. => ⟨rfl, trivial⟩
  | .name .. => ⟨rfl, by simp, trivial⟩
  | .call _ hargs => ⟨rfl, hargs.proper⟩
  | .group h => h.proper
  | .block _ _ h => ⟨rfl, h.isExpr_last valued_block, h.proper⟩

theorem Arguments.proper {Γ : Env} {d : Nat} {ts : List Token} {args : List Tree} :
    Arguments .block Γ d ts args → (∀ arg ∈ args, arg.isExpr = true) ∧ Tree.ProperAll args
  | .one h => ⟨by simpa using h.proper.1, h.proper.2, trivial⟩
  | .cons h hargs =>
      ⟨List.forall_mem_cons.2 ⟨h.proper.1, hargs.proper.1⟩, h.proper.2, hargs.proper.2⟩

theorem Statement.proper {Γ : Env} {d : Nat} {ts : List Token} {tree : Tree} :
    Statement .block Γ d ts tree → tree.Proper
  | .value _ h => h.proper
  | .definition _ _ _ h => h.proper
  | .expression h => h.proper.2

theorem Body.proper {Γ : Env} {d : Nat} {ts : List Token} {body : List Tree} :
    Body .block Γ d ts body → Tree.ProperAll body
  | .last h => ⟨h.proper.2, trivial⟩
  | .cons _ h hbody => ⟨h.proper, hbody.proper⟩

end

/-! ## Walks

A walk follows the environment if it has the same names in its scopes. The numbers
in it belong to binders it has passed, so that a binder is new to all its calls. -/

structure Follows (Γ : Env) (w : Walk) : Prop where
  names : (w.scopes.map fun table => table.map Prod.fst) = Γ.here :: Γ.around
  bound : ∀ table ∈ w.scopes, ∀ entry ∈ table, entry.2 < w.binders
  calls : ∀ binder ∈ w.calls, binder < w.binders

/-- The walk goes on from `w` without failing, and follows the environment then. -/
def Passes (w : Walk) (Γ : Env) (r : Option Walk) : Prop :=
  ∃ v, r = some v ∧ Follows Γ v ∧ w.binders ≤ v.binders

theorem Passes.bind {w : Walk} {Γ Γ' : Env} {r : Option Walk} {f : Walk → Option Walk}
    (h : Passes w Γ r) (hf : ∀ v, Follows Γ v → Passes v Γ' (f v)) : Passes w Γ' (r.bind f) := by
  obtain ⟨v, rfl, hv, hle⟩ := h
  obtain ⟨u, hu, hfollows, hle'⟩ := hf v hv
  exact ⟨u, hu, hfollows, Nat.le_trans hle hle'⟩

namespace Follows

variable {Γ : Env} {w : Walk}

theorem done (h : Follows Γ w) : Passes w Γ (some w) := ⟨w, rfl, h, Nat.le_refl _⟩

theorem exists_cons (h : Follows Γ w) :
    ∃ table outer, w.scopes = table :: outer ∧ Γ.here = table.map Prod.fst ∧
      Γ.around = outer.map fun table => table.map Prod.fst := by
  have hnames := h.names
  cases hs : w.scopes with
  | nil =>
      rw [hs] at hnames
      cases hnames
  | cons table outer =>
      rw [hs, List.map_cons] at hnames
      obtain ⟨hhere, haround⟩ := List.cons.inj hnames
      exact ⟨table, outer, rfl, hhere.symm, haround.symm⟩

theorem call (h : Follows Γ w) {name : String} (hname : Γ.Sees name) :
    Passes w Γ (w.call name) := by
  have hsome : (w.scopes.findSome? (List.lookup name)).isSome = true := by
    obtain ⟨table, outer, hscopes, hhere, haround⟩ := h.exists_cons
    rw [hscopes, List.findSome?_isSome_iff]
    rcases hname with hname | ⟨names, hnames, hname⟩
    · rw [hhere] at hname
      exact ⟨table, List.mem_cons_self, Parser.lookup_isSome_iff_mem.2 hname⟩
    · rw [haround] at hnames
      obtain ⟨table', htable', rfl⟩ := List.mem_map.1 hnames
      exact ⟨table', List.mem_cons_of_mem _ htable', Parser.lookup_isSome_iff_mem.2 hname⟩
  obtain ⟨binder, hbinder⟩ := Option.isSome_iff_exists.1 hsome
  obtain ⟨table, htable, hlookup⟩ := List.exists_of_findSome?_eq_some hbinder
  have hlt : binder < w.binders := by
    obtain ⟨front, back, hentry, -⟩ := List.lookup_eq_some_iff.1 hlookup
    exact h.bound table htable (name, binder) (hentry ▸ by simp)
  refine ⟨{ w with calls := binder :: w.calls }, ?_, ?_, Nat.le_refl _⟩
  · rw [Walk.call, hbinder, Option.map_some]
  · exact ⟨h.names, h.bound, List.forall_mem_cons.2 ⟨hlt, h.calls⟩⟩

theorem bind (h : Follows Γ w) {name : String} (hname : name ∉ Γ.here) :
    Passes w (Γ.bind name) (w.bind name) := by
  obtain ⟨table, outer, hscopes, hhere, haround⟩ := h.exists_cons
  have hfree : w.isBoundHere name = false := by
    rw [hhere] at hname
    rw [Walk.isBoundHere, hscopes, List.headD_cons, Bool.eq_false_iff]
    exact fun hsome => hname (Parser.lookup_isSome_iff_mem.1 hsome)
  have hbound := h.bound
  rw [hscopes] at hbound
  obtain ⟨htable, houter⟩ := List.forall_mem_cons.1 hbound
  refine ⟨{ w with
    scopes := Scope.bindFront name w.binders w.scopes
    binders := w.binders + 1 }, ?_, ⟨?_, ?_, ?_⟩, Nat.le_succ _⟩
  · rw [Walk.bind, hfree]
    rfl
  · simp [hscopes, Scope.bindFront, Env.bind, hhere, haround]
  · simp only [hscopes, Scope.bindFront]
    refine List.forall_mem_cons.2 ⟨List.forall_mem_cons.2 ⟨Nat.lt_succ_self _, ?_⟩, ?_⟩
    · exact fun entry hentry => Nat.lt_succ_of_lt (htable entry hentry)
    · exact fun table htable entry hentry => Nat.lt_succ_of_lt (houter table htable entry hentry)
  · exact fun binder hbinder => Nat.lt_succ_of_lt (h.calls binder hbinder)

theorem bindAll {names : List String} (h : Follows Γ w) (hnodup : names.Nodup)
    (hfree : ∀ name ∈ names, name ∉ Γ.here) : Passes w (Γ.bindAll names) (w.bindAll names) := by
  induction names generalizing Γ w with
  | nil => exact h.done
  | cons name names ih =>
      obtain ⟨hnotin, hnodup⟩ := List.nodup_cons.1 hnodup
      obtain ⟨hname, hfree⟩ := List.forall_mem_cons.1 hfree
      refine (h.bind hname).bind fun v hv => ih hv hnodup fun other hother => ?_
      rw [Env.bind, List.mem_cons]
      rintro (rfl | hmem)
      · exact hnotin hother
      · exact hfree other hother hmem

/-- The binder of a definition is new, and so no call has it. -/
theorem define (h : Follows Γ w) {name : String} (hname : name ∉ Γ.here) :
    Passes w (Γ.bind name) (w.define name) := by
  rw [Walk.define, if_neg fun hmem => Nat.lt_irrefl _ (h.calls w.binders hmem)]
  exact h.bind hname

theorem inside {Γ' : Env} (h : Follows Γ w) {body : Walk → Option Walk}
    (hbody : ∀ v, Follows Γ.inside v → Passes v Γ' (body v)) : Passes w Γ (w.inside body) := by
  have hinner : Follows Γ.inside { w with scopes := [] :: w.scopes } := by
    refine ⟨?_, ?_, h.calls⟩
    · simp [Env.inside, h.names]
    · exact List.forall_mem_cons.2 ⟨by simp, h.bound⟩
  obtain ⟨v, hv, hfollows, hle⟩ := hbody _ hinner
  refine ⟨{ v with scopes := w.scopes }, ?_, ⟨h.names, ?_, hfollows.calls⟩, hle⟩
  · rw [Walk.inside, hv, Option.map_some]
  · intro table htable entry hentry
    exact Nat.lt_of_lt_of_le (h.bound table htable entry hentry) hle

end Follows

mutual

theorem Expression.passes {Γ : Env} {d : Nat} {ts : List Token} {tree : Tree} :
    Expression .block Γ d ts tree → ∀ w, Follows Γ w → Passes w Γ (tree.walk w)
  | .mk hfirst hlinks hgroup =>
      hgroup.of_operands (P := fun tree => ∀ w, Follows Γ w → Passes w Γ (tree.walk w))
        (fun _ _ _ _ hlhs hrhs w hw => (hlhs w hw).bind hrhs) hfirst.passes hlinks.passes

theorem Operators.passes {Γ : Env} {d : Nat} {ts : List Token} {links : Links} :
    Operators .block Γ d ts links →
      ∀ link ∈ links, ∀ w, Follows Γ w → Passes w Γ (link.2.walk w)
  | .nil .. => by simp
  | .cons _ hoperand hlinks => List.forall_mem_cons.2 ⟨hoperand.passes, hlinks.passes⟩

theorem Operand.passes {Γ : Env} {d : Nat} {ts : List Token} {tree : Tree} :
    Operand .block Γ d ts tree → ∀ w, Follows Γ w → Passes w Γ (tree.walk w)
  | .number .., _, hw => hw.done
  | .name _ hname, _, hw => (hw.call hname).bind fun _ hv => hv.done
  | .call hname hargs, _, hw => (hw.call hname).bind hargs.passes
  | .group h, w, hw => h.passes w hw
  | .block _ _ h, _, hw => by
      obtain ⟨Γ', hbody⟩ := h.passes
      exact hw.inside hbody

theorem Arguments.passes {Γ : Env} {d : Nat} {ts : List Token} {args : List Tree} :
    Arguments .block Γ d ts args → ∀ w, Follows Γ w → Passes w Γ (Tree.walkAll args w)
  | .one h, w, hw => (h.passes w hw).bind fun _ hv => hv.done
  | .cons h hargs, w, hw => (h.passes w hw).bind hargs.passes

theorem Statement.passes {Γ : Env} {d : Nat} {ts : List Token} {tree : Tree} :
    Statement .block Γ d ts tree → ∀ w, Follows Γ w → Passes w (Γ.after tree) (tree.walk w)
  | .value hname h, w, hw => (h.passes w hw).bind fun _ hv => hv.bind hname
  | .definition hname _ hdistinct h, _, hw =>
      (hw.inside fun _ hv => (hv.bindAll hdistinct (by simp [Env.inside])).bind h.passes).bind
        fun _ hv => hv.define hname
  | .expression h, w, hw => by
      rw [Γ.after_of_isExpr (h.isExpr valued_block)]
      exact h.passes w hw

/-- Behind the statements their names are bound as well. -/
theorem Body.passes {Γ : Env} {d : Nat} {ts : List Token} {body : List Tree} :
    Body .block Γ d ts body → ∃ Γ', ∀ w, Follows Γ w → Passes w Γ' (Tree.walkAll body w)
  | .last h => ⟨Γ, fun w hw => (h.passes w hw).bind fun _ hv => hv.done⟩
  | .cons _ h hbody => by
      obtain ⟨Γ', hrest⟩ := hbody.passes
      exact ⟨Γ', fun w hw => (h.passes w hw).bind hrest⟩

end

/-! ## Programs -/

theorem Program.exists_kept {ts : List Token} {tree : Tree} (h : Program .ofBody ts tree) :
    ∃ body, Program .block ts (.block 0 body) ∧ tree = .block 0 (collapseAll body) := by
  cases h with
  | mk before behind h =>
      obtain ⟨body, hbody, rfl⟩ := exists_kept_body h
      exact ⟨body, .mk before behind hbody, rfl⟩

theorem Program.walk_collapseAll {ts : List Token} {depth : Nat} {body : List Tree}
    (h : Program .block ts (.block depth body)) (w : Walk) :
    (Tree.block depth (collapseAll body)).walk w = (Tree.block depth body).walk w := by
  cases h with
  | mk before behind h =>
      rw [Tree.walk, Tree.walk]
      congr 1
      exact funext (Tree.walkAll_collapseAll body h.proper)

theorem Program.wellScoped {ts : List Token} {tree : Tree} (h : Program .block ts tree) :
    tree.WellScoped := by
  cases h with
  | mk before behind h =>
      obtain ⟨Γ', hbody⟩ := h.passes
      have hstart : Follows {} { scopes := [[]] } := ⟨rfl, by simp, by simp⟩
      obtain ⟨v, hv, -⟩ := hbody _ hstart
      rw [Tree.WellScoped, Tree.walk, Walk.inside, hv]
      rfl

end Lila.Grammar

namespace Lila.Parser

open Grammar

/-- The tree of a program is well scoped. It has the binders and the calls of the tree
that keeps a block, and with it a scope, for every pair of braces, and in both each
call has the same binder. -/
theorem parse_wellScoped {lexemes : List Lexeme} {tree : Tree} (h : parse lexemes = .ok tree) :
    tree.WellScoped ∧
      ∃ body, Program .block (lexemes.map Lexeme.token) (.block 0 body) ∧
        tree = .block 0 (Tree.collapseAll body) ∧
        ∀ w, tree.walk w = (Tree.block 0 body).walk w := by
  obtain ⟨body, hkept, rfl⟩ := (program_of_parse h).exists_kept
  have hwalk := hkept.walk_collapseAll
  refine ⟨?_, body, hkept, rfl, hwalk⟩
  rw [Tree.WellScoped, hwalk]
  exact hkept.wellScoped

/-- A parameter hides a value in a block that is collapsed, and behind the definition
the name is that of the value again, also in braces. -/
theorem parse_wellScoped_hidden_name :
    ∃ tree, parse ([.kwVal, .ident "x", .assign, .number (.ofBits 0), .newline,
      .kwDef, .ident "f", .parenOpen, .ident "x", .parenClose, .assign, .blockOpen, .ident "x",
      .binop "+", .blockOpen, .ident "x", .blockClose, .blockClose, .newline,
      .ident "f", .parenOpen, .blockOpen, .ident "x", .blockClose, .parenClose].map
        fun token => ⟨⟨0, 0, 1⟩, token⟩) = .ok tree ∧
      tree = .block 0 [.value "x" (.number (.ofBits 0)),
        .definition "f" ["x"] (.binary "+" (.call "x" []) (.call "x" [])),
        .call "f" [.call "x" []]] ∧ tree.WellScoped := by
  suffices h : parse _ = .ok _ from ⟨_, h, rfl, (parse_wellScoped h).1⟩
  decide +kernel

end Lila.Parser
