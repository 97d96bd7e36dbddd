import Lila.Proofs.Grammar.Completeness
import Lila.Proofs.Grammar.Weakening

/-! # Programs one behind the other

Two programs with a line break between them are one program, with the statements of
both. The second one is read with the names of the first one bound. It keeps its
tree, for it needs none of them; only a name that it binds itself can be in use. The
reading then comes to an end at the first such name, at its place in the second
program.
-/

namespace Lila

namespace Grammar

open Lila.Tree (boundNames)

variable {fold : Nat → List Tree → Tree} {Γ : Env} {d : Nat} {ts us : List Token}
  {body next : List Tree}

/-! ## Programs as lines -/

theorem Lines.newlines_append (h : Lines fold Γ d ts body) (n : Nat) :
    Lines fold Γ d (newlines n ++ ts) body := by
  induction n with
  | zero => exact h
  | succ n ih => exact .newline ih

theorem Lines.append_newlines (h : Lines fold Γ d ts body) (n : Nat) :
    Lines fold Γ d (ts ++ newlines n) body := by
  have hnil : Lines fold (Γ.afterAll body) d (newlines n ++ []) [] :=
    (Lines.nil _ d).newlines_append n
  have hstart : newlines n = [] ∨ ∃ vs, newlines n = .newline :: vs := by
    cases n with
    | zero => exact .inl rfl
    | succ n => exact .inr ⟨_, rfl⟩
  rw [List.append_nil] at hnil
  have happend := h.append hnil hstart
  rwa [List.append_nil] at happend

theorem Body.lines (h : Body fold Γ d ts body) : Lines fold Γ d ts body := by
  generalize hn : body.length = n
  induction n generalizing Γ ts body with
  | zero => cases h <;> cases hn
  | succ n ih =>
      cases h with
      | last h => exact .last (.expression h)
      | cons between h hbody =>
          have hlines := ih hbody (by simpa using hn)
          rw [List.append_assoc]
          exact .cons h (hlines.newlines_append between)

/-- A program is lines that end in an expression. -/
theorem program_iff (hfold : Valued fold) :
    Program fold ts (.block 0 body) ↔
      Lines fold {} 0 ts body ∧ body.getLast?.any Tree.isExpr = true := by
  constructor
  · intro h
    cases h with
    | mk before behind h =>
        exact ⟨(h.lines.newlines_append before).append_newlines behind, h.isExpr_last hfold⟩
  · rintro ⟨h, hlast⟩
    obtain ⟨before, us, behind, rfl, hbody⟩ := h.exists_body hlast
    exact .mk before behind hbody

/-! ## The second program behind the first one -/

/-- Lines are lines behind others as well, if they bind other names. -/
theorem Lines.append_of_disjoint (h : Lines fold {} d ts body) (hnext : Lines fold {} d us next)
    (hdisjoint : ∀ name ∈ boundNames next, name ∉ boundNames body)
    (hus : us = [] ∨ ∃ vs, us = .newline :: vs) : Lines fold {} d (ts ++ us) (body ++ next) := by
  refine h.append (hnext.weaken ?_ ?_) hus
  · rintro name (hname | ⟨names, hnames, -⟩)
    · cases hname
    · cases hnames
  · intro name hname hmem
    rw [Env.mem_here_afterAll] at hmem
    exact hmem.resolve_left (hdisjoint name hname)

theorem starts_of_concat (h : .newline :: us = ts ++ [.newline]) :
    ts = [] ∨ ∃ vs, ts = .newline :: vs := by
  cases ts with
  | nil => exact .inl rfl
  | cons token ts =>
      cases h
      exact .inr ⟨ts, rfl⟩

/-- The lines in front of a statement are those of the statements before it. They are
empty or end in a line break, so that with one more of them in front they are lines and
a line break behind these. -/
theorem Lines.exists_front {pre post : List Tree} {tree : Tree}
    (h : Lines fold Γ d ts (pre ++ tree :: post)) :
    ∃ us vs ws, ts = us ++ vs ++ ws ∧ Lines fold Γ d us pre ∧
      Statement fold (Γ.afterAll pre) d vs tree ∧
      ∃ us', .newline :: us = us' ++ [.newline] ∧ Lines fold Γ d us' pre := by
  generalize hbody : pre ++ tree :: post = body at h
  induction h generalizing pre with
  | nil => simp at hbody
  | newline h ih =>
      obtain ⟨us, vs, ws, rfl, hus, hvs, us', heq, hus'⟩ := ih hbody
      exact ⟨.newline :: us, vs, ws, rfl, .newline hus, hvs, .newline :: us',
        congrArg (_ :: ·) heq, .newline hus'⟩
  | @last Γ d ts tree' h =>
      cases pre with
      | nil =>
          cases hbody
          exact ⟨[], ts, [], by simp, .nil Γ d, h, [], rfl, .nil Γ d⟩
      | cons first pre => simp at hbody
  | @cons Γ d ts us tree' body h hlines ih =>
      cases pre with
      | nil =>
          cases hbody
          exact ⟨[], ts, .newline :: us, rfl, .nil Γ d, h, [], rfl, .nil Γ d⟩
      | cons first pre =>
          obtain ⟨rfl, rfl⟩ := List.cons.inj hbody
          obtain ⟨us, vs, ws, rfl, hus, hvs, us', heq, hus'⟩ := ih rfl
          refine ⟨ts ++ .newline :: us, vs, ws, by simp, .cons h hus, hvs, .newline :: (ts ++ us'),
            ?_, .newline (statement_cons h hus' (starts_of_concat heq))⟩
          rw [heq]
          simp

/-- A binding is its keyword, its name and more. -/
theorem Statement.binding (hfold : Valued fold) {tree : Tree} {name : String}
    (h : Statement fold Γ d ts tree) (hbinds : tree.binds = some name) :
    ∃ keyword us, ts = keyword :: .ident name :: us ∧ (keyword = .kwVal ∨ keyword = .kwDef) := by
  cases h with
  | value hname h =>
      cases hbinds
      exact ⟨_, _, rfl, .inl rfl⟩
  | definition hname hparams hdistinct h =>
      cases hbinds
      exact ⟨_, _, rfl, .inr rfl⟩
  | expression h =>
      have hexpr := h.isExpr hfold
      cases tree with
      | value | definition => cases hexpr
      | number | binary | call | block => cases hbinds

end Grammar

namespace Tree

/-- If any name is in use, there is a first one. -/
theorem exists_first_clash {body : List Tree} {names : List String}
    (h : ¬ ∀ name ∈ boundNames body, name ∉ names) :
    ∃ pre tree post name, body = pre ++ tree :: post ∧ tree.binds = some name ∧ name ∈ names ∧
      ∀ other ∈ boundNames pre, other ∉ names := by
  induction body with
  | nil => exact (h (by simp [boundNames])).elim
  | cons first body ih =>
      by_cases hfirst : ∃ name, first.binds = some name ∧ name ∈ names
      · obtain ⟨name, hbinds, hname⟩ := hfirst
        exact ⟨[], first, body, name, rfl, hbinds, hname, by simp [boundNames]⟩
      · have hnone : ∀ name, first.binds = some name → name ∉ names :=
          fun name hbinds hname => hfirst ⟨name, hbinds, hname⟩
        have hcons : ∀ pre, (∀ name ∈ boundNames pre, name ∉ names) →
            ∀ name ∈ boundNames (first :: pre), name ∉ names := by
          intro pre hpre name hname
          obtain ⟨tree, htree, hbinds⟩ := List.mem_filterMap.1 hname
          rcases List.mem_cons.1 htree with rfl | htree
          · exact hnone name hbinds
          · exact hpre name (List.mem_filterMap.2 ⟨tree, htree, hbinds⟩)
        obtain ⟨pre, tree, post, name, rfl, hbinds, hname, hpre⟩ :=
          ih fun hall => h (hcons body hall)
        exact ⟨first :: pre, tree, post, name, rfl, hbinds, hname, hcons pre hpre⟩

end Tree

namespace Parser

open Grammar

open Lila.Tree (boundNames)

/-! ## Runs over lines -/

/-- The loop goes over lines that end in a line break, and an error behind them is its
error. -/
theorem statements_of_lines {Γ : Env} {d : Nat} {ts : List Token} {body : List Tree}
    (h : Lines .ofBody Γ d ts body) {ys : List Lexeme} {s : State} {left : List Lexeme}
    (braced : Bool) (hat : At Γ d (ts ++ [.newline]) ys s) (hleft : s.rest.length ≤ left.length) :
    ∃ t left', At (Γ.afterAll body) d [] ys t ∧ t.rest.length ≤ left'.length ∧
      ∀ {e u}, statements expression braced left' t = .error e u →
        statements expression braced left s = .error e u := by
  induction h generalizing s left with
  | nil Γ d =>
      obtain ⟨t, left', hat', hleft', he⟩ := statements_newlines (n := 1) left hat hleft
      exact ⟨t, left', hat', hleft', fun herror => he.trans herror⟩
  | newline h ih =>
      obtain ⟨t, left', hat', hleft', he⟩ := statements_newlines (n := 1) left hat hleft
      obtain ⟨u, left'', hat'', hleft'', herror⟩ := ih hat' hleft'
      exact ⟨u, left'', hat'', hleft'', fun hu => he.trans (herror hu)⟩
  | last h =>
      obtain ⟨t, left', hat', hleft', he⟩ :=
        statements_of_line braced h (runs_statement h) hat hleft
      exact ⟨t, left', hat', hleft', fun herror => by rw [he, herror]⟩
  | cons h hlines ih =>
      rw [List.append_assoc] at hat
      obtain ⟨t, left', hat', hleft', he⟩ :=
        statements_of_line braced h (runs_statement h) hat hleft
      obtain ⟨u, left'', hat'', hleft'', herror⟩ := ih hat' hleft'
      exact ⟨u, left'', hat'', hleft'', fun hu => by rw [he, herror hu]⟩

/-- A binding of a name that the innermost scope has ends at the name. -/
theorem statements_of_clash (braced : Bool) {s : State} {keyword : Lexeme} {span : Span}
    {name : String} {rest left : List Lexeme}
    (hkeyword : keyword.token = .kwVal ∨ keyword.token = .kwDef)
    (hs : s.rest = keyword :: ⟨span, .ident name⟩ :: rest) (hname : name ∈ s.env.here)
    (hleft : s.rest.length ≤ left.length) :
    ∃ u, statements expression braced left s = .error ⟨.alreadyDefined name, some span⟩ u := by
  have hstatement : ∃ u, statement expression s = .error ⟨.alreadyDefined name, some span⟩ u := by
    have hdefined := (isDefinedHere_iff s name).2 hname
    have hnew : ∀ expected, newName expected { s with rest := ⟨span, .ident name⟩ :: rest } =
        .error ⟨.alreadyDefined name, some span⟩ { s with rest := rest } :=
      fun expected => (newName_ident expected rfl).trans (if_pos hdefined)
    obtain ⟨place, token⟩ := keyword
    rcases hkeyword with rfl | rfl
    · rw [statement_value expression hs, afterVal, bind_run, hnew]
      exact ⟨_, rfl⟩
    · rw [statement_definition expression hs, afterDef, bind_run, hnew]
      exact ⟨_, rfl⟩
  have hstarts : StartsStatement keyword.token := .inr hkeyword
  obtain ⟨u, hu⟩ := hstatement
  cases left with
  | nil => simp [hs] at hleft
  | cons y left =>
      refine ⟨u, ?_⟩
      rw [statements_first expression braced y left hs hstarts.ne_newline
        fun _ => hstarts.ne_blockClose, firstStatement, bind_run, hu]

/-! ## Programs -/

/-- Behind the statements `pre` the input has the statement of the tree, and that
one binds the name, which has the given place. -/
def BindsAt (lexemes : List Lexeme) (pre : List Tree) (tree : Tree) (name : String) (span : Span) :
    Prop :=
  tree.binds = some name ∧ ∃ front keyword rest back,
    lexemes = front ++ keyword :: ⟨span, .ident name⟩ :: rest ++ back ∧
    Lines .ofBody {} 0 (front.map Lexeme.token) pre ∧
    Statement .ofBody (Env.afterAll {} pre) 0
      (keyword.token :: .ident name :: rest.map Lexeme.token) tree

theorem parse_append_of_disjoint {first second : List Lexeme} {body next : List Tree}
    (h : Program .ofBody (first.map Lexeme.token) (.block 0 body))
    (hnext : Program .ofBody (second.map Lexeme.token) (.block 0 next)) (line : Span)
    (hdisjoint : ∀ name ∈ boundNames next, name ∉ boundNames body) :
    parse (first ++ ⟨line, .newline⟩ :: second) = .ok (.block 0 (body ++ next)) := by
  obtain ⟨hlines, -⟩ := (program_iff valued_ofBody).1 h
  obtain ⟨hmore, hlast⟩ := (program_iff valued_ofBody).1 hnext
  refine parse_of_program ((program_iff valued_ofBody).2 ⟨?_, ?_⟩)
  · rw [List.map_append, List.map_cons]
    exact hlines.append_of_disjoint (.newline hmore) hdisjoint (.inr ⟨_, rfl⟩)
  · cases hend : next.getLast? with
    | none =>
        rw [hend] at hlast
        cases hlast
    | some last =>
        rw [hend] at hlast
        rwa [List.getLast?_append, hend]

theorem parse_append_of_clash {first second : List Lexeme} {body pre post : List Tree} {tree : Tree}
    {name : String} (h : Program .ofBody (first.map Lexeme.token) (.block 0 body))
    (hnext : Program .ofBody (second.map Lexeme.token) (.block 0 (pre ++ tree :: post)))
    (line : Span) (hbinds : tree.binds = some name) (hname : name ∈ boundNames body)
    (hdisjoint : ∀ other ∈ boundNames pre, other ∉ boundNames body) :
    ∃ span, BindsAt second pre tree name span ∧
      parse (first ++ ⟨line, .newline⟩ :: second) = .error ⟨.alreadyDefined name, some span⟩ := by
  obtain ⟨hlines, -⟩ := (program_iff valued_ofBody).1 h
  obtain ⟨hmore, -⟩ := (program_iff valued_ofBody).1 hnext
  obtain ⟨us, vs, ws, htokens, hus, hvs, us', heq, hus'⟩ := hmore.exists_front
  obtain ⟨keyword, vs, rfl, hkeyword⟩ := hvs.binding valued_ofBody hbinds
  -- The tokens of the second program, with their places.
  obtain ⟨xs, back, rfl, hxs, rfl⟩ := List.map_eq_append_iff.1 htokens
  obtain ⟨front, zs, rfl, rfl, hzs⟩ := List.map_eq_append_iff.1 hxs
  obtain ⟨keyword, zs, rfl, rfl, hrest⟩ := List.map_eq_cons_iff.1 hzs
  obtain ⟨⟨span, token⟩, rest, rfl, rfl, rfl⟩ := List.map_eq_cons_iff.1 hrest
  refine ⟨span, ⟨hbinds, front, keyword, rest, back, rfl, hus, hvs⟩, ?_⟩
  have hall := hlines.append_of_disjoint hus' hdisjoint (starts_of_concat heq)
  have hat : At {} 0 (first.map Lexeme.token ++ us' ++ [.newline])
      (keyword :: ⟨span, .ident name⟩ :: rest ++ back)
      { rest := first ++ ⟨line, .newline⟩ ::
        (front ++ keyword :: ⟨span, .ident name⟩ :: rest ++ back) } := by
    refine ⟨rfl, rfl, first ++ ⟨line, .newline⟩ :: front, by simp, ?_⟩
    rw [List.append_assoc, ← heq, List.map_append, List.map_cons]
  obtain ⟨t, left, hat', hleft, herror⟩ := statements_of_lines hall false hat (Nat.le_refl _)
  have hhere : name ∈ t.env.here := by
    rw [hat'.env, Env.mem_here_afterAll, boundNames, List.filterMap_append]
    exact .inl (List.mem_append_left _ hname)
  obtain ⟨u, hu⟩ := statements_of_clash false hkeyword hat'.nil hhere hleft
  rw [parse, parseRun_eq, herror hu]

/-- Two programs with a line break between them are one program, with the statements
of both, if the second one binds no name that the first one binds. If it does, the
first such name is already defined, at its place in the second program. -/
theorem parse_append {first second : List Lexeme} {body next : List Tree}
    (h : parse first = .ok (.block 0 body)) (hnext : parse second = .ok (.block 0 next))
    (line : Span) :
    ((∀ name ∈ boundNames next, name ∉ boundNames body) →
      parse (first ++ ⟨line, .newline⟩ :: second) = .ok (.block 0 (body ++ next))) ∧
    ((¬ ∀ name ∈ boundNames next, name ∉ boundNames body) →
      ∃ pre tree post name span e,
        next = pre ++ tree :: post ∧ BindsAt second pre tree name span ∧
        name ∈ boundNames body ∧ (∀ other ∈ boundNames pre, other ∉ boundNames body) ∧
        parse (first ++ ⟨line, .newline⟩ :: second) = .error e ∧
        e.message = name ++ " is already defined" ∧ e.span = some span) := by
  have hprogram := program_of_parse h
  have hmore := program_of_parse hnext
  refine ⟨parse_append_of_disjoint hprogram hmore line, fun hclash => ?_⟩
  obtain ⟨pre, tree, post, name, rfl, hbinds, hname, hdisjoint⟩ := Tree.exists_first_clash hclash
  obtain ⟨span, hplace, herror⟩ :=
    parse_append_of_clash hprogram hmore line hbinds hname hdisjoint
  exact ⟨pre, tree, post, name, span, _, rfl, hplace, hname, hdisjoint, herror, rfl, rfl⟩

/-- The name of a value may be that of a parameter of the next program, and of a value in
a block of it, but not that of one of its own definitions. -/
theorem parse_append_reused_name :
    let first : List Lexeme := [⟨⟨0, 3, 1⟩, .kwVal⟩, ⟨⟨4, 5, 1⟩, .ident "x"⟩, ⟨⟨6, 7, 1⟩, .assign⟩,
      ⟨⟨8, 9, 1⟩, .number (.ofBits 0)⟩, ⟨⟨9, 10, 1⟩, .newline⟩, ⟨⟨10, 11, 2⟩, .ident "x"⟩]
    let second : List Lexeme := [⟨⟨0, 3, 1⟩, .kwDef⟩, ⟨⟨4, 5, 1⟩, .ident "f"⟩,
      ⟨⟨5, 6, 1⟩, .parenOpen⟩, ⟨⟨6, 7, 1⟩, .ident "x"⟩, ⟨⟨7, 8, 1⟩, .parenClose⟩,
      ⟨⟨9, 10, 1⟩, .assign⟩, ⟨⟨11, 12, 1⟩, .ident "x"⟩, ⟨⟨12, 13, 1⟩, .newline⟩,
      ⟨⟨13, 14, 2⟩, .ident "f"⟩, ⟨⟨14, 15, 2⟩, .parenOpen⟩, ⟨⟨15, 16, 2⟩, .number (.ofBits 0)⟩,
      ⟨⟨16, 17, 2⟩, .parenClose⟩]
    let third : List Lexeme := [⟨⟨0, 1, 1⟩, .blockOpen⟩, ⟨⟨1, 4, 1⟩, .kwVal⟩,
      ⟨⟨5, 6, 1⟩, .ident "x"⟩, ⟨⟨7, 8, 1⟩, .assign⟩, ⟨⟨9, 10, 1⟩, .number (.ofBits 0)⟩,
      ⟨⟨10, 11, 1⟩, .newline⟩, ⟨⟨11, 12, 2⟩, .ident "x"⟩, ⟨⟨12, 13, 2⟩, .blockClose⟩,
      ⟨⟨13, 14, 2⟩, .newline⟩, ⟨⟨14, 17, 3⟩, .kwDef⟩, ⟨⟨18, 19, 3⟩, .ident "x"⟩,
      ⟨⟨20, 21, 3⟩, .assign⟩, ⟨⟨22, 23, 3⟩, .number (.ofBits 0)⟩, ⟨⟨23, 24, 3⟩, .newline⟩,
      ⟨⟨24, 25, 4⟩, .ident "x"⟩]
    parse (first ++ ⟨⟨11, 12, 2⟩, .newline⟩ :: second) =
        .ok (.block 0 [.value "x" (.number (.ofBits 0)), .call "x" [],
          .definition "f" ["x"] (.call "x" []), .call "f" [.number (.ofBits 0)]]) ∧
      ∃ name span e, name ∈ ["x"] ∧
        parse (first ++ ⟨⟨11, 12, 2⟩, .newline⟩ :: third) = .error e ∧
        e.message = name ++ " is already defined" ∧ e.span = some span := by
  intro first second third
  have hfirst : parse first = .ok (.block 0 [.value "x" (.number (.ofBits 0)), .call "x" []]) := by
    decide +kernel
  have hsecond : parse second = .ok (.block 0 [.definition "f" ["x"] (.call "x" []),
      .call "f" [.number (.ofBits 0)]]) := by
    decide +kernel
  have hthird : parse third = .ok (.block 0 [.block 1 [.value "x" (.number (.ofBits 0)),
      .call "x" []], .definition "x" [] (.number (.ofBits 0)), .call "x" []]) := by
    decide +kernel
  refine ⟨(parse_append hfirst hsecond _).1 (by decide), ?_⟩
  obtain ⟨-, -, -, name, span, e, -, -, hname, -, herror⟩ :=
    (parse_append hfirst hthird _).2 (by decide)
  exact ⟨name, span, e, hname, herror⟩

end Parser

end Lila
