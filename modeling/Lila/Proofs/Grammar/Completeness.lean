import Lila.Proofs.Grammar.Soundness
import Lila.Proofs.Parser.Agreement

/-! # Runs on derived tokens

The parser succeeds on everything that the grammar derives, with the tree of the
derivation. A derivation speaks of a segment, and the parser stops at the end of
it if the token behind cannot go on with it: no operator behind an expression,
and no opening parenthesis behind a name. `At` is a state in front of a segment.
-/

namespace Lila.Parser

open Grammar

/-- The state stands in front of the given tokens, with `ys` behind them. -/
structure At (Γ : Env) (d : Nat) (ts : List Token) (ys : List Lexeme) (s : State) : Prop where
  env : s.env = Γ
  depth : s.depth = d
  rest : ∃ xs, s.rest = xs ++ ys ∧ xs.map Lexeme.token = ts

namespace At

variable {Γ : Env} {d : Nat} {ts us : List Token} {ys : List Lexeme} {s : State}

theorem nil (h : At Γ d [] ys s) : s.rest = ys := by
  obtain ⟨xs, hs, hxs⟩ := h.rest
  rw [List.map_eq_nil_iff] at hxs
  rw [hs, hxs, List.nil_append]

theorem cons {token : Token} (h : At Γ d (token :: ts) ys s) :
    ∃ span rest, s.rest = ⟨span, token⟩ :: rest ∧ At Γ d ts ys { s with rest := rest } := by
  obtain ⟨xs, hs, hxs⟩ := h.rest
  obtain ⟨x, xs, rfl, rfl, rfl⟩ := List.map_eq_cons_iff.1 hxs
  exact ⟨x.span, xs ++ ys, hs, h.env, h.depth, xs, rfl, rfl⟩

theorem kept {t : State} (h : At Γ d ts ys s) (hkept : Kept s t) : t.env = Γ ∧ t.depth = d :=
  ⟨hkept.env.trans h.env, hkept.depth.trans h.depth⟩

/-- In front of two segments, a state is in front of the first one, and behind it
in front of the second one. -/
theorem append (h : At Γ d (ts ++ us) ys s) :
    ∃ zs, At Γ d ts zs s ∧ zs.map Lexeme.token = us ++ ys.map Lexeme.token ∧
      ∀ {Γ' d' t}, t.env = Γ' → t.depth = d' → t.rest = zs → At Γ' d' us ys t := by
  obtain ⟨xs, hs, hxs⟩ := h.rest
  obtain ⟨xs₁, xs₂, rfl, rfl, rfl⟩ := List.map_eq_append_iff.1 hxs
  refine ⟨xs₂ ++ ys, ⟨h.env, h.depth, xs₁, by rw [hs, List.append_assoc], rfl⟩, by simp, ?_⟩
  intro Γ' d' t henv hdepth ht
  exact ⟨henv, hdepth, xs₂, ht, rfl⟩

end At

def EndsExpression (ts : List Token) : Prop :=
  ∀ token ∈ ts.head?, token ≠ .parenOpen ∧ ∀ op, token ≠ .binop op

theorem endsExpression_cons {token : Token} (ts : List Token) (hopen : token ≠ .parenOpen)
    (hop : ∀ op, token ≠ .binop op) : EndsExpression (token :: ts) := by
  intro token' h
  rw [List.head?_cons, Option.mem_some] at h
  subst h
  exact ⟨hopen, hop⟩

theorem EndsExpression.head_ne {ys : List Lexeme} (h : EndsExpression (ys.map Lexeme.token)) :
    ys.head?.map Lexeme.token ≠ some .parenOpen := by
  intro hhead
  exact (h .parenOpen (by rw [List.head?_map]; exact hhead)).1 rfl

theorem EndsExpression.stops {s : State} (h : EndsExpression s.tokens) (least : Nat) :
    Stops least s := by
  intro span op rest hs
  exact ((h (.binop op) (by rw [State.tokens_cons hs]; rfl)).2 op rfl).elim

/-! ## Parameters -/

theorem notMem_of_nodup {seen names : List String} {name : String}
    (h : (seen ++ name :: names).Nodup) : name ∉ seen := by
  intro hmem
  rw [List.nodup_append] at h
  exact h.2.2 name hmem name (by simp) rfl

theorem parameterList_run {Γ : Env} {d : Nat} {ts : List Token} {names : List String}
    (h : ParameterList ts names) (seen : List String) (hdistinct : (seen ++ names).Nodup)
    {s : State} {ys : List Lexeme} {left : List Lexeme} (hat : At Γ d (ts ++ [.parenClose]) ys s)
    (hleft : s.rest.length ≤ left.length) :
    ∃ t, parameterList left seen s = .ok (seen ++ names) t ∧ t.rest = ys := by
  induction h generalizing seen s left with
  | one name =>
      obtain ⟨span, rest, hs, hat⟩ := hat.cons
      obtain ⟨span', rest', hs', hat⟩ := hat.cons
      cases left with
      | nil => simp [hs] at hleft
      | cons y left =>
          rw [parameterList_ident y left seen hs, if_neg (notMem_of_nodup hdistinct),
            afterParameter_close left _ hs']
          exact ⟨_, rfl, hat.nil⟩
  | @cons name ts names h ih =>
      obtain ⟨span, rest, hs, hat⟩ := hat.cons
      obtain ⟨span', rest', hs', hat⟩ := hat.cons
      dsimp only at hs'
      cases left with
      | nil => simp [hs] at hleft
      | cons y left =>
          simp only [hs, hs', List.length_cons] at hleft
          rw [parameterList_ident y left seen hs, if_neg (notMem_of_nodup hdistinct),
            afterParameter_comma left _ hs', List.append_cons seen name names]
          rw [List.append_cons] at hdistinct
          have hlength : rest'.length ≤ left.length := by omega
          exact ih _ hdistinct hat hlength

theorem parameters_run {Γ : Env} {d : Nat} {ps us : List Token} {params : List String}
    (h : Parameters ps params) (hdistinct : params.Nodup) {s : State} {ys : List Lexeme}
    (hat : At Γ d (ps ++ .assign :: us) ys s) :
    ∃ t, parameters s = .ok params t ∧ At Γ d (.assign :: us) ys t := by
  cases h with
  | none =>
      obtain ⟨span, rest, hs, -⟩ := hat.cons
      exact ⟨s, parameters_other (by simp [hs]), hat⟩
  | some h =>
      obtain ⟨zs, hat, -, hbehind⟩ := hat.append
      obtain ⟨span, rest, hs, hat⟩ := hat.cons
      obtain ⟨t, ht, hrest⟩ := parameterList_run h [] hdistinct hat (Nat.le_refl _)
      have hkept := (tidy_parameterList rest [] { s with rest := rest }).kept_of_ok ht
      rw [parameters_open hs]
      exact ⟨t, ht, hbehind (hat.kept hkept).1 (hat.kept hkept).2 hrest⟩

theorem newName_of_at {Γ : Env} {d : Nat} {ts : List Token} {ys : List Lexeme} {name : String}
    {s : State} (expected : Expectation) (hat : At Γ d (.ident name :: ts) ys s)
    (hname : name ∉ s.env.here) :
    ∃ t, newName expected s = .ok name t ∧ At Γ d ts ys t := by
  obtain ⟨span, rest, hs, hat⟩ := hat.cons
  rw [← isDefinedHere_iff] at hname
  exact ⟨_, by rw [newName_ident expected hs, if_neg hname], hat⟩

/-! ## Lines -/

/-- What stands behind the statements of a block, or of the program. -/
def Closes (braced : Bool) (ys : List Lexeme) : Prop :=
  if braced then ys.head?.map Lexeme.token = some .blockClose else ys = []

def EndsStatement (braced : Bool) (ts : List Token) : Prop :=
  ts = [] ∨ ts.head? = some .newline ∨ (braced = true ∧ ts.head? = some .blockClose)

theorem Closes.endsStatement {braced : Bool} {ys : List Lexeme} (hys : Closes braced ys) (n : Nat) :
    EndsStatement braced (newlines n ++ ys.map Lexeme.token) := by
  cases n with
  | succ n => exact .inr (.inl rfl)
  | zero =>
      cases braced with
      | false => exact .inl (by rw [show ys = [] from hys]; rfl)
      | true => exact .inr (.inr ⟨rfl, by simpa [newlines] using show _ = _ from hys⟩)

theorem EndsStatement.endsExpression {braced : Bool} {ts : List Token}
    (h : EndsStatement braced ts) : EndsExpression ts := by
  intro token htoken
  rw [Option.mem_def] at htoken
  rcases h with rfl | hnewline | ⟨-, hclose⟩
  · cases htoken
  · rw [hnewline] at htoken
    cases htoken
    exact ⟨by simp, by simp⟩
  · rw [hclose] at htoken
    cases htoken
    exact ⟨by simp, by simp⟩

theorem EndsStatement.run {braced : Bool} {s : State} (h : EndsStatement braced s.tokens) :
    endOfStatement braced s = .ok () s := by
  rw [EndsStatement, State.tokens, List.map_eq_nil_iff, List.head?_map] at h
  rw [endOfStatement_run, if_pos h]

theorem statements_newlines {Γ : Env} {d : Nat} {ts : List Token} {ys : List Lexeme} {n : Nat}
    {braced : Bool} {s : State} (left : List Lexeme) (hat : At Γ d (newlines n ++ ts) ys s)
    (hleft : s.rest.length ≤ left.length) :
    ∃ t left', At Γ d ts ys t ∧ t.rest.length ≤ left'.length ∧
      statements expression braced left s = statements expression braced left' t := by
  induction n generalizing s left with
  | zero => exact ⟨s, left, hat, hleft, rfl⟩
  | succ n ih =>
      obtain ⟨span, rest, hs, hat⟩ := hat.cons
      cases left with
      | nil => simp [hs] at hleft
      | cons y left =>
          rw [hs, List.length_cons, List.length_cons] at hleft
          rw [statements_newline expression braced y left hs]
          exact ih left hat (Nat.le_of_succ_le_succ hleft)

/-- Behind the last statement the loop comes to the end. -/
theorem statements_closes {Γ : Env} {d : Nat} {ys : List Lexeme} {n : Nat} {braced : Bool}
    {s : State} (left : List Lexeme) (hat : At Γ d (newlines n) ys s)
    (hleft : s.rest.length ≤ left.length) (hys : Closes braced ys) :
    ∃ t, statements expression braced left s = .ok [] t ∧ t.rest = ys := by
  rw [← List.append_nil (newlines n)] at hat
  obtain ⟨t, left', hat', hleft', he⟩ := statements_newlines left hat hleft
  have ht := hat'.nil
  rw [he]
  cases braced with
  | false =>
      have hnil : t.rest = [] := ht.trans hys
      rw [statements_end expression false left' hnil]
      exact ⟨t, rfl, ht⟩
  | true =>
      obtain ⟨span, rest, hclose⟩ := exists_of_head (show _ = some .blockClose from hys)
      cases left' with
      | nil => simp [ht, hclose] at hleft'
      | cons y left' =>
          rw [statements_close expression y left' (ht.trans hclose)]
          exact ⟨t, rfl, ht⟩

/-! ## Derivations -/

/-- Behind an operand in a chain there is no opening parenthesis. -/
theorem head_ne_open {Γ : Env} {d : Nat} {us : List Token} {links : Links} {ys zs : List Lexeme}
    (h : Operators .ofBody Γ d us links) (hzs : zs.map Lexeme.token = us ++ ys.map Lexeme.token)
    (hys : EndsExpression (ys.map Lexeme.token)) :
    zs.head?.map Lexeme.token ≠ some .parenOpen := by
  rw [← List.head?_map, hzs]
  cases h with
  | nil =>
      rw [List.nil_append, List.head?_map]
      exact hys.head_ne
  | cons => simp

/-- A statement that is read to its end is the first of the result. -/
theorem firstStatement_run {braced : Bool} (left : List Lexeme) {s t : State} {first : Tree}
    (hfirst : statement expression s = .ok first t) (hend : EndsStatement braced t.tokens) :
    firstStatement expression braced left s =
      match statements expression braced left t with
      | .ok body u => .ok (first :: body) u
      | .error e u => .error e u := by
  rw [firstStatement, bind_run, hfirst]
  dsimp only
  rw [bind_run, hend.run]
  dsimp only
  rw [bind_run]
  cases statements expression braced left t <;> rfl

/-- The loop over statements reads the first one if there is one. -/
theorem statements_of_statement {Γ : Env} {d : Nat} {ts : List Token} {ys : List Lexeme}
    {tree : Tree} {s : State} {left : List Lexeme} (braced : Bool)
    (h : Statement .ofBody Γ d ts tree) (hat : At Γ d ts ys s)
    (hleft : s.rest.length ≤ left.length) :
    ∃ y left', left = y :: left' ∧
      statements expression braced left s = firstStatement expression braced left' s := by
  obtain ⟨token, us, rfl, htoken⟩ := h.head
  obtain ⟨span, rest, hs, -⟩ := hat.cons
  cases left with
  | nil => simp [hs] at hleft
  | cons y left =>
      exact ⟨y, left, rfl, statements_first expression braced y left hs htoken.ne_newline fun _ =>
        htoken.ne_blockClose⟩

/-- One turn of the loop: behind a statement and a line break it goes on with the rest.
That the statement is read is left to the caller. -/
theorem statements_of_line {Γ : Env} {d : Nat} {ts us : List Token} {ys : List Lexeme} {tree : Tree}
    {s : State} {left : List Lexeme} (braced : Bool) (h : Statement .ofBody Γ d ts tree)
    (hrun : ∀ {zs : List Lexeme}, At Γ d ts zs s → EndsExpression (zs.map Lexeme.token) →
      ∃ t, statement expression s = .ok tree t ∧ t.rest = zs)
    (hat : At Γ d (ts ++ .newline :: us) ys s) (hleft : s.rest.length ≤ left.length) :
    ∃ t left', At (Γ.after tree) d us ys t ∧ t.rest.length ≤ left'.length ∧
      statements expression braced left s =
        match statements expression braced left' t with
        | .ok body u => .ok (tree :: body) u
        | .error e u => .error e u := by
  obtain ⟨zs, hat, hzs, hbehind⟩ := hat.append
  have hend : EndsStatement braced (zs.map Lexeme.token) := by
    rw [hzs]
    exact .inr (.inl rfl)
  obtain ⟨y, left, rfl, he⟩ := statements_of_statement braced h hat hleft
  obtain ⟨t, ht, hrest⟩ := hrun hat hend.endsExpression
  have hframed := (orderly_statement reader_expression s).framed_of_ok ht
  have hlt := statement_shorter reader_expression ht
  rw [List.length_cons] at hleft
  have henv := env_statement sound_expression ht
  rw [hat.env] at henv
  have hline := hbehind henv (hframed.depth.trans hat.depth) hrest
  obtain ⟨u, left', hat', hleft', he'⟩ := statements_newlines (n := 1) left hline (by omega)
  refine ⟨u, left', hat', hleft', ?_⟩
  rw [he, firstStatement_run left ht (by rwa [State.tokens, hrest]), he']

theorem statement_of_expression {Γ : Env} {d : Nat} {ts : List Token} {ys : List Lexeme}
    {tree : Tree} {s : State} (h : Expression .ofBody Γ d ts tree) (hat : At Γ d ts ys s) :
    statement expression s = expression s := by
  obtain ⟨token, us, rfl, htoken⟩ := h.head
  obtain ⟨span, rest, hs, -⟩ := hat.cons
  apply statement_expression
  · rw [hs]
    rintro ⟨⟩
    cases htoken
  · rw [hs]
    rintro ⟨⟩
    cases htoken

theorem argumentList_of_expression {Γ : Env} {d : Nat} {ts : List Token} {ys : List Lexeme}
    {tree : Tree} {s : State} {left : List Lexeme} (h : Expression .ofBody Γ d ts tree)
    (hat : At Γ d ts ys s) (hleft : s.rest.length ≤ left.length) :
    ∃ y left', left = y :: left' ∧
      argumentList expression left s = (expression >>= afterArgument expression left') s := by
  obtain ⟨token, us, rfl, htoken⟩ := h.head
  obtain ⟨span, rest, hs, -⟩ := hat.cons
  cases left with
  | nil => simp [hs] at hleft
  | cons y left =>
      refine ⟨y, left, rfl, argumentList_first expression y left hs ?_ ?_⟩
      · rintro rfl
        cases htoken
      · rintro rfl
        cases htoken

mutual

theorem runs_expression {Γ : Env} {d : Nat} {ts : List Token} {tree : Tree} :
    Expression .ofBody Γ d ts tree → ∀ {s : State} {ys : List Lexeme}, At Γ d ts ys s →
      EndsExpression (ys.map Lexeme.token) → ∃ t, expression s = .ok tree t ∧ t.rest = ys
  | .mk hfirst hlinks hgroup, s, ys, hat, hys => by
      obtain ⟨zs, hat, hzs, hbehind⟩ := hat.append
      obtain ⟨t, ht, hrest⟩ := runs_operand hfirst hat (head_ne_open hlinks hzs hys)
      have hkept := (tidy_primary reader_expression s).kept_of_ok ht
      have hat := hbehind (hat.kept hkept).1 (hat.kept hkept).2 hrest
      obtain ⟨u, hu, hurest⟩ := runs_operators hlinks hat hys
      have hstop : Stops 0 u := by
        refine EndsExpression.stops ?_ 0
        rwa [State.tokens, hurest]
      rw [expression_eq, expressionAround_run, ht]
      exact ⟨u, operators_of_chained reader_expression (Nat.le_refl _) hu hstop hgroup, hurest⟩

theorem runs_operators {Γ : Env} {d : Nat} {ts : List Token} {links : Links} :
    Operators .ofBody Γ d ts links → ∀ {s : State} {ys : List Lexeme}, At Γ d ts ys s →
      EndsExpression (ys.map Lexeme.token) → ∃ t, Chained expression s links t ∧ t.rest = ys
  | .nil _ _, s, ys, hat, _ => ⟨s, .nil s, hat.nil⟩
  | .cons op hoperand hlinks, s, ys, hat, hys => by
      obtain ⟨span, rest, hs, hat⟩ := hat.cons
      obtain ⟨zs, hat, hzs, hbehind⟩ := hat.append
      obtain ⟨t, ht, hrest⟩ := runs_operand hoperand hat (head_ne_open hlinks hzs hys)
      have hkept := (tidy_primary reader_expression _).kept_of_ok ht
      have hat := hbehind (hat.kept hkept).1 (hat.kept hkept).2 hrest
      obtain ⟨u, hu, hurest⟩ := runs_operators hlinks hat hys
      exact ⟨u, .cons hs ht hu, hurest⟩

theorem runs_operand {Γ : Env} {d : Nat} {ts : List Token} {tree : Tree} :
    Operand .ofBody Γ d ts tree → ∀ {s : State} {ys : List Lexeme}, At Γ d ts ys s →
      ys.head?.map Lexeme.token ≠ some .parenOpen →
      ∃ t, primary expression s = .ok tree t ∧ t.rest = ys
  | .number .., s, ys, hat, _ => by
      obtain ⟨span, rest, hs, hat⟩ := hat.cons
      exact ⟨_, primary_number expression hs, hat.nil⟩
  | .name _ hname, s, ys, hat, hys => by
      rw [← hat.env, ← lookup_isNone_eq_false_iff] at hname
      obtain ⟨span, rest, hs, hat⟩ := hat.cons
      have hrest : rest = ys := hat.nil
      rw [primary_ident expression hs, hname, if_neg (by simp), call_plain expression _ hs]
      · exact ⟨_, rfl, hrest⟩
      · rwa [hrest]
  | .call hname hargs, s, ys, hat, _ => by
      rw [← hat.env, ← lookup_isNone_eq_false_iff] at hname
      obtain ⟨span, rest, hs, hat⟩ := hat.cons
      obtain ⟨span', rest', hs', hat⟩ := hat.cons
      dsimp only at hs'
      subst hs'
      obtain ⟨t, ht, hrest⟩ := runs_arguments hargs hat (Nat.le_refl _)
      dsimp only at ht
      rw [primary_ident expression hs, hname, if_neg (by simp), call_open expression _ hs, ht]
      exact ⟨t, rfl, hrest⟩
  | .group h, s, ys, hat, _ => by
      obtain ⟨span, rest, hs, hat⟩ := hat.cons
      obtain ⟨zs, hat, hzs, hbehind⟩ := hat.append
      have hend : EndsExpression (zs.map Lexeme.token) := by
        rw [hzs]
        exact endsExpression_cons _ (by simp) (by simp)
      obtain ⟨t, ht, hrest⟩ := runs_expression h hat hend
      have hkept := (reader_expression.tidy _).kept_of_ok ht
      have hat := hbehind (hat.kept hkept).1 (hat.kept hkept).2 hrest
      obtain ⟨span', rest', ht', hat⟩ := hat.cons
      rw [primary_group expression hs, group, bind_run, advance_run, hs]
      exact ⟨_, bind_eq_ok.2 ⟨_, t, ht, bind_eq_ok.2 ⟨(), _, expect_here ht', rfl⟩⟩, hat.nil⟩
  | @Operand.block _ Γ d ts body before behind h, s, ys, hat, _ => by
      obtain ⟨opening, rest, hs, hat⟩ := hat.cons
      obtain ⟨zs, hat, -, hbehind⟩ := hat.append
      -- What stands behind the statements is the closing brace, in any state.
      obtain ⟨span, rest', hzs, hat'⟩ :=
        (hbehind (t := { s with rest := zs }) hat.env hat.depth rfl).cons
      have hzs : zs = ⟨span, .blockClose⟩ :: ys := by
        rw [show zs = _ from hzs, show rest' = ys from hat'.nil]
      have hclose : Closes true zs := by rw [Closes, hzs]; rfl
      have hstart : At Γ.inside (d + 1) (newlines before ++ (ts ++ newlines behind)) zs
          (blockStart s rest) := by
        rw [← List.append_assoc]
        exact ⟨(env_blockStart s rest).trans (congrArg Env.inside hat.env),
          congrArg (· + 1) hat.depth, hat.rest⟩
      obtain ⟨u, left, hat', hleft, he⟩ := statements_newlines rest hstart (Nat.le_refl _)
      obtain ⟨t, ht, hrest⟩ := runs_body h hat' hleft hclose
      rw [primary_block expression hs, block_eq expression opening hs,
        show statements expression true rest (blockStart s rest) = _ from he, ht,
        show s.depth = d from hat.depth]
      dsimp only
      rw [blockOf_eq_ok.2 ⟨h.isExpr_last valued_ofBody, rfl⟩]
      exact ⟨_, rfl, by rw [hrest, hzs]; rfl⟩

theorem runs_arguments {Γ : Env} {d : Nat} {ts : List Token} {args : List Tree} :
    Arguments .ofBody Γ d ts args → ∀ {s : State} {ys left : List Lexeme},
      At Γ d (ts ++ [.parenClose]) ys s → s.rest.length ≤ left.length →
      ∃ t, argumentList expression left s = .ok args t ∧ t.rest = ys
  | .one h, s, ys, left, hat, hleft => by
      obtain ⟨zs, hat, hzs, hbehind⟩ := hat.append
      obtain ⟨y, left, rfl, he⟩ := argumentList_of_expression h hat hleft
      have hend : EndsExpression (zs.map Lexeme.token) := by
        rw [hzs]
        exact endsExpression_cons _ (by simp) (by simp)
      obtain ⟨t, ht, hrest⟩ := runs_expression h hat hend
      have hkept := (reader_expression.tidy s).kept_of_ok ht
      have hat := hbehind (hat.kept hkept).1 (hat.kept hkept).2 hrest
      obtain ⟨span, rest, ht', hat⟩ := hat.cons
      rw [he, bind_run, ht]
      exact ⟨_, afterArgument_close expression left _ ht', hat.nil⟩
  | .cons h hargs, s, ys, left, hat, hleft => by
      rw [List.append_assoc] at hat
      obtain ⟨zs, hat, hzs, hbehind⟩ := hat.append
      obtain ⟨y, left, rfl, he⟩ := argumentList_of_expression h hat hleft
      have hend : EndsExpression (zs.map Lexeme.token) := by
        rw [hzs]
        exact endsExpression_cons _ (by simp) (by simp)
      obtain ⟨t, ht, hrest⟩ := runs_expression h hat hend
      have hkept := (reader_expression.tidy s).kept_of_ok ht
      have hlt := reader_expression.shorter ht
      have hat := hbehind (hat.kept hkept).1 (hat.kept hkept).2 hrest
      obtain ⟨span, rest, ht', hat⟩ := hat.cons
      simp only [ht', List.length_cons] at hlt hleft
      have hlength : rest.length ≤ left.length := by omega
      obtain ⟨u, hu, hurest⟩ := runs_arguments hargs hat hlength
      rw [he, bind_run, ht]
      dsimp only
      rw [afterArgument_comma expression left _ ht']
      exact ⟨u, bind_eq_ok.2 ⟨_, u, hu, rfl⟩, hurest⟩

theorem runs_statement {Γ : Env} {d : Nat} {ts : List Token} {tree : Tree} :
    Statement .ofBody Γ d ts tree → ∀ {s : State} {ys : List Lexeme}, At Γ d ts ys s →
      EndsExpression (ys.map Lexeme.token) →
      ∃ t, statement expression s = .ok tree t ∧ t.rest = ys
  | .value hname h, s, ys, hat, hys => by
      obtain ⟨span, rest, hs, hat⟩ := hat.cons
      rw [← hat.env] at hname
      obtain ⟨u, hu, hat⟩ := newName_of_at .valueName hat hname
      obtain ⟨span', rest', hu', hat⟩ := hat.cons
      obtain ⟨t, ht, hrest⟩ := runs_expression h hat hys
      rw [statement_value expression hs]
      exact ⟨_, bind_eq_ok.2 ⟨_, u, hu, bind_eq_ok.2 ⟨(), _, expect_here hu',
        bind_eq_ok.2 ⟨_, t, ht, bind_eq_ok.2 ⟨(), _, define_run _ _ t, rfl⟩⟩⟩⟩, hrest⟩
  | @Statement.definition _ Γ d name ps ts params body hname hparams hdistinct h,
      s, ys, hat, hys => by
      obtain ⟨span, rest, hs, hat⟩ := hat.cons
      rw [← hat.env] at hname
      obtain ⟨u, hu, hat⟩ := newName_of_at .definitionName hat hname
      have hinside : At Γ.inside d (ps ++ .assign :: ts) ys (enter name u) :=
        ⟨(env_enter name u).trans (congrArg Env.inside hat.env), hat.depth, hat.rest⟩
      obtain ⟨v, hv, hat⟩ := parameters_run hparams hdistinct hinside
      obtain ⟨w, hw, hwrest, hwdepth, hwenv⟩ := defineAll_run params v
      have hat : At (Γ.inside.bindAll params) d (.assign :: ts) ys w :=
        ⟨by rw [hwenv, hat.env], hwdepth.trans hat.depth, by rw [hwrest]; exact hat.rest⟩
      obtain ⟨span', rest', hw', hat⟩ := hat.cons
      obtain ⟨t, ht, hrest⟩ := runs_expression h hat hys
      have hinside : definitionInside expression (enter name u) = .ok (params, body) t :=
        bind_eq_ok.2 ⟨params, v, hv, bind_eq_ok.2 ⟨(), w, hw,
          bind_eq_ok.2 ⟨(), _, expect_here hw', bind_eq_ok.2 ⟨body, t, ht, rfl⟩⟩⟩⟩
      have hscope :
          inScope name (definitionInside expression) u = .ok (params, body) (leave t) := by
        rw [inScope, hinside]
      rw [statement_definition expression hs]
      exact ⟨_, bind_eq_ok.2 ⟨_, u, hu, bind_eq_ok.2 ⟨(params, body), leave t, hscope,
        bind_eq_ok.2 ⟨(), _, define_run _ _ _, rfl⟩⟩⟩, hrest⟩
  | .expression h, s, ys, hat, hys => by
      rw [statement_of_expression h hat]
      exact runs_expression h hat hys

theorem runs_body {Γ : Env} {d : Nat} {ts : List Token} {body : List Tree} :
    Body .ofBody Γ d ts body → ∀ {s : State} {ys left : List Lexeme} {n : Nat} {braced : Bool},
      At Γ d (ts ++ newlines n) ys s → s.rest.length ≤ left.length → Closes braced ys →
      ∃ t, statements expression braced left s = .ok body t ∧ t.rest = ys
  | .last h, s, ys, left, n, braced, hat, hleft, hys => by
      obtain ⟨zs, hat, hzs, hbehind⟩ := hat.append
      have hend := hys.endsStatement n
      rw [← hzs] at hend
      obtain ⟨y, left, rfl, he⟩ := statements_of_statement braced (.expression h) hat hleft
      obtain ⟨t, ht, hrest⟩ := runs_expression h hat hend.endsExpression
      have hkept := (reader_expression.tidy s).kept_of_ok ht
      have hlt := reader_expression.shorter ht
      rw [List.length_cons] at hleft
      have hclosed := hbehind (hat.kept hkept).1 (hat.kept hkept).2 hrest
      obtain ⟨u, hu, hurest⟩ := statements_closes left hclosed (by omega) hys
      rw [← statement_of_expression h hat] at ht
      rw [he, firstStatement_run left ht (by rwa [State.tokens, hrest]), hu]
      exact ⟨u, rfl, hurest⟩
  | .cons between h hbody, s, ys, left, n, braced, hat, hleft, hys => by
      rw [List.append_assoc, List.append_assoc] at hat
      obtain ⟨t, left', hat', hleft', he⟩ :=
        statements_of_line braced h (runs_statement h) hat hleft
      obtain ⟨u, left'', hat'', hleft'', he'⟩ := statements_newlines left' hat' hleft'
      obtain ⟨v, hv, hvrest⟩ := runs_body hbody hat'' hleft'' hys
      rw [he, he', hv]
      exact ⟨v, rfl, hvrest⟩

end

/-! ## Programs -/

theorem parse_of_program {lexemes : List Lexeme} {tree : Tree}
    (h : Program .ofBody (lexemes.map Lexeme.token) tree) : parse lexemes = .ok tree := by
  generalize hts : lexemes.map Lexeme.token = ts at h
  cases h with
  | @mk ts body before behind h =>
      rw [List.append_assoc] at hts
      have hat : At {} 0 (newlines before ++ (ts ++ newlines behind)) []
          { rest := lexemes } := ⟨rfl, rfl, lexemes, by simp, hts⟩
      obtain ⟨s, left, hat, hleft, he⟩ := statements_newlines lexemes hat (Nat.le_refl _)
      obtain ⟨t, ht, -⟩ := runs_body h hat hleft (show Closes false [] from rfl)
      refine parse_eq_ok_iff.2 ⟨t, ?_⟩
      rw [parseRun_eq, he, ht]
      dsimp only
      rw [programOf_eq_ok.2 ⟨h.isExpr_last valued_ofBody, rfl⟩]

/-- The parser accepts the programs of the grammar and no other input, and returns
the tree of the program. -/
theorem parse_accepts_exactly_programs (lexemes : List Lexeme) (tree : Tree) :
    parse lexemes = .ok tree ↔ Program .ofBody (lexemes.map Lexeme.token) tree :=
  ⟨program_of_parse, parse_of_program⟩

/-- Line breaks may stand behind the last statement of a program and on both sides
of the statements in braces: not only between statements and before the first one. -/
theorem parse_line_breaks_around :
    (parse [⟨⟨0, 1, 1⟩, .number (.ofBits 0)⟩, ⟨⟨1, 2, 1⟩, .newline⟩] =
        .ok (.block 0 [.number (.ofBits 0)]) ∧
      ¬ ∃ before ts body, [.number (.ofBits 0), .newline] = newlines before ++ ts ∧
        Body .ofBody {} 0 ts body) ∧
    (parse [⟨⟨0, 1, 1⟩, .blockOpen⟩, ⟨⟨1, 2, 1⟩, .newline⟩, ⟨⟨2, 3, 2⟩, .number (.ofBits 0)⟩,
        ⟨⟨3, 4, 2⟩, .newline⟩, ⟨⟨4, 5, 3⟩, .blockClose⟩] = .ok (.block 0 [.number (.ofBits 0)]) ∧
      ¬ ∃ body, Body .ofBody (Env.inside {}) 1 [.newline, .number (.ofBits 0), .newline] body) := by
  have hzero : ∀ Γ d, Body .ofBody Γ d [.number (.ofBits 0)] [.number (.ofBits 0)] :=
    fun Γ d => .last (.mk (.number Γ d _) (.nil Γ d) (.single _))
  refine ⟨⟨parse_of_program (.mk 0 1 (hzero _ _)), ?_⟩, ⟨parse_of_program ?_, ?_⟩⟩
  · rintro ⟨before, ts, body, hts, h⟩
    obtain ⟨token, us, hus, -⟩ := h.head
    have hlast : (newlines before ++ ts).getLast? ≠ some .newline := by
      refine getLast?_append_ne h.getLast?_ne_newline fun hnil => ?_
      rw [hnil] at hus
      cases hus
    rw [← hts] at hlast
    exact hlast rfl
  · exact .mk 0 0 (.last (.mk (.block 1 1 (hzero _ _)) (.nil _ _) (.single _)))
  · rintro ⟨body, h⟩
    exact h.getLast?_ne_newline rfl

end Lila.Parser
