import Lila.Proofs.Grammar.Lines
import Lila.Proofs.Parser.Environment
import Lila.Proofs.Parser.Operators

/-! # What a run has read

`Reads` relates a run to a part of the grammar. A run that succeeds has read
tokens that the grammar derives, with the tree it returns. A run that fails at
the end of its input has read tokens that can be completed to such ones. So each
step of a sequence carries two duties: to derive what was read, and to know how
to go on from any result of the step before it, in case that one is cut short.
-/

namespace Lila.Parser

open Grammar

variable {α β : Type}

inductive Reads (D : List Token → α → Prop) (s : State) :
    EStateM.Result ParseError State α → Prop
  | ok {a : α} {t : State} {ts : List Token} (hts : s.tokens = ts ++ t.tokens) (h : D ts a) :
      Reads D s (.ok a t)
  | error {e : ParseError} {t : State} (hspan : e.span ≠ none) : Reads D s (.error e t)
  | cut {e : ParseError} {t : State} {us : List Token} {a : α} (h : D (s.tokens ++ us) a) :
      Reads D s (.error e t)

namespace Reads

variable {D : List Token → α → Prop} {E : List Token → β → Prop} {s : State}

theorem imp {D' : List Token → α → Prop} {r : EStateM.Result ParseError State α}
    (h : Reads D s r) (hD : ∀ ts a, D ts a → D' ts a) : Reads D' s r := by
  cases h with
  | ok hts h => exact .ok hts (hD _ _ h)
  | error hspan => exact .error hspan
  | cut h => exact .cut (hD _ _ h)

/-- Whatever a first step has read can be gone on from. -/
theorem seq {p : Parser α} {f : α → Parser β} (hp : Reads D s (p s))
    (hf : ∀ a t ts, p s = .ok a t → D ts a → Reads (fun us b => E (ts ++ us) b) t (f a t))
    (hmore : ∀ ts a, D ts a → ∃ us b, E (ts ++ us) b) : Reads E s ((p >>= f) s) := by
  rw [bind_run]
  cases hps : p s with
  | ok a t =>
      rw [hps] at hp
      cases hp with
      | @ok _ _ ts hts h =>
          dsimp only
          generalize hr : f a t = r
          have hread := hf a t ts hps h
          rw [hr] at hread
          cases hread with
          | ok hus h => exact .ok (by rw [hts, hus, List.append_assoc]) h
          | error hspan => exact .error hspan
          | cut h => exact .cut (by rwa [hts, List.append_assoc])
  | error e t =>
      rw [hps] at hp
      cases hp with
      | error hspan => exact .error hspan
      | cut h =>
          obtain ⟨us, b, hE⟩ := hmore _ _ h
          exact .cut (by rwa [List.append_assoc] at hE)

theorem bind {p : Parser α} {f : α → Parser β} (hp : Reads D s (p s)) (htidy : Tidy s (p s))
    (hf : ∀ a t ts, Kept s t → D ts a → Reads (fun us b => E (ts ++ us) b) t (f a t))
    (hmore : ∀ ts a, D ts a → ∃ us b, E (ts ++ us) b) : Reads E s ((p >>= f) s) := by
  exact hp.seq (fun a t ts h => hf a t ts (htidy.kept_of_ok h)) hmore

/-- A token in front that the run does not look at. -/
theorem of_rest {x : Lexeme} {rest : List Lexeme} {r : EStateM.Result ParseError State α}
    (hs : s.rest = x :: rest)
    (h : Reads (fun ts a => D (x.token :: ts) a) { s with rest := rest } r) : Reads D s r := by
  cases h with
  | ok hts h => exact .ok ((State.tokens_cons hs).trans (congrArg _ hts)) h
  | error hspan => exact .error hspan
  | cut h => exact .cut (by rwa [State.tokens_cons hs])

theorem of_nil {a : α} (h : D [] a) : Reads D s (.ok a s) := .ok rfl h

theorem of_eq {a : α} {t : State} (ht : s.tokens = t.tokens) (h : D [] a) : Reads D s (.ok a t) :=
  .ok ht h

/-- What a run has read depends on the tokens of its first state only. -/
theorem of_tokens {s' : State} {r : EStateM.Result ParseError State α}
    (htokens : s'.tokens = s.tokens) (h : Reads D s' r) : Reads D s r := by
  cases h with
  | ok hts h => exact .ok (htokens ▸ hts) h
  | error hspan => exact .error hspan
  | cut h => exact .cut (htokens ▸ h)

end Reads

/-! ## Single tokens -/

theorem reads_fail {D : List Token → α → Prop} (cause : ParseError.Cause) {s : State} {x : Lexeme}
    {rest : List Lexeme} (hs : s.rest = x :: rest) : Reads D s ((fail cause : Parser α) s) := by
  rw [fail_run, hs]
  exact .error (by simp)

/-- Something unexpected is an error, and the end of the input can be gone on from. -/
theorem reads_unexpected {D : List Token → α → Prop} (expected : Expectation) (s : State)
    (h : ∃ us a, D us a) : Reads D s ((unexpected expected : Parser α) s) := by
  rw [unexpected_run]
  cases hs : s.rest with
  | nil =>
      obtain ⟨us, a, h⟩ := h
      refine Reads.cut (show D (s.tokens ++ us) a from ?_)
      simpa [State.tokens, hs] using h
  | cons x rest => exact .error (by simp)

theorem reads_expect (token : Token) (s : State) :
    Reads (fun ts _ => ts = [token]) s (expect token s) := by
  by_cases hhead : s.rest.head?.map Lexeme.token = some token
  · obtain ⟨span, rest, hs⟩ := exists_of_head hhead
    rw [expect_here hs]
    exact Reads.of_rest hs (.of_nil rfl)
  · rw [expect_run, if_neg hhead]
    exact reads_unexpected _ s ⟨[token], (), rfl⟩

theorem exists_fresh (names : List String) : ∃ name, name ∉ names := by
  have hlong : ∃ name : String, ∀ other ∈ names, other.length < name.length := by
    induction names with
    | nil => exact ⟨"", by simp⟩
    | cons first names ih =>
        obtain ⟨name, hname⟩ := ih
        refine ⟨name ++ first ++ "x", ?_⟩
        intro other hother
        simp only [String.length_append]
        rcases List.mem_cons.1 hother with rfl | hother
        · have hx : "x".length = 1 := rfl
          omega
        · have hlt := hname other hother
          omega
  obtain ⟨name, hname⟩ := hlong
  exact ⟨name, fun hmem => Nat.lt_irrefl _ (hname name hmem)⟩

theorem reads_newName (expected : Expectation) (s : State) :
    Reads (fun ts name => ts = [.ident name] ∧ name ∉ s.env.here) s (newName expected s) := by
  by_cases hs : ∃ span x rest, s.rest = ⟨span, .ident x⟩ :: rest
  · obtain ⟨span, x, rest, hs⟩ := hs
    rw [newName_ident expected hs]
    split
    · exact .error (by simp)
    · rename_i hfree
      rw [isDefinedHere_iff] at hfree
      exact Reads.of_rest hs (.of_nil ⟨rfl, hfree⟩)
  · rw [newName_other expected fun span x rest h => hs ⟨span, x, rest, h⟩]
    obtain ⟨name, hname⟩ := exists_fresh s.env.here
    exact reads_unexpected _ s ⟨_, name, rfl, hname⟩

theorem reads_endOfStatement (braced : Bool) (s : State) :
    Reads (fun ts _ => ts = []) s (endOfStatement braced s) := by
  rw [endOfStatement_run]
  split
  · exact .of_nil rfl
  · rename_i hother
    rcases hs : s.rest with _ | ⟨x, rest⟩
    · exact (hother (.inl hs)).elim
    · rw [unexpected_run, hs]
      exact .error (by simp)

theorem Reads.inScope {D : List Token → α → Prop} {name : String} {body : Parser α} {s : State}
    (h : Reads D (enter name s) (body (enter name s))) : Reads D s (inScope name body s) := by
  rw [Parser.inScope]
  generalize body (enter name s) = r at h
  cases h with
  | ok hts h => exact .ok hts h
  | error hspan => exact .error hspan
  | cut h => exact .cut h

/-! ## Parameters -/

def ParametersFrom (seen : List String) (ts : List Token) (params : List String) : Prop :=
  ∃ us more, ts = us ++ [.parenClose] ∧ ParameterList us more ∧ params = seen ++ more ∧
    params.Nodup

theorem ParametersFrom.one {seen : List String} {param : String} (h : (seen ++ [param]).Nodup) :
    ParametersFrom seen [.ident param, .parenClose] (seen ++ [param]) :=
  ⟨[.ident param], [param], rfl, .one param, rfl, h⟩

theorem ParametersFrom.cons {seen params : List String} {param : String} {ts : List Token}
    (h : ParametersFrom (seen ++ [param]) ts params) :
    ParametersFrom seen (.ident param :: .comma :: ts) params := by
  obtain ⟨us, more, rfl, hlist, rfl, hdistinct⟩ := h
  exact ⟨_, param :: more, rfl, .cons param hlist, by simp, hdistinct⟩

theorem nodup_snoc {seen : List String} {param : String} (hseen : seen.Nodup)
    (hparam : param ∉ seen) : (seen ++ [param]).Nodup := by
  rw [List.nodup_append]
  refine ⟨hseen, by simp, ?_⟩
  intro a ha b hb heq
  rw [List.mem_singleton.1 hb] at heq
  exact hparam (heq ▸ ha)

theorem reads_parameterList (left : List Lexeme) {seen : List String} (hseen : seen.Nodup)
    (s : State) : Reads (ParametersFrom seen) s (parameterList left seen s) := by
  have hmore : ∀ {seen : List String}, seen.Nodup → ∃ us params, ParametersFrom seen us params := by
    intro seen hseen
    obtain ⟨name, hname⟩ := exists_fresh seen
    exact ⟨_, _, .one (nodup_snoc hseen hname)⟩
  induction left generalizing seen s with
  | nil => exact reads_unexpected _ s (hmore hseen)
  | cons y left ih =>
      rcases hs : s.rest with _ | ⟨⟨span, token⟩, rest⟩
      · rw [parameterList, bind_run, current_run, hs]
        exact reads_unexpected _ s (hmore hseen)
      · cases token
        case ident param =>
          rw [parameterList_ident y left seen hs]
          split
          · exact reads_fail _ hs
          · rename_i hparam
            have hdistinct := nodup_snoc hseen hparam
            refine Reads.of_rest hs ?_
            rcases hr : rest with _ | ⟨⟨span', token⟩, rest'⟩
            · rw [afterParameter, bind_run, current_run]
              exact reads_unexpected _ _ ⟨_, _, .one hdistinct⟩
            · cases token
              case comma =>
                rw [afterParameter_comma left _ rfl]
                exact Reads.of_rest rfl ((ih hdistinct _).imp fun ts params h => h.cons)
              case parenClose =>
                rw [afterParameter_close left _ rfl]
                exact Reads.of_rest rfl (.of_nil (.one hdistinct))
              all_goals
                rw [afterParameter, bind_run, current_run]
                exact reads_fail _ rfl
        all_goals
          rw [parameterList, bind_run, current_run, hs]
          first
            | exact reads_fail _ hs
            | exact reads_unexpected _ s (hmore hseen)

theorem reads_parameters (s : State) :
    Reads (fun ts params => Parameters ts params ∧ params.Nodup) s (parameters s) := by
  by_cases hhead : s.rest.head?.map Lexeme.token = some .parenOpen
  · obtain ⟨span, rest, hs⟩ := exists_of_head hhead
    rw [parameters_open hs]
    refine Reads.of_rest hs ((reads_parameterList rest List.nodup_nil _).imp ?_)
    rintro ts params ⟨us, more, rfl, hlist, rfl, hdistinct⟩
    exact ⟨.some hlist, hdistinct⟩
  · rw [parameters_other hhead]
    exact .of_nil ⟨.none, List.nodup_nil⟩

/-! ## Statements -/

def DefinitionInside (Γ : Env) (d : Nat) (ts : List Token) (inside : List String × Tree) : Prop :=
  ∃ ps us, ts = ps ++ .assign :: us ∧ Parameters ps inside.1 ∧ inside.1.Nodup ∧
    Expression .ofBody (Γ.bindAll inside.1) d us inside.2

theorem exists_expression (Γ : Env) (d : Nat) : ∃ ts tree, Expression .ofBody Γ d ts tree :=
  ⟨_, _, .mk (.number Γ d (.ofBits 0)) (.nil Γ d) (.single _)⟩

section Productions

variable {nested : Parser Tree}

/-- A parser for expressions: what it reads, and what it leaves as it was. -/
structure Sound (nested : Parser Tree) : Prop extends Reader nested where
  reads : ∀ s, Reads (Expression .ofBody s.env s.depth) s (nested s)

theorem Sound.reads_in (hn : Sound nested) {s : State} {Γ : Env} {d : Nat} (henv : s.env = Γ)
    (hdepth : s.depth = d) : Reads (Expression .ofBody Γ d) s (nested s) := by
  subst henv hdepth
  exact hn.reads s

theorem Sound.isExpr (hn : Sound nested) {s t : State} {tree : Tree}
    (h : nested s = .ok tree t) : tree.isExpr = true := by
  have hread := hn.reads s
  rw [h] at hread
  cases hread with
  | ok hts h => exact h.isExpr valued_ofBody

theorem reads_afterVal (hn : Sound nested) (s : State) :
    Reads (fun ts tree => Statement .ofBody s.env s.depth (.kwVal :: ts) tree) s
      (afterVal nested s) := by
  obtain ⟨us₀, tree₀, hzero⟩ := exists_expression s.env s.depth
  refine Reads.bind (reads_newName _ s) (tidy_newName _ s) ?_ ?_
  · rintro name t ts hkept ⟨rfl, hname⟩
    refine Reads.bind (reads_expect .assign t) (tidy_expect (by simp) t) ?_ ?_
    · rintro _ u us hkept' rfl
      have hkept := hkept.trans hkept'
      refine Reads.bind (hn.reads_in hkept.env hkept.depth) (hn.tidy u) ?_ ?_
      · intro expr v vs _ hexpr
        rw [bind_run, define_run]
        exact Reads.of_eq rfl (by simpa using Statement.value hname hexpr)
      · intro vs expr hexpr
        exact ⟨[], _, by simpa using Statement.value hname hexpr⟩
    · rintro us _ rfl
      exact ⟨us₀, _, .value hname hzero⟩
  · rintro ts name ⟨rfl, hname⟩
    exact ⟨.assign :: us₀, _, .value hname hzero⟩

theorem reads_definitionInside (hn : Sound nested) (s : State) :
    Reads (DefinitionInside s.env s.depth) s (definitionInside nested s) := by
  refine Reads.bind (reads_parameters s) (tidy_parameters s) ?_ ?_
  · rintro params t ps hkept ⟨hparams, hdistinct⟩
    obtain ⟨us₀, tree₀, hzero⟩ := exists_expression (s.env.bindAll params) s.depth
    obtain ⟨t', ht', hrest, hdepth, henv⟩ := defineAll_run params t
    rw [hkept.env] at henv
    rw [bind_run, ht']
    have htokens : t'.tokens = t.tokens := by rw [State.tokens, State.tokens, hrest]
    refine Reads.of_tokens htokens ?_
    refine Reads.bind (reads_expect .assign t') (tidy_expect (by simp) t') ?_ ?_
    · rintro _ u us hkept' rfl
      have henv' := hkept'.env.trans henv
      have hdepth' := hkept'.depth.trans (hdepth.trans hkept.depth)
      refine Reads.bind (hn.reads_in henv' hdepth') (hn.tidy u) ?_ ?_
      · intro body v vs _ hbody
        exact .of_nil ⟨ps, vs, by simp, hparams, hdistinct, hbody⟩
      · intro vs body hbody
        exact ⟨[], (params, body), ps, vs, by simp, hparams, hdistinct, hbody⟩
    · rintro us _ rfl
      exact ⟨us₀, (params, tree₀), ps, us₀, rfl, hparams, hdistinct, hzero⟩
  · rintro ps params ⟨hparams, hdistinct⟩
    obtain ⟨us₀, tree₀, hzero⟩ := exists_expression (s.env.bindAll params) s.depth
    exact ⟨.assign :: us₀, (params, tree₀), ps, us₀, rfl, hparams, hdistinct, hzero⟩

theorem reads_afterDef (hn : Sound nested) (s : State) :
    Reads (fun ts tree => Statement .ofBody s.env s.depth (.kwDef :: ts) tree) s
      (afterDef nested s) := by
  refine Reads.bind (reads_newName _ s) (tidy_newName _ s) ?_ ?_
  · rintro name t ts hkept ⟨rfl, hname⟩
    have hscope : Reads (DefinitionInside s.env.inside s.depth) t
        (inScope name (definitionInside nested) t) := by
      have hread := (reads_definitionInside hn (enter name t)).inScope
      rwa [env_enter, hkept.env, show (enter name t).depth = s.depth from hkept.depth] at hread
    refine Reads.bind hscope (tidy_inScope (orderly_definitionInside hn.toReader _)) ?_ ?_
    · rintro ⟨params, body⟩ u us _ ⟨ps, vs, rfl, hparams, hdistinct, hbody⟩
      dsimp only
      rw [bind_run, define_run]
      exact Reads.of_eq rfl
        (by simpa using Statement.definition hname hparams hdistinct hbody)
    · rintro us ⟨params, body⟩ ⟨ps, vs, rfl, hparams, hdistinct, hbody⟩
      exact ⟨[], _, by simpa using Statement.definition hname hparams hdistinct hbody⟩
  · rintro ts name ⟨rfl, hname⟩
    obtain ⟨us₀, tree₀, hzero⟩ := exists_expression (s.env.inside.bindAll []) s.depth
    exact ⟨.assign :: us₀, _, .definition hname .none List.nodup_nil hzero⟩

theorem reads_statement (hn : Sound nested) (s : State) :
    Reads (Statement .ofBody s.env s.depth) s (statement nested s) := by
  by_cases hdef : s.rest.head?.map Lexeme.token = some .kwDef
  · obtain ⟨span, rest, hs⟩ := exists_of_head hdef
    rw [statement_definition nested hs]
    exact Reads.of_rest hs (reads_afterDef hn { s with rest := rest })
  · by_cases hval : s.rest.head?.map Lexeme.token = some .kwVal
    · obtain ⟨span, rest, hs⟩ := exists_of_head hval
      rw [statement_value nested hs]
      exact Reads.of_rest hs (reads_afterVal hn { s with rest := rest })
    · rw [statement_expression nested hdef hval]
      exact (hn.reads s).imp fun ts tree h => .expression h

/-- Behind a statement its name is bound. -/
theorem env_statement (hn : Sound nested) {s t : State} {tree : Tree}
    (h : statement nested s = .ok tree t) : t.env = s.env.after tree := by
  by_cases hdef : s.rest.head?.map Lexeme.token = some .kwDef
  · obtain ⟨span, rest, hs⟩ := exists_of_head hdef
    rw [statement_definition nested hs] at h
    obtain ⟨name, u, hname, h⟩ := bind_eq_ok.1 h
    obtain ⟨⟨params, body⟩, v, hinside, h⟩ := bind_eq_ok.1 h
    have hu := (tidy_newName _ _).kept_of_ok hname
    have hv := (tidy_inScope (orderly_definitionInside hn.toReader _)).kept_of_ok hinside
    dsimp only at h
    rw [bind_run, define_run] at h
    cases h
    rw [env_define, hv.env, hu.env]
    rfl
  · by_cases hval : s.rest.head?.map Lexeme.token = some .kwVal
    · obtain ⟨span, rest, hs⟩ := exists_of_head hval
      rw [statement_value nested hs] at h
      obtain ⟨name, u, hname, h⟩ := bind_eq_ok.1 h
      obtain ⟨_, v, hsign, h⟩ := bind_eq_ok.1 h
      obtain ⟨expr, w, hexpr, h⟩ := bind_eq_ok.1 h
      have hu := (tidy_newName _ _).kept_of_ok hname
      have hv := (tidy_expect (by simp) u).kept_of_ok hsign
      have hw := (hn.tidy v).kept_of_ok hexpr
      rw [bind_run, define_run] at h
      cases h
      rw [env_define, hw.env, hv.env, hu.env]
      rfl
    · rw [statement_expression nested hdef hval] at h
      rw [((hn.tidy s).kept_of_ok h).env, Env.after_of_isExpr _ (hn.isExpr h)]

theorem reads_endOfInput {Γ : Env} {d : Nat} (braced : Bool) (s : State) :
    Reads (Lines .ofBody Γ d) s (endOfInput braced s) := by
  cases braced
  · exact .of_nil (.nil Γ d)
  · exact reads_unexpected _ s ⟨[], [], .nil Γ d⟩

/-- Behind a statement there are no tokens, or there is a line break in front of them. -/
theorem reads_statements_after {Γ : Env} {d : Nat} {braced : Bool} {left : List Lexeme}
    {s t : State}
    (hread : Reads (Lines .ofBody Γ d) s (statements nested braced left s))
    (hend : endOfStatement braced s = .ok () t) :
    Reads (fun ts body => Lines .ofBody Γ d ts body ∧ (ts = [] ∨ ∃ us, ts = .newline :: us)) s
      (statements nested braced left s) := by
  rw [endOfStatement_run] at hend
  split at hend
  · rename_i hcases
    rcases hcases with hs | hnewline | ⟨rfl, hclose⟩
    · rw [statements_end nested braced left hs]
      cases braced
      · exact .of_nil ⟨.nil Γ d, .inl rfl⟩
      · exact reads_unexpected _ s ⟨[], [], .nil Γ d, .inl rfl⟩
    · obtain ⟨span, rest, hs⟩ := exists_of_head hnewline
      have htokens := State.tokens_cons hs
      generalize statements nested braced left s = r at hread
      cases hread with
      | @ok body t ts hts h =>
          refine .ok hts ⟨h, ?_⟩
          rw [htokens] at hts
          rcases List.append_eq_cons_iff.1 hts.symm with ⟨hnil, -⟩ | ⟨us, hus, -⟩
          · exact .inl hnil
          · exact .inr ⟨us, hus⟩
      | error hspan => exact .error hspan
      | cut h => exact .cut ⟨h, .inr ⟨_, by rw [htokens]; rfl⟩⟩
    · obtain ⟨span, rest, hs⟩ := exists_of_head hclose
      cases left with
      | nil => exact reads_unexpected _ s ⟨[], [], .nil Γ d, .inl rfl⟩
      | cons y left =>
          rw [statements_close nested y left hs]
          exact .of_nil ⟨.nil Γ d, .inl rfl⟩
  · exact (unexpected_ne_ok hend).elim

theorem reads_statements (hn : Sound nested) (braced : Bool) (left : List Lexeme) (s : State) :
    Reads (Lines .ofBody s.env s.depth) s (statements nested braced left s) := by
  induction left generalizing s with
  | nil => exact reads_endOfInput braced s
  | cons y left ih =>
      rcases statements_step nested braced y left s with
        ⟨-, he⟩ | ⟨span, rest, hs, he⟩ | ⟨-, -, he⟩ | ⟨x, rest, -, -, -, he⟩
      · rw [he]
        exact reads_endOfInput braced s
      · rw [he]
        exact Reads.of_rest hs ((ih { s with rest := rest }).imp fun ts body h => .newline h)
      · rw [he]
        exact .of_nil (.nil _ _)
      · rw [he]
        refine Reads.seq (reads_statement hn s) ?_ ?_
        · intro first t ts hfirst hstatement
          have ht := (orderly_statement hn.toReader s).framed_of_ok hfirst
          refine Reads.seq (reads_endOfStatement braced t) ?_ ?_
          · rintro _ u us hend rfl
            have hu : u = t := by
              rw [endOfStatement_run] at hend
              split at hend
              · cases hend
                rfl
              · exact (unexpected_ne_ok hend).elim
            subst hu
            have hlines := reads_statements_after (ih u) hend
            rw [env_statement hn hfirst, ht.depth] at hlines
            refine Reads.seq hlines ?_ ?_
            · rintro body v vs - ⟨hbody, hvs⟩
              exact .of_nil (by simpa using Lines.statement_cons hstatement hbody hvs)
            · rintro vs body ⟨hbody, hvs⟩
              exact ⟨[], _, by simpa using Lines.statement_cons hstatement hbody hvs⟩
          · rintro us _ rfl
            exact ⟨[], [first], by simpa using Lines.last hstatement⟩
        · intro ts first hstatement
          exact ⟨[], [first], by simpa using Lines.last hstatement⟩

/-! ## Operands -/

theorem blockOf_eq_ok {depth : Nat} {body : List Tree} {tree : Tree} :
    blockOf depth body = .ok tree ↔
      body.getLast?.any Tree.isExpr = true ∧ tree = .ofBody depth body := by
  rcases body with _ | ⟨first, _ | ⟨next, body⟩⟩
  · simp [blockOf]
  · cases h : first.isExpr <;> simp [blockOf, Tree.ofBody, h, eq_comm]
  · unfold blockOf
    cases (first :: next :: body).getLast?.any Tree.isExpr <;> simp [Tree.ofBody, eq_comm]

theorem reads_block (hn : Sound nested) {s : State} {opening : Span} {rest : List Lexeme}
    (hs : s.rest = ⟨opening, .blockOpen⟩ :: rest) :
    Reads (Operand .ofBody s.env s.depth) s (block nested opening s) := by
  have hlines := reads_statements hn true rest (blockStart s rest)
  rw [env_blockStart] at hlines
  have htokens : s.tokens = .blockOpen :: (blockStart s rest).tokens := State.tokens_cons hs
  rw [block_eq nested opening hs]
  cases hbody : statements nested true rest (blockStart s rest) with
  | ok body t =>
      rw [hbody] at hlines
      obtain ⟨span, rest', ht⟩ := statements_closed hbody
      have htail : t.tokens = .blockClose :: t.rest.tail.map Lexeme.token := by
        rw [State.tokens_cons ht, ht, List.tail_cons]
      dsimp only
      cases hblock : blockOf (s.depth + 1) body with
      | error cause => exact .error (by simp)
      | ok tree =>
          obtain ⟨hlast, rfl⟩ := blockOf_eq_ok.1 hblock
          cases hlines with
          | @ok _ _ ts hts h =>
              obtain ⟨before, us, behind, hus, hbody⟩ := h.exists_body hlast
              refine .ok ?_ (.of_body hus hbody)
              rw [htokens, hts, htail, List.cons_append, List.cons_append, List.append_assoc]
              rfl
  | error e t =>
      rw [hbody] at hlines
      cases hlines with
      | error hspan => exact .error hspan
      | cut h =>
          obtain ⟨before, us, behind, body, hus, hbody⟩ := h.exists_completion (.ofBits 0)
          have hoperand := Operand.of_body hus hbody
          rw [← List.cons_append, ← List.cons_append, ← htokens, List.append_assoc,
            List.append_assoc] at hoperand
          exact .cut hoperand

theorem reads_argumentList (hn : Sound nested) (left : List Lexeme) {s : State} {Γ : Env} {d : Nat}
    (henv : s.env = Γ) (hdepth : s.depth = d) :
    Reads (fun ts args => ∃ us, ts = us ++ [.parenClose] ∧ Arguments .ofBody Γ d us args) s
      (argumentList nested left s) := by
  have hmore : ∃ ts args us, ts = us ++ [.parenClose] ∧ Arguments .ofBody Γ d us args := by
    obtain ⟨us, tree, h⟩ := exists_expression Γ d
    exact ⟨_, [tree], us, rfl, .one h⟩
  induction left generalizing s with
  | nil => exact reads_unexpected _ s hmore
  | cons y left ih =>
      rcases hs : s.rest with _ | ⟨x, rest⟩
      · rw [argumentList_end nested _ hs]
        exact reads_unexpected _ s hmore
      · by_cases hx : x.token = .parenClose ∨ x.token = .comma
        · rw [argumentList_missing nested y left hs hx]
          exact reads_fail _ hs
        · rw [argumentList_first nested y left hs (fun h => hx (.inl h)) (fun h => hx (.inr h))]
          refine Reads.bind (hn.reads_in henv hdepth) (hn.tidy s) ?_ ?_
          · intro first t ts hkept hfirst
            have hone : ∃ us args vs, ts ++ us = vs ++ [.parenClose] ∧
                Arguments .ofBody Γ d vs args := ⟨_, _, ts, rfl, .one hfirst⟩
            rcases ht : t.rest with _ | ⟨⟨span, token⟩, rest'⟩
            · rw [afterArgument, bind_run, current_run, ht]
              exact reads_unexpected _ t hone
            · cases token
              case comma =>
                rw [afterArgument_comma nested left first ht]
                refine Reads.of_rest ht ?_
                have hrest := ih (s := { t with rest := rest' }) (hkept.env.trans henv)
                  (hkept.depth.trans hdepth)
                refine Reads.bind hrest (tidy_argumentList hn.toReader left _) ?_ ?_
                · rintro args u us - ⟨vs, rfl, hargs⟩
                  exact .of_nil ⟨ts ++ .comma :: vs, by simp, .cons hfirst hargs⟩
                · rintro us args ⟨vs, rfl, hargs⟩
                  exact ⟨[], _, ts ++ .comma :: vs, by simp, .cons hfirst hargs⟩
              case parenClose =>
                rw [afterArgument_close nested left first ht]
                exact Reads.of_rest ht (.of_nil ⟨ts, rfl, .one hfirst⟩)
              all_goals
                rw [afterArgument, bind_run, current_run, ht]
                first
                  | exact reads_fail _ ht
                  | exact reads_unexpected _ t hone
          · intro ts first hfirst
            exact ⟨[.parenClose], [first], ts, rfl, .one hfirst⟩

theorem reads_call (hn : Sound nested) {name : String} {s : State} {span : Span}
    {rest : List Lexeme} (hs : s.rest = ⟨span, .ident name⟩ :: rest) (hname : s.env.Sees name) :
    Reads (Operand .ofBody s.env s.depth) s (call nested name s) := by
  by_cases hhead : rest.head?.map Lexeme.token = some .parenOpen
  · obtain ⟨span', rest', rfl⟩ := exists_of_head hhead
    have hargs := reads_argumentList hn rest' (s := { s with rest := rest' }) rfl rfl
    rw [call_open nested name hs]
    refine Reads.of_rest hs (Reads.of_rest rfl ?_)
    dsimp only at hargs ⊢
    generalize argumentList nested rest' { s with rest := rest' } = r at hargs
    cases hargs with
    | ok hts h =>
        obtain ⟨us, rfl, h⟩ := h
        exact .ok hts (.call hname h)
    | error hspan => exact .error hspan
    | cut h =>
        obtain ⟨us, hus, h⟩ := h
        exact .cut (by rw [hus]; exact .call hname h)
  · rw [call_plain nested name hs hhead]
    exact Reads.of_rest hs (.of_nil (.name s.depth hname))

theorem reads_group (hn : Sound nested) {s : State} {span : Span} {rest : List Lexeme}
    (hs : s.rest = ⟨span, .parenOpen⟩ :: rest) :
    Reads (Operand .ofBody s.env s.depth) s (group nested s) := by
  rw [group, bind_run, advance_run, hs]
  refine Reads.of_rest hs ?_
  refine Reads.bind (hn.reads { s with rest := rest }) (hn.tidy _) ?_ ?_
  · intro expr t ts _ hexpr
    refine Reads.bind (reads_expect .parenClose t) (tidy_expect (by simp) t) ?_ ?_
    · rintro _ u us - rfl
      exact .of_nil (.group hexpr)
    · rintro us _ rfl
      exact ⟨[], _, .group hexpr⟩
  · intro ts expr hexpr
    exact ⟨[.parenClose], _, .group hexpr⟩

theorem reads_primary (hn : Sound nested) (s : State) :
    Reads (Operand .ofBody s.env s.depth) s (primary nested s) := by
  have hmore : ∃ ts tree, Operand .ofBody s.env s.depth ts tree := ⟨_, _, .number _ _ (.ofBits 0)⟩
  rcases hs : s.rest with _ | ⟨⟨span, token⟩, rest⟩
  · rw [primary_other nested (by simp [hs])]
    exact reads_unexpected _ s hmore
  · cases token
    case number v =>
      rw [primary_number nested hs]
      exact Reads.of_rest hs (.of_nil (.number _ _ v))
    case blockOpen =>
      rw [primary_block nested hs]
      exact reads_block hn hs
    case parenOpen =>
      rw [primary_group nested hs]
      exact reads_group hn hs
    case ident name =>
      rw [primary_ident nested hs]
      split
      · exact reads_fail _ hs
      · rename_i hname
        rw [Bool.not_eq_true, lookup_isNone_eq_false_iff] at hname
        exact reads_call hn hs hname
    all_goals
      rw [primary_other nested (by simp [hs, startsOperand])]
      exact reads_unexpected _ s hmore

/-! ## Expressions -/

theorem reads_primary_in (hn : Sound nested) {s : State} {Γ : Env} {d : Nat} (henv : s.env = Γ)
    (hdepth : s.depth = d) : Reads (Operand .ofBody Γ d) s (primary nested s) := by
  subst henv hdepth
  exact reads_primary hn s

theorem Chained.reads (hn : Sound nested) {s t : State} {links : Links}
    (h : Chained nested s links t) :
    ∃ ts, s.tokens = ts ++ t.tokens ∧ Operators .ofBody s.env s.depth ts links := by
  induction h with
  | nil s => exact ⟨[], rfl, .nil _ _⟩
  | @cons s t u span op rest operand links hs hoperand _ ih =>
      obtain ⟨us, hus, hlinks⟩ := ih
      have hread := reads_primary hn { s with rest := rest }
      have hkept := (tidy_primary hn.toReader _).kept_of_ok hoperand
      rw [hoperand] at hread
      rw [hkept.env, hkept.depth] at hlinks
      cases hread with
      | @ok _ _ ts hts h =>
          refine ⟨.binop op :: ts ++ us, ?_, .cons op h hlinks⟩
          rw [State.tokens] at hts
          rw [State.tokens_cons hs, hts, hus, List.cons_append, List.cons_append,
            List.append_assoc]

theorem sound_expressionAround (hn : Sound nested) : Sound (expressionAround nested) where
  toReader := reader_expressionAround hn.toReader
  reads := by
    intro s
    refine Reads.bind (reads_primary hn s) (tidy_primary hn.toReader s) ?_ ?_
    · intro first t ts hkept hfirst
      have hread : ∀ links u, Chained nested t links u → ∃ us, t.tokens = us ++ u.tokens ∧
          Operators .ofBody s.env s.depth us links := by
        intro links u hlinks
        have h := hlinks.reads hn
        rwa [hkept.env, hkept.depth] at h
      rw [bind_run, get_run]
      dsimp only
      cases htree : operators nested t.rest first 0 t with
      | ok tree u =>
          obtain ⟨links, hlinks, -, hgroup, -⟩ :=
            operators_eq_ok hn.toReader (Nat.le_refl _) htree
          obtain ⟨us, hus, hoperators⟩ := hread links u hlinks
          exact .ok hus (.mk hfirst hoperators hgroup)
      | error e u =>
          obtain ⟨links, v, span, op, rest, hlinks, hv, herror⟩ :=
            operators_eq_error hn.toReader (Nat.le_refl _) htree
          obtain ⟨us, hus, hoperators⟩ := hread links v hlinks
          have hv' := hkept.trans ((hlinks.kept hn.toReader).trans (kept_advance hv (by simp)))
          have hoperand := reads_primary_in hn hv'.env hv'.depth
          rw [herror] at hoperand
          cases hoperand with
          | error hspan => exact .error hspan
          | @cut _ _ us' operand h =>
              obtain ⟨tree, hgroup⟩ := Grouping.exists_tree first (links ++ [(op, operand)])
              have hexpr := Expression.mk hfirst (hoperators.snoc op h) hgroup
              have htokens : v.tokens = .binop op :: State.tokens { v with rest := rest } :=
                State.tokens_cons hv
              rw [← List.cons_append, ← htokens, ← List.append_assoc us, ← hus] at hexpr
              exact .cut hexpr
    · intro ts first hfirst
      exact ⟨[], first, .mk hfirst (.nil _ _) (.single first)⟩

/-! ## Programs -/

/-- Outside of a block, the loop over statements comes to the end of the input. -/
theorem statements_rest (hn : Reader nested) {left : List Lexeme} {s t : State} {body : List Tree}
    (hleft : s.rest.length ≤ left.length) (h : statements nested false left s = .ok body t) :
    t.rest = [] := by
  induction left generalizing s body with
  | nil =>
      cases h
      exact List.eq_nil_of_length_eq_zero (Nat.le_zero.1 hleft)
  | cons y left ih =>
      rcases statements_step nested false y left s with
        ⟨hs, he⟩ | ⟨span, rest, hs, he⟩ | ⟨hbraced, -, -⟩ | ⟨x, rest, hs, -, -, he⟩
      · rw [he] at h
        cases h
        exact hs
      · rw [he] at h
        rw [hs, List.length_cons, List.length_cons] at hleft
        exact ih (Nat.le_of_succ_le_succ hleft) h
      · cases hbraced
      · rw [he, firstStatement] at h
        obtain ⟨first, u, hfirst, h⟩ := bind_eq_ok.1 h
        obtain ⟨_, v, hend, h⟩ := bind_eq_ok.1 h
        obtain ⟨others, w, hothers, h⟩ := bind_eq_ok.1 h
        have hu := statement_shorter hn hfirst
        have hv := ((tidy_endOfStatement false u).kept_of_ok hend).rest.length_le
        cases h
        rw [List.length_cons] at hleft
        exact ih (by omega) hothers

end Productions

theorem sound_expression : Sound expression := by
  have hwithin : ∀ left, Sound (expressionWithin left) := by
    intro left
    induction left with
    | nil =>
        exact ⟨reader_expressionWithin [], fun s => reads_unexpected _ s (exists_expression _ _)⟩
    | cons y left ih => exact sound_expressionAround ih
  refine ⟨reader_expression, fun s => ?_⟩
  rw [expression_run]
  exact (hwithin s.rest).reads s

theorem programOf_eq_ok {body : List Tree} {tree : Tree} :
    programOf body = .ok tree ↔
      body.getLast?.any Tree.isExpr = true ∧ tree = .block 0 body := by
  cases body with
  | nil => simp [programOf]
  | cons first body =>
      unfold programOf
      cases (first :: body).getLast?.any Tree.isExpr <;> simp [eq_comm]

theorem parseRun_eq (lexemes : List Lexeme) :
    parseRun lexemes =
      match statements expression false lexemes { rest := lexemes } with
      | .error e t => .error e t
      | .ok body t =>
          match programOf body with
          | .ok tree => .ok tree t
          | .error cause => .error ⟨cause, none⟩ t := by
  rw [parseRun, program, bind_run, get_run]
  dsimp only
  rw [bind_run]
  cases statements expression false lexemes { rest := lexemes } with
  | error e t => rfl
  | ok body t =>
      dsimp only
      cases programOf body <;> rfl

/-- A parse that succeeds has read a program, and one that fails at the end of its
input has read the beginning of one. -/
theorem reads_parseRun (lexemes : List Lexeme) :
    Reads (Program .ofBody) { rest := lexemes } (parseRun lexemes) := by
  have hlines : Reads (Lines .ofBody {} 0) { rest := lexemes }
      (statements expression false lexemes { rest := lexemes }) :=
    reads_statements sound_expression false lexemes { rest := lexemes }
  have hcut : ∀ {ts body}, Lines .ofBody {} 0 ts body →
      ∃ us tree, Program .ofBody (ts ++ us) tree := by
    intro ts body h
    obtain ⟨before, us, behind, body', hts, hbody⟩ := h.exists_completion (.ofBits 0)
    have hprogram := Program.mk before behind hbody
    rw [← hts] at hprogram
    exact ⟨_, _, hprogram⟩
  rw [parseRun_eq]
  cases hbody : statements expression false lexemes { rest := lexemes } with
  | error e t =>
      rw [hbody] at hlines
      cases hlines with
      | error hspan => exact .error hspan
      | cut h =>
          obtain ⟨us, tree, h⟩ := hcut h
          rw [List.append_assoc] at h
          exact .cut h
  | ok body t =>
      have hrest :=
        statements_rest reader_expression (s := { rest := lexemes }) (Nat.le_refl _) hbody
      rw [hbody] at hlines
      cases hlines with
      | @ok _ _ ts hts h =>
          dsimp only
          cases htree : programOf body with
          | ok tree =>
              obtain ⟨hlast, rfl⟩ := programOf_eq_ok.1 htree
              obtain ⟨before, us, behind, rfl, hbody⟩ := h.exists_body hlast
              exact .ok hts (.mk before behind hbody)
          | error cause =>
              rw [show t.tokens = [] by rw [State.tokens, hrest]; rfl, List.append_nil] at hts
              obtain ⟨us, tree, h⟩ := hcut h
              exact .cut (by rwa [hts])

theorem parse_eq_ok_iff {lexemes : List Lexeme} {tree : Tree} :
    parse lexemes = .ok tree ↔ ∃ t, parseRun lexemes = .ok tree t := by
  rw [parse]
  cases h : parseRun lexemes with
  | ok tree' t => simp
  | error e t => simp

theorem program_of_parse {lexemes : List Lexeme} {tree : Tree} (h : parse lexemes = .ok tree) :
    Program .ofBody (lexemes.map Lexeme.token) tree := by
  obtain ⟨t, ht⟩ := parse_eq_ok_iff.1 h
  have hread := reads_parseRun lexemes
  have hrest : t.rest = [] := by
    rw [parseRun_eq] at ht
    cases hbody : statements expression false lexemes { rest := lexemes } with
    | error e u =>
        rw [hbody] at ht
        cases ht
    | ok body u =>
        rw [hbody] at ht
        dsimp only at ht
        cases htree : programOf body with
        | error cause =>
            rw [htree] at ht
            cases ht
        | ok tree' =>
            rw [htree] at ht
            cases ht
            exact statements_rest reader_expression (s := { rest := lexemes }) (Nat.le_refl _) hbody
  rw [ht] at hread
  cases hread with
  | @ok _ _ ts hts h =>
      rw [show t.tokens = [] by rw [State.tokens, hrest]; rfl, List.append_nil] at hts
      rwa [show lexemes.map Lexeme.token = ts from hts]

theorem exists_program_of_parse {lexemes : List Lexeme} {e : ParseError}
    (h : parse lexemes = .error e) (hspan : e.span = none) :
    ∃ us tree, Program .ofBody (lexemes.map Lexeme.token ++ us) tree := by
  have hread := reads_parseRun lexemes
  rw [parse] at h
  cases hrun : parseRun lexemes with
  | ok tree t =>
      rw [hrun] at h
      cases h
  | error e' t =>
      rw [hrun] at h hread
      cases h
      cases hread with
      | error hne => exact (hne hspan).elim
      | cut h => exact ⟨_, _, h⟩

end Lila.Parser
