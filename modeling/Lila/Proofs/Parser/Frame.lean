import Lila.Proofs.Parser.Runs
import Lila.Proofs.Scope.Frames

/-! # What a run leaves as it was

Whether it succeeds or fails, a production reads on in the tokens that were left,
and leaves the open scopes, their bindings and the number of open blocks as it
found them. Only a statement binds a name, in the innermost scope. The blocks
opened so far grow with the opening braces that are read, and an error is blamed
on one of the tokens that were left.

`Orderly` says this of one run, up to the bindings of the innermost scope, and
`Tidy` includes them. Both compose along `>>=`.
-/

namespace Lila.Parser

variable {α β : Type}

def opensIn (lexemes : List Lexeme) : Nat := lexemes.countP fun x => x.token = .blockOpen

/-- The later state has everything of the earlier one but tokens and the
innermost bindings. -/
structure Framed (s t : State) : Prop where
  rest : t.rest <:+ s.rest
  stack : t.scopes.stack = s.scopes.stack
  outer : t.scopes.frames.tail = s.scopes.frames.tail
  depth : t.depth = s.depth
  opened : t.opened + opensIn t.rest = s.opened + opensIn s.rest

/-- The later state has everything of the earlier one but tokens. -/
structure Kept (s t : State) : Prop extends Framed s t where
  here : t.scopes.frames.head? = s.scopes.frames.head?

theorem Framed.refl (s : State) : Framed s s := ⟨List.suffix_refl _, rfl, rfl, rfl, rfl⟩

theorem Framed.trans {s t u : State} (h : Framed s t) (h' : Framed t u) : Framed s u where
  rest := h'.rest.trans h.rest
  stack := h'.stack.trans h.stack
  outer := h'.outer.trans h.outer
  depth := h'.depth.trans h.depth
  opened := h'.opened.trans h.opened

theorem Kept.refl (s : State) : Kept s s := ⟨Framed.refl s, rfl⟩

theorem Kept.trans {s t u : State} (h : Kept s t) (h' : Kept t u) : Kept s u :=
  ⟨h.toFramed.trans h'.toFramed, h'.here.trans h.here⟩

theorem Kept.frames {s t : State} (h : Kept s t) : t.scopes.frames = s.scopes.frames := by
  have htail := h.outer
  have hhead := h.here
  obtain ⟨f, fs, hf⟩ := List.exists_cons_of_ne_nil t.scopes.frames_ne_nil
  obtain ⟨g, gs, hg⟩ := List.exists_cons_of_ne_nil s.scopes.frames_ne_nil
  simp_all

theorem kept_advance {s : State} {x : Lexeme} {rest : List Lexeme} (hs : s.rest = x :: rest)
    (hx : x.token ≠ .blockOpen) : Kept s { s with rest := rest } where
  rest := by simp [hs]
  stack := rfl
  outer := rfl
  depth := rfl
  opened := by simp [hs, opensIn, hx]
  here := rfl

theorem Framed.length_lt {s t : State} {x : Lexeme} {rest : List Lexeme} (hs : s.rest = x :: rest)
    (h : t.rest <:+ rest) : t.rest.length < s.rest.length := by
  have hl := h.length_le
  rw [hs, List.length_cons]
  omega

/-! ## Runs -/

/-- An error names a token of the given ones, or none. -/
def Blames (lexemes : List Lexeme) (r : EStateM.Result ParseError State α) : Prop :=
  ∀ e t, r = .error e t → ∀ span, e.span = some span → ∃ x ∈ lexemes, x.span = span

structure Orderly (s : State) (r : EStateM.Result ParseError State α) : Prop where
  framed : Framed s (endState r)
  blames : Blames s.rest r

structure Tidy (s : State) (r : EStateM.Result ParseError State α) : Prop where
  kept : Kept s (endState r)
  blames : Blames s.rest r

theorem Tidy.orderly {s : State} {r : EStateM.Result ParseError State α} (h : Tidy s r) :
    Orderly s r := ⟨h.kept.toFramed, h.blames⟩

theorem Blames.mono {xs ys : List Lexeme} {r : EStateM.Result ParseError State α}
    (h : Blames xs r) (hxs : xs <:+ ys) : Blames ys r := by
  intro e t hr span hspan
  obtain ⟨x, hx, hxspan⟩ := h e t hr span hspan
  exact ⟨x, hxs.mem hx, hxspan⟩

theorem Orderly.of_framed {s t : State} {r : EStateM.Result ParseError State α}
    (h : Framed s t) (h' : Orderly t r) : Orderly s r :=
  ⟨h.trans h'.framed, h'.blames.mono h.rest⟩

theorem Tidy.of_kept {s t : State} {r : EStateM.Result ParseError State α}
    (h : Kept s t) (h' : Tidy t r) : Tidy s r :=
  ⟨h.trans h'.kept, h'.blames.mono h.rest⟩

theorem tidy_ok {s t : State} (a : α) (h : Kept s t) : Tidy s (.ok a t) :=
  ⟨h, by intro e u hr; cases hr⟩

theorem orderly_ok {s t : State} (a : α) (h : Framed s t) : Orderly s (.ok a t) :=
  ⟨h, by intro e u hr; cases hr⟩

theorem Orderly.framed_of_ok {s t : State} {a : α} {r : EStateM.Result ParseError State α}
    (h : Orderly s r) (hr : r = .ok a t) : Framed s t := by
  subst hr
  exact h.framed

theorem Tidy.kept_of_ok {s t : State} {a : α} {r : EStateM.Result ParseError State α}
    (h : Tidy s r) (hr : r = .ok a t) : Kept s t := by
  subst hr
  exact h.kept

/-- The error of a run of another type. -/
theorem Orderly.error {s t : State} {e : ParseError}
    (h : Orderly s (.error e t : EStateM.Result ParseError State α)) :
    Orderly s (.error e t : EStateM.Result ParseError State β) :=
  ⟨h.framed, by intro e' t' hr; cases hr; exact h.blames e t rfl⟩

theorem Tidy.error {s t : State} {e : ParseError}
    (h : Tidy s (.error e t : EStateM.Result ParseError State α)) :
    Tidy s (.error e t : EStateM.Result ParseError State β) :=
  ⟨h.kept, by intro e' t' hr; cases hr; exact h.blames e t rfl⟩

theorem Orderly.bind {p : Parser α} {f : α → Parser β} {s : State} (hp : Orderly s (p s))
    (hf : ∀ a t, p s = .ok a t → Orderly t (f a t)) : Orderly s ((p >>= f) s) := by
  rw [bind_run]
  cases h : p s with
  | ok a t =>
      rw [h] at hp
      exact Orderly.of_framed hp.framed (hf a t h)
  | error e t =>
      rw [h] at hp
      exact hp.error

theorem Tidy.bind {p : Parser α} {f : α → Parser β} {s : State} (hp : Tidy s (p s))
    (hf : ∀ a t, p s = .ok a t → Tidy t (f a t)) : Tidy s ((p >>= f) s) := by
  rw [bind_run]
  cases h : p s with
  | ok a t =>
      rw [h] at hp
      exact Tidy.of_kept hp.kept (hf a t h)
  | error e t =>
      rw [h] at hp
      exact hp.error

/-- At the end of the input nothing is left to read and no token to blame. -/
theorem Orderly.at_end {s : State} {r : EStateM.Result ParseError State α} (h : Orderly s r)
    (hs : s.rest = []) :
    (endState r).rest = [] ∧ ∀ e t, r = .error e t → e.span = none := by
  constructor
  · have hsuffix := h.framed.rest
    rw [hs] at hsuffix
    exact List.suffix_nil.1 hsuffix
  · intro e t hr
    cases hspan : e.span with
    | none => rfl
    | some span =>
        obtain ⟨x, hx, -⟩ := h.blames e t hr span hspan
        simp [hs] at hx

/-! ## Single tokens -/

theorem tidy_fail (cause : ParseError.Cause) (s : State) : Tidy s ((fail cause : Parser α) s) := by
  rw [fail_run]
  refine ⟨Kept.refl s, ?_⟩
  intro e t hr span hspan
  cases hr
  cases hs : s.rest with
  | nil => simp [hs] at hspan
  | cons x rest => exact ⟨x, by simp, by simpa [hs] using hspan⟩

theorem tidy_unexpected (expected : Expectation) (s : State) :
    Tidy s ((unexpected expected : Parser α) s) := by
  obtain ⟨cause, -, h⟩ := unexpected_eq_fail (α := α) expected s
  rw [h]
  exact tidy_fail cause s

theorem tidy_expect {token : Token} (ht : token ≠ .blockOpen) (s : State) :
    Tidy s (expect token s) := by
  by_cases hhead : s.rest.head?.map Lexeme.token = some token
  · obtain ⟨span, rest, hs⟩ := exists_of_head hhead
    rw [expect_here hs]
    exact tidy_ok () (kept_advance hs ht)
  · rw [expect_run, if_neg hhead]
    exact tidy_unexpected _ s

theorem tidy_newName (expected : Expectation) (s : State) : Tidy s (newName expected s) := by
  by_cases hs : ∃ span x rest, s.rest = ⟨span, .ident x⟩ :: rest
  · obtain ⟨span, x, rest, hs⟩ := hs
    have hk : Kept s { s with rest := rest } := kept_advance hs (by simp)
    rw [newName_ident expected hs]
    split
    · refine ⟨hk, ?_⟩
      intro e t hr span' hspan
      cases hr
      exact ⟨⟨span, .ident x⟩, by simp [hs], by simpa using hspan⟩
    · exact tidy_ok x hk
  · rw [newName_other expected (by simpa using hs)]
    exact tidy_unexpected expected s

theorem tidy_endOfStatement (braced : Bool) (s : State) : Tidy s (endOfStatement braced s) := by
  rw [endOfStatement_run]
  split
  · exact tidy_ok () (Kept.refl s)
  · exact tidy_unexpected _ s

theorem framed_define (x : String) (params : List String) (s : State) :
    Framed s (endState (define x params s)) := by
  simp only [define_run, endState_ok]
  exact ⟨List.suffix_refl _, by simp, by simp, rfl, rfl⟩

theorem orderly_define (x : String) (params : List String) (s : State) :
    Orderly s (define x params s) :=
  orderly_ok () (framed_define x params s)

/-! ## Scopes -/

/-- Whatever is bound in the new scope goes with it. -/
theorem tidy_inScope {name : String} {body : Parser α} {s : State}
    (h : Orderly (enter name s) (body (enter name s))) : Tidy s (inScope name body s) := by
  have hleave : ∀ t, Framed (enter name s) t → Kept s (leave t) := by
    intro t ht
    obtain ⟨table, outer, htables⟩ := List.exists_cons_of_ne_nil t.scopes.frames_ne_nil
    have houter : outer = s.scopes.frames := by simpa [htables, enter] using ht.outer
    have hframes : (leave t).scopes.frames = s.scopes.frames := by
      rw [← houter]
      exact Scope.Chain.frames_pop htables (houter ▸ s.scopes.frames_ne_nil)
    have hstack : (leave t).scopes.stack = s.scopes.stack :=
      Scope.Chain.stack_pop (by simpa [enter] using ht.stack) s.scopes.stack_ne_nil
    exact ⟨⟨ht.rest, hstack, by rw [hframes], ht.depth, ht.opened⟩, by rw [hframes]⟩
  unfold inScope
  cases hb : body (enter name s) with
  | ok a t =>
      rw [hb] at h
      exact tidy_ok a (hleave t h.framed)
  | error e t =>
      rw [hb] at h
      refine ⟨hleave t h.framed, ?_⟩
      intro e' t' hr
      cases hr
      exact h.blames e t rfl

/-! ## Bindings -/

theorem tidy_afterParameter {left : List Lexeme}
    (hlist : ∀ seen s, Tidy s (parameterList left seen s)) (params : List String) (s : State) :
    Tidy s (afterParameter left params s) := by
  rcases hs : s.rest with _ | ⟨⟨span, token⟩, rest⟩
  · rw [afterParameter, bind_run, current_run, hs]
    exact tidy_unexpected _ s
  · cases token
    case comma =>
      rw [afterParameter_comma left params hs]
      exact Tidy.of_kept (kept_advance hs (by simp)) (hlist params _)
    case parenClose =>
      rw [afterParameter_close left params hs]
      exact tidy_ok params (kept_advance hs (by simp))
    all_goals
      rw [afterParameter, bind_run, current_run, hs]
      first | exact tidy_fail _ s | exact tidy_unexpected _ s

theorem tidy_parameterList (left : List Lexeme) (seen : List String) (s : State) :
    Tidy s (parameterList left seen s) := by
  induction left generalizing seen s with
  | nil => exact tidy_unexpected _ s
  | cons y left ih =>
      rcases hs : s.rest with _ | ⟨⟨span, token⟩, rest⟩
      · rw [parameterList, bind_run, current_run, hs]
        exact tidy_unexpected _ s
      · cases token
        case ident param =>
          rw [parameterList_ident y left seen hs]
          split
          · exact tidy_fail _ s
          · exact Tidy.of_kept (kept_advance hs (by simp)) (tidy_afterParameter ih _ _)
        all_goals
          rw [parameterList, bind_run, current_run, hs]
          first | exact tidy_fail _ s | exact tidy_unexpected _ s

theorem tidy_parameters (s : State) : Tidy s (parameters s) := by
  by_cases hhead : s.rest.head?.map Lexeme.token = some .parenOpen
  · obtain ⟨span, rest, hs⟩ := exists_of_head hhead
    rw [parameters_open hs]
    exact Tidy.of_kept (kept_advance hs (by simp)) (tidy_parameterList rest [] _)
  · rw [parameters_other hhead]
    exact tidy_ok [] (Kept.refl s)

theorem orderly_defineAll (params : List String) (s : State) :
    Orderly s ((params.forM fun param => define param []) s) := by
  induction params generalizing s with
  | nil => exact orderly_ok () (Framed.refl s)
  | cons param params ih =>
      exact Orderly.bind (orderly_define param [] s) fun _ t _ => ih t

/-- The parser of the expressions inside a production: it keeps the state, and
reads at least one token when it succeeds. -/
structure Reader (nested : Parser Tree) : Prop where
  tidy : ∀ s, Tidy s (nested s)
  shorter : ∀ {s t : State} {tree : Tree}, nested s = .ok tree t → t.rest.length < s.rest.length

section Productions

variable {nested : Parser Tree}

theorem orderly_afterVal (hn : Reader nested) (s : State) : Orderly s (afterVal nested s) := by
  refine Orderly.bind (tidy_newName _ _).orderly fun x t _ => ?_
  refine Orderly.bind (tidy_expect (by simp) t).orderly fun _ t _ => ?_
  refine Orderly.bind (hn.tidy t).orderly fun expr t _ => ?_
  exact Orderly.bind (orderly_define x [] t) fun _ t _ => orderly_ok _ (Framed.refl t)

theorem orderly_definitionInside (hn : Reader nested) (s : State) :
    Orderly s (definitionInside nested s) := by
  refine Orderly.bind (tidy_parameters _).orderly fun params t _ => ?_
  refine Orderly.bind (orderly_defineAll params t) fun _ t _ => ?_
  refine Orderly.bind (tidy_expect (by simp) t).orderly fun _ t _ => ?_
  exact Orderly.bind (hn.tidy t).orderly fun _ t _ => orderly_ok _ (Framed.refl t)

theorem orderly_afterDef (hn : Reader nested) (s : State) : Orderly s (afterDef nested s) := by
  refine Orderly.bind (tidy_newName _ _).orderly fun x t _ => ?_
  have hscope := tidy_inScope (orderly_definitionInside hn (enter x t))
  refine Orderly.bind hscope.orderly fun inside t _ => ?_
  exact Orderly.bind (orderly_define x inside.1 t) fun _ t _ => orderly_ok _ (Framed.refl t)

/-! ## Statements -/

theorem orderly_statement (hn : Reader nested) (s : State) : Orderly s (statement nested s) := by
  rcases hs : s.rest with _ | ⟨⟨span, token⟩, rest⟩
  · rw [statement_expression nested (by simp [hs]) (by simp [hs])]
    exact (hn.tidy s).orderly
  · cases token
    case kwDef =>
      rw [statement_definition nested hs]
      exact Orderly.of_framed (kept_advance hs (by simp)).toFramed (orderly_afterDef hn _)
    case kwVal =>
      rw [statement_value nested hs]
      exact Orderly.of_framed (kept_advance hs (by simp)).toFramed (orderly_afterVal hn _)
    all_goals
      rw [statement_expression nested (by simp [hs]) (by simp [hs])]
      exact (hn.tidy s).orderly

theorem statement_shorter (hn : Reader nested) {s t : State} {tree : Tree}
    (h : statement nested s = .ok tree t) : t.rest.length < s.rest.length := by
  by_cases hdef : s.rest.head?.map Lexeme.token = some .kwDef
  · obtain ⟨span, rest, hs⟩ := exists_of_head hdef
    rw [statement_definition nested hs] at h
    have horderly := orderly_afterDef hn { s with rest := rest }
    rw [h] at horderly
    exact Framed.length_lt hs horderly.framed.rest
  · by_cases hval : s.rest.head?.map Lexeme.token = some .kwVal
    · obtain ⟨span, rest, hs⟩ := exists_of_head hval
      rw [statement_value nested hs] at h
      have horderly := orderly_afterVal hn { s with rest := rest }
      rw [h] at horderly
      exact Framed.length_lt hs horderly.framed.rest
    · rw [statement_expression nested hdef hval] at h
      exact hn.shorter h

theorem orderly_statements (hn : Reader nested) (braced : Bool) (left : List Lexeme) (s : State) :
    Orderly s (statements nested braced left s) := by
  have hend : ∀ s, Orderly s (endOfInput braced s) := by
    intro s
    cases braced
    · exact orderly_ok [] (Framed.refl s)
    · exact (tidy_unexpected _ s).orderly
  induction left generalizing s with
  | nil => exact hend s
  | cons y left ih =>
      rcases statements_step nested braced y left s with
        ⟨-, he⟩ | ⟨span, rest, hs, he⟩ | ⟨-, -, he⟩ | ⟨x, rest, -, -, -, he⟩
      · rw [he]
        exact hend s
      · rw [he]
        exact Orderly.of_framed (kept_advance hs (by simp)).toFramed (ih _)
      · rw [he]
        exact orderly_ok [] (Framed.refl s)
      · rw [he]
        refine Orderly.bind (orderly_statement hn s) fun first t _ => ?_
        refine Orderly.bind (tidy_endOfStatement braced t).orderly fun _ t _ => ?_
        exact Orderly.bind (ih t) fun _ t _ => orderly_ok _ (Framed.refl t)

theorem endOfInput_braced_ne_ok {s t : State} {body : List Tree} :
    endOfInput true s ≠ .ok body t := by
  intro h
  obtain ⟨cause, -, hcause⟩ := unexpected_eq_fail (α := List Tree) (.token .blockClose) s
  rw [endOfInput, if_pos rfl, hcause, fail_run] at h
  cases h

/-- The statements of a block end in front of its closing brace. -/
theorem statements_closed {left : List Lexeme} {s t : State} {body : List Tree}
    (h : statements nested true left s = .ok body t) :
    ∃ span rest, t.rest = ⟨span, .blockClose⟩ :: rest := by
  induction left generalizing s body with
  | nil => exact (endOfInput_braced_ne_ok h).elim
  | cons y left ih =>
      rcases statements_step nested true y left s with
        ⟨-, he⟩ | ⟨span, rest, -, he⟩ | ⟨-, hs, he⟩ | ⟨x, rest, -, -, -, he⟩
      · rw [he] at h
        exact (endOfInput_braced_ne_ok h).elim
      · rw [he] at h
        exact ih h
      · rw [he] at h
        cases h
        exact hs
      · rw [he, firstStatement] at h
        obtain ⟨first, u, -, h⟩ := bind_eq_ok.1 h
        obtain ⟨-, v, -, h⟩ := bind_eq_ok.1 h
        obtain ⟨body, w, h, hpure⟩ := bind_eq_ok.1 h
        cases hpure
        exact ih h

/-! ## Operands -/

theorem orderly_blockInside (hn : Reader nested) (s : State) :
    Orderly s (blockInside nested s) := by
  have h := orderly_statements hn true s.rest s
  rw [blockInside_run]
  cases hbody : statements nested true s.rest s with
  | ok body t =>
      rw [hbody] at h
      obtain ⟨span, rest, ht⟩ := statements_closed hbody
      have hk := kept_advance ht (by simp)
      simp only [ht, List.tail_cons]
      exact orderly_ok body (h.framed.trans hk.toFramed)
  | error e t =>
      rw [hbody] at h
      exact h

theorem tidy_block (hn : Reader nested) {s : State} {opening : Span} {rest : List Lexeme}
    (hs : s.rest = ⟨opening, .blockOpen⟩ :: rest) : Tidy s (block nested opening s) := by
  have hclose : ∀ t, Kept { s with rest := rest, opened := s.opened + 1, depth := s.depth + 1 } t →
      Kept s { t with depth := t.depth - 1 } := by
    intro t ht
    refine ⟨⟨?_, ht.stack, ht.outer, by simp [ht.depth], ?_⟩, ht.here⟩
    · exact ht.rest.trans (by simp [hs])
    · have hopened := ht.opened
      simp only [hs, opensIn, List.countP_cons, decide_true, if_true] at hopened ⊢
      omega
  have hscope : ∀ name s, Tidy s (inScope name (blockInside nested) s) := fun name s =>
    tidy_inScope (orderly_blockInside hn (enter name s))
  rw [block_run nested opening hs]
  specialize hscope ("anon" ++ toString s.opened)
    { s with rest := rest, opened := s.opened + 1, depth := s.depth + 1 }
  revert hscope
  cases inScope ("anon" ++ toString s.opened) (blockInside nested)
      { s with rest := rest, opened := s.opened + 1, depth := s.depth + 1 } with
  | ok body t =>
      intro hscope
      have hk := hclose t hscope.kept
      dsimp only
      cases blockOf (s.depth + 1) body with
      | ok tree => exact tidy_ok tree hk
      | error cause =>
          refine ⟨hk, ?_⟩
          intro e u hr span hspan
          cases hr
          exact ⟨⟨opening, .blockOpen⟩, by simp [hs], by simpa using hspan⟩
  | error e t =>
      intro hscope
      refine ⟨hclose t hscope.kept, ?_⟩
      intro e' u hr
      cases hr
      exact (hscope.blames.mono (by simp [hs])) e t rfl

theorem block_shorter (hn : Reader nested) {s t : State} {opening : Span} {rest : List Lexeme}
    {tree : Tree} (hs : s.rest = ⟨opening, .blockOpen⟩ :: rest)
    (h : block nested opening s = .ok tree t) : t.rest.length < s.rest.length := by
  have hscope : ∀ name s, Tidy s (inScope name (blockInside nested) s) := fun name s =>
    tidy_inScope (orderly_blockInside hn (enter name s))
  rw [block_run nested opening hs] at h
  specialize hscope ("anon" ++ toString s.opened)
    { s with rest := rest, opened := s.opened + 1, depth := s.depth + 1 }
  split at h
  · cases h
  · rename_i body u hbody
    rw [hbody] at hscope
    split at h
    · cases h
      exact Framed.length_lt hs hscope.kept.rest
    · cases h

theorem tidy_afterArgument {left : List Lexeme} (hlist : ∀ s, Tidy s (argumentList nested left s))
    (first : Tree) (s : State) : Tidy s (afterArgument nested left first s) := by
  rcases hs : s.rest with _ | ⟨⟨span, token⟩, rest⟩
  · rw [afterArgument, bind_run, current_run, hs]
    exact tidy_unexpected _ s
  · cases token
    case comma =>
      rw [afterArgument_comma nested left first hs]
      refine Tidy.of_kept (kept_advance hs (by simp)) ?_
      exact Tidy.bind (hlist _) fun _ t _ => tidy_ok _ (Kept.refl t)
    case parenClose =>
      rw [afterArgument_close nested left first hs]
      exact tidy_ok _ (kept_advance hs (by simp))
    all_goals
      rw [afterArgument, bind_run, current_run, hs]
      first | exact tidy_fail _ s | exact tidy_unexpected _ s

theorem tidy_argumentList (hn : Reader nested) (left : List Lexeme) (s : State) :
    Tidy s (argumentList nested left s) := by
  induction left generalizing s with
  | nil => exact tidy_unexpected _ s
  | cons y left ih =>
      rcases hs : s.rest with _ | ⟨x, rest⟩
      · rw [argumentList_end nested _ hs]
        exact tidy_unexpected _ s
      · by_cases hx : x.token = .parenClose ∨ x.token = .comma
        · rw [argumentList_missing nested y left hs hx]
          exact tidy_fail _ s
        · rw [argumentList_first nested y left hs (fun h => hx (.inl h)) (fun h => hx (.inr h))]
          exact Tidy.bind (hn.tidy s) fun first t _ => tidy_afterArgument ih first t

theorem tidy_call (hn : Reader nested) (x : String) {s : State} {span : Span} {rest : List Lexeme}
    (hs : s.rest = ⟨span, .ident x⟩ :: rest) :
    Tidy { s with rest := rest } (call nested x s) := by
  by_cases hhead : rest.head?.map Lexeme.token = some .parenOpen
  · obtain ⟨span', rest, rfl⟩ := exists_of_head hhead
    have hargs := tidy_argumentList hn rest { s with rest := rest }
    rw [call_open nested x hs]
    refine Tidy.of_kept (kept_advance rfl (by simp)) ?_
    cases h : argumentList nested rest { s with rest := rest } with
    | ok args t =>
        rw [h] at hargs
        exact tidy_ok _ hargs.kept
    | error e t =>
        rw [h] at hargs
        exact hargs.error
  · rw [call_plain nested x hs hhead]
    exact tidy_ok _ (Kept.refl _)

theorem tidy_group (hn : Reader nested) {s : State} {span : Span} {rest : List Lexeme}
    (hs : s.rest = ⟨span, .parenOpen⟩ :: rest) :
    Tidy { s with rest := rest } (group nested s) := by
  rw [group, bind_run, advance_run, hs]
  refine Tidy.bind (hn.tidy _) fun expr t _ => ?_
  exact Tidy.bind (tidy_expect (by simp) t) fun _ t _ => tidy_ok _ (Kept.refl t)

theorem tidy_primary (hn : Reader nested) (s : State) : Tidy s (primary nested s) := by
  rcases hs : s.rest with _ | ⟨⟨span, token⟩, rest⟩
  · rw [primary_other nested (by simp [hs])]
    exact tidy_unexpected _ s
  · cases token
    case number v =>
      rw [primary_number nested hs]
      exact tidy_ok _ (kept_advance hs (by simp))
    case blockOpen =>
      rw [primary_block nested hs]
      exact tidy_block hn hs
    case parenOpen =>
      rw [primary_group nested hs]
      exact Tidy.of_kept (kept_advance hs (by simp)) (tidy_group hn hs)
    case ident x =>
      rw [primary_ident nested hs]
      split
      · exact tidy_fail _ s
      · exact Tidy.of_kept (kept_advance hs (by simp)) (tidy_call hn x hs)
    all_goals
      rw [primary_other nested (by simp [hs, startsOperand])]
      exact tidy_unexpected _ s

theorem unexpected_ne_ok {expected : Expectation} {s t : State} {a : α} :
    (unexpected expected : Parser α) s ≠ .ok a t := by
  intro h
  obtain ⟨cause, -, hcause⟩ := unexpected_eq_fail (α := α) expected s
  rw [hcause, fail_run] at h
  cases h

theorem primary_shorter (hn : Reader nested) {s t : State} {tree : Tree}
    (h : primary nested s = .ok tree t) : t.rest.length < s.rest.length := by
  rcases hs : s.rest with _ | ⟨⟨span, token⟩, rest⟩
  · rw [primary_other nested (by simp [hs])] at h
    exact (unexpected_ne_ok h).elim
  · cases token
    case number v =>
      rw [primary_number nested hs] at h
      cases h
      simp
    case blockOpen =>
      rw [primary_block nested hs] at h
      exact hs ▸ block_shorter hn hs h
    case parenOpen =>
      have htidy := tidy_group hn hs
      rw [← primary_group nested hs, h] at htidy
      exact hs ▸ Framed.length_lt hs htidy.kept.rest
    case ident x =>
      have htidy := tidy_call hn x hs
      rw [primary_ident nested hs] at h
      split at h
      · rw [fail_run] at h
        cases h
      · rw [h] at htidy
        exact hs ▸ Framed.length_lt hs htidy.kept.rest
    all_goals
      rw [primary_other nested (by simp [hs, startsOperand])] at h
      exact (unexpected_ne_ok h).elim

/-! ## Expressions -/

theorem tidy_afterOperator (hn : Reader nested) {left : List Lexeme}
    (hloop : ∀ lhs least s, Tidy s (operators nested left lhs least s)) (lhs : Tree) (least : Nat)
    (op : String) (s : State) : Tidy s (afterOperator nested left lhs least op s) := by
  refine Tidy.bind (tidy_primary hn s) fun operand t _ => ?_
  exact Tidy.bind (hloop operand _ t) fun rhs t _ => hloop (.binary op lhs rhs) least t

theorem tidy_operators (hn : Reader nested) (left : List Lexeme) (lhs : Tree) (least : Nat)
    (s : State) : Tidy s (operators nested left lhs least s) := by
  induction left generalizing lhs least s with
  | nil => exact tidy_ok lhs (Kept.refl s)
  | cons y left ih =>
      rcases operators_step nested y left lhs least s with ⟨-, he⟩ | ⟨span, op, rest, hs, -, he⟩
      · rw [he]
        exact tidy_ok lhs (Kept.refl s)
      · rw [he]
        exact Tidy.of_kept (kept_advance hs (by simp)) (tidy_afterOperator hn ih lhs least op _)

theorem reader_expressionAround (hn : Reader nested) : Reader (expressionAround nested) where
  tidy := by
    intro s
    have hprimary := tidy_primary hn s
    rw [expressionAround_run]
    cases h : primary nested s with
    | ok lhs t =>
        rw [h] at hprimary
        exact Tidy.of_kept hprimary.kept (tidy_operators hn t.rest lhs 0 t)
    | error e t =>
        rw [h] at hprimary
        exact hprimary
  shorter := by
    intro s u tree h
    rw [expressionAround_run] at h
    split at h
    · rename_i lhs t hlhs
      have htidy := tidy_operators hn t.rest lhs 0 t
      rw [h] at htidy
      exact Nat.lt_of_le_of_lt htidy.kept.rest.length_le (primary_shorter hn hlhs)
    · cases h

theorem reader_expressionWithin (left : List Lexeme) : Reader (expressionWithin left) := by
  induction left with
  | nil => exact ⟨fun s => tidy_unexpected _ s, fun h => (unexpected_ne_ok h).elim⟩
  | cons y left ih => exact reader_expressionAround ih

/-- Expressions keep the state and make progress. -/
theorem reader_expression : Reader expression where
  tidy := by
    intro s
    rw [expression_run]
    exact (reader_expressionWithin s.rest).tidy s
  shorter := by
    intro s t tree h
    rw [expression_run] at h
    exact (reader_expressionWithin s.rest).shorter h

end Productions

end Lila.Parser
