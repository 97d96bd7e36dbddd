import Lila.Proofs.Parser.Frame

/-! # Agreement of two runs

Two inputs that differ only where no production looks are parsed alike. A
`Pairing` says which inputs these are: as long as the first one lasts they have
the same token in front, at places that correspond, and stay paired behind it;
behind line breaks it is enough that they are paired after all of them, since
only the loop over statements goes past a line break, and it goes past all.

The second input may also go on where the first one ends. The first run is then
cut short: what it finds out at the end of its input binds the second run to
nothing.
-/

namespace Lila.Parser

variable {α β : Type}

def skipLines (lexemes : List Lexeme) : List Lexeme :=
  lexemes.dropWhile fun x => x.token = .newline

theorem skipLines_suffix (lexemes : List Lexeme) : skipLines lexemes <:+ lexemes :=
  List.dropWhile_suffix _

theorem skipLines_cons {x : Lexeme} (hx : x.token = .newline) (rest : List Lexeme) :
    skipLines (x :: rest) = skipLines rest := by
  simp [skipLines, hx]

/-- Pairs of inputs that are read alike. -/
structure Pairing where
  rel : List Lexeme → List Lexeme → Prop
  /-- Corresponding places. -/
  place : Span → Span → Prop
  /-- The second input may go on where the first one ends. -/
  cut : Prop
  cons : ∀ {x xs ys}, rel (x :: xs) ys →
    ∃ y ys', ys = y :: ys' ∧ y.token = x.token ∧ place x.span y.span ∧
      (x.token ≠ .newline → rel xs ys')
  nil : ∀ {ys}, rel [] ys → ys = [] ∨ cut
  lines : ∀ {x xs ys}, rel (x :: xs) ys → x.token = .newline →
    rel (skipLines xs) (skipLines ys) ∨ (cut ∧ skipLines xs = [])

namespace Pairing

/-- States of two runs that are paired in what is left, and else the same. -/
structure Paired (M : Pairing) (s t : State) : Prop where
  rest : M.rel s.rest t.rest
  scopes : t.scopes = s.scopes
  opened : t.opened = s.opened
  depth : t.depth = s.depth
  events : t.events = s.events

/-- Results of two runs: the same, at corresponding places, unless the first run
came to the end of an input that is cut short. -/
inductive Agree (M : Pairing) : EStateM.Result ParseError State α →
    EStateM.Result ParseError State α → Prop
  | ok {s t : State} (a : α) (h : M.Paired s t) : Agree M (.ok a s) (.ok a t)
  | error {s t : State} (cause : ParseError.Cause) {span span' : Span}
      (hspan : M.place span span') (h : M.Paired s t) :
      Agree M (.error ⟨cause, some span⟩ s) (.error ⟨cause, some span'⟩ t)
  | errorAtEnd {s t : State} (cause : ParseError.Cause) (h : M.Paired s t) :
      Agree M (.error ⟨cause, none⟩ s) (.error ⟨cause, none⟩ t)
  | okCut {s : State} (a : α) (hcut : M.cut) (hs : s.rest = [])
      (r : EStateM.Result ParseError State α) : Agree M (.ok a s) r
  | errorCut {s : State} (cause : ParseError.Cause) (hcut : M.cut)
      (r : EStateM.Result ParseError State α) : Agree M (.error ⟨cause, none⟩ s) r

variable {M : Pairing}

theorem Agree.of_end {s : State} {r r' : EStateM.Result ParseError State α} (hcut : M.cut)
    (hs : s.rest = []) (h : Orderly s r) : M.Agree r r' := by
  obtain ⟨hrest, hspan⟩ := h.at_end hs
  cases r with
  | ok a t => exact .okCut a hcut hrest r'
  | error e t =>
      obtain ⟨cause, span⟩ := e
      have hnone : span = none := hspan _ t rfl
      subst hnone
      exact .errorCut cause hcut r'

theorem Agree.bind {p q : Parser α} {f g : α → Parser β} {s t : State}
    (h : M.Agree (p s) (q t))
    (hfg : ∀ a u v, p s = .ok a u → q t = .ok a v → M.Paired u v → M.Agree (f a u) (g a v))
    (hend : ∀ a u, p s = .ok a u → u.rest = [] → Orderly u (f a u)) :
    M.Agree ((p >>= f) s) ((q >>= g) t) := by
  rw [bind_run, bind_run]
  cases hp : p s with
  | ok a u =>
      rw [hp] at h
      generalize hq : q t = r at h
      cases h with
      | ok a h => exact hfg a _ _ hp hq h
      | okCut a hcut hu r => exact .of_end hcut hu (hend a u hp hu)
  | error e u =>
      rw [hp] at h
      generalize q t = r at h
      cases h with
      | error cause hspan h => exact .error cause hspan h
      | errorAtEnd cause h => exact .errorAtEnd cause h
      | errorCut cause hcut r => exact .errorCut cause hcut _

theorem Paired.with_rest {s t : State} (h : M.Paired s t) {xs ys : List Lexeme}
    (hrel : M.rel xs ys) : M.Paired { s with rest := xs } { t with rest := ys } :=
  ⟨hrel, h.scopes, h.opened, h.depth, h.events⟩

/-- The front of two paired inputs. -/
theorem Paired.cons {s t : State} (h : M.Paired s t) {span : Span} {token : Token}
    {xs : List Lexeme} (hs : s.rest = ⟨span, token⟩ :: xs) :
    ∃ span' ys, t.rest = ⟨span', token⟩ :: ys ∧ M.place span span' ∧
      (token ≠ .newline → M.Paired { s with rest := xs } { t with rest := ys }) := by
  have hrel := h.rest
  rw [hs] at hrel
  obtain ⟨⟨span', token'⟩, ys, hys, htoken, hplace, hrel⟩ := M.cons hrel
  subst htoken
  exact ⟨span', ys, hys, hplace, fun hne => h.with_rest (hrel hne)⟩

theorem Paired.nil {s t : State} (h : M.Paired s t) (hs : s.rest = []) : t.rest = [] ∨ M.cut := by
  have hrel := h.rest
  rw [hs] at hrel
  exact M.nil hrel

/-- A run depends on the token in front: it is enough that the two runs agree if
both inputs have ended, and if both have the same token in front. -/
theorem Agree.of_front {s t : State} {r r' : EStateM.Result ParseError State α}
    (h : M.Paired s t) (horderly : Orderly s r)
    (hnil : s.rest = [] → t.rest = [] → M.Agree r r')
    (hcons : ∀ span token xs span' ys, s.rest = ⟨span, token⟩ :: xs →
      t.rest = ⟨span', token⟩ :: ys → M.place span span' →
      (token ≠ .newline → M.Paired { s with rest := xs } { t with rest := ys }) → M.Agree r r') :
    M.Agree r r' := by
  rcases hs : s.rest with _ | ⟨⟨span, token⟩, xs⟩
  · rcases h.nil hs with ht | hcut
    · exact hnil hs ht
    · exact .of_end hcut hs horderly
  · obtain ⟨span', ys, ht, hplace, hpaired⟩ := h.cons hs
    exact hcons span token xs span' ys hs ht hplace hpaired

/-! ## Single tokens -/

theorem agree_fail {s t : State} (h : M.Paired s t) (cause : ParseError.Cause) :
    M.Agree ((fail cause : Parser α) s) ((fail cause : Parser α) t) := by
  refine .of_front h (tidy_fail cause s).orderly ?_ ?_
  · intro hs ht
    simp only [fail_run, hs, ht]
    exact .errorAtEnd cause h
  · intro span token xs span' ys hs ht hplace _
    simp only [fail_run, hs, ht]
    exact .error cause hplace h

theorem agree_unexpected {s t : State} (h : M.Paired s t) (expected : Expectation) :
    M.Agree ((unexpected expected : Parser α) s) ((unexpected expected : Parser α) t) := by
  refine .of_front h (tidy_unexpected expected s).orderly ?_ ?_
  · intro hs ht
    simp only [unexpected_run, hs, ht]
    exact .errorAtEnd _ h
  · intro span token xs span' ys hs ht hplace _
    simp only [unexpected_run, hs, ht]
    exact .error _ hplace h

theorem agree_expect {s t : State} (h : M.Paired s t) {token : Token} (hopen : token ≠ .blockOpen)
    (hline : token ≠ .newline) : M.Agree (expect token s) (expect token t) := by
  refine .of_front h (tidy_expect hopen s).orderly ?_ ?_
  · intro hs ht
    rw [expect_run, expect_run, hs, ht]
    exact agree_unexpected h _
  · intro span found xs span' ys hs ht _ hpaired
    by_cases hfound : found = token
    · subst hfound
      rw [expect_here hs, expect_here ht]
      exact .ok () (hpaired hline)
    · rw [expect_run, expect_run, if_neg (by simp [hs, hfound]), if_neg (by simp [ht, hfound])]
      exact agree_unexpected h _

/-- A new name is either read or refused with its own place, in both runs: there
is nothing behind the name to look at. -/
theorem agree_newName {s t : State} (h : M.Paired s t) (expected : Expectation) :
    M.Agree (newName expected s) (newName expected t) := by
  refine .of_front h (tidy_newName expected s).orderly ?_ ?_
  · intro hs ht
    rw [newName_other expected (by simp [hs]), newName_other expected (by simp [ht])]
    exact agree_unexpected h _
  · intro span token xs span' ys hs ht hplace hpaired
    cases token
    case ident x =>
      have hdefined : t.scopes.isDefinedHere x = s.scopes.isDefinedHere x := by rw [h.scopes]
      rw [newName_ident expected hs, newName_ident expected ht, hdefined]
      split
      · exact .error _ hplace (hpaired (by simp))
      · exact .ok x (hpaired (by simp))
    all_goals
      rw [newName_other expected (by simp [hs]), newName_other expected (by simp [ht])]
      exact agree_unexpected h _

theorem agree_endOfStatement {s t : State} (h : M.Paired s t) (braced : Bool) :
    M.Agree (endOfStatement braced s) (endOfStatement braced t) := by
  refine .of_front h (tidy_endOfStatement braced s).orderly ?_ ?_
  · intro hs ht
    rw [endOfStatement_run, endOfStatement_run, if_pos (.inl hs), if_pos (.inl ht)]
    exact .ok () h
  · intro span token xs span' ys hs ht _ _
    simp only [endOfStatement_run, hs, ht, List.head?_cons, Option.map_some, reduceCtorEq,
      false_or]
    split
    · exact .ok () h
    · exact agree_unexpected h _

theorem agree_define {s t : State} (h : M.Paired s t) (x : String) (params : List String) :
    M.Agree (define x params s) (define x params t) := by
  rw [define_run, define_run, h.scopes, h.events]
  exact .ok () ⟨h.rest, rfl, h.opened, h.depth, rfl⟩

/-! ## Scopes -/

theorem Paired.enter {s t : State} (h : M.Paired s t) (name : String) :
    M.Paired (enter name s) (enter name t) := by
  rw [Parser.enter, Parser.enter, h.scopes, h.events]
  exact ⟨h.rest, rfl, h.opened, h.depth, rfl⟩

theorem Paired.leave {s t : State} (h : M.Paired s t) : M.Paired (leave s) (leave t) := by
  rw [Parser.leave, Parser.leave, h.scopes, h.events]
  exact ⟨h.rest, rfl, h.opened, h.depth, rfl⟩

theorem agree_inScope {s t : State} {name : String} {p q : Parser α}
    (h : M.Agree (p (enter name s)) (q (enter name t))) :
    M.Agree (inScope name p s) (inScope name q t) := by
  unfold inScope
  cases hp : p (enter name s) with
  | ok a u =>
      rw [hp] at h
      generalize q (enter name t) = r at h
      cases h with
      | ok a h => exact .ok a h.leave
      | okCut a hcut hu r => exact .okCut (s := leave u) a hcut hu _
  | error e u =>
      rw [hp] at h
      generalize q (enter name t) = r at h
      cases h with
      | error cause hspan h => exact .error cause hspan h.leave
      | errorAtEnd cause h => exact .errorAtEnd cause h.leave
      | errorCut cause hcut r => exact .errorCut cause hcut _

/-- Agreement of runs of which the first is not cut short where it succeeds. -/
inductive Exact (M : Pairing) : EStateM.Result ParseError State α →
    EStateM.Result ParseError State α → Prop
  | ok {s t : State} (a : α) (h : M.Paired s t) : Exact M (.ok a s) (.ok a t)
  | error {s : State} {e : ParseError} {r : EStateM.Result ParseError State α}
      (h : M.Agree (.error e s) r) : Exact M (.error e s) r

theorem exact_inScope {s t : State} {name : String} {p q : Parser α}
    (h : M.Exact (p (enter name s)) (q (enter name t))) :
    M.Exact (inScope name p s) (inScope name q t) := by
  cases hp : p (enter name s) with
  | ok a u =>
      unfold inScope
      rw [hp] at h ⊢
      generalize q (enter name t) = r at h
      cases h with
      | ok a h => exact .ok a h.leave
  | error e u =>
      have hagree : M.Agree (p (enter name s)) (q (enter name t)) := by
        rw [hp] at h ⊢
        generalize q (enter name t) = r at h
        cases h with
        | error h => exact h
      have hscope := agree_inScope hagree
      have herror : inScope name p s = .error e (leave u) := by simp [inScope, hp]
      rw [herror] at hscope ⊢
      exact .error hscope

/-! ## Bindings -/

theorem agree_missingParameter {s t : State} (h : M.Paired s t)
    (horderly : Orderly s (missingParameter s)) :
    M.Agree (missingParameter s) (missingParameter t) := by
  refine .of_front h horderly ?_ ?_
  · intro hs ht
    simp only [missingParameter, bind_run, current_run, hs, ht]
    exact agree_unexpected h _
  · intro span token xs span' ys hs ht _ _
    simp only [missingParameter, bind_run, current_run, hs, ht]
    cases token <;> first | exact agree_fail h _ | exact agree_unexpected h _

theorem agree_afterParameter {left left' : List Lexeme}
    (hlist : ∀ seen {s t : State}, M.Paired s t → s.rest.length ≤ left.length →
      t.rest.length ≤ left'.length →
      M.Agree (parameterList left seen s) (parameterList left' seen t))
    (params : List String) {s t : State} (h : M.Paired s t) (hleft : s.rest.length ≤ left.length)
    (hleft' : t.rest.length ≤ left'.length) :
    M.Agree (afterParameter left params s) (afterParameter left' params t) := by
  have horderly := (tidy_afterParameter (tidy_parameterList left) params s).orderly
  refine .of_front h horderly ?_ ?_
  · intro hs ht
    simp only [afterParameter, bind_run, current_run, hs, ht]
    exact agree_unexpected h _
  · intro span token xs span' ys hs ht _ hpaired
    simp only [hs, ht, List.length_cons] at hleft hleft'
    cases token
    case comma =>
      rw [afterParameter_comma left params hs, afterParameter_comma left' params ht]
      exact hlist params (hpaired (by simp)) (Nat.le_of_succ_le hleft) (Nat.le_of_succ_le hleft')
    case parenClose =>
      rw [afterParameter_close left params hs, afterParameter_close left' params ht]
      exact .ok params (hpaired (by simp))
    all_goals
      simp only [afterParameter, bind_run, current_run, hs, ht]
      first | exact agree_fail h _ | exact agree_unexpected h _

theorem agree_parameterList {left left' : List Lexeme} (seen : List String) {s t : State}
    (h : M.Paired s t) (hleft : s.rest.length ≤ left.length)
    (hleft' : t.rest.length ≤ left'.length) :
    M.Agree (parameterList left seen s) (parameterList left' seen t) := by
  induction left generalizing left' seen s t with
  | nil =>
      have hs : s.rest = [] := List.eq_nil_of_length_eq_zero (Nat.le_zero.1 hleft)
      have horderly := (tidy_parameterList [] seen s).orderly
      refine .of_front h horderly ?_ (fun _ _ _ _ _ hxs => by simp [hs] at hxs)
      intro _ ht
      rw [parameterList_other [] seen (by simp [hs]) hleft] at horderly ⊢
      rw [parameterList_other left' seen (by simp [ht]) hleft']
      exact agree_missingParameter h horderly
  | cons y left ih =>
      have horderly := (tidy_parameterList (y :: left) seen s).orderly
      refine .of_front h horderly ?_ ?_
      · intro hs ht
        rw [parameterList_other _ seen (by simp [hs]) hleft] at horderly ⊢
        rw [parameterList_other left' seen (by simp [ht]) hleft']
        exact agree_missingParameter h horderly
      · intro span token xs span' ys hs ht _ hpaired
        cases token
        case ident param =>
          rcases left' with _ | ⟨y', left'⟩
          · simp [ht] at hleft'
          simp only [hs, ht, List.length_cons, Nat.add_le_add_iff_right] at hleft hleft'
          rw [parameterList_ident y left seen hs, parameterList_ident y' left' seen ht]
          split
          · exact agree_fail h _
          · exact agree_afterParameter (fun seen _ _ h => ih seen h) _ (hpaired (by simp))
              hleft hleft'
        all_goals
          rw [parameterList_other _ seen (by simp [hs]) hleft] at horderly ⊢
          rw [parameterList_other left' seen (by simp [ht]) hleft']
          exact agree_missingParameter h horderly

theorem agree_parameters {s t : State} (h : M.Paired s t) :
    M.Agree (parameters s) (parameters t) := by
  refine .of_front h (tidy_parameters s).orderly ?_ ?_
  · intro hs ht
    rw [parameters_other (by simp [hs]), parameters_other (by simp [ht])]
    exact .ok [] h
  · intro span token xs span' ys hs ht _ hpaired
    by_cases htoken : token = .parenOpen
    · subst htoken
      rw [parameters_open hs, parameters_open ht]
      exact agree_parameterList [] (hpaired (by simp)) (Nat.le_refl _) (Nat.le_refl _)
    · rw [parameters_other (by simp [hs, htoken]), parameters_other (by simp [ht, htoken])]
      exact .ok [] h

theorem agree_defineAll (params : List String) {s t : State} (h : M.Paired s t) :
    M.Agree ((params.forM fun param => define param []) s)
      ((params.forM fun param => define param []) t) := by
  induction params generalizing s t with
  | nil => exact .ok () h
  | cons param params ih =>
      exact Agree.bind (agree_define h param []) (fun _ u v _ _ huv => ih huv)
        fun _ u _ _ => orderly_defineAll params u

/-- The parsers of the expressions inside a production, for two runs. They agree
on inputs that are not too long. -/
structure Nested (M : Pairing) (n m : Nat) (nested nested' : Parser Tree) : Prop where
  first : Reader nested
  second : Reader nested'
  agree : ∀ {s t : State}, M.Paired s t → s.rest.length ≤ n → t.rest.length ≤ m →
    M.Agree (nested s) (nested' t)

section Productions

variable {nested nested' : Parser Tree} {n m : Nat}

/-- A run leaves no more tokens than there were. -/
theorem length_le_of_ok {s t : State} {r : EStateM.Result ParseError State α} {a : α}
    (h : Orderly s r) (hr : r = .ok a t) {n : Nat} (hn : s.rest.length ≤ n) :
    t.rest.length ≤ n := by
  subst hr
  exact Nat.le_trans h.framed.rest.length_le hn

theorem agree_afterVal (hn : M.Nested n m nested nested') {s t : State} (h : M.Paired s t)
    (hsn : s.rest.length ≤ n) (htm : t.rest.length ≤ m) :
    M.Agree (afterVal nested s) (afterVal nested' t) := by
  have hdefine : ∀ x expr u, Orderly u ((do
      define x []
      return .value x expr : Parser Tree) u) := fun x expr u =>
    Orderly.bind (orderly_define x [] u) fun _ v _ => orderly_ok _ (Framed.refl v)
  have hnested : ∀ x u, Orderly u ((do
      let expr ← nested
      define x []
      return .value x expr : Parser Tree) u) := fun x u =>
    Orderly.bind (hn.first.tidy u).orderly fun expr v _ => hdefine x expr v
  refine Agree.bind (agree_newName h _) ?_ ?_
  · intro x u v hu hv huv
    have hun := length_le_of_ok (tidy_newName _ s).orderly hu hsn
    have hvm := length_le_of_ok (tidy_newName _ t).orderly hv htm
    refine Agree.bind (agree_expect huv (by simp) (by simp)) ?_ (fun _ u _ _ => hnested x u)
    intro _ u' v' hu' hv' huv'
    have hun' := length_le_of_ok (tidy_expect (by simp) u).orderly hu' hun
    have hvm' := length_le_of_ok (tidy_expect (by simp) v).orderly hv' hvm
    refine Agree.bind (hn.agree huv' hun' hvm') ?_ (fun expr u _ _ => hdefine x expr u)
    intro expr u v _ _ huv
    exact Agree.bind (agree_define huv x []) (fun _ _ _ _ _ huv => .ok _ huv)
      fun _ u _ _ => orderly_ok _ (Framed.refl u)
  · intro x u _ _
    exact Orderly.bind (tidy_expect (by simp) u).orderly fun _ v _ => hnested x v

theorem agree_definitionInside (hn : M.Nested n m nested nested') {s t : State}
    (h : M.Paired s t) (hsn : s.rest.length ≤ n) (htm : t.rest.length ≤ m) :
    M.Agree (definitionInside nested s) (definitionInside nested' t) := by
  have hnested : ∀ params u, Orderly u ((do
      return (params, ← nested) : Parser (List String × Tree)) u) := fun params u =>
    Orderly.bind (hn.first.tidy u).orderly fun _ v _ => orderly_ok _ (Framed.refl v)
  have hassign : ∀ params u, Orderly u ((do
      expect .assign
      return (params, ← nested) : Parser (List String × Tree)) u) := fun params u =>
    Orderly.bind (tidy_expect (by simp) u).orderly fun _ v _ => hnested params v
  refine Agree.bind (agree_parameters h) ?_ ?_
  · intro params u v hu hv huv
    have hun := length_le_of_ok (tidy_parameters s).orderly hu hsn
    have hvm := length_le_of_ok (tidy_parameters t).orderly hv htm
    refine Agree.bind (agree_defineAll params huv) ?_ (fun _ u _ _ => hassign params u)
    intro _ u' v' hu' hv' huv'
    have hun' := length_le_of_ok (orderly_defineAll params u) hu' hun
    have hvm' := length_le_of_ok (orderly_defineAll params v) hv' hvm
    refine Agree.bind (agree_expect huv' (by simp) (by simp)) ?_ (fun _ u _ _ => hnested params u)
    intro _ u v hu hv huv
    have hun := length_le_of_ok (tidy_expect (by simp) u').orderly hu hun'
    have hvm := length_le_of_ok (tidy_expect (by simp) v').orderly hv hvm'
    exact Agree.bind (hn.agree huv hun hvm) (fun _ _ _ _ _ huv => .ok _ huv)
      fun _ u _ _ => orderly_ok _ (Framed.refl u)
  · intro params u _ _
    exact Orderly.bind (orderly_defineAll params u) fun _ v _ => hassign params v

theorem agree_afterDef (hn : M.Nested n m nested nested') {s t : State} (h : M.Paired s t)
    (hsn : s.rest.length ≤ n) (htm : t.rest.length ≤ m) :
    M.Agree (afterDef nested s) (afterDef nested' t) := by
  have hdefine : ∀ x (inside : List String × Tree) u, Orderly u ((do
      define x inside.1
      return .definition x inside.1 inside.2 : Parser Tree) u) := fun x inside u =>
    Orderly.bind (orderly_define x _ u) fun _ v _ => orderly_ok _ (Framed.refl v)
  refine Agree.bind (agree_newName h _) ?_ ?_
  · intro x u v hu hv huv
    have hun := length_le_of_ok (tidy_newName _ s).orderly hu hsn
    have hvm := length_le_of_ok (tidy_newName _ t).orderly hv htm
    have hscope := agree_inScope (agree_definitionInside hn (huv.enter x) hun hvm)
    refine Agree.bind hscope ?_ (fun inside u _ _ => hdefine x inside u)
    intro inside u v _ _ huv
    exact Agree.bind (agree_define huv x inside.1) (fun _ _ _ _ _ huv => .ok _ huv)
      fun _ u _ _ => orderly_ok _ (Framed.refl u)
  · intro x u _ _
    have hscope := tidy_inScope (orderly_definitionInside hn.first (Parser.enter x u))
    exact Orderly.bind hscope.orderly fun inside v _ => hdefine x inside v

/-! ## Statements -/

theorem agree_statement (hn : M.Nested n m nested nested') {s t : State} (h : M.Paired s t)
    (hsn : s.rest.length ≤ n) (htm : t.rest.length ≤ m) :
    M.Agree (statement nested s) (statement nested' t) := by
  refine .of_front h (orderly_statement hn.first s) ?_ ?_
  · intro hs ht
    rw [statement_expression nested (by simp [hs]) (by simp [hs]),
      statement_expression nested' (by simp [ht]) (by simp [ht])]
    exact hn.agree h hsn htm
  · intro span token xs span' ys hs ht _ hpaired
    have hxs : xs.length ≤ n := Nat.le_of_succ_le (by simpa [hs] using hsn)
    have hys : ys.length ≤ m := Nat.le_of_succ_le (by simpa [ht] using htm)
    cases token
    case kwDef =>
      rw [statement_definition nested hs, statement_definition nested' ht]
      exact agree_afterDef hn (hpaired (by simp)) hxs hys
    case kwVal =>
      rw [statement_value nested hs, statement_value nested' ht]
      exact agree_afterVal hn (hpaired (by simp)) hxs hys
    all_goals
      rw [statement_expression nested (by simp [hs]) (by simp [hs]),
        statement_expression nested' (by simp [ht]) (by simp [ht])]
      exact hn.agree h hsn htm

/-- The loop over statements goes past all line breaks in front. -/
theorem statements_skipLines (nested : Parser Tree) (braced : Bool) (left : List Lexeme)
    (s : State) (hleft : s.rest.length ≤ left.length) :
    ∃ left', left'.length ≤ left.length ∧ (skipLines s.rest).length ≤ left'.length ∧
      statements nested braced left s =
        statements nested braced left' { s with rest := skipLines s.rest } := by
  induction left generalizing s with
  | nil =>
      have hs : s.rest = [] := List.eq_nil_of_length_eq_zero (Nat.le_zero.1 hleft)
      have hskip : skipLines s.rest = s.rest := by simp [hs, skipLines]
      exact ⟨[], Nat.le_refl _, by rwa [hskip], by rw [hskip]⟩
  | cons y left ih =>
      by_cases hhead : s.rest.head?.map Lexeme.token = some .newline
      · obtain ⟨span, rest, hs⟩ := exists_of_head hhead
        simp only [hs, List.length_cons, Nat.add_le_add_iff_right] at hleft
        obtain ⟨left', hle, hskip, heq⟩ := ih { s with rest := rest } hleft
        refine ⟨left', Nat.le_succ_of_le hle, ?_, ?_⟩
        · rwa [hs, skipLines_cons rfl]
        · rw [statements_newline nested braced y left hs, heq, hs, skipLines_cons rfl]
      · have hskip : skipLines s.rest = s.rest := by
          cases hs : s.rest with
          | nil => rfl
          | cons x rest =>
              have hx : x.token ≠ .newline := by simpa [hs] using hhead
              simp [skipLines, hx]
        exact ⟨y :: left, Nat.le_refl _, by rwa [hskip], by rw [hskip]⟩

theorem agree_endOfInput {s t : State} (h : M.Paired s t) (braced : Bool) :
    M.Agree (endOfInput braced s) (endOfInput braced t) := by
  cases braced
  · exact .ok [] h
  · exact agree_unexpected h _

theorem agree_firstStatement (hn : M.Nested n m nested nested') {braced : Bool}
    {left left' : List Lexeme}
    (hloop : ∀ {s t : State}, M.Paired s t → s.rest.length ≤ left.length →
      t.rest.length ≤ left'.length → s.rest.length ≤ n → t.rest.length ≤ m →
      M.Agree (statements nested braced left s) (statements nested' braced left' t))
    {s t : State} (h : M.Paired s t) (hleft : s.rest.length ≤ left.length + 1)
    (hleft' : t.rest.length ≤ left'.length + 1) (hsn : s.rest.length ≤ n)
    (htm : t.rest.length ≤ m) :
    M.Agree (firstStatement nested braced left s) (firstStatement nested' braced left' t) := by
  have hmore : ∀ first u, Orderly u ((do
      return first :: (← statements nested braced left) : Parser (List Tree)) u) := fun first u =>
    Orderly.bind (orderly_statements hn.first braced left u) fun _ v _ =>
      orderly_ok _ (Framed.refl v)
  refine Agree.bind (agree_statement hn h hsn htm) ?_ ?_
  · intro first u v hu hv huv
    have hult := statement_shorter hn.first hu
    have hvlt := statement_shorter hn.second hv
    refine Agree.bind (agree_endOfStatement huv braced) ?_ (fun _ u _ _ => hmore first u)
    intro _ u' v' hu' hv' huv'
    have hule := length_le_of_ok (tidy_endOfStatement braced u).orderly hu' (Nat.le_refl _)
    have hvle := length_le_of_ok (tidy_endOfStatement braced v).orderly hv' (Nat.le_refl _)
    refine Agree.bind (hloop huv' (by omega) (by omega) (by omega) (by omega))
      (fun _ _ _ _ _ huv => .ok _ huv) fun _ u _ _ => orderly_ok _ (Framed.refl u)
  · intro first u _ _
    exact Orderly.bind (tidy_endOfStatement braced u).orderly fun _ v _ => hmore first v

/-- The induction is on a bound for the turns of the first loop, since several
turns go into one run of line breaks. -/
theorem agree_statements (hn : M.Nested n m nested nested') (braced : Bool)
    {left left' : List Lexeme} {s t : State} (h : M.Paired s t)
    (hleft : s.rest.length ≤ left.length) (hleft' : t.rest.length ≤ left'.length)
    (hsn : s.rest.length ≤ n) (htm : t.rest.length ≤ m) :
    M.Agree (statements nested braced left s) (statements nested' braced left' t) := by
  induction hk : left.length using Nat.strongRecOn generalizing left left' s t with
  | ind k ih =>
      have horderly := orderly_statements hn.first braced left s
      refine .of_front h horderly ?_ ?_
      · intro hs ht
        rw [statements_end nested braced left hs, statements_end nested' braced left' ht]
        exact agree_endOfInput h braced
      · intro span token xs span' ys hs ht _ hpaired
        rcases left with _ | ⟨y, left⟩
        · simp [hs] at hleft
        rcases left' with _ | ⟨y', left'⟩
        · simp [ht] at hleft'
        simp only [List.length_cons] at hleft hleft' hk
        by_cases hline : token = .newline
        · subst hline
          simp only [hs, ht, List.length_cons, Nat.add_le_add_iff_right] at hleft hleft' hsn htm
          rw [statements_newline nested braced y left hs,
            statements_newline nested' braced y' left' ht] at *
          obtain ⟨l, hl, hskip, heq⟩ :=
            statements_skipLines nested braced left { s with rest := xs } hleft
          obtain ⟨l', hl', hskip', heq'⟩ :=
            statements_skipLines nested' braced left' { t with rest := ys } hleft'
          have hxs := (skipLines_suffix xs).length_le
          have hys := (skipLines_suffix ys).length_le
          have hrel := h.rest
          rw [hs, ht] at hrel
          rw [heq, heq']
          rcases M.lines hrel rfl with hrel | ⟨hcut, hnil⟩
          · rw [skipLines_cons rfl] at hrel
            exact ih l.length (by omega) (h.with_rest hrel) hskip hskip' (by simp; omega)
              (by simp; omega) rfl
          · exact .of_end hcut (s := { s with rest := skipLines xs }) hnil
              (orderly_statements hn.first braced l _)
        · by_cases hclose : braced = true ∧ token = .blockClose
          · obtain ⟨rfl, rfl⟩ := hclose
            rw [statements_close nested y left hs, statements_close nested' y' left' ht]
            exact .ok [] h
          · have hclose' : braced = true → token ≠ .blockClose := fun hb ht => hclose ⟨hb, ht⟩
            rw [statements_first nested braced y left hs hline hclose',
              statements_first nested' braced y' left' ht hline hclose']
            refine agree_firstStatement hn ?_ h hleft hleft' hsn htm
            intro u v huv hul hvl hun hvm
            exact ih left.length (by omega) huv hul hvl hun hvm rfl

/-! ## Operands -/

/-- The inside of a block ends behind its closing brace in both runs, also where
the first input ends there. -/
theorem exact_blockInside (hn : M.Nested n m nested nested') {s t : State} (h : M.Paired s t)
    (hsn : s.rest.length ≤ n) (htm : t.rest.length ≤ m) :
    M.Exact (blockInside nested s) (blockInside nested' t) := by
  have hbody := agree_statements hn true h (Nat.le_refl _) (Nat.le_refl _) hsn htm
  rw [blockInside_run, blockInside_run]
  cases hs : statements nested true s.rest s with
  | ok body u =>
      obtain ⟨span, rest, hu⟩ := statements_closed hs
      rw [hs] at hbody
      generalize statements nested' true t.rest t = r at hbody
      cases hbody with
      | ok body huv =>
          rename_i v
          obtain ⟨span', rest', hv, -, hpaired⟩ := huv.cons hu
          have hnext := hpaired (by simp)
          simp only [hu, hv, List.tail_cons]
          exact .ok body hnext
      | okCut body hcut hnil r => simp [hu] at hnil
  | error e u =>
      rw [hs] at hbody
      generalize statements nested' true t.rest t = r at hbody
      exact .error (by cases hbody <;> constructor <;> assumption)

theorem agree_block (hn : M.Nested n m nested nested') {s t : State} {span span' : Span}
    {xs ys : List Lexeme} (h : M.Paired s t) (hs : s.rest = ⟨span, .blockOpen⟩ :: xs)
    (ht : t.rest = ⟨span', .blockOpen⟩ :: ys) (hplace : M.place span span')
    (hpaired : M.Paired { s with rest := xs } { t with rest := ys }) (hxs : xs.length ≤ n)
    (hys : ys.length ≤ m) : M.Agree (block nested span s) (block nested' span' t) := by
  rw [block_run nested span hs, block_run nested' span' ht, h.opened, h.depth]
  have hstart : M.Paired { s with rest := xs, opened := s.opened + 1, depth := s.depth + 1 }
      { t with rest := ys, opened := s.opened + 1, depth := s.depth + 1 } :=
    ⟨hpaired.rest, h.scopes, rfl, rfl, h.events⟩
  have hdepth : ∀ {u v : State}, M.Paired u v →
      M.Paired { u with depth := u.depth - 1 } { v with depth := v.depth - 1 } := fun huv =>
    ⟨huv.rest, huv.scopes, huv.opened, by rw [huv.depth], huv.events⟩
  have hscope := exact_inScope (exact_blockInside hn (hstart.enter ("anon" ++ toString s.opened))
    hxs hys)
  revert hscope
  generalize inScope _ (blockInside nested) _ = r
  generalize inScope _ (blockInside nested') _ = r'
  intro hscope
  cases hscope with
  | ok body huv =>
      dsimp only
      cases blockOf (s.depth + 1) body with
      | ok tree => exact .ok tree (hdepth huv)
      | error cause => exact .error cause hplace (hdepth huv)
  | error hagree =>
      cases hagree with
      | error cause hspan huv => exact .error cause hspan (hdepth huv)
      | errorAtEnd cause huv => exact .errorAtEnd cause (hdepth huv)
      | errorCut cause hcut r => exact .errorCut cause hcut _

theorem agree_afterArgument (hn : Reader nested) {left left' : List Lexeme}
    (hlist : ∀ {s t : State}, M.Paired s t → s.rest.length ≤ left.length →
      t.rest.length ≤ left'.length → s.rest.length ≤ n → t.rest.length ≤ m →
      M.Agree (argumentList nested left s) (argumentList nested' left' t))
    (first : Tree) {s t : State} (h : M.Paired s t) (hleft : s.rest.length ≤ left.length)
    (hleft' : t.rest.length ≤ left'.length) (hsn : s.rest.length ≤ n) (htm : t.rest.length ≤ m) :
    M.Agree (afterArgument nested left first s) (afterArgument nested' left' first t) := by
  have horderly := (tidy_afterArgument (tidy_argumentList hn left) first s).orderly
  refine .of_front h horderly ?_ ?_
  · intro hs ht
    simp only [afterArgument, bind_run, current_run, hs, ht]
    exact agree_unexpected h _
  · intro span token xs span' ys hs ht _ hpaired
    simp only [hs, ht, List.length_cons] at hleft hleft' hsn htm
    cases token
    case comma =>
      rw [afterArgument_comma nested left first hs, afterArgument_comma nested' left' first ht]
      refine Agree.bind ?_ (fun _ _ _ _ _ huv => .ok _ huv)
        fun _ u _ _ => orderly_ok _ (Framed.refl u)
      exact hlist (hpaired (by simp)) (Nat.le_of_succ_le hleft) (Nat.le_of_succ_le hleft')
        (Nat.le_of_succ_le hsn) (Nat.le_of_succ_le htm)
    case parenClose =>
      rw [afterArgument_close nested left first hs, afterArgument_close nested' left' first ht]
      exact .ok [first] (hpaired (by simp))
    all_goals
      simp only [afterArgument, bind_run, current_run, hs, ht]
      first | exact agree_fail h _ | exact agree_unexpected h _

theorem agree_argumentList (hn : M.Nested n m nested nested') {left left' : List Lexeme}
    {s t : State} (h : M.Paired s t) (hleft : s.rest.length ≤ left.length)
    (hleft' : t.rest.length ≤ left'.length) (hsn : s.rest.length ≤ n) (htm : t.rest.length ≤ m) :
    M.Agree (argumentList nested left s) (argumentList nested' left' t) := by
  induction left generalizing left' s t with
  | nil =>
      have hs : s.rest = [] := List.eq_nil_of_length_eq_zero (Nat.le_zero.1 hleft)
      refine .of_front h (tidy_argumentList hn.first [] s).orderly ?_
        (fun _ _ _ _ _ hxs => by simp [hs] at hxs)
      intro _ ht
      rw [argumentList_end nested _ hs, argumentList_end nested' _ ht]
      exact agree_unexpected h _
  | cons y left ih =>
      refine .of_front h (tidy_argumentList hn.first (y :: left) s).orderly ?_ ?_
      · intro hs ht
        rw [argumentList_end nested _ hs, argumentList_end nested' _ ht]
        exact agree_unexpected h _
      · intro span token xs span' ys hs ht _ hpaired
        rcases left' with _ | ⟨y', left'⟩
        · simp [ht] at hleft'
        simp only [List.length_cons] at hleft hleft'
        by_cases hx : token = .parenClose ∨ token = .comma
        · rw [argumentList_missing nested y left hs hx, argumentList_missing nested' y' left' ht hx]
          exact agree_fail h _
        · have hclose : token ≠ .parenClose := fun he => hx (.inl he)
          have hcomma : token ≠ .comma := fun he => hx (.inr he)
          rw [argumentList_first nested y left hs hclose hcomma,
            argumentList_first nested' y' left' ht hclose hcomma]
          refine Agree.bind (hn.agree h hsn htm) ?_ ?_
          · intro first u v hu hv huv
            have hult := hn.first.shorter hu
            have hvlt := hn.second.shorter hv
            exact agree_afterArgument hn.first ih first huv (by omega) (by omega) (by omega)
              (by omega)
          · intro first u _ _
            exact (tidy_afterArgument (tidy_argumentList hn.first left) first u).orderly

theorem agree_call (hn : M.Nested n m nested nested') (x : String) {s t : State}
    {span span' : Span} {xs ys : List Lexeme} (hs : s.rest = ⟨span, .ident x⟩ :: xs)
    (ht : t.rest = ⟨span', .ident x⟩ :: ys)
    (h : M.Paired { s with rest := xs } { t with rest := ys }) (hxs : xs.length ≤ n)
    (hys : ys.length ≤ m) : M.Agree (call nested x s) (call nested' x t) := by
  refine .of_front h (tidy_call hn.first x hs).orderly ?_ ?_
  · intro hxs hys
    dsimp only at hxs hys
    subst hxs hys
    rw [call_plain nested x hs (by simp), call_plain nested' x ht (by simp)]
    exact .ok _ h
  · intro span token xs' span' ys' hxs' hys' _ hpaired
    dsimp only at hxs' hys'
    subst hxs' hys'
    by_cases htoken : token = .parenOpen
    · subst htoken
      simp only [List.length_cons] at hxs hys
      have hargs := agree_argumentList hn (hpaired (by simp)) (Nat.le_refl _) (Nat.le_refl _)
        (Nat.le_of_succ_le hxs) (Nat.le_of_succ_le hys)
      rw [call_open nested x hs, call_open nested' x ht]
      revert hargs
      generalize argumentList nested _ _ = r
      generalize argumentList nested' _ _ = r'
      intro hargs
      cases hargs with
      | ok args huv => exact .ok _ huv
      | error cause hspan huv => exact .error cause hspan huv
      | errorAtEnd cause huv => exact .errorAtEnd cause huv
      | okCut args hcut hnil r => exact .okCut _ hcut hnil _
      | errorCut cause hcut r => exact .errorCut cause hcut _
    · rw [call_plain nested x hs (by simpa using htoken),
        call_plain nested' x ht (by simpa using htoken)]
      exact .ok _ h

theorem agree_group (hn : M.Nested n m nested nested') {s t : State} {x y : Lexeme}
    {xs ys : List Lexeme} (hs : s.rest = x :: xs) (ht : t.rest = y :: ys)
    (h : M.Paired { s with rest := xs } { t with rest := ys }) (hxs : xs.length ≤ n)
    (hys : ys.length ≤ m) : M.Agree (group nested s) (group nested' t) := by
  rw [group, group, bind_run, bind_run, advance_run, advance_run, hs, ht]
  refine Agree.bind (hn.agree h hxs hys) ?_ ?_
  · intro expr u v _ _ huv
    exact Agree.bind (agree_expect huv (by simp) (by simp)) (fun _ _ _ _ _ huv => .ok _ huv)
      fun _ u _ _ => orderly_ok _ (Framed.refl u)
  · intro expr u _ _
    exact Orderly.bind (tidy_expect (by simp) u).orderly fun _ v _ => orderly_ok _ (Framed.refl v)

theorem agree_primary (hn : M.Nested n m nested nested') {s t : State} (h : M.Paired s t)
    (hsn : s.rest.length ≤ n + 1) (htm : t.rest.length ≤ m + 1) :
    M.Agree (primary nested s) (primary nested' t) := by
  refine .of_front h (tidy_primary hn.first s).orderly ?_ ?_
  · intro hs ht
    rw [primary_other nested (by simp [hs]), primary_other nested' (by simp [ht])]
    exact agree_unexpected h _
  · intro span token xs span' ys hs ht hplace hpaired
    simp only [hs, ht, List.length_cons, Nat.add_le_add_iff_right] at hsn htm
    cases token
    case number v =>
      rw [primary_number nested hs, primary_number nested' ht]
      exact .ok _ (hpaired (by simp))
    case blockOpen =>
      rw [primary_block nested hs, primary_block nested' ht]
      exact agree_block hn h hs ht hplace (hpaired (by simp)) hsn htm
    case parenOpen =>
      rw [primary_group nested hs, primary_group nested' ht]
      exact agree_group hn hs ht (hpaired (by simp)) hsn htm
    case ident x =>
      rw [primary_ident nested hs, primary_ident nested' ht, h.scopes]
      split
      · exact agree_fail h _
      · exact agree_call hn x hs ht (hpaired (by simp)) hsn htm
    all_goals
      rw [primary_other nested (by simp [hs, startsOperand]),
        primary_other nested' (by simp [ht, startsOperand])]
      exact agree_unexpected h _

/-! ## Expressions -/

theorem agree_afterOperator (hn : M.Nested n m nested nested') {left left' : List Lexeme}
    (hloop : ∀ lhs least {s t : State}, M.Paired s t → s.rest.length ≤ left.length →
      t.rest.length ≤ left'.length → s.rest.length ≤ n + 1 → t.rest.length ≤ m + 1 →
      M.Agree (operators nested left lhs least s) (operators nested' left' lhs least t))
    (lhs : Tree) (least : Nat) (op : String) {s t : State} (h : M.Paired s t)
    (hleft : s.rest.length ≤ left.length) (hleft' : t.rest.length ≤ left'.length)
    (hsn : s.rest.length ≤ n + 1) (htm : t.rest.length ≤ m + 1) :
    M.Agree (afterOperator nested left lhs least op s)
      (afterOperator nested' left' lhs least op t) := by
  refine Agree.bind (agree_primary hn h hsn htm) ?_ ?_
  · intro operand u v hu hv huv
    have hun := length_le_of_ok (tidy_primary hn.first s).orderly hu (Nat.le_refl _)
    have hvm := length_le_of_ok (tidy_primary hn.second t).orderly hv (Nat.le_refl _)
    refine Agree.bind (hloop operand _ huv (by omega) (by omega) (by omega) (by omega)) ?_
      (fun rhs w _ _ => (tidy_operators hn.first left _ least w).orderly)
    intro rhs w z hw hz hwz
    have hwn := length_le_of_ok (tidy_operators hn.first left operand _ u).orderly hw
      (Nat.le_refl _)
    have hzm := length_le_of_ok (tidy_operators hn.second left' operand _ v).orderly hz
      (Nat.le_refl _)
    exact hloop _ least hwz (by omega) (by omega) (by omega) (by omega)
  · intro operand u _ _
    exact Orderly.bind (tidy_operators hn.first left operand _ u).orderly fun rhs v _ =>
      (tidy_operators hn.first left _ least v).orderly

theorem agree_operators (hn : M.Nested n m nested nested') {left left' : List Lexeme}
    (lhs : Tree) (least : Nat) {s t : State} (h : M.Paired s t)
    (hleft : s.rest.length ≤ left.length) (hleft' : t.rest.length ≤ left'.length)
    (hsn : s.rest.length ≤ n + 1) (htm : t.rest.length ≤ m + 1) :
    M.Agree (operators nested left lhs least s) (operators nested' left' lhs least t) := by
  induction left generalizing left' lhs least s t with
  | nil =>
      have hs : s.rest = [] := List.eq_nil_of_length_eq_zero (Nat.le_zero.1 hleft)
      refine .of_front h (tidy_operators hn.first [] lhs least s).orderly ?_
        (fun _ _ _ _ _ hxs => by simp [hs] at hxs)
      intro _ ht
      rw [operators_stop nested' left' lhs (stops_of_nil least ht)]
      exact .ok lhs h
  | cons y left ih =>
      refine .of_front h (tidy_operators hn.first _ lhs least s).orderly ?_ ?_
      · intro hs ht
        rw [operators_stop nested _ lhs (stops_of_nil least hs),
          operators_stop nested' left' lhs (stops_of_nil least ht)]
        exact .ok lhs h
      · intro span token xs span' ys hs ht _ hpaired
        rcases left' with _ | ⟨y', left'⟩
        · simp [ht] at hleft'
        simp only [hs, ht, List.length_cons, Nat.add_le_add_iff_right] at hleft hleft' hsn htm
        by_cases hop : ∃ op, token = .binop op ∧ least ≤ precedence op
        · obtain ⟨op, rfl, hop⟩ := hop
          rw [operators_take nested y left lhs least hs hop,
            operators_take nested' y' left' lhs least ht hop]
          exact agree_afterOperator hn (fun lhs least _ _ h => ih lhs least h) lhs least op
            (hpaired (by simp)) hleft hleft' (Nat.le_succ_of_le hsn) (Nat.le_succ_of_le htm)
        · have hstop : ∀ op, token = .binop op → precedence op < least := fun op he =>
            Nat.lt_of_not_le fun hle => hop ⟨op, he, hle⟩
          rw [operators_stop nested _ lhs (stops_of_cons hs hstop),
            operators_stop nested' _ lhs (stops_of_cons ht hstop)]
          exact .ok lhs h

theorem agree_expressionAround (hn : M.Nested n m nested nested') {s t : State}
    (h : M.Paired s t) (hsn : s.rest.length ≤ n + 1) (htm : t.rest.length ≤ m + 1) :
    M.Agree (expressionAround nested s) (expressionAround nested' t) := by
  refine Agree.bind (agree_primary hn h hsn htm) ?_ ?_
  · intro lhs u v hu hv huv
    have hun := length_le_of_ok (tidy_primary hn.first s).orderly hu hsn
    have hvm := length_le_of_ok (tidy_primary hn.second t).orderly hv htm
    exact agree_operators hn lhs 0 huv (Nat.le_refl _) (Nat.le_refl _) hun hvm
  · intro lhs u _ _
    exact (tidy_operators hn.first u.rest lhs 0 u).orderly

end Productions

/-- Expressions agree, whatever the bounds on their nesting, as long as there are
enough. -/
theorem agree_expressionWithin {left left' : List Lexeme} {s t : State} (h : M.Paired s t)
    (hleft : s.rest.length ≤ left.length) (hleft' : t.rest.length ≤ left'.length) :
    M.Agree (expressionWithin left s) (expressionWithin left' t) := by
  have hend : ∀ left s, s.rest = [] → expressionWithin left s = unexpected .primary s := by
    intro left s hs
    cases left with
    | nil => rfl
    | cons y left =>
        rw [expressionWithin, expressionAround_run, primary_other _ (by simp [hs]), unexpected_run,
          hs]
  induction left generalizing left' s t with
  | nil =>
      have hs : s.rest = [] := List.eq_nil_of_length_eq_zero (Nat.le_zero.1 hleft)
      refine .of_front h ((reader_expressionWithin []).tidy s).orderly ?_
        (fun _ _ _ _ _ hxs => by simp [hs] at hxs)
      intro _ ht
      rw [hend [] s hs, hend left' t ht]
      exact agree_unexpected h _
  | cons y left ih =>
      refine .of_front h ((reader_expressionWithin (y :: left)).tidy s).orderly ?_ ?_
      · intro hs ht
        rw [hend _ s hs, hend left' t ht]
        exact agree_unexpected h _
      · intro span token xs span' ys hs ht _ _
        rcases left' with _ | ⟨y', left'⟩
        · simp [ht] at hleft'
        have hn : M.Nested left.length left'.length (expressionWithin left)
            (expressionWithin left') :=
          ⟨reader_expressionWithin left, reader_expressionWithin left', ih⟩
        exact agree_expressionAround hn h hleft hleft'

theorem agree_expression {s t : State} (h : M.Paired s t) :
    M.Agree (expression s) (expression t) := by
  rw [expression_run, expression_run]
  exact agree_expressionWithin h (Nat.le_refl _) (Nat.le_refl _)

theorem nested_expression (M : Pairing) (n m : Nat) : M.Nested n m expression expression :=
  ⟨reader_expression, reader_expression, fun h _ _ => agree_expression h⟩

/-! ## One input -/

def same : Pairing where
  rel := Eq
  place := Eq
  cut := False
  cons := fun h => ⟨_, _, h.symm, rfl, rfl, fun _ => rfl⟩
  nil := fun h => .inl h.symm
  lines := fun h hx => .inl (by rw [← h, skipLines_cons hx])

theorem paired_same (s : State) : same.Paired s s := ⟨rfl, rfl, rfl, rfl, rfl⟩

theorem Paired.eq_of_same {s t : State} (h : same.Paired s t) : s = t := by
  obtain ⟨rest, scopes, opened, depth, events⟩ := t
  obtain ⟨hrest, rfl, rfl, rfl, rfl⟩ := h
  rw [← show s.rest = rest from hrest]

theorem Agree.eq {r r' : EStateM.Result ParseError State α} (h : same.Agree r r') : r = r' := by
  cases h with
  | ok a h => rw [← Paired.eq_of_same h]
  | error cause hspan h => rw [← Paired.eq_of_same h, show _ = _ from hspan]
  | errorAtEnd cause h => rw [← Paired.eq_of_same h]
  | okCut a hcut hs r => exact hcut.elim
  | errorCut cause hcut r => exact hcut.elim

end Pairing

/-- The bound on the nesting never stops a run: an expression is an expression
around expressions. -/
theorem expression_eq : expression = expressionAround expression := by
  funext s
  rcases hs : s.rest with _ | ⟨y, rest⟩
  · rw [expression_run, expressionAround_run, primary_other _ (by simp [hs]), unexpected_run, hs]
    simp only [expressionWithin, unexpected_run, hs]
  · have hn : Pairing.same.Nested rest.length rest.length (expressionWithin rest) expression := by
      refine ⟨reader_expressionWithin rest, reader_expression, fun h hleft _ => ?_⟩
      rw [expression_run]
      exact Pairing.agree_expressionWithin h hleft (Nat.le_refl _)
    have hlength : s.rest.length ≤ rest.length + 1 := by simp [hs]
    have hagree := Pairing.agree_expressionAround hn (Pairing.paired_same s) hlength hlength
    rw [expression_run, hs]
    exact hagree.eq

end Lila.Parser
