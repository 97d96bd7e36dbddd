import Lila.Proofs.Grammar.Soundness

/-! # What every step keeps

A run is seen here from the outside: the state before it, its error if it fails, and the
state behind it. A relation between these that holds of the single steps of a parser, and
from one step to the next, holds of every production and of the whole parse. The steps
are: to move on in the tokens, to fail, to bind a name, and to go into a scope and out
of it again, also if what is read in it fails.

There are two relations, one of expressions and one of statements. The scope of a
definition ends where its expression does, but the line it stands on goes on to the line
break behind it. So what statements leave behind them may be settled only there.

A name is bound only where it is free in the innermost scope. For a value and for a
definition that is looked at long before, in front of the expression; it is still so
behind it, for an expression leaves the scopes as they were.
-/

namespace Lila.Parser

open Grammar

variable {α β : Type}

def failure? : EStateM.Result ParseError State α → Option ParseError
  | .ok _ _ => none
  | .error e _ => some e

/-- A token that neither opens a scope nor closes one. -/
def isPlain : Token → Bool
  | .newline | .blockOpen | .blockClose | .kwDef => false
  | _ => true

/-- The relations `R` of expressions and `Q` of statements hold of the single steps, and
from one step to the next. -/
structure Stepwise (R Q : State → Option ParseError → State → Prop) : Prop where
  stay : ∀ s : State, R s none s
  move : ∀ {s : State} {x : Lexeme} {rest : List Lexeme}, s.rest = x :: rest →
    isPlain x.token = true → R s none { s with rest := rest }
  trans : ∀ {s t u : State} {e : Option ParseError}, R s none t → R t e u → R s e u
  fail : ∀ (s : State) {cause : ParseError.Cause} (span : Option Span) (rest : List Lexeme),
    (∀ x path, cause ≠ .unknownName x path) → R s (some ⟨cause, span⟩) { s with rest := rest }
  /-- A name that is not known is reported with the path of the scopes at that moment. -/
  unknown : ∀ {s : State} {span : Span} {x : String} {rest : List Lexeme},
    s.rest = ⟨span, .ident x⟩ :: rest →
    R s (some ⟨.unknownName x s.scopes.path, some span⟩) s
  define : ∀ {s : State} {x : String} (params : List String), s.scopes.isDefinedHere x = false →
    R s none (endState (define x params s))
  block : ∀ {s t : State} {span span' : Span} {rest rest' : List Lexeme},
    s.rest = ⟨span, .blockOpen⟩ :: rest → Q (blockStart s rest) none t →
    t.rest = ⟨span', .blockClose⟩ :: rest' → R s none (blockEnd { t with rest := rest' })
  blockError : ∀ {s t : State} {e : ParseError} {span : Span} {rest : List Lexeme},
    s.rest = ⟨span, .blockOpen⟩ :: rest → Q (blockStart s rest) (some e) t →
    R s (some e) (blockEnd t)
  widen : ∀ {s t : State} {e : Option ParseError}, R s e t → Q s e t
  definition : ∀ {s t : State} {e : Option ParseError} {span span' : Span} {x : String}
    {rest : List Lexeme}, s.rest = ⟨span, .kwDef⟩ :: ⟨span', .ident x⟩ :: rest →
    R (enter x { s with rest := rest }) e t → Q s e (leave t)
  bound : ∀ {s t : State} {x : String} (params : List String), Q s none t →
    t.scopes.isDefinedHere x = false → Q s none (endState (Parser.define x params t))
  line : ∀ {s t u : State} {e : Option ParseError} {span : Span} {rest : List Lexeme},
    Q s none t → t.rest = ⟨span, .newline⟩ :: rest → Q { t with rest := rest } e u → Q s e u
  stop : ∀ {s t : State} {cause : ParseError.Cause} (span : Option Span), Q s none t →
    (∀ x path, cause ≠ .unknownName x path) → Q s (some ⟨cause, span⟩) t

def Follows (R : State → Option ParseError → State → Prop) (s : State)
    (r : EStateM.Result ParseError State α) : Prop :=
  R s (failure? r) (endState r)

theorem Follows.bind {R : State → Option ParseError → State → Prop} {p : Parser α}
    {f : α → Parser β} {s t : State} (hp : Follows R s (p t))
    (hf : ∀ a u, p t = .ok a u → R s none u → Follows R s (f a u)) :
    Follows R s ((p >>= f) t) := by
  rw [bind_run]
  cases h : p t with
  | ok a u =>
      rw [h] at hp
      exact hf a u h hp
  | error e u =>
      rw [h] at hp
      exact hp

theorem isDefinedHere_eq_false_iff {s : State} {x : String} :
    s.scopes.isDefinedHere x = false ↔ x ∉ s.env.here := by
  rw [← isDefinedHere_iff, Bool.not_eq_true]

theorem free_of_newName {expected : Expectation} {s t : State} {x : String}
    (h : newName expected s = .ok x t) : s.scopes.isDefinedHere x = false := by
  have hread := reads_newName expected s
  rw [h] at hread
  cases hread with
  | ok _ hname => exact isDefinedHere_eq_false_iff.2 hname.2

/-- A new name is still free behind what leaves the scopes as they were. -/
theorem free_behind_newName {expected : Expectation} {s t u : State} {x : String}
    (h : newName expected s = .ok x t) (hkept : Kept t u) : u.scopes.isDefinedHere x = false := by
  have hname := (tidy_newName expected s).kept_of_ok h
  rw [isDefinedHere_eq_false_iff, (hname.trans hkept).env]
  exact isDefinedHere_eq_false_iff.1 (free_of_newName h)

theorem nodup_of_parameters {s t : State} {params : List String}
    (h : parameters s = .ok params t) : params.Nodup := by
  have hread := reads_parameters s
  rw [h] at hread
  cases hread with
  | ok _ hparams => exact hparams.2

namespace Stepwise

variable {R Q : State → Option ParseError → State → Prop}

theorem ok (hR : Stepwise R Q) (a : α) (s : State) :
    Follows R s (.ok a s : EStateM.Result ParseError State α) :=
  hR.stay s

theorem of_move (hR : Stepwise R Q) {s : State} {x : Lexeme} {rest : List Lexeme}
    (hs : s.rest = x :: rest) (hx : isPlain x.token = true)
    {r : EStateM.Result ParseError State α} (h : Follows R { s with rest := rest } r) :
    Follows R s r :=
  hR.trans (hR.move hs hx) h

theorem bind (hR : Stepwise R Q) {p : Parser α} {f : α → Parser β} {s : State}
    (hp : Follows R s (p s)) (hf : ∀ a t, p s = .ok a t → Follows R t (f a t)) :
    Follows R s ((p >>= f) s) :=
  hp.bind fun a t h hpassed => hR.trans hpassed (hf a t h)

/-! ## Single tokens -/

theorem failWith (hR : Stepwise R Q) {cause : ParseError.Cause} (s : State)
    (hcause : ∀ x path, cause ≠ .unknownName x path) :
    Follows R s ((Parser.fail cause : Parser α) s) :=
  hR.fail s _ s.rest hcause

theorem unexpected (hR : Stepwise R Q) (expected : Expectation) (s : State) :
    Follows R s ((Parser.unexpected expected : Parser α) s) := by
  obtain ⟨cause, hcause, h⟩ := unexpected_eq_fail (α := α) expected s
  rw [h]
  exact hR.failWith s hcause

theorem advance (hR : Stepwise R Q) {s : State} {x : Lexeme} {rest : List Lexeme}
    (hs : s.rest = x :: rest) (hx : isPlain x.token = true) : Follows R s (Parser.advance s) := by
  rw [advance_run, hs]
  exact hR.move hs hx

theorem expect (hR : Stepwise R Q) {token : Token} (htoken : isPlain token = true) (s : State) :
    Follows R s (Parser.expect token s) := by
  by_cases hhead : s.rest.head?.map Lexeme.token = some token
  · obtain ⟨span, rest, hs⟩ := exists_of_head hhead
    rw [expect_here hs]
    exact hR.move hs htoken
  · rw [expect_run, if_neg hhead]
    exact hR.unexpected _ s

theorem newName (hR : Stepwise R Q) (expected : Expectation) (s : State) :
    Follows R s (Parser.newName expected s) := by
  by_cases hs : ∃ span x rest, s.rest = ⟨span, .ident x⟩ :: rest
  · obtain ⟨span, x, rest, hs⟩ := hs
    rw [newName_ident expected hs]
    split
    · exact hR.fail s (some span) rest (by simp)
    · exact hR.move hs rfl
  · rw [newName_other expected fun span x rest h => hs ⟨span, x, rest, h⟩]
    exact hR.unexpected expected s

/-! ## Bindings -/

theorem afterParameter (hR : Stepwise R Q) {left : List Lexeme}
    (hlist : ∀ seen s, Follows R s (parameterList left seen s)) (params : List String)
    (s : State) : Follows R s (Parser.afterParameter left params s) := by
  rcases hs : s.rest with _ | ⟨⟨span, token⟩, rest⟩
  · rw [Parser.afterParameter, bind_run, current_run, hs]
    exact hR.unexpected _ s
  · cases token
    case comma =>
      rw [afterParameter_comma left params hs]
      exact hR.of_move hs rfl (hlist params _)
    case parenClose =>
      rw [afterParameter_close left params hs]
      exact hR.move hs rfl
    case ident x =>
      rw [Parser.afterParameter, bind_run, current_run, hs]
      exact hR.failWith s (by simp)
    all_goals
      rw [Parser.afterParameter, bind_run, current_run, hs]
      exact hR.unexpected _ s

theorem parameterList (hR : Stepwise R Q) (left : List Lexeme) (seen : List String) (s : State) :
    Follows R s (Parser.parameterList left seen s) := by
  induction left generalizing seen s with
  | nil => exact hR.unexpected _ s
  | cons y left ih =>
      rcases hs : s.rest with _ | ⟨⟨span, token⟩, rest⟩
      · rw [Parser.parameterList, bind_run, current_run, hs]
        exact hR.unexpected _ s
      · cases token
        case ident param =>
          rw [parameterList_ident y left seen hs]
          split
          · exact hR.failWith s (by simp)
          · exact hR.of_move hs rfl (hR.afterParameter ih _ _)
        case parenClose | comma =>
          rw [Parser.parameterList, bind_run, current_run, hs]
          exact hR.failWith s (by simp)
        all_goals
          rw [Parser.parameterList, bind_run, current_run, hs]
          exact hR.unexpected _ s

theorem parameters (hR : Stepwise R Q) (s : State) : Follows R s (Parser.parameters s) := by
  by_cases hhead : s.rest.head?.map Lexeme.token = some .parenOpen
  · obtain ⟨span, rest, hs⟩ := exists_of_head hhead
    rw [parameters_open hs]
    exact hR.of_move hs rfl (hR.parameterList rest [] _)
  · rw [parameters_other hhead]
    exact hR.ok [] s

/-- Distinct names that are free are still free when their turn comes. -/
theorem defineAll (hR : Stepwise R Q) {params : List String} (hdistinct : params.Nodup) {s : State}
    (hfree : ∀ param ∈ params, param ∉ s.env.here) :
    Follows R s ((params.forM fun param => Parser.define param []) s) := by
  induction params generalizing s with
  | nil => exact hR.ok () s
  | cons param params ih =>
      obtain ⟨hparam, hparams⟩ := List.forall_mem_cons.1 hfree
      have hfirst : Follows R s (Parser.define param [] s) :=
        hR.define [] (isDefinedHere_eq_false_iff.2 hparam)
      apply hR.bind hfirst
      intro _ t ht
      change Parser.define param [] s = _ at ht
      rw [define_run] at ht
      cases ht
      apply ih (List.nodup_cons.1 hdistinct).2
      intro other hother
      rw [env_define, Env.bind, List.mem_cons, not_or]
      refine ⟨?_, hparams other hother⟩
      rintro rfl
      exact (List.nodup_cons.1 hdistinct).1 hother

end Stepwise

/-- A parser for the expressions inside a production, of which the relation holds. -/
structure Conforming (R : State → Option ParseError → State → Prop) (nested : Parser Tree) : Prop
    extends Reader nested where
  follows : ∀ s, Follows R s (nested s)

namespace Stepwise

variable {R Q : State → Option ParseError → State → Prop} {nested : Parser Tree}

theorem afterVal (hR : Stepwise R Q) (hn : Conforming R nested) (s : State) :
    Follows R s (Parser.afterVal nested s) := by
  refine hR.bind (hR.newName _ s) fun x t hx => ?_
  refine hR.bind (hR.expect rfl t) fun _ u hu => ?_
  refine hR.bind (hn.follows u) fun expr v hv => ?_
  have hassign := (tidy_expect (by simp) t).kept_of_ok hu
  have hfree := free_behind_newName hx (hassign.trans ((hn.tidy u).kept_of_ok hv))
  exact hR.bind (hR.define [] hfree) fun _ w _ => hR.ok _ w

theorem definitionInside (hR : Stepwise R Q) (hn : Conforming R nested) {s : State}
    (hempty : s.env.here = []) : Follows R s (Parser.definitionInside nested s) := by
  refine hR.bind (hR.parameters s) fun params t hparams => ?_
  have henv := ((tidy_parameters s).kept_of_ok hparams).env
  have hfree : ∀ param ∈ params, param ∉ t.env.here := by
    intro param _
    rw [henv, hempty]
    exact List.not_mem_nil
  refine hR.bind (hR.defineAll (nodup_of_parameters hparams) hfree) fun _ u _ => ?_
  refine hR.bind (hR.expect rfl u) fun _ v _ => ?_
  exact hR.bind (hn.follows v) fun _ w _ => hR.ok _ w

theorem inDefinition (hR : Stepwise R Q) {s : State} {span span' : Span} {x : String}
    {rest : List Lexeme} (hs : s.rest = ⟨span, .kwDef⟩ :: ⟨span', .ident x⟩ :: rest)
    {body : Parser α}
    (h : Follows R (enter x { s with rest := rest }) (body (enter x { s with rest := rest }))) :
    Follows Q s (inScope x body { s with rest := rest }) := by
  unfold inScope
  cases hbody : body (enter x { s with rest := rest }) with
  | ok a t =>
      rw [hbody] at h
      exact hR.definition hs h
  | error e t =>
      rw [hbody] at h
      exact hR.definition hs h

theorem afterDef (hR : Stepwise R Q) (hn : Conforming R nested) {s : State} {span : Span}
    {rest : List Lexeme} (hs : s.rest = ⟨span, .kwDef⟩ :: rest) :
    Follows Q s (Parser.afterDef nested { s with rest := rest }) := by
  by_cases hident : ∃ span' x rest', rest = ⟨span', .ident x⟩ :: rest'
  · obtain ⟨span', x, rest', rfl⟩ := hident
    have hname := newName_ident .definitionName
      (s := { s with rest := ⟨span', .ident x⟩ :: rest' }) rfl
    rw [Parser.afterDef, bind_run, hname]
    by_cases hdefined : s.scopes.isDefinedHere x = true
    · rw [if_pos hdefined] at hname ⊢
      exact hR.widen (hR.fail s (some span') rest' (by simp))
    · rw [if_neg hdefined] at hname ⊢
      have hempty : (enter x { s with rest := rest' }).env.here = [] := by
        rw [env_enter, Env.inside]
      have hinside := hR.inDefinition hs (hR.definitionInside hn hempty)
      have hscope := tidy_inScope
        (orderly_definitionInside hn.toReader (enter x { s with rest := rest' }))
      refine hinside.bind fun inside u hbody hpassed => ?_
      exact hR.bound inside.1 hpassed (free_behind_newName hname (hscope.kept_of_ok hbody))
  · have hother := newName_other .definitionName (s := { s with rest := rest })
      fun span' x rest' h => hident ⟨span', x, rest', h⟩
    obtain ⟨cause, hcause, hfail⟩ :=
      unexpected_eq_fail (α := String) .definitionName { s with rest := rest }
    rw [Parser.afterDef, bind_run, hother, hfail]
    exact hR.widen (hR.fail s _ rest hcause)

/-! ## Statements -/

theorem statement (hR : Stepwise R Q) (hn : Conforming R nested) (s : State) :
    Follows Q s (Parser.statement nested s) := by
  by_cases hdef : s.rest.head?.map Lexeme.token = some .kwDef
  · obtain ⟨span, rest, hs⟩ := exists_of_head hdef
    rw [statement_definition nested hs]
    exact hR.afterDef hn hs
  · by_cases hval : s.rest.head?.map Lexeme.token = some .kwVal
    · obtain ⟨span, rest, hs⟩ := exists_of_head hval
      rw [statement_value nested hs]
      exact hR.widen (hR.of_move hs rfl (hR.afterVal hn _))
    · rw [statement_expression nested hdef hval]
      exact hR.widen (hn.follows s)

theorem endOfInput (hR : Stepwise R Q) {s t : State} (h : Q s none t) (braced : Bool) :
    Follows Q s (Parser.endOfInput braced t) := by
  cases braced with
  | true =>
      obtain ⟨cause, hcause, hfail⟩ := unexpected_eq_fail (α := List Tree) (.token .blockClose) t
      rw [Parser.endOfInput, if_pos rfl, hfail]
      exact hR.stop _ h hcause
  | false => exact h

theorem endOfStatement (hR : Stepwise R Q) {s t : State} (h : Q s none t) (braced : Bool) :
    Follows Q s (Parser.endOfStatement braced t) := by
  rw [endOfStatement_run]
  split
  · exact h
  · obtain ⟨cause, hcause, hfail⟩ := unexpected_eq_fail (α := Unit) .statementEnd t
    rw [hfail]
    exact hR.stop _ h hcause

/-- The loop starts here, or a statement has been read from the state before, and has ended. -/
def AtLine (Q : State → Option ParseError → State → Prop) (braced : Bool) (s t : State) : Prop :=
  s = t ∨ Q s none t ∧ Parser.endOfStatement braced t = .ok () t

theorem AtLine.passed (hR : Stepwise R Q) {braced : Bool} {s t : State} (h : AtLine Q braced s t) :
    Q s none t := by
  rcases h with rfl | ⟨hpassed, -⟩
  · exact hR.widen (hR.stay s)
  · exact hpassed

theorem statements_from (hR : Stepwise R Q) (hn : Conforming R nested) (braced : Bool)
    (left : List Lexeme) {s t : State} (h : AtLine Q braced s t) :
    Follows Q s (Parser.statements nested braced left t) := by
  induction left generalizing s t with
  | nil => exact hR.endOfInput (h.passed hR) braced
  | cons y left ih =>
      have hpassed := h.passed hR
      rcases statements_step nested braced y left t with
        ⟨-, he⟩ | ⟨span, rest, ht, he⟩ | ⟨-, -, he⟩ | ⟨x, rest, ht, hline, hclose, he⟩
      · rw [he]
        exact hR.endOfInput hpassed braced
      · rw [he]
        exact hR.line hpassed ht (ih (.inl rfl))
      · rw [he]
        exact hpassed
      · -- There is a statement here, so that none has been read on this line.
        have hstart : s = t := by
          refine h.resolve_right fun hended => ?_
          have hend := hended.2
          rw [endOfStatement_run, if_neg (by simpa [ht, hline] using hclose)] at hend
          exact unexpected_ne_ok hend
        subst hstart
        rw [he, firstStatement]
        refine (hR.statement hn s).bind fun first u _ hfirst => ?_
        refine (hR.endOfStatement hfirst braced).bind fun _ v hended _ => ?_
        obtain rfl : u = v := by
          rw [endOfStatement_run] at hended
          split at hended
          · cases hended
            rfl
          · exact (unexpected_ne_ok hended).elim
        exact (ih (.inr ⟨hfirst, hended⟩)).bind fun _ _ _ hothers => hothers

theorem statements (hR : Stepwise R Q) (hn : Conforming R nested) (braced : Bool)
    (left : List Lexeme) (s : State) : Follows Q s (Parser.statements nested braced left s) :=
  hR.statements_from hn braced left (.inl rfl)

/-! ## Operands -/

/-- A block that is refused as a whole is refused behind its closing brace. -/
theorem blockAt (hR : Stepwise R Q) (hn : Conforming R nested) {s : State} {opening span : Span}
    {rest : List Lexeme} (hs : s.rest = ⟨span, .blockOpen⟩ :: rest) :
    Follows R s (Parser.block nested opening s) := by
  have hinside := hR.statements hn true rest (blockStart s rest)
  rw [block_eq nested opening hs]
  cases hbody : Parser.statements nested true rest (blockStart s rest) with
  | error e t =>
      rw [hbody] at hinside
      exact hR.blockError hs hinside
  | ok body t =>
      rw [hbody] at hinside
      obtain ⟨span', rest', ht⟩ := statements_closed hbody
      have hclosed := hR.block hs hinside ht
      dsimp only
      rw [ht, List.tail_cons]
      cases hblock : blockOf (s.depth + 1) body with
      | ok tree => exact hclosed
      | error cause =>
          refine hR.trans hclosed (hR.fail _ (some opening) rest' ?_)
          rintro y path rfl
          unfold blockOf at hblock
          split at hblock <;> cases hblock

theorem group (hR : Stepwise R Q) (hn : Conforming R nested) {s : State} {span : Span}
    {rest : List Lexeme} (hs : s.rest = ⟨span, .parenOpen⟩ :: rest) :
    Follows R s (Parser.group nested s) := by
  refine hR.bind (hR.advance hs rfl) fun _ t _ => ?_
  refine hR.bind (hn.follows t) fun expr u _ => ?_
  exact hR.bind (hR.expect rfl u) fun _ v _ => hR.ok _ v

theorem afterArgument (hR : Stepwise R Q) {left : List Lexeme}
    (hlist : ∀ s, Follows R s (Parser.argumentList nested left s)) (first : Tree) (s : State) :
    Follows R s (Parser.afterArgument nested left first s) := by
  rcases hs : s.rest with _ | ⟨⟨span, token⟩, rest⟩
  · rw [Parser.afterArgument, bind_run, current_run, hs]
    exact hR.unexpected _ s
  · cases token
    case comma =>
      rw [afterArgument_comma nested left first hs]
      apply hR.of_move hs rfl
      exact hR.bind (hlist _) fun _ t _ => hR.ok _ t
    case parenClose =>
      rw [afterArgument_close nested left first hs]
      exact hR.move hs rfl
    case number | ident | parenOpen | blockOpen =>
      rw [Parser.afterArgument, bind_run, current_run, hs]
      exact hR.failWith s (by simp)
    all_goals
      rw [Parser.afterArgument, bind_run, current_run, hs]
      exact hR.unexpected _ s

theorem argumentList (hR : Stepwise R Q) (hn : Conforming R nested) (left : List Lexeme)
    (s : State) : Follows R s (Parser.argumentList nested left s) := by
  induction left generalizing s with
  | nil => exact hR.unexpected _ s
  | cons y left ih =>
      rcases hs : s.rest with _ | ⟨x, rest⟩
      · rw [argumentList_end nested _ hs]
        exact hR.unexpected _ s
      · by_cases hx : x.token = .parenClose ∨ x.token = .comma
        · rw [argumentList_missing nested y left hs hx]
          exact hR.failWith s (by simp)
        · rw [argumentList_first nested y left hs (fun h => hx (.inl h)) (fun h => hx (.inr h))]
          exact hR.bind (hn.follows s) fun first t _ => hR.afterArgument ih first t

theorem arguments (hR : Stepwise R Q) (hn : Conforming R nested) {s : State} {span : Span}
    {rest : List Lexeme} (hs : s.rest = ⟨span, .parenOpen⟩ :: rest) :
    Follows R s (Parser.arguments nested s) := by
  refine hR.bind (hR.advance hs rfl) fun _ t _ => ?_
  exact hR.bind (hR.ok t t) fun u _ _ => hR.argumentList hn _ _

theorem call (hR : Stepwise R Q) (hn : Conforming R nested) (x : String) {s : State} {span : Span}
    {rest : List Lexeme} (hs : s.rest = ⟨span, .ident x⟩ :: rest) :
    Follows R s (Parser.call nested x s) := by
  refine hR.bind (hR.advance hs rfl) fun _ t _ => ?_
  refine hR.bind (hR.ok _ t) fun token u hu => ?_
  cases hu
  split
  · next hopen =>
      obtain ⟨span', rest', ht⟩ := exists_of_head hopen
      exact hR.bind (hR.arguments hn ht) fun _ v _ => hR.ok _ v
  · exact hR.ok _ t

theorem primary (hR : Stepwise R Q) (hn : Conforming R nested) (s : State) :
    Follows R s (Parser.primary nested s) := by
  rcases hs : s.rest with _ | ⟨⟨span, token⟩, rest⟩
  · rw [primary_other nested (by simp [hs])]
    exact hR.unexpected _ s
  · cases token
    case number v =>
      rw [primary_number nested hs]
      exact hR.move hs rfl
    case blockOpen =>
      rw [primary_block nested hs]
      exact hR.blockAt hn hs
    case parenOpen =>
      rw [primary_group nested hs]
      exact hR.group hn hs
    case ident x =>
      rw [primary_ident nested hs]
      split
      · rw [fail_run, hs]
        exact hR.unknown hs
      · exact hR.call hn x hs
    all_goals
      rw [primary_other nested (by simp [hs, startsOperand])]
      exact hR.unexpected _ s

/-! ## Expressions -/

theorem operators (hR : Stepwise R Q) (hn : Conforming R nested) (left : List Lexeme) (lhs : Tree)
    (least : Nat) (s : State) : Follows R s (Parser.operators nested left lhs least s) := by
  induction left generalizing lhs least s with
  | nil => exact hR.ok lhs s
  | cons y left ih =>
      rcases operators_step nested y left lhs least s with ⟨-, he⟩ | ⟨span, op, rest, hs, -, he⟩
      · rw [he]
        exact hR.ok lhs s
      · rw [he]
        apply hR.of_move hs rfl
        refine hR.bind (hR.primary hn _) fun operand t _ => ?_
        exact hR.bind (ih operand _ t) fun rhs u _ => ih _ least u

theorem expressionAround (hR : Stepwise R Q) (hn : Conforming R nested) :
    Conforming R (Parser.expressionAround nested) where
  toReader := reader_expressionAround hn.toReader
  follows := by
    intro s
    refine hR.bind (hR.primary hn s) fun lhs t _ => ?_
    exact hR.bind (hR.ok t t) fun u _ _ => hR.operators hn _ lhs 0 _

theorem expression (hR : Stepwise R Q) : Conforming R Parser.expression where
  toReader := reader_expression
  follows := by
    have hwithin : ∀ left, Conforming R (expressionWithin left) := by
      intro left
      induction left with
      | nil => exact ⟨reader_expressionWithin [], fun s => hR.unexpected _ s⟩
      | cons y left ih => exact hR.expressionAround ih
    intro s
    rw [expression_run]
    exact (hwithin s.rest).follows s

/-- The relation of statements holds of a whole parse. -/
theorem parseRun (hR : Stepwise R Q) (lexemes : List Lexeme) :
    Follows Q { rest := lexemes } (Lila.parseRun lexemes) := by
  have hbody := hR.statements hR.expression false lexemes { rest := lexemes }
  rw [parseRun_eq]
  cases hstatements : Parser.statements Parser.expression false lexemes { rest := lexemes } with
  | error e t =>
      rw [hstatements] at hbody
      exact hbody
  | ok body t =>
      rw [hstatements] at hbody
      dsimp only
      cases hprogram : programOf body with
      | ok tree => exact hbody
      | error cause =>
          refine hR.stop none hbody ?_
          rintro x path rfl
          unfold programOf at hprogram
          split at hprogram <;> cases hprogram

end Stepwise

end Lila.Parser
