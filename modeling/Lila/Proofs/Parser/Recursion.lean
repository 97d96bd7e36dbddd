import Lila.Proofs.Parser.Agreement

/-! # Productions that call each other

The loops of the parser are bounded by the tokens that were left when they began, and so
is the depth to which expressions lie in each other. Here are the same productions with
none of these bounds: every loop goes round until a token ends it, and every production
calls the others. What is counted instead is the depth of the calls, a turn of a loop being
a call like any other. A run that needs a greater depth than it is given has no outcome, so
that one which goes on for ever has none at any depth.

There is always a depth that suffices. Six calls for each token that is left are enough: to
come from an expression to one inside it, or round a loop, takes at most six, and a token
is read on the way. The outcome is then the one of the bounded productions.
-/

namespace Lila.Parser

variable {α β : Type}

/-- Parsers that may run out of calls. -/
abbrev Attempt := ExceptT ParseError (StateT State Option)

def ended : EStateM.Result ParseError State α → Option (Except ParseError α × State)
  | .ok a t => some (.ok a, t)
  | .error e t => some (.error e, t)

instance : MonadLift Parser Attempt where
  monadLift p := fun s => ended (p s)

namespace Attempt

def exhausted : Attempt α := fun _ => none

def inScope (name : String) (body : Attempt α) : Attempt α := fun s => do
  let (result, t) ← body (enter name s)
  return (result, leave t)

def inBlock (body : Nat → Nat → Attempt α) : Attempt α := fun s => do
  let (result, t) ← body s.opened (s.depth + 1)
    { s with opened := s.opened + 1, depth := s.depth + 1 }
  return (result, { t with depth := t.depth - 1 })

end Attempt

/-! ## The productions -/

/-- The productions as others call them. -/
structure Calls where
  parameterList : List String → Attempt (List String)
  value : Attempt Tree
  definition : Attempt Tree
  statement : Attempt Tree
  statements : Bool → Attempt (List Tree)
  block : Span → Attempt Tree
  group : Attempt Tree
  argumentList : Attempt (List Tree)
  arguments : Attempt (List Tree)
  call : String → Attempt Tree
  primary : Attempt Tree
  operators : Tree → Nat → Attempt Tree
  expression : Attempt Tree

/-! What each production does, given the ones that it can call. -/

namespace Body

variable (calls : Calls)

def afterParameter (params : List String) : Attempt (List String) := do
  match ← current with
  | some .comma => advance; calls.parameterList params
  | some .parenClose => advance; return params
  | some (.ident _) => fail .surplusArgument
  | _ => unexpected .parameterSeparator

def parameterList (seen : List String) : Attempt (List String) := do
  match ← current with
  | some (.ident param) =>
      if param ∈ seen then fail (.repeatedParameter param)
      else
        advance
        afterParameter calls (seen ++ [param])
  | some .parenClose | some .comma => fail .missingArgument
  | _ => unexpected .argumentName

def parameters : Attempt (List String) := do
  if (← current) = some .parenOpen then
    advance
    calls.parameterList []
  else return []

def value : Attempt Tree := do
  advance
  let name ← newName .valueName
  expect .assign
  let expr ← calls.expression
  define name []
  return .value name expr

def definition : Attempt Tree := do
  advance
  let name ← newName .definitionName
  let (params, body) ← Attempt.inScope name do
    let params ← parameters calls
    params.forM fun param => define param []
    expect .assign
    return (params, ← calls.expression)
  define name params
  return .definition name params body

def statement : Attempt Tree := do
  match ← current with
  | some .kwDef => calls.definition
  | some .kwVal => calls.value
  | _ => calls.expression

def firstStatement (braced : Bool) : Attempt (List Tree) := do
  let first ← calls.statement
  endOfStatement braced
  return first :: (← calls.statements braced)

def statements (braced : Bool) : Attempt (List Tree) := do
  match ← current, braced with
  | none, _ => endOfInput braced
  | some .newline, _ => advance; calls.statements braced
  | some .blockClose, true => return []
  | _, _ => firstStatement calls braced

def blockInside : Attempt (List Tree) := do
  let body ← calls.statements true
  advance
  return body

def block (opening : Span) : Attempt Tree := do
  advance
  let (depth, body) ← Attempt.inBlock fun index depth => do
    let body ← Attempt.inScope ("anon" ++ toString index) (blockInside calls)
    return (depth, body)
  match blockOf depth body with
  | .ok tree => return tree
  | .error cause => throw ⟨cause, some opening⟩

def group : Attempt Tree := do
  advance
  let expr ← calls.expression
  expect .parenClose
  return expr

def afterArgument (first : Tree) : Attempt (List Tree) := do
  match ← current with
  | some .comma => advance; return first :: (← calls.argumentList)
  | some .parenClose => advance; return [first]
  | some (.number _) | some (.ident _) | some .parenOpen | some .blockOpen => fail .surplusArgument
  | _ => unexpected .argumentSeparator

def argumentList : Attempt (List Tree) := do
  match ← current with
  | some .parenClose | some .comma => fail .missingArgument
  | none => unexpected .argument
  | _ =>
      let first ← calls.expression
      afterArgument calls first

def arguments : Attempt (List Tree) := do
  advance
  calls.argumentList

def call (name : String) : Attempt Tree := do
  advance
  if (← current) = some .parenOpen then return .call name (← calls.arguments)
  else return .call name []

def primary : Attempt Tree := do
  match (← get).rest with
  | ⟨_, .number value⟩ :: _ => advance; return .number value
  | ⟨span, .blockOpen⟩ :: _ => calls.block span
  | ⟨_, .parenOpen⟩ :: _ => calls.group
  | ⟨_, .ident name⟩ :: _ =>
      let scopes := (← get).scopes
      if (scopes.lookup name).isNone then fail (.unknownName name scopes.path)
      else calls.call name
  | _ => unexpected .primary

def operators (lhs : Tree) (least : Nat) : Attempt Tree := do
  match ← current with
  | some (.binop op) =>
      if precedence op < least then return lhs
      else
        advance
        let operand ← calls.primary
        let tighter ← bindsTighter (precedence op)
        let rhs ← if tighter then calls.operators operand (precedence op + 1) else pure operand
        calls.operators (.binary op lhs rhs) least
  | _ => return lhs

def expression : Attempt Tree := do
  let lhs ← calls.primary
  calls.operators lhs 0

def program : Attempt Tree := do
  let body ← calls.statements false
  match programOf body with
  | .ok tree => return tree
  | .error cause => throw ⟨cause, none⟩

end Body

namespace Calls

def exhausted : Calls where
  parameterList _ := Attempt.exhausted
  value := Attempt.exhausted
  definition := Attempt.exhausted
  statement := Attempt.exhausted
  statements _ := Attempt.exhausted
  block _ := Attempt.exhausted
  group := Attempt.exhausted
  argumentList := Attempt.exhausted
  arguments := Attempt.exhausted
  call _ := Attempt.exhausted
  primary := Attempt.exhausted
  operators _ _ := Attempt.exhausted
  expression := Attempt.exhausted

def deeper (calls : Calls) : Calls where
  parameterList := Body.parameterList calls
  value := Body.value calls
  definition := Body.definition calls
  statement := Body.statement calls
  statements := Body.statements calls
  block := Body.block calls
  group := Body.group calls
  argumentList := Body.argumentList calls
  arguments := Body.arguments calls
  call := Body.call calls
  primary := Body.primary calls
  operators := Body.operators calls
  expression := Body.expression calls

def within : Nat → Calls
  | 0 => exhausted
  | depth + 1 => deeper (within depth)

end Calls

/-! ## Runs that end -/

/-- The run ends, and as the other one does. -/
def Ends (u : Attempt α) (p : Parser α) (s : State) : Prop := u s = ended (p s)

namespace Ends

variable {u : Attempt α} {p : Parser α} {s : State}

theorem lift (p : Parser α) (s : State) : Ends (p : Attempt α) p s := rfl

theorem bind {f : α → Attempt β} {g : α → Parser β} (h : Ends u p s)
    (hf : ∀ a t, p s = .ok a t → Ends (f a) (g a) t) : Ends (u >>= f) (p >>= g) s := by
  unfold Ends at h ⊢
  change (u s).bind _ = _
  rw [h, bind_run]
  cases hp : p s with
  | ok a t => exact hf a t hp
  | error e t => rfl

/-- What comes second starts with no more tokens. -/
theorem seq {m : Nat} {f : α → Attempt β} {g : α → Parser β} (h : Ends u p s)
    (horderly : Orderly s (p s)) (hs : s.rest.length ≤ m)
    (hf : ∀ a t, t.rest.length ≤ m → Ends (f a) (g a) t) : Ends (u >>= f) (p >>= g) s :=
  h.bind fun a t ht => hf a t (Nat.le_trans (horderly.framed_of_ok ht).rest.length_le hs)

theorem of_advance {f : Unit → Attempt α} {g : Unit → Parser α}
    (h : Ends (f ()) (g ()) { s with rest := s.rest.tail }) :
    Ends ((advance : Parser Unit) >>= f : Attempt α) (advance >>= g) s := h

theorem of_current {f : Option Token → Attempt α} {g : Option Token → Parser α}
    (h : Ends (f (s.rest.head?.map Lexeme.token)) (g (s.rest.head?.map Lexeme.token)) s) :
    Ends ((current : Parser (Option Token)) >>= f : Attempt α) (current >>= g) s := h

theorem of_get {f : State → Attempt α} {g : State → Parser α} (h : Ends (f s) (g s) s) :
    Ends (get >>= f) (get >>= g) s := h

/-- A loop looks up its bound in the state. -/
theorem of_bound {g : State → Parser α} (h : Ends u (g s) s) : Ends u (get >>= g) s := h

/-- A bound runs out at the end of the input only, which is seen without it. -/
theorem at_end {f : Option Token → Attempt α} (hs : s.rest.length ≤ 0) (h : Ends (f none) p s) :
    Ends ((current : Parser (Option Token)) >>= f : Attempt α) p s := by
  have hnil : s.rest = [] := List.eq_nil_of_length_eq_zero (Nat.le_zero.1 hs)
  change f (s.rest.head?.map Lexeme.token) s = ended (p s)
  rw [hnil]
  exact h

theorem inScope {name : String} (h : Ends u p (enter name s)) :
    Ends (Attempt.inScope name u) (Parser.inScope name p) s := by
  unfold Ends Attempt.inScope Parser.inScope at *
  rw [h]
  cases p (enter name s) <;> rfl

theorem inBlock {body : Nat → Nat → Attempt α} {body' : Nat → Nat → Parser α}
    (h : Ends (body s.opened (s.depth + 1)) (body' s.opened (s.depth + 1))
      { s with opened := s.opened + 1, depth := s.depth + 1 }) :
    Ends (Attempt.inBlock body) (Parser.inBlock body') s := by
  unfold Ends Attempt.inBlock Parser.inBlock at *
  rw [h]
  cases body' s.opened (s.depth + 1) { s with opened := s.opened + 1, depth := s.depth + 1 } <;> rfl

end Ends

/-! ## The depth that suffices -/

theorem length_tail_succ {s : State} {x : Lexeme} {rest : List Lexeme} (hs : s.rest = x :: rest) :
    s.rest.tail.length + 1 = s.rest.length := by
  rw [hs, List.tail_cons, List.length_cons]

/-- Each production ends as its bounded one does where the depth of calls exceeds six times
the number of tokens left, and some more. The more it takes, the further away a production
is from reading a token. One that begins with a token of its own counts those behind it. -/
structure Suffices (d : Nat) : Prop where
  parameterList : ∀ {s : State} {left : List Lexeme} {seen : List String},
    s.rest.length ≤ left.length → 6 * s.rest.length < d →
    Ends ((Calls.within d).parameterList seen) (Parser.parameterList left seen) s
  value : ∀ {s : State}, 6 * s.rest.tail.length + 5 < d →
    Ends (Calls.within d).value (Parser.value Parser.expression) s
  definition : ∀ {s : State}, 6 * s.rest.tail.length + 5 < d →
    Ends (Calls.within d).definition (Parser.definition Parser.expression) s
  statement : ∀ {s : State}, 6 * s.rest.length + 3 < d →
    Ends (Calls.within d).statement (Parser.statement Parser.expression) s
  statements : ∀ {s : State} {left : List Lexeme} {braced : Bool},
    s.rest.length ≤ left.length → 6 * s.rest.length + 4 < d →
    Ends ((Calls.within d).statements braced) (Parser.statements Parser.expression braced left) s
  block : ∀ {s : State} {opening : Span}, 6 * s.rest.tail.length + 5 < d →
    Ends ((Calls.within d).block opening) (Parser.block Parser.expression opening) s
  group : ∀ {s : State}, 6 * s.rest.tail.length + 5 < d →
    Ends (Calls.within d).group (Parser.group Parser.expression) s
  argumentList : ∀ {s : State} {left : List Lexeme},
    s.rest.length ≤ left.length → 6 * s.rest.length + 3 < d →
    Ends (Calls.within d).argumentList (Parser.argumentList Parser.expression left) s
  arguments : ∀ {s : State}, 6 * s.rest.tail.length + 5 < d →
    Ends (Calls.within d).arguments (Parser.arguments Parser.expression) s
  call : ∀ {s : State} {name : String}, 6 * s.rest.tail.length + 5 < d →
    Ends ((Calls.within d).call name) (Parser.call Parser.expression name) s
  primary : ∀ {s : State}, 6 * s.rest.length + 1 < d →
    Ends (Calls.within d).primary (Parser.primary Parser.expression) s
  operators : ∀ {s : State} {left : List Lexeme} {lhs : Tree} {least : Nat},
    s.rest.length ≤ left.length → 6 * s.rest.length < d →
    Ends ((Calls.within d).operators lhs least)
      (Parser.operators Parser.expression left lhs least) s
  expression : ∀ {s : State}, 6 * s.rest.length + 2 < d →
    Ends (Calls.within d).expression Parser.expression s

namespace Suffices

variable {d : Nat} {s : State} {left : List Lexeme}

/-! ### Bindings -/

theorem afterParameter (h : Suffices d) {params : List String} (hleft : s.rest.length ≤ left.length)
    (hd : 6 * s.rest.length < d) :
    Ends (Body.afterParameter (.within d) params) (Parser.afterParameter left params) s := by
  have htail := List.length_tail (l := s.rest)
  apply Ends.of_current
  rcases s.rest.head?.map Lexeme.token with _ | token
  · exact .lift (unexpected _) s
  · cases token
    case comma => exact .of_advance (h.parameterList (by dsimp only; omega) (by dsimp only; omega))
    case parenClose => exact .of_advance (.lift (pure params) _)
    case ident => exact .lift (fail _) s
    all_goals exact .lift (unexpected _) s

theorem next_parameterList (h : Suffices d) {seen : List String}
    (hleft : s.rest.length ≤ left.length) (hd : 6 * s.rest.length < d + 1) :
    Ends (Body.parameterList (.within d) seen) (Parser.parameterList left seen) s := by
  cases left with
  | nil => exact .at_end hleft (.lift (unexpected _) s)
  | cons y left =>
      apply Ends.of_current
      rcases hs : s.rest with _ | ⟨⟨span, token⟩, rest⟩
      · exact .lift (unexpected _) s
      · simp only [hs, List.length_cons] at hleft hd
        cases token
        case ident param =>
          change Ends (if param ∈ seen then _ else _) (if param ∈ seen then _ else _) s
          split
          · exact .lift (fail _) s
          · apply Ends.of_advance
            rw [hs, List.tail_cons]
            exact h.afterParameter (Nat.le_of_succ_le_succ hleft) (by dsimp only; omega)
        case parenClose | comma => exact .lift (fail _) s
        all_goals exact .lift (unexpected _) s

theorem parameters (h : Suffices d) (hd : 6 * s.rest.length < d) :
    Ends (Body.parameters (.within d)) Parser.parameters s := by
  have htail := List.length_tail (l := s.rest)
  apply Ends.of_current
  split
  · exact .of_advance (.of_bound (h.parameterList (Nat.le_refl _) (by dsimp only; omega)))
  · exact .lift (pure []) s

theorem defineAll (params : List String) (s : State) :
    Ends (params.forM fun param => (define param [] : Parser Unit) : Attempt Unit)
      (params.forM fun param => define param []) s := by
  induction params generalizing s with
  | nil => rfl
  | cons param params ih => exact .bind (.lift (define param []) s) fun _ t _ => ih t

theorem next_value (h : Suffices d) (hd : 6 * s.rest.tail.length + 5 < d + 1) :
    Ends (Body.value (.within d)) (Parser.value Parser.expression) s := by
  apply Ends.of_advance
  refine .seq (.lift _ _) (tidy_newName _ _).orderly (Nat.le_refl _) fun x t ht => ?_
  refine .seq (.lift _ _) (tidy_expect (by simp) t).orderly ht fun _ u hu => ?_
  refine .bind (h.expression (by dsimp only at hu; omega)) fun expr v _ => ?_
  exact .bind (.lift _ _) fun _ w _ => .lift (pure _) w

theorem next_definition (h : Suffices d) (hd : 6 * s.rest.tail.length + 5 < d + 1) :
    Ends (Body.definition (.within d)) (Parser.definition Parser.expression) s := by
  apply Ends.of_advance
  refine .seq (.lift _ _) (tidy_newName _ _).orderly (Nat.le_refl _) fun x t ht => ?_
  dsimp only at ht
  refine .bind (.inScope ?_) fun inside u _ => ?_
  · have hparameters : 6 * t.rest.length < d := by omega
    refine .seq (h.parameters hparameters) (tidy_parameters _).orderly ht fun params u hu => ?_
    refine .seq (defineAll _ _) (orderly_defineAll _ _) hu fun _ v hv => ?_
    refine .seq (.lift _ _) (tidy_expect (by simp) v).orderly hv fun _ w hw => ?_
    exact .bind (h.expression (by omega)) fun _ x _ => .lift (pure _) x
  · exact .bind (.lift _ _) fun _ v _ => .lift (pure _) v

/-! ### Statements -/

theorem next_statement (h : Suffices d) (hd : 6 * s.rest.length + 3 < d + 1) :
    Ends (Body.statement (.within d)) (Parser.statement Parser.expression) s := by
  have hexpression := h.expression (s := s) (by omega)
  apply Ends.of_current
  rcases hs : s.rest with _ | ⟨⟨span, token⟩, rest⟩
  · exact hexpression
  · have htail : 6 * s.rest.tail.length + 5 < d := by
      have hlength := length_tail_succ hs
      omega
    cases token
    case kwDef => exact h.definition htail
    case kwVal => exact h.value htail
    all_goals exact hexpression

/-- A statement reads a token, which pays for the next turn of the loop. -/
theorem firstStatement (h : Suffices d) (braced : Bool) (hleft : s.rest.length ≤ left.length + 1)
    (hd : 6 * s.rest.length + 4 < d + 1) :
    Ends (Body.firstStatement (.within d) braced)
      (Parser.firstStatement Parser.expression braced left) s := by
  refine .bind (h.statement (by omega)) fun first t ht => ?_
  have hshort := statement_shorter reader_expression ht
  refine .seq (.lift _ _) (tidy_endOfStatement braced t).orderly (Nat.le_refl _) fun _ u hu => ?_
  exact .bind (h.statements (by omega) (by omega)) fun _ v _ => .lift (pure _) v

theorem next_statements (h : Suffices d) {braced : Bool} (hleft : s.rest.length ≤ left.length)
    (hd : 6 * s.rest.length + 4 < d + 1) :
    Ends (Body.statements (.within d) braced)
      (Parser.statements Parser.expression braced left) s := by
  cases left with
  | nil => exact .at_end hleft (.lift (endOfInput braced) s)
  | cons y left =>
      have hfirst := h.firstStatement braced hleft hd
      apply Ends.of_current
      rcases hs : s.rest with _ | ⟨⟨span, token⟩, rest⟩
      · exact .lift (endOfInput braced) s
      · cases token
        case newline =>
          simp only [hs, List.length_cons] at hleft hd
          apply Ends.of_advance
          rw [hs, List.tail_cons]
          exact h.statements (Nat.le_of_succ_le_succ hleft) (by dsimp only; omega)
        case blockClose =>
          cases braced with
          | false => exact hfirst
          | true => exact .lift (pure []) s
        all_goals exact hfirst

/-! ### Operands -/

theorem blockInside (h : Suffices d) (hd : 6 * s.rest.length + 4 < d) :
    Ends (Body.blockInside (.within d)) (Parser.blockInside Parser.expression) s := by
  refine .of_bound (.bind (h.statements (Nat.le_refl _) hd) fun body t _ => ?_)
  exact .of_advance (.lift (pure body) _)

theorem next_block (h : Suffices d) {opening : Span} (hd : 6 * s.rest.tail.length + 5 < d + 1) :
    Ends (Body.block (.within d) opening) (Parser.block Parser.expression opening) s := by
  apply Ends.of_advance
  refine .bind (.inBlock (.bind (.inScope ?_) fun body t _ => .lift (pure _) t)) fun inside u _ => ?_
  · have hinside : 6 * s.rest.tail.length + 4 < d := by omega
    exact h.blockInside hinside
  · obtain ⟨depth, body⟩ := inside
    dsimp only
    cases blockOf depth body with
    | ok tree => exact .lift (pure tree) u
    | error cause => exact .lift (throw _) u

theorem next_group (h : Suffices d) (hd : 6 * s.rest.tail.length + 5 < d + 1) :
    Ends (Body.group (.within d)) (Parser.group Parser.expression) s := by
  apply Ends.of_advance
  refine .bind (h.expression (by dsimp only; omega)) fun expr t _ => ?_
  exact .bind (.lift _ _) fun _ u _ => .lift (pure _) u

theorem afterArgument (h : Suffices d) (first : Tree) (hleft : s.rest.length ≤ left.length)
    (hd : 6 * s.rest.length + 3 < d) :
    Ends (Body.afterArgument (.within d) first)
      (Parser.afterArgument Parser.expression left first) s := by
  have htail := List.length_tail (l := s.rest)
  apply Ends.of_current
  rcases s.rest.head?.map Lexeme.token with _ | token
  · exact .lift (unexpected _) s
  · cases token
    case comma =>
      apply Ends.of_advance
      refine .bind (h.argumentList ?_ ?_) fun _ t _ => .lift (pure _) t
      · dsimp only
        omega
      · dsimp only
        omega
    case parenClose => exact .of_advance (.lift (pure _) _)
    case number | ident | parenOpen | blockOpen => exact .lift (fail _) s
    all_goals exact .lift (unexpected _) s

theorem next_argumentList (h : Suffices d) (hleft : s.rest.length ≤ left.length)
    (hd : 6 * s.rest.length + 3 < d + 1) :
    Ends (Body.argumentList (.within d)) (Parser.argumentList Parser.expression left) s := by
  cases left with
  | nil => exact .at_end hleft (.lift (unexpected _) s)
  | cons y left =>
      have hfirst : Ends ((Calls.within d).expression >>= Body.afterArgument (.within d))
          (Parser.expression >>= Parser.afterArgument Parser.expression left) s := by
        refine .bind (h.expression (by omega)) fun first t ht => ?_
        have hshort := reader_expression.shorter ht
        rw [List.length_cons] at hleft
        exact h.afterArgument first (by omega) (by omega)
      apply Ends.of_current
      rcases s.rest.head?.map Lexeme.token with _ | token
      · exact .lift (unexpected _) s
      · cases token
        case parenClose | comma => exact .lift (fail _) s
        all_goals exact hfirst

theorem next_arguments (h : Suffices d) (hd : 6 * s.rest.tail.length + 5 < d + 1) :
    Ends (Body.arguments (.within d)) (Parser.arguments Parser.expression) s :=
  .of_advance (.of_bound (h.argumentList (Nat.le_refl _) (by dsimp only; omega)))

theorem next_call (h : Suffices d) {name : String} (hd : 6 * s.rest.tail.length + 5 < d + 1) :
    Ends (Body.call (.within d) name) (Parser.call Parser.expression name) s := by
  apply Ends.of_advance
  apply Ends.of_current
  split
  · next hopen =>
      -- The parenthesis lies behind the name, so that there are two tokens to count.
      obtain ⟨span, rest, hs⟩ := exists_of_head hopen
      have hlength := length_tail_succ hs
      refine .bind (h.arguments ?_) fun args t _ => .lift (pure _) t
      dsimp only at hlength ⊢
      omega
  · exact .lift (pure _) _

theorem next_primary (h : Suffices d) (hd : 6 * s.rest.length + 1 < d + 1) :
    Ends (Body.primary (.within d)) (Parser.primary Parser.expression) s := by
  apply Ends.of_get
  rcases hs : s.rest with _ | ⟨⟨span, token⟩, rest⟩
  · exact .lift (unexpected _) s
  · have htail : 6 * s.rest.tail.length + 5 < d := by
      have hlength := length_tail_succ hs
      omega
    cases token
    case number v => exact .of_advance (.lift (pure _) _)
    case blockOpen => exact h.block htail
    case parenOpen => exact h.group htail
    case ident x =>
      apply Ends.of_get
      dsimp only
      split
      · exact .lift (fail _) s
      · exact h.call htail
    all_goals exact .lift (unexpected _) s

/-! ### Expressions -/

theorem exists_bindsTighter (than : Nat) (s : State) :
    ∃ tighter, bindsTighter than s = .ok tighter s := by
  rw [bindsTighter, bind_run, current_run]
  rcases s.rest.head?.map Lexeme.token with _ | token
  · exact ⟨false, rfl⟩
  · cases token <;> exact ⟨_, rfl⟩

theorem next_operators (h : Suffices d) {lhs : Tree} {least : Nat}
    (hleft : s.rest.length ≤ left.length) (hd : 6 * s.rest.length < d + 1) :
    Ends (Body.operators (.within d) lhs least)
      (Parser.operators Parser.expression left lhs least) s := by
  cases left with
  | nil => exact .at_end hleft (.lift (pure lhs) s)
  | cons y left =>
      apply Ends.of_current
      rcases hs : s.rest with _ | ⟨⟨span, token⟩, rest⟩
      · exact .lift (pure lhs) s
      · cases token
        case binop op =>
          change Ends (if precedence op < least then _ else _)
            (if precedence op < least then _ else _) s
          split
          · exact .lift (pure lhs) s
          · -- The operator and its operand are read in front of either call of the loop.
            simp only [hs, List.length_cons] at hleft hd
            apply Ends.of_advance
            rw [hs, List.tail_cons]
            refine .bind (h.primary (by dsimp only; omega)) fun operand t ht => ?_
            have hshort : t.rest.length < rest.length := primary_shorter reader_expression ht
            obtain ⟨tighter, htighter⟩ := exists_bindsTighter (precedence op) t
            refine .bind (.lift _ t) fun _ u hu => ?_
            cases htighter.symm.trans hu
            cases tighter with
            | false => exact h.operators (by omega) (by omega)
            | true =>
                refine .seq (h.operators (by omega) (by omega))
                  (tidy_operators reader_expression left operand _ t).orderly (Nat.le_refl _)
                  fun rhs u hu => ?_
                exact h.operators (by omega) (by omega)
        all_goals exact .lift (pure lhs) s

theorem next_expression (h : Suffices d) (hd : 6 * s.rest.length + 2 < d + 1) :
    Ends (Body.expression (.within d)) Parser.expression s := by
  rw [expression_eq]
  refine .bind (h.primary (by omega)) fun lhs t ht => ?_
  have hshort := primary_shorter reader_expression ht
  exact .of_bound (h.operators (Nat.le_refl _) (by omega))

end Suffices

/-- A production at one depth calls others at the depth below. -/
theorem calls_suffice (d : Nat) : Suffices d := by
  induction d with
  | zero => constructor <;> intros <;> omega
  | succ d ih =>
      exact {
        parameterList := ih.next_parameterList
        value := ih.next_value
        definition := ih.next_definition
        statement := ih.next_statement
        statements := ih.next_statements
        block := ih.next_block
        group := ih.next_group
        argumentList := ih.next_argumentList
        arguments := ih.next_arguments
        call := ih.next_call
        primary := ih.next_primary
        operators := ih.next_operators
        expression := ih.next_expression }

end Lila.Parser
