import Lila.Tree.Parser

/-! # Runs of the productions

Equations for the productions by the token they find in front. They are the only
place where the text of a production is opened for its choice of branch; later
statements about runs go through them.
-/

namespace Lila.Parser

variable {α β : Type}

/-- The state in which a run ends, whether it succeeds or fails. -/
def endState : EStateM.Result ParseError State α → State
  | .ok _ s | .error _ s => s

@[simp] theorem endState_ok (a : α) (s : State) :
    endState (.ok a s : EStateM.Result ParseError State α) = s := rfl

@[simp] theorem endState_error (e : ParseError) (s : State) :
    endState (.error e s : EStateM.Result ParseError State α) = s := rfl

theorem bind_eq_ok {p : Parser α} {f : α → Parser β} {s u : State} {b : β} :
    (p >>= f) s = .ok b u ↔ ∃ a t, p s = .ok a t ∧ f a t = .ok b u := by
  rw [bind_run]
  cases h : p s with
  | ok a t =>
      constructor
      · intro hf
        exact ⟨a, t, rfl, hf⟩
      · rintro ⟨a', t', heq, hf⟩
        cases heq
        exact hf
  | error e t => simp

/-! ## Single tokens -/

theorem exists_of_head {lexemes : List Lexeme} {token : Token}
    (h : lexemes.head?.map Lexeme.token = some token) :
    ∃ span rest, lexemes = ⟨span, token⟩ :: rest := by
  cases lexemes with
  | nil => simp at h
  | cons x rest =>
      simp only [List.head?_cons, Option.map_some, Option.some.injEq] at h
      exact ⟨x.span, rest, by rw [← h]⟩

theorem unexpected_eq_fail (expected : Expectation) (s : State) :
    ∃ cause, (∀ x path, cause ≠ .unknownName x path) ∧
      (unexpected expected : Parser α) s = fail cause s := by
  cases hs : s.rest with
  | nil =>
      exact ⟨.unexpectedEnd expected, by simp, by simp [unexpected, bind_run, current_run, hs]⟩
  | cons x rest =>
      exact ⟨.unexpectedToken x.token expected, by simp,
        by simp [unexpected, bind_run, current_run, hs]⟩

theorem expect_run (token : Token) (s : State) :
    expect token s =
      if s.rest.head?.map Lexeme.token = some token then .ok () { s with rest := s.rest.tail }
      else unexpected (.token token) s := by
  simp only [expect, bind_run, current_run]
  split <;> rfl

theorem expect_here {token : Token} {s : State} {span : Span} {rest : List Lexeme}
    (hs : s.rest = ⟨span, token⟩ :: rest) : expect token s = .ok () { s with rest := rest } := by
  simp [expect_run, hs]

theorem name_ident (expected : Expectation) {s : State} {span : Span} {x : String}
    {rest : List Lexeme} (hs : s.rest = ⟨span, .ident x⟩ :: rest) :
    name expected s = .ok (x, span) { s with rest := rest } := by
  simp only [name, bind_run, get_run, hs]
  simp only [advance_run, pure_run, hs, List.tail_cons]

theorem name_other (expected : Expectation) {s : State}
    (hs : ∀ span x rest, s.rest ≠ ⟨span, .ident x⟩ :: rest) :
    name expected s = unexpected expected s := by
  cases h : s.rest with
  | nil => simp only [name, bind_run, get_run, h]
  | cons lexeme rest =>
      obtain ⟨span, token⟩ := lexeme
      cases token
      case ident x => exact (hs span x rest h).elim
      all_goals simp only [name, bind_run, get_run, h]

/-- A new name is read without a look at the token behind it. -/
theorem newName_ident (expected : Expectation) {s : State} {span : Span} {x : String}
    {rest : List Lexeme} (hs : s.rest = ⟨span, .ident x⟩ :: rest) :
    newName expected s =
      if s.scopes.isDefinedHere x then .error ⟨.alreadyDefined x, some span⟩ { s with rest := rest }
      else .ok x { s with rest := rest } := by
  simp only [newName, bind_run, name_ident expected hs, get_run]
  split <;> rfl

theorem newName_other (expected : Expectation) {s : State}
    (hs : ∀ span x rest, s.rest ≠ ⟨span, .ident x⟩ :: rest) :
    newName expected s = unexpected expected s := by
  simp only [newName, bind_run, name_other expected hs, unexpected_run]
  cases s.rest <;> rfl

theorem endOfStatement_run (braced : Bool) (s : State) :
    endOfStatement braced s =
      if s.rest = [] ∨ s.rest.head?.map Lexeme.token = some .newline ∨
        (braced = true ∧ s.rest.head?.map Lexeme.token = some .blockClose) then .ok () s
      else unexpected .statementEnd s := by
  cases hs : s.rest with
  | nil => simp [endOfStatement, bind_run, current_run, hs, pure_run]
  | cons x rest =>
      obtain ⟨span, token⟩ := x
      cases braced <;> cases token <;>
        simp [endOfStatement, bind_run, current_run, hs, pure_run]

/-! ## Bindings -/

theorem define_run (x : String) (params : List String) (s : State) :
    define x params s =
      .ok () { s with
        scopes := s.scopes.define x params
        events := .bound x (s.scopes.isDefinedHere x) :: s.events } := rfl

theorem parameters_open {s : State} {span : Span} {rest : List Lexeme}
    (hs : s.rest = ⟨span, .parenOpen⟩ :: rest) :
    parameters s = parameterList rest [] { s with rest := rest } := by
  simp [parameters, bind_run, current_run, advance_run, get_run, hs]

theorem parameters_other {s : State} (hs : s.rest.head?.map Lexeme.token ≠ some .parenOpen) :
    parameters s = .ok [] s := by
  simp [parameters, bind_run, current_run, pure_run, hs]

def afterParameter (left : List Lexeme) (params : List String) : Parser (List String) := do
  match ← current with
  | some .comma => advance; parameterList left params
  | some .parenClose => advance; return params
  | some (.ident _) => fail .surplusArgument
  | _ => unexpected .parameterSeparator

theorem afterParameter_comma (left : List Lexeme) (params : List String) {s : State} {span : Span}
    {rest : List Lexeme} (hs : s.rest = ⟨span, .comma⟩ :: rest) :
    afterParameter left params s = parameterList left params { s with rest := rest } := by
  simp [afterParameter, bind_run, current_run, advance_run, hs]

theorem afterParameter_close (left : List Lexeme) (params : List String) {s : State} {span : Span}
    {rest : List Lexeme} (hs : s.rest = ⟨span, .parenClose⟩ :: rest) :
    afterParameter left params s = .ok params { s with rest := rest } := by
  rw [afterParameter, bind_run, current_run, hs]
  simp only [List.head?_cons, Option.map_some, bind_run, advance_run, hs, List.tail_cons, pure_run]

theorem parameterList_ident (y : Lexeme) (left : List Lexeme) (seen : List String) {s : State}
    {span : Span} {param : String} {rest : List Lexeme}
    (hs : s.rest = ⟨span, .ident param⟩ :: rest) :
    parameterList (y :: left) seen s =
      if param ∈ seen then fail (.repeatedParameter param) s
      else afterParameter left (seen ++ [param]) { s with rest := rest } := by
  rw [parameterList, bind_run, current_run, hs]
  simp only [List.head?_cons, Option.map_some]
  split
  · rfl
  · rw [bind_run, advance_run, hs]
    rfl

/-- Where a parameter should stand and does not, the list fails with a cause
that depends on the token only. -/
def missingParameter : Parser (List String) := do
  match ← current with
  | some .parenClose | some .comma => fail .missingArgument
  | _ => unexpected .argumentName

theorem parameterList_other (left : List Lexeme) (seen : List String) {s : State}
    (hs : ∀ span x rest, s.rest ≠ ⟨span, .ident x⟩ :: rest) (hleft : s.rest.length ≤ left.length) :
    parameterList left seen s = missingParameter s := by
  rcases hr : s.rest with _ | ⟨⟨span, token⟩, rest⟩
  · cases left <;> simp [parameterList, missingParameter, bind_run, current_run, hr]
  · cases left with
    | nil => simp [hr] at hleft
    | cons y left =>
        cases token
        case ident x => exact (hs span x rest hr).elim
        all_goals simp [parameterList, missingParameter, bind_run, current_run, hr]

def afterVal (nested : Parser Tree) : Parser Tree := do
  let name ← newName .valueName
  expect .assign
  let expr ← nested
  define name []
  return .value name expr

theorem value_run (nested : Parser Tree) {s : State} {x : Lexeme} {rest : List Lexeme}
    (hs : s.rest = x :: rest) : value nested s = afterVal nested { s with rest := rest } := by
  rw [value, bind_run, advance_run, hs]
  rfl

def definitionInside (nested : Parser Tree) : Parser (List String × Tree) := do
  let params ← parameters
  params.forM fun param => define param []
  expect .assign
  return (params, ← nested)

def afterDef (nested : Parser Tree) : Parser Tree := do
  let name ← newName .definitionName
  let (params, body) ← inScope name (definitionInside nested)
  define name params
  return .definition name params body

theorem definition_run (nested : Parser Tree) {s : State} {x : Lexeme} {rest : List Lexeme}
    (hs : s.rest = x :: rest) :
    definition nested s = afterDef nested { s with rest := rest } := by
  rw [definition, bind_run, advance_run, hs]
  rfl

/-! ## Statements -/

theorem statement_definition (nested : Parser Tree) {s : State} {span : Span} {rest : List Lexeme}
    (hs : s.rest = ⟨span, .kwDef⟩ :: rest) :
    statement nested s = afterDef nested { s with rest := rest } := by
  rw [← definition_run nested hs]
  simp [statement, bind_run, current_run, hs]

theorem statement_value (nested : Parser Tree) {s : State} {span : Span} {rest : List Lexeme}
    (hs : s.rest = ⟨span, .kwVal⟩ :: rest) :
    statement nested s = afterVal nested { s with rest := rest } := by
  rw [← value_run nested hs]
  simp [statement, bind_run, current_run, hs]

theorem statement_expression (nested : Parser Tree) {s : State}
    (hdef : s.rest.head?.map Lexeme.token ≠ some .kwDef)
    (hval : s.rest.head?.map Lexeme.token ≠ some .kwVal) : statement nested s = nested s := by
  rw [statement, bind_run, current_run]
  rcases hs : s.rest with _ | ⟨⟨span, token⟩, rest⟩
  · rfl
  · cases token
    case kwDef => simp [hs] at hdef
    case kwVal => simp [hs] at hval
    all_goals rfl

theorem statements_end (nested : Parser Tree) (braced : Bool) (left : List Lexeme) {s : State}
    (hs : s.rest = []) : statements nested braced left s = endOfInput braced s := by
  cases left with
  | nil => rfl
  | cons y left => simp [statements, bind_run, current_run, hs]

theorem statements_newline (nested : Parser Tree) (braced : Bool) (y : Lexeme) (left : List Lexeme)
    {s : State} {span : Span} {rest : List Lexeme} (hs : s.rest = ⟨span, .newline⟩ :: rest) :
    statements nested braced (y :: left) s =
      statements nested braced left { s with rest := rest } := by
  simp [statements, bind_run, current_run, advance_run, hs]

theorem statements_close (nested : Parser Tree) (y : Lexeme) (left : List Lexeme) {s : State}
    {span : Span} {rest : List Lexeme} (hs : s.rest = ⟨span, .blockClose⟩ :: rest) :
    statements nested true (y :: left) s = .ok [] s := by
  simp [statements, bind_run, current_run, pure_run, hs]

def firstStatement (nested : Parser Tree) (braced : Bool) (left : List Lexeme) :
    Parser (List Tree) := do
  let first ← statement nested
  endOfStatement braced
  return first :: (← statements nested braced left)

theorem statements_first (nested : Parser Tree) (braced : Bool) (y : Lexeme) (left : List Lexeme)
    {s : State} {x : Lexeme} {rest : List Lexeme} (hs : s.rest = x :: rest)
    (hline : x.token ≠ .newline) (hclose : braced = true → x.token ≠ .blockClose) :
    statements nested braced (y :: left) s = firstStatement nested braced left s := by
  rw [statements, bind_run, current_run, hs]
  obtain ⟨span, token⟩ := x
  cases token
  case newline => exact (hline rfl).elim
  case blockClose =>
    cases braced
    · rfl
    · exact (hclose rfl rfl).elim
  all_goals rfl

/-- Every turn of the loop over statements: it ends, passes over a line break, or
reads a statement. -/
theorem statements_step (nested : Parser Tree) (braced : Bool) (y : Lexeme) (left : List Lexeme)
    (s : State) :
    (s.rest = [] ∧ statements nested braced (y :: left) s = endOfInput braced s) ∨
    (∃ span rest, s.rest = ⟨span, .newline⟩ :: rest ∧
      statements nested braced (y :: left) s =
        statements nested braced left { s with rest := rest }) ∨
    (braced = true ∧ (∃ span rest, s.rest = ⟨span, .blockClose⟩ :: rest) ∧
      statements nested braced (y :: left) s = .ok [] s) ∨
    (∃ x rest, s.rest = x :: rest ∧ x.token ≠ .newline ∧
      (braced = true → x.token ≠ .blockClose) ∧
      statements nested braced (y :: left) s = firstStatement nested braced left s) := by
  rcases hs : s.rest with _ | ⟨⟨span, token⟩, rest⟩
  · exact .inl ⟨rfl, statements_end nested braced _ hs⟩
  · by_cases hline : token = .newline
    · subst hline
      exact .inr (.inl ⟨span, rest, rfl, statements_newline nested braced y left hs⟩)
    · by_cases hclose : braced = true ∧ token = .blockClose
      · obtain ⟨rfl, rfl⟩ := hclose
        exact .inr (.inr (.inl ⟨rfl, ⟨span, rest, rfl⟩, statements_close nested y left hs⟩))
      · have hclose' : braced = true → token ≠ .blockClose := fun hb ht => hclose ⟨hb, ht⟩
        exact .inr (.inr (.inr ⟨_, rest, rfl, hline, hclose',
          statements_first nested braced y left hs hline hclose'⟩))

/-! ## Operands -/

def startsOperand : Token → Bool
  | .number _ | .ident _ | .blockOpen | .parenOpen => true
  | _ => false

theorem primary_number (nested : Parser Tree) {s : State} {span : Span} {v : Double}
    {rest : List Lexeme} (hs : s.rest = ⟨span, .number v⟩ :: rest) :
    primary nested s = .ok (.number v) { s with rest := rest } := by
  simp only [primary, bind_run, get_run, hs]
  simp only [advance_run, pure_run, hs, List.tail_cons]

theorem primary_block (nested : Parser Tree) {s : State} {span : Span} {rest : List Lexeme}
    (hs : s.rest = ⟨span, .blockOpen⟩ :: rest) : primary nested s = block nested span s := by
  simp only [primary, bind_run, get_run, hs]

def blockInside (nested : Parser Tree) : Parser (List Tree) := do
  let body ← statements nested true (← get).rest
  advance
  return body

theorem blockInside_run (nested : Parser Tree) (s : State) :
    blockInside nested s =
      match statements nested true s.rest s with
      | .ok body t => .ok body { t with rest := t.rest.tail }
      | .error e t => .error e t := by
  simp only [blockInside, bind_run, get_run, advance_run, pure_run]
  cases statements nested true s.rest s <;> rfl

theorem block_run (nested : Parser Tree) (opening : Span) {s : State} {x : Lexeme}
    {rest : List Lexeme} (hs : s.rest = x :: rest) :
    block nested opening s =
      match inScope ("anon" ++ toString s.opened) (blockInside nested)
        { s with rest := rest, opened := s.opened + 1, depth := s.depth + 1 } with
      | .error e t => .error e { t with depth := t.depth - 1 }
      | .ok body t =>
          match blockOf (s.depth + 1) body with
          | .ok tree => .ok tree { t with depth := t.depth - 1 }
          | .error cause => .error ⟨cause, some opening⟩ { t with depth := t.depth - 1 } := by
  simp only [block, bind_run, advance_run, hs, List.tail_cons, inBlock]
  rw [← blockInside]
  cases inScope ("anon" ++ toString s.opened) (blockInside nested)
      { s with rest := rest, opened := s.opened + 1, depth := s.depth + 1 } with
  | error e t => rfl
  | ok body t =>
      cases hb : blockOf (s.depth + 1) body with
      | ok tree => simp only [pure_run, hb]
      | error cause =>
          simp only [pure_run, hb]
          rfl

theorem primary_group (nested : Parser Tree) {s : State} {span : Span} {rest : List Lexeme}
    (hs : s.rest = ⟨span, .parenOpen⟩ :: rest) : primary nested s = group nested s := by
  simp only [primary, bind_run, get_run, hs]

theorem primary_ident (nested : Parser Tree) {s : State} {span : Span} {x : String}
    {rest : List Lexeme} (hs : s.rest = ⟨span, .ident x⟩ :: rest) :
    primary nested s =
      if (s.scopes.lookup x).isNone then fail (.unknownName x s.scopes.path) s
      else call nested x s := by
  simp only [primary, bind_run, get_run, hs]
  split <;> rfl

theorem primary_other (nested : Parser Tree) {s : State}
    (hs : ∀ x rest, s.rest = x :: rest → startsOperand x.token = false) :
    primary nested s = unexpected .primary s := by
  simp only [primary, bind_run, get_run]
  rcases hr : s.rest with _ | ⟨⟨span, token⟩, rest⟩
  · rfl
  · have htoken := hs _ _ hr
    cases token <;> first | rfl | simp [startsOperand] at htoken

/-! ## Arguments -/

def afterArgument (nested : Parser Tree) (left : List Lexeme) (first : Tree) :
    Parser (List Tree) := do
  match ← current with
  | some .comma => advance; return first :: (← argumentList nested left)
  | some .parenClose => advance; return [first]
  | some (.number _) | some (.ident _) | some .parenOpen | some .blockOpen =>
      fail .surplusArgument
  | _ => unexpected .argumentSeparator

theorem afterArgument_comma (nested : Parser Tree) (left : List Lexeme) (first : Tree) {s : State}
    {span : Span} {rest : List Lexeme} (hs : s.rest = ⟨span, .comma⟩ :: rest) :
    afterArgument nested left first s =
      (do return first :: (← argumentList nested left) : Parser (List Tree))
        { s with rest := rest } := by
  rw [afterArgument, bind_run, current_run, hs]
  simp only [List.head?_cons, Option.map_some]
  rw [bind_run, advance_run, hs]
  rfl

theorem afterArgument_close (nested : Parser Tree) (left : List Lexeme) (first : Tree) {s : State}
    {span : Span} {rest : List Lexeme} (hs : s.rest = ⟨span, .parenClose⟩ :: rest) :
    afterArgument nested left first s = .ok [first] { s with rest := rest } := by
  rw [afterArgument, bind_run, current_run, hs]
  simp only [List.head?_cons, Option.map_some, bind_run, advance_run, hs, List.tail_cons, pure_run]

theorem argumentList_end (nested : Parser Tree) (left : List Lexeme) {s : State}
    (hs : s.rest = []) : argumentList nested left s = unexpected .argument s := by
  cases left with
  | nil => rfl
  | cons y left => simp [argumentList, bind_run, current_run, hs]

theorem argumentList_missing (nested : Parser Tree) (y : Lexeme) (left : List Lexeme) {s : State}
    {x : Lexeme} {rest : List Lexeme} (hs : s.rest = x :: rest)
    (hx : x.token = .parenClose ∨ x.token = .comma) :
    argumentList nested (y :: left) s = fail .missingArgument s := by
  obtain ⟨span, token⟩ := x
  rcases hx with rfl | rfl <;> simp [argumentList, bind_run, current_run, hs]

theorem argumentList_first (nested : Parser Tree) (y : Lexeme) (left : List Lexeme) {s : State}
    {x : Lexeme} {rest : List Lexeme} (hs : s.rest = x :: rest) (hclose : x.token ≠ .parenClose)
    (hcomma : x.token ≠ .comma) :
    argumentList nested (y :: left) s = (nested >>= afterArgument nested left) s := by
  rw [argumentList, bind_run, current_run, hs]
  obtain ⟨span, token⟩ := x
  cases token
  case parenClose => exact (hclose rfl).elim
  case comma => exact (hcomma rfl).elim
  all_goals rfl

theorem call_open (nested : Parser Tree) (x : String) {s : State} {y : Lexeme} {span : Span}
    {rest : List Lexeme} (hs : s.rest = y :: ⟨span, .parenOpen⟩ :: rest) :
    call nested x s =
      match argumentList nested rest { s with rest := rest } with
      | .ok args t => .ok (.call x args) t
      | .error e t => .error e t := by
  simp only [call, arguments, bind_run, advance_run, current_run, get_run, hs, List.tail_cons,
    List.head?_cons, Option.map_some, if_true]
  cases argumentList nested rest { s with rest := rest } <;> rfl

theorem call_plain (nested : Parser Tree) (x : String) {s : State} {y : Lexeme}
    {rest : List Lexeme} (hs : s.rest = y :: rest)
    (hrest : rest.head?.map Lexeme.token ≠ some .parenOpen) :
    call nested x s = .ok (.call x []) { s with rest := rest } := by
  simp only [call, bind_run, advance_run, current_run, hs, List.tail_cons, if_neg hrest, pure_run]

/-! ## Operators -/

/-- No operator of the given precedence or above is in front. -/
def Stops (least : Nat) (s : State) : Prop :=
  ∀ span op rest, s.rest = ⟨span, .binop op⟩ :: rest → precedence op < least

theorem stops_of_nil (least : Nat) {s : State} (hs : s.rest = []) : Stops least s := by
  intro span op rest hr
  rw [hs] at hr
  cases hr

theorem stops_of_cons {least : Nat} {s : State} {x : Lexeme} {rest : List Lexeme}
    (hs : s.rest = x :: rest) (hx : ∀ op, x.token = .binop op → precedence op < least) :
    Stops least s := by
  intro span op rest' hr
  rw [hs] at hr
  cases hr
  exact hx op rfl

theorem operators_stop (nested : Parser Tree) (left : List Lexeme) (lhs : Tree) {least : Nat}
    {s : State} (hs : Stops least s) : operators nested left lhs least s = .ok lhs s := by
  cases left with
  | nil => rfl
  | cons y left =>
      rw [operators, bind_run, current_run]
      rcases hr : s.rest with _ | ⟨⟨span, token⟩, rest⟩
      · rfl
      · cases token
        case binop op => simp [hs span op rest hr, pure_run]
        all_goals rfl

/-- What follows an operator: its right operand, which takes the operators that
bind more tightly, and then the operators after that. -/
def afterOperator (nested : Parser Tree) (left : List Lexeme) (lhs : Tree) (least : Nat)
    (op : String) : Parser Tree := do
  let operand ← primary nested
  let rhs ← operators nested left operand (precedence op + 1)
  operators nested left (.binary op lhs rhs) least

/-- Where no operator binds more tightly, a look for such operators finds none. -/
theorem bindsTighter_bind (nested : Parser Tree) (left : List Lexeme) (operand : Tree) (than : Nat)
    (k : Tree → Parser α) (s : State) :
    (do
      let tighter ← bindsTighter than
      let rhs ← if tighter then operators nested left operand (than + 1) else pure operand
      k rhs : Parser α) s = (operators nested left operand (than + 1) >>= k) s := by
  by_cases hs : Stops (than + 1) s
  · have hlook : bindsTighter than s = .ok false s := by
      rw [bindsTighter, bind_run, current_run]
      rcases hr : s.rest with _ | ⟨⟨span, token⟩, rest⟩
      · rfl
      · cases token
        case binop op =>
          have hop := hs span op rest hr
          simp only [List.head?_cons, Option.map_some, pure_run]
          rw [decide_eq_false (by omega)]
        all_goals rfl
    rw [bind_run, hlook, bind_run, operators_stop nested left operand hs]
    rfl
  · obtain ⟨span, op, rest, hr, hop⟩ :
        ∃ span op rest, s.rest = ⟨span, .binop op⟩ :: rest ∧ than < precedence op := by
      rcases hr : s.rest with _ | ⟨⟨span, token⟩, rest⟩
      · exact (hs (stops_of_nil _ hr)).elim
      · by_cases hop : ∃ op, token = .binop op ∧ than < precedence op
        · obtain ⟨op, rfl, hop⟩ := hop
          exact ⟨span, op, rest, rfl, hop⟩
        · refine (hs (stops_of_cons hr fun op hx => ?_)).elim
          exact Nat.lt_succ_of_le (Nat.le_of_not_lt fun hlt => hop ⟨op, hx, hlt⟩)
    rw [bind_run, bindsTighter, bind_run, current_run, hr]
    simp only [List.head?_cons, Option.map_some, pure_run, decide_eq_true hop, if_true]

theorem operators_take (nested : Parser Tree) (y : Lexeme) (left : List Lexeme) (lhs : Tree)
    (least : Nat) {s : State} {span : Span} {op : String} {rest : List Lexeme}
    (hs : s.rest = ⟨span, .binop op⟩ :: rest) (hop : least ≤ precedence op) :
    operators nested (y :: left) lhs least s =
      afterOperator nested left lhs least op { s with rest := rest } := by
  rw [operators, bind_run, current_run, hs]
  simp only [List.head?_cons, Option.map_some, if_neg (Nat.not_lt.2 hop)]
  rw [bind_run, advance_run, hs, List.tail_cons, afterOperator]
  dsimp only
  rw [bind_run, bind_run]
  cases primary nested { s with rest := rest } with
  | ok operand t => exact bindsTighter_bind nested left operand (precedence op) _ t
  | error e t => rfl

/-- Every turn of the loop over operators: it stops, or takes one. -/
theorem operators_step (nested : Parser Tree) (y : Lexeme) (left : List Lexeme) (lhs : Tree)
    (least : Nat) (s : State) :
    (Stops least s ∧ operators nested (y :: left) lhs least s = .ok lhs s) ∨
    (∃ span op rest, s.rest = ⟨span, .binop op⟩ :: rest ∧ least ≤ precedence op ∧
      operators nested (y :: left) lhs least s =
        afterOperator nested left lhs least op { s with rest := rest }) := by
  by_cases hs : ∃ span op rest, s.rest = ⟨span, .binop op⟩ :: rest ∧ least ≤ precedence op
  · obtain ⟨span, op, rest, hs, hop⟩ := hs
    exact .inr ⟨span, op, rest, hs, hop, operators_take nested y left lhs least hs hop⟩
  · have hstop : Stops least s := fun span op rest hr =>
      Nat.lt_of_not_le fun hop => hs ⟨span, op, rest, hr, hop⟩
    exact .inl ⟨hstop, operators_stop nested _ lhs hstop⟩

theorem expressionAround_run (nested : Parser Tree) (s : State) :
    expressionAround nested s =
      match primary nested s with
      | .ok lhs t => operators nested t.rest lhs 0 t
      | .error e t => .error e t := by
  simp only [expressionAround, bind_run, get_run]
  cases primary nested s <;> rfl

theorem expression_run (s : State) : expression s = expressionWithin s.rest s := by
  simp only [expression, bind_run, get_run]

/-! ## Programs -/

theorem toOption_parse {lexemes : List Lexeme} {tree : Tree} :
    (parse lexemes).toOption = some tree ↔ parse lexemes = .ok tree := by
  cases parse lexemes <;> simp [Except.toOption]

instance (lexemes : List Lexeme) (tree : Tree) : Decidable (parse lexemes = .ok tree) :=
  decidable_of_iff _ toOption_parse

end Lila.Parser
