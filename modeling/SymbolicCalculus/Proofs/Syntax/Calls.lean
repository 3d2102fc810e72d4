import SymbolicCalculus.Proofs.Syntax.Climbing

/-!
The readers of trees told by the calls they make. The body of a routine goes on from the answer to
each call, and a further round of a loop is a call as well. No body runs another one, so that nothing
is said here of whether reading ends.
-/

set_option autoImplicit false

namespace SymbolicCalculus

/-- A tree or an error, and the place where reading stopped. -/
abbrev Answer := Except SyntaxError Tree × Cursor

def Outcome.answer {start : Cursor} (outcome : Outcome start Tree) : Answer :=
  (outcome.result, outcome.stop)

/-- A place that the given one lies behind. -/
def Cursor.earlier (c : Cursor) : Cursor := ⟨c.passed, ⟨.whitespace, .point 0, " "⟩ :: c.ahead⟩

theorem Cursor.remaining_lt_earlier (c : Cursor) : c.remaining < c.earlier.remaining :=
  Nat.lt_succ_self _

namespace Parser

/-! ## Routines -/

inductive Reader where
  | expression
  | primary
  | paren
  | literal
  deriving DecidableEq, Repr

inductive Routine where
  | read (reader : Reader)
  /-- Reads a value that nothing but white space may follow. -/
  | readWhole (reader : Reader)
  /-- From the head of the loop that joins operands to `lhs`. -/
  | climb (least : Precedence) (lhs : Tree)
  /-- From the head of the loop that completes `rhs`, the operand behind `connective`. -/
  | complete (connective : Connective) (rhs : Tree)
  deriving DecidableEq, Repr

/-- A routine and the place where it starts. -/
structure Task where
  routine : Routine
  cursor : Cursor
  deriving DecidableEq, Repr

def Reader.parser : Reader → Parser Tree
  | .expression => Parser.expression
  | .primary => Parser.primary
  | .paren => Parser.paren
  | .literal => fun c => (Parser.literal c).map .literal

/-- What the readers answer. Where a loop says that it started from does not matter. -/
def Task.answer : Task → Answer
  | ⟨.read reader, c⟩ => (reader.parser c).answer
  | ⟨.readWhole reader, c⟩ => (Cursor.readWhole reader.parser c).answer
  | ⟨.climb least lhs, c⟩ => (climb c.earlier lhs c c.remaining_lt_earlier least).answer
  | ⟨.complete sign rhs, c⟩ => (complete c.earlier sign rhs c c.remaining_lt_earlier).answer

/-- What a routine does up to a call, and how it goes on from the answer. -/
inductive Body where
  | done (answer : Answer)
  | call (task : Task) (next : Answer → Body)

namespace Body

/-- A call whose error is passed on from the place that is made of the one where the call stopped. -/
def relay (place : Cursor → Cursor) (task : Task) (next : Tree → Cursor → Body) : Body :=
  .call task fun answer =>
    match answer with
    | (.error error, stop) => .done (.error error, place stop)
    | (.ok tree, stop) => next tree stop

def proceed (task : Task) (next : Tree → Cursor → Body) : Body := relay id task next

/-- After a failure, the call has not moved. -/
def attempt (task : Task) (next : Tree → Cursor → Body) : Body :=
  relay (fun _ => task.cursor) task next

/-- What comes of a body if calls are answered in the given way, as far as they are answered. -/
def eval (answer? : Task → Option Answer) : Body → Option Answer
  | done answer => some answer
  | call task next => (answer? task).bind fun answer => (next answer).eval answer?

/-- The calls of a body, one after the other, if they are answered in the given way. -/
def calls (answer : Task → Answer) : Body → List Task
  | done _ => []
  | call task next => task :: (next (answer task)).calls answer

end Body

/-- The steps of each routine. Tokens and literals are read without calls. -/
def code : Task → Body
  | ⟨.readWhole reader, c⟩ =>
    .proceed ⟨.read reader, c⟩ fun tree stop =>
      match stop.peek? with
      | none => .done (.ok tree, stop.atEnd)
      | some token =>
        if token.kind = .closeParen then
          .done (.error ⟨[token.span], .unclosedParenthesis false⟩, stop)
        else .done (.error (.unexpected [.add, .mul] token), stop)
  | ⟨.read .expression, c⟩ =>
    .attempt ⟨.read .primary, c⟩ fun operand stop =>
      .proceed ⟨.climb .any operand, stop⟩ fun tree last =>
        match last.peek? with
        | none => .done (.ok tree, last)
        | some next =>
          if next.kind.startsPrimary then
            .done (.error ⟨[tree.span, next.span], .missingOperator⟩, last)
          else .done (.ok tree, last)
  | ⟨.read .primary, c⟩ =>
    match c.peek? with
    | none => .done (.error ⟨[c.endSpan], .unexpectedEnd⟩, c)
    | some token =>
      match token.kind with
      | .int | .float | .name =>
        .attempt ⟨.read .literal, c⟩ fun tree stop => .done (.ok tree, stop)
      | .openParen => .attempt ⟨.read .paren, c⟩ fun tree stop => .done (.ok tree, stop)
      | .closeParen =>
        if c.openParens = 0 then .done (.error ⟨[token.span], .unclosedParenthesis false⟩, c)
        else .done (.error (.unexpected operandKinds token), c)
      | _ => .done (.error (.unexpected operandKinds token), c)
  | ⟨.read .paren, c⟩ =>
    match (token .openParen c).restore with
    | .failure error stop => .done (.error error, stop)
    | .success opening inside _ =>
      match inside.peek? with
      | some ⟨.closeParen, span, _⟩ =>
        .done (.error ⟨[opening.span.through span], .emptyParenthesis⟩, inside)
      | _ =>
        .attempt ⟨.read .expression, inside⟩ fun inner behind =>
          match behind.peek? with
          | none => .done (.error ⟨[opening.span], .unclosedParenthesis true⟩, behind)
          | some next =>
            if next.kind = .closeParen then
              match (token .closeParen behind).restore with
              | .failure error stop => .done (.error error, stop)
              | .success closing stop _ =>
                .done (.ok (.paren inner (opening.span.through closing.span)), stop)
            else .done (.error (.unexpected [.add, .mul, .closeParen] next), behind)
  | ⟨.read .literal, c⟩ => .done ((literal c).map .literal).answer
  | ⟨.climb least lhs, c⟩ =>
    if (nextOperator? c).any (least ≤ ·.precedence) then
      match (connective c).restore with
      | .failure error stop => .done (.error error, stop)
      | .success sign behind _ =>
        .attempt ⟨.read .primary, behind⟩ fun operand stop =>
          .proceed ⟨.complete sign operand, stop⟩ fun rhs last =>
            .call ⟨.climb least (lhs.join sign rhs), last⟩ .done
    else .done (.ok lhs, c)
  | ⟨.complete sign rhs, c⟩ =>
    match nextOperator? c with
    | none => .done (.ok rhs, c)
    | some next =>
      if sign.operator.precedence < next.precedence then
        .proceed ⟨.climb next.precedence rhs, c⟩ fun longer stop =>
          .call ⟨.complete sign longer, stop⟩ .done
      else .done (.ok rhs, c)

/-- The answer if calls may be nested as deep as the number says. -/
def run? : Nat → Task → Option Answer
  | 0, _ => none
  | depth + 1, task => (code task).eval (run? depth)

/-! ## Loops -/

theorem answer_climb_eq {start start' c : Cursor} (lhs : Tree)
    (advanced : c.remaining < start.remaining) (advanced' : c.remaining < start'.remaining)
    (least : Precedence) :
    (climb start lhs c advanced least).answer = (climb start' lhs c advanced' least).answer := by
  by_cases binds : (nextOperator? c).any (least ≤ ·.precedence) = true
  · cases step : extend lhs c with
    | failure error stop =>
      rw [climb_of_failure binds step, climb_of_failure binds step]
      rfl
    | success longer stop further =>
      rw [climb_of_success binds step, climb_of_success binds step]
      exact answer_climb_eq longer _ _ least
  · rw [climb_of_none binds, climb_of_none binds]
    rfl
termination_by c.remaining

theorem answer_climb {start c : Cursor} (lhs : Tree) (advanced : c.remaining < start.remaining)
    (least : Precedence) :
    Task.answer ⟨.climb least lhs, c⟩ = (climb start lhs c advanced least).answer :=
  answer_climb_eq ..

theorem answer_complete_eq {start start' c : Cursor} (sign : Connective) (rhs : Tree)
    (advanced : c.remaining < start.remaining) (advanced' : c.remaining < start'.remaining) :
    (complete start sign rhs c advanced).answer =
      (complete start' sign rhs c advanced').answer := by
  obtain ⟨op, span⟩ := sign
  cases op with
  | add => rw [complete_add, complete_add, answer_climb_eq]
  | mul =>
    rw [complete_mul, complete_mul]
    rfl

theorem answer_complete {start c : Cursor} (sign : Connective) (rhs : Tree)
    (advanced : c.remaining < start.remaining) :
    Task.answer ⟨.complete sign rhs, c⟩ = (complete start sign rhs c advanced).answer :=
  answer_complete_eq ..

theorem binds_own {c : Cursor} {next : Operator} (ahead : nextOperator? c = some next) :
    (nextOperator? c).any (next.precedence ≤ ·.precedence) = true := by
  rw [ahead, Option.any_some]
  exact decide_eq_true (Nat.le_refl _)

/-- A climb that an operator binds tightly enough for moves on. -/
theorem remaining_lt_of_climb {start c stop : Cursor} {lhs tree : Tree}
    {advanced : c.remaining < start.remaining} {least : Precedence}
    {further : stop.remaining < start.remaining}
    (binds : (nextOperator? c).any (least ≤ ·.precedence) = true)
    (h : climb start lhs c advanced least = .success tree stop further) :
    stop.remaining < c.remaining := by
  cases step : extend lhs c with
  | failure error stop =>
    rw [climb_of_failure binds step] at h
    contradiction
  | success longer behind closer =>
    rw [climb_of_success binds step, climb_widen longer closer advanced] at h
    cases rest : climb c longer behind closer least with
    | failure error stop =>
      rw [rest] at h
      contradiction
    | success tree last furthest =>
      rw [rest] at h
      cases h
      exact furthest

/-- An operand that a tighter operator follows is climbed over first, and then completed again. -/
theorem complete_of_tighter {start c : Cursor} {sign : Connective} (rhs : Tree)
    (advanced : c.remaining < start.remaining) {next : Operator}
    (ahead : nextOperator? c = some next)
    (tighter : sign.operator.precedence < next.precedence) :
    complete start sign rhs c advanced =
      match climb start rhs c advanced next.precedence with
      | .failure error stop => .failure error stop
      | .success longer stop further => complete start sign longer stop further := by
  have binds := binds_own ahead
  rw [complete, ahead]
  simp only [tighter, if_true]
  cases step : extend rhs c with
  | failure error stop => rw [climb_of_failure binds step]
  | success longer stop further =>
    rw [climb_of_success binds step, climb_widen longer further advanced]
    simp only
    cases climb c longer stop further next.precedence <;> rfl

end Parser

end SymbolicCalculus
