import Mathlib.Logic.Relation
import SymbolicCalculus.Proofs.Syntax.Calls
import SymbolicCalculus.Proofs.Syntax.Yield

/-!
Reading ends, on any tokens and from any place. A routine that calls another has passed a token, or
the other one ranks below it, so that calls cannot be nested any deeper than the tokens ahead allow.
-/

set_option autoImplicit false

namespace SymbolicCalculus

namespace Cursor

/-- The number of tokens passed. -/
def position (c : Cursor) : Nat := c.passed.length

theorem position_add_remaining (c : Cursor) : c.position + c.remaining = c.tokens.length := by
  simp [position, remaining, tokens]

/-- A token is read within the text, also one that is given back. -/
theorem tokens_next (c : Cursor) : c.next.stop.tokens = c.tokens := by
  rw [← c.tokens_skipWhitespace]
  unfold next
  split
  · rename_i skipped _
    simp [skipped, Outcome.stop, tokens]
  · rename_i skipped _
    rw [skipped, Outcome.stop]

theorem tokens_atEnd (c : Cursor) : c.atEnd.tokens = c.tokens := by
  simp [tokens, atEnd, List.reverseAux_eq]

end Cursor

namespace Outcome

variable {start : Cursor} {α β : Type}

theorem stop_map (f : α → β) (outcome : Outcome start α) : (outcome.map f).stop = outcome.stop := by
  cases outcome <;> rfl

theorem restore_map (f : α → β) (outcome : Outcome start α) :
    outcome.restore.map f = (outcome.map f).restore := by
  cases outcome <;> rfl

theorem restore_restore (outcome : Outcome start α) :
    outcome.restore.restore = outcome.restore := by
  cases outcome <;> rfl

theorem Exact.tokens_restore {made : α → List Token → Prop} {outcome : Outcome start α}
    (h : outcome.Exact made) : outcome.restore.stop.tokens = start.tokens := by
  cases outcome with
  | failure error stop => rfl
  | success value stop advanced => exact h.1

end Outcome

namespace Parser

theorem tokens_literal (c : Cursor) : (literal c).stop.tokens = c.tokens := by
  have restored : (literal c).restore = literal c := by
    unfold literal
    split <;> exact Outcome.restore_restore _
  rw [← restored]
  exact (exact_literal c).tokens_restore

/-! ## Descent -/

/-- A routine calls routines of a smaller rank only, as long as no token has been passed. -/
def Routine.rank : Routine → Nat
  | .readWhole _ => 4
  | .read .expression => 3
  | .read .primary => 2
  | .read .paren | .read .literal | .complete _ _ => 1
  | .climb _ _ => 0

theorem Routine.rank_read_lt (reader : Reader) : (Routine.read reader).rank < 4 := by
  cases reader <;> decide

theorem Routine.rank_le (routine : Routine) : routine.rank ≤ 4 := by
  cases routine with
  | read reader => exact Nat.le_of_lt (rank_read_lt reader)
  | readWhole | climb | complete => simp [rank]

def Task.weight (task : Task) : Nat := 5 * task.cursor.remaining + task.routine.rank

/-- A task at a place of the same text with less ahead, or with as much and of a smaller rank. -/
structure Task.Below (later task : Task) : Prop where
  tokens : later.cursor.tokens = task.cursor.tokens
  lighter : later.weight < task.weight

namespace Task.Below

variable {task later last : Task} {c d : Cursor} {routine routine' : Routine}

theorem trans (h : last.Below later) (h' : later.Below task) : last.Below task :=
  ⟨h.tokens.trans h'.tokens, Nat.lt_trans h.lighter h'.lighter⟩

theorem of_rank (ranks : routine'.rank < routine.rank) : Below ⟨routine', c⟩ ⟨routine, c⟩ :=
  ⟨rfl, Nat.add_lt_add_left ranks _⟩

theorem of_advanced (tokens : d.tokens = c.tokens) (advanced : d.remaining < c.remaining) :
    Below ⟨routine', d⟩ ⟨routine, c⟩ := by
  refine ⟨tokens, ?_⟩
  have := routine'.rank_le
  simp only [weight]
  omega

end Task.Below

/-- If all calls are answered as the readers do, a body gives the answer in the end. It calls tasks
below its own only and stays in its text, provided that its calls do. -/
inductive Body.Answers (task : Task) (answer : Answer) : Body → Prop where
  | done (kept : answer.2.tokens = task.cursor.tokens) : Answers task answer (.done answer)
  | call {later : Task} {next : Answer → Body} (below : later.Below task)
      (goesOn : later.answer.2.tokens = later.cursor.tokens →
        Answers task answer (next later.answer)) : Answers task answer (.call later next)

namespace Body.Answers

variable {start : Cursor} {task later : Task} {answer : Answer} {next : Tree → Cursor → Body}

theorem relay {place : Cursor → Cursor} (outcome : Outcome start Tree)
    (answers : later.answer = outcome.answer) (below : later.Below task)
    (stays : ∀ stop, stop.tokens = task.cursor.tokens → (place stop).tokens = task.cursor.tokens)
    (fails : ∀ error stop, outcome = .failure error stop → answer = (.error error, place stop))
    (reads : ∀ tree stop advanced, outcome = .success tree stop advanced →
      stop.tokens = task.cursor.tokens → Answers task answer (next tree stop)) :
    Answers task answer (.relay place later next) := by
  refine .call below fun kept => ?_
  replace kept := kept.trans below.tokens
  rw [answers] at kept ⊢
  cases outcome with
  | failure error stop =>
    rw [fails error stop rfl]
    exact .done (stays stop kept)
  | success tree stop advanced => exact reads tree stop advanced rfl kept

theorem proceed (outcome : Outcome start Tree) (answers : later.answer = outcome.answer)
    (below : later.Below task)
    (fails : ∀ error stop, outcome = .failure error stop → answer = (.error error, stop))
    (reads : ∀ tree stop advanced, outcome = .success tree stop advanced →
      stop.tokens = task.cursor.tokens → Answers task answer (next tree stop)) :
    Answers task answer (.proceed later next) :=
  relay outcome answers below (fun _ kept => kept) fails reads

theorem attempt (outcome : Outcome start Tree) (answers : later.answer = outcome.answer)
    (below : later.Below task)
    (fails : ∀ error stop, outcome = .failure error stop → answer = (.error error, later.cursor))
    (reads : ∀ tree stop advanced, outcome = .success tree stop advanced →
      stop.tokens = task.cursor.tokens → Answers task answer (next tree stop)) :
    Answers task answer (.attempt later next) :=
  relay outcome answers below (fun _ _ => below.tokens) fails reads

end Body.Answers

/-! ## Bodies, one by one -/

open Body (Answers)

theorem body_readWhole (reader : Reader) (c : Cursor) :
    Answers ⟨.readWhole reader, c⟩ (Task.answer ⟨.readWhole reader, c⟩)
      (code ⟨.readWhole reader, c⟩) := by
  rw [code, Task.answer, Cursor.readWhole]
  refine .proceed (reader.parser c) rfl (.of_rank (Routine.rank_read_lt reader)) ?_ ?_
  · intro error stop fails
    rw [fails]
    rfl
  · intro tree stop advanced reads kept
    simp only [reads]
    cases stop.peek? with
    | none => exact .done (stop.tokens_atEnd.trans kept)
    | some token =>
      simp only
      split
      · exact .done kept
      · exact .done kept

theorem body_expression (c : Cursor) :
    Answers ⟨.read .expression, c⟩ (Task.answer ⟨.read .expression, c⟩)
      (code ⟨.read .expression, c⟩) := by
  rw [code, Task.answer, Reader.parser]
  refine .attempt (primary c) rfl (.of_rank (by decide)) ?_ ?_
  · intro error stop fails
    rw [expression_of_failure (chain_of_failure .any fails)]
    rfl
  · intro operand stop advanced reads kept
    have chained := chain_eq .any reads
    refine .proceed (climb c operand stop advanced .any) (answer_climb ..)
      (.of_advanced kept advanced) ?_ ?_
    · intro error last fails
      rw [expression_of_failure (chained.trans fails)]
      rfl
    · intro tree last further climbs kept
      rw [expression, chained, climbs]
      cases ahead : last.peek? with
      | none =>
        simp only [ahead]
        exact .done kept
      | some next =>
        simp only [ahead]
        split
        · exact .done kept
        · exact .done kept

theorem body_primary (c : Cursor) :
    Answers ⟨.read .primary, c⟩ (Task.answer ⟨.read .primary, c⟩) (code ⟨.read .primary, c⟩) := by
  have attempts (reader : Reader) (ranks : (Routine.read reader).rank < 2) :
      Answers ⟨.read .primary, c⟩ (reader.parser c).restore.answer
        (.attempt ⟨.read reader, c⟩ fun tree stop => .done (.ok tree, stop)) := by
    refine .attempt (reader.parser c) rfl (.of_rank ranks) ?_ ?_
    · intro error stop fails
      rw [fails]
      rfl
    · intro tree stop advanced reads kept
      rw [reads]
      exact .done kept
  rw [code, Task.answer, Reader.parser, primary]
  cases c.peek? with
  | none => exact .done rfl
  | some token =>
    simp only
    cases token.kind with
    | int | float | name =>
      simp only [Outcome.restore_map]
      exact attempts .literal (by decide)
    | openParen => exact attempts .paren (by decide)
    | closeParen =>
      simp only
      split
      · exact .done rfl
      · exact .done rfl
    | add | mul | whitespace | symbol => exact .done rfl

theorem body_literal (c : Cursor) :
    Answers ⟨.read .literal, c⟩ (Task.answer ⟨.read .literal, c⟩) (code ⟨.read .literal, c⟩) := by
  rw [code]
  refine .done ?_
  change ((literal c).map Tree.literal).stop.tokens = c.tokens
  rw [Outcome.stop_map, tokens_literal]

theorem body_paren (c : Cursor) :
    Answers ⟨.read .paren, c⟩ (Task.answer ⟨.read .paren, c⟩) (code ⟨.read .paren, c⟩) := by
  have answers {outcome : Outcome c Tree} (h : paren c = outcome) :
      Task.answer ⟨.read .paren, c⟩ = outcome.answer := congrArg Outcome.answer h
  rw [code]
  cases enter : token .openParen c with
  | failure error stop =>
    have fails : paren c = .failure error c := by rw [paren, enter, Outcome.restore_failure]
    rw [answers fails]
    exact .done rfl
  | success opening inside entered =>
    obtain ⟨_, passes⟩ := passes_of_token enter
    simp only [Outcome.restore_success, inside.peek?_eq]
    split
    · rename_i closed
      obtain ⟨rest, ahead⟩ := List.head?_eq_some_iff.mp closed
      rw [answers (paren_of_empty enter ahead rfl)]
      exact .done passes.tokens
    · rename_i other
      have occupied : Occupied inside := by
        rintro ⟨kind, span, lexeme⟩ ahead rfl
        exact other span lexeme ahead
      refine .attempt (expression inside) rfl (.of_advanced passes.tokens entered) ?_ ?_
      · intro error stop fails
        exact answers (paren_of_failure enter occupied fails)
      · intro inner behind passed reads kept
        cases ahead : behind.future with
        | nil =>
          rw [answers (paren_of_unclosed enter occupied reads ahead)]
          simp only [behind.peek?_eq, ahead, List.head?_nil]
          exact .done kept
        | cons next rest =>
          simp only [behind.peek?_eq, ahead, List.head?_cons]
          by_cases closes : next.kind = .closeParen
          · obtain ⟨stop, left, leave, passes⟩ := token_of_kind ahead closes
            rw [if_pos closes, leave, answers (paren_of_left enter occupied reads leave)]
            exact .done (passes.tokens.trans kept)
          · rw [if_neg closes, answers (paren_of_other enter occupied reads ahead closes)]
            exact .done kept

theorem body_climb (least : Precedence) (lhs : Tree) (c : Cursor) :
    Answers ⟨.climb least lhs, c⟩ (Task.answer ⟨.climb least lhs, c⟩)
      (code ⟨.climb least lhs, c⟩) := by
  rw [code, Task.answer]
  by_cases binds : (nextOperator? c).any (least ≤ ·.precedence) = true
  · rw [if_pos binds]
    cases signed : connective c with
    | failure error stop =>
      have fails : extend lhs c = .failure error c := by
        rw [extend, signed, Outcome.restore_failure]
      rw [climb_of_failure binds fails]
      exact .done rfl
    | success sign behind passed =>
      obtain ⟨_, _, _, passes⟩ := passes_of_connective signed
      simp only [Outcome.restore_success]
      refine .attempt (primary behind) rfl (.of_advanced passes.tokens passed) ?_ ?_
      · intro error stop fails
        rw [climb_of_failure binds (extend_of_failure signed fails)]
        rfl
      · intro operand stop advanced reads kept
        -- The operator has been passed, so whatever comes now is behind the head of the loop.
        have advanced := Nat.lt_trans advanced passed
        have extended :
            extend lhs c = (complete c sign operand stop advanced).map (lhs.join sign) := by
          rw [extend, signed, Outcome.restore_success]
          simp only [reads, Outcome.restore_success]
          cases complete c sign operand stop advanced <;> rfl
        refine .proceed (complete c sign operand stop advanced) (answer_complete ..)
          (.of_advanced kept advanced) ?_ ?_
        · intro error last fails
          rw [fails] at extended
          rw [climb_of_failure binds extended]
          rfl
        · intro rhs last further completes kept
          rw [completes] at extended
          refine .call (.of_advanced kept further) fun stays => ?_
          rw [climb_of_success binds extended, ← answer_climb]
          exact .done (stays.trans kept)
  · rw [if_neg binds, climb_of_none binds]
    exact .done rfl

theorem body_complete (sign : Connective) (rhs : Tree) (c : Cursor) :
    Answers ⟨.complete sign rhs, c⟩ (Task.answer ⟨.complete sign rhs, c⟩)
      (code ⟨.complete sign rhs, c⟩) := by
  rw [code, Task.answer]
  cases ahead : nextOperator? c with
  | none =>
    rw [complete_of_not_tighter (by simp [ahead])]
    exact .done rfl
  | some next =>
    simp only
    by_cases tighter : sign.operator.precedence < next.precedence
    · rw [if_pos tighter, complete_of_tighter rhs c.remaining_lt_earlier ahead tighter]
      refine .proceed (climb c.earlier rhs c c.remaining_lt_earlier next.precedence) rfl
        (.of_rank Nat.zero_lt_one) ?_ ?_
      · intro error stop fails
        rw [fails]
        rfl
      · intro longer stop further climbs kept
        have moved := remaining_lt_of_climb (binds_own ahead) climbs
        refine .call (.of_advanced kept moved) fun stays => ?_
        rw [climbs, ← answer_complete]
        exact .done (stays.trans kept)
    · rw [if_neg tighter, complete_of_not_tighter (by simpa [ahead] using tighter)]
      exact .done rfl

theorem body_answers : (task : Task) → Answers task task.answer (code task)
  | ⟨.read .expression, c⟩ => body_expression c
  | ⟨.read .primary, c⟩ => body_primary c
  | ⟨.read .paren, c⟩ => body_paren c
  | ⟨.read .literal, c⟩ => body_literal c
  | ⟨.readWhole reader, c⟩ => body_readWhole reader c
  | ⟨.climb least lhs, c⟩ => body_climb least lhs c
  | ⟨.complete sign rhs, c⟩ => body_complete sign rhs c

/-! ## All calls -/

section

variable {task : Task} {answer : Answer} {body : Body}

theorem Body.Answers.tokens (h : Answers task answer body)
    (kept : ∀ later : Task, later.weight < task.weight →
      later.answer.2.tokens = later.cursor.tokens) :
    answer.2.tokens = task.cursor.tokens := by
  induction h with
  | done here => exact here
  | call below _ ih => exact ih (kept _ below.lighter)

/-- Reading stays in the text, whether or not it succeeds. -/
theorem tokens_answer (task : Task) : task.answer.2.tokens = task.cursor.tokens :=
  (body_answers task).tokens fun later _ => tokens_answer later
termination_by task.weight

theorem Body.Answers.eval {answer? : Task → Option Answer} (h : Answers task answer body)
    (answers : ∀ later : Task, later.weight < task.weight → answer? later = some later.answer) :
    body.eval answer? = some answer := by
  induction h with
  | done _ => rfl
  | call below _ ih =>
    rw [Body.eval, answers _ below.lighter]
    exact ih (tokens_answer _)

theorem Body.Answers.below_of_mem (h : Answers task answer body) :
    ∀ later ∈ body.calls Task.answer, later.Below task := by
  induction h with
  | done _ => exact List.forall_mem_nil _
  | call here _ ih => exact List.forall_mem_cons.mpr ⟨here, ih (tokens_answer _)⟩

end

theorem run?_eq {depth : Nat} {task : Task} (deep : task.weight < depth) :
    run? depth task = some task.answer := by
  induction depth generalizing task with
  | zero => contradiction
  | succ depth ih =>
    refine (body_answers task).eval fun later lighter => ih ?_
    omega

/-- The second task is one that the first one calls. -/
def Calls (task later : Task) : Prop := later ∈ (code task).calls Task.answer

theorem below_of_calls {task later : Task} (h : Relation.TransGen Calls task later) :
    later.Below task := by
  induction h with
  | single calls => exact (body_answers _).below_of_mem _ calls
  | tail _ calls ih => exact ((body_answers _).below_of_mem _ calls).trans ih

/-- From any place between any tokens, a routine gives its answer within bounded nesting. Neither it
nor anything it calls, directly or not, starts, stops or reads a token outside the text. Nothing it
calls starts further back, and what ranks no lower starts further on: the next round of either loop, a
round inside another one of its kind, whatever a round of a climb calls, an expression in parentheses. -/
theorem reading_terminates (task : Task) :
    (∀ depth, task.weight < depth → run? depth task = some task.answer) ∧
      (∀ later, Relation.ReflTransGen Calls task later →
        ∀ place ∈ [later.cursor, later.cursor.next.stop, later.answer.2, later.answer.2.next.stop],
          place.tokens = task.cursor.tokens ∧ place.position ≤ task.cursor.tokens.length) ∧
      ∀ later, Relation.TransGen Calls task later →
        task.cursor.position ≤ later.cursor.position ∧
          (task.routine.rank ≤ later.routine.rank →
            task.cursor.position < later.cursor.position) := by
  refine ⟨fun _ => run?_eq, ?_, ?_⟩
  · intro later calls
    have kept : later.cursor.tokens = task.cursor.tokens := by
      rcases Relation.reflTransGen_iff_eq_or_transGen.mp calls with rfl | calls
      · rfl
      · exact (below_of_calls calls).tokens
    have stops : later.answer.2.tokens = task.cursor.tokens := (tokens_answer later).trans kept
    intro place member
    have same : place.tokens = task.cursor.tokens := by
      simp only [List.mem_cons, List.not_mem_nil, or_false] at member
      obtain rfl | rfl | rfl | rfl := member
      · exact kept
      · exact (Cursor.tokens_next _).trans kept
      · exact stops
      · exact (Cursor.tokens_next _).trans stops
    have total := place.position_add_remaining
    rw [same] at total
    exact ⟨same, by omega⟩
  · intro later calls
    obtain ⟨tokens, lighter⟩ := below_of_calls calls
    have total := task.cursor.position_add_remaining
    have total' := later.cursor.position_add_remaining
    have := task.routine.rank_le
    rw [tokens] at total'
    simp only [Task.weight] at lighter
    constructor <;> omega

/-- Two rounds of the loop behind `x` in `x*y(`. -/
theorem reading_terminates_product :
    let x : Token := ⟨.name, ⟨0, 1⟩, "x"⟩
    let sign : Token := ⟨.mul, ⟨1, 2⟩, "*"⟩
    let y : Token := ⟨.name, ⟨2, 3⟩, "y"⟩
    let stray : Token := ⟨.openParen, ⟨3, 4⟩, "("⟩
    let lhs : Tree := .literal (.symbol "x" ⟨0, 1⟩)
    let product := lhs.join ⟨.mul, ⟨1, 2⟩⟩ (.literal (.symbol "y" ⟨2, 3⟩))
    let first : Task := ⟨.climb .any lhs, ⟨[x], [sign, y, stray]⟩⟩
    let second : Task := ⟨.climb .any product, ⟨[y, sign, x], [stray]⟩⟩
    first.weight < 16 ∧ run? 16 first = some first.answer ∧ Calls first second ∧
      second.cursor.tokens = [x, sign, y, stray] ∧
      first.cursor.position < second.cursor.position := by
  intro x sign y stray lhs product first second
  have shallow : first.weight < 16 := by decide
  have calls : Calls first second := by
    unfold Calls
    decide +kernel
  obtain ⟨runs, stays, advances⟩ := reading_terminates first
  have kept := (stays second (.single calls) second.cursor List.mem_cons_self).1
  exact ⟨shallow, runs 16 shallow, calls, kept, (advances second (.single calls)).2 (Nat.le_refl _)⟩

end Parser

end SymbolicCalculus
