import SymbolicCalculus.Proofs.Session.Line

/-!
Lines of a session one after another. All that a session knows about the lines behind it is in the
last text that it answered with, so that text alone brings a new session to the same state.
-/

set_option autoImplicit false

namespace SymbolicCalculus

namespace Session

/-- The answers to lines that are executed one after another, and the session behind them. -/
def run (session : Session) : List String → List (Except Error String) × Session
  | [] => ([], session)
  | line :: lines =>
    let (answer, next) := session.execute line
    let (answers, last) := next.run lines
    (answer :: answers, last)

theorem run_cons (session : Session) (line : String) (lines : List String) :
    session.run (line :: lines) =
      ((session.execute line).1 :: ((session.execute line).2.run lines).1,
        ((session.execute line).2.run lines).2) := rfl

/-- The text that answers the last line that succeeded. -/
def lastOutput? (answers : List (Except Error String)) : Option String :=
  (answers.filterMap Except.toOption).getLast?

@[simp] theorem lastOutput?_error (error : Error) (answers : List (Except Error String)) :
    lastOutput? (.error error :: answers) = lastOutput? answers := rfl

@[simp] theorem lastOutput?_ok (text : String) (answers : List (Except Error String)) :
    lastOutput? (.ok text :: answers) = some ((lastOutput? answers).getD text) :=
  List.getLast?_cons

/-- Nothing is left of lines that failed, and of the others only the last. -/
theorem run_cases (session : Session) (lines : List String) :
    (lastOutput? (session.run lines).1 = none ∧ (session.run lines).2 = session) ∨
      ∃ e : Expr, lastOutput? (session.run lines).1 = some e.render ∧
        (session.run lines).2 = ⟨some e⟩ := by
  -- A line that succeeds leaves the rest of the lines to another session.
  induction lines generalizing session with
  | nil => exact .inl ⟨rfl, rfl⟩
  | cons line lines ih =>
    rw [run_cons]
    rcases execute_cases session line with ⟨error, failed⟩ | ⟨e, succeeded⟩
    · rw [failed, lastOutput?_error]
      exact ih session
    · rw [succeeded, lastOutput?_ok]
      refine .inr ?_
      rcases ih ⟨some e⟩ with ⟨silent, stays⟩ | ⟨f, last, moved⟩
      · exact ⟨e, by rw [silent]; rfl, stays⟩
      · exact ⟨f, by rw [last]; rfl, moved⟩

/-- A history of lines, failures and all, can be replaced by the last output in it: entered as the
only line of a new session, it is its own answer, and all further lines are answered the same.
Without an output, the history can be left out. -/
theorem replay (history : List String) :
    match lastOutput? (new.run history).1 with
    | some text => (new.execute text).1 = .ok text ∧
        ∀ lines, ((new.execute text).2.run lines).1 = ((new.run history).2.run lines).1
    | none => ∀ lines, ((new.run history).2.run lines).1 = (new.run lines).1 := by
  rcases run_cases new history with ⟨silent, stays⟩ | ⟨e, last, moved⟩
  · rw [silent, stays]
    exact fun _ => rfl
  · rw [last, moved]
    simp only
    rw [execute_render]
    exact ⟨rfl, fun _ => rfl⟩

end Session

end SymbolicCalculus
