import SymbolicCalculus.Command
import SymbolicCalculus.Proofs.Expr.Relocation
import SymbolicCalculus.Proofs.Session.Replay
import SymbolicCalculus.Proofs.Token.Margins

/-!
The two ways to a derivative. A session keeps an expression and differentiates it again and again;
the command reads each derivative back from its text. Both find the same faults and give the same
texts.
-/

set_option autoImplicit false

namespace SymbolicCalculus

namespace Command

/-- Each output is what the command makes of the text before it, differentiating by one variable
after another. -/
inductive Successive : String → List Variable → List String → Prop where
  | nil (text : String) : Successive text [] []
  | cons {text output : String} {v : Variable} {vs : List Variable} {outputs : List String}
      (first : differentiate text v.name = .ok output) (rest : Successive output vs outputs) :
      Successive text (v :: vs) (output :: outputs)

variable {text : String}

theorem differentiate_of_parse_ok {e : Expr} (h : Expr.parse text = .ok e) (v : Variable) :
    differentiate text v.name = .ok (e.derivative v.name).render := by
  rw [differentiate, h]
  simp only [v.ofName_name]

theorem differentiate_of_parse_error {error : SyntaxError} (h : Expr.parse text = .error error)
    (name : String) : differentiate text name = .error (.syntaxError error) := by
  rw [differentiate, h]

theorem differentiate_render (e : Expr) (v : Variable) :
    differentiate e.render v.name = .ok (e.derivative v.name).render :=
  differentiate_of_parse_ok (Expr.parse_eq_ok.mpr e.exists_tree_of_render) v

end Command

namespace Session

/-- A session that keeps an expression differentiates it as the command does its text. -/
theorem run_derivativeLines (e : Expr) (vs : List Variable) :
    ∃ outputs, (run ⟨some e⟩ (vs.map derivativeLine)).1 = outputs.map .ok ∧
      Command.Successive e.render vs outputs := by
  induction vs generalizing e with
  | nil => exact ⟨[], rfl, .nil _⟩
  | cons v vs ih =>
    obtain ⟨outputs, answers, successive⟩ := ih (e.derivative v.name)
    refine ⟨_ :: outputs, ?_, .cons (Command.differentiate_render e v) successive⟩
    rw [List.map_cons, run_cons, execute_derivativeLine, answers]
    rfl

/-- Take a text that is no line with `!`, and that trimming takes only spaces, tabs and line ends
off. The command fails on it just when a new session does, with the same fault. Otherwise the session
goes on to answer derivatives by any variables, with what the command makes of one answer after
another. -/
theorem agrees_with_command {text : String} (plain : ∀ c ∈ (trimChars text.toList).head?, c ≠ '!')
    (blank : ∀ c ∈ frontMargin text.toList ++ backMargin text.toList, c.isWhitespace = true)
    (v : Variable) (others : List Variable) :
    match Command.differentiate text v.name, (new.execute text).1 with
    | .error (.syntaxError error), .error (.syntaxError error') => error.fault = error'.fault
    | .ok output, .ok first =>
      ∃ outputs, (new.run (text :: derivativeLine v :: others.map derivativeLine)).1 =
          (first :: output :: outputs).map .ok ∧
        Command.Successive output others outputs
    | _, _ => False := by
  have value := evaluate_of_plain new plain
  rcases Expr.parse_relocate (Token.ofText_trimChars blank) with
    ⟨e, trimmed, whole⟩ | ⟨error, error', trimmed, whole, fault⟩
  · rw [trimmed] at value
    have first := execute_of_evaluate_ok value
    obtain ⟨outputs, answers, successive⟩ := run_derivativeLines (e.derivative v.name) others
    rw [Command.differentiate_of_parse_ok whole, first]
    refine ⟨outputs, ?_, successive⟩
    rw [run_cons, first, run_cons, execute_derivativeLine, answers]
    rfl
  · rw [trimmed] at value
    rw [Command.differentiate_of_parse_error whole, execute_of_evaluate_error value]
    exact fault.symm

theorem agrees_with_command_product :
    let y : Variable := ⟨"y", by decide⟩
    ∃ outputs, (new.run [" x * y\t", "!d/dx", "!d/dy"]).1 =
        ("(x * y)" :: "((1.0 * y) + (x * 0.0))" :: outputs).map .ok ∧
      Command.Successive "((1.0 * y) + (x * 0.0))" [y] outputs := by
  intro y
  have start : (trimChars " x * y\t".toList).head? = some 'x' := by decide +kernel
  have plain : ∀ c ∈ (trimChars " x * y\t".toList).head?, c ≠ '!' := by
    rw [start]
    rintro _ ⟨⟩
    decide
  have blank : ∀ c ∈ frontMargin " x * y\t".toList ++ backMargin " x * y\t".toList,
      c.isWhitespace = true := List.all_eq_true.mp (by decide +kernel)
  have agrees := agrees_with_command plain blank ⟨"x", by decide⟩ [y]
  have output : Command.differentiate " x * y\t" "x" = .ok "((1.0 * y) + (x * 0.0))" := by
    decide +kernel
  have first : (new.execute " x * y\t").1 = .ok "(x * y)" := by decide +kernel
  rw [output, first] at agrees
  exact agrees

end Session

end SymbolicCalculus
