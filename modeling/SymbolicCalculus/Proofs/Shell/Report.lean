import SymbolicCalculus.Proofs.Session.Line
import SymbolicCalculus.Proofs.Syntax.Places
import SymbolicCalculus.Shell

/-!
The reports of the shell. Each is drawn over the line as it was entered, but what is read is the
line without the white space around it, and the places of an error count from there.
-/

set_option autoImplicit false

namespace SymbolicCalculus

/-- Behind more text, the same part is marked further on. -/
theorem Span.slice?_forward {span : Span} {text slice : String} (h : span.slice? text = some slice)
    {whole : String} {front back : List Char} (split : whole.toList = front ++ (text.toList ++ back)) :
    (span.relocate (.forward (utf8Length front))).slice? whole = some slice := by
  obtain ⟨before, behind, chars, rfl⟩ := slice?_eq_some.mp h
  refine slice?_eq_some.mpr ⟨front ++ before, behind ++ back, by simp [split, chars], ?_⟩
  simp only [relocate, Relocation.forward, utf8Length_append, Span.mk.injEq]
  omega

namespace Shell

variable {session : Session} {error : SyntaxError} {line drawn : String} {event : Event}

theorem report_of_mem_enter (h : .report (.syntaxError error) drawn ∈ (enter session line).1) :
    drawn = line ∧ Expr.parse (String.ofList (trimChars line.toList)) = .error error := by
  unfold enter at h
  split at h
  · simp at h
  · cases answer : session.evaluate line with
    | ok e => simp [Session.execute, answer] at h
    | error found =>
      simp only [Session.execute, answer, List.mem_singleton, Event.report.injEq] at h
      obtain ⟨rfl, rfl⟩ := h
      exact ⟨rfl, Session.parse_of_evaluate_error answer⟩

/-- What the shell shows of lines, it shows of one of them. -/
theorem exists_of_mem_enterAll {lines : List String} (h : event ∈ enterAll session lines) :
    ∃ session' line, event ∈ (enter session' line).1 := by
  induction lines generalizing session with
  | nil => simp [enterAll] at h
  | cons line lines ih =>
    rcases List.mem_append.mp h with here | behind
    · exact ⟨session, line, here⟩
    · exact ih behind

theorem exists_of_mem_runTyped {lines : List ByteArray} (h : event ∈ runTyped session lines)
    {failure : Session.Error} (report : event = .report failure drawn) :
    ∃ session' line, event ∈ (enter session' line).1 := by
  induction lines generalizing session with
  | nil => simp [runTyped, report] at h
  | cons line lines ih =>
    unfold runTyped at h
    split at h
    · simp [report] at h
    · rename_i text _
      rcases List.mem_append.mp h with here | behind
      · rcases List.mem_cons.mp here with rfl | here
        · cases report
        · exact ⟨session, text, here⟩
      · exact ih behind

/-- Reports come from lines, whether these are typed or not. -/
theorem exists_of_report {source : Source} {input : ByteArray} {typed : List ByteArray}
    {failure : Session.Error}
    (h : .report failure line ∈ runBatch source input ∨
      .report failure line ∈ runTyped session typed) :
    ∃ session' entered, .report failure line ∈ (enter session' entered).1 := by
  rcases h with h | h
  · unfold runBatch at h
    split at h
    · simp at h
    · exact exists_of_mem_enterAll h
  · exact exists_of_mem_runTyped h rfl

/-- An error that is reported over a line is one of the text that trimming leaves. Moved behind the
white space in front of that text, its places mark in the line what they mark in the text. Where
they are, they do so by right only if there is no such white space. -/
theorem report_places {source : Source} {input : ByteArray} {typed : List ByteArray}
    (h : .report (.syntaxError error) line ∈ runBatch source input ∨
      .report (.syntaxError error) line ∈ runTyped session typed) :
    let text := String.ofList (trimChars line.toList)
    let margin := Relocation.forward (utf8Length (frontMargin line.toList))
    Expr.parse text = .error error ∧
      (∀ span ∈ error.spans, ∃ slice, span.slice? text = some slice ∧
        (span.relocate margin).slice? line = some slice) ∧
      ((∀ span ∈ error.spans, span.relocate margin = span) ↔
        ∀ c ∈ line.toList.head?, isWhiteSpace c = false) := by
  intro text margin
  obtain ⟨_, _, h⟩ := exists_of_report h
  obtain ⟨rfl, refused⟩ := report_of_mem_enter h
  obtain ⟨filled, marked⟩ := Tree.places_of_parse_error (Expr.parse_eq_error.mp refused)
  have split : line.toList = frontMargin line.toList ++ (text.toList ++ backMargin line.toList) := by
    rw [String.toList_ofList, trimChars_append_backMargin, frontMargin_append]
  refine ⟨refused, ?_, ?_⟩
  · intro span member
    obtain ⟨slice, marks⟩ := marked span member
    exact ⟨slice, marks, Span.slice?_forward marks split⟩
  · obtain ⟨span, member⟩ := List.exists_mem_of_ne_nil _ filled
    rw [← frontMargin_eq_nil, ← utf8Length_eq_zero]
    constructor
    · intro stays
      have start := congrArg Span.start (stays span member)
      exact Nat.add_eq_left.mp start
    · intro unindented span _
      simp [margin, unindented, Span.relocate, Relocation.forward]

theorem report_places_wide_space :
    let line := "\u3000 3 x"
    let error : SyntaxError := ⟨[⟨0, 1⟩, ⟨2, 3⟩], .missingOperator⟩
    let margin := Relocation.forward 4
    .report (.syntaxError error) line ∈ runBatch .stdin ("1 + x\n" ++ line).toUTF8 ∧
      (∀ span ∈ error.spans, ∃ slice, span.slice? "3 x" = some slice ∧
        (span.relocate margin).slice? line = some slice) ∧
      ¬∀ span ∈ error.spans, span.relocate margin = span := by
  intro line error margin
  have shown : .report (.syntaxError error) line ∈ runBatch .stdin ("1 + x\n" ++ line).toUTF8 := by
    decide +kernel
  obtain ⟨_, moved, stays⟩ := @report_places .new error line .stdin _ [] (.inl shown)
  have text : String.ofList (trimChars line.toList) = "3 x" := by decide +kernel
  have indent : utf8Length (frontMargin line.toList) = 4 := by decide +kernel
  rw [text, indent] at moved
  rw [indent] at stays
  refine ⟨shown, moved, fun same => ?_⟩
  exact absurd (stays.mp same '\u3000' (by decide +kernel)) (by decide)

/-- Unmoved, the places of an indented line mark other text. -/
theorem report_misplaced :
    let line := "  3 x"
    let error : SyntaxError := ⟨[⟨0, 1⟩, ⟨2, 3⟩], .missingOperator⟩
    .report (.syntaxError error) line ∈ runBatch .stdin line.toUTF8 ∧
      (error.spans.map (·.slice? (String.ofList (trimChars line.toList)))) =
        [some "3", some "x"] ∧
      (error.spans.map (·.slice? line)) = [some " ", some "3"] := by
  decide +kernel

end Shell

end SymbolicCalculus
