import SymbolicCalculus.Proofs.Expr.RoundTrip
import SymbolicCalculus.Proofs.Text.Trim
import SymbolicCalculus.Session

/-!
Lines of a session. A line either fails and changes nothing, or its expression is kept and its text
is the answer. That text is a line itself, with the same outcome in every session.
-/

set_option autoImplicit false

namespace SymbolicCalculus

/-! ## The ends of the text of an expression -/

/-- The text of a leaf starts and ends with letters or digits. -/
theorem Token.Kind.Matches.isAlphanum_of_edge {kind : Kind} {text : List Char}
    (h : kind.Matches text) (leaf : kind.isNumeral = true ∨ kind = .name) {c : Char}
    (edge : c ∈ text.head? ∨ c ∈ text.getLast?) : c.isAlphanum = true := by
  have member : c ∈ text := edge.elim List.mem_of_mem_head? List.mem_of_mem_getLast?
  cases h with
  | whitespace | add | mul | openParen | closeParen => simp [Kind.isNumeral] at leaf
  | name all => simp [Char.isAlphanum, all c member]
  | int all => simp [Char.isAlphanum, all c member]
  | @float first second whole fraction left right =>
    have digit : c.isDigit = true := by
      rcases edge with ⟨⟨⟩⟩ | last
      · exact left _ List.mem_cons_self
      · rw [List.getLast?_append, List.getLast?_cons_cons] at last
        exact right c (List.mem_of_mem_getLast? (by simpa using last))
    simp [Char.isAlphanum, digit]

/-- The text of a leaf is a numeral or a name. -/
theorem Atom.matches_text (value : Atom) :
    ∃ kind : Token.Kind, (kind.isNumeral = true ∨ kind = .name) ∧ kind.Matches value.text.toList := by
  cases value with
  | number n =>
    obtain ⟨kind, numeral, follows⟩ := n.isNumeral_text
    exact ⟨kind, .inl numeral, follows⟩
  | var v => exact ⟨.name, .inr rfl, v.matches_name⟩

namespace Expr

variable (e : Expr)

theorem render_edge {c : Char} (edge : c ∈ e.render.toList.head? ∨ c ∈ e.render.toList.getLast?) :
    c.isAlphanum = true ∨ c = '(' ∨ c = ')' := by
  cases e with
  | atom value =>
    obtain ⟨kind, leaf, text⟩ := value.matches_text
    rw [render_atom] at edge
    exact .inl (text.isAlphanum_of_edge leaf edge)
  | operation op left right =>
    have text : (operation op left right).render.toList =
        ('(' :: (left.render ++ op.spaced ++ right.render).toList) ++ [')'] := by
      simp [render_operation]
    rw [text, List.getLast?_concat] at edge
    rcases edge with ⟨⟨⟩⟩ | ⟨⟨⟩⟩
    · exact .inr (.inl rfl)
    · exact .inr (.inr rfl)

theorem trimChars_render : trimChars e.render.toList = e.render.toList := by
  have dark {c : Char} (edge : c ∈ e.render.toList.head? ∨ c ∈ e.render.toList.getLast?) :
      isWhiteSpace c = false := by
    rcases e.render_edge edge with alphanum | rfl | rfl
    · exact not_isWhiteSpace_of_isAlphanum alphanum
    · rfl
    · rfl
  exact trimChars_eq_self (fun _ head => dark (.inl head)) fun _ last => dark (.inr last)

end Expr

/-- A name has no white space at its ends, and neither has a text that ends in it. -/
theorem Variable.trimChars_append_name (v : Variable) {front : List Char}
    (starts : ∀ c ∈ front.head?, isWhiteSpace c = false) :
    trimChars (front ++ v.name.toList) = front ++ v.name.toList := by
  have letters := List.all_eq_true.mp v.valid.2
  have dark (c : Char) (member : c ∈ v.name.toList) : isWhiteSpace c = false :=
    not_isWhiteSpace_of_isAlphanum (by simp [Char.isAlphanum, letters c member])
  refine trimChars_eq_self ?_ ?_
  · cases front with
    | nil => exact fun c member => dark c (List.mem_of_mem_head? member)
    | cons first front => exact starts
  · rw [List.getLast?_append_of_ne_nil _ v.toList_name_ne_nil]
    exact fun c member => dark c (List.mem_of_mem_getLast? member)

namespace Session

/-- The line that asks for the derivative by a variable. -/
def derivativeLine (v : Variable) : String := "!d/d" ++ v.name

variable {session : Session} {line : String}

/-! ## What one line does -/

theorem execute_of_evaluate_ok {e : Expr} (h : session.evaluate line = .ok e) :
    session.execute line = (.ok e.render, ⟨some e⟩) := by
  rw [execute, h]

theorem execute_of_evaluate_error {error : Error} (h : session.evaluate line = .error error) :
    session.execute line = (.error error, session) := by
  rw [execute, h]

theorem execute_cases (session : Session) (line : String) :
    (∃ error, session.execute line = (.error error, session)) ∨
      ∃ e : Expr, session.execute line = (.ok e.render, ⟨some e⟩) := by
  cases value : session.evaluate line with
  | error error => exact .inl ⟨error, execute_of_evaluate_error value⟩
  | ok e => exact .inr ⟨e, execute_of_evaluate_ok value⟩

/-- A line that is no command is read as an expression, whatever the session keeps. -/
theorem evaluate_of_plain (session : Session)
    (plain : ∀ c ∈ (trimChars line.toList).head?, c ≠ '!') :
    session.evaluate line =
      (Expr.parse (String.ofList (trimChars line.toList))).mapError .syntaxError := by
  unfold evaluate
  split
  · rename_i command
    rw [command] at plain
    exact absurd rfl (plain '!' rfl)
  · cases Expr.parse (String.ofList (trimChars line.toList)) <;> rfl

/-- No command meets a syntax error, so it is one of the text that is read. -/
theorem parse_of_evaluate_error {error : SyntaxError}
    (h : session.evaluate line = .error (.syntaxError error)) :
    Expr.parse (String.ofList (trimChars line.toList)) = .error error := by
  unfold evaluate at h
  split at h
  · unfold command at h
    split at h
    · split at h
      · cases h
      · split at h <;> cases h
    · cases h
  · split at h
    · rename_i refused
      cases h
      exact refused
    · cases h

theorem evaluate_render (session : Session) (e : Expr) : session.evaluate e.render = .ok e := by
  have plain : ∀ c ∈ (trimChars e.render.toList).head?, c ≠ '!' := by
    rw [e.trimChars_render]
    rintro _ head rfl
    have edge := e.render_edge (.inl head)
    revert edge
    decide
  rw [evaluate_of_plain session plain, e.trimChars_render, String.ofList_toList,
    Expr.parse_eq_ok.mpr e.exists_tree_of_render]
  rfl

theorem evaluate_derivativeLine (e : Expr) (v : Variable) :
    evaluate ⟨some e⟩ (derivativeLine v) = .ok (e.derivative v.name) := by
  have line : (derivativeLine v).toList = ['!', 'd', '/', 'd'] ++ v.name.toList :=
    String.toList_append ..
  have name : trimChars v.name.toList = v.name.toList :=
    @Variable.trimChars_append_name v [] (by simp)
  have command :
      trimChars ('d' :: '/' :: 'd' :: v.name.toList) = 'd' :: '/' :: 'd' :: v.name.toList :=
    @Variable.trimChars_append_name v ['d', '/', 'd'] (by rintro _ ⟨⟩; rfl)
  unfold evaluate
  rw [line, v.trimChars_append_name (by rintro _ ⟨⟩; rfl)]
  simp only [List.cons_append, List.nil_append, command, Session.command, name,
    String.ofList_toList, v.ofName_name]

/-- The text that answers a line leads every session to where the line led. -/
theorem execute_render (session : Session) (e : Expr) :
    session.execute e.render = (.ok e.render, ⟨some e⟩) :=
  execute_of_evaluate_ok (evaluate_render session e)

theorem execute_derivativeLine (e : Expr) (v : Variable) :
    execute ⟨some e⟩ (derivativeLine v) =
      (.ok (e.derivative v.name).render, ⟨some (e.derivative v.name)⟩) :=
  execute_of_evaluate_ok (evaluate_derivativeLine e v)

end Session

end SymbolicCalculus
