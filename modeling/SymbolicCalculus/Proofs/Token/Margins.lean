import SymbolicCalculus.Proofs.Text.Trim
import SymbolicCalculus.Proofs.Token.Cut
import SymbolicCalculus.Proofs.Token.Relocation

/-!
Tokens of a text and of what trimming leaves of it. Trimming takes off more characters than tokens
of white space hold, but where it takes off only such, the tokens stay, at other places.
-/

set_option autoImplicit false

namespace SymbolicCalculus

namespace Token

/-- All of the white space is one token. -/
theorem visible_scanFrom_run {blanks rest : List Char} (position : Nat)
    (blank : ∀ c ∈ blanks, c.isWhitespace = true)
    (dark : ∀ c ∈ rest.head?, c.isWhitespace = false) :
    visible (scanFrom position [] (blanks ++ rest)) =
      visible (scanFrom (position + utf8Length blanks) [] rest) := by
  cases blanks with
  | nil => rfl
  | cons c blanks =>
    rw [scanFrom_matches position (.whitespace blank) dark]
    rfl

/-- White space in front of a text moves the tokens of the text, and none of its own are visible. -/
theorem visible_scanFrom_blank_append {blanks : List Char} (position : Nat)
    (blank : ∀ c ∈ blanks, c.isWhitespace = true) (rest : List Char) :
    visible (scanFrom position [] (blanks ++ rest)) =
      visible (scanFrom (position + utf8Length blanks) [] rest) := by
  -- White space at the front of the rest goes with the white space before it.
  let more := rest.takeWhile Char.isWhitespace
  have split : more ++ rest.dropWhile Char.isWhitespace = rest := List.takeWhile_append_dropWhile
  have white : ∀ c ∈ more, c.isWhitespace = true := List.all_eq_true.mp List.all_takeWhile
  have all : ∀ c ∈ blanks ++ more, c.isWhitespace = true :=
    List.forall_mem_append.mpr ⟨blank, white⟩
  have dark : ∀ c ∈ (rest.dropWhile Char.isWhitespace).head?, c.isWhitespace = false := by
    intro c member
    have head := List.head?_dropWhile_not Char.isWhitespace rest
    rw [Option.mem_def.mp member] at head
    simpa using head
  rw [← split, visible_scanFrom_run _ white dark, ← List.append_assoc,
    visible_scanFrom_run _ all dark, utf8Length_append, Nat.add_assoc]

theorem visible_scanFrom_blank {blanks : List Char} (position : Nat)
    (blank : ∀ c ∈ blanks, c.isWhitespace = true) :
    visible (scanFrom position [] blanks) = [] := by
  have alone := visible_scanFrom_blank_append position blank []
  simpa [scanFrom, visible] using alone

theorem ofText_trimChars {text : String}
    (blank : ∀ c ∈ frontMargin text.toList ++ backMargin text.toList, c.isWhitespace = true) :
    ofText text = (ofText (String.ofList (trimChars text.toList))).map
      (relocate (.forward (utf8Length (frontMargin text.toList)))) := by
  obtain ⟨front, back⟩ := List.forall_mem_append.mp blank
  have ends : ∀ c ∈ (trimChars text.toList).getLast?, c.isWhitespace = false := by
    intro c member
    have dark := not_isWhiteSpace_of_mem_getLast?_trimChars c member
    rw [Bool.eq_false_iff] at dark ⊢
    exact fun space => dark (isWhiteSpace_of_isWhitespace space)
  have behind : ∀ c ∈ (backMargin text.toList).head?, c.isWhitespace = true :=
    fun c member => back c (List.mem_of_mem_head? member)
  unfold ofText scan
  rw [String.toList_ofList, ← visible_map_relocate, ← scanFrom_add]
  conv => lhs; rw [← @frontMargin_append text.toList]
  rw [visible_scanFrom_blank_append 0 front, ← trimChars_append_backMargin,
    scanFrom_append_blank ends behind, visible_append, visible_scanFrom_blank _ back,
    List.append_nil]

end Token

end SymbolicCalculus
