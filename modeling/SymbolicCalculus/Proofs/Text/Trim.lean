import Mathlib.Data.List.DropRight
import SymbolicCalculus.Text.Blank

/-!
White space at the ends of a text. A text is what trimming leaves of it, between the two margins
that trimming takes off.
-/

set_option autoImplicit false

namespace SymbolicCalculus

theorem not_isWhiteSpace_of_isAlphanum {c : Char} (h : c.isAlphanum = true) :
    isWhiteSpace c = false := by
  change (decide ('A'.val ≤ c.val ∧ c.val ≤ 'Z'.val) ||
    decide ('a'.val ≤ c.val) && decide (c.val ≤ 'z'.val) ||
      decide ('0'.val ≤ c.val) && decide (c.val ≤ '9'.val)) = true at h
  simp only [Bool.or_eq_true, Bool.and_eq_true, decide_eq_true_eq, UInt32.le_iff_toNat_le] at h
  change (65 ≤ c.toNat ∧ c.toNat ≤ 90 ∨ 97 ≤ c.toNat ∧ c.toNat ≤ 122) ∨
    48 ≤ c.toNat ∧ c.toNat ≤ 57 at h
  simp only [isWhiteSpace, Bool.or_eq_false_iff, Bool.and_eq_false_iff, decide_eq_false_iff_not,
    beq_eq_false_iff_ne]
  omega

/-- The white space that trimming takes off the front. -/
def frontMargin (text : List Char) : List Char := text.takeWhile isWhiteSpace

/-- The white space that trimming takes off the back of what is left. -/
def backMargin (text : List Char) : List Char :=
  (text.dropWhile isWhiteSpace).rtakeWhile isWhiteSpace

variable {text : List Char}

theorem frontMargin_append : frontMargin text ++ text.dropWhile isWhiteSpace = text :=
  List.takeWhile_append_dropWhile

theorem frontMargin_eq_nil :
    frontMargin text = [] ↔ ∀ c ∈ text.head?, isWhiteSpace c = false := by
  cases text with
  | nil => simp [frontMargin]
  | cons c text =>
    simp only [frontMargin, List.takeWhile_cons, List.head?_cons, Option.mem_some_iff, forall_eq']
    split <;> simp_all

theorem trimChars_append_backMargin :
    trimChars text ++ backMargin text = text.dropWhile isWhiteSpace :=
  List.rdropWhile_append_rtakeWhile ..

theorem not_isWhiteSpace_of_mem_getLast?_trimChars :
    ∀ c ∈ (trimChars text).getLast?, isWhiteSpace c = false := by
  intro c member
  obtain ⟨filled, rfl⟩ := List.mem_getLast?_eq_getLast member
  exact Bool.eq_false_iff.mpr (List.rdropWhile_last_not _ _ filled)

/-- A text without white space at its ends stays as it is. -/
theorem trimChars_eq_self (front : ∀ c ∈ text.head?, isWhiteSpace c = false)
    (back : ∀ c ∈ text.getLast?, isWhiteSpace c = false) : trimChars text = text := by
  have started : text.dropWhile isWhiteSpace = text := by
    cases text with
    | nil => rfl
    | cons c rest => simp [front c rfl]
  change (text.dropWhile isWhiteSpace).rdropWhile isWhiteSpace = text
  rw [started, List.rdropWhile_eq_self_iff]
  intro filled
  rw [back _ (List.getLast?_eq_some_getLast filled)]
  exact Bool.false_ne_true

end SymbolicCalculus
