import Mathlib.Data.List.TakeWhile
import SymbolicCalculus.Expr.Atom
import SymbolicCalculus.Proofs.Double.Shortest
import SymbolicCalculus.Proofs.Syntax.Grammar
import SymbolicCalculus.Proofs.Token.Lexeme

/-!
Texts of numbers as numerals. Each is the text of one token, and reads back as the number.
-/

set_option autoImplicit false

namespace SymbolicCalculus

/-- The text of a single numeral. -/
def IsNumeral (text : List Char) : Prop :=
  ∃ kind : Token.Kind, kind.isNumeral = true ∧ kind.Matches text

theorem isNumeral_of_digits {text : List Char} (nonempty : text ≠ [])
    (digits : ∀ c ∈ text, c.isDigit = true) : IsNumeral text := by
  obtain ⟨c, more, rfl⟩ := List.exists_cons_of_ne_nil nonempty
  exact ⟨.int, rfl, .int digits⟩

theorem isNumeral_of_point {whole fraction : List Char} (left : whole ≠ []) (right : fraction ≠ [])
    (digits : ∀ c ∈ whole ++ fraction, c.isDigit = true) :
    IsNumeral (whole ++ '.' :: fraction) := by
  obtain ⟨c, more, rfl⟩ := List.exists_cons_of_ne_nil left
  obtain ⟨d, behind, rfl⟩ := List.exists_cons_of_ne_nil right
  refine ⟨.float, rfl, .float ?_ ?_⟩
  · exact fun e member => digits e (List.mem_append_left _ member)
  · exact fun e member => digits e (List.mem_append_right _ member)

namespace Decimal

theorem point_not_mem {text : List Char} (digits : ∀ c ∈ text, c.isDigit = true) : '.' ∉ text := by
  intro member
  exact absurd (digits '.' member) (by decide)

/-- Without a point, all digits are whole. -/
theorem ofChars_whole {text : List Char} (pointless : '.' ∉ text) :
    ofChars text = ⟨Nat.ofDigitChars 10 text 0, 0⟩ := by
  have all : ∀ c ∈ text, decide (c ≠ '.') = true := by
    intro c member
    rw [decide_eq_true_eq]
    exact ne_of_mem_of_not_mem member pointless
  unfold ofChars
  rw [List.takeWhile_eq_self_iff.mpr all, List.dropWhile_eq_nil_iff.mpr all]
  simp

theorem ofChars_point {whole fraction : List Char} (pointless : '.' ∉ whole) :
    ofChars (whole ++ '.' :: fraction) =
      ⟨Nat.ofDigitChars 10 (whole ++ fraction) 0, -fraction.length⟩ := by
  have all : ∀ c ∈ whole, decide (c ≠ '.') = true := by
    intro c member
    rw [decide_eq_true_eq]
    exact ne_of_mem_of_not_mem member pointless
  unfold ofChars
  rw [List.takeWhile_append_of_pos all, List.dropWhile_append_of_pos all]
  simp

theorem isDigit_toDigits (n : Nat) : ∀ c ∈ Nat.toDigits 10 n, c.isDigit = true :=
  fun _ member => Nat.isDigit_of_mem_toDigits (by decide) (by decide) member

theorem isDigit_zeros (count : Nat) : ∀ c ∈ List.replicate count '0', c.isDigit = true := by
  intro c member
  rw [List.eq_of_mem_replicate member]
  rfl

/-- The parts of a positional text with a point. -/
theorem positional_point {d : Decimal} (fractional : d.exponent < 0) :
    ∃ whole fraction, d.positional = whole ++ '.' :: fraction ∧ whole ≠ [] ∧
      (fraction.length : Int) = -d.exponent ∧ (∀ c ∈ whole ++ fraction, c.isDigit = true) ∧
      Nat.ofDigitChars 10 (whole ++ fraction) 0 = d.digits := by
  let places := (-d.exponent).toNat
  let digits := Nat.toDigits 10 d.digits
  let padded := List.replicate (places + 1 - digits.length) '0' ++ digits
  have counted : (places : Int) = -d.exponent := Int.toNat_of_nonneg (by omega)
  -- At least one digit is left in front of the point.
  have long : places < padded.length := by
    simp only [padded, List.length_append, List.length_replicate]
    omega
  refine ⟨padded.take (padded.length - places), padded.drop (padded.length - places), ?_, ?_, ?_⟩
  · unfold positional
    rw [if_neg (by omega)]
  · intro empty
    have length := congrArg List.length empty
    simp only [List.length_take, List.length_nil] at length
    omega
  · rw [List.take_append_drop]
    refine ⟨?_, ?_, ?_⟩
    · rw [List.length_drop]
      omega
    · exact List.forall_mem_append.mpr ⟨isDigit_zeros _, isDigit_toDigits _⟩
    · rw [Nat.ofDigitChars_append, Nat.ofDigitChars_replicate_zero, Nat.mul_zero,
        Nat.ofDigitChars_ten_toDigits]

/-- Positional text stands for the decimal. -/
theorem toDouble_ofChars_positional (d : Decimal) : (ofChars d.positional).toDouble = d.toDouble := by
  by_cases whole : 0 ≤ d.exponent
  · have digits : ∀ c ∈ Nat.toDigits 10 d.digits ++ List.replicate d.exponent.toNat '0',
        c.isDigit = true := List.forall_mem_append.mpr ⟨isDigit_toDigits _, isDigit_zeros _⟩
    have noPlaces : (-d.exponent).toNat = 0 := by omega
    unfold positional
    simp only [if_pos whole]
    rw [ofChars_whole (point_not_mem digits), Nat.ofDigitChars_append, Nat.ofDigitChars_ten_toDigits,
      Nat.ofDigitChars_replicate_zero, Nat.mul_comm]
    simp [toDouble, noPlaces]
  · obtain ⟨whole, fraction, text, _, length, digits, value⟩ := @positional_point d (by omega)
    have left : '.' ∉ whole := fun member => point_not_mem digits (List.mem_append_left _ member)
    rw [text, ofChars_point left, value, length, Int.neg_neg]

theorem isNumeral_positional (d : Decimal) : IsNumeral d.positional := by
  by_cases whole : 0 ≤ d.exponent
  · unfold positional
    simp only [if_pos whole]
    apply isNumeral_of_digits
    · simp
    · exact List.forall_mem_append.mpr ⟨isDigit_toDigits _, isDigit_zeros _⟩
  · obtain ⟨whole, fraction, text, left, length, digits, _⟩ := @positional_point d (by omega)
    rw [text]
    refine isNumeral_of_point left ?_ digits
    rintro rfl
    simp only [List.length_nil] at length
    omega

end Decimal

namespace Number

theorem bits_lt_sign (n : Number) : n.value.bits.toNat < Double.signBit :=
  Nat.lt_trans n.bits_lt (by decide)

theorem isFinite (n : Number) : n.value.isFinite = true := by
  rw [Double.isFinite_iff, Double.magnitudeBits_eq_of_lt n.bits_lt_sign]
  exact n.bits_lt

theorem isSigned_eq_false (n : Number) : n.value.isSigned = false := by
  rw [Bool.eq_false_iff, ne_eq, Double.isSigned_iff, Nat.not_le]
  exact n.bits_lt_sign

/-- The double in a number is written with no sign. -/
theorem text_value (n : Number) : n.value.text = String.ofList n.value.shortest.positional := by
  simp [Double.text, Double.isNaN_eq_false_of_isFinite n.isFinite, n.isSigned_eq_false, n.isFinite]

theorem toDouble_ofChars_shortest (n : Number) :
    (Decimal.ofChars n.value.shortest.positional).toDouble = n.value := by
  rw [Decimal.toDouble_ofChars_positional]
  exact Double.toDouble_shortest n.isFinite n.bits_lt_sign

/-- The text of a number reads back as the number. -/
theorem toDouble_ofChars_text (n : Number) :
    (Decimal.ofChars n.text.toList).toDouble = n.value := by
  unfold text
  split
  · rename_i whole
    have divides : n.value.steps / Double.stepsInOne * Double.stepsInOne = n.value.steps :=
      Nat.div_mul_cancel (Nat.dvd_of_mod_eq_zero (eq_of_beq whole))
    have ten : (n.value.steps / Double.stepsInOne * 10 * 1) * Double.stepsInOne =
        n.value.steps * 10 := by
      rw [Nat.mul_one, Nat.mul_right_comm, divides]
    have last (q : Nat) : Nat.ofDigitChars 10 ['0'] q = q * 10 := by
      simp [Nat.ofDigitChars_cons, Nat.mul_comm]
    rw [String.toList_ofList, 
      @Decimal.ofChars_point _ ['0'] (Decimal.point_not_mem (Decimal.isDigit_toDigits _)),
      Nat.ofDigitChars_append, Nat.ofDigitChars_ten_toDigits, last]
    -- Digits in full need not be the shortest. They read back since they are exact.
    apply Double.nearest_of_holds n.isFinite n.bits_lt_sign (Nat.pow_pos (by decide))
    change n.value.interval.holds
      (4 * ((n.value.steps / Double.stepsInOne * 10 * 1) * Double.stepsInOne)) 10 = true
    rw [ten]
    exact n.value.holds_middle (by decide)
  · rw [String.toList_ofList]
    exact n.toDouble_ofChars_shortest

theorem isNumeral_text (n : Number) : IsNumeral n.text.toList := by
  unfold text
  split
  · rw [String.toList_ofList]
    refine @isNumeral_of_point _ ['0'] Nat.toDigits_ne_nil (by simp) ?_
    exact List.forall_mem_append.mpr ⟨Decimal.isDigit_toDigits _, Decimal.isDigit_zeros 1⟩
  · rw [String.toList_ofList]
    exact Decimal.isNumeral_positional _

end Number

end SymbolicCalculus
