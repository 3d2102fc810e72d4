import SymbolicCalculus.Proofs.Double.Rounding
import SymbolicCalculus.Proofs.Syntax.Operand

/-!
The doubles that numerals are read as. A numeral of any length spells a rational number, and is read
as the double that this is rounded to, unless it is too large. How the number is written does not
matter.
-/

set_option autoImplicit false

namespace SymbolicCalculus

/-! ## The number that a numeral spells -/

def digitValue (c : Char) : ℚ := (c.toNat - '0'.toNat : ℕ)

/-- Each digit counts ten times what the next one does. -/
def wholeValue (digits : List Char) : ℚ := digits.foldl (fun n c => 10 * n + digitValue c) 0

/-- Behind a point the first digit counts tenths. -/
def fractionValue : List Char → ℚ
  | [] => 0
  | c :: digits => (digitValue c + fractionValue digits) / 10

def numeralValue (text : List Char) : ℚ :=
  wholeValue (text.takeWhile Char.isDigit) +
    fractionValue ((text.dropWhile Char.isDigit).drop 1)

theorem foldl_digitValue (digits : List Char) (n : Nat) :
    digits.foldl (fun n c => 10 * n + digitValue c) (n : ℚ) = Nat.ofDigitChars 10 digits n := by
  induction digits generalizing n with
  | nil => simp
  | cons c digits ih =>
    rw [List.foldl_cons, Nat.ofDigitChars_cons, ← ih, digitValue]
    push_cast
    rfl

theorem wholeValue_eq (digits : List Char) : wholeValue digits = Nat.ofDigitChars 10 digits 0 := by
  rw [← foldl_digitValue, Nat.cast_zero, wholeValue]

/-- Digits behind a number, all moved in front of the point. -/
theorem ofDigitChars_eq (digits : List Char) (n : Nat) :
    (Nat.ofDigitChars 10 digits n : ℚ) = (n + fractionValue digits) * 10 ^ digits.length := by
  induction digits generalizing n with
  | nil => simp [fractionValue]
  | cons c digits ih =>
    rw [Nat.ofDigitChars_cons, ih, fractionValue, List.length_cons, pow_succ, digitValue]
    push_cast
    ring

/-- A numeral spells the decimal that it is read as. -/
theorem numeralValue_eq {kind : Token.Kind} {text : List Char} (numeral : kind.isNumeral = true)
    (follows : kind.Matches text) :
    ∃ digits places, Decimal.ofChars text = ⟨digits, -(places : ℕ)⟩ ∧
      numeralValue text = (digits : ℕ) / 10 ^ places := by
  cases follows with
  | @int c more all =>
    refine ⟨_, 0, Decimal.ofChars_whole (Decimal.point_not_mem all), ?_⟩
    unfold numeralValue
    rw [List.takeWhile_eq_self_iff.mpr all, List.dropWhile_eq_nil_iff.mpr all, wholeValue_eq]
    simp [fractionValue]
  | @float c d whole fraction left right =>
    refine ⟨_, _, Decimal.ofChars_point (Decimal.point_not_mem left), ?_⟩
    have run : (c :: whole ++ '.' :: d :: fraction).takeWhile Char.isDigit = c :: whole :=
      takeWhile_run left (by simp)
    have rest : (c :: whole ++ '.' :: d :: fraction).dropWhile Char.isDigit =
        '.' :: d :: fraction := by
      rw [List.dropWhile_append_of_pos left]
      simp
    have shifted := ofDigitChars_eq (d :: fraction) (Nat.ofDigitChars 10 (c :: whole) 0)
    unfold numeralValue
    rw [run, rest, wholeValue_eq, Nat.ofDigitChars_append, shifted]
    exact (mul_div_cancel_right₀ _ (pow_ne_zero _ (by norm_num))).symm
  | whitespace | name | add | mul | openParen | closeParen => cases numeral

/-! ## The double that it is read as -/

namespace Token

variable {token : Token}

/-- The value of a numeral is the double that it is rounded to, and finite below the limit. -/
theorem rounds_value (numeral : token.kind.isNumeral = true)
    (follows : token.kind.Matches token.lexeme.toList) :
    (token.value.isFinite = true ↔ numeralValue token.lexeme.toList < 2 ^ 1024 - 2 ^ 970) ∧
      (token.value.isFinite = true → token.value.Rounds (numeralValue token.lexeme.toList)) := by
  obtain ⟨digits, places, read, spelled⟩ := numeralValue_eq numeral follows
  have pos : 0 < 10 ^ places := Nat.pow_pos (by decide)
  have value : token.value = Double.nearest digits (10 ^ places) := by
    rw [Token.value, read, Decimal.toDouble_eq_nearest]
  have spelled' : numeralValue token.lexeme.toList = digits / (10 ^ places : ℕ) := by
    rw [spelled, Nat.cast_pow, Nat.cast_ofNat]
  rw [value, spelled']
  refine ⟨?_, Double.rounds_nearest pos⟩
  -- Stated of any exponents, since the powers themselves are too large to be computed.
  have limit {m n : Nat} (below : n ≤ m) : (2 ^ m - 2 ^ n : ℚ) = (2 ^ m - 2 ^ n : ℕ) := by
    rw [Nat.cast_sub (Nat.pow_le_pow_right (by decide) below)]
    push_cast
    rfl
  rw [Double.isFinite_nearest_iff pos, div_lt_iff₀ (Nat.cast_pos.mpr pos), limit (by decide),
    ← Nat.cast_mul, Nat.cast_lt]

end Token

/-- A numeral comes next. -/
structure Cursor.AtNumeral (c : Cursor) (token : Token) : Prop where
  next : c.peek? = some token
  numeral : token.kind.isNumeral = true
  follows : token.kind.Matches token.lexeme.toList

namespace Parser

theorem result_number {c : Cursor} {token : Token} (h : c.AtNumeral token) :
    (number c).result =
      if token.value.isFinite then .ok (.number token.value token.span)
      else .error ⟨[token.span], .numberTooLarge⟩ := by
  obtain ⟨rest, ahead⟩ := List.head?_eq_some_iff.mp (c.peek?_eq ▸ h.next)
  obtain ⟨stop, advanced, _, reads⟩ := number_of_numeral ahead h.numeral
  rw [reads]
  split <;> rfl

/-- What is read of a numeral is told by the number that it spells. -/
theorem result_number_eq_ok {c : Cursor} {token : Token} (h : c.AtNumeral token) {value : Literal} :
    (number c).result = .ok value ↔ numeralValue token.lexeme.toList < 2 ^ 1024 - 2 ^ 970 ∧
      ∃ x : Double, value = .number x token.span ∧ x.Rounds (numeralValue token.lexeme.toList) := by
  obtain ⟨limit, rounds⟩ := Token.rounds_value h.numeral h.follows
  rw [result_number h, ← limit]
  constructor
  · intro read
    split at read
    · rename_i finite
      cases read
      exact ⟨finite, token.value, rfl, rounds finite⟩
    · cases read
  · rintro ⟨finite, x, rfl, same⟩
    rw [if_pos finite, same.unique (rounds finite)]

/-- A numeral below the limit is read as the one double that its number is rounded to, and any other
is refused. Numerals of the same number are read alike, and larger ones not as smaller doubles. -/
theorem number_rounds {c c' : Cursor} {token token' : Token} (h : c.AtNumeral token)
    (h' : c'.AtNumeral token') :
    let q := numeralValue token.lexeme.toList
    let q' := numeralValue token'.lexeme.toList
    ((∃ value, (number c).result = .ok value) ↔ q < 2 ^ 1024 - 2 ^ 970) ∧
      (∀ value, (number c).result = .ok value →
        ∃ x : Double, value = .number x token.span ∧ x.Rounds q ∧ ∀ y : Double, y.Rounds q → y = x) ∧
      (2 ^ 1024 - 2 ^ 970 ≤ q → (number c).result = .error ⟨[token.span], .numberTooLarge⟩) ∧
      (q = q' → ∀ x, (number c).result = .ok (.number x token.span) ↔
        (number c').result = .ok (.number x token'.span)) ∧
      (q ≤ q' → ∀ x x', (number c).result = .ok (.number x token.span) →
        (number c').result = .ok (.number x' token'.span) → x.toRat ≤ x'.toRat) := by
  intro q q'
  obtain ⟨limit, rounds⟩ := Token.rounds_value h.numeral h.follows
  refine ⟨?_, ?_, ?_, ?_, ?_⟩
  · constructor
    · rintro ⟨value, read⟩
      exact ((result_number_eq_ok h).mp read).1
    · intro below
      exact ⟨_, (result_number_eq_ok h).mpr ⟨below, _, rfl, rounds (limit.mpr below)⟩⟩
  · intro value read
    obtain ⟨_, x, same, rounded⟩ := (result_number_eq_ok h).mp read
    exact ⟨x, same, rounded, fun y other => other.unique rounded⟩
  · intro above
    rw [result_number h, if_neg (mt limit.mp (not_lt.mpr above))]
  · intro same x
    rw [result_number_eq_ok h, result_number_eq_ok h']
    simp only [Literal.number.injEq, and_true, exists_eq_left']
    rw [show numeralValue token.lexeme.toList = numeralValue token'.lexeme.toList from same]
  · intro below x x' read read'
    obtain ⟨_, y, same, rounded⟩ := (result_number_eq_ok h).mp read
    obtain ⟨_, y', same', rounded'⟩ := (result_number_eq_ok h').mp read'
    obtain ⟨rfl, _⟩ := Literal.number.inj same
    obtain ⟨rfl, _⟩ := Literal.number.inj same'
    exact rounded.mono rounded' below

theorem number_rounds_zeros :
    let text := "001.50 + x"
    let text' := "\t1.5"
    let c := Cursor.start (Token.scan text)
    let c' := Cursor.start (Token.scan text')
    let token : Token := ⟨.float, ⟨0, 6⟩, "001.50"⟩
    let token' : Token := ⟨.float, ⟨1, 4⟩, "1.5"⟩
    c.AtNumeral token ∧ c'.AtNumeral token' ∧
      numeralValue token.lexeme.toList = numeralValue token'.lexeme.toList ∧
      ∀ x, (number c).result = .ok (.number x ⟨0, 6⟩) ↔ (number c').result = .ok (.number x ⟨1, 4⟩) := by
  intro text text' c c' token token'
  have h : c.AtNumeral token :=
    ⟨by decide +kernel, rfl, @Token.matches_of_mem_scan text token (by decide +kernel) (by decide)⟩
  have h' : c'.AtNumeral token' :=
    ⟨by decide +kernel, rfl, @Token.matches_of_mem_scan text' token' (by decide +kernel) (by decide)⟩
  have same : numeralValue token.lexeme.toList = numeralValue token'.lexeme.toList := by
    decide +kernel
  exact ⟨h, h', same, (number_rounds h h').2.2.2.1 same⟩

end Parser

end SymbolicCalculus
