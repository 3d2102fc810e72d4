import SymbolicCalculus.Proofs.Token.Lexeme

/-!
Texts cut between two tokens, and texts put together. Although each token is as long as what follows
allows, a cut changes none of them. Nor does putting texts together, unless some token takes
characters of both, which none does at white space.
-/

set_option autoImplicit false

namespace SymbolicCalculus

theorem takeWhile_take {p : Char → Bool} {text : List Char} {length : Nat}
    (enough : (text.takeWhile p).length ≤ length) :
    (text.take length).takeWhile p = text.takeWhile p := by
  have split : text.take length =
      text.takeWhile p ++ (text.dropWhile p).take (length - (text.takeWhile p).length) := by
    conv => lhs; rw [← List.takeWhile_append_dropWhile (p := p) (l := text)]
    rw [List.take_append, List.take_of_length_le enough]
  rw [split]
  refine takeWhile_run (List.all_eq_true.mp List.all_takeWhile) ?_
  intro c member
  have head : (text.dropWhile p).head? = some c := by
    rw [List.head?_take] at member
    split at member
    · cases member
    · exact member
  simpa [head] using List.head?_dropWhile_not p text

namespace Token

section

variable {rest : List Char}

theorem numeralExtent_of_fraction {digit : Char} {more : List Char}
    (point : rest.drop (rest.takeWhile Char.isDigit).length = '.' :: digit :: more)
    (isDigit : digit.isDigit = true) :
    numeralExtent rest =
      (.float, (rest.takeWhile Char.isDigit).length + 2 + (more.takeWhile Char.isDigit).length) := by
  unfold numeralExtent
  simp only [point, isDigit, if_true]

/-- Without a point and a digit behind it, a numeral ends with its whole digits. -/
theorem numeralExtent_of_whole
    (pointless : ∀ digit more,
      rest.drop (rest.takeWhile Char.isDigit).length = '.' :: digit :: more → digit.isDigit = false) :
    numeralExtent rest = (.int, (rest.takeWhile Char.isDigit).length) := by
  unfold numeralExtent
  simp only
  split
  · rename_i digit more point
    rw [pointless digit more point]
    rfl
  · rfl

theorem numeralExtent_take {length : Nat} (enough : (numeralExtent rest).2 ≤ length) :
    numeralExtent (rest.take length) = numeralExtent rest := by
  by_cases fraction : ∃ digit more, rest.drop (rest.takeWhile Char.isDigit).length =
      '.' :: digit :: more ∧ digit.isDigit = true
  · obtain ⟨digit, more, point, isDigit⟩ := fraction
    have whole := numeralExtent_of_fraction point isDigit
    rw [whole] at enough ⊢
    simp only at enough
    have run : (rest.take length).takeWhile Char.isDigit = rest.takeWhile Char.isDigit :=
      takeWhile_take (by omega)
    obtain ⟨left, spare⟩ : ∃ left, length = (rest.takeWhile Char.isDigit).length + (left + 2) :=
      ⟨length - (rest.takeWhile Char.isDigit).length - 2, by omega⟩
    have point' : (rest.take length).drop ((rest.take length).takeWhile Char.isDigit).length =
        '.' :: digit :: more.take left := by
      rw [run, List.drop_take, point, spare, Nat.add_sub_cancel_left]
      rfl
    rw [numeralExtent_of_fraction point' isDigit, run, takeWhile_take (by omega)]
  · have pointless : ∀ digit more, rest.drop (rest.takeWhile Char.isDigit).length =
        '.' :: digit :: more → digit.isDigit = false := by
      intro digit more point
      rw [Bool.eq_false_iff]
      exact fun isDigit => fraction ⟨digit, more, point, isDigit⟩
    have whole := numeralExtent_of_whole pointless
    rw [whole] at enough ⊢
    have run : (rest.take length).takeWhile Char.isDigit = rest.takeWhile Char.isDigit :=
      takeWhile_take enough
    rw [← run]
    refine numeralExtent_of_whole ?_
    intro digit more point
    -- What is left of a shorter text is there in the longer one.
    rw [run, List.drop_take] at point
    obtain ⟨behind, longer⟩ := List.take_prefix (length - (rest.takeWhile Char.isDigit).length)
      (rest.drop (rest.takeWhile Char.isDigit).length)
    rw [point] at longer
    exact pointless digit (more ++ behind) longer.symm

end

/-- The front of a text decides on its first token, and no more of it than the token takes. -/
theorem extent_take {c : Char} {rest : List Char} {length : Nat}
    (enough : (extent c rest).2 ≤ length) : extent c (rest.take length) = extent c rest := by
  unfold extent at enough ⊢
  split
  · rename_i blank
    rw [if_pos blank] at enough
    rw [takeWhile_take enough]
  · rename_i dark
    rw [if_neg dark] at enough
    split
    · rename_i alpha
      rw [if_pos alpha] at enough
      rw [takeWhile_take enough]
    · rename_i other
      rw [if_neg other] at enough
      split
      · rename_i digit
        rw [if_pos digit] at enough
        exact numeralExtent_take enough
      · rfl

/-- A text that is cut behind its first token still starts with that token. -/
theorem scanFrom_shorten {c : Char} {rest before behind : List Char} (position : Nat)
    (split : rest.drop (extent c rest).2 = before ++ behind) :
    scanFrom position [] (c :: (rest.take (extent c rest).2 ++ before)) =
      front position c rest :: scanFrom (front position c rest).span.stop [] before := by
  have taken : (rest.take (extent c rest).2).length = (extent c rest).2 :=
    List.length_take_of_le (extent_le c rest)
  -- The first token and what is in front of the cut are all that is left of the text.
  have text : rest.take (extent c rest).2 ++ before =
      rest.take ((extent c rest).2 + before.length) := by
    rw [List.take_add, split, List.take_left]
  have same : extent c (rest.take (extent c rest).2 ++ before) = extent c rest := by
    rw [text]
    exact extent_take (Nat.le_add_right _ _)
  have token : front position c (rest.take (extent c rest).2 ++ before) = front position c rest := by
    rw [front, front, same, List.take_left' taken]
  rw [scanFrom_cons, token, same, List.drop_left' taken]

theorem stop_front_add_shorten (position : Nat) (c : Char) (rest before : List Char) :
    position + utf8Length (c :: (rest.take (extent c rest).2 ++ before)) =
      (front position c rest).span.stop + utf8Length before := by
  rw [← List.cons_append, utf8Length_append, ← Nat.add_assoc]
  rfl

/-- Wherever its tokens can be divided, a text can be cut, and both parts have their own tokens. -/
theorem exists_cut {position : Nat} {text : List Char} {first second : List Token}
    (h : scanFrom position [] text = first ++ second) :
    ∃ before behind, text = before ++ behind ∧ scanFrom position [] before = first ∧
      scanFrom (position + utf8Length before) [] behind = second := by
  induction first generalizing position text with
  | nil => exact ⟨[], text, rfl, by simp [scanFrom], h⟩
  | cons token first ih =>
    cases text with
    | nil => simp [scanFrom] at h
    | cons c rest =>
      rw [scanFrom_cons, List.cons_append] at h
      obtain ⟨rfl, tail⟩ := List.cons.inj h
      obtain ⟨before, behind, split, scanned, scanned'⟩ := ih tail
      refine ⟨c :: (rest.take (extent c rest).2 ++ before), behind, ?_, ?_, ?_⟩
      · rw [List.cons_append, List.append_assoc, ← split, List.take_append_drop]
      · rw [scanFrom_shorten position split, scanned]
      · rw [← scanned', stop_front_add_shorten]

/-! ## Two texts put together -/

theorem numeralExtent_ne_symbol (rest : List Char) : (numeralExtent rest).1 ≠ .symbol := by
  unfold numeralExtent
  simp only
  split
  · split <;> simp
  · simp

theorem extent_of_symbol {c : Char} {rest : List Char} (symbol : (extent c rest).1 = .symbol) :
    (extent c rest).2 = 0 := by
  revert symbol
  unfold extent
  split
  · simp
  · split
    · simp
    · split
      · exact fun symbol => absurd symbol (numeralExtent_ne_symbol rest)
      · split <;> simp

/-- A token with characters of two texts, of which the second is behind the first. Up to this token
the first text keeps its own tokens. -/
structure Straddle (position : Nat) (text behind : List Char) where
  kind : Kind
  before : List Char
  /-- What the token takes of the first text. -/
  left : List Char
  /-- What it takes of the second one. -/
  right : List Char
  rest : List Char
  left_ne_nil : left ≠ []
  right_ne_nil : right ≠ []
  follows : kind.Matches (left ++ right)
  text_eq : text = before ++ left
  behind_eq : behind = right ++ rest
  scan_text : scanFrom position [] text =
    scanFrom position [] before ++ scanFrom (position + utf8Length before) [] left
  scan_whole : scanFrom position [] (text ++ behind) =
    scanFrom position [] before ++
      ⟨kind, ⟨position + utf8Length before, position + utf8Length before + utf8Length (left ++ right)⟩,
        String.ofList (left ++ right)⟩ ::
      scanFrom (position + utf8Length before + utf8Length (left ++ right)) [] rest

/-- A single character is taken as a whole. -/
theorem Straddle.of_char {position : Nat} {text : List Char} {c : Char}
    (s : Straddle position text [c]) : s.right = [c] ∧ s.rest = [] := by
  obtain ⟨d, more, right⟩ := List.exists_cons_of_ne_nil s.right_ne_nil
  have all := s.behind_eq
  rw [right, List.cons_append] at all
  obtain ⟨rfl, nothing⟩ := List.cons.inj all
  obtain ⟨rfl, rest⟩ := List.append_eq_nil_iff.mp nothing.symm
  exact ⟨right, rest⟩

/-- The first token of a text straddles, if it goes on for longer than the text. -/
def Straddle.first (position : Nat) {c : Char} {rest behind : List Char}
    (beyond : rest.length < (extent c (rest ++ behind)).2) : Straddle position (c :: rest) behind where
  kind := (extent c (rest ++ behind)).1
  before := []
  left := c :: rest
  right := behind.take ((extent c (rest ++ behind)).2 - rest.length)
  rest := behind.drop ((extent c (rest ++ behind)).2 - rest.length)
  left_ne_nil := List.cons_ne_nil c rest
  right_ne_nil := by
    have bound := extent_le c (rest ++ behind)
    rw [List.length_append] at bound
    rw [ne_eq, List.take_eq_nil_iff, ← List.length_eq_zero_iff]
    omega
  follows := by
    have known : (extent c (rest ++ behind)).1 ≠ .symbol := by
      intro symbol
      rw [extent_of_symbol symbol] at beyond
      exact Nat.not_lt_zero _ beyond
    have lexeme := matches_extent known
    rwa [List.take_append, List.take_of_length_le (Nat.le_of_lt beyond)] at lexeme
  text_eq := rfl
  behind_eq := (List.take_append_drop ..).symm
  scan_text := by simp [scanFrom]
  scan_whole := by
    rw [List.cons_append, scanFrom_cons, front, List.take_append,
      List.take_of_length_le (Nat.le_of_lt beyond), List.drop_append,
      List.drop_eq_nil_of_le (Nat.le_of_lt beyond)]
    simp [scanFrom]

/-- A first token that ends within the text is the same with more text behind. -/
theorem scanFrom_cons_append {c : Char} {rest behind : List Char} (position : Nat)
    (within : (extent c (rest ++ behind)).2 ≤ rest.length) :
    scanFrom position [] (c :: rest ++ behind) =
      front position c rest ::
        scanFrom (front position c rest).span.stop [] (rest.drop (extent c rest).2 ++ behind) := by
  have same := extent_take within
  rw [List.take_left] at same
  have token : front position c (rest ++ behind) = front position c rest := by
    rw [front, front, ← same, List.take_append_of_le_length (extent_le c rest)]
  rw [List.cons_append, scanFrom_cons, token, ← same,
    List.drop_append_of_le_length (extent_le c rest)]

/-- What straddles behind the first token straddles in the whole text. -/
def Straddle.cons {position : Nat} {c : Char} {rest behind : List Char}
    (within : (extent c (rest ++ behind)).2 ≤ rest.length)
    (s : Straddle (front position c rest).span.stop (rest.drop (extent c rest).2) behind) :
    Straddle position (c :: rest) behind where
  kind := s.kind
  before := c :: (rest.take (extent c rest).2 ++ s.before)
  left := s.left
  right := s.right
  rest := s.rest
  left_ne_nil := s.left_ne_nil
  right_ne_nil := s.right_ne_nil
  follows := s.follows
  text_eq := by
    rw [List.cons_append, List.append_assoc, ← s.text_eq, List.take_append_drop]
  behind_eq := s.behind_eq
  scan_text := by
    rw [scanFrom_cons, s.scan_text, scanFrom_shorten position s.text_eq, stop_front_add_shorten]
    rfl
  scan_whole := by
    rw [scanFrom_cons_append position within, s.scan_whole, scanFrom_shorten position s.text_eq,
      stop_front_add_shorten]
    rfl

/-- Put together, two texts keep their tokens, unless there is one with characters of both. -/
theorem scanFrom_append (position : Nat) (text behind : List Char) :
    scanFrom position [] (text ++ behind) =
        scanFrom position [] text ++ scanFrom (position + utf8Length text) [] behind ∨
      Nonempty (Straddle position text behind) := by
  match text with
  | [] => simp [scanFrom]
  | c :: rest =>
    rcases Nat.lt_or_ge rest.length (extent c (rest ++ behind)).2 with beyond | within
    · exact .inr ⟨.first position beyond⟩
    · rcases scanFrom_append (front position c rest).span.stop (rest.drop (extent c rest).2) behind
        with apart | straddles
      · left
        rw [scanFrom_cons_append position within, apart, stop_front_add, scanFrom_cons,
          List.cons_append]
      · obtain ⟨s⟩ := straddles
        exact .inr ⟨s.cons within⟩
termination_by text.length
decreasing_by simp only [List.length_drop, List.length_cons]; omega

/-! ## White space between two texts -/

/-- Only tokens of white space have white space. -/
theorem Kind.Matches.not_isWhitespace {kind : Kind} {text : List Char} (h : kind.Matches text)
    (plain : kind.isWhitespace = false) : ∀ c ∈ text, c.isWhitespace = false := by
  cases h with
  | whitespace => cases plain
  | name all => exact fun c member => not_isWhitespace_of_isAlpha (all c member)
  | int all => exact fun c member => not_isWhitespace_of_isDigit (all c member)
  | float left right =>
    intro c member
    rcases List.mem_append.mp member with member | member
    · exact not_isWhitespace_of_isDigit (left c member)
    · rcases List.mem_cons.mp member with rfl | member
      · rfl
      · exact not_isWhitespace_of_isDigit (right c member)
  | add | mul | openParen | closeParen => simp [Char.isWhitespace]

/-- No token has both white space and other characters. -/
theorem Kind.Matches.blank_or_dark {kind : Kind} {text : List Char} (h : kind.Matches text) :
    (∀ c ∈ text, c.isWhitespace = true) ∨ ∀ c ∈ text, c.isWhitespace = false := by
  cases plain : kind.isWhitespace with
  | false => exact .inr (h.not_isWhitespace plain)
  | true =>
    cases h with
    | whitespace all => exact .inl all
    | _ => cases plain

/-- White space behind a text that does not end in white space belongs to no token of the text. -/
theorem scanFrom_append_blank {position : Nat} {text behind : List Char}
    (ends : ∀ c ∈ text.getLast?, c.isWhitespace = false)
    (blank : ∀ c ∈ behind.head?, c.isWhitespace = true) :
    scanFrom position [] (text ++ behind) =
      scanFrom position [] text ++ scanFrom (position + utf8Length text) [] behind := by
  rcases scanFrom_append position text behind with apart | straddles
  · exact apart
  · obtain ⟨s⟩ := straddles
    -- The token would hold the last character of the text and the white space behind it.
    obtain ⟨c, right, first⟩ := List.exists_cons_of_ne_nil s.right_ne_nil
    have white := blank c (by simp [s.behind_eq, first])
    have dark := ends (s.left.getLast s.left_ne_nil)
      (by simp [s.text_eq, List.getLast?_append, List.getLast?_eq_some_getLast s.left_ne_nil])
    rcases s.follows.blank_or_dark with all | all
    · rw [all _ (List.mem_append_left _ (List.getLast_mem _))] at dark
      contradiction
    · rw [all c (by simp [first])] at white
      contradiction

end Token

end SymbolicCalculus
