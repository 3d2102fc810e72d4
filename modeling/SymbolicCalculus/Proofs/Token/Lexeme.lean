import SymbolicCalculus.Token.Scan

/-!
The texts of tokens. Scanned tokens match the rules of their kinds, and a text that matches a rule
is scanned as one token if what follows cannot prolong it.
-/

set_option autoImplicit false

namespace SymbolicCalculus

theorem utf8Length_toList (text : String) : utf8Length text.toList = text.utf8ByteSize := by
  have ofChars (chars : List Char) : utf8Length chars = (String.ofList chars).utf8ByteSize := by
    induction chars with
    | nil => rfl
    | cons c chars ih =>
      rw [String.ofList_cons, String.utf8ByteSize_append, String.utf8ByteSize_singleton,
        utf8Length_cons, ih]
  rw [ofChars, String.ofList_toList]

/-! ## Character classes -/

theorem not_isWhitespace_of_isAlpha {c : Char} (h : c.isAlpha = true) : c.isWhitespace = false := by
  rw [Bool.eq_false_iff]
  intro blank
  simp only [Char.isWhitespace, Bool.or_eq_true, decide_eq_true_eq] at blank
  rcases blank with ((rfl | rfl) | rfl) | rfl <;> exact absurd h (by decide)

theorem not_isWhitespace_of_isDigit {c : Char} (h : c.isDigit = true) : c.isWhitespace = false := by
  rw [Bool.eq_false_iff]
  intro blank
  simp only [Char.isWhitespace, Bool.or_eq_true, decide_eq_true_eq] at blank
  rcases blank with ((rfl | rfl) | rfl) | rfl <;> exact absurd h (by decide)

theorem not_isAlpha_of_isDigit {c : Char} (h : c.isDigit = true) : c.isAlpha = false := by
  change (decide ('0'.val ≤ c.val) && decide (c.val ≤ '9'.val)) = true at h
  change (decide ('A'.val ≤ c.val ∧ c.val ≤ 'Z'.val) ||
    decide ('a'.val ≤ c.val) && decide (c.val ≤ 'z'.val)) = false
  have nine : '9'.val.toNat = 57 := rfl
  have a : 'a'.val.toNat = 97 := rfl
  have A : 'A'.val.toNat = 65 := rfl
  simp only [Bool.and_eq_true, decide_eq_true_eq, UInt32.le_iff_toNat_le] at h
  simp only [Bool.or_eq_false_iff, Bool.and_eq_false_iff, decide_eq_false_iff_not, not_and,
    UInt32.le_iff_toNat_le]
  omega

/-- Where a run of a class ends, the next character is not of the class. -/
theorem takeWhile_run {p : Char → Bool} {run rest : List Char} (inside : ∀ c ∈ run, p c = true)
    (boundary : ∀ c ∈ rest.head?, p c = false) : (run ++ rest).takeWhile p = run := by
  have stop : rest.takeWhile p = [] := by
    cases rest with
    | nil => rfl
    | cons c rest => simp [boundary c rfl]
  rw [List.takeWhile_append_of_pos inside, stop, List.append_nil]

namespace Token

/-- The rules that the texts of tokens follow. A symbol is what matches no rule. -/
inductive Kind.Matches : Kind → List Char → Prop where
  | whitespace {c : Char} {more : List Char} (all : ∀ d ∈ c :: more, d.isWhitespace = true) :
      Matches whitespace (c :: more)
  | name {c : Char} {more : List Char} (all : ∀ d ∈ c :: more, d.isAlpha = true) :
      Matches name (c :: more)
  | int {c : Char} {more : List Char} (all : ∀ d ∈ c :: more, d.isDigit = true) :
      Matches int (c :: more)
  | float {c d : Char} {whole fraction : List Char} (left : ∀ e ∈ c :: whole, e.isDigit = true)
      (right : ∀ e ∈ d :: fraction, e.isDigit = true) :
      Matches float (c :: whole ++ '.' :: d :: fraction)
  | add : Matches add ['+']
  | mul : Matches mul ['*']
  | openParen : Matches openParen ['(']
  | closeParen : Matches closeParen [')']

/-- Can such a token become longer by the character? A whole number can by a point. -/
def Kind.goesOn : Kind → Char → Bool
  | whitespace, c => c.isWhitespace
  | name, c => c.isAlpha
  | int, c => c.isDigit || c == '.'
  | float, c => c.isDigit
  | _, _ => false

theorem forall_mem_takeWhile (p : Char → Bool) (text : List Char) :
    ∀ c ∈ text.takeWhile p, p c = true := List.all_eq_true.mp List.all_takeWhile

theorem take_takeWhile (p : Char → Bool) (text : List Char) :
    text.take (text.takeWhile p).length = text.takeWhile p :=
  (List.prefix_iff_eq_take.mp (List.takeWhile_prefix p)).symm

theorem matches_numeral {c : Char} (digit : c.isDigit = true) (rest : List Char) :
    (numeralExtent rest).1.Matches (c :: rest.take (numeralExtent rest).2) := by
  have whole : ∀ d ∈ c :: rest.takeWhile Char.isDigit, d.isDigit = true := by
    simpa [digit] using forall_mem_takeWhile _ rest
  unfold numeralExtent
  simp only
  split
  · rename_i next more point
    split
    · rename_i digit'
      have fraction : ∀ d ∈ next :: more.takeWhile Char.isDigit, d.isDigit = true := by
        simpa [digit'] using forall_mem_takeWhile _ more
      -- The extent is given in lengths, and the two runs and the point make up just as much.
      have text : rest.take ((rest.takeWhile Char.isDigit).length + 2 +
            (more.takeWhile Char.isDigit).length) =
          rest.takeWhile Char.isDigit ++ '.' :: next :: more.takeWhile Char.isDigit := by
        rw [Nat.add_assoc, List.take_add, point, take_takeWhile, Nat.add_comm 2, List.take_succ_cons,
          List.take_succ_cons, take_takeWhile]
      simp only [text]
      exact .float whole fraction
    · simp only [take_takeWhile]
      exact .int whole
  · simp only [take_takeWhile]
    exact .int whole

/-- The text that a token takes matches the rule of its kind. -/
theorem matches_extent {c : Char} {rest : List Char} (known : (extent c rest).1 ≠ .symbol) :
    (extent c rest).1.Matches (c :: rest.take (extent c rest).2) := by
  revert known
  unfold extent
  split
  · rename_i blank
    intro _
    simp only [take_takeWhile]
    exact .whitespace (by simpa [blank] using forall_mem_takeWhile _ rest)
  · split
    · rename_i alpha
      intro _
      simp only [take_takeWhile]
      exact .name (by simpa [alpha] using forall_mem_takeWhile _ rest)
    · split
      · rename_i digit
        intro _
        exact matches_numeral digit rest
      · split
        · exact fun _ => .add
        · exact fun _ => .mul
        · exact fun _ => .openParen
        · exact fun _ => .closeParen
        · intro known
          exact absurd rfl known

theorem extent_of_isDigit {c : Char} (digit : c.isDigit = true) (rest : List Char) :
    extent c rest = numeralExtent rest := by
  simp [extent, not_isWhitespace_of_isDigit digit, not_isAlpha_of_isDigit digit, digit]

/-- A text that matches a rule is taken as a whole, unless it can go on. -/
theorem extent_of_matches {kind : Kind} {c : Char} {more rest : List Char}
    (h : kind.Matches (c :: more)) (apart : ∀ next ∈ rest.head?, kind.goesOn next = false) :
    extent c (more ++ rest) = (kind, more.length) := by
  cases h with
  | whitespace all =>
    have blank : c.isWhitespace = true := all c List.mem_cons_self
    have run := takeWhile_run (fun d member => all d (List.mem_cons_of_mem c member)) apart
    simp [extent, blank, run]
  | name all =>
    have alpha : c.isAlpha = true := all c List.mem_cons_self
    have run := takeWhile_run (fun d member => all d (List.mem_cons_of_mem c member)) apart
    simp [extent, not_isWhitespace_of_isAlpha alpha, alpha, run]
  | int all =>
    have digit : c.isDigit = true := all c List.mem_cons_self
    have run : (more ++ rest).takeWhile Char.isDigit = more := by
      refine takeWhile_run (fun d member => all d (List.mem_cons_of_mem c member)) ?_
      intro next member
      have ends := apart next member
      simp only [Kind.goesOn, Bool.or_eq_false_iff] at ends
      exact ends.1
    -- With a point behind it, the text could be the start of a float.
    have point : ∀ behind, rest ≠ '.' :: behind := by
      rintro behind rfl
      simpa [Kind.goesOn] using apart '.' rfl
    rw [extent_of_isDigit digit, numeralExtent]
    simp only [run, List.drop_left]
    split
    · exact absurd rfl (point _)
    · rfl
  | @float _ d whole fraction left right =>
    have digit : c.isDigit = true := left c List.mem_cons_self
    have digit' : d.isDigit = true := right d List.mem_cons_self
    have run : (whole ++ '.' :: d :: (fraction ++ rest)).takeWhile Char.isDigit = whole :=
      takeWhile_run (fun e member => left e (List.mem_cons_of_mem c member)) (by simp)
    have run' : (fraction ++ rest).takeWhile Char.isDigit = fraction :=
      takeWhile_run (fun e member => right e (List.mem_cons_of_mem d member)) apart
    have text : whole ++ '.' :: d :: fraction ++ rest = whole ++ '.' :: d :: (fraction ++ rest) := by
      simp
    have length : whole.length + 2 + fraction.length = (whole ++ '.' :: d :: fraction).length := by
      simp only [List.length_append, List.length_cons]
      omega
    rw [extent_of_isDigit digit]
    change numeralExtent (whole ++ '.' :: d :: fraction ++ rest) =
      (.float, (whole ++ '.' :: d :: fraction).length)
    rw [text, ← length, numeralExtent]
    simp only [run, List.drop_left, digit', if_true, run']
  | add | mul | openParen | closeParen => rfl

/-! ## Scanned tokens -/

/-- The token at the front of a text. -/
def front (position : Nat) (c : Char) (rest : List Char) : Token :=
  let lexeme := c :: rest.take (extent c rest).2
  ⟨(extent c rest).1, ⟨position, position + utf8Length lexeme⟩, String.ofList lexeme⟩

theorem scanFrom_cons (position : Nat) (c : Char) (rest : List Char) :
    scanFrom position [] (c :: rest) =
      front position c rest ::
        scanFrom (front position c rest).span.stop [] (rest.drop (extent c rest).2) := by
  rw [scanFrom]
  simp only [front]
  rw [scanFrom_eq]
  rfl

/-- What is behind the first token starts where the token stops. -/
theorem stop_front_add (position : Nat) (c : Char) (rest : List Char) :
    (front position c rest).span.stop + utf8Length (rest.drop (extent c rest).2) =
      position + utf8Length (c :: rest) := by
  have whole : utf8Length (c :: rest) =
      utf8Length (c :: rest.take (extent c rest).2) + utf8Length (rest.drop (extent c rest).2) := by
    rw [← utf8Length_append, List.cons_append, List.take_append_drop]
  rw [whole, ← Nat.add_assoc]
  rfl

theorem scanFrom_matches {kind : Kind} {lexeme rest : List Char} (position : Nat)
    (h : kind.Matches lexeme) (apart : ∀ next ∈ rest.head?, kind.goesOn next = false) :
    scanFrom position [] (lexeme ++ rest) =
      ⟨kind, ⟨position, position + utf8Length lexeme⟩, String.ofList lexeme⟩ ::
        scanFrom (position + utf8Length lexeme) [] rest := by
  obtain ⟨c, more, rfl⟩ : ∃ c more, lexeme = c :: more := by cases h <;> exact ⟨_, _, rfl⟩
  have extent := extent_of_matches h apart
  rw [List.cons_append, scanFrom_cons]
  simp [front, extent]

/-- What holds of every token at the front of a text holds of all scanned tokens. -/
theorem forall_mem_scanFrom {P : Token → Prop} (step : ∀ position c rest, P (front position c rest))
    (position : Nat) (text : List Char) : ∀ token ∈ scanFrom position [] text, P token := by
  match text with
  | [] => simp [scanFrom]
  | c :: rest =>
    have behind := forall_mem_scanFrom step (front position c rest).span.stop
      (rest.drop (extent c rest).2)
    rw [scanFrom_cons]
    exact List.forall_mem_cons.mpr ⟨step position c rest, behind⟩
termination_by text.length
decreasing_by simp only [List.length_drop, List.length_cons]; omega

/-- The lexeme of a token matches the rule of its kind. -/
theorem matches_of_mem_scan {text : String} {token : Token} (h : token ∈ scan text)
    (known : token.kind ≠ .symbol) : token.kind.Matches token.lexeme.toList := by
  have step (position : Nat) (c : Char) (rest : List Char) :
      (front position c rest).kind ≠ .symbol →
        (front position c rest).kind.Matches (front position c rest).lexeme.toList := by
    intro known
    simpa [front] using matches_extent known
  have all := @forall_mem_scanFrom
    (fun token => token.kind ≠ .symbol → token.kind.Matches token.lexeme.toList) step
  exact all 0 text.toList token h known

/-- Tokens reach to the end of the text. -/
theorem stop_of_getLast?_scanFrom {position : Nat} {text : List Char} {token : Token}
    (h : (scanFrom position [] text).getLast? = some token) :
    token.span.stop = position + utf8Length text := by
  match text with
  | [] => simp [scanFrom] at h
  | c :: rest =>
    rw [scanFrom_cons, List.getLast?_cons] at h
    rw [← stop_front_add]
    cases behind : rest.drop (extent c rest).2 with
    | nil =>
      have last : front position c rest = token := by simpa [behind, scanFrom] using h
      rw [← last]
      rfl
    | cons d more =>
      have last : (scanFrom (front position c rest).span.stop [] (d :: more)).getLast? =
          some token := by
        rw [behind, scanFrom_cons] at h
        rw [scanFrom_cons]
        simpa [List.getLast?_cons] using h
      exact stop_of_getLast?_scanFrom last
termination_by text.length
decreasing_by
  have := congrArg List.length behind
  simp only [List.length_drop, List.length_cons] at *
  omega

end Token

end SymbolicCalculus
