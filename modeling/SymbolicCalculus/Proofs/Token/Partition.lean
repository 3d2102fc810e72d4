import SymbolicCalculus.Proofs.Text.Slice
import SymbolicCalculus.Proofs.Token.Cut
import SymbolicCalculus.Proofs.Token.Order

/-!
The tokens of a text as a partition of it. They cover the text without gaps and overlaps, and each
is the longest piece that can stand where it starts. No other list of tokens does so.
-/

set_option autoImplicit false

namespace SymbolicCalculus

namespace Token

/-- What stands first in a text: the longest text that matches some rule, or one character where no
rule matches anything. -/
inductive Kind.Foremost : Kind → List Char → List Char → Prop where
  | rule {kind : Kind} {lexeme behind : List Char} (follows : kind.Matches lexeme)
      (longest : ∀ other front, front <+: lexeme ++ behind → Kind.Matches other front →
        front.length ≤ lexeme.length) :
      Foremost kind lexeme (lexeme ++ behind)
  | symbol {c : Char} {behind : List Char}
      (foreign : ∀ other front, front <+: c :: behind → ¬Kind.Matches other front) :
      Foremost symbol [c] (c :: behind)

/-- Tokens that divide a text among themselves. -/
structure Partition (text : String) (tokens : List Token) : Prop where
  /-- Each token starts where the one before it stops, the first at the start of the text, and the
  last stops at its end. -/
  contiguous : 0 :: tokens.map (·.span.stop) = tokens.map (·.span.start) ++ [text.utf8ByteSize]
  filled : ∀ token ∈ tokens, token.span.start < token.span.stop
  marked : ∀ token ∈ tokens, token.span.slice? text = some token.lexeme
  foremost : ∀ token ∈ tokens, ∃ front rest,
    cutAt? token.span.start text.toList = some (front, rest) ∧
      token.kind.Foremost token.lexeme.toList rest

/-! ## The first token of a text -/

theorem length_le_takeWhile {p : Char → Bool} {run : List Char} (inside : ∀ c ∈ run, p c = true)
    (rest : List Char) : run.length ≤ ((run ++ rest).takeWhile p).length := by
  rw [List.takeWhile_append_of_pos inside, List.length_append]
  omega

theorem length_le_numeralExtent {run : List Char} (digits : ∀ c ∈ run, c.isDigit = true)
    (rest : List Char) : run.length ≤ (numeralExtent (run ++ rest)).2 := by
  have whole := length_le_takeWhile digits rest
  unfold numeralExtent
  simp only
  split
  · split
    · simp only
      omega
    · exact whole
  · exact whole

/-- Whatever in front of a text matches a rule, the first token takes at least as much. -/
theorem length_le_extent {kind : Kind} {c : Char} {more : List Char} (h : kind.Matches (c :: more))
    (behind : List Char) :
    (extent c (more ++ behind)).1 ≠ .symbol ∧ more.length ≤ (extent c (more ++ behind)).2 := by
  cases h with
  | whitespace all =>
    have blank : c.isWhitespace = true := all c List.mem_cons_self
    have run := length_le_takeWhile (fun d member => all d (List.mem_cons_of_mem c member)) behind
    simpa [extent, blank] using run
  | name all =>
    have alpha : c.isAlpha = true := all c List.mem_cons_self
    have run := length_le_takeWhile (fun d member => all d (List.mem_cons_of_mem c member)) behind
    simpa [extent, not_isWhitespace_of_isAlpha alpha, alpha] using run
  | int all =>
    have digit : c.isDigit = true := all c List.mem_cons_self
    rw [extent_of_isDigit digit]
    exact ⟨numeralExtent_ne_symbol _,
      length_le_numeralExtent (fun d member => all d (List.mem_cons_of_mem c member)) behind⟩
  | @float _ d whole fraction left right =>
    have digit : c.isDigit = true := left c List.mem_cons_self
    rw [extent_of_isDigit digit]
    refine ⟨numeralExtent_ne_symbol _, ?_⟩
    change (whole ++ '.' :: d :: fraction).length ≤
      (numeralExtent (whole ++ '.' :: d :: fraction ++ behind)).2
    have run : (whole ++ '.' :: d :: fraction ++ behind).takeWhile Char.isDigit = whole := by
      rw [List.append_assoc]
      exact takeWhile_run (fun e member => left e (List.mem_cons_of_mem c member)) (by simp)
    have point : (whole ++ '.' :: d :: fraction ++ behind).drop
        ((whole ++ '.' :: d :: fraction ++ behind).takeWhile Char.isDigit).length =
          '.' :: d :: (fraction ++ behind) := by
      rw [run, List.append_assoc, List.drop_left]
      rfl
    have more := length_le_takeWhile (fun e member => right e (List.mem_cons_of_mem d member)) behind
    rw [numeralExtent_of_fraction point (right d List.mem_cons_self), run]
    simp only [List.length_append, List.length_cons]
    omega
  | add | mul | openParen | closeParen => exact ⟨by simp [extent], Nat.zero_le _⟩

theorem Kind.Matches.ne_nil {kind : Kind} {text : List Char} (h : kind.Matches text) : text ≠ [] := by
  cases h <;> simp

/-- No text matches two rules. -/
theorem Kind.Matches.kind_unique {kind kind' : Kind} {text : List Char} (h : kind.Matches text)
    (h' : kind'.Matches text) : kind = kind' := by
  obtain ⟨c, more, rfl⟩ := List.exists_cons_of_ne_nil h.ne_nil
  have alone := @extent_of_matches kind c more [] h (by simp)
  have alone' := @extent_of_matches kind' c more [] h' (by simp)
  rw [alone] at alone'
  exact congrArg Prod.fst alone'

theorem foremost_extent (c : Char) (rest : List Char) :
    (extent c rest).1.Foremost (c :: rest.take (extent c rest).2) (c :: rest) := by
  have bound {other : Kind} {front : List Char} (leads : front <+: c :: rest)
      (follows : other.Matches front) :
      (extent c rest).1 ≠ .symbol ∧ front.length ≤ (extent c rest).2 + 1 := by
    obtain ⟨d, more, rfl⟩ := List.exists_cons_of_ne_nil follows.ne_nil
    obtain ⟨behind, split⟩ := leads
    obtain ⟨rfl, rfl⟩ := List.cons.inj split
    obtain ⟨known, length⟩ := length_le_extent follows behind
    exact ⟨known, Nat.succ_le_succ length⟩
  by_cases symbol : (extent c rest).1 = .symbol
  · rw [symbol, extent_of_symbol symbol]
    exact .symbol fun other front leads follows => (bound leads follows).1 symbol
  · have follows := matches_extent symbol
    have taken : (rest.take (extent c rest).2).length = (extent c rest).2 :=
      List.length_take_of_le (extent_le c rest)
    have whole := @Kind.Foremost.rule _ _ (rest.drop (extent c rest).2) follows
    rw [List.cons_append, List.take_append_drop] at whole
    refine whole fun other front leads matched => ?_
    rw [List.length_cons, taken]
    exact (bound leads matched).2

/-- Only one piece can stand first. -/
theorem Kind.Foremost.unique {kind kind' : Kind} {lexeme lexeme' text : List Char}
    (h : kind.Foremost lexeme text) (h' : kind'.Foremost lexeme' text) :
    kind = kind' ∧ lexeme = lexeme' := by
  cases h with
  | @rule _ _ behind follows longest =>
    generalize whole : lexeme ++ behind = text at h' longest
    cases h' with
    | @rule _ _ behind' follows' longest' =>
      have leads : lexeme <+: lexeme' ++ behind' := ⟨behind, whole⟩
      have leads' : lexeme' <+: lexeme' ++ behind' := List.prefix_append ..
      have same : lexeme = lexeme' :=
        (List.append_inj whole (Nat.le_antisymm (longest' kind lexeme leads follows)
          (longest kind' lexeme' leads' follows'))).1
      exact ⟨follows.kind_unique (same ▸ follows'), same⟩
    | symbol foreign => exact absurd follows (foreign kind lexeme ⟨behind, whole⟩)
  | @symbol c behind foreign =>
    generalize whole : c :: behind = text at h' foreign
    cases h' with
    | @rule _ _ behind' follows' _ =>
      exact absurd follows' (foreign kind' lexeme' (List.prefix_append ..))
    | symbol _ =>
      obtain ⟨rfl, _⟩ := List.cons.inj whole
      exact ⟨rfl, rfl⟩

/-! ## All tokens -/

theorem contiguous_scanFrom (position : Nat) (text : List Char) :
    position :: (scanFrom position [] text).map (·.span.stop) =
      (scanFrom position [] text).map (·.span.start) ++ [position + utf8Length text] := by
  match text with
  | [] => simp [scanFrom]
  | c :: rest =>
    have behind := contiguous_scanFrom (front position c rest).span.stop
      (rest.drop (extent c rest).2)
    rw [stop_front_add] at behind
    rw [scanFrom_cons, List.map_cons, List.map_cons, behind]
    rfl
termination_by text.length
decreasing_by simp only [List.length_drop, List.length_cons]; omega

/-- Each token stands first in what is left of the text when those in front of it are taken off. -/
theorem exists_rest_of_mem_scan {text : String} {token : Token} (h : token ∈ scan text) :
    ∃ before c rest, text.toList = before ++ c :: rest ∧ token = front (utf8Length before) c rest := by
  obtain ⟨first, second, split⟩ := List.append_of_mem h
  obtain ⟨before, behind, chars, _, scanned⟩ := exists_cut split
  cases behind with
  | nil => simp [scanFrom] at scanned
  | cons c rest =>
    rw [scanFrom_cons, Nat.zero_add] at scanned
    exact ⟨before, c, rest, chars, (List.cons.inj scanned).1.symm⟩

theorem partition_scan (text : String) : Partition text (scan text) where
  contiguous := by
    have whole := contiguous_scanFrom 0 text.toList
    rwa [Nat.zero_add, utf8Length_toList] at whole
  filled token member := (bounds_of_mem_scanFrom token member).2.1
  marked token member := by
    obtain ⟨before, c, rest, chars, rfl⟩ := exists_rest_of_mem_scan member
    refine Span.slice?_eq_some.mpr ⟨before, rest.drop (extent c rest).2, ?_, ?_⟩
    · rw [chars, front, String.toList_ofList, List.cons_append, List.take_append_drop]
    · rw [front, String.toList_ofList]
  foremost token member := by
    obtain ⟨before, c, rest, chars, rfl⟩ := exists_rest_of_mem_scan member
    refine ⟨before, c :: rest, cutAt?_eq_some.mpr ⟨chars, rfl⟩, ?_⟩
    rw [front, String.toList_ofList]
    exact foremost_extent c rest

theorem Kind.Foremost.exists_cons {kind : Kind} {lexeme text : List Char}
    (h : kind.Foremost lexeme text) : ∃ c rest, text = c :: rest := by
  cases h with
  | rule follows _ =>
    obtain ⟨c, more, rfl⟩ := List.exists_cons_of_ne_nil follows.ne_nil
    exact ⟨c, _, rfl⟩
  | symbol _ => exact ⟨_, _, rfl⟩

/-- A token that stands first in a text is the one that a scan finds there. -/
theorem eq_front {token : Token} {c : Char} {rest : List Char} {text : String}
    (first : token.kind.Foremost token.lexeme.toList (c :: rest))
    (marked : token.span.slice? text = some token.lexeme) :
    token = front token.span.start c rest := by
  obtain ⟨kind, lexeme⟩ := first.unique (foremost_extent c rest)
  obtain ⟨stop, _⟩ := Span.bounds_of_slice? marked
  rw [lexeme] at stop
  have spelled : token.lexeme = String.ofList (c :: rest.take (extent c rest).2) := by
    rw [← lexeme, String.ofList_toList]
  calc token = ⟨token.kind, ⟨token.span.start, token.span.stop⟩, token.lexeme⟩ := rfl
    _ = front token.span.start c rest := by rw [kind, stop, spelled, front]

/-- Tokens that divide what is left of a text are those that a scan finds there. The induction is on
the tokens, and their places tell what is in front of each. -/
theorem eq_scanFrom {text : String} {tokens : List Token} {before rest : List Char}
    (split : text.toList = before ++ rest)
    (contiguous : utf8Length before :: tokens.map (·.span.stop) =
      tokens.map (·.span.start) ++ [text.utf8ByteSize])
    (marked : ∀ token ∈ tokens, token.span.slice? text = some token.lexeme)
    (foremost : ∀ token ∈ tokens, ∃ front rest,
      cutAt? token.span.start text.toList = some (front, rest) ∧
        token.kind.Foremost token.lexeme.toList rest) :
    tokens = scanFrom (utf8Length before) [] rest := by
  induction tokens generalizing before rest with
  | nil =>
    have whole : utf8Length before = utf8Length before + utf8Length rest := by
      rw [← utf8Length_append, ← split, utf8Length_toList]
      simpa using contiguous
    obtain rfl := utf8Length_eq_zero.mp (Nat.left_eq_add.mp whole)
    simp [scanFrom]
  | cons token tokens ih =>
    rw [List.map_cons, List.map_cons, List.cons_append] at contiguous
    obtain ⟨start, behind⟩ := List.cons.inj contiguous
    obtain ⟨_, _, cut, first⟩ := foremost token List.mem_cons_self
    rw [← start, cutAt?_eq_some.mpr ⟨split, rfl⟩] at cut
    obtain ⟨rfl, rfl⟩ := Prod.mk.inj (Option.some.inj cut)
    obtain ⟨c, rest, rfl⟩ := first.exists_cons
    have here := eq_front first (marked token List.mem_cons_self)
    rw [← start] at here
    have stop : token.span.stop = utf8Length (before ++ c :: rest.take (extent c rest).2) := by
      rw [here, utf8Length_append]
      rfl
    have chars : text.toList =
        before ++ c :: rest.take (extent c rest).2 ++ rest.drop (extent c rest).2 := by
      rw [split, List.append_assoc, List.cons_append, List.take_append_drop]
    rw [stop] at behind
    have after := ih chars behind (fun token member => marked token (List.mem_cons_of_mem _ member))
      (fun token member => foremost token (List.mem_cons_of_mem _ member))
    rw [scanFrom_cons, ← here, stop, ← after]

/-- The tokens of a text divide it, each as the longest piece of its kind that can stand where it
starts, and no other tokens do. -/
theorem partition_iff (text : String) (tokens : List Token) :
    Partition text tokens ↔ tokens = scan text := by
  constructor
  · intro h
    exact @eq_scanFrom text tokens [] text.toList rfl h.contiguous h.marked h.foremost
  · rintro rfl
    exact partition_scan text

/-- A point belongs to a number only with a digit on either side of it. -/
example :
    (scan "1.2.x").map (fun token => (token.kind, token.lexeme)) =
      [(.float, "1.2"), (.symbol, "."), (.name, "x")] := by
  decide +kernel

end Token

end SymbolicCalculus
