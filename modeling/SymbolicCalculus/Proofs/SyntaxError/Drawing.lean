import SymbolicCalculus.Proofs.Expr.Reading
import SymbolicCalculus.Proofs.Syntax.Places
import SymbolicCalculus.Proofs.Token.Order
import SymbolicCalculus.SyntaxError.Report

/-!
Errors that can be drawn over their text. Places are byte ranges, but a drawing counts characters.
The two agree because all tokens but symbols are ASCII, and reading stops at the first symbol.
-/

set_option autoImplicit false

namespace SymbolicCalculus

/-! ## Characters of one byte -/

def isAscii (c : Char) : Bool := c.toNat < 128

theorem utf8Length_eq_length {text : List Char} (ascii : ∀ c ∈ text, isAscii c = true) :
    utf8Length text = text.length := by
  induction text with
  | nil => rfl
  | cons c text ih =>
    have low : c.val.toNat < 128 := of_decide_eq_true (ascii c List.mem_cons_self)
    have one : c.utf8Size = 1 := by
      rw [Char.utf8Size_eq_one_iff, UInt32.le_iff_toNat_le]
      exact Nat.le_of_lt_succ low
    rw [utf8Length_cons, one, ih fun d member => ascii d (List.mem_cons_of_mem c member),
      List.length_cons, Nat.add_comm]

section

variable {before behind : List Char} {position : Nat}

/-- Inside ASCII text there is a character at each position. -/
theorem cutAt?_of_ascii (ascii : ∀ c ∈ before, isAscii c = true)
    (inside : position ≤ utf8Length before) :
    cutAt? position (before ++ behind) =
      some (before.take position, before.drop position ++ behind) := by
  rw [utf8Length_eq_length ascii] at inside
  refine cutAt?_eq_some.mpr ⟨by rw [← List.append_assoc, List.take_append_drop], ?_⟩
  rw [utf8Length_eq_length fun c member => ascii c (List.mem_of_mem_take member),
    List.length_take_of_le inside]

theorem isAscii_of_slice? {text slice : String} {span : Span} (split : text.toList = before ++ behind)
    (ascii : ∀ c ∈ before, isAscii c = true) (inside : span.stop ≤ utf8Length before)
    (marks : span.slice? text = some slice) : ∀ c ∈ slice.toList, isAscii c = true := by
  obtain ⟨front, back, chars, rfl⟩ := Span.slice?_eq_some.mp marks
  have cut : cutAt? (utf8Length front + utf8Length slice.toList) text.toList =
      some (front ++ slice.toList, back) :=
    cutAt?_eq_some.mpr ⟨by rw [chars, List.append_assoc], utf8Length_append ..⟩
  rw [split, cutAt?_of_ascii ascii inside] at cut
  obtain ⟨same, _⟩ := Prod.mk.inj (Option.some.inj cut)
  intro c member
  have taken : c ∈ before.take (utf8Length front + utf8Length slice.toList) := by
    rw [same]
    exact List.mem_append_right front member
  exact ascii c (List.mem_of_mem_take taken)

end

/-! ## Tokens -/

namespace Token

theorem isAscii_of_isAlpha {c : Char} (h : c.isAlpha = true) : isAscii c = true := by
  change (decide ('A'.val ≤ c.val ∧ c.val ≤ 'Z'.val) ||
    decide ('a'.val ≤ c.val) && decide (c.val ≤ 'z'.val)) = true at h
  have z : 'z'.val.toNat = 122 := rfl
  have Z : 'Z'.val.toNat = 90 := rfl
  simp only [Bool.or_eq_true, Bool.and_eq_true, decide_eq_true_eq, UInt32.le_iff_toNat_le] at h
  simp only [isAscii, Char.toNat, decide_eq_true_eq]
  omega

theorem isAscii_of_isDigit {c : Char} (h : c.isDigit = true) : isAscii c = true := by
  change (decide ('0'.val ≤ c.val) && decide (c.val ≤ '9'.val)) = true at h
  have nine : '9'.val.toNat = 57 := rfl
  simp only [Bool.and_eq_true, decide_eq_true_eq, UInt32.le_iff_toNat_le] at h
  simp only [isAscii, Char.toNat, decide_eq_true_eq]
  omega

theorem isAscii_of_isWhitespace {c : Char} (h : c.isWhitespace = true) : isAscii c = true := by
  simp only [Char.isWhitespace, Bool.or_eq_true, decide_eq_true_eq] at h
  rcases h with ((rfl | rfl) | rfl) | rfl <;> rfl

theorem Kind.Matches.isAscii {kind : Kind} {text : List Char} (h : kind.Matches text) :
    ∀ c ∈ text, isAscii c = true := by
  cases h with
  | whitespace all => exact fun c member => isAscii_of_isWhitespace (all c member)
  | name all => exact fun c member => isAscii_of_isAlpha (all c member)
  | int all => exact fun c member => isAscii_of_isDigit (all c member)
  | float left right =>
    intro c member
    rcases List.mem_append.mp member with whole | member
    · exact isAscii_of_isDigit (left c whole)
    · rcases List.mem_cons.mp member with rfl | fraction
      · rfl
      · exact isAscii_of_isDigit (right c fraction)
  | add | mul | openParen | closeParen =>
    intro c member
    obtain rfl := List.mem_singleton.mp member
    rfl

/-- A text without symbols is ASCII. -/
theorem isAscii_of_scan {text : String} (known : ∀ token ∈ scan text, token.kind ≠ .symbol) :
    ∀ c ∈ text.toList, isAscii c = true := by
  intro c member
  rw [← flatMap_lexeme_scanFrom 0 text.toList] at member
  obtain ⟨token, scanned, member⟩ := List.mem_flatMap.mp member
  exact (matches_of_mem_scan scanned (known token scanned)).isAscii c member

end Token

theorem walks_known {before tokens : List Token} (h : Walks before tokens) :
    ∀ token ∈ tokens, token.kind ≠ .symbol := by
  induction tokens generalizing before with
  | nil => simp
  | cons next rest ih =>
    refine List.forall_mem_cons.mpr ⟨fun symbol => ?_, ih h.2⟩
    exact not_admits_symbol symbol h.1

theorem ne_symbol_of_visible {tokens : List Token}
    (known : ∀ token ∈ Token.visible tokens, token.kind ≠ .symbol) :
    ∀ token ∈ tokens, token.kind ≠ .symbol := by
  intro token member symbol
  refine known token (List.mem_filter.mpr ⟨member, ?_⟩) symbol
  simp [Token.isWhitespace, symbol, Token.Kind.isWhitespace]

/-- Up to the first token that a scan cannot go on with, a text is ASCII. -/
theorem exists_ascii_front {text : String} {front rest : List Token} {next : Token}
    (split : Token.ofText text = front ++ next :: rest) (walks : Walks [] front) :
    ∃ before c more, text.toList = before ++ c :: more ∧ (∀ d ∈ before, isAscii d = true) ∧
      next = Token.front (utf8Length before) c more := by
  obtain ⟨first, second, scanned, inside, behind⟩ := List.filter_eq_append_iff.mp split
  obtain ⟨blanks, others, rfl, blank, _⟩ := Token.visible_eq_cons behind
  have visible : Token.visible (first ++ blanks) = front := by
    rw [Token.visible_append, blank, List.append_nil]
    exact inside
  rw [← List.append_assoc] at scanned
  obtain ⟨before, left, chars, lead, tail⟩ := Token.exists_cut scanned
  cases left with
  | nil => simp [Token.scanFrom] at tail
  | cons c more =>
    rw [Token.scanFrom_cons, Nat.zero_add] at tail
    refine ⟨before, c, more, chars, ?_, (List.cons.inj tail).1.symm⟩
    have tokens : Token.scan (String.ofList before) = first ++ blanks := by
      rw [Token.scan, String.toList_ofList, lead]
    have ascii := @Token.isAscii_of_scan (String.ofList before)
    rw [tokens, String.toList_ofList] at ascii
    exact ascii (ne_symbol_of_visible (visible ▸ walks_known walks))

/-! ## Places -/

/-- What covers tokens stops where the tokens behind it start, or before. -/
theorem Covers.stop_le {text : String} {front rest : List Token} {next : Token} {span : Span}
    (h : Covers front span) (split : Token.ofText text = front ++ next :: rest) :
    span.stop ≤ next.span.start := by
  obtain ⟨before, part, behind, rfl, filled, rfl⟩ := h
  obtain ⟨lead, last, rfl⟩ := (List.eq_nil_or_concat part).resolve_left filled
  rw [List.concat_eq_append] at split ⊢
  have stop : (cover (lead ++ [last])).stop = last.span.stop := by
    cases lead <;> simp [cover, Span.through, List.getLast?_cons]
  have ordered := Token.pairwise_ofText text
  rw [split] at ordered
  rw [stop]
  exact (List.pairwise_append.mp ordered).2.2 last (by simp) next List.mem_cons_self

theorem Covers.start_lt {text : String} {span : Span} (h : Covers (Token.ofText text) span) :
    span.start < span.stop := by
  obtain ⟨before, part, behind, split, filled, rfl⟩ := h
  obtain ⟨slice, marks, occupied, _⟩ := Token.exists_slice split filled
  have length : utf8Length slice.toList ≠ 0 := by
    rw [Ne, utf8Length_eq_zero]
    simpa using occupied
  have := (Span.bounds_of_slice? marks).1
  omega

/-- A symbol is never expected. -/
theorem diagnose_of_symbol (finish : Span) (front : List Token) {next : Token}
    (symbol : next.kind = .symbol) :
    ∃ expected, diagnose finish front (some next) = .unexpected expected next := by
  cases due : expectsOperand front with
  | true =>
    rw [diagnose_other due (by simp [symbol, Token.Kind.startsPrimary]) (by simp [symbol]),
      if_neg (by simp [symbol])]
    exact ⟨_, rfl⟩
  | false =>
    rw [diagnose_symbol due symbol]
    exact ⟨_, rfl⟩

/-- What an error is refused with covers no more than the token does that it is refused at. -/
theorem RefusedAt.stop_le {text : String} {front rest : List Token} {next : Token}
    {error : SyntaxError} (h : RefusedAt front next error)
    (split : Token.ofText text = front ++ next :: rest) :
    ∀ span ∈ error.spans, span.stop ≤ next.span.stop := by
  have filled := Token.bounds_of_mem_scanFrom next
    (List.mem_of_mem_filter (split ▸ List.mem_append_right front List.mem_cons_self))
  cases h with
  | missing ended =>
    have := (covers_inner ended).stop_le split
    simp only [List.mem_cons, List.not_mem_nil, or_false]
    rintro span (rfl | rfl) <;> omega
  | emptyPair | overflow | stray | unexpected => simp [SyntaxError.unexpected, Span.through]

/-- How far a text is ASCII: over all places of an error, or up to a symbol that is its only one. -/
inductive SyntaxError.Reach (text : String) : SyntaxError → Prop where
  | inside {before behind : List Char} {error : SyntaxError} (split : text.toList = before ++ behind)
      (ascii : ∀ c ∈ before, isAscii c = true)
      (inside : ∀ span ∈ error.spans, span.stop ≤ utf8Length before) : Reach text error
  | upTo {before more : List Char} {c : Char} {expected : List Token.Kind}
      (split : text.toList = before ++ c :: more) (ascii : ∀ d ∈ before, isAscii d = true) :
      Reach text ⟨[⟨utf8Length before, utf8Length before + c.utf8Size⟩],
        .unexpectedToken expected .symbol⟩

namespace SyntaxError.Reach

variable {text slice : String} {error : SyntaxError} {span : Span}

/-- Text in front of a place is ASCII. -/
theorem plain (h : error.Reach text) (member : span ∈ error.spans)
    (marks : span.slice? text = some slice) :
    ∃ front back, cutAt? span.start text.toList = some (front, back) ∧
      (∀ c ∈ front, isAscii c = true) ∧ front.length = span.start := by
  have forward := (Span.bounds_of_slice? marks).1
  -- In both cases the place starts in the part of the text that is known to be ASCII.
  have within {before behind : List Char} (split : text.toList = before ++ behind)
      (ascii : ∀ c ∈ before, isAscii c = true) (inside : span.start ≤ utf8Length before) :
      ∃ front back, cutAt? span.start text.toList = some (front, back) ∧
        (∀ c ∈ front, isAscii c = true) ∧ front.length = span.start := by
    refine ⟨_, _, by rw [split, cutAt?_of_ascii ascii inside], ?_, ?_⟩
    · exact fun c member => ascii c (List.mem_of_mem_take member)
    · rw [utf8Length_eq_length ascii] at inside
      exact List.length_take_of_le inside
  cases h with
  | inside split ascii inside =>
    have := inside span member
    exact within split ascii (by omega)
  | upTo split ascii =>
    obtain rfl := List.mem_singleton.mp member
    exact within split ascii (Nat.le_refl _)

/-- What is not ASCII at a place is the symbol there. -/
theorem foreign (h : error.Reach text) (member : span ∈ error.spans)
    (marks : span.slice? text = some slice) {c : Char} (inside : c ∈ slice.toList)
    (wide : isAscii c = false) :
    slice = c.toString ∧ ∃ expected, error.fault = .unexpectedToken expected .symbol := by
  cases h with
  | inside split ascii within =>
    have narrow := isAscii_of_slice? split ascii (within span member) marks c inside
    rw [wide] at narrow
    cases narrow
  | @upTo before more symbol expected split ascii =>
    obtain rfl := List.mem_singleton.mp member
    have alone : (⟨utf8Length before, utf8Length before + symbol.utf8Size⟩ : Span).slice? text =
        some symbol.toString :=
      Span.slice?_eq_some.mpr ⟨before, more, by simpa using split, by simp⟩
    obtain rfl := Option.some.inj (alone.symm.trans marks)
    have same : c = symbol := by simpa using inside
    exact ⟨same ▸ rfl, expected, rfl⟩

end SyntaxError.Reach

theorem Tree.reach_of_parse_error {text : String} {error : SyntaxError}
    (h : parse text = .error error) : error.Reach text := by
  have marked := (places_of_parse_error h).2
  obtain ⟨front, rest, split, walks, blocks, rfl⟩ := exists_diagnosis h
  cases rest with
  | nil =>
    rw [List.append_nil] at split
    have ascii := Token.isAscii_of_scan (ne_symbol_of_visible (split ▸ walks_known walks))
    refine .inside (List.append_nil text.toList).symm ascii fun span member => ?_
    obtain ⟨slice, marks⟩ := marked span member
    exact (Span.bounds_of_slice? marks).2
  | cons next rest =>
    obtain ⟨before, c, more, chars, ascii, same⟩ := exists_ascii_front split walks
    by_cases symbol : next.kind = .symbol
    · obtain ⟨expected, found⟩ := diagnose_of_symbol (.point text.utf8ByteSize) front symbol
      have alone : next.span = ⟨utf8Length before, utf8Length before + c.utf8Size⟩ := by
        rw [same] at symbol
        rw [same, Token.front, Token.extent_of_symbol symbol]
        rfl
      rw [List.head?_cons, found, SyntaxError.unexpected, alone, symbol]
      exact .upTo chars ascii
    · have known : (Token.extent c more).1 ≠ .symbol := by
        rw [same] at symbol
        exact symbol
      have whole : text.toList = before ++ c :: more.take (Token.extent c more).2 ++
          more.drop (Token.extent c more).2 := by
        rw [chars, List.append_assoc, List.cons_append, List.take_append_drop]
      refine .inside whole ?_ fun span member => ?_
      · exact List.forall_mem_append.mpr ⟨ascii, (Token.matches_extent known).isAscii⟩
      · have stop := (refusedAt_diagnose _ front next).stop_le split span member
        rw [same] at stop
        simpa [Token.front] using stop

/-- Places of an error are told apart by where they start, and no place is inside another. -/
theorem Tree.pairwise_of_parse_error {text : String} {error : SyntaxError}
    (h : parse text = .error error) :
    error.spans.Pairwise fun first second =>
      first.start < second.start ∧ first.stop ≤ second.start := by
  obtain ⟨front, rest, split, _, blocks, rfl⟩ := exists_diagnosis h
  cases rest with
  | nil =>
    rcases diagnose_end (.point text.utf8ByteSize) blocks with same | ⟨_, _, same⟩ <;>
      simp [same]
  | cons next rest =>
    have refused := refusedAt_diagnose (.point text.utf8ByteSize) front next
    rw [List.head?_cons]
    generalize diagnose _ front (some next) = error at *
    cases refused with
    | missing ended =>
      have covers := covers_inner ended
      have stop := covers.stop_le split
      have start := (split ▸ covers.append (next :: rest) : Covers (Token.ofText text) _).start_lt
      exact List.pairwise_pair.mpr ⟨Nat.lt_of_lt_of_le start stop, stop⟩
    | emptyPair | overflow | stray | unexpected => exact List.pairwise_singleton ..

theorem Tree.counted_of_parse_error {text : String} {error : SyntaxError}
    (h : parse text = .error error) : error.spans.length = error.fault.labels.length := by
  obtain ⟨front, rest, _, _, blocks, rfl⟩ := exists_diagnosis h
  cases rest with
  | nil =>
    rcases diagnose_end (.point text.utf8ByteSize) blocks with same | ⟨_, _, same⟩ <;>
      simp [same, Fault.labels]
  | cons next rest =>
    have refused := refusedAt_diagnose (.point text.utf8ByteSize) front next
    rw [List.head?_cons]
    generalize diagnose _ front (some next) = error at *
    cases refused <;> rfl

/-! ## Reports -/

/-- What a report over a text needs of an error, for the drawing to show what is wrong where. -/
structure SyntaxError.Drawable (text : String) (error : SyntaxError) : Prop where
  counted : error.spans.length = error.fault.labels.length
  /-- Each label is drawn at a place, and each place with a label. -/
  labelled : error.report.labels.map Prod.fst = error.fault.labels ∧
    error.report.labels.map Prod.snd = error.spans
  /-- Places are in the text and cut no character. Only the end of the text is empty. -/
  marked : ∀ span ∈ error.spans, ∃ slice, span.slice? text = some slice ∧
    (slice = "" ↔ error.fault = .unexpectedEnd)
  ordered : error.spans.Pairwise fun first second =>
    first.start < second.start ∧ first.stop ≤ second.start
  /-- In front of each place the text is ASCII, so the place starts in the column of its offset. -/
  plain : ∀ span ∈ error.spans, ∃ front back, cutAt? span.start text.toList = some (front, back) ∧
    (∀ c ∈ front, isAscii c = true) ∧ front.length = span.start
  /-- Other characters are only marked alone, as symbols that are not expected. -/
  foreign : ∀ span ∈ error.spans, ∀ slice, span.slice? text = some slice →
    ∀ c ∈ slice.toList, isAscii c = false →
      slice = c.toString ∧ ∃ expected, error.fault = .unexpectedToken expected .symbol

namespace Expr

/-- Each error that a text is refused with can be drawn over it. -/
theorem drawable_of_parse_error {text : String} {error : SyntaxError}
    (h : parse text = .error error) : error.Drawable text := by
  have refused := parse_eq_error.mp h
  have counted := Tree.counted_of_parse_error refused
  refine ⟨counted, ?_, ?_, Tree.pairwise_of_parse_error refused, ?_, ?_⟩
  · exact ⟨List.map_fst_zip (Nat.le_of_eq counted.symm), List.map_snd_zip (Nat.le_of_eq counted)⟩
  · rcases Tree.covers_of_parse_error refused with ⟨fault, ended⟩ | ⟨fault, covers⟩
    · simpa [ended, fault] using Span.slice?_point text
    · intro span member
      obtain ⟨before, part, behind, split, filled, rfl⟩ := covers span member
      obtain ⟨slice, marks, occupied, _⟩ := Token.exists_slice split filled
      exact ⟨slice, marks, by simp [occupied, fault]⟩
  · intro span member
    obtain ⟨slice, marks⟩ := (Tree.places_of_parse_error refused).2 span member
    exact (Tree.reach_of_parse_error refused).plain member marks
  · intro span member slice marks c inside wide
    exact (Tree.reach_of_parse_error refused).foreign member marks inside wide

theorem drawable_of_parse_error_symbol :
    let text := "2 * (x +\té)"
    let error : SyntaxError :=
      ⟨[⟨9, 11⟩], .unexpectedToken [.int, .float, .name, .openParen] .symbol⟩
    parse text = .error error ∧ error.Drawable text := by
  intro text error
  have refused : parse text = .error error := by decide +kernel
  exact ⟨refused, drawable_of_parse_error refused⟩

end Expr

end SymbolicCalculus
