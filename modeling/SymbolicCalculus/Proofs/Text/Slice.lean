import SymbolicCalculus.Text.Span

/-! The part of a text that a byte range marks, if the range lies in the text and cuts no
character. -/

set_option autoImplicit false

namespace SymbolicCalculus

theorem utf8Length_eq_zero {text : List Char} : utf8Length text = 0 ↔ text = [] := by
  cases text with
  | nil => simp
  | cons c text =>
    have := c.utf8Size_pos
    simp only [utf8Length_cons, reduceCtorEq, iff_false]
    omega

/-- The parts in front of and behind a byte position. -/
def cutAt? : Nat → List Char → Option (List Char × List Char)
  | 0, text => some ([], text)
  | _ + 1, [] => none
  | position + 1, c :: text =>
    if c.utf8Size ≤ position + 1 then
      (cutAt? (position + 1 - c.utf8Size) text).map fun (front, back) => (c :: front, back)
    else none

theorem cutAt?_eq_some {position : Nat} {text front back : List Char} :
    cutAt? position text = some (front, back) ↔
      text = front ++ back ∧ utf8Length front = position := by
  fun_induction cutAt? position text generalizing front with
  | case1 text =>
    constructor
    · rintro ⟨⟩
      exact ⟨rfl, rfl⟩
    · rintro ⟨rfl, empty⟩
      cases front with
      | nil => rfl
      | cons c front =>
        have := c.utf8Size_pos
        simp only [utf8Length_cons] at empty
        omega
  | case2 position =>
    constructor
    · rintro ⟨⟩
    · rintro ⟨split, length⟩
      obtain ⟨rfl, rfl⟩ := List.append_eq_nil_iff.mp split.symm
      cases length
  | case3 position c text fits ih =>
    rw [Option.map_eq_some_iff]
    constructor
    · rintro ⟨⟨front', back'⟩, cut, same⟩
      obtain ⟨rfl, rfl⟩ := Prod.mk.inj same
      obtain ⟨rfl, length⟩ := ih.mp cut
      refine ⟨rfl, ?_⟩
      rw [utf8Length_cons]
      omega
    · rintro ⟨split, length⟩
      cases front with
      | nil => cases length
      | cons d front =>
        obtain ⟨rfl, rfl⟩ := List.cons.inj split
        rw [utf8Length_cons] at length
        exact ⟨(front, back), ih.mpr ⟨rfl, by omega⟩, rfl⟩
  | case4 position c text cuts =>
    constructor
    · rintro ⟨⟩
    · rintro ⟨split, length⟩
      cases front with
      | nil => cases length
      | cons d front =>
        obtain ⟨rfl, rfl⟩ := List.cons.inj split
        rw [utf8Length_cons] at length
        omega

/-- The part of a text that a range marks. There is none if the range ends before it starts or
beyond the text, or if one of its ends is inside a character. -/
def Span.slice? (span : Span) (text : String) : Option String :=
  if span.start ≤ span.stop then
    (cutAt? span.start text.toList).bind fun (_, rest) =>
      (cutAt? (span.stop - span.start) rest).map fun (slice, _) => String.ofList slice
  else none

theorem Span.slice?_eq_some {span : Span} {text slice : String} :
    span.slice? text = some slice ↔
      ∃ front back, text.toList = front ++ (slice.toList ++ back) ∧
        span = ⟨utf8Length front, utf8Length front + utf8Length slice.toList⟩ := by
  obtain ⟨start, stop⟩ := span
  unfold slice?
  constructor
  · intro h
    split at h
    · rename_i ordered
      obtain ⟨⟨front, rest⟩, cut, h⟩ := Option.bind_eq_some_iff.mp h
      obtain ⟨⟨chars, back⟩, cut', rfl⟩ := Option.map_eq_some_iff.mp h
      obtain ⟨split, first⟩ := cutAt?_eq_some.mp cut
      obtain ⟨rfl, second⟩ := cutAt?_eq_some.mp cut'
      simp only at ordered first second
      refine ⟨front, back, by rw [split, String.toList_ofList], ?_⟩
      rw [String.toList_ofList, Span.mk.injEq]
      omega
    · cases h
  · rintro ⟨front, back, split, same⟩
    obtain ⟨rfl, rfl⟩ := Span.mk.inj same
    rw [if_pos (Nat.le_add_right _ _), split]
    simp only [Nat.add_sub_cancel_left, cutAt?_eq_some.mpr ⟨rfl, rfl⟩, Option.bind_some,
      Option.map_some, String.ofList_toList]

/-- A marked part is as long as the range says, and inside the text. -/
theorem Span.bounds_of_slice? {span : Span} {text slice : String}
    (h : span.slice? text = some slice) :
    span.stop = span.start + utf8Length slice.toList ∧ span.stop ≤ utf8Length text.toList := by
  obtain ⟨front, back, chars, rfl⟩ := slice?_eq_some.mp h
  rw [chars, utf8Length_append, utf8Length_append, ← Nat.add_assoc]
  exact ⟨rfl, Nat.le_add_right _ _⟩

end SymbolicCalculus
