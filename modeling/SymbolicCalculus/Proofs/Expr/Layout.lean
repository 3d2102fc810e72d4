import Mathlib.Data.List.Forall2
import SymbolicCalculus.Proofs.Expr.Relocation
import SymbolicCalculus.Proofs.Syntax.Places
import SymbolicCalculus.Proofs.Token.Order

/-!
Texts with the same tokens and other white space. They are read alike: as the same expression, or
with the same fault at the same tokens.
-/

set_option autoImplicit false

namespace SymbolicCalculus

/-- Both errors are at the ends of their texts, or else they mark the same tokens. -/
def SamePlaces (text text' : String) (error error' : SyntaxError) : Prop :=
  if error.fault = .unexpectedEnd then
    error.spans = [.point text.utf8ByteSize] ∧ error'.spans = [.point text'.utf8ByteSize]
  else
    List.Forall₂
      (fun span span' => ∃ i j, i ≤ j ∧ Marks (Token.ofText text) i j span ∧
        Marks (Token.ofText text') i j span')
      error.spans error'.spans

theorem samePlaces_diagnose {text text' : String} {r : Relocation} {front : List Token}
    {next : Option Token} (same : Token.ofText text' = (Token.ofText text).map (Token.relocate r))
    (leads : front ++ next.toList <+: Token.ofText text) :
    SamePlaces text text' (diagnose (.point text.utf8ByteSize) front next)
      (diagnose (.point text'.utf8ByteSize) (front.map (Token.relocate r))
        (next.map (Token.relocate r))) := by
  unfold SamePlaces
  split
  · rename_i ended
    obtain ⟨rfl, due⟩ := fault_diagnose_eq_unexpectedEnd.mp ended
    rw [diagnose_end_due due, Option.map_none, diagnose_end_due (by simpa using due)]
    exact ⟨rfl, rfl⟩
  · rename_i other
    have within : next = none → expectsOperand front = false := by
      rintro rfl
      rw [fault_diagnose_eq_unexpectedEnd] at other
      simpa using other
    have moved := (diagnose_finish (.point text'.utf8ByteSize)
      (Span.relocate r (.point text.utf8ByteSize)) (by simpa using within)).trans
        (diagnose_relocate r _ front next)
    obtain ⟨rest, split⟩ := leads
    rw [moved, SyntaxError.relocate, List.forall₂_map_right_iff, List.forall₂_same]
    intro span member
    have covers := (covers_of_mem_diagnose within member).append rest
    rw [split] at covers
    obtain ⟨i, j, order, marks⟩ := covers.exists_marks
    exact ⟨i, j, order, marks, by rw [same]; exact marks.relocate r⟩

namespace Expr

/-- White space does no more than separate tokens. Two texts whose tokens are of the same kinds and
read the same give the same expression, or the same fault at the same tokens. -/
theorem parse_layout (text text' : String)
    (same : (Token.ofText text).map Token.content = (Token.ofText text').map Token.content) :
    match parse text, parse text' with
    | .ok e, .ok e' => e = e'
    | .error error, .error error' =>
      error.fault = error'.fault ∧ SamePlaces text text' error error'
    | _, _ => False := by
  obtain ⟨r, same⟩ := Token.exists_relocation same
  cases read : parse text with
  | ok e =>
    obtain ⟨tree, read, spells⟩ := parse_eq_ok.mp read
    have read' := parse_eq_ok.mpr ⟨_, Tree.parse_relocate same read, spells.relocate r⟩
    rw [read']
  | error error =>
    obtain ⟨front, next, leads, rfl, refused⟩ :=
      Tree.parse_error_relocate same (parse_eq_error.mp read)
    rw [parse_eq_error.mpr refused]
    exact ⟨(fault_diagnose_relocate ..).symm, samePlaces_diagnose same leads⟩

theorem parse_layout_sum :
    let text := "(a+b 2)"
    let text' := "( a +\tb\n2)"
    let error : SyntaxError := ⟨[⟨1, 4⟩, ⟨5, 6⟩], .missingOperator⟩
    let error' : SyntaxError := ⟨[⟨2, 7⟩, ⟨8, 9⟩], .missingOperator⟩
    (Token.ofText text).map Token.content = (Token.ofText text').map Token.content ∧
      parse text = .error error ∧ parse text' = .error error' ∧
        SamePlaces text text' error error' := by
  intro text text' error error'
  have same : (Token.ofText text).map Token.content = (Token.ofText text').map Token.content := by
    decide +kernel
  have refused : parse text = .error error := by decide +kernel
  have refused' : parse text' = .error error' := by decide +kernel
  have places := parse_layout text text' same
  rw [refused, refused'] at places
  exact ⟨same, refused, refused', places.2⟩

end Expr

end SymbolicCalculus
