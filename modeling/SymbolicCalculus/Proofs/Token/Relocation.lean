import SymbolicCalculus.Proofs.Syntax.Grammar
import SymbolicCalculus.Proofs.Token.Lexeme

/-!
Tokens and trees at other places. Nothing but a span is changed, so kinds and texts stay, and so
does what is read from them.
-/

set_option autoImplicit false

namespace SymbolicCalculus

/-- New positions for the starts and for the stops of spans. -/
structure Relocation where
  start : Nat → Nat
  stop : Nat → Nat

namespace Relocation

def forward (distance : Nat) : Relocation := ⟨(· + distance), (· + distance)⟩

def back (distance : Nat) : Relocation := ⟨(· - distance), (· - distance)⟩

/-- Everything is moved to the start. -/
def origin : Relocation := ⟨fun _ => 0, fun _ => 0⟩

end Relocation

def Span.relocate (r : Relocation) (span : Span) : Span := ⟨r.start span.start, r.stop span.stop⟩

@[simp] theorem Span.relocate_through (r : Relocation) (first last : Span) :
    (first.through last).relocate r = (first.relocate r).through (last.relocate r) := rfl

@[simp] theorem Span.relocate_forward_back (distance : Nat) (span : Span) :
    (span.relocate (.forward distance)).relocate (.back distance) = span := by
  simp [relocate, Relocation.forward, Relocation.back]

namespace Token

def relocate (r : Relocation) (token : Token) : Token :=
  { token with span := token.span.relocate r }

variable (r : Relocation)

@[simp] theorem kind_relocate (token : Token) : (token.relocate r).kind = token.kind := rfl

@[simp] theorem lexeme_relocate (token : Token) : (token.relocate r).lexeme = token.lexeme := rfl

@[simp] theorem span_relocate (token : Token) :
    (token.relocate r).span = token.span.relocate r := rfl

@[simp] theorem value_relocate (token : Token) : (token.relocate r).value = token.value := rfl

@[simp] theorem isWhitespace_relocate (token : Token) :
    (token.relocate r).isWhitespace = token.isWhitespace := rfl

theorem Fits.relocate {token : Token} (h : token.Fits) : (token.relocate r).Fits := h

@[simp] theorem map_relocate_forward_back (distance : Nat) (tokens : List Token) :
    (tokens.map (relocate (.forward distance))).map (relocate (.back distance)) = tokens := by
  have undone : relocate (.back distance) ∘ relocate (.forward distance) = id := by
    funext token
    simp [relocate]
  rw [List.map_map, undone, List.map_id]

@[simp] theorem visible_map_relocate (tokens : List Token) :
    visible (tokens.map (relocate r)) = (visible tokens).map (relocate r) := by
  unfold visible
  rw [List.filter_map]
  rfl

/-- Where a text starts does not matter to what it is cut into. -/
theorem scanFrom_add (position distance : Nat) (text : List Char) :
    scanFrom (position + distance) [] text =
      (scanFrom position [] text).map (relocate (.forward distance)) := by
  match text with
  | [] => simp [scanFrom]
  | c :: rest =>
    have stop : (front (position + distance) c rest).span.stop =
        (front position c rest).span.stop + distance := Nat.add_right_comm ..
    have token : front (position + distance) c rest =
        (front position c rest).relocate (.forward distance) := by
      simp [front, Token.relocate, Span.relocate, Relocation.forward, Nat.add_right_comm]
    rw [scanFrom_cons, scanFrom_cons, List.map_cons, stop, token,
      scanFrom_add _ distance (rest.drop (extent c rest).2)]
termination_by text.length
decreasing_by simp only [List.length_drop, List.length_cons]; omega

end Token

end SymbolicCalculus
