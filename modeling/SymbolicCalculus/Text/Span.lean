/-! Byte ranges of a text. Positions count UTF-8 bytes from the start. -/

set_option autoImplicit false

namespace SymbolicCalculus

/-- The bytes from `start` up to but not including `stop`. -/
structure Span where
  start : Nat
  stop : Nat
  deriving DecidableEq, Repr

namespace Span

def point (position : Nat) : Span := ⟨position, position⟩

/-- From the start of the first range to the end of the second. -/
def through (first last : Span) : Span := ⟨first.start, last.stop⟩

end Span

def utf8Length : List Char → Nat
  | [] => 0
  | c :: text => c.utf8Size + utf8Length text

@[simp] theorem utf8Length_nil : utf8Length [] = 0 := rfl

@[simp] theorem utf8Length_cons (c : Char) (text : List Char) :
    utf8Length (c :: text) = c.utf8Size + utf8Length text := rfl

@[simp] theorem utf8Length_append (first second : List Char) :
    utf8Length (first ++ second) = utf8Length first + utf8Length second := by
  induction first with
  | nil => simp
  | cons c first ih => simp [ih, Nat.add_assoc]

end SymbolicCalculus
