import SymbolicCalculus.Derive.Piece

/-!
Readers of expressions. Tags can be read with any reader; what is asked of it is only that an
expression ends at a comma behind it.
-/

set_option autoImplicit false

namespace SymbolicCalculus

namespace Derive

/-- What is read at the start of pieces: the words of an expression, whether it was read down into
all groups, and the pieces behind it. -/
abbrev ExpressionReader : Type :=
  (pieces : List Piece) →
    Option (List String × Bool × { rest : List Piece // rest.length < pieces.length })

/-- The shortest front of pieces, up to a comma or the end, that is an expression as a whole. It
starts with the pieces in `passed`, which are given back to front. -/
def shortestFront? (whole? : List Piece → Option (List String × Bool)) (passed : List Piece) :
    List Piece → Option (List String × Bool × List Piece)
  | [] => (whole? passed.reverse).map fun (words, complete) => (words, complete, [])
  | .mark ',' joint :: pieces =>
    match whole? passed.reverse with
    | some (words, complete) => some (words, complete, .mark ',' joint :: pieces)
    | none => shortestFront? whole? (.mark ',' joint :: passed) pieces
  | piece :: pieces => shortestFront? whole? (piece :: passed) pieces

theorem shortestFront?_cons {whole? : List Piece → Option (List String × Bool)} {piece : Piece}
    (apart : ∀ joint, piece ≠ .mark ',' joint) (passed pieces : List Piece) :
    shortestFront? whole? passed (piece :: pieces) =
      shortestFront? whole? (piece :: passed) pieces := by
  rw [shortestFront?]
  exact apart

namespace ExpressionReader

def Reads (reader : ExpressionReader) (pieces : List Piece) (words : List String)
    (complete : Bool) (rest : List Piece) : Prop :=
  ∃ inside, reader pieces = some (words, complete, ⟨rest, inside⟩)

/-- Up to a comma just those pieces are read that are an expression as a whole. -/
def StopsAtComma (reader : ExpressionReader) : Prop :=
  ∀ pieces words complete joint behind,
    reader.Reads pieces words complete (.mark ',' joint :: behind) ↔
      ∃ expression, pieces = expression ++ .mark ',' joint :: behind ∧
        reader.Reads expression words complete []

/-- The reader for what `whole?` takes to be expressions. -/
def ofWhole (whole? : List Piece → Option (List String × Bool)) : ExpressionReader :=
  fun pieces =>
    match shortestFront? whole? [] pieces with
    | some (words, complete, rest) =>
      if inside : rest.length < pieces.length then some (words, complete, ⟨rest, inside⟩) else none
    | none => none

end ExpressionReader

end Derive

end SymbolicCalculus
