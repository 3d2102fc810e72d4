/-! White space around a line, and the lines of a text. -/

set_option autoImplicit false

namespace SymbolicCalculus

/-- The characters with the Unicode property White_Space. -/
def isWhiteSpace (c : Char) : Bool :=
  let n := c.toNat
  (0x09 ≤ n && n ≤ 0x0d) || n == 0x20 || n == 0x85 || n == 0xa0 || n == 0x1680
    || (0x2000 ≤ n && n ≤ 0x200a) || n == 0x2028 || n == 0x2029 || n == 0x202f
    || n == 0x205f || n == 0x3000

theorem isWhiteSpace_of_isWhitespace {c : Char} (h : c.isWhitespace = true) :
    isWhiteSpace c = true := by
  simp only [Char.isWhitespace, Bool.or_eq_true, decide_eq_true_eq] at h
  rcases h with ((rfl | rfl) | rfl) | rfl <;> rfl

/-- Drops white space from both ends. -/
def trimChars (text : List Char) : List Char :=
  (((text.dropWhile isWhiteSpace).reverse).dropWhile isWhiteSpace).reverse

def isBlankLine (text : String) : Bool := text.toList.all isWhiteSpace

/-- Removes one carriage return from the end of a line, given back to front. -/
def chomp : List Char → List Char
  | '\r' :: line => line
  | line => line

/-- The lines of a text, each without its line feed and the carriage return before it. What follows
the last line feed is a line only if it is not empty. -/
def splitLines (line : List Char) (lines : List String) : List Char → List String
  | [] => (if line.isEmpty then lines else String.ofList line.reverse :: lines).reverse
  | '\n' :: rest => splitLines [] (String.ofList (chomp line).reverse :: lines) rest
  | c :: rest => splitLines (c :: line) lines rest

def linesOf (text : String) : List String := splitLines [] [] text.toList

end SymbolicCalculus
