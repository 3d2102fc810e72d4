import SymbolicCalculus.Text.Identifier

/-!
Literals of Rust program text. Each function takes the text from a certain point on and gives what
follows the literal, or nothing if there is no well-formed literal.
-/

set_option autoImplicit false

namespace SymbolicCalculus

namespace Derive

def tick : Char := '\x27'

def isHexDigit (c : Char) : Bool :=
  c.isDigit || ('a' ≤ c && c ≤ 'f') || ('A' ≤ c && c ≤ 'F')

def hexValue (digits : List Char) : Nat :=
  digits.foldl (fun n c =>
    16 * n + (if c.isDigit then c.toNat - 48 else c.toLower.toNat - 87)) 0

def skipIdentifier : List Char → List Char
  | c :: rest => if isIdentifierStart c then rest.dropWhile isIdentifierPart else c :: rest
  | [] => []

/-- What a quoted literal is made of. -/
inductive Quoted where
  | text
  | bytes
  /-- Bytes of which none is zero. -/
  | cText
  deriving DecidableEq, Repr

/-- Behind the two hexadecimal digits of a byte. In text it is below 128. -/
def skipHexByte (quoted : Quoted) : List Char → Option (List Char)
  | a :: b :: rest =>
    if isHexDigit a && isHexDigit b
      && (quoted != .text || hexValue [a, b] < 128)
      && (quoted != .cText || hexValue [a, b] != 0) then some rest
    else none
  | _ => none

/-- Behind the braces around the number of a character: one to six hexadecimal digits, with low
lines between them. -/
def skipUnicodeEscape (quoted : Quoted) : List Char → Option (List Char)
  | '\x7b' :: rest =>
    let body := rest.takeWhile fun c => isHexDigit c || c == '_'
    let digits := body.filter isHexDigit
    match rest.drop body.length with
    | '\x7d' :: rest =>
      if body.head? != some '_' && digits.length != 0 && digits.length ≤ 6
        && (hexValue digits).isValidChar
        && (quoted != .cText || hexValue digits != 0) then some rest
      else none
    | _ => none
  | _ => none

def skipEscape (quoted : Quoted) : List Char → Option (List Char)
  | 'x' :: rest => skipHexByte quoted rest
  | 'u' :: rest => if quoted = .bytes then none else skipUnicodeEscape quoted rest
  | '0' :: rest => if quoted = .cText then none else some rest
  | c :: rest => if ['n', 'r', 't', '\\', '"', tick].contains c then some rest else none
  | [] => none

/-- Behind the blanks with which a line ended by a backslash goes on. -/
def skipContinuation : List Char → Option (List Char)
  | '\r' :: '\n' :: rest => skipContinuation rest
  | '\r' :: _ => none
  | [] => none
  | c :: rest =>
    if c = ' ' ∨ c = '\t' ∨ c = '\n' then skipContinuation rest else some (c :: rest)

/-- Behind the closing quotation mark. At most `fuel` characters and escapes come before it. -/
def skipQuoted (quoted : Quoted) : Nat → List Char → Option (List Char)
  | 0, _ => none
  | fuel + 1, text =>
    match text with
    | [] => none
    | '"' :: rest => some rest
    | '\r' :: '\n' :: rest => skipQuoted quoted fuel rest
    | '\r' :: _ => none
    | '\\' :: c :: rest =>
      if c = '\n' ∨ c = '\r' then (skipContinuation (c :: rest)).bind (skipQuoted quoted fuel)
      else (skipEscape quoted (c :: rest)).bind (skipQuoted quoted fuel)
    | c :: rest =>
      if (quoted = .bytes ∧ 128 ≤ c.toNat) ∨ (quoted = .cText ∧ c.toNat = 0) then none
      else skipQuoted quoted fuel rest

/-- Behind the closing quotation mark and number signs of a raw text. -/
def skipRawBody (quoted : Quoted) (signs : Nat) : List Char → Option (List Char)
  | [] => none
  | '"' :: rest =>
    if (rest.take signs) = List.replicate signs '#' then some (rest.drop signs)
    else skipRawBody quoted signs rest
  | '\r' :: '\n' :: rest => skipRawBody quoted signs rest
  | '\r' :: _ => none
  | c :: rest =>
    if (quoted = .bytes ∧ 128 ≤ c.toNat) ∨ (quoted = .cText ∧ c.toNat = 0) then none
    else skipRawBody quoted signs rest

/-- Behind a raw text, of which the letters in front have been passed. -/
def skipRaw (quoted : Quoted) (text : List Char) : Option (List Char) :=
  let signs := (text.takeWhile (· == '#')).length
  match text.drop signs with
  | '"' :: rest => if signs ≤ 255 then skipRawBody quoted signs rest else none
  | _ => none

/-- Behind a single character between apostrophes, of which the first has been passed. -/
def skipCharacter (quoted : Quoted) (text : List Char) : Option (List Char) :=
  let body :=
    match text with
    | '\\' :: rest => skipEscape quoted rest
    | c :: rest => if quoted = .bytes ∧ 128 ≤ c.toNat then none else some rest
    | [] => none
  match body with
  | some (c :: rest) => if c = tick then some rest else none
  | _ => none

def skipQuotation (text : List Char) : Option (List Char) :=
  match text with
  | '"' :: rest => skipQuoted .text (rest.length + 1) rest
  | 'r' :: rest => skipRaw .text rest
  | 'b' :: '"' :: rest => skipQuoted .bytes (rest.length + 1) rest
  | 'b' :: 'r' :: rest => skipRaw .bytes rest
  | 'c' :: '"' :: rest => skipQuoted .cText (rest.length + 1) rest
  | 'c' :: 'r' :: rest => skipRaw .cText rest
  | 'b' :: c :: rest => if c = tick then skipCharacter .bytes rest else none
  | c :: rest => if c = tick then skipCharacter .text rest else none
  | [] => none

def endNumeral (text : List Char) : Option (List Char) :=
  match skipIdentifier text with
  | c :: rest => if isIdentifierPart c then none else some (c :: rest)
  | [] => some []

def isDigitOrLine (c : Char) : Bool := c.isDigit || c == '_'

/-- Behind an exponent, of which the letter has been passed, if it has a digit. -/
def skipExponent (text : List Char) : Option (List Char) :=
  let lines := text.dropWhile (· == '_')
  let digits :=
    match lines with
    | c :: rest => if c == '+' || c == '-' then rest else lines
    | [] => []
  let body := digits.takeWhile isDigitOrLine
  if body.any Char.isDigit then some (digits.drop body.length) else none

/-- Behind the digits of a numeral with a point or an exponent. A point belongs to it unless
another point or a name follows. -/
def skipFloatDigits (text : List Char) : Option (List Char) :=
  match text with
  | [] => none
  | c :: _ =>
    if !c.isDigit then none
    else
      match text.dropWhile isDigitOrLine with
      | '.' :: rest =>
        if rest.head?.any fun c => c == '.' || isIdentifierStart c then none
        else
          let fraction := rest.dropWhile isDigitOrLine
          match fraction with
          | c :: more =>
            if c == 'e' || c == 'E' then
              match skipExponent more with
              | some rest => some rest
              | none => some fraction
            else some fraction
          | [] => some []
      | c :: rest => if c == 'e' || c == 'E' then skipExponent rest else none
      | [] => none

/-- The base of a whole numeral, and its text behind the characters that name the base. -/
def splitBase : List Char → Nat × List Char
  | '0' :: 'x' :: rest => (16, rest)
  | '0' :: 'o' :: rest => (8, rest)
  | '0' :: 'b' :: rest => (2, rest)
  | text => (10, text)

/-- Behind the digits of a whole numeral, in the base that its first characters name. -/
def skipIntDigits (text : List Char) : Option (List Char) :=
  let (base, body) := splitBase text
  let digits := body.takeWhile fun c =>
    if base = 16 then isHexDigit c || c == '_' else isDigitOrLine c
  let values := digits.filter (· != '_')
  if values.isEmpty || (base = 10 && digits.head? == some '_')
    || values.any (fun c => base ≤ hexValue [c]) then none
  else some (body.drop digits.length)

/-- The value of a whole numeral that has no suffix. -/
def wholeValue? (text : List Char) : Option Nat :=
  match skipIntDigits text with
  | some [] =>
    let (base, body) := splitBase text
    some ((body.filter (· != '_')).foldl (fun n c => base * n + hexValue [c]) 0)
  | _ => none

/-- Behind the literal that the text starts with. Letters at its end are its suffix. -/
def skipLiteral (text : List Char) : Option (List Char) :=
  match skipQuotation text with
  | some rest => some (skipIdentifier rest)
  | none =>
    match (skipFloatDigits text).bind endNumeral with
    | some rest => some rest
    | none => (skipIntDigits text).bind endNumeral

end Derive

end SymbolicCalculus
