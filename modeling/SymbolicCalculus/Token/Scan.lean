import SymbolicCalculus.Token.Basic

/-! Cutting a text into tokens. Each token is the longest one that can start where it does. -/

set_option autoImplicit false

namespace SymbolicCalculus

namespace Token

/-- How many characters a numeral goes on for after its first digit, and its kind. A point belongs
to it only with a digit behind. -/
def numeralExtent (rest : List Char) : Kind × Nat :=
  let whole := (rest.takeWhile Char.isDigit).length
  match rest.drop whole with
  | '.' :: digit :: more =>
    if digit.isDigit then (.float, whole + 2 + (more.takeWhile Char.isDigit).length)
    else (.int, whole)
  | _ => (.int, whole)

/-- The kind of the token that starts with `c`, and how many of the characters behind `c` it
takes. -/
def extent (c : Char) (rest : List Char) : Kind × Nat :=
  if c.isWhitespace then (.whitespace, (rest.takeWhile Char.isWhitespace).length)
  else if c.isAlpha then (.name, (rest.takeWhile Char.isAlpha).length)
  else if c.isDigit then numeralExtent rest
  else
    match c with
    | '+' => (.add, 0)
    | '*' => (.mul, 0)
    | '(' => (.openParen, 0)
    | ')' => (.closeParen, 0)
    | _ => (.symbol, 0)

theorem numeralExtent_le (rest : List Char) : (numeralExtent rest).2 ≤ rest.length := by
  have whole := (List.takeWhile_prefix Char.isDigit (l := rest)).length_le
  unfold numeralExtent
  simp only
  split
  · rename_i digit more h
    have fraction := (List.takeWhile_prefix Char.isDigit (l := more)).length_le
    have := congrArg List.length h
    simp only [List.length_drop, List.length_cons] at this
    split
    · simp only
      omega
    · exact whole
  · exact whole

theorem extent_le (c : Char) (rest : List Char) : (extent c rest).2 ≤ rest.length := by
  unfold extent
  split
  · exact (List.takeWhile_prefix Char.isWhitespace).length_le
  · split
    · exact (List.takeWhile_prefix Char.isAlpha).length_le
    · split
      · exact numeralExtent_le rest
      · split <;> exact Nat.zero_le _

/-- Cuts up a text that starts at a byte position, behind tokens given back to front. -/
def scanFrom (position : Nat) (tokens : List Token) : List Char → List Token
  | [] => tokens.reverse
  | c :: rest =>
    let (kind, more) := extent c rest
    let lexeme := c :: rest.take more
    let stop := position + utf8Length lexeme
    let token := ⟨kind, ⟨position, stop⟩, String.ofList lexeme⟩
    scanFrom stop (token :: tokens) (rest.drop more)
termination_by text => text.length

theorem scanFrom_eq (position : Nat) (tokens : List Token) (text : List Char) :
    scanFrom position tokens text = tokens.reverse ++ scanFrom position [] text := by
  match text with
  | [] => simp [scanFrom]
  | c :: rest =>
    rw [scanFrom, scanFrom]
    simp only
    rw [scanFrom_eq, scanFrom_eq _ [_]]
    simp
termination_by text.length
decreasing_by all_goals simp only [List.length_drop, List.length_cons]; omega

/-- Nothing is lost. -/
theorem flatMap_lexeme_scanFrom (position : Nat) (text : List Char) :
    (scanFrom position [] text).flatMap (·.lexeme.toList) = text := by
  match text with
  | [] => simp [scanFrom]
  | c :: rest =>
    rw [scanFrom]
    simp only
    rw [scanFrom_eq]
    simp [flatMap_lexeme_scanFrom _ (rest.drop (extent c rest).2)]
termination_by text.length
decreasing_by simp only [List.length_drop, List.length_cons]; omega

def scan (text : String) : List Token := scanFrom 0 [] text.toList

end Token

end SymbolicCalculus
