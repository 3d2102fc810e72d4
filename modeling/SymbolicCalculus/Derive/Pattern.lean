import SymbolicCalculus.Derive.Type

/-! Patterns of Rust. They hold paths and literals, and blocks in place of constants. -/

set_option autoImplicit false

namespace SymbolicCalculus

namespace Derive

/-- What counts of a pattern for where it may stand. -/
inductive PatternShape where
  /-- A range that lacks one of its ends. Between square brackets it needs round ones. -/
  | openRange
  | other
  deriving DecidableEq, Repr

/-- The points of a range between patterns, and whether it holds its end. Three points are an old
form of two with an equality sign. -/
def readPatternLimits (s : Scan) : Option (Bool × Scan) :=
  if s.atMarks "..=" then (s.passMarks "..=").map (true, ·)
  else if s.atMarks "..." then some (true, (s.dropMarks "...").write [".", ".", "="])
  else (s.passMarks "..").map (false, ·)

def Scan.atPatternEnd (s : Scan) : Bool :=
  s.isDone || s.atMarks "|" || s.atMarks "=" || s.atColon || s.atMarks "," || s.atMarks ";"
    || s.atWord "if"

def passPatternBound (readers : Readers) (fuel : Nat) (s : Scan) : Option Scan :=
  if s.atLiteral then s.passLiteral
  else if s.atName || s.atPlaceWord || s.atMarks "::" || s.atMarks "<" then
    Prod.snd <$> readQualifiedPath readers true fuel s
  else if s.atWord "const" then s.pass.bind readers.block
  else none

def readPatternRange (readers : Readers) (fuel : Nat) (s : Scan) :
    Option (PatternShape × Scan) := do
  let (closed, s) ← readPatternLimits s
  if s.atPatternEnd then if closed then none else some (.openRange, s)
  else some (.other, ← passPatternBound readers fuel s)

/-- Does a name here start a path, a macro call, or a pattern with parts? -/
def Scan.atPatternPath (s : Scan) : Bool :=
  let behind := s.beyond 1
  (s.atName && (behind.atMarks "::" || behind.atMarks "!" || behind.atGroup .brace
      || behind.atGroup .paren || behind.atMarks ".."))
    || (s.atWord "self" && behind.atMarks "::") || s.atMarks "::" || s.atMarks "<"
    || s.atWord "Self" || s.atWord "super" || s.atWord "crate"

mutual

/-- A pattern without alternatives at its top. -/
def readPattern (readers : Readers) : Nat → Scan → Option (PatternShape × Scan)
  | 0, _ => none
  | fuel + 1, s =>
    if s.atPatternPath then do
      let (path, s) ← readQualifiedPath readers true fuel s
      if path.plain && s.atBang then some (.other, ← s.passMacro)
      else if s.atGroup .brace then
        some (.other, ← s.inside .brace (passFieldPatterns readers fuel))
      else if s.atGroup .paren then
        some (.other, ← s.inside .paren (Scan.separated (passAlternatives readers fuel) fuel))
      else if s.atMarks ".." then readPatternRange readers fuel s
      else some (.other, s)
    else if s.atWord "_" then do some (.other, ← s.pass)
    else if s.atWord "box" then do
      some (.other, ← Prod.snd <$> readPattern readers fuel (← s.pass))
    else if s.atMarks "-" || s.atLiteral || s.atWord "const" then do
      let s ← passPatternBound readers fuel s
      if s.atMarks ".." then readPatternRange readers fuel s else some (.other, s)
    else if s.atWord "ref" || s.atWord "mut" || s.atWord "self" || s.atName then do
      let s := (s.skipWord "ref").skipWord "mut"
      let s ← if s.atWord "self" then s.pass else s.passName
      if s.atMarks "@" then
        some (.other, ← Prod.snd <$> readPattern readers fuel (← s.passMarks "@"))
      else some (.other, s)
    else if s.atMarks "&" then do
      let s ← s.passMarks "&"
      some (.other, ← Prod.snd <$> readPattern readers fuel (s.skipWord "mut"))
    else if s.atGroup .paren then do
      some (.other, ← s.inside .paren (Scan.separated (passAlternatives readers fuel) fuel))
    else if s.atGroup .bracket then do
      some (.other, ← s.inside .bracket (Scan.separated (passItemPattern readers fuel) fuel))
    else if s.atMarks "..=" then do
      let s ← s.passMarks "..="
      if s.atPatternEnd then none else some (.openRange, ← passPatternBound readers fuel s)
    else if s.atMarks ".." && !s.atMarks "..." then do
      let s ← s.passMarks ".."
      if s.atPatternEnd then some (.other, s)
      else some (.openRange, ← passPatternBound readers fuel s)
    else none

/-- Patterns with bars between them, and perhaps one in front. -/
def readAlternatives (readers : Readers) : Nat → Scan → Option (PatternShape × Scan)
  | 0, _ => none
  | fuel + 1, s => do
    let leading := s.atMarks "|"
    let (shape, s) ← readPattern readers fuel (s.skipMarks "|")
    if s.atMarks "|" && !s.atMarks "||" && !s.atMarks "|=" then
      some (.other, ← passAlternatives readers fuel s)
    else some (if leading then .other else shape, s)

def passAlternatives (readers : Readers) : Nat → Scan → Option Scan
  | 0, _ => none
  | fuel + 1, s => Prod.snd <$> readAlternatives readers fuel s

def passItemPattern (readers : Readers) : Nat → Scan → Option Scan
  | 0, _ => none
  | fuel + 1, s => do
    let (shape, s) ← readAlternatives readers fuel s
    if shape = .openRange then none else some s

/-- The patterns of fields with commas between them. Nothing may follow the points that stand for
all other fields. -/
def passFieldPatterns (readers : Readers) : Nat → Scan → Option Scan
  | 0, _ => none
  | fuel + 1, s =>
    if s.isDone then some s
    else do
      let s ← passAttributes readers fuel s
      if s.atMarks ".." then s.passMarks ".."
      else
        let s ← passFieldPattern readers fuel s
        if s.isDone then some s else passFieldPatterns readers fuel (← s.passMarks ",")

def passFieldPattern (readers : Readers) : Nat → Scan → Option Scan
  | 0, _ => none
  | fuel + 1, s =>
    if s.atWord "box" || s.atWord "ref" || s.atWord "mut" then
      (((s.skipWord "box").skipWord "ref").skipWord "mut").passName
    else do
      let named := s.atName
      let s ← s.passMember
      if !named || s.atMarks ":" then passAlternatives readers fuel (← s.passMarks ":") else some s

end

end Derive

end SymbolicCalculus
