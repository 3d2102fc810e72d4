import SymbolicCalculus.Derive.Declaration

/-!
The tags of an `error` attribute: which expression gives the message, which the labels and
which the help. How an expression is read is a parameter.
-/

set_option autoImplicit false

namespace SymbolicCalculus

namespace Derive

inductive Tag where
  | message
  | labels
  | help
  deriving DecidableEq, Repr

namespace Tag

def name : Tag → String
  | message => "message"
  | labels => "labels"
  | help => "help"

def all : List Tag := [message, labels, help]

def ofName? (text : String) : Option Tag := all.find? (·.name == text)

end Tag

/-- The words of the expression of each tag that is given. -/
structure Tags where
  message : Option (List String)
  labels : Option (List String)
  help : Option (List String)
  deriving DecidableEq, Repr

namespace Tags

def empty : Tags := ⟨none, none, none⟩

def get? (tags : Tags) : Tag → Option (List String)
  | .message => tags.message
  | .labels => tags.labels
  | .help => tags.help

def set (tags : Tags) (tag : Tag) (words : List String) : Tags :=
  match tag with
  | .message => { tags with message := some words }
  | .labels => { tags with labels := some words }
  | .help => { tags with help := some words }

@[simp] theorem get?_set_self (tags : Tags) (tag : Tag) (words : List String) :
    (tags.set tag words).get? tag = some words := by
  cases tag <;> rfl

theorem get?_set_of_ne (tags : Tags) {tag other : Tag} (words : List String) (h : other ≠ tag) :
    (tags.set tag words).get? other = tags.get? other := by
  cases tag <;> cases other <;> first | rfl | exact absurd rfl h

end Tags

/-- Why no code can be generated. -/
inductive Error where
  /-- The text is no declaration of a structure with well-formed tags. -/
  | malformed
  | unknownTag (name : String)
  | duplicateTag (name : String)
  | missingAttribute
  | missingMessage
  deriving DecidableEq, Repr

/-- The message, where the text itself is well formed. -/
def Error.message? : Error → Option String
  | malformed => none
  | unknownTag name => some ("unknown tag `" ++ name ++ "`")
  | duplicateTag name => some ("duplicate tag `" ++ name ++ "`")
  | missingAttribute => some "missing `#[error(...)]` attribute"
  | missingMessage => some "missing `message` tag"

/-- Reads tags with their expressions, in addition to those given. A tag is checked before its
expression is read. What was left over in a group, in these expressions or before, is noticed
last. -/
def readTags (reader : ExpressionReader) (tags : Tags) (complete : Bool) (pieces : List Piece) :
    Except Error Tags :=
  match pieces with
  | [] => if complete then .ok tags else .error .malformed
  | .word name :: .mark sign _ :: rest =>
    if sign ≠ '=' || !isName name then .error .malformed
    else
      match Tag.ofName? name with
      | none => .error (.unknownTag name)
      | some tag =>
        if (tags.get? tag).isSome then .error (.duplicateTag name)
        else
          match reader rest with
          | none => .error .malformed
          | some (words, all, ⟨[], _⟩) =>
            if complete && all then .ok (tags.set tag words) else .error .malformed
          | some (words, all, ⟨.mark separator _ :: next, _⟩) =>
            if separator = ',' then readTags reader (tags.set tag words) (complete && all) next
            else .error .malformed
          | some _ => .error .malformed
  | _ => .error .malformed
termination_by pieces.length
decreasing_by
  rename_i bound _
  exact Nat.lt_succ_of_lt (Nat.lt_succ_of_lt (Nat.lt_of_succ_lt bound))

/-- The words of the expression of each tag, where the message is given. -/
structure Arguments where
  message : List String
  labels : Option (List String)
  help : Option (List String)
  deriving DecidableEq, Repr

def Arguments.get? (arguments : Arguments) : Tag → Option (List String)
  | .message => some arguments.message
  | .labels => arguments.labels
  | .help => arguments.help

/-- Reads the tags of an attribute. That there is no message is noticed behind all of them. -/
def Arguments.ofPieces (reader : ExpressionReader) (pieces : List Piece) :
    Except Error Arguments :=
  match readTags reader .empty true pieces with
  | .error error => .error error
  | .ok tags =>
    match tags.message with
    | none => .error .missingMessage
    | some message => .ok ⟨message, tags.labels, tags.help⟩

structure Target extends Arguments where
  name : String
  fields : Fields
  deriving DecidableEq, Repr

/-- The target that a declaration describes. Only the first `error` attribute counts. Pieces that
are left over anywhere are noticed last. -/
def Declaration.target (declaration : Declaration) (reader : ExpressionReader) :
    Except Error Target :=
  match declaration.attributes.find? (·.name == some "error") with
  | none => .error .missingAttribute
  | some found =>
    match found.body with
    | .list pieces =>
      match Arguments.ofPieces reader pieces with
      | .error error => .error error
      | .ok arguments =>
        if declaration.complete && declaration.attributes.all (·.complete) then
          .ok ⟨arguments, declaration.name, declaration.fields⟩
        else .error .malformed
    | _ => .error .malformed

def Target.ofText (text : String) : Except Error Target :=
  match (piecesOf text).bind readDeclaration? with
  | none => .error .malformed
  | some declaration => declaration.target readWords?

end Derive

end SymbolicCalculus
