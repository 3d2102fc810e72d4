import SymbolicCalculus.Data.Basic
import SymbolicCalculus.Expr.Basic
import SymbolicCalculus.Token.Basic

/-! Expressions as data. Numbers and variables are checked when they are read. -/

set_option autoImplicit false

namespace SymbolicCalculus

/-- A value that is accepted or refused, as a result of reading data. -/
def Data.accept {α : Type} : Except Refusal α → Except Data.Error α
  | .ok value => .ok value
  | .error reason => .error (.refused reason)

namespace Number

def encode (n : Number) : Data := .real n.value

def decode (data : Data) : Except Data.Error Number :=
  data.toDouble.bind fun value => Data.accept (ofDouble value)

end Number

namespace Variable

def encode (v : Variable) : Data := .text v.name

def decode (data : Data) : Except Data.Error Variable :=
  data.toText.bind fun name => Data.accept (ofName name)

end Variable

namespace Operator

def label : Operator → String
  | add => "Add"
  | mul => "Mul"

def encode (op : Operator) : Data := .text op.label

def decode (data : Data) : Except Data.Error Operator :=
  data.toName.bind fun name =>
    if name = add.label then .ok add else if name = mul.label then .ok mul else .error .shape

end Operator

namespace Token.Kind

def encode (kind : Token.Kind) : Data := .text kind.label

def decode (data : Data) : Except Data.Error Token.Kind :=
  data.toName.bind fun name =>
    match ofLabel? name with
    | some kind => .ok kind
    | none => .error .shape

end Token.Kind

namespace Expr

def encode : Expr → Data
  | atom (.number n) => .record [("Number", n.encode)]
  | atom (.var v) => .record [("Variable", v.encode)]
  | operation op left right => .record [("Operation",
      .record [("op", op.encode), ("left", left.encode), ("right", right.encode)])]

/-- An operation of the parts that were found. -/
def assemble : Option Operator → Option Expr → Option Expr → Except Data.Error Expr
  | some op, some left, some right => .ok (operation op left right)
  | _, _, _ => .error .shape

mutual

def decode : Data → Except Data.Error Expr
  | .record [("Number", content)] => (Number.decode content).map fun n => atom (.number n)
  | .record [("Variable", content)] => (Variable.decode content).map fun v => atom (.var v)
  | .record [("Operation", content)] => decodeOperation content
  | _ => .error .shape
termination_by data => 3 * sizeOf data
decreasing_by simp_all; omega

/-- Reads an operation. The fields of a record are read in alphabetical order, and a missing one is
noticed last. One that comes twice is noticed before. -/
def decodeOperation (content : Data) : Except Data.Error Expr :=
  let op : Except Data.Error (Option Operator) :=
    match content.part? "op" 0 with
    | none => .ok none
    | some part => (Operator.decode part).map some
  let left := decodePart "left" 1 content
  let right := decodePart "right" 2 content
  match content with
  | .list items =>
    op.bind fun op => left.bind fun left => right.bind fun right =>
      if items.length = 3 then assemble op left right else .error .shape
  | _ =>
    if content.hasFields ["op", "left", "right"] then
      left.bind fun left => op.bind fun op => right.bind fun right => assemble op left right
    else .error .shape
termination_by 3 * sizeOf content + 2

def decodePart (key : String) (index : Nat) (content : Data) : Except Data.Error (Option Expr) :=
  match _ : content.part? key index with
  | none => .ok none
  | some part => (decode part).map some
termination_by 3 * sizeOf content + 1
decreasing_by have := Data.sizeOf_lt_of_part? ‹content.part? key index = _›; omega

end

end Expr

end SymbolicCalculus
