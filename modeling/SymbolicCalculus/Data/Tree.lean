import SymbolicCalculus.Data.Expr
import SymbolicCalculus.Syntax.Tree

/-! Syntax trees as data. -/

set_option autoImplicit false

namespace SymbolicCalculus

namespace Span

def encode (span : Span) : Data :=
  .record [("start", .integer span.start), ("end", .integer span.stop)]

/-- Reads a range. Unlike other structures, a range as a record has no keys beside its own. -/
def decode (data : Data) : Except Data.Error Span :=
  let ownKeysOnly :=
    match data with
    | .record fields => fields.all fun field => field.1 == "start" || field.1 == "end"
    | _ => true
  if data.hasFields ["start", "end"] && ownKeysOnly then
    (data.field Data.toNat "start" 0).bind fun start =>
      (data.field Data.toNat "end" 1).bind fun stop => .ok ⟨start, stop⟩
  else .error .shape

end Span

namespace Literal

def encode : Literal → Data
  | number value span =>
    .record [("Number", .record [("value", .real value), ("span", span.encode)])]
  | symbol name span =>
    .record [("Symbol", .record [("name", .text name), ("span", span.encode)])]

def decode : Data → Except Data.Error Literal
  | .record [("Number", content)] =>
    if content.hasFields ["value", "span"] then
      (content.field Data.toDouble "value" 0).bind fun value =>
        (content.field Span.decode "span" 1).bind fun span => .ok (number value span)
    else .error .shape
  | .record [("Symbol", content)] =>
    if content.hasFields ["name", "span"] then
      (content.field Data.toText "name" 0).bind fun name =>
        (content.field Span.decode "span" 1).bind fun span => .ok (symbol name span)
    else .error .shape
  | _ => .error .shape

end Literal

namespace Connective

def encode (connective : Connective) : Data :=
  .record [("kind", connective.operator.encode), ("span", connective.span.encode)]

def decode (data : Data) : Except Data.Error Connective :=
  if data.hasFields ["kind", "span"] then
    (data.field Operator.decode "kind" 0).bind fun operator =>
      (data.field Span.decode "span" 1).bind fun span => .ok ⟨operator, span⟩
  else .error .shape

end Connective

namespace Tree

def encode : Tree → Data
  | literal value => .record [("Literal", value.encode)]
  | paren inner span =>
    .record [("Paren", .record [("expr", inner.encode), ("span", span.encode)])]
  | binary lhs connective rhs span => .record [("Binary", .record [("lhs", lhs.encode),
      ("op", connective.encode), ("rhs", rhs.encode), ("span", span.encode)])]

mutual

def decode : Data → Except Data.Error Tree
  | .record [("Literal", content)] => (Literal.decode content).map literal
  | .record [("Paren", content)] =>
    if content.hasFields ["expr", "span"] then
      (decodeField "expr" 0 content).bind fun inner =>
        (content.field Span.decode "span" 1).bind fun span => .ok (paren inner span)
    else .error .shape
  | .record [("Binary", content)] =>
    if content.hasFields ["lhs", "op", "rhs", "span"] then
      (decodeField "lhs" 0 content).bind fun lhs =>
        (content.field Connective.decode "op" 1).bind fun connective =>
          (decodeField "rhs" 2 content).bind fun rhs =>
            (content.field Span.decode "span" 3).bind fun span =>
              .ok (binary lhs connective rhs span)
    else .error .shape
  | _ => .error .shape
termination_by data => 2 * sizeOf data
decreasing_by all_goals simp_all; omega

def decodeField (key : String) (index : Nat) (content : Data) : Except Data.Error Tree :=
  match _ : content.part? key index with
  | none => .error .shape
  | some part => decode part
termination_by 2 * sizeOf content + 1
decreasing_by have := Data.sizeOf_lt_of_part? ‹content.part? key index = _›; omega

end

end Tree

end SymbolicCalculus
