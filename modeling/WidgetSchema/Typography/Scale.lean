-- Size scales: five sizes per role, all of them numbers or all of them lengths.
import WidgetSchema.Css
import WidgetSchema.Node.Path
namespace WidgetSchema

/-- What the sizes of a scale are. -/
inductive ScaleKind where
  | number
  | length
  deriving DecidableEq

namespace ScaleKind

def sizes : List String := ["xs", "s", "m", "l", "xl"]

/-- What a single size is. A number is never counted as a length. -/
def ofSize? (s : String) : Option ScaleKind :=
  if Css.isNumeric s then some number else if Css.isLength s then some length else none

/-- The kind of a scale whose sizes are all of one kind. -/
def ofScale? (scale : Node) : Option ScaleKind := do
  let kinds ← sizes.mapM fun size =>
    ((scale.member? size).bind Node.string?).bind fun s => ofSize? (Text.trim s)
  if kinds.all (· == number) then some number
  else if kinds.all (· == length) then some length
  else none

/-- The kind of the scale of a role in the data of a widget. -/
def ofRole? (data : Node) (role : String) : Option ScaleKind :=
  ((data.getAt (Path.ofText ("typography.roleScales." ++ role))).filter Node.isObject).bind
    ofScale?

end ScaleKind

/-! ## Custom sizes -/

/-- The name of a custom property: two dashes and letters, digits and dashes. -/
def isCustomProperty (cs : List Char) : Bool :=
  match cs with
  | '-' :: '-' :: name =>
    !name.isEmpty && name.all fun c =>
      let c := Text.foldCase c
      Text.isAsciiDigit c || ('a' ≤ c && c ≤ 'z') || c == '-'
  | _ => false

/-- A custom size in the form of the scale it belongs to: on a scale of lengths, numbers are
pixels and custom properties are referenced; on a scale of numbers a percent sign goes. -/
def fitSize (s : String) (kind : Option ScaleKind) : String :=
  let size := Text.trim s
  match kind with
  | some .length =>
    if Css.isNumeric size then size ++ "px"
    else if isCustomProperty size.toList then "var(" ++ size ++ ")"
    else size
  | some .number =>
    if size.toList.getLast? = some '%' then
      let number := Text.trim (String.ofList size.toList.dropLast)
      if Css.isNumeric number then number else size
    else size
  | none => size

end WidgetSchema
