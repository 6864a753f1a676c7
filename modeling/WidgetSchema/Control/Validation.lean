-- Whether the data of a widget fits its controls. Every control is followed through the
-- data, into every item of an array at a wildcard, and the values found are judged.
import WidgetSchema.Control.Basic
import WidgetSchema.Typography.Rules
namespace WidgetSchema

namespace Control

/-! ## Single values -/

/-- The bound that a number breaks. -/
def boundFault? (c : Control) (x : Float) : Option Fault :=
  match c.min.filter (x < ·), c.max.filter (· < x) with
  | some low, _ => some (.belowMin low)
  | none, some high => some (.aboveMax high)
  | none, none => none

/-- The string under the id key of an item, if it is not blank. -/
def itemId? (idKey : String) (item : Node) : Option String :=
  ((item.member? idKey).bind Node.string?).filter fun s => !Text.isBlankText s

/-- The first item of an array that is no object, has no id or repeats one. -/
def itemIdFault? (idKey : String) : (seen : List String) → List Node → Option Fault
  | _, [] => none
  | seen, item :: items =>
    if item.isObject then
      match itemId? idKey item with
      | none => some (.itemWithoutId idKey)
      | some id =>
        if seen.contains id then some (.duplicateId idKey id)
        else itemIdFault? idKey (id :: seen) items
    else some (.itemNotObject idKey)

/-- What is wrong with the ids of an array. Controls that name no id accept anything. -/
def idsFault? (c : Control) (v : Node) : Option Fault :=
  match c.itemIdPath with
  | none => none
  | some idKey =>
    match v.array? with
    | none => some .notArray
    | some items => itemIdFault? idKey [] items

def enumFault? (c : Control) (v : Node) : Option Fault :=
  match v.string?, c.allowedValues with
  | none, _ => some .notString
  | some _, none => some .noEnumValues
  | some s, some allowed => if allowed.contains s then none else some (.notAllowed allowed)

def colorFault? (c : Control) (v : Node) : Option Fault :=
  match v.string? with
  | none => some .notString
  | some s =>
    let value := Text.trim s
    if value = "" then some .missing
    else if c.allowImage = some true then
      if Css.isBackground value then none else some .notBackground
    else if Css.isColor value then none
    else some .notColor

/-- What is wrong with a value under a control. -/
def fault? (c : Control) (v : Node) : Option Fault :=
  match c.kind with
  | .boolean => if v.bool?.isSome then none else some .notBoolean
  | .number =>
    match v.float?.filter Float.isFinite with
    | some x => c.boundFault? x
    | none => some .notFinite
  | .string => if v.string?.isSome then none else some .notString
  | .enum => c.enumFault? v
  | .color => c.colorFault? v
  | .array => if v.isArray then c.idsFault? v else some .notArray
  | .object => if v.isObject then none else some .notObject
  | .json => none

/-- What is wrong with what a place holds. A place has to hold something. -/
def placeFault? (c : Control) : Option Node → Option Fault
  | none => some .missing
  | some v => c.fault? v

/-! ## The whole tree -/

/-- The violations of a control below a place. The place is given by the segments that lead
to it and by what it holds. -/
def walk (c : Control) : (segments trail : Path) → Option Node → List Violation
  | [], trail, v => ((c.placeFault? v).map fun fault => ⟨Path.text trail, fault⟩).toList
  | s :: rest, trail, v =>
    if Path.isWildcard s then
      match v.bind Node.array? with
      | none => [⟨Path.text trail, .unresolvedArray⟩]
      | some items =>
        (items.zipIdx.map fun (item, i) => c.walk rest (trail ++ [toString i]) (some item)).flatten
    else
      match v.bind Node.object? with
      | none => [⟨Path.text trail, .unresolvedObject s⟩]
      | some members => c.walk rest (trail ++ [s]) (Members.get? s members)

def violationsIn (c : Control) (data : Node) : List Violation :=
  c.walk (Path.solidSegments c.path) [] (some data)

end Control

/-- Everything that is wrong with the data of a widget. A valid tree has no violations. -/
def violations (data : Node) (controls : List Control) : List Violation :=
  controls.flatMap (·.violationsIn data) ++ Typography.violations data

/-- The data fits the controls and keeps the rules of typography. -/
def IsValid (data : Node) (controls : List Control) : Prop := violations data controls = []

instance (data : Node) (controls : List Control) : Decidable (IsValid data controls) :=
  inferInstanceAs (Decidable (_ = _))

end WidgetSchema
