-- Turning a loosely written value into one of the kind that a control asks for.
import WidgetSchema.Control.Basic
import WidgetSchema.Decimal.Reading
import WidgetSchema.Text.Blank
namespace WidgetSchema

/-- How loosely truth values are read. -/
inductive Mode where
  /-- Truth values only. -/
  | strict
  /-- Also one and zero, and words such as `yes` and `off`. -/
  | permissive
  deriving DecidableEq

/-- A value of the kind that a control asks for. -/
inductive ControlValue where
  | bool (b : Bool)
  | number (x : Float)
  | string (s : String)
  | enum (s : String)
  | color (s : String)
  | json (v : Node)
  | array (items : List Node)
  | object (members : Members Node)

namespace ControlValue

def kind : ControlValue → Kind
  | bool _ => .boolean
  | number _ => .number
  | string _ => .string
  | enum _ => .enum
  | color _ => .color
  | json _ => .json
  | array _ => .array
  | object _ => .object

/-- The text of a value of a textual kind. -/
def text? : ControlValue → Option String
  | string s | enum s | color s => some s
  | _ => none

def toNode : ControlValue → Node
  | bool b => .bool b
  | number x => .ofFloat x
  | string s | enum s | color s => .string s
  | json v => v
  | array items => .array items
  | object members => .object members

end ControlValue

/-- Why a value cannot be turned into one of the kind asked for. -/
inductive CoercionError where
  | notBoolean
  | notNumber
  | notString
  | notArray
  | notObject
  | required
  | empty
  | noEnumValues
  | notAllowed (allowed : List String)
  | emptyJson (what : String)
  | invalidJson (what : String)
  | otherJson (what : String)
  deriving DecidableEq

namespace CoercionError

def message : CoercionError → String
  | notBoolean => "Value must be a boolean"
  | notNumber => "Value must be a number"
  | notString => "Value must be a string"
  | notArray => "Value must be an array"
  | notObject => "Value must be an object"
  | required => "Value is required"
  | empty => "Value cannot be empty"
  | noEnumValues => "Control is missing enum values"
  | notAllowed allowed => "Value must be one of: " ++ Text.join ", " allowed
  | emptyJson what => "Value cannot be empty JSON" ++ what
  | invalidJson what => "Invalid JSON" ++ what
  | otherJson what => "Expected a JSON" ++ what

end CoercionError

namespace Coercion

def trueWords : List String := ["true", "1", "yes", "on"]

def falseWords : List String := ["false", "0", "no", "off"]

/-- A truth value in any of its spellings. -/
def looseBool? : Node → Option Bool
  | .bool b => some b
  | .number n =>
    if n.toFloat == 1.0 then some true else if n.toFloat == 0.0 then some false else none
  | .string s =>
    let word := Text.asciiLower (Text.trim s)
    if trueWords.contains word then some true
    else if falseWords.contains word then some false
    else none
  | _ => none

/-- A finite number, or the text of one. -/
def number? (t : Node) : Option Float :=
  let x :=
    match t with
    | .number n => some n.toFloat
    | .string s => Decimal.float? (Text.trim s)
    | _ => none
  x.filter Float.isFinite

/-- The tree that a text writes. `what` names the form asked for in messages. -/
def parsed (what s : String) : Except CoercionError Node :=
  let trimmed := Text.trim s
  if trimmed = "" then .error (.emptyJson what)
  else
    match Node.ofText? trimmed with
    | some v => .ok v
    | none => .error (.invalidJson what)

def enumValue (c : Control) (s : String) : Except CoercionError ControlValue :=
  let value := Text.trim s
  if value = "" then .error .empty
  else
    match c.allowedValues with
    | none => .error .noEnumValues
    | some allowed =>
      if allowed.contains value then .ok (.enum value) else .error (.notAllowed allowed)

def arrayText (s : String) : Except CoercionError ControlValue :=
  match parsed " array" s with
  | .ok (.array items) => .ok (.array items)
  | .ok _ => .error (.otherJson " array")
  | .error e => .error e

def objectText (s : String) : Except CoercionError ControlValue :=
  match parsed " object" s with
  | .ok (.object members) => .ok (.object members)
  | .ok _ => .error (.otherJson " object")
  | .error e => .error e

end Coercion

open Coercion

/-- The value of the control's kind that a tree stands for. -/
def Control.coerce (c : Control) (mode : Mode) (raw : Node) :
    Except CoercionError ControlValue :=
  match c.kind, raw with
  | .boolean, raw =>
    let b := match mode with
      | .strict => raw.bool?
      | .permissive => looseBool? raw
    match b with
    | some b => .ok (.bool b)
    | none => .error .notBoolean
  | .number, raw =>
    match number? raw with
    | some x => .ok (.number x)
    | none => .error .notNumber
  | .enum, .string s => enumValue c s
  | .enum, _ => .error .notString
  | .json, .null => .error .required
  | .json, .string s => (parsed "" s).map .json
  | .json, v => .ok (.json v)
  | .array, .null => .error .required
  | .array, .array items => .ok (.array items)
  | .array, .string s => arrayText s
  | .array, _ => .error .notArray
  | .object, .null => .error .required
  | .object, .object members => .ok (.object members)
  | .object, .string s => objectText s
  | .object, _ => .error .notObject
  | .color, .null => .error .required
  | .color, .string s =>
    let value := Text.trim s
    if value = "" then .error .empty else .ok (.color value)
  | .color, _ => .error .notString
  | .string, .null => .error .required
  | .string, .string s => .ok (.string s)
  | .string, _ => .error .notString

end WidgetSchema
