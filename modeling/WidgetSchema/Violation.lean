-- What can be wrong with the data of a widget, and where.
import WidgetSchema.Decimal.Notation
import WidgetSchema.Node.Path
namespace WidgetSchema

/-- Why a value breaks a rule. -/
inductive Fault where
  | missing
  | notBoolean
  | notFinite
  | notString
  | notArray
  | notObject
  | belowMin (bound : Float)
  | aboveMax (bound : Float)
  | noEnumValues
  | notAllowed (allowed : List String)
  | notColor
  | notBackground
  | itemNotObject (idKey : String)
  | itemWithoutId (idKey : String)
  | duplicateId (idKey id : String)
  | unresolvedArray
  | unresolvedObject (segment : String)
  | expectedObject
  | mixedScale
  | sizeNotNumber
  | sizeNotLength
  | unknownFamily (family : String)
  deriving DecidableEq

namespace Fault

def message : Fault → String
  | missing => "Missing required value"
  | notBoolean => "Value must be a boolean"
  | notFinite => "Value must be a finite number"
  | notString => "Value must be a string"
  | notArray => "Value must be an array"
  | notObject => "Value must be an object"
  | belowMin bound => "Value must be >= " ++ Decimal.message bound
  | aboveMax bound => "Value must be <= " ++ Decimal.message bound
  | noEnumValues => "Control is missing enum values"
  | notAllowed allowed => "Value must be one of: " ++ Text.join ", " allowed
  | notColor => "Value must be a valid CSS color"
  | notBackground => "Value must be a valid CSS background"
  | itemNotObject idKey => "Array items must be objects with \"" ++ idKey ++ "\""
  | itemWithoutId idKey => "Array items must include a non-empty \"" ++ idKey ++ "\""
  | duplicateId idKey id => "Duplicate \"" ++ idKey ++ "\" value \"" ++ id ++ "\""
  | unresolvedArray => "Expected an array"
  | unresolvedObject segment => "Expected an object to resolve \"" ++ segment ++ "\""
  | expectedObject => "Expected an object"
  | mixedScale => "Role scale must be all numbers or all CSS lengths"
  | sizeNotNumber => "Custom size must be a number (no units), e.g. \"110\""
  | sizeNotLength => "Custom size must be a CSS length, e.g. \"24px\" or \"var(--fs-24)\""
  | unknownFamily family => "Unknown font family \"" ++ family ++ "\""

end Fault

/-- A fault at a place of the data, with wildcards resolved to positions. -/
structure Violation where
  path : String
  fault : Fault
  deriving DecidableEq

namespace Violation

def message (v : Violation) : String := v.fault.message

def toNode (v : Violation) : Node :=
  .object [("path", .string v.path), ("message", .string v.message)]

end Violation

end WidgetSchema
