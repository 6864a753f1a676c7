-- Rules that repair the data of a widget before it is edited: ids for the items of arrays,
-- and defaults for values of a wrong type. In the path of a rule, `key[]` stands for every
-- item of the array under the key.
import WidgetSchema.Node.Path
import WidgetSchema.Node.Record
import WidgetSchema.Text.Blank
namespace WidgetSchema

/-! ## Rules -/

/-- Every object in the arrays at a path gets an id of its own. -/
structure IdRule where
  arrayPath : String
  idKey : String
  /-- The member whose slug becomes a missing id. -/
  seedKey : Option String := none
  /-- The start of numbered ids, the id key where none is given. -/
  fallbackPrefix : Option String := none
  deriving DecidableEq

inductive ScalarType where
  | string
  | number
  | boolean
  deriving DecidableEq

namespace ScalarType

def name : ScalarType → String
  | string => "string"
  | number => "number"
  | boolean => "boolean"

def ofName? : String → Option ScalarType
  | "string" => some string
  | "number" => some number
  | "boolean" => some boolean
  | _ => none

def accepts : ScalarType → Node → Bool
  | string, .string _ => true
  | number, .number n => n.toFloat.isFinite
  | boolean, .bool _ => true
  | _, _ => false

end ScalarType

/-- A value of a wrong type is replaced by a default. -/
structure CoerceRule where
  path : String
  type : ScalarType
  default : Option Node := none
  deriving DecidableEq

/-- The rules of a widget. Ids are repaired first. -/
structure Normalization where
  idRules : List IdRule := []
  coerceRules : List CoerceRule := []
  deriving DecidableEq

/-! ## Reading rules -/

/-- What is wrong with rules as they are written. -/
inductive NormalizationError where
  | notObject
  | notList (member : String)
  | emptyPath
  | emptySegments (path : String)
  | badSegment (segment : String)
  | endsInItems (path : String)
  /-- A member of a rule is not as it has to be. -/
  | badRule (list : String) (index : Nat) (member : String) (expected : String)
  deriving DecidableEq

namespace NormalizationError

def detail : NormalizationError → String
  | notObject => "normalization must be an object"
  | notList member => "normalization." ++ member ++ " must be an array"
  | emptyPath => "path must be a non-empty string"
  | emptySegments path => "path \"" ++ path ++ "\" contains empty segments"
  | badSegment segment => "path segment \"" ++ segment ++ "\" is invalid"
  | endsInItems path => "path \"" ++ path ++ "\" cannot end with []"
  | badRule list index member expected =>
    "normalization." ++ list ++ "[" ++ toString index ++ "]" ++ member ++ " must be " ++ expected

def message (e : NormalizationError) : String := "invalid normalization: " ++ e.detail

end NormalizationError

namespace Normalization

open NormalizationError

/-- A name of letters, digits, underscores and dashes that is not prohibited. -/
def isSafeKey (key : String) : Bool :=
  key ≠ "" &&
    (key.toList.all fun c => Text.isAsciiAlphanumeric c || c == '_' || c == '-') &&
    !Path.isProhibited key

/-- The key of a segment, and whether it stands for the items of an array. -/
def segmentKey (segment : String) : String × Bool :=
  match segment.toList.reverse with
  | ']' :: '[' :: key => (String.ofList key.reverse, true)
  | _ => (segment, false)

def checkSegment (path : String) (mayEndInItems isLast : Bool) (segment : String) :
    Except NormalizationError String :=
  let (key, isItems) := segmentKey segment
  if !isSafeKey key then .error (badSegment segment)
  else if isItems && isLast && !mayEndInItems then .error (endsInItems path)
  else .ok segment

def checkSegments (path : String) (mayEndInItems : Bool) :
    List String → Except NormalizationError (List String)
  | [] => .ok []
  | s :: rest => do
    let s ← checkSegment path mayEndInItems rest.isEmpty s
    let rest ← checkSegments path mayEndInItems rest
    return s :: rest

/-- The path of a rule with its segments trimmed. -/
def readPath (path : String) (mayEndInItems : Bool) : Except NormalizationError String := do
  let path := Text.trim path
  if path = "" then throw emptyPath
  let segments := (Text.split '.' path).map Text.trim
  if segments.contains "" then throw (emptySegments path)
  return Path.text (← checkSegments path mayEndInItems segments)

/-- The trimmed text under a name, unless it is blank. -/
def solidMember? (rule : Node) (key : String) : Option String :=
  (((rule.member? key).bind Node.string?).map Text.trim).filter (· ≠ "")

def orElse {α : Type} (e : NormalizationError) : Option α → Except NormalizationError α
  | some a => .ok a
  | none => .error e

def readIdRule (index : Nat) (rule : Node) : Except NormalizationError IdRule := do
  let bad := badRule "idRules" index
  if !rule.isObject then throw (bad "" "an object")
  let path ← orElse (bad ".arrayPath" "a non-empty string") (solidMember? rule "arrayPath")
  let arrayPath ← readPath path true
  let idKey ← orElse (bad ".idKey" "a safe key")
    ((((rule.member? "idKey").bind Node.string?).map Text.trim).filter isSafeKey)
  let seedKey := solidMember? rule "seedKey"
  if seedKey.any fun key => !isSafeKey key then throw (bad ".seedKey" "a safe key")
  return { arrayPath, idKey, seedKey, fallbackPrefix := solidMember? rule "fallbackPrefix" }

def expectedName : ScalarType → String
  | .string => "a string"
  | .number => "a finite number"
  | .boolean => "a boolean"

def readCoerceRule (index : Nat) (rule : Node) : Except NormalizationError CoerceRule := do
  let bad := badRule "coerceRules" index
  if !rule.isObject then throw (bad "" "an object")
  let path ← orElse (bad ".path" "a non-empty string") (solidMember? rule "path")
  let path ← readPath path false
  let type ← orElse (bad ".type" "string|number|boolean")
    (((rule.member? "type").bind Node.string?).bind ScalarType.ofName?)
  let default := rule.member? "default"
  if default.any fun v => !type.accepts v then throw (bad ".default" (expectedName type))
  return { path, type, default }

def ruleList (raw : Node) (key : String) : Except NormalizationError (List Node) :=
  match raw.member? key with
  | none | some .null => .ok []
  | some (.array items) => .ok items
  | some _ => .error (notList key)

/-- Reads every item of a list together with its position. -/
def readAll {α : Type} (read : Nat → Node → Except NormalizationError α) :
    (index : Nat) → List Node → Except NormalizationError (List α)
  | _, [] => .ok []
  | index, x :: xs => do
    let a ← read index x
    let as ← readAll read (index + 1) xs
    return a :: as

/-- Reads the rules of a widget. Null, or no rule at all, gives no normalization. -/
def read (raw : Node) : Except NormalizationError (Option Normalization) := do
  if raw.isNull then return none
  if !raw.isObject then throw notObject
  let idRules ← readAll readIdRule 0 (← ruleList raw "idRules")
  let coerceRules ← readAll readCoerceRule 0 (← ruleList raw "coerceRules")
  if idRules.isEmpty && coerceRules.isEmpty then return none
  return some { idRules, coerceRules }

/-! ## Stored form -/

open Node (present)

def idRuleNode (r : IdRule) : Node :=
  .object ([("arrayPath", .string r.arrayPath), ("idKey", .string r.idKey)] ++
    present "seedKey" .string r.seedKey ++ present "fallbackPrefix" .string r.fallbackPrefix)

def coerceRuleNode (r : CoerceRule) : Node :=
  .object ([("path", .string r.path), ("type", .string r.type.name)] ++
    present "default" id r.default)

def toNode (n : Normalization) : Node :=
  .object (
    (if n.idRules.isEmpty then [] else [("idRules", .array (n.idRules.map idRuleNode))]) ++
    (if n.coerceRules.isEmpty then []
      else [("coerceRules", .array (n.coerceRules.map coerceRuleNode))]))

def idRuleOfWritten? (w : Written) : Option IdRule := do
  let r ← Record.ofWritten? ["arrayPath", "idKey", "seedKey", "fallbackPrefix"] w
  let arrayPath ← r.required "arrayPath" Written.string?
  let idKey ← r.required "idKey" Written.string?
  let seedKey ← r.optional "seedKey" Written.string?
  let fallbackPrefix ← r.optional "fallbackPrefix" Written.string?
  return { arrayPath, idKey, seedKey, fallbackPrefix }

def coerceRuleOfWritten? (depth : Nat) (w : Written) : Option CoerceRule := do
  let r ← Record.ofWritten? ["path", "type", "default"] w
  let path ← r.required "path" Written.string?
  let type ← r.required "type" fun v => v.word?.bind ScalarType.ofName?
  let default ← r.optional "default" (Written.toNode? depth)
  return { path, type, default }

/-- Reads stored rules. Their form is checked, their content is not. The rules stand three
containers deep in a record that may itself hold `depth` containers. -/
def ofWritten? (depth : Nat) (w : Written) : Option Normalization := do
  let r ← Record.ofWritten? ["idRules", "coerceRules"] w
  let idRules ← r.listed "idRules" idRuleOfWritten?
  let coerceRules ← r.listed "coerceRules" (coerceRuleOfWritten? (depth - 3))
  return { idRules, coerceRules }

end Normalization

end WidgetSchema
