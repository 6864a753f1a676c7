-- Edits of the data of a widget, and why an edit is refused.
import WidgetSchema.Control.Coercion
import WidgetSchema.Node.Record
import WidgetSchema.Violation
namespace WidgetSchema

/-! ## Edits -/

/-- An edit. Positions are words of 64 bits. -/
inductive Op where
  /-- Stores a value at a place. -/
  | set (path : String) (value : Node)
  /-- Puts a value into the array at a place. -/
  | insert (path : String) (index : UInt64) (value : Node)
  /-- Takes an item out of the array at a place. -/
  | remove (path : String) (index : UInt64)
  /-- Takes an item out of the array at a place and puts it back at a position. -/
  | move (path : String) (source target : UInt64)

namespace Op

def path : Op → String
  | set path _ | insert path _ _ | remove path _ | move path _ _ => path

/-- A position as an edit writes it: a signed word, negative from `2^63` on. -/
def positionNode (i : UInt64) : Node := .ofInt i.toInt64.toInt

/-- The tree that the editor reads an edit from. -/
def toNode : Op → Node
  | set path value =>
    .ofPairs [("op", .string "set"), ("path", .string path), ("value", value)]
  | insert path index value =>
    .ofPairs [("op", .string "insert"), ("path", .string path), ("index", positionNode index),
      ("value", value)]
  | remove path index =>
    .ofPairs [("op", .string "remove"), ("path", .string path), ("index", positionNode index)]
  | move path source target =>
    .ofPairs [("op", .string "move"), ("path", .string path), ("from", positionNode source),
      ("to", positionNode target)]

/-- The stored form of an edit, with its positions as they are. -/
def storedNode : Op → Node
  | insert path index value =>
    .ofPairs [("op", .string "insert"), ("path", .string path), ("index", .ofNat index.toNat),
      ("value", value)]
  | remove path index =>
    .ofPairs [("op", .string "remove"), ("path", .string path), ("index", .ofNat index.toNat)]
  | move path source target =>
    .ofPairs [("op", .string "move"), ("path", .string path), ("from", .ofNat source.toNat),
      ("to", .ofNat target.toNat)]
  | set path value => (set path value).toNode

/-- A whole number of 64 bits without a sign. -/
def position? : Written → Option UInt64
  | .number (some (.int i _)) => if 0 ≤ i then some (UInt64.ofNat i.toNat) else none
  | _ => none

def value? : Written → Option Node := Written.toNode? Written.maxDepth

/-- The members of each kind of edit, in order. -/
def memberNames? : String → Option (List String)
  | "set" => some ["path", "value"]
  | "insert" => some ["path", "index", "value"]
  | "remove" => some ["path", "index"]
  | "move" => some ["path", "from", "to"]
  | _ => none

/-- The kind of a stored edit and its members. An edit may also be an array that starts with
the kind. -/
def parts? : Written → Option (String × Record)
  | .array (.string (some kind) :: rest) => do
    let names ← memberNames? kind
    let r ← Record.ofWritten? names (.array rest)
    return (kind, r)
  | .object members => do
    let tag ← Record.ofWritten? ["op"] (.object members)
    let kind ← tag.required "op" Written.string?
    let names ← memberNames? kind
    let r ← Record.ofWritten? names (.object members)
    return (kind, r)
  | _ => none

/-- Reads a stored edit. -/
def ofWritten? (w : Written) : Option Op := do
  let (kind, r) ← parts? w
  let path ← r.required "path" Written.string?
  match kind with
  | "set" => return set path (← r.required "value" value?)
  | "insert" =>
    return insert path (← r.required "index" position?) (← r.required "value" value?)
  | "remove" => return remove path (← r.required "index" position?)
  | "move" => return move path (← r.required "from" position?) (← r.required "to" position?)
  | _ => none

end Op

/-! ## Refusals -/

/-- Why an edit is refused. -/
inductive EditError where
  | emptyBatch
  | notObject
  | missingOp
  | missingPath
  | prohibited
  | notEditable
  | unknownOp (name : String)
  | missingValue
  | outOfRange (last : Nat)
  | coercion (error : CoercionError)
  | notArrayControl
  | badPosition (member : String)
  | notArray
  | itemNotObject (idKey : String)
  | itemWithoutId (idKey : String)
  | emptyMove
  | moveOutOfRange (last : Nat)
  | notSet
  | notAllowed
  /-- The value, or the tree after the edit, breaks a rule. -/
  | invalid (fault : Fault)
  deriving DecidableEq

namespace EditError

def message : EditError → String
  | emptyBatch => "Ops must be a non-empty array"
  | notObject => "Op must be an object"
  | missingOp => "Missing op (expected 'set'|'insert'|'remove'|'move')"
  | missingPath => "Missing path"
  | prohibited => "Path contains a prohibited segment"
  | notEditable => "Path is not editable"
  | unknownOp name => "Unknown op \"" ++ name ++ "\""
  | missingValue => "Value cannot be undefined"
  | outOfRange last => "index out of range (0.." ++ toString last ++ ")"
  | coercion error => error.message
  | notArrayControl => "Target must be an array control"
  | badPosition member => member ++ " must be an integer >= 0"
  | notArray => "Target must be an array"
  | itemNotObject idKey => "Inserted item must be an object with \"" ++ idKey ++ "\""
  | itemWithoutId idKey => "Inserted item must include a non-empty \"" ++ idKey ++ "\""
  | emptyMove => "Cannot move items in an empty array"
  | moveOutOfRange last => "Indices out of range (0.." ++ toString last ++ ")"
  | notSet => "Only \"set\" ops are allowed"
  | notAllowed => "Path is not allowlisted"
  | invalid fault => fault.message

end EditError

/-- Why a batch is refused: which edit is to blame, at which place, and the cause. -/
structure Rejection where
  opIndex : Nat
  path : Option String
  error : EditError
  deriving DecidableEq

namespace Rejection

def message (r : Rejection) : String := r.error.message

def toNode (r : Rejection) : Node :=
  .object ([("opIndex", .ofNat r.opIndex)] ++ Node.present "path" .string r.path ++
    [("message", .string r.message)])

end Rejection

/-- The outcome of a batch: the new tree, or the reasons why nothing changed. -/
abbrev Outcome := Except (List Rejection) Node

def Outcome.toNode : Outcome → Node
  | .ok data => .object [("ok", .bool true), ("data", data)]
  | .error rejections =>
    .object [("ok", .bool false), ("errors", .array (rejections.map Rejection.toNode))]

end WidgetSchema
