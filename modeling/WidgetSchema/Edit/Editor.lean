-- Applying batches of edits. Every edit must name a place that a control governs and carry a
-- value of its kind, and the tree must stay valid; the first edit that fails refuses the
-- whole batch.
import WidgetSchema.Control.Pattern
import WidgetSchema.Control.Validation
import WidgetSchema.Edit.Op
namespace WidgetSchema

/-- When the tree is checked as a whole. -/
inductive Policy where
  | eachOp
  | endOfBatch
  deriving DecidableEq

/-- The controls of a widget, and how strictly edits are read and checked. -/
structure Editor where
  controls : List Control
  mode : Mode := .strict
  policy : Policy := .eachOp

namespace Editor

/-! ## Single edits -/

/-- A whole number of at least zero under a name. Fractions of zero are allowed, and numbers
that do not fit in 64 bits count as the largest. -/
def position (op : Node) (member : String) : Except EditError Nat :=
  let i? : Option Int :=
    match op.member? member with
    | some (.number (.int i _)) => some i
    | some (.number (.float x _)) => wholeValue? x
    | _ => none
  match i? with
  | some i => if 0 ≤ i then .ok (min i.toNat (Nat.pow 2 64 - 1)) else .error (.badPosition member)
  | none => .error (.badPosition member)

/-- The role whose custom size a place holds. -/
def sizeRole? (path : String) : Option String :=
  match Text.split '.' path with
  | ["typography", "roles", role, "sizeCustom"] => if role = "" then none else some role
  | _ => none

/-- The tree that a value is stored as. The texts of custom sizes take the form of their
scale. -/
def storedValue (t : Node) (path : String) (v : ControlValue) : Node :=
  match sizeRole? path, v.text? with
  | some role, some text => .string (fitSize text (ScaleKind.ofRole? t role))
  | _, _ => v.toNode

/-- Numbers have to keep their bounds already when they are read. -/
def numberFault? (c : Control) : ControlValue → Option Fault
  | .number x => c.boundFault? x
  | _ => none

def orInvalid (t : Node) : Option Fault → Except EditError Node
  | some fault => .error (.invalid fault)
  | none => .ok t

def setValue (e : Editor) (t : Node) (path : String) (c : Control) (value : Option Node) :
    Except EditError Node :=
  match value with
  | none => .error .missingValue
  | some raw =>
    match t.gapAt? (Path.ofText path) with
    | some (_, length) => .error (.outOfRange length)
    | none =>
      match c.coerce e.mode raw with
      | .error err => .error (.coercion err)
      | .ok v =>
        match numberFault? c v with
        | some fault => .error (.invalid fault)
        | none =>
          let next := storedValue t path v
          match c.idsFault? next with
          | some fault => .error (.invalid fault)
          | none => .ok (t.setAt (Path.ofText path) next)

/-- The array at a place that an array control governs. -/
def items (t : Node) (path : String) : Except EditError (List Node) :=
  match (t.getAt (Path.ofText path)).bind Node.array? with
  | some items => .ok items
  | none => .error .notArray

def requireArray (c : Control) : Except EditError Unit :=
  if c.kind = .array then .ok () else .error .notArrayControl

/-- The item to insert. Where a control governs its place it is read as that control asks. -/
def newItem (e : Editor) (path : String) (index : Nat) (raw : Node) : Except EditError Node :=
  match Control.governing? e.controls (path ++ "." ++ toString index) with
  | some c =>
    match c.coerce e.mode raw with
    | .ok v => .ok v.toNode
    | .error err => .error (.coercion err)
  | none => .ok raw

/-- Items of an array whose control names an id need that id. -/
def newItemError? (c : Control) (item : Node) : Option EditError :=
  match c.itemIdPath with
  | none => none
  | some idKey =>
    if item.isObject then
      if (Control.itemId? idKey item).isSome then none else some (.itemWithoutId idKey)
    else some (.itemNotObject idKey)

def insertItem (e : Editor) (t : Node) (path : String) (c : Control) (op : Node) :
    Except EditError Node := do
  requireArray c
  let index ← position op "index"
  let xs ← items t path
  if xs.length < index then throw (.outOfRange xs.length)
  let some raw := op.member? "value" | throw .missingValue
  let item ← e.newItem path index raw
  if let some err := newItemError? c item then throw err
  return t.setAt (Path.ofText path) (.array (xs.insertIdx index item))

def removeItem (t : Node) (path : String) (c : Control) (op : Node) : Except EditError Node := do
  requireArray c
  let index ← position op "index"
  let xs ← items t path
  if xs.length ≤ index then throw (.outOfRange (xs.length - 1))
  return t.setAt (Path.ofText path) (.array (xs.eraseIdx index))

/-- The list with the item at one position taken out and put back at another. -/
def moved (source target : Nat) (xs : List Node) : List Node :=
  match xs[source]? with
  | some x => (xs.eraseIdx source).insertIdx target x
  | none => xs

def moveItem (t : Node) (path : String) (c : Control) (op : Node) : Except EditError Node := do
  requireArray c
  let source ← position op "from"
  let target ← position op "to"
  let xs ← items t path
  if xs.isEmpty then throw .emptyMove
  let last := xs.length - 1
  if last < source || last < target then throw (.moveOutOfRange last)
  return t.setAt (Path.ofText path) (.array (moved source target xs))

/-- The place of an edit as it is written, if it is not blank. -/
def opPath? (op : Node) : Option String :=
  ((op.member? "path").bind Node.string?).filter fun s => !Text.isBlankText s

/-- What an edit makes of a tree at a place that a control governs. -/
def perform (e : Editor) (t : Node) (name path : String) (c : Control) (op : Node) :
    Except EditError Node :=
  match name with
  | "set" => e.setValue t path c (op.member? "value")
  | "insert" => e.insertItem t path c op
  | "remove" => removeItem t path c op
  | "move" => moveItem t path c op
  | other => .error (.unknownOp other)

/-- What an edit makes of a tree, or the cause and place of its refusal. -/
def change (e : Editor) (t op : Node) : Except (Option String × EditError) Node :=
  if !op.isObject then .error (none, .notObject)
  else
    match (op.member? "op").bind Node.string?, opPath? op with
    | none, _ => .error (none, .missingOp)
    | some _, none => .error (none, .missingPath)
    | some name, some path =>
      if Path.hasProhibited (Text.split '.' path) then .error (some path, .prohibited)
      else
        match Control.governing? e.controls path with
        | none => .error (some path, .notEditable)
        | some c =>
          match e.perform t name path c op with
          | .ok next => .ok next
          | .error err => .error (some path, err)

/-! ## Batches -/

/-- One edit of a batch, with the check of the whole tree where the policy asks for it. -/
def step (e : Editor) (index : Nat) (t op : Node) : Outcome :=
  match e.change t op with
  | .error (path, err) => .error [⟨index, path, err⟩]
  | .ok next =>
    match e.policy, violations next e.controls with
    | .endOfBatch, _ | .eachOp, [] => .ok next
    | .eachOp, vs => .error (vs.map fun v => ⟨index, some v.path, .invalid v.fault⟩)

/-- The edits one after another, counted from the given index. -/
def run (e : Editor) : (index : Nat) → Node → List Node → Outcome
  | _, t, [] => .ok t
  | index, t, op :: ops =>
    match e.step index t op with
    | .ok next => e.run (index + 1) next ops
    | .error rejections => .error rejections

/-- The segments by which violations are charged to edits: trimmed, and not empty. -/
def chargeSegments (path : String) : Path :=
  ((Text.split '.' path).map Text.trim).filter (· ≠ "")

/-- How many leading segments two places share. -/
def shared : Path → Path → Nat
  | a :: as, b :: bs => if a = b then shared as bs + 1 else 0
  | _, _ => 0

/-- The edit whose place shares the most leading segments with the given place. The last such
edit counts. Edits without a place are passed over. -/
def blamed (target : Path) : (index : Nat) → (best : Option (Nat × Nat)) →
    List (Option Path) → Option (Nat × Nat)
  | _, best, [] => best
  | index, best, none :: paths => blamed target (index + 1) best paths
  | index, best, some p :: paths =>
    let score := shared target p
    match best with
    | some (i, s) =>
      if s ≤ score then blamed target (index + 1) (some (index, score)) paths
      else blamed target (index + 1) (some (i, s)) paths
    | none => blamed target (index + 1) (some (index, score)) paths

/-- The violations left at the end of a batch, each charged to an edit. -/
def charge (ops : List Node) (vs : List Violation) : List Rejection :=
  let paths := ops.map fun op => ((op.member? "path").bind Node.string?).map chargeSegments
  vs.map fun v =>
    let index := ((blamed (chargeSegments v.path) 0 none paths).map (·.1)).getD 0
    ⟨index, some v.path, .invalid v.fault⟩

/-- Applies a batch of edits. The tree changes as a whole or not at all. -/
def apply (e : Editor) (data : Node) (ops : List Node) : Outcome :=
  if ops.isEmpty then .error [⟨0, none, .emptyBatch⟩]
  else
    match e.run 0 data ops with
    | .error rejections => .error rejections
    | .ok final =>
      match e.policy, violations final e.controls with
      | .eachOp, _ | .endOfBatch, [] => .ok final
      | .endOfBatch, vs => .error (charge ops vs)

/-- Applies a batch of typed edits. -/
def applyOps (e : Editor) (data : Node) (ops : List Op) : Outcome :=
  e.apply data (ops.map Op.toNode)

end Editor

end WidgetSchema
