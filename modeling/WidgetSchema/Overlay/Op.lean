-- Overlays: lists of texts to store at places of a widget, kept apart from it.
import WidgetSchema.Edit.Op
import WidgetSchema.Overlay.Allowlist
namespace WidgetSchema

/-- A text to store at a place. Only edits of the kind `set` have an effect. -/
structure OverlayOp where
  op : String
  path : String
  value : String
  deriving DecidableEq

namespace OverlayOp

def toNode (o : OverlayOp) : Node :=
  .object [("op", .string o.op), ("path", .string o.path), ("value", .string o.value)]

def ofWritten? (w : Written) : Option OverlayOp := do
  let r ← Record.ofWritten? ["op", "path", "value"] w
  let op ← r.required "op" Written.string?
  let path ← r.required "path" Written.string?
  let value ← r.required "value" Written.string?
  return { op, path, value }

end OverlayOp

namespace Overlay

/-! ## Places -/

/-- The text with positions in brackets written behind a dot: `a[0]` as `a.0`. -/
def dotted (cs : List Char) : List Char :=
  match cs with
  | [] => []
  | '[' :: rest =>
    let digits := rest.takeWhile (· ≠ ']')
    match h : rest.dropWhile (· ≠ ']') with
    | _ :: after =>
      if (Path.index? (String.ofList digits)).isSome then
        have : after.length < rest.length + 1 := by
          have := (List.dropWhile_sublist (l := rest) (· ≠ ']')).length_le
          rw [h] at this
          simp only [List.length_cons] at this
          omega
        '.' :: digits ++ dotted after
      else '[' :: dotted rest
    | [] => '[' :: dotted rest
  | c :: rest => c :: dotted rest
termination_by cs.length

/-- A place with positions behind dots and without empty segments. -/
def normalPath (path : String) : String :=
  let cs := dotted path.toList
  Path.text (((Text.splitChars '.' cs).map String.ofList).filter (· ≠ ""))

def isProhibited (path : String) : Bool := Path.hasProhibited (Text.split '.' path)

/-! ## Filtering and merging -/

/-- The place of an edit in normal form, if the edit is allowed. -/
def allowedPath? (allow : Allowlist) (o : OverlayOp) : Option String :=
  let path := normalPath o.path
  if path = "" || isProhibited path || !allow.allows path then none else some path

/-- The edits that are allowed, with their places in normal form. -/
def permitted (allow : Allowlist) (ops : List OverlayOp) : List OverlayOp :=
  ops.filterMap fun o => (allowedPath? allow o).map fun path => { o with path }

/-- The edits that are not allowed. -/
def refused (allow : Allowlist) (ops : List OverlayOp) : List OverlayOp :=
  ops.filter fun o => (allowedPath? allow o).isNone

/-- The list with an edit in the place of the earlier one at the same place, or at the end. -/
def mergeOne : List OverlayOp → OverlayOp → List OverlayOp
  | [], o => [o]
  | m :: ms, o => if m.path = o.path then o :: ms else m :: mergeOne ms o

/-- Two lists as one. The last edit at a place counts, at the position of the first one. -/
def merge (existing incoming : List OverlayOp) : List OverlayOp :=
  (existing ++ incoming).foldl mergeOne []

/-- What is stored after a save: the allowed edits merged into those stored before. -/
def save (allow : Allowlist) (stored ops : List OverlayOp) : List OverlayOp :=
  merge stored (permitted allow ops)

/-! ## Applying -/

/-- One edit of an overlay on a tree, or the cause and place of its refusal. -/
def change (allow : Allowlist) (t op : Node) : Except (Option String × EditError) Node :=
  if !op.isObject then .error (none, .notObject)
  else if (op.member? "op").bind Node.string? ≠ some "set" then .error (none, .notSet)
  else
    let path := (((op.member? "path").bind Node.string?).map normalPath).getD ""
    if path = "" then .error (none, .missingPath)
    else if isProhibited path then .error (some path, .prohibited)
    else if !allow.allows path then .error (some path, .notAllowed)
    else
      match (op.member? "value").bind Node.string? with
      | none => .error (some path, .invalid .notString)
      | some value =>
        match t.gapAt? (Path.ofText path) with
        | some (_, length) => .error (some path, .outOfRange length)
        | none => .ok (t.setAt (Path.ofText path) (.string value))

def applyFrom (allow : Allowlist) : (index : Nat) → Node → List Node → Outcome
  | _, t, [] => .ok t
  | index, t, op :: ops =>
    match change allow t op with
    | .ok next => applyFrom allow (index + 1) next ops
    | .error (path, err) => .error [⟨index, path, err⟩]

/-- Applies an overlay. The first edit that fails refuses the whole of it. -/
def apply (allow : Allowlist) (base : Node) (ops : List Node) : Outcome :=
  applyFrom allow 0 base ops

/-- Whether a stored edit is one that can be replayed at all. -/
def isReplayable (o : OverlayOp) : Bool :=
  o.op == "set" && !Text.isBlankText o.path && !isProhibited o.path

def replayOne (t : Node) (o : OverlayOp) : Node :=
  if (t.gapAt? (Path.ofText o.path)).isSome then t
  else t.setAt (Path.ofText o.path) (.string o.value)

/-- Replays stored edits. Those that do not apply are passed over. -/
def replay (base : Node) (ops : List OverlayOp) : Node :=
  (ops.filter isReplayable).foldl replayOne base

end Overlay

end WidgetSchema
