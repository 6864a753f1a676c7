-- Places in a tree, written with dots: `faqs.0.question`. A segment of digits names an item
-- of an array, every other segment a member of an object.
import WidgetSchema.Node.Basic
namespace WidgetSchema

/-- The segments from the root down to a place. The root itself has none. -/
abbrev Path := List String

namespace Path

/-- The segments of a written path. The empty text is the root. -/
def ofText (s : String) : Path := if s = "" then [] else Text.split '.' s

def text (p : Path) : String := Text.join "." p

/-- The position that a segment of digits names, where it fits in 64 bits. -/
def index? (segment : String) : Option Nat :=
  let digits := segment.toList
  if digits.isEmpty || !digits.all Text.isAsciiDigit then none
  else
    let n := digits.foldl (fun n c => 10 * n + (c.toNat - '0'.toNat)) 0
    if n < Nat.pow 2 64 then some n else none

/-- A segment that stands for every position of an array, such as `__idx__`. -/
def isWildcard (segment : String) : Bool :=
  let cs := segment.toList
  4 < Text.byteSize cs && "__".toList.isPrefixOf cs && "__".toList.isSuffixOf cs &&
    !cs.contains '.'

/-- Names that no edit may read or write. -/
def prohibitedNames : List String := ["__proto__", "prototype", "constructor"]

def isProhibited (segment : String) : Bool := prohibitedNames.contains segment

def hasProhibited (p : Path) : Bool := p.any isProhibited

/-- The segments of a control path. Empty segments do not count. -/
def solidSegments (s : String) : Path := (Text.split '.' s).filter (· ≠ "")

end Path

namespace Node

/-! ## Reading and writing at a place -/

def child? (t : Node) (segment : String) : Option Node :=
  match t with
  | array items => (Path.index? segment).bind (items[·]?)
  | object members => Members.get? segment members
  | _ => none

def getAt : Node → Path → Option Node
  | t, [] => some t
  | t, s :: p => (child? t s).bind fun c => getAt c p

/-- The items with nulls added behind them up to the given position. -/
def padTo (items : List Node) (i : Nat) : List Node :=
  items ++ List.replicate (i + 1 - items.length) null

/-- The tree with a value stored at a place. Objects are created where there is none, and an
array is filled up with nulls to reach a position behind its end. -/
def setAt : Node → Path → Node → Node
  | _, [], v => v
  | array items, s :: p, v =>
    match Path.index? s with
    | some i => array ((padTo items i).set i (setAt ((items[i]?).getD null) p v))
    | none => object [(s, setAt null p v)]
  | object members, s :: p, v =>
    object (Members.set s (setAt ((Members.get? s members).getD null) p v) members)
  | _, s :: p, v => object [(s, setAt null p v)]

/-- The tree without the item or member at a place. The root cannot be removed. -/
def deleteAt : Node → Path → Node
  | t, [] => t
  | array items, [s] =>
    match Path.index? s with
    | some i => array (items.eraseIdx i)
    | none => array items
  | object members, [s] => object (Members.erase s members)
  | array items, s :: p =>
    match Path.index? s with
    | some i =>
      match items[i]? with
      | some x => array (items.set i (deleteAt x p))
      | none => array items
    | none => array items
  | object members, s :: p =>
    match Members.get? s members with
    | some x => object (Members.set s (deleteAt x p) members)
    | none => object members
  | t, _ => t

/-- The tree with a function applied at a place. The function is told when nothing is there. -/
def updateAt (t : Node) (p : Path) (f : Option Node → Node) : Node :=
  t.setAt p (f (t.getAt p))

/-- The first position on the way to a place that lies behind the end of its array by more
than one, with the length of that array. Writing there would fill up with nulls. -/
def gapAt? : Node → Path → Option (Nat × Nat)
  | _, [] => none
  | array items, s :: p =>
    match Path.index? s with
    | some i =>
      if items.length < i then some (i, items.length)
      else (items[i]?).bind fun x => gapAt? x p
    | none => none
  | object members, s :: p => (Members.get? s members).bind fun x => gapAt? x p
  | _, _ => none

end Node

end WidgetSchema
