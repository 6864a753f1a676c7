-- Which texts of a widget an overlay may replace. An allowed place is a pattern in which a
-- star stands for one position of an array.
import WidgetSchema.Node.Path
import WidgetSchema.Node.Record
import WidgetSchema.Text.Blank
namespace WidgetSchema

/-- How a text is edited. -/
inductive TextType where
  | plain
  | rich
  deriving DecidableEq

namespace TextType

def name : TextType → String
  | plain => "string"
  | rich => "richtext"

def ofName? : String → Option TextType
  | "string" => some plain
  | "richtext" => some rich
  | _ => none

end TextType

/-- A pattern of places that hold texts of one type. -/
structure AllowEntry where
  path : String
  type : TextType := .plain
  deriving DecidableEq

abbrev Allowlist := List AllowEntry

namespace AllowEntry

def pattern (e : AllowEntry) : String := Text.trim e.path

/-- Reads an entry: a pattern alone, or an object with a pattern and perhaps a type. -/
def ofWritten? (w : Written) : Option AllowEntry :=
  match w with
  | .string path => path.map fun path => { path }
  | .object _ => do
    let _ ← w.toNode? (Written.maxDepth - 1)
    let r ← Record.ofWritten? ["path", "type"] w
    let path ← r.required "path" Written.string?
    match Members.get? "type" r.members with
    | none => return { path }
    | some t => return { path, type := ← t.word?.bind TextType.ofName? }
  | _ => none

end AllowEntry

namespace Allowlist

/-- The segments of a place, trimmed, without the empty ones. -/
def segments (path : String) : Path := ((Text.split '.' path).map Text.trim).filter (· ≠ "")

/-- Whether a segment of a pattern allows a segment of a place. -/
def allowsSegment (pattern segment : String) : Bool :=
  if pattern = "*" then (Path.index? segment).isSome else pattern == segment

def allowsAll : Path → Path → Bool
  | [], [] => true
  | p :: ps, s :: ss => allowsSegment p s && allowsAll ps ss
  | _, _ => false

/-- Whether a pattern allows a place. -/
def matchesPattern (path pattern : String) : Bool := allowsAll (segments pattern) (segments path)

/-- Whether some entry allows a place. Blank patterns allow nothing. -/
def allows (allow : Allowlist) (path : String) : Bool :=
  (allow.filter (·.pattern ≠ "")).any fun e => matchesPattern path e.pattern

end Allowlist

end WidgetSchema
