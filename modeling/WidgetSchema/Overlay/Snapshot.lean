-- The texts of a widget at allowed places, and fingerprints that tell whether they changed.
import WidgetSchema.Digest.Sha256
import WidgetSchema.Node.Text
import WidgetSchema.Overlay.Allowlist
namespace WidgetSchema.Overlay

/-- A text at an allowed place. -/
structure TextEntry where
  path : String
  type : TextType
  value : String
  deriving DecidableEq

namespace TextEntry

def toNode (e : TextEntry) : Node :=
  .object [("path", .string e.path), ("type", .string e.type.name), ("value", .string e.value)]

end TextEntry

/-- The texts below a place at the given segments. Blank texts count only where asked for. -/
def textsBelow (withBlank : Bool) : (segments trail : Path) → Option Node →
    List (String × String)
  | [], trail, v =>
    match v.bind Node.string? with
    | some s => if withBlank || !Text.isBlankText s then [(Path.text trail, s)] else []
    | none => []
  | s :: rest, trail, v =>
    if Path.isProhibited s then []
    else if s = "*" then
      match v with
      | some (.array items) =>
        (items.zipIdx.map fun (item, i) =>
          textsBelow withBlank rest (trail ++ [toString i]) (some item)).flatten
      | _ => []
    else
      match v with
      | some t => textsBelow withBlank rest (trail ++ [s]) (t.child? s)
      | none => []

def entryTexts (t : Node) (withBlank : Bool) (e : AllowEntry) : List TextEntry :=
  if e.pattern = "" || Path.hasProhibited (Text.split '.' e.pattern) then []
  else
    match Allowlist.segments e.pattern with
    | [] => []
    | s :: rest =>
      (textsBelow withBlank (s :: rest) [] (some t)).map fun (path, value) => ⟨path, e.type, value⟩

/-- The entries without those whose place came before. -/
def distinct : (seen : List String) → List TextEntry → List TextEntry
  | _, [] => []
  | seen, e :: es =>
    if e.path = "" || seen.contains e.path then distinct seen es
    else e :: distinct (e.path :: seen) es

/-- The texts at all allowed places, every place once, in the order of the allowlist. -/
def entries (t : Node) (allow : Allowlist) (withBlank : Bool) : List TextEntry :=
  distinct [] (allow.flatMap (entryTexts t withBlank))

/-- The texts at all allowed places, by place. -/
def snapshot (t : Node) (allow : Allowlist) : Members String :=
  Members.ofList ((entries t allow true).map fun e => (e.path, e.value))

def snapshotNode (t : Node) (allow : Allowlist) : Node :=
  .object ((snapshot t allow).map fun (path, s) => (path, .string s))

/-- The fingerprint of a whole tree. -/
def baseFingerprint (t : Node) : String := Digest.sha256 t.text

/-- The fingerprint of the texts at allowed places. Changes elsewhere leave it as it is. -/
def textFingerprint (t : Node) (allow : Allowlist) : String :=
  Digest.sha256 (snapshotNode t allow).text

end WidgetSchema.Overlay
