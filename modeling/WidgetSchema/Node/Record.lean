-- Records in written data. A record is written as an object with its members by name, or as
-- an array with its members in a fixed order, of which the last may be missing. Members that
-- are not known are ignored, and known ones may not come twice.
import WidgetSchema.Node.Written
namespace WidgetSchema

namespace Written

def string? : Written → Option String
  | string s => s
  | _ => none

def float? : Written → Option Float
  | number n => n.map Number.toFloat
  | _ => none

def bool? : Written → Option Bool
  | bool b => some b
  | _ => none

/-- A word of a fixed vocabulary: the word, or an object with the word as its only name and
nothing under it. -/
def word? : Written → Option String
  | string s => s
  | object [(s, null)] => s
  | _ => none

def listOf? {α : Type} (read : Written → Option α) : Written → Option (List α)
  | array items => items.mapM read
  | _ => none

end Written

/-- The known members of a record by name. -/
structure Record where
  members : List (String × Written)

namespace Record

variable {α : Type}

/-- The known members of an object. Every name has to be a text. -/
def known? (names : List String) :
    List (Option String × Written) → Option (List (String × Written))
  | [] => some []
  | (none, _) :: _ => none
  | (some k, w) :: ms => do
    let rest ← known? names ms
    if names.contains k then
      if Members.has k rest then none else some ((k, w) :: rest)
    else some rest

/-- Reads a record with the given names. An array may not be longer than the list of names. -/
def ofWritten? (names : List String) : Written → Option Record
  | .object members => (known? names members).map Record.mk
  | .array items => if items.length ≤ names.length then some ⟨names.zip items⟩ else none
  | _ => none

/-- A member that has to be there. -/
def required (r : Record) (key : String) (read : Written → Option α) : Option α :=
  (Members.get? key r.members).bind read

/-- A member that may be missing or null. A value of another form is refused. -/
def optional (r : Record) (key : String) (read : Written → Option α) : Option (Option α) :=
  match Members.get? key r.members with
  | none => some none
  | some .null => some none
  | some w => (read w).map some

/-- A list whose member may be missing. -/
def listed (r : Record) (key : String) (read : Written → Option α) : Option (List α) :=
  match Members.get? key r.members with
  | none => some []
  | some w => w.listOf? read

end Record

namespace Node

/-- The member under a name, left out where there is no value. -/
def present {α : Type} (key : String) (write : α → Node) : Option α → List (String × Node)
  | some a => [(key, write a)]
  | none => []

def strings (ss : List String) : Node := array (ss.map string)

end Node

end WidgetSchema
