-- Editor components: the markup that stands for a field, and the defaults of the context it is
-- rendered in.
import WidgetSchema.Node.Record
import WidgetSchema.Template.Basic
namespace WidgetSchema

/-- The defaults of a rendering context. -/
structure ComponentDefaults where
  context : Option Node := none
  /-- What changes at the sizes of the component. -/
  sizeContext : Members Node := []
  deriving DecidableEq

/-- The files of a component: its markup, and a specification where there is one. -/
structure ComponentFiles where
  html : String
  spec : Option String
  deriving DecidableEq

/-- A component that is ready for use. -/
structure Component where
  name : String
  template : Template
  defaults : ComponentDefaults

namespace ComponentDefaults

/-- The levels of containers around a context in a specification. -/
def contextLevel : Nat := 3

/-- The members of an object by name, each read to the given depth. -/
def named? (depth : Nat) : Written → Option (Members Node)
  | .object members => (Written.membersToNodes? depth members).map Members.ofList
  | _ => none

def ofWritten? (w : Written) : Option ComponentDefaults := do
  let r ← Record.ofWritten? ["context", "sizeContext"] w
  let context ← r.optional "context" (Written.toNode? (Written.maxDepth - contextLevel))
  let sizeContext ←
    match Members.get? "sizeContext" r.members with
    | none => some []
    | some w => named? (Written.maxDepth - contextLevel - 1) w
  return { context, sizeContext }

/-- Reads a specification. It lists defaults, of which the first count. -/
def ofSpec? (spec : String) : Option ComponentDefaults := do
  let w ← Written.ofText? spec
  let r ← Record.ofWritten? ["defaults"] w
  let listed ← r.listed "defaults" ofWritten?
  return listed.head?.getD {}

/-- The templates that the defaults may hand down to a field without one of its own. -/
def templates (d : ComponentDefaults) : List String :=
  (d.context.toList ++ d.sizeContext.map (·.2)).flatMap fun context =>
    (context.object?.getD []).filterMap fun (key, v) =>
      if key = "template" then v.string? else none

end ComponentDefaults

/-- Reads the files of a component. Fails where its specification is none. -/
def Component.ofFiles? (name : String) (files : ComponentFiles) : Option Component := do
  let defaults ←
    match files.spec with
    | some spec => ComponentDefaults.ofSpec? spec
    | none => some {}
  return { name, template := Template.parse files.html, defaults }

end WidgetSchema
