-- Components that are kept once they have been read. A component that is kept is not read again
-- before it is dropped, also where its files have changed.
import WidgetSchema.Component.Library
namespace WidgetSchema

/-- The components that have been read, by name. -/
abbrev ComponentCache := Members Component

namespace ComponentCache

/-- A component and the cache with it. A component that cannot be read is not kept. -/
def get (cache : ComponentCache) (lib : Library) (name : String) :
    Except ComponentError (Component × ComponentCache) :=
  match Members.get? name cache with
  | some c => .ok (c, cache)
  | none => (lib.component name).map fun c => (c, Members.set name c cache)

/-- The cache without a component. -/
def invalidate (cache : ComponentCache) (name : String) : ComponentCache :=
  Members.erase name cache

/-- All templates that the components hand down. -/
def templates (cache : ComponentCache) : List String :=
  cache.flatMap fun (_, c) => c.defaults.templates

end ComponentCache

end WidgetSchema
