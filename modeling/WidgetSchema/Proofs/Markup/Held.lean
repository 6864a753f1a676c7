-- Field tags at any depth of markup: those that stand in no other one, and those in the bodies
-- and in the decoded templates of field tags.
import WidgetSchema.Markup.Attribute
import WidgetSchema.Markup.Entity
import WidgetSchema.Markup.Field
namespace WidgetSchema.Markup

def FieldTag.attributes (t : FieldTag) : Attributes := Attributes.ofChars t.attrs

/-- Markup holds a field tag. -/
inductive Holds : List Char → FieldTag → Prop
  | here {markup : List Char} {t : FieldTag} : t ∈ fieldTags markup → Holds markup t
  | inBody {markup body : List Char} {t u : FieldTag} : u ∈ fieldTags markup →
      u.inner = some body → Holds body t → Holds markup t
  | inTemplate {markup : List Char} {template : String} {t u : FieldTag} : u ∈ fieldTags markup →
      u.attributes.get? "template" = some template →
      Holds (Entity.decodeChars template.toList) t → Holds markup t

/-- A field tag with a type and this path. -/
structure FieldTag.Names (t : FieldTag) (path : String) : Prop where
  type : (t.attributes.get? "type").isSome
  path : t.attributes.get? "path" = some path

end WidgetSchema.Markup
