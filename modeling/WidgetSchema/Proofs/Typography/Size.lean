-- Custom sizes in the form of their scale. Whatever is put around a size, no blank is.
import WidgetSchema.Proofs.Text.Trim
import WidgetSchema.Typography.Scale
namespace WidgetSchema

open Text (trim trim_append trim_trim)

/-- A fitted size has no blank ends. -/
theorem trim_fitSize (s : String) (kind : Option ScaleKind) :
    trim (fitSize s kind) = fitSize s kind := by
  have hpx : trim "px" = "px" := by decide
  have hvar : trim "var(" = "var(" := by decide
  have hclose : trim ")" = ")" := by decide
  unfold fitSize
  rcases kind with _ | _ | _
  · exact trim_trim s
  · dsimp only
    split
    · split
      · exact trim_trim _
      · exact trim_trim s
    · exact trim_trim s
  · dsimp only
    split
    · exact trim_append (trim_trim s) hpx
    · split
      · exact trim_append (trim_append hvar (trim_trim s)) hclose
      · exact trim_trim s

end WidgetSchema
