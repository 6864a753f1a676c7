-- The rules of typography ask for members and texts only. So a tree keeps them exactly when its
-- outline does, and what happens to arrays, numbers and truth values is nothing to them.
import WidgetSchema.Proofs.Node.Outline
import WidgetSchema.Typography.Rules
namespace WidgetSchema

open Node (outline)

theorem ScaleKind.ofScale?_outline (scale : Node) : ofScale? scale.outline = ofScale? scale := by
  simp only [ofScale?, Node.member?_outline, Option.bind_map, Function.comp_def,
    Node.string?_outline]

namespace Typography

theorem solid?_outline (t : Option Node) : solid? (t.map outline) = solid? t := by
  simp only [solid?, Option.bind_map, Function.comp_def, Node.string?_outline]

theorem filter_isObject_outline (t : Option Node) :
    (t.map outline).filter Node.isObject = (t.filter Node.isObject).map outline := by
  cases t with
  | none => rfl
  | some t => by_cases h : t.isObject <;> simp [Option.filter, h]

/-- The roles of an outline are the outlines of the roles. -/
theorem roles?_outline (typography : Node) :
    roles? typography.outline =
      (roles? typography).map fun roles => roles.map fun m => (m.1, m.2.outline) := by
  unfold roles?
  rw [Node.member?_outline]
  rcases typography.member? "roles" with _ | t
  · rfl
  · cases t with
    | object members =>
      simp only [Option.map_some, Option.bind_some, outline, Node.object?,
        Node.outlineMembers_eq_map, List.filter_map, Function.comp_def, Node.isObject_outline]
    | _ => rfl

theorem sizeFaults_outline (role : String) (r : Node) (kind : Option ScaleKind) :
    sizeFaults role r.outline kind = sizeFaults role r kind := by
  simp only [sizeFaults, Node.member?_outline, solid?_outline]

theorem roleScaleFaults_outline (scales : Node) (role : String) (r : Node) :
    roleScaleFaults scales.outline role r.outline = roleScaleFaults scales role r := by
  unfold roleScaleFaults
  rw [Node.member?_outline, filter_isObject_outline]
  rcases (scales.member? role).filter Node.isObject with _ | scale
  · rfl
  · simp only [Option.map_some, Node.member?_outline, solid?_outline,
      ScaleKind.ofScale?_outline, sizeFaults_outline]

theorem scaleFaults_outline (typography : Node) :
    scaleFaults typography.outline = scaleFaults typography := by
  unfold scaleFaults
  rw [roles?_outline, Node.member?_outline, filter_isObject_outline]
  rcases roles? typography with _ | roles
  · rfl
  · rcases (typography.member? "roleScales").filter Node.isObject with _ | scales
    · rfl
    · simp only [Option.map_some, List.flatMap_map, roleScaleFaults_outline]

theorem roleFontFaults_outline (role : String) (r : Node) :
    roleFontFaults role r.outline = roleFontFaults role r := by
  simp only [roleFontFaults, Node.member?_outline, solid?_outline]

theorem fontFaults_outline (typography : Node) :
    fontFaults typography.outline = fontFaults typography := by
  unfold fontFaults familyFaults
  rw [roles?_outline, Node.member?_outline, solid?_outline]
  rcases roles? typography with _ | roles
  · rfl
  · simp only [Option.map_some, Option.getD_some, List.flatMap_map, roleFontFaults_outline]

/-- A tree keeps the rules of typography as its outline does. -/
theorem violations_outline (t : Node) : violations t.outline = violations t := by
  unfold violations
  rw [Node.member?_outline, filter_isObject_outline]
  rcases (t.member? "typography").filter Node.isObject with _ | typography
  · rfl
  · simp only [Option.map_some, scaleFaults_outline, fontFaults_outline]

end Typography

end WidgetSchema
