-- Defaults that a widget repairs with its own rules. Rules put single values into a tree and take
-- no member and no item away, so defaults that fit the controls of the widget go on to fit them
-- exactly where the new values do.
import WidgetSchema.Proofs.Checked
import WidgetSchema.Proofs.Control.Fits
import WidgetSchema.Proofs.Normalization.Twice
import WidgetSchema.Proofs.Widget.Compiled
namespace WidgetSchema

namespace Node

/-! ## Repaired trees -/

/-- A tree before and after scalars were put into it, in place of what was there or as new
members. -/
inductive Repaired : Node → Node → Prop
  | same (t : Node) : Repaired t t
  | scalar (t : Node) {v : Node} (scalar : v.isScalar = true) : Repaired t v
  | array {xs ys : List Node} (length : xs.length = ys.length)
    (item : ∀ i (hx : i < xs.length) (hy : i < ys.length), Repaired xs[i] ys[i]) :
    Repaired (array xs) (array ys)
  | object {members members' : Members Node}
    (kept : ∀ k x, Members.get? k members = some x → ∃ y, Members.get? k members' = some y)
    (member : ∀ k x y, Members.get? k members = some x → Members.get? k members' = some y →
      Repaired x y) : Repaired (object members) (object members')

theorem Repaired.isScalar {t u : Node} (h : Repaired t u) (ht : t.isScalar = true) :
    u.isScalar = true := by
  cases h with
  | same => exact ht
  | scalar _ hu => exact hu
  | array => cases ht
  | object => cases ht

theorem Repaired.trans {t u w : Node} (h : Repaired t u) (h' : Repaired u w) : Repaired t w := by
  induction h generalizing w with
  | same => exact h'
  | scalar t hu => exact .scalar t (h'.isScalar hu)
  | array length item ih =>
    cases h' with
    | same => exact .array length item
    | scalar _ hw => exact .scalar _ hw
    | array length' item' =>
      refine .array (length.trans length') fun i hx hz => ?_
      exact ih i hx (length ▸ hx) (item' i (length ▸ hx) hz)
  | object kept member ih =>
    cases h' with
    | same => exact .object kept member
    | scalar _ hw => exact .scalar _ hw
    | object kept' member' =>
      refine .object (fun k x hx => ?_) fun k x z hx hz => ?_
      · obtain ⟨y, hy⟩ := kept k x hx
        exact kept' k y hy
      · obtain ⟨y, hy⟩ := kept k x hx
        exact ih k x y hx hy (member' k y z hy hz)

end Node

namespace Normalization

open Node (Repaired)

/-! ## Rules only put scalars in -/

end Normalization

namespace Control

open Node (Repaired)

/-! ## Controls through a repair -/

/-- What the segments of a control lead through stays an array or an object. -/
def KeepsWay (segments : Path) (t u : Node) : Prop :=
  ∀ way rest p v, segments = way ++ rest → rest ≠ [] → Pattern.acceptsAll way p = true →
    t.getAt p = some v → ∃ w, u.getAt p = some w ∧ w.isScalar = false

/-- The values at the end of the segments are accepted where they have changed. -/
def ChangesFit (c : Control) (segments : Path) (t u : Node) : Prop :=
  ∀ p v, Pattern.acceptsAll segments p = true → t.getAt p = some v → u.getAt p ≠ some v →
    c.placeFault? (u.getAt p) = none

variable {c : Control}

theorem KeepsWay.child {s r : String} {rest : Path} {t u x y : Node}
    (h : KeepsWay (s :: rest) t u) (hr : Pattern.acceptsSegment s r = true)
    (hx : t.child? r = some x) (hy : u.child? r = some y) : KeepsWay rest x y := by
  intro way rest' p v hsegments hne hp hv
  have hlong : Pattern.acceptsAll (s :: way) (r :: p) = true := by
    rw [Pattern.acceptsAll, hr, hp]
    rfl
  obtain ⟨w, hw, hcontainer⟩ := h (s :: way) rest' (r :: p) v (by rw [hsegments]; rfl) hne hlong
    (by rw [Node.getAt, hx]; exact hv)
  rw [Node.getAt, hy] at hw
  exact ⟨w, hw, hcontainer⟩

theorem ChangesFit.child {s r : String} {rest : Path} {t u x y : Node}
    (h : c.ChangesFit (s :: rest) t u) (hr : Pattern.acceptsSegment s r = true)
    (hx : t.child? r = some x) (hy : u.child? r = some y) : c.ChangesFit rest x y := by
  intro p v hp hv hchanged
  have hlong : Pattern.acceptsAll (s :: rest) (r :: p) = true := by
    rw [Pattern.acceptsAll, hr, hp]
    rfl
  have hbefore : t.getAt (r :: p) = some v := by
    rw [Node.getAt, hx]
    exact hv
  have hafter : u.getAt (r :: p) = y.getAt p := by
    rw [Node.getAt, hy]
    rfl
  rw [← hafter] at hchanged ⊢
  exact h (r :: p) v hlong hbefore hchanged

end Control

namespace Definition

open Normalization (applyAll)

/-! ## Compiled widgets -/

/-- A card with a title, and a rule that puts a value in place of a title of another type. -/
def card (type : String) (default : Node) : Definition where
  name := "card"
  displayName := "Card"
  defaults := .object [("title", .string "Hi")]
  html := ["<bob-panel id='content'>",
    "<tooldrawer-field type='textfield' path='title' label='Title' />", "</bob-panel>"]
  normalization := some (.object [("coerceRules", .array [.object
    [("default", default), ("path", .string "title"), ("type", .string type)]])])

def cardLibrary : Library := ⟨.memory, [("textfield", { html := some "<input>" })]⟩

/-- Where a compiled widget passes a test, the definition was compiled. -/
theorem exists_of_any {d : Definition} {options : CompileOptions} {lib : Library}
    (test : Widget → Bool)
    (h : (d.compile options lib).toOption.any (fun found => test found.1) = true) :
    ∃ w cache, d.compile options lib = .ok (w, cache) ∧ test w = true := by
  rcases hcompile : d.compile options lib with e | ⟨w, cache⟩
  · rw [hcompile] at h
    cases h
  · rw [hcompile] at h
    exact ⟨w, cache, rfl, h⟩

end Definition

end WidgetSchema
