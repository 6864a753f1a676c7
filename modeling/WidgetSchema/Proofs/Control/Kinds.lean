-- The values that a control accepts, kind by kind, and the numbers among them that no control
-- tells apart.
import WidgetSchema.Control.Coercion
import WidgetSchema.Proofs.Control.Exchange
import WidgetSchema.Proofs.Node.Numeric
namespace WidgetSchema

open Decimal (SameSize)

namespace Control

/-! ## The kinds -/

/-- The values of the kind of a control that it finds no fault with. -/
inductive Accepts (c : Control) : Node → Prop
  | boolean (kind : c.kind = .boolean) (b : Bool) : Accepts c (.bool b)
  | number (kind : c.kind = .number) {n : Number} (finite : n.toFloat.isFinite = true)
      (bounded : c.boundFault? n.toFloat = none) : Accepts c (.number n)
  | string (kind : c.kind = .string) (s : String) : Accepts c (.string s)
  | enum (kind : c.kind = .enum) {s : String} {allowed : List String}
      (values : c.allowedValues = some allowed) (listed : allowed.contains s = true) :
      Accepts c (.string s)
  | color (kind : c.kind = .color) {s : String} (written : Text.trim s ≠ "") :
      Accepts c (.string s)
  | json (kind : c.kind = .json) (v : Node) : Accepts c v
  | array (kind : c.kind = .array) {xs : List Node} (ids : c.idsFault? (.array xs) = none) :
      Accepts c (.array xs)
  | object (kind : c.kind = .object) (ms : Members Node) : Accepts c (.object ms)

theorem accepts_of_enumFault? {c : Control} {v : Node} (hk : c.kind = .enum)
    (h : c.enumFault? v = none) : c.Accepts v := by
  cases v with
  | string s =>
    unfold enumFault? at h
    rcases ha : c.allowedValues with _ | allowed
    · simp [Node.string?, ha] at h
    · refine .enum hk ha ?_
      simpa [Node.string?, ha] using h
  | _ => simp [enumFault?, Node.string?] at h

theorem accepts_of_colorFault? {c : Control} {v : Node} (hk : c.kind = .color)
    (h : c.colorFault? v = none) : c.Accepts v := by
  cases v with
  | string s =>
    refine .color hk ?_
    intro hblank
    simp [colorFault?, Node.string?, hblank] at h
  | _ => simp [colorFault?, Node.string?] at h

theorem accepts_of_fault? {c : Control} {v : Node} (h : c.fault? v = none) : c.Accepts v := by
  unfold fault? at h
  cases hk : c.kind with
  | boolean =>
    cases v with
    | bool b => exact .boolean hk b
    | _ => simp [hk, Node.bool?] at h
  | number =>
    cases v with
    | number n =>
      by_cases hfinite : n.toFloat.isFinite = true
      · refine .number hk hfinite ?_
        simpa [hk, Node.float?, Option.filter, hfinite] using h
      · simp [hk, Node.float?, Option.filter, hfinite] at h
    | _ => simp [hk, Node.float?] at h
  | string =>
    cases v with
    | string s => exact .string hk s
    | _ => simp [hk, Node.string?] at h
  | enum => exact accepts_of_enumFault? hk (by simpa [hk] using h)
  | color => exact accepts_of_colorFault? hk (by simpa [hk] using h)
  | json => exact .json hk v
  | array =>
    cases v with
    | array xs => exact .array hk (by simpa [hk, Node.isArray] using h)
    | _ => simp [hk, Node.isArray] at h
  | object =>
    cases v with
    | object ms => exact .object hk ms
    | _ => simp [hk, Node.isObject] at h

/-! ## Reading accepted values -/

section Reading

variable {c : Control} (mode : Mode)

theorem coerce_bool (hk : c.kind = .boolean) (b : Bool) :
    c.coerce mode (.bool b) = .ok (.bool b) := by
  unfold coerce
  rw [hk]
  cases mode <;> rfl

theorem coerce_of_number? (hk : c.kind = .number) {raw : Node} {x : Float}
    (h : Coercion.number? raw = some x) : c.coerce mode raw = .ok (.number x) := by
  unfold coerce
  rw [hk]
  simp only [h]

theorem coerce_number (hk : c.kind = .number) {n : Number} (hfinite : n.toFloat.isFinite = true) :
    c.coerce mode (.number n) = .ok (.number n.toFloat) :=
  coerce_of_number? mode hk (by simp [Coercion.number?, Option.filter, hfinite])

theorem coerce_string (hk : c.kind = .string) (s : String) :
    c.coerce mode (.string s) = .ok (.string s) := by
  unfold coerce
  rw [hk]

theorem coerce_enum (hk : c.kind = .enum) (s : String) :
    c.coerce mode (.string s) = Coercion.enumValue c s := by
  unfold coerce
  rw [hk]

theorem coerce_color (hk : c.kind = .color) {s : String} (hs : Text.trim s ≠ "") :
    c.coerce mode (.string s) = .ok (.color (Text.trim s)) := by
  unfold coerce
  rw [hk]
  simp only [if_neg hs]

theorem coerce_json (hk : c.kind = .json) {v : Node} (hnull : v ≠ .null)
    (hstring : ∀ s, v ≠ .string s) : c.coerce mode v = .ok (.json v) := by
  unfold coerce
  rw [hk]
  cases v with
  | null => exact absurd rfl hnull
  | string s => exact absurd rfl (hstring s)
  | _ => rfl

theorem coerce_json_string (hk : c.kind = .json) (s : String) :
    c.coerce mode (.string s) = (Coercion.parsed "" s).map .json := by
  unfold coerce
  rw [hk]

theorem coerce_json_null (hk : c.kind = .json) : c.coerce mode .null = .error .required := by
  unfold coerce
  rw [hk]

theorem coerce_array (hk : c.kind = .array) (xs : List Node) :
    c.coerce mode (.array xs) = .ok (.array xs) := by
  unfold coerce
  rw [hk]

theorem coerce_object (hk : c.kind = .object) (ms : Members Node) :
    c.coerce mode (.object ms) = .ok (.object ms) := by
  unfold coerce
  rw [hk]

end Reading

theorem enumValue_of_contains {c : Control} {s : String} {allowed : List String}
    (hvalues : c.allowedValues = some allowed) (hlisted : allowed.contains s = true)
    (hs : s ≠ "" ∧ Text.trim s = s) : Coercion.enumValue c s = .ok (.enum s) := by
  unfold Coercion.enumValue
  rw [hs.2, hvalues]
  simp only [if_neg hs.1, if_pos hlisted]

theorem enumValue_eq_ok {c : Control} {s : String} {v : ControlValue}
    (h : Coercion.enumValue c s = .ok v) :
    ∃ allowed, c.allowedValues = some allowed ∧ allowed.contains (Text.trim s) = true ∧
      Text.trim s ≠ "" ∧ v = .enum (Text.trim s) := by
  unfold Coercion.enumValue at h
  dsimp only at h
  split at h
  · cases h
  · rename_i hne
    split at h
    · cases h
    · rename_i allowed hvalues
      split at h
      · rename_i hlisted
        exact ⟨allowed, hvalues, hlisted, hne, (Except.ok.inj h).symm⟩
      · cases h

/-! ## Numbers of one size -/

theorem boundFault?_congr {c : Control} {x y : Float} (h : SameSize x y) :
    c.boundFault? x = c.boundFault? y := by
  have hmin : c.min.filter (x < ·) = c.min.filter (y < ·) := by
    cases c.min <;> simp [Option.filter, h.below]
  have hmax : c.max.filter (· < x) = c.max.filter (· < y) := by
    cases c.max <;> simp [Option.filter, h.above]
  unfold boundFault?
  rw [hmin, hmax]

/-- Every control finds the same fault with numbers of one size. -/
theorem fault?_number_congr (c : Control) {m n : Number} (h : SameSize m.toFloat n.toFloat) :
    c.fault? (.number m) = c.fault? (.number n) := by
  unfold fault?
  cases hk : c.kind with
  | number =>
    by_cases hfinite : n.toFloat.isFinite = true
    · simp [Node.float?, Option.filter, h.finite, hfinite, boundFault?_congr h]
    · simp [Node.float?, Option.filter, h.finite, hfinite]
  | _ => rfl

end Control

/-! ## Values in another form -/

/-- A value and what may be stored for it: itself, or its number in another form. -/
inductive Restored : Node → Node → Prop
  | same (v : Node) : Restored v v
  | number {m n : Number} (value : n.value = m.value) (size : SameSize n.toFloat m.toFloat) :
      Restored (.number m) (.number n)

namespace Restored

variable {v w : Node}

theorem outline_eq (h : Restored v w) : w.outline = v.outline := by
  cases h <;> rfl

theorem sameValue (h : Restored v w) : Node.SameValue w v := by
  cases h with
  | same => exact Node.sameValue_refl _
  | number value => exact value

theorem idsFault?_eq (h : Restored v w) (c : Control) : c.idsFault? w = c.idsFault? v := by
  cases h <;> rfl

theorem fits (h : Restored v w) {c : Control} {segments : Path}
    (hv : c.Fits segments (some v)) : c.Fits segments (some w) := by
  cases h with
  | same => exact hv
  | number _ size =>
    cases segments with
    | nil => exact (c.fault?_number_congr size).trans hv
    | cons _ _ => exact hv.elim

/-- A valid tree stays valid when a value is stored in another form. -/
theorem isValid_setAt (h : Restored v w) {controls : List Control} {data : Node} {p : Path}
    (hvalid : IsValid data controls) (hv : data.getAt p = some v) :
    IsValid (data.setAt p w) controls :=
  Control.isValid_setAt hvalid hv h.outline_eq fun _ _ _ => h.fits

end Restored

end WidgetSchema
