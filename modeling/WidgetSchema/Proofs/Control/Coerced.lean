-- A value that was read for a control, judged by the same control. Reading settles the kind of a
-- value and what the kind asks for. It leaves open bounds, the ids of items and what a color is, so
-- no other fault is left, and what was read is read as itself.
import WidgetSchema.Proofs.Checked
import WidgetSchema.Proofs.Control.Kinds
import WidgetSchema.Proofs.Text.Trim
namespace WidgetSchema.Control

open Text (trim)

variable {c : Control}

/-! ## What is read -/

/-- The values that are read for a control, kind by kind. -/
inductive ReadFor (c : Control) : ControlValue → Prop
  | bool (kind : c.kind = .boolean) (b : Bool) : ReadFor c (.bool b)
  | number (kind : c.kind = .number) {x : Float} (finite : x.isFinite = true) :
      ReadFor c (.number x)
  | string (kind : c.kind = .string) (s : String) : ReadFor c (.string s)
  | enum (kind : c.kind = .enum) {s : String} {allowed : List String}
      (values : c.allowedValues = some allowed) (listed : allowed.contains s = true)
      (trimmed : s ≠ "" ∧ trim s = s) : ReadFor c (.enum s)
  | color (kind : c.kind = .color) {s : String} (trimmed : s ≠ "" ∧ trim s = s) :
      ReadFor c (.color s)
  | json (kind : c.kind = .json) (v : Node) : ReadFor c (.json v)
  | array (kind : c.kind = .array) (xs : List Node) : ReadFor c (.array xs)
  | object (kind : c.kind = .object) (ms : Members Node) : ReadFor c (.object ms)

theorem isFinite_of_number? {raw : Node} {x : Float} (h : Coercion.number? raw = some x) :
    x.isFinite = true :=
  (Option.filter_eq_some_iff.1 h).2

theorem exists_of_arrayText {s : String} {v : ControlValue} (h : Coercion.arrayText s = .ok v) :
    ∃ xs, v = .array xs := by
  unfold Coercion.arrayText at h
  split at h
  · exact ⟨_, (Except.ok.inj h).symm⟩
  · cases h
  · cases h

theorem exists_of_objectText {s : String} {v : ControlValue} (h : Coercion.objectText s = .ok v) :
    ∃ ms, v = .object ms := by
  unfold Coercion.objectText at h
  split at h
  · exact ⟨_, (Except.ok.inj h).symm⟩
  · cases h
  · cases h

/-- Every value that is read is of the kind asked for, with what the kind asks of it. -/
theorem readFor_of_coerce {mode : Mode} {raw : Node} {v : ControlValue}
    (h : c.coerce mode raw = .ok v) : c.ReadFor v := by
  unfold coerce at h
  cases hk : c.kind with
  | boolean =>
    simp only [hk] at h
    split at h
    · exact Except.ok.inj h ▸ .bool hk _
    · cases h
  | number =>
    simp only [hk] at h
    split at h
    · rename_i hx
      exact Except.ok.inj h ▸ .number hk (isFinite_of_number? hx)
    · cases h
  | string =>
    cases raw with
    | string s =>
      simp only [hk] at h
      exact Except.ok.inj h ▸ .string hk s
    | _ => simp [hk] at h
  | enum =>
    cases raw with
    | string s =>
      simp only [hk] at h
      obtain ⟨allowed, hvalues, hlisted, hne, rfl⟩ := enumValue_eq_ok h
      exact .enum hk hvalues hlisted ⟨hne, Text.trim_trim s⟩
    | _ => simp [hk] at h
  | color =>
    cases raw with
    | string s =>
      simp only [hk] at h
      split at h
      · cases h
      · rename_i hne
        exact Except.ok.inj h ▸ .color hk ⟨hne, Text.trim_trim s⟩
    | _ => simp [hk] at h
  | json =>
    obtain ⟨w, rfl⟩ : ∃ w, v = .json w := by
      cases raw with
      | null => simp [hk] at h
      | string s =>
        simp only [hk] at h
        obtain ⟨w, _, rfl⟩ := map_eq_ok_iff.1 h
        exact ⟨w, rfl⟩
      | _ =>
        simp only [hk] at h
        exact ⟨_, (Except.ok.inj h).symm⟩
    exact .json hk w
  | array =>
    cases raw with
    | array xs =>
      simp only [hk] at h
      exact Except.ok.inj h ▸ .array hk xs
    | string s =>
      simp only [hk] at h
      obtain ⟨xs, rfl⟩ := exists_of_arrayText h
      exact .array hk xs
    | _ => simp [hk] at h
  | object =>
    cases raw with
    | object ms =>
      simp only [hk] at h
      exact Except.ok.inj h ▸ .object hk ms
    | string s =>
      simp only [hk] at h
      obtain ⟨ms, rfl⟩ := exists_of_objectText h
      exact .object hk ms
    | _ => simp [hk] at h

theorem ReadFor.kind_eq {v : ControlValue} (h : c.ReadFor v) : v.kind = c.kind := by
  cases h <;> exact Eq.symm ‹_›

/-! ## What is left to judge -/

/-- The faults that a value of the right kind can still have under a control. -/
inductive BeyondKind (c : Control) : Fault → Prop
  | belowMin {bound : Float} (given : c.min = some bound) : BeyondKind c (.belowMin bound)
  | aboveMax {bound : Float} (given : c.max = some bound) : BeyondKind c (.aboveMax bound)
  | itemNotObject {key : String} (named : c.itemIdPath = some key) :
      BeyondKind c (.itemNotObject key)
  | itemWithoutId {key : String} (named : c.itemIdPath = some key) :
      BeyondKind c (.itemWithoutId key)
  | duplicateId {key id : String} (named : c.itemIdPath = some key) :
      BeyondKind c (.duplicateId key id)
  | notColor (kind : c.kind = .color) (plain : c.allowImage ≠ some true) :
      BeyondKind c .notColor
  | notBackground (kind : c.kind = .color) (image : c.allowImage = some true) :
      BeyondKind c .notBackground

/-- Nothing is left to judge without bounds, ids and colors. -/
theorem not_beyondKind {fault : Fault} (hmin : c.min = none) (hmax : c.max = none)
    (hids : c.itemIdPath = none) (hcolor : c.kind ≠ .color) : ¬ c.BeyondKind fault := by
  intro h
  cases h <;> simp_all

theorem beyondKind_of_boundFault? {x : Float} {fault : Fault} (h : c.boundFault? x = some fault) :
    c.BeyondKind fault := by
  unfold boundFault? at h
  split at h
  · rename_i low _ hlow
    exact Option.some.inj h ▸ .belowMin (Option.filter_eq_some_iff.1 hlow).1
  · rename_i high _ hhigh
    exact Option.some.inj h ▸ .aboveMax (Option.filter_eq_some_iff.1 hhigh).1
  · cases h

theorem beyondKind_of_itemIdFault? {key : String} (hkey : c.itemIdPath = some key)
    {seen : List String} {xs : List Node} {fault : Fault}
    (h : itemIdFault? key seen xs = some fault) : c.BeyondKind fault := by
  induction xs generalizing seen with
  | nil => cases h
  | cons x xs ih =>
    unfold itemIdFault? at h
    split at h
    · split at h
      · exact Option.some.inj h ▸ .itemWithoutId hkey
      · split at h
        · exact Option.some.inj h ▸ .duplicateId hkey
        · exact ih h
    · exact Option.some.inj h ▸ .itemNotObject hkey

theorem beyondKind_of_idsFault? {xs : List Node} {fault : Fault}
    (h : c.idsFault? (.array xs) = some fault) : c.BeyondKind fault := by
  unfold idsFault? at h
  split at h
  · cases h
  · rename_i key hkey
    exact beyondKind_of_itemIdFault? hkey h

theorem beyondKind_of_colorFault? (hk : c.kind = .color) {s : String} (hs : trim s ≠ "")
    {fault : Fault} (h : c.colorFault? (.string s) = some fault) : c.BeyondKind fault := by
  simp only [colorFault?, Node.string?, if_neg hs] at h
  split at h
  · rename_i himage
    split at h
    · cases h
    · exact Option.some.inj h ▸ .notBackground hk himage
  · rename_i hplain
    split at h
    · cases h
    · exact Option.some.inj h ▸ .notColor hk hplain

/-- A value that was read has no fault that its kind rules out. -/
theorem ReadFor.beyondKind {v : ControlValue} (h : c.ReadFor v) {fault : Fault}
    (hfault : c.fault? v.toNode = some fault) : c.BeyondKind fault := by
  cases h with
  | bool hk b => simp [fault?, hk, ControlValue.toNode, Node.bool?] at hfault
  | @number hk x hfinite =>
    obtain ⟨n, hn, _, hsize⟩ := Node.exists_ofFloat_eq hfinite
    have hn' : n.toFloat.isFinite = true := hsize.finite.trans hfinite
    rw [ControlValue.toNode, hn] at hfault
    simp only [fault?, hk, Node.float?, Option.filter, hn', if_true] at hfault
    exact beyondKind_of_boundFault? hfault
  | string hk s => simp [fault?, hk, ControlValue.toNode, Node.string?] at hfault
  | @enum hk s allowed hvalues hlisted _ =>
    simp only [fault?, hk, enumFault?, ControlValue.toNode, Node.string?, hvalues,
      if_pos hlisted] at hfault
    cases hfault
  | @color hk s hs =>
    simp only [fault?, hk, ControlValue.toNode] at hfault
    exact beyondKind_of_colorFault? hk (hs.2.symm ▸ hs.1) hfault
  | json hk w => simp [fault?, hk] at hfault
  | array hk xs =>
    simp only [fault?, hk, ControlValue.toNode, Node.isArray, if_true] at hfault
    exact beyondKind_of_idsFault? hfault
  | object hk ms => simp [fault?, hk, ControlValue.toNode, Node.isObject] at hfault

/-! ## What is read again -/

/-- What was read is read again as the same tree. Only a tree of any kind may be another one the
second time: a text in it would be parsed once more. -/
theorem ReadFor.again {v : ControlValue} (h : c.ReadFor v) (mode : Mode) (hjson : c.kind ≠ .json) :
    ∃ w, c.coerce mode v.toNode = .ok w ∧ w.toNode = v.toNode := by
  cases h with
  | bool hk b => exact ⟨_, coerce_bool mode hk b, rfl⟩
  | @number hk x hfinite =>
    obtain ⟨n, hn, _, hsize⟩ := Node.exists_ofFloat_eq hfinite
    rw [ControlValue.toNode, hn]
    exact ⟨_, coerce_number mode hk (hsize.finite.trans hfinite), Node.ofFloat_toFloat hn⟩
  | string hk s => exact ⟨_, coerce_string mode hk s, rfl⟩
  | enum hk hvalues hlisted hs =>
    exact ⟨_, (coerce_enum mode hk _).trans (enumValue_of_contains hvalues hlisted hs), rfl⟩
  | @color hk s hs =>
    have hread := coerce_color mode hk (hs.2.symm ▸ hs.1 : trim s ≠ "")
    exact ⟨_, hread, congrArg Node.string hs.2⟩
  | json hk => exact absurd hk hjson
  | array hk xs => exact ⟨_, coerce_array mode hk xs, rfl⟩
  | object hk ms => exact ⟨_, coerce_object mode hk ms, rfl⟩

/-- A value that is read for a control is of its kind. The control finds at most a bound, an id or
a color wrong with it, and outside of JSON it is read as the same tree again. -/
theorem what_is_read_is_of_the_kind_and_is_read_again {mode : Mode} {raw : Node}
    {v : ControlValue} (h : c.coerce mode raw = .ok v) :
    v.kind = c.kind ∧
      (∀ fault, c.placeFault? (some v.toNode) = some fault → c.BeyondKind fault) ∧
      (c.min = none → c.max = none → c.itemIdPath = none → c.kind ≠ .color →
        c.placeFault? (some v.toNode) = none) ∧
      (c.kind ≠ .json → ∃ w, c.coerce mode v.toNode = .ok w ∧ w.toNode = v.toNode) := by
  have hread := readFor_of_coerce h
  refine ⟨hread.kind_eq, fun fault hfault => hread.beyondKind hfault, ?_, hread.again mode⟩
  intro hmin hmax hids hcolor
  refine Option.eq_none_iff_forall_ne_some.2 fun fault hfault => ?_
  exact not_beyondKind hmin hmax hids hcolor (hread.beyondKind hfault)

/-! ## A number over its bound -/

/-- A control of how many columns a layout has. -/
def columnCount : Control :=
  { panelId := "layout", type := "numberinput", path := "columns", kind := .number,
    max := some 4.0 }

/-- Too many columns are read from a text, and only their bound is found fault with. -/
theorem twelve_columns_are_read_and_are_too_many :
    columnCount.coerce .strict (.string " 12 ") = .ok (.number 12.0) ∧
      columnCount.placeFault? (some (Node.ofFloat 12.0)) = some (.aboveMax 4.0) ∧
      columnCount.BeyondKind (.aboveMax 4.0) ∧
      ∃ w, columnCount.coerce .strict (Node.ofFloat 12.0) = .ok w ∧
        w.toNode = Node.ofFloat 12.0 := by
  have hread : columnCount.coerce .strict (.string " 12 ") = .ok (.number 12.0) :=
    coerce_of_number? .strict rfl (by decide +kernel)
  have hfault : columnCount.placeFault? (some (Node.ofFloat 12.0)) = some (.aboveMax 4.0) := by
    decide +kernel
  obtain ⟨_, hfaults, _, hagain⟩ := what_is_read_is_of_the_kind_and_is_read_again hread
  exact ⟨hread, hfault, hfaults _ hfault, hagain (by decide)⟩

end WidgetSchema.Control
