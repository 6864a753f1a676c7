-- Writing a value of a valid tree back to its place. The check of a tree and the reading of an
-- edit judge a value by two different rules: the check takes it as it is, the reading looks for
-- JSON in a text, trims it and fits sizes to their scale. Where the two agree on a value, and
-- only there, writing it back is accepted and changes nothing.
import WidgetSchema.Proofs.Control.Kinds
import WidgetSchema.Proofs.Edit.Items
import WidgetSchema.Proofs.Edit.Names
import WidgetSchema.Proofs.Node.Text
import WidgetSchema.Proofs.Typography.Size
namespace WidgetSchema.Editor

open Text (trim)

/-! ## Values that are read as they are -/

/-- What an edit asks of an accepted value, beyond being accepted, to store it as it is. -/
structure ReadsAsIs (c : Control) (t : Node) (path : String) (v : Node) : Prop where
  /-- Where any tree is asked for, null is refused and a text is read as the tree it writes. -/
  tree : c.kind = .json → v ≠ .null ∧ ∀ s, v ≠ .string s
  /-- Choices and colors are trimmed, and refused when nothing is left. -/
  trimmed : c.kind = .enum ∨ c.kind = .color → ∀ s, v = .string s → s ≠ "" ∧ trim s = s
  /-- The texts of custom sizes take the form of their scale. -/
  fitted : ∀ role, sizeRole? path = some role → ∀ s, v = .string s →
    fitSize s (ScaleKind.ofRole? t role) = s
  /-- Numbers are read as floating-point numbers. -/
  exact : c.kind = .number → ∀ n, v = .number n → n.IsExact
  /-- Ids are asked for whatever the kind of the control. -/
  ids : c.idsFault? v = none

/-- The text that an edit stores for a text that was read. -/
def storedText (t : Node) (path s : String) : String :=
  match sizeRole? path with
  | some role => fitSize s (ScaleKind.ofRole? t role)
  | none => s

theorem storedValue_of_text? {t : Node} {path s : String} {v : ControlValue}
    (h : v.text? = some s) : storedValue t path v = .string (storedText t path s) := by
  have hnode : v.toNode = .string s := by
    cases v <;> simp_all [ControlValue.text?, ControlValue.toNode]
  unfold storedValue storedText
  rw [h, hnode]
  cases sizeRole? path <;> rfl

theorem storedValue_of_text?_eq_none {t : Node} {path : String} {v : ControlValue}
    (h : v.text? = none) : storedValue t path v = v.toNode := by
  unfold storedValue
  rw [h]
  cases sizeRole? path <;> rfl

theorem storedText_eq_self_iff {t : Node} {path s : String} :
    storedText t path s = s ↔
      ∀ role, sizeRole? path = some role → fitSize s (ScaleKind.ofRole? t role) = s := by
  unfold storedText
  cases sizeRole? path <;> simp

theorem ReadsAsIs.storedValue_eq {c : Control} {t : Node} {path s : String} {cv : ControlValue}
    (h : ReadsAsIs c t path (.string s)) (hcv : cv.text? = some s) :
    storedValue t path cv = .string s := by
  have htext : storedText t path s = s :=
    storedText_eq_self_iff.2 fun role hrole => h.fitted role hrole s rfl
  rw [storedValue_of_text? hcv, htext]

/-- A trimmed text that is stored as the text it comes from is that text. -/
theorem trim_eq_of_storedText {t : Node} {path s : String} (h : storedText t path (trim s) = s) :
    trim s = s := by
  unfold storedText at h
  split at h
  · rw [← h]
    exact trim_fitSize _ _
  · exact h

/-- An edit reads a value, and this is what it stores for it. -/
structure Stores (e : Editor) (c : Control) (t : Node) (path : String) (v w : Node) : Prop where
  read : ∃ cv, c.coerce e.mode v = .ok cv ∧ numberFault? c cv = none ∧ storedValue t path cv = w
  ids : c.idsFault? w = none

theorem stores_of_coerce {e : Editor} {c : Control} {t v : Node} {path : String}
    {cv : ControlValue} (hread : c.coerce e.mode v = .ok cv) (hbound : numberFault? c cv = none)
    (hstored : storedValue t path cv = v) (hids : c.idsFault? v = none) :
    Stores e c t path v v :=
  ⟨⟨cv, hread, hbound, hstored⟩, hids⟩

theorem stores_number {e : Editor} {c : Control} {t : Node} {path : String} {n : Number}
    (hk : c.kind = .number) (hfinite : n.toFloat.isFinite = true)
    (hbound : c.boundFault? n.toFloat = none) (h : ReadsAsIs c t path (.number n)) :
    ∃ w, Restored (.number n) w ∧ Stores e c t path (.number n) w := by
  obtain ⟨m, hm, hvalue, hsize⟩ := Node.exists_ofFloat_eq hfinite
  have hstored : storedValue t path (.number n.toFloat) = .number m :=
    (storedValue_of_text?_eq_none rfl).trans hm
  have hrestored : Restored (.number n) (.number m) :=
    .number (hvalue.trans (h.exact hk n rfl)) hsize
  refine ⟨_, hrestored, ⟨_, Control.coerce_number e.mode hk hfinite, hbound, hstored⟩, ?_⟩
  rw [hrestored.idsFault?_eq]
  exact h.ids

/-- A value that reads as it is is stored, in its own form or as a number in another one. -/
theorem exists_stores {e : Editor} {c : Control} {t v : Node} {path : String}
    (hv : c.Accepts v) (h : ReadsAsIs c t path v) :
    ∃ w, Restored v w ∧ Stores e c t path v w := by
  cases hv with
  | boolean hk b =>
    exact ⟨_, .same _, stores_of_coerce (Control.coerce_bool _ hk b) rfl
      (storedValue_of_text?_eq_none rfl) h.ids⟩
  | number hk hfinite hbound => exact stores_number hk hfinite hbound h
  | string hk s =>
    exact ⟨_, .same _, stores_of_coerce (Control.coerce_string _ hk s) rfl
      (h.storedValue_eq rfl) h.ids⟩
  | @enum hk s allowed hvalues hlisted =>
    have hread := Control.enumValue_of_contains hvalues hlisted (h.trimmed (Or.inl hk) s rfl)
    exact ⟨_, .same _, stores_of_coerce ((Control.coerce_enum _ hk s).trans hread) rfl
      (h.storedValue_eq rfl) h.ids⟩
  | @color hk s hne =>
    have hread := Control.coerce_color e.mode hk hne
    rw [(h.trimmed (Or.inr hk) s rfl).2] at hread
    exact ⟨_, .same _, stores_of_coerce hread rfl (h.storedValue_eq rfl) h.ids⟩
  | json hk =>
    obtain ⟨hnull, hstring⟩ := h.tree hk
    exact ⟨_, .same _, stores_of_coerce (Control.coerce_json _ hk hnull hstring) rfl
      (storedValue_of_text?_eq_none rfl) h.ids⟩
  | array hk _ =>
    exact ⟨_, .same _, stores_of_coerce (Control.coerce_array _ hk _) rfl
      (storedValue_of_text?_eq_none rfl) h.ids⟩
  | object hk ms =>
    exact ⟨_, .same _, stores_of_coerce (Control.coerce_object _ hk ms) rfl
      (storedValue_of_text?_eq_none rfl) h.ids⟩

/-! ## Values that are stored as they are -/

/-- A value that is no text has nothing to trim or to fit. -/
theorem readsAsIs_of_ne_string {c : Control} {t v : Node} {path : String}
    (hv : ∀ s, v ≠ .string s) (hnull : c.kind = .json → v ≠ .null)
    (hexact : c.kind = .number → ∀ n, v = .number n → n.IsExact)
    (hids : c.idsFault? v = none) : ReadsAsIs c t path v where
  tree hk := ⟨hnull hk, hv⟩
  trimmed _ s hs := absurd hs (hv s)
  fitted _ _ s hs := absurd hs (hv s)
  exact := hexact
  ids := hids

/-- The text of a value of a textual kind that is stored as it is. -/
theorem readsAsIs_string {c : Control} {t : Node} {path s : String} (hk : c.kind ≠ .json)
    (htrim : c.kind = .enum ∨ c.kind = .color → s ≠ "" ∧ trim s = s)
    (htext : storedText t path s = s) (hids : c.idsFault? (.string s) = none) :
    ReadsAsIs c t path (.string s) where
  tree hj := absurd hj hk
  trimmed hc s' hs := Node.string.inj hs ▸ htrim hc
  fitted role hrole s' hs := Node.string.inj hs ▸ storedText_eq_self_iff.1 htext role hrole
  exact _ n hn := by cases hn
  ids := hids

/-- No text is the JSON of itself. -/
theorem ne_string_of_parsed {what s : String} {w : Node} (h : Coercion.parsed what s = .ok w) :
    w ≠ .string s := by
  rintro rfl
  unfold Coercion.parsed at h
  dsimp only at h
  split at h
  · cases h
  · split at h
    · rename_i v hv
      rw [Except.ok.inj h] at hv
      have hlen := Node.length_of_ofText? hv
      have hle := Text.length_trim_le s
      omega
    · cases h

/-- A text that is stored trimmed, and comes out the same, was trimmed. -/
theorem trimmed_of_storedValue {t : Node} {path s : String} {cv : ControlValue}
    (hcv : cv.text? = some (trim s)) (hne : trim s ≠ "")
    (h : Node.SameValue (storedValue t path cv) (.string s)) :
    (s ≠ "" ∧ trim s = s) ∧ storedText t path s = s := by
  rw [storedValue_of_text? hcv] at h
  have hstored : storedText t path (trim s) = s := h
  have htrim := trim_eq_of_storedText hstored
  rw [htrim] at hne hstored
  exact ⟨⟨hne, htrim⟩, hstored⟩

theorem idsFault?_of_sameValue {v w : Node} (c : Control) (h : Node.SameValue w v)
    (hv : v.array? = none) : c.idsFault? w = c.idsFault? v := by
  have hw : w.array? = none := by
    cases w with
    | array xs =>
      cases v with
      | array ys => cases hv
      | _ => exact h.elim
    | _ => rfl
  unfold Control.idsFault?
  rw [hv, hw]

theorem not_stores_json_null {e : Editor} {c : Control} {t w : Node} {path : String}
    (hk : c.kind = .json) : ¬ Stores e c t path .null w := by
  rintro ⟨⟨cv, hread, _⟩, _⟩
  rw [Control.coerce_json_null _ hk] at hread
  cases hread

/-- A text that is read as JSON is not stored as it is. -/
theorem ne_string_of_stores_json {e : Editor} {c : Control} {t w : Node} {path s : String}
    (hk : c.kind = .json) (h : Stores e c t path (.string s) w) : w ≠ .string s := by
  obtain ⟨⟨cv, hread, _, rfl⟩, _⟩ := h
  rw [Control.coerce_json_string _ hk] at hread
  rcases hp : Coercion.parsed "" s with err | v
  · rw [hp] at hread
    cases hread
  · rw [hp] at hread
    have hcv : cv = .json v := (Except.ok.inj hread).symm
    rw [hcv, storedValue_of_text?_eq_none rfl]
    exact ne_string_of_parsed hp

/-- An accepted value that is stored with the same value reads as it is. -/
theorem readsAsIs_of_stores {e : Editor} {c : Control} {t v w : Node} {path : String}
    (hv : c.Accepts v) (h : Stores e c t path v w) (hw : Node.SameValue w v) :
    ReadsAsIs c t path v := by
  have hids : v.array? = none → c.idsFault? v = none := fun hnone =>
    (idsFault?_of_sameValue c hw hnone).symm.trans h.ids
  have hread : ∀ {cv}, c.coerce e.mode v = .ok cv → w = storedValue t path cv := by
    intro cv hcv
    obtain ⟨⟨cv', hcv', _, rfl⟩, _⟩ := h
    rw [Except.ok.inj (hcv.symm.trans hcv')]
  cases hv with
  | boolean =>
    exact readsAsIs_of_ne_string (by simp) (by simp) (by simp) (hids rfl)
  | @number hk n hfinite hbound =>
    refine readsAsIs_of_ne_string (by simp) (by simp) ?_ (hids rfl)
    intro _ m hm
    obtain ⟨m', hm', hvalue, _⟩ := Node.exists_ofFloat_eq hfinite
    rw [hread (Control.coerce_number _ hk hfinite), storedValue_of_text?_eq_none rfl,
      ControlValue.toNode, hm'] at hw
    rw [← Node.number.inj hm]
    exact hvalue.symm.trans hw
  | string hk s =>
    rw [hread (Control.coerce_string _ hk s), storedValue_of_text? rfl] at hw
    exact readsAsIs_string (by simp [hk]) (by simp [hk]) hw (hids rfl)
  | @enum hk s allowed hvalues hlisted =>
    obtain ⟨⟨cv, hcv, _, _⟩, _⟩ := h
    obtain ⟨_, _, _, hne, rfl⟩ := Control.enumValue_eq_ok ((Control.coerce_enum _ hk s).symm.trans hcv)
    rw [hread hcv] at hw
    obtain ⟨htrim, htext⟩ := trimmed_of_storedValue rfl hne hw
    exact readsAsIs_string (by simp [hk]) (fun _ => htrim) htext (hids rfl)
  | @color hk s hne =>
    rw [hread (Control.coerce_color _ hk hne)] at hw
    obtain ⟨htrim, htext⟩ := trimmed_of_storedValue rfl hne hw
    exact readsAsIs_string (by simp [hk]) (fun _ => htrim) htext (hids rfl)
  | json hk =>
    have hnull : v ≠ .null := by
      rintro rfl
      exact not_stores_json_null hk h
    have hstring : ∀ s, v ≠ .string s := by
      rintro s rfl
      refine ne_string_of_stores_json hk h ?_
      cases w with
      | string s' => exact congrArg Node.string hw
      | _ => exact hw.elim
    refine readsAsIs_of_ne_string hstring (fun _ => hnull) (by simp [hk]) ?_
    have hw : w = v := by
      rw [hread (Control.coerce_json _ hk hnull hstring)]
      exact storedValue_of_text?_eq_none rfl
    exact hw ▸ h.ids
  | @array hk xs hxs =>
    exact readsAsIs_of_ne_string (by simp) (by simp) (by simp) hxs
  | object hk ms =>
    exact readsAsIs_of_ne_string (by simp) (by simp) (by simp) (hids rfl)

/-! ## Writing back -/

/-- The control of a place of a valid tree accepts what is there. -/
theorem accepts_of_isValid {controls : List Control} {data v : Node} {path : String} {c : Control}
    (hvalid : IsValid data controls) (hc : Control.governing? controls path = some c)
    (hv : data.getAt (Path.ofText path) = some v) : c.Accepts v := by
  obtain ⟨hmem, hgoverns⟩ := Control.governs_of_governing? hc
  have haccepts := (Bool.and_eq_true_iff.1 hgoverns).2
  exact Control.accepts_of_fault? (Control.placeFault?_of_fits
    (Control.fits_of_isValid hvalid hmem) (Pattern.acceptsAll_of_accepts haccepts) hv)

/-- An edit that sets a value at a place. -/
structure Sets (op : Node) (path : String) (value : Node) : Prop extends Names op "set" path where
  value : op.member? "value" = some value

/-- Under every mode and policy, writing a value of a valid tree back to its place is accepted
and leaves every value of the tree as it is exactly when the value reads as it is. -/
theorem a_value_can_be_written_back_iff {e : Editor} {data v op : Node} {path : String}
    {c : Control} (hvalid : IsValid data e.controls) (hsolid : Text.isBlankText path = false)
    (hclean : Path.hasProhibited (Text.split '.' path) = false)
    (hc : Control.governing? e.controls path = some c)
    (hv : data.getAt (Path.ofText path) = some v) (hop : Sets op path v) :
    (∃ next, e.apply data [op] = .ok next ∧ Node.SameValue next data) ↔
      ReadsAsIs c data path v := by
  have haccepts := accepts_of_isValid hvalid hc hv
  constructor
  · rintro ⟨next, happly, hsame⟩
    obtain ⟨c', hc', hperform⟩ := perform_of_apply hop.toNames happly
    obtain rfl : c = c' := Option.some.inj (hc.symm.trans hc')
    obtain ⟨raw, cv, hraw, _, hread, hbound, hids, rfl⟩ := setValue_eq_ok_iff.1 hperform
    obtain rfl : v = raw := Option.some.inj (hop.value.symm.trans hraw)
    have hstored := Node.sameValue_getAt hsame (Node.getAt_setAt_self _ _ _) hv
    exact readsAsIs_of_stores haccepts ⟨⟨cv, hread, hbound, rfl⟩, hids⟩ hstored
  · intro h
    obtain ⟨w, hw, ⟨cv, hread, hbound, rfl⟩, hids⟩ := exists_stores (e := e) haccepts h
    have hperform : e.perform data "set" path c op =
        .ok (data.setAt (Path.ofText path) (storedValue data path cv)) :=
      setValue_eq_ok_iff.2
        ⟨v, cv, hop.value, Node.gapAt?_eq_none_of_getAt hv, hread, hbound, hids, rfl⟩
    refine ⟨_, apply_singleton_eq_ok ?_ (hw.isValid_setAt hvalid hv),
      Node.sameValue_setAt hv hw.sameValue⟩
    exact change_eq_ok_of_names hop.toNames hsolid hclean hc hperform

/-- A widget with one number of at most ten. -/
def counter : Editor :=
  { controls := [{ panelId := "content", type := "field", path := "count", kind := .number,
                   max := some 10.0 }] }

def counted (n : Number) : Node := .object [("count", .number n)]

/-- The number one, stored as a fraction. -/
def one : Number := .float 1.0 rfl

def storeCount (n : Number) : Node :=
  .object [("op", .string "set"), ("path", .string "count"), ("value", .number n)]

/-- A whole number that is stored as a fraction is written back without one. -/
theorem the_count_can_be_written_back :
    IsValid (counted one) counter.controls ∧
      Sets (storeCount one) "count" (.number one) ∧
      ∃ next, counter.apply (counted one) [storeCount one] = .ok next ∧
        Node.SameValue next (counted one) := by
  have hvalid : IsValid (counted one) counter.controls := rfl
  have hop : Sets (storeCount one) "count" (.number one) := ⟨⟨rfl, rfl⟩, rfl⟩
  have hsolid : Text.isBlankText "count" = false := by decide
  have hclean : Path.hasProhibited (Text.split '.' "count") = false := by decide
  refine ⟨hvalid, hop,
    (a_value_can_be_written_back_iff hvalid hsolid hclean rfl rfl hop).2 ?_⟩
  refine readsAsIs_of_ne_string (fun _ => nofun) (fun _ => nofun) ?_ rfl
  rintro _ n hn
  rw [← Node.number.inj hn]
  exact Number.isExact_float _ _

/-- Not every value can be written back: a stored null is accepted, but no edit may store it. -/
theorem a_stored_null_cannot_be_written_back :
    ¬ ∀ (e : Editor) (data v op : Node) (path : String) (c : Control),
      IsValid data e.controls → Text.isBlankText path = false →
      Path.hasProhibited (Text.split '.' path) = false →
      Control.governing? e.controls path = some c →
      data.getAt (Path.ofText path) = some v → Sets op path v →
      ∃ next, e.apply data [op] = .ok next ∧ Node.SameValue next data := by
  intro hall
  obtain ⟨next, happly, _⟩ := hall freeForm (config .null) .null (storeConfig .null) "config" _
    rfl (by decide) (by decide) rfl rfl ⟨⟨rfl, rfl⟩, rfl⟩
  have hrefused : freeForm.apply (config .null) [storeConfig .null] =
      .error [⟨0, some "config", .coercion .required⟩] := rfl
  rw [hrefused] at happly
  cases happly

end WidgetSchema.Editor
