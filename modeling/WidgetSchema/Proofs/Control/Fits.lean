-- What it means that a tree fits a control, said along the tree: the check of the whole tree
-- finds nothing exactly when every value that the segments of the control reach is accepted.
import WidgetSchema.Control.Pattern
import WidgetSchema.Control.Validation
import WidgetSchema.Proofs.Node.Position
namespace WidgetSchema

/-! ## Patterns -/

namespace Pattern

theorem eq_of_acceptsSegment {pattern segment : String}
    (h : acceptsSegment pattern segment = true) (hw : Path.isWildcard pattern = false) :
    pattern = segment := by
  simpa [acceptsSegment, hw] using h

theorem acceptsSegment_self {s : String} (hw : Path.isWildcard s = false) :
    acceptsSegment s s = true := by
  simp [acceptsSegment, hw]

/-- A wildcard accepts every position. -/
theorem acceptsSegment_toString {pattern : String} (hw : Path.isWildcard pattern = true)
    (i : Nat) : acceptsSegment pattern (toString i) = true := by
  have hne : (toString i).toList.isEmpty = false := by simp
  have hdigits : (toString i).toList.all Text.isDecimalDigit = true :=
    List.all_eq_true.2 fun c hc =>
      isDecimalDigit_of_isAsciiDigit (isAsciiDigit_of_mem_toString hc)
  rw [acceptsSegment, if_pos hw, hne, hdigits]
  rfl

theorem acceptsSegment_empty {pattern : String} (h : pattern ≠ "") :
    acceptsSegment pattern "" = false := by
  by_cases hw : Path.isWildcard pattern <;> simp [acceptsSegment, hw, h]

/-- A pattern reads a written place by its segments, the empty text as the root. -/
theorem acceptsAll_of_accepts {pattern place : String}
    (h : accepts pattern place = true) :
    acceptsAll (Path.solidSegments pattern) (Path.ofText place) = true := by
  unfold accepts at h
  split at h
  · rename_i hs
    have hp : place = "" := by simpa using h
    rw [hs, hp]
    rfl
  · rename_i p ps hs
    have hp : place ≠ "" := by
      rintro rfl
      have hmem : p ∈ Path.solidSegments pattern := hs ▸ List.mem_cons_self
      have hne : p ≠ "" := by simpa using (List.mem_filter.1 hmem).2
      have hsplit : Text.split '.' "" = [""] := rfl
      rw [hsplit] at h
      simp [acceptsAll, acceptsSegment_empty hne] at h
    rw [hs]
    unfold Path.ofText
    rw [if_neg hp]
    exact h

end Pattern

namespace Control

/-- The segments of a control lead on from a value, and every value at their end is accepted.
A wildcard asks for an array, every other segment for an object. -/
def Fits (c : Control) : (segments : Path) → Option Node → Prop
  | [], v => c.placeFault? v = none
  | s :: rest, some (.array items) =>
    Path.isWildcard s = true ∧ ∀ x ∈ items, c.Fits rest (some x)
  | s :: rest, some (.object members) =>
    Path.isWildcard s = false ∧ c.Fits rest (Members.get? s members)
  | _ :: _, _ => False

/-! ## The check of the whole tree -/

theorem walk_eq_nil_iff (c : Control) (segments trail : Path) (v : Option Node) :
    c.walk segments trail v = [] ↔ c.Fits segments v := by
  induction segments generalizing trail v with
  | nil =>
    unfold walk Fits
    cases c.placeFault? v <;> simp
  | cons s rest ih =>
    unfold walk
    by_cases hs : Path.isWildcard s = true
    · rw [if_pos hs]
      rcases v with _ | t
      · simp [Fits]
      · cases t with
        | array items =>
          simp only [Option.bind_some, Node.array?, List.flatten_eq_nil_iff, List.mem_map,
            forall_exists_index, and_imp, Fits, hs, true_and]
          constructor
          · intro h x hx
            obtain ⟨i, hi⟩ := List.mem_iff_getElem?.1 hx
            exact (ih _ _).1 (h _ _ (List.mk_mem_zipIdx_iff_getElem?.2 hi) rfl)
          · rintro h _ ⟨x, i⟩ hx rfl
            exact (ih _ _).2 (h x (List.fst_mem_of_mem_zipIdx hx))
        | object members => simp [Node.array?, Fits, hs]
        | _ => simp [Node.array?, Fits]
    · rw [if_neg hs]
      rcases v with _ | t
      · simp [Fits]
      · cases t with
        | object members => simpa [Node.object?, Fits, hs] using ih _ _
        | array items => simp [Node.object?, Fits, hs]
        | _ => simp [Node.object?, Fits]

/-- A tree is valid when it fits every control and keeps the rules of typography. -/
theorem isValid_iff {data : Node} {controls : List Control} :
    IsValid data controls ↔
      (∀ c ∈ controls, c.Fits (Path.solidSegments c.path) (some data)) ∧
        Typography.violations data = [] := by
  unfold IsValid violations violationsIn
  rw [List.append_eq_nil_iff, List.flatMap_eq_nil_iff]
  simp only [walk_eq_nil_iff]

/-- A valid tree fits every control. -/
theorem fits_of_isValid {data : Node} {controls : List Control} (h : IsValid data controls)
    {c : Control} (hc : c ∈ controls) : c.Fits (Path.solidSegments c.path) (some data) :=
  (isValid_iff.1 h).1 c hc

/-! ## Descending along a place -/

/-- What fits a wildcard is an array, and what fits any other segment an object. -/
theorem kind_of_fits {c : Control} {s : String} {rest : Path} {t : Node}
    (h : c.Fits (s :: rest) (some t)) :
    t.isArray = Path.isWildcard s ∧ t.isObject = !Path.isWildcard s := by
  cases t with
  | array items => exact ⟨h.1.symm, by rw [h.1]; rfl⟩
  | object members => exact ⟨h.1.symm, by rw [h.1]; rfl⟩
  | _ => exact h.elim

theorem isWildcard_of_isArray {c : Control} {s : String} {rest : Path} {t : Node}
    (h : c.Fits (s :: rest) (some t)) (ht : t.isArray = true) : Path.isWildcard s = true :=
  (kind_of_fits h).1 ▸ ht

/-- Two values that fit one segment are both arrays or both objects. -/
theorem same_kind_of_fits {c : Control} {s : String} {rest : Path} {t u : Node}
    (ht : c.Fits (s :: rest) (some t)) (hu : c.Fits (s :: rest) (some u)) :
    (t.isArray = true ∧ u.isArray = true) ∨ (t.isObject = true ∧ u.isObject = true) := by
  obtain ⟨hta, hto⟩ := kind_of_fits ht
  obtain ⟨hua, huo⟩ := kind_of_fits hu
  cases hw : Path.isWildcard s with
  | true => exact Or.inl ⟨hta.trans hw, hua.trans hw⟩
  | false => exact Or.inr ⟨by rw [hto, hw]; rfl, by rw [huo, hw]; rfl⟩

/-- What fits goes on fitting one step further, along any item or along the member named. -/
theorem fits_child {c : Control} {s r : String} {rest : Path} {t x : Node}
    (h : c.Fits (s :: rest) (some t)) (hr : Path.isWildcard s = false → s = r)
    (hx : t.child? r = some x) : c.Fits rest (some x) := by
  cases t with
  | array items =>
    obtain ⟨i, _, hi⟩ := Option.bind_eq_some_iff.1 hx
    exact h.2 x (List.mem_of_getElem? hi)
  | object members =>
    have hget : Members.get? s members = some x := hr h.1 ▸ hx
    exact hget ▸ h.2
  | _ => exact h.elim

/-- The value at a place that the segments accept is accepted. -/
theorem placeFault?_of_fits {c : Control} {segments place : Path} {t v : Node}
    (h : c.Fits segments (some t)) (hp : Pattern.acceptsAll segments place = true)
    (hv : t.getAt place = some v) : c.placeFault? (some v) = none := by
  induction segments generalizing place t with
  | nil =>
    cases place with
    | nil =>
      have hvt : t = v := Option.some.inj hv
      exact hvt ▸ h
    | cons _ _ => simp [Pattern.acceptsAll] at hp
  | cons s rest ih =>
    cases place with
    | nil => simp [Pattern.acceptsAll] at hp
    | cons r place =>
      obtain ⟨hr, hrest⟩ := Bool.and_eq_true_iff.1 hp
      obtain ⟨x, hx, hv⟩ := Option.bind_eq_some_iff.1 hv
      exact ih (fits_child h (Pattern.eq_of_acceptsSegment hr) hx) hrest hv

end Control

end WidgetSchema
