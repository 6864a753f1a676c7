-- What the rules of a widget promise once they are read. Their keys are safe, so no key has a
-- dot in it and the written path of a rule has just the segments that were checked. The default
-- of a rule is of the type that the rule asks for.
import WidgetSchema.Normalization.Rules
import WidgetSchema.Proofs.Checked
import WidgetSchema.Proofs.Text.Split
namespace WidgetSchema

namespace Normalization

/-! ## Keys -/

theorem ne_empty_of_isSafeKey {key : String} (h : isSafeKey key = true) : key ≠ "" := by
  rintro rfl
  revert h
  decide

theorem dot_notMem_of_isSafeKey {key : String} (h : isSafeKey key = true) : '.' ∉ key.toList := by
  intro hdot
  simp only [isSafeKey, Bool.and_eq_true, List.all_eq_true] at h
  exact absurd (h.1.2 '.' hdot) (by decide)

/-- A segment is its key, with brackets where it stands for items. -/
theorem toList_segment (segment : String) :
    segment.toList = (segmentKey segment).1.toList ++
      if (segmentKey segment).2 then ['[', ']'] else [] := by
  unfold segmentKey
  split
  · rename_i key hkey
    rw [if_pos rfl, String.toList_ofList, ← List.reverse_reverse segment.toList, hkey]
    simp
  · simp

theorem segmentKey_of_not_items {segment : String} (h : (segmentKey segment).2 = false) :
    (segmentKey segment).1 = segment := by
  have htext := toList_segment segment
  rw [h, if_neg Bool.false_ne_true, List.append_nil] at htext
  exact (String.toList_inj.1 htext).symm

theorem dot_notMem_segment {segment : String} (h : isSafeKey (segmentKey segment).1 = true) :
    '.' ∉ segment.toList := by
  rw [toList_segment, List.mem_append, not_or]
  refine ⟨dot_notMem_of_isSafeKey h, ?_⟩
  split <;> decide

/-! ## Paths -/

/-- The segments of the path of a rule. Where it may not end in items, the last one is a key. -/
structure IsWay (mayEndInItems : Bool) (segments : List String) : Prop where
  ne_nil : segments ≠ []
  safe : ∀ s ∈ segments, isSafeKey (segmentKey s).1 = true
  last : mayEndInItems = false → ∀ s ∈ segments.getLast?, (segmentKey s).2 = false

theorem checkSegment_eq_ok {path s s' : String} {mayEndInItems isLast : Bool}
    (h : checkSegment path mayEndInItems isLast s = .ok s') :
    s' = s ∧ isSafeKey (segmentKey s).1 = true ∧
      (mayEndInItems = false → isLast = true → (segmentKey s).2 = false) := by
  simp only [checkSegment] at h
  split at h
  · cases h
  · rename_i hsafe
    split at h
    · cases h
    · rename_i hlast
      simp only [Bool.not_eq_true, Bool.not_eq_false'] at hsafe
      refine ⟨(Except.ok.inj h).symm, hsafe, fun hmay hend => ?_⟩
      simpa [hmay, hend] using hlast

theorem checkSegments_eq_ok {path : String} {mayEndInItems : Bool} {segments segments' : List String}
    (h : checkSegments path mayEndInItems segments = .ok segments') :
    segments' = segments ∧ (segments ≠ [] → IsWay mayEndInItems segments) := by
  induction segments generalizing segments' with
  | nil => exact ⟨(Except.ok.inj h).symm, fun hne => absurd rfl hne⟩
  | cons s rest ih =>
    rw [checkSegments] at h
    obtain ⟨s', hs, h⟩ := bind_eq_ok_iff.1 h
    obtain ⟨rest', hrest, h⟩ := bind_eq_ok_iff.1 h
    obtain ⟨hs', hsafe, hlast⟩ := checkSegment_eq_ok hs
    obtain ⟨hrest', hway⟩ := ih hrest
    have hsegments : s' :: rest' = segments' := Except.ok.inj h
    rw [hs', hrest'] at hsegments
    refine ⟨hsegments.symm, fun _ => ⟨List.cons_ne_nil _ _, ?_, ?_⟩⟩
    · intro x hx
      rcases List.mem_cons.1 hx with rfl | hx
      · exact hsafe
      · exact (hway (List.ne_nil_of_mem hx)).safe x hx
    · intro hmay x hx
      cases rest with
      | nil =>
        obtain rfl : _ = x := Option.some.inj hx
        exact hlast hmay rfl
      | cons r rest =>
        rw [List.getLast?_cons_cons] at hx
        exact (hway (List.cons_ne_nil _ _)).last hmay x hx

/-- A path that is read has the segments that were checked. -/
theorem isWay_of_readPath {path p : String} {mayEndInItems : Bool}
    (h : readPath path mayEndInItems = .ok p) : IsWay mayEndInItems (Text.split '.' p) := by
  unfold readPath at h
  simp only [bind_eq_ok_iff, unless_throw_eq_ok_iff] at h
  obtain ⟨-, -, segments, hcheck, hp⟩ := h
  obtain ⟨hsegments, hway⟩ := checkSegments_eq_ok hcheck
  have hne : (Text.split '.' (Text.trim path)).map Text.trim ≠ [] := by
    simpa using Text.split_ne_nil '.' (Text.trim path)
  have hp : Path.text segments = p := Except.ok.inj hp
  have hdots : ∀ s ∈ (Text.split '.' (Text.trim path)).map Text.trim, '.' ∉ s.toList := fun s hs =>
    dot_notMem_segment ((hway hne).safe s hs)
  rw [← hp, hsegments]
  exact (Text.split_join hne hdots).symm ▸ hway hne

/-! ## Rules -/

theorem orElse_eq_ok {α : Type} {e : NormalizationError} {o : Option α} {a : α}
    (h : orElse e o = .ok a) : o = some a := by
  cases o with
  | none => cases h
  | some b => exact congrArg some (Except.ok.inj h)

theorem exists_read_of_readAll {α : Type} {read : Nat → Node → Except NormalizationError α}
    {index : Nat} {xs : List Node} {as : List α} (h : readAll read index xs = .ok as) :
    ∀ a ∈ as, ∃ i x, read i x = .ok a := by
  induction xs generalizing index as with
  | nil =>
    obtain rfl : [] = as := Except.ok.inj h
    exact fun a ha => (List.not_mem_nil ha).elim
  | cons x xs ih =>
    rw [readAll] at h
    obtain ⟨b, hb, h⟩ := bind_eq_ok_iff.1 h
    obtain ⟨bs, hbs, h⟩ := bind_eq_ok_iff.1 h
    obtain rfl : b :: bs = as := Except.ok.inj h
    intro a ha
    rcases List.mem_cons.1 ha with rfl | ha
    · exact ⟨index, x, hb⟩
    · exact ih hbs a ha

end Normalization

/-- A rule for ids as it comes from reading. -/
structure IdRule.IsSound (r : IdRule) : Prop where
  path : Normalization.IsWay true (Text.split '.' r.arrayPath)
  key : Normalization.isSafeKey r.idKey = true

/-- A rule for types as it comes from reading. -/
structure CoerceRule.IsSound (r : CoerceRule) : Prop where
  path : Normalization.IsWay false (Text.split '.' r.path)
  default : ∀ v ∈ r.default, r.type.accepts v = true

namespace Normalization

structure IsSound (n : Normalization) : Prop where
  idRules : ∀ r ∈ n.idRules, r.IsSound
  coerceRules : ∀ r ∈ n.coerceRules, r.IsSound

theorem isSound_of_readIdRule {index : Nat} {rule : Node} {r : IdRule}
    (h : readIdRule index rule = .ok r) : r.IsSound := by
  unfold readIdRule at h
  simp only [bind_eq_ok_iff, unless_throw_eq_ok_iff] at h
  obtain ⟨-, path, -, arrayPath, hpath, idKey, hkey, -, h⟩ := h
  obtain rfl := Except.ok.inj h
  exact ⟨isWay_of_readPath hpath, (Option.filter_eq_some_iff.1 (orElse_eq_ok hkey)).2⟩

theorem isSound_of_readCoerceRule {index : Nat} {rule : Node} {r : CoerceRule}
    (h : readCoerceRule index rule = .ok r) : r.IsSound := by
  unfold readCoerceRule at h
  simp only [bind_eq_ok_iff, unless_throw_eq_ok_iff] at h
  obtain ⟨-, _, -, path, hpath, type, -, hdefault, h⟩ := h
  obtain rfl := Except.ok.inj h
  refine ⟨isWay_of_readPath hpath, fun v hv => ?_⟩
  have hv : rule.member? "default" = some v := hv
  simpa [hv] using hdefault

/-- Rules that are read are sound. -/
theorem isSound_of_read {raw : Node} {n : Normalization} (h : read raw = .ok (some n)) :
    n.IsSound := by
  unfold read at h
  by_cases hnull : raw.isNull = true
  · rw [if_pos hnull] at h
    cases h
  · rw [if_neg hnull] at h
    simp only [bind_eq_ok_iff, unless_throw_eq_ok_iff] at h
    obtain ⟨-, _, -, idRules, hid, _, -, coerceRules, hcoerce, h⟩ := h
    split at h
    · cases h
    · obtain rfl := Option.some.inj (Except.ok.inj h)
      refine ⟨fun r hr => ?_, fun r hr => ?_⟩
      · obtain ⟨i, x, hx⟩ := exists_read_of_readAll hid r hr
        exact isSound_of_readIdRule hx
      · obtain ⟨i, x, hx⟩ := exists_read_of_readAll hcoerce r hr
        exact isSound_of_readCoerceRule hx

end Normalization

end WidgetSchema
