-- What a snapshot shows. The collector follows the segments of a pattern through a tree, into
-- every item of an array at a star. All that it finds at one place is the text that is read there,
-- so a place is shown with its text as soon as one pattern of the list reaches it.
import WidgetSchema.Overlay.Snapshot
import WidgetSchema.Proofs.Node.Ascending
import WidgetSchema.Proofs.Node.Position
import WidgetSchema.Proofs.Text.Trim
namespace WidgetSchema

/-! ## Members -/

/-- Every name in a list of pairs is a name of its members. -/
theorem Members.has_ofList {α : Type} {key : String} {value : α} {pairs : List (String × α)}
    (h : (key, value) ∈ pairs) : has key (ofList pairs) = true := by
  suffices hrun : ∀ acc : Members α, has key acc = true ∨ (∃ v, (key, v) ∈ pairs) →
      has key (pairs.foldl (fun ms p => set p.1 p.2 ms) acc) = true from
    hrun [] (Or.inr ⟨value, h⟩)
  clear h
  induction pairs with
  | nil =>
    rintro acc (hacc | ⟨v, hv⟩)
    · exact hacc
    · cases hv
  | cons pair pairs ih =>
    obtain ⟨k, v⟩ := pair
    intro acc hacc
    refine ih (set k v acc) ?_
    by_cases hk : key = k
    · rw [hk]
      exact Or.inl (has_of_get? (get?_set k v acc))
    · rcases hacc with hacc | ⟨v', hv'⟩
      · rw [has, get?_set_ne hk]
        exact Or.inl hacc
      · exact Or.inr ⟨v', (List.mem_cons.1 hv').resolve_left fun heq => hk (Prod.mk.inj heq).1⟩

namespace Overlay

/-! ## The collector -/

/-- A text that the segments of a pattern reach in a tree, at the place where it stands. -/
inductive Reached : (segments : Path) → Node → (place : Path) → String → Prop
  | here {text : String} : Reached [] (.string text) [] text
  | item {rest : Path} {items : List Node} {i : Nat} {x : Node} {q : Path} {text : String} :
      items[i]? = some x → Reached rest x q text →
      Reached ("*" :: rest) (.array items) (toString i :: q) text
  | step {s : String} {rest : Path} {t x : Node} {q : Path} {text : String} : s ≠ "*" →
      Path.isProhibited s = false → t.child? s = some x → Reached rest x q text →
      Reached (s :: rest) t (s :: q) text

theorem mem_textsBelow_iff {segments trail : Path} {v : Option Node} {place text : String} :
    (place, text) ∈ textsBelow true segments trail v ↔
      ∃ t q, v = some t ∧ place = Path.text (trail ++ q) ∧ Reached segments t q text := by
  induction segments generalizing trail v with
  | nil =>
    constructor
    · intro h
      rcases v with _ | t
      · cases h
      · cases t with
        | string s =>
          obtain ⟨rfl, rfl⟩ := Prod.mk.inj (List.mem_singleton.1 h)
          exact ⟨_, [], rfl, by rw [List.append_nil], .here⟩
        | _ => cases h
    · rintro ⟨t, q, rfl, rfl, hreached⟩
      cases hreached
      rw [List.append_nil]
      exact List.mem_singleton.2 rfl
  | cons s rest ih =>
    unfold textsBelow
    by_cases hs : s = "*"
    · subst hs
      rw [if_neg (by decide), if_pos rfl]
      constructor
      · intro h
        rcases v with _ | t
        · cases h
        · cases t with
          | array items =>
            simp only [List.mem_flatten, List.mem_map, Prod.exists] at h
            obtain ⟨_, ⟨x, i, hx, rfl⟩, h⟩ := h
            obtain ⟨_, q, hx', rfl, hreached⟩ := ih.1 h
            obtain rfl := Option.some.inj hx'
            refine ⟨_, toString i :: q, rfl, by simp, .item ?_ hreached⟩
            exact List.mk_mem_zipIdx_iff_getElem?.1 hx
          | _ => cases h
      · rintro ⟨t, q, rfl, rfl, hreached⟩
        cases hreached with
        | step hne => exact absurd rfl hne
        | item hx hreached =>
          rename_i items i x q
          simp only [List.mem_flatten, List.mem_map, Prod.exists]
          refine ⟨_, ⟨x, i, List.mk_mem_zipIdx_iff_getElem?.2 hx, rfl⟩, ?_⟩
          exact ih.2 ⟨x, q, rfl, by simp, hreached⟩
    · by_cases hprohibited : Path.isProhibited s = true
      · rw [if_pos hprohibited]
        refine iff_of_false List.not_mem_nil ?_
        rintro ⟨t, q, _, _, hreached⟩
        cases hreached with
        | item => exact hs rfl
        | step _ hallowed =>
          rw [hprohibited] at hallowed
          cases hallowed
      · rw [if_neg hprohibited, if_neg hs]
        constructor
        · intro h
          rcases v with _ | t
          · cases h
          · obtain ⟨x, q, hx, rfl, hreached⟩ := ih.1 h
            exact ⟨t, s :: q, rfl, by simp,
              .step hs (Bool.eq_false_iff.2 hprohibited) hx hreached⟩
        · rintro ⟨t, q, rfl, rfl, hreached⟩
          cases hreached with
          | item => exact absurd rfl hs
          | step _ _ hx hreached =>
            exact ih.2 ⟨_, _, hx, by simp, hreached⟩

/-- Where a place can be read, the text reached there is the one that is read. -/
theorem getAt_of_reached {segments q : Path} {t v : Node} {text : String}
    (h : Reached segments t q text) (hv : t.getAt q = some v) : v = .string text := by
  induction h with
  | here => exact (Option.some.inj hv).symm
  | item hx _ ih =>
    obtain ⟨y, hy, hv⟩ := Option.bind_eq_some_iff.1 hv
    obtain ⟨j, hj, hyj⟩ := Node.getElem?_of_child? hy
    rw [← Path.eq_of_index?_toString hj, hx] at hyj
    exact ih (Option.some.inj hyj ▸ hv)
  | step _ _ hx _ ih =>
    obtain ⟨y, hy, hv⟩ := Option.bind_eq_some_iff.1 hv
    rw [hx] at hy
    exact ih (Option.some.inj hy ▸ hv)

theorem length_of_reached {segments q : Path} {t : Node} {text : String}
    (h : Reached segments t q text) : q.length = segments.length := by
  induction h with
  | here => rfl
  | item _ _ ih => exact congrArg (· + 1) ih
  | step _ _ _ _ ih => exact congrArg (· + 1) ih

/-- The place of a text that was reached has the segments of the pattern, with positions for the
stars. -/
theorem forall_of_reached {P : String → Prop} {segments q : Path} {t : Node} {text : String}
    (h : Reached segments t q text) (hposition : ∀ i : Nat, P (toString i))
    (hsegments : ∀ s ∈ segments, P s) : ∀ s ∈ q, P s := by
  induction h with
  | here => exact hsegments
  | item _ _ ih =>
    exact List.forall_mem_cons.2 ⟨hposition _, ih (List.forall_mem_cons.1 hsegments).2⟩
  | step _ _ _ _ ih =>
    obtain ⟨hs, hrest⟩ := List.forall_mem_cons.1 hsegments
    exact List.forall_mem_cons.2 ⟨hs, ih hrest⟩

/-! ## The segments of a pattern -/

/-- A segment as a pattern has it: not empty, without blank ends and without dots. -/
structure IsPlain (s : String) : Prop where
  ne_empty : s ≠ ""
  trimmed : Text.trim s = s
  dotless : '.' ∉ s.toList

theorem isPlain_toString (i : Nat) : IsPlain (toString i) where
  ne_empty := Nat.repr_ne_empty
  trimmed := Path.trim_toString i
  dotless := notMem_toString rfl i

theorem isPlain_of_mem_segments {pattern s : String} (h : s ∈ Allowlist.segments pattern) :
    IsPlain s := by
  obtain ⟨hs, hne⟩ := List.mem_filter.1 h
  obtain ⟨part, hpart, rfl⟩ := List.mem_map.1 hs
  refine ⟨of_decide_eq_true hne, Text.trim_trim part, fun hdot => ?_⟩
  refine Text.notMem_of_mem_split hpart ?_
  rw [Text.trim, String.toList_ofList] at hdot
  exact Text.mem_of_mem_trimChars hdot

/-- Where no segment is empty or has blank ends, the allowlist reads a place as it stands. -/
theorem segments_eq_ofText {place : String}
    (h : ∀ s ∈ Path.ofText place, s ≠ "" ∧ Text.trim s = s) :
    Allowlist.segments place = Path.ofText place := by
  by_cases hne : place = ""
  · subst hne
    decide
  · have hsplit : Path.ofText place = Text.split '.' place := if_neg hne
    rw [Allowlist.segments, ← hsplit,
      (List.map_congr_left fun s hs => (h s hs).2).trans (List.map_id' _)]
    exact List.filter_eq_self.2 fun s hs => decide_eq_true (h s hs).1

/-- A prohibited name among the parts of a pattern is one of its segments. -/
theorem mem_segments_of_isProhibited {pattern s : String} (hs : s ∈ Text.split '.' pattern)
    (h : Path.isProhibited s = true) : s ∈ Allowlist.segments pattern ∧ s ≠ "*" := by
  have hsolid : ∀ r ∈ Path.prohibitedNames, Text.trim r = r ∧ r ≠ "" ∧ r ≠ "*" := by decide
  obtain ⟨htrim, hne, hstar⟩ := hsolid s (List.contains_iff_mem.1 h)
  exact ⟨List.mem_filter.2 ⟨List.mem_map.2 ⟨s, hs, htrim⟩, decide_eq_true hne⟩, hstar⟩

/-! ## The snapshot -/

theorem mem_of_mem_distinct {seen : List String} {es : List TextEntry} {e : TextEntry}
    (h : e ∈ distinct seen es) : e ∈ es := by
  induction es generalizing seen with
  | nil => cases h
  | cons d es ih =>
    unfold distinct at h
    split at h
    · exact List.mem_cons_of_mem d (ih h)
    · rcases List.mem_cons.1 h with rfl | h
      · exact List.mem_cons_self
      · exact List.mem_cons_of_mem d (ih h)

/-- Every place that was not seen before keeps one entry. -/
theorem exists_mem_distinct {seen : List String} {es : List TextEntry} {e : TextEntry}
    (h : e ∈ es) (hne : e.path ≠ "") (hnew : e.path ∉ seen) :
    ∃ d ∈ distinct seen es, d.path = e.path := by
  induction es generalizing seen with
  | nil => cases h
  | cons d es ih =>
    unfold distinct
    split
    · rename_i hdropped
      refine ih ((List.mem_cons.1 h).resolve_left ?_) hnew
      rintro rfl
      simp only [Bool.or_eq_true, decide_eq_true_eq, List.contains_iff_mem] at hdropped
      exact hdropped.elim hne hnew
    · by_cases hde : d.path = e.path
      · exact ⟨d, List.mem_cons_self, hde⟩
      · have hlater : e ∈ es := (List.mem_cons.1 h).resolve_left fun heq => hde (heq ▸ rfl)
        have hstill : e.path ∉ d.path :: seen := by
          rw [List.mem_cons, not_or]
          exact ⟨fun heq => hde heq.symm, hnew⟩
        obtain ⟨f, hf, hpath⟩ := ih hlater hstill
        exact ⟨f, List.mem_cons_of_mem d hf, hpath⟩

/-- An entry stands at the place that its pattern reached. -/
theorem reached_of_mem_entryTexts {t : Node} {e : AllowEntry} {d : TextEntry}
    (h : d ∈ entryTexts t true e) (hne : d.path ≠ "") :
    e.pattern ≠ "" ∧ Reached (Allowlist.segments e.pattern) t (Path.ofText d.path) d.value := by
  unfold entryTexts at h
  split at h
  · cases h
  · rename_i hpattern
    simp only [Bool.or_eq_true, decide_eq_true_eq, not_or] at hpattern
    split at h
    · cases h
    · rename_i s rest hsegments
      obtain ⟨⟨place, text⟩, hmem, rfl⟩ := List.mem_map.1 h
      obtain ⟨_, q, ht, rfl, hreached⟩ := mem_textsBelow_iff.1 hmem
      obtain rfl := Option.some.inj ht
      rw [← hsegments] at hreached
      rw [List.nil_append] at hne ⊢
      have hplain := forall_of_reached hreached isPlain_toString fun _ => isPlain_of_mem_segments
      rw [Path.ofText_text hne fun r hr => (hplain r hr).dotless]
      exact ⟨hpattern.1, hreached⟩

theorem mem_entryTexts_of_reached {t : Node} {e : AllowEntry} {place text : String}
    (hne : place ≠ "") (hpattern : e.pattern ≠ "")
    (hallowed : Path.hasProhibited (Text.split '.' e.pattern) = false)
    (h : Reached (Allowlist.segments e.pattern) t (Path.ofText place) text) :
    ⟨place, e.type, text⟩ ∈ entryTexts t true e := by
  unfold entryTexts
  rw [if_neg (by simp [hpattern, hallowed])]
  have hplace := Path.text_ofText place
  split
  · rename_i hsegments
    have hlength := length_of_reached h
    rw [hsegments, List.length_nil, List.length_eq_zero_iff] at hlength
    rw [hlength] at hplace
    exact absurd hplace.symm hne
  · rename_i s rest hsegments
    refine List.mem_map.2 ⟨(place, text), mem_textsBelow_iff.2 ⟨t, Path.ofText place, rfl, ?_, ?_⟩,
      rfl⟩
    · rw [List.nil_append, hplace]
    · exact hsegments ▸ h

/-- The snapshot has the text of a place that some pattern of the list reaches. -/
theorem get?_snapshot_iff {t : Node} {allow : Allowlist} {place text : String} (hne : place ≠ "")
    (ht : t.getAt (Path.ofText place) = some (.string text)) :
    Members.get? place (snapshot t allow) = some text ↔
      ∃ e ∈ allow, ∃ d ∈ entryTexts t true e, d.path = place := by
  constructor
  · intro h
    obtain ⟨d, hd, hpair⟩ := List.mem_map.1 (Members.mem_of_mem_ofList (Members.mem_of_get? h))
    obtain ⟨e, he, hmem⟩ := List.mem_flatMap.1 (mem_of_mem_distinct hd)
    exact ⟨e, he, d, hmem, (Prod.mk.inj hpair).1⟩
  · rintro ⟨e, he, d, hd, rfl⟩
    -- All entries at the place hold what is read there, so it does not matter which one is kept.
    have hvalue : ∀ f ∈ entries t allow true, f.path = d.path → f.value = text := by
      intro f hf hpath
      obtain ⟨e', _, hmem⟩ := List.mem_flatMap.1 (mem_of_mem_distinct hf)
      have hreached := (reached_of_mem_entryTexts hmem (hpath ▸ hne)).2
      rw [hpath] at hreached
      exact (Node.string.inj (getAt_of_reached hreached ht)).symm
    obtain ⟨f, hf, hpath⟩ := exists_mem_distinct (List.mem_flatMap.2 ⟨e, he, hd⟩) hne
      List.not_mem_nil
    have hpair : (d.path, f.value) ∈ (entries t allow true).map fun e => (e.path, e.value) :=
      List.mem_map.2 ⟨f, hf, hpath ▸ rfl⟩
    obtain ⟨v, hv⟩ := Option.isSome_iff_exists.1 (Members.has_ofList hpair)
    obtain ⟨g, hg, hgpair⟩ := List.mem_map.1 (Members.mem_of_mem_ofList (Members.mem_of_get? hv))
    obtain ⟨hgpath, hgvalue⟩ := Prod.mk.inj hgpair
    rw [snapshot, hv, ← hgvalue, hvalue g hg hgpath]

end Overlay

end WidgetSchema
