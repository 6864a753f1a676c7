-- Which texts an overlay collects. The collector follows a pattern into the tree and names every
-- item of an array by its position, so what it finds at a place is what is read there, and what
-- can be read at a place of the pattern is found. Of the entries of overlapping patterns the first
-- stays, and writing an entry back writes what is there already.
import WidgetSchema.Overlay.Op
import WidgetSchema.Proofs.Node.Visit
import WidgetSchema.Proofs.Overlay.Outside
import WidgetSchema.Proofs.Overlay.Snapshot
namespace WidgetSchema

/-- The position of an item of a tree in memory can be written and read again. -/
theorem Node.Addressable.index?_toString {items : List Node} {x : Node} {i : Nat}
    (h : (array items).Addressable) (hx : items[i]? = some x) :
    Path.index? (toString i) = some i := by
  obtain ⟨hi, -⟩ := List.getElem?_eq_some_iff.1 hx
  exact Path.index?_toString (Nat.lt_of_lt_of_le hi (addressable_array_iff.1 h).1)

theorem Node.Addressable.child?_toString {items : List Node} {x : Node} {i : Nat}
    (h : (array items).Addressable) (hx : items[i]? = some x) :
    (array items).child? (toString i) = some x := by
  rw [Node.child?, h.index?_toString hx, Option.bind_some, hx]

namespace Overlay

variable {t : Node} {segments q : Path} {text : String} {allow : Allowlist} {e : AllowEntry}
  {d : TextEntry}

/-! ## Places of a pattern -/

/-- A place with the segments of a pattern, where a position of the array that is found there stands
for each star. -/
inductive Fills : (segments : Path) → Node → (place : Path) → Prop
  | root {t : Node} : Fills [] t []
  | position {rest : Path} {items : List Node} {i : Nat} {x : Node} {q : Path} :
      items[i]? = some x → Fills rest x q → Fills ("*" :: rest) (.array items) (toString i :: q)
  | segment {s : String} {rest : Path} {t x : Node} {q : Path} : s ≠ "*" →
      t.child? s = some x → Fills rest x q → Fills (s :: rest) t (s :: q)

/-- A text at a place of the pattern is reached. -/
theorem reached_of_fills (h : Fills segments t q) (ht : t.Addressable)
    (hclean : Path.hasProhibited segments = false) (htext : t.getAt q = some (.string text)) :
    Reached segments t q text := by
  induction h with
  | root =>
    obtain rfl := Option.some.inj htext
    exact .here
  | position hx _ ih =>
    rw [Path.hasProhibited, List.any_cons, Bool.or_eq_false_iff] at hclean
    rw [Node.getAt_cons, ht.child?_toString hx] at htext
    exact .item hx (ih (ht.child? (ht.child?_toString hx)) hclean.2 htext)
  | segment hs hx _ ih =>
    rw [Path.hasProhibited, List.any_cons, Bool.or_eq_false_iff] at hclean
    rw [Node.getAt_cons, hx] at htext
    exact .step hs hclean.1 hx (ih (ht.child? hx) hclean.2 htext)

/-- A text that is reached can be read at its place. -/
theorem Reached.getAt_eq (h : Reached segments t q text) (ht : t.Addressable) :
    t.getAt q = some (.string text) := by
  induction h with
  | here => rfl
  | item hx _ ih =>
    have hchild := ht.child?_toString hx
    rw [Node.getAt_cons, hchild]
    exact ih (ht.child? hchild)
  | step _ _ hx _ ih =>
    rw [Node.getAt_cons, hx]
    exact ih (ht.child? hx)

/-- The pattern allows the place of a text that is reached. -/
theorem Reached.allowsAll (h : Reached segments t q text) (ht : t.Addressable) :
    Allowlist.allowsAll segments q = true := by
  induction h with
  | here => rfl
  | item hx _ ih =>
    have hstar : Allowlist.allowsSegment "*" (toString _) = true :=
      Option.isSome_iff_exists.2 ⟨_, ht.index?_toString hx⟩
    exact Bool.and_eq_true_iff.2 ⟨hstar, ih (ht.child? (ht.child?_toString hx))⟩
  | step hs _ hx _ ih =>
    have hsame : Allowlist.allowsSegment _ _ = true := (if_neg hs).trans (beq_self_eq_true _)
    exact Bool.and_eq_true_iff.2 ⟨hsame, ih (ht.child? hx)⟩

/-! ## Every place once -/

theorem new_of_mem_distinct {seen : List String} {es : List TextEntry}
    (h : d ∈ distinct seen es) : d.path ≠ "" ∧ d.path ∉ seen := by
  induction es generalizing seen with
  | nil => cases h
  | cons first es ih =>
    unfold distinct at h
    split at h
    · exact ih h
    · rename_i hnew
      simp only [Bool.or_eq_true, decide_eq_true_eq, List.contains_iff_mem, not_or] at hnew
      rcases List.mem_cons.1 h with rfl | h
      · exact hnew
      · exact (ih h).imp_right fun hseen hmem => hseen (List.mem_cons_of_mem _ hmem)

theorem nodup_distinct (seen : List String) (es : List TextEntry) :
    ((distinct seen es).map TextEntry.path).Nodup := by
  induction es generalizing seen with
  | nil => exact List.nodup_nil
  | cons first es ih =>
    unfold distinct
    split
    · exact ih seen
    · refine List.nodup_cons.2 ⟨fun hmem => ?_, ih _⟩
      obtain ⟨d, hd, hpath⟩ := List.mem_map.1 hmem
      exact (new_of_mem_distinct hd).2 (hpath ▸ List.mem_cons_self)

theorem type_of_mem_entryTexts {withBlank : Bool} (h : d ∈ entryTexts t withBlank e) :
    e.type = d.type := by
  unfold entryTexts at h
  split at h
  · cases h
  · split at h
    · cases h
    · obtain ⟨_, _, rfl⟩ := List.mem_map.1 h
      rfl

/-- An entry comes from a pattern of its type that reaches its text. -/
theorem exists_of_mem_entries (h : d ∈ entries t allow true) :
    ∃ e ∈ allow, e.type = d.type ∧
      Reached (Allowlist.segments e.pattern) t (Path.ofText d.path) d.value := by
  obtain ⟨e, he, hd⟩ := List.mem_flatMap.1 (mem_of_mem_distinct h)
  have hreached := (reached_of_mem_entryTexts hd (new_of_mem_distinct h).1).2
  exact ⟨e, he, type_of_mem_entryTexts hd, hreached⟩

/-- The allowlist reads the place of a text that a pattern reaches as it stands. -/
theorem segments_of_reached {pattern place : String}
    (h : Reached (Allowlist.segments pattern) t (Path.ofText place) text) :
    Allowlist.segments place = Path.ofText place := by
  have hplain := forall_of_reached h isPlain_toString fun _ => isPlain_of_mem_segments
  exact segments_eq_ofText fun s hs => ⟨(hplain s hs).ne_empty, (hplain s hs).trimmed⟩

/-- What a pattern reaches is among the entries, if the pattern is not blank. -/
theorem exists_mem_entries {place : String} (he : e ∈ allow)
    (hne : Allowlist.segments e.pattern ≠ [])
    (hclean : Path.hasProhibited (Allowlist.segments e.pattern) = false)
    (h : Reached (Allowlist.segments e.pattern) t (Path.ofText place) text) :
    ∃ d ∈ entries t allow true, d.path = place := by
  have hplace : place ≠ "" := by
    rintro rfl
    exact hne (List.length_eq_zero_iff.1 (length_of_reached h).symm)
  have hpattern : e.pattern ≠ "" := by
    intro hempty
    rw [hempty] at hne
    exact hne (by decide)
  have hparts : Path.hasProhibited (Text.split '.' e.pattern) = false := by
    refine Bool.eq_false_iff.2 fun hfound => ?_
    obtain ⟨s, hs, hprohibited⟩ := List.any_eq_true.1 hfound
    have hmem := (mem_segments_of_isProhibited hs hprohibited).1
    exact Bool.eq_false_iff.1 hclean (List.any_eq_true.2 ⟨s, hmem, hprohibited⟩)
  have hentry := mem_entryTexts_of_reached hplace hpattern hparts h
  exact exists_mem_distinct (List.mem_flatMap.2 ⟨e, he, hentry⟩) hplace List.not_mem_nil

/-! ## Writing back -/

/-- The edit that stores the text of an entry at its place. -/
def setOp (d : TextEntry) : OverlayOp := ⟨"set", d.path, d.value⟩

theorem replayOne_of_getAt {o : OverlayOp}
    (h : t.getAt (Path.ofText o.path) = some (.string o.value)) : replayOne t o = t := by
  unfold replayOne
  rw [Node.gapAt?_eq_none_of_getAt h, Node.setAt_of_getAt h]
  rfl

/-- Edits that store what is there already change nothing. -/
theorem replay_of_getAt {ops : List OverlayOp}
    (h : ∀ o ∈ ops, t.getAt (Path.ofText o.path) = some (.string o.value)) :
    replay t ops = t := by
  have hrun : ∀ o ∈ ops.filter isReplayable, replayOne t o = t := fun o ho =>
    replayOne_of_getAt (h o (List.mem_filter.1 ho).1)
  unfold replay
  generalize ops.filter isReplayable = stored at hrun
  induction stored with
  | nil => rfl
  | cons o stored ih =>
    obtain ⟨ho, hstored⟩ := List.forall_mem_cons.1 hrun
    rw [List.foldl_cons, ho, ih hstored]

/-- The collected texts, blank ones with them, stand at places of their own. Each is the text that
is read at its place, and a pattern of its type allows the place. Every text at a place of a pattern
is collected, as long as the pattern has segments and none of them is prohibited. Storing all of
them again leaves the tree as it is. -/
theorem the_collected_texts_are_those_at_the_places_of_the_patterns (ht : t.Addressable)
    (allow : Allowlist) :
    ((entries t allow true).map TextEntry.path).Nodup ∧
    (∀ d ∈ entries t allow true,
      (∃ e ∈ allow, e.type = d.type ∧ Allowlist.matchesPattern d.path e.pattern = true) ∧
        t.getAt (Path.ofText d.path) = some (.string d.value)) ∧
    (∀ e ∈ allow, ∀ place text, Allowlist.segments e.pattern ≠ [] →
      Path.hasProhibited (Allowlist.segments e.pattern) = false →
      Fills (Allowlist.segments e.pattern) t (Path.ofText place) →
      t.getAt (Path.ofText place) = some (.string text) →
        ∃ d ∈ entries t allow true, d.path = place ∧ d.value = text) ∧
    replay t ((entries t allow true).map setOp) = t := by
  have hread : ∀ d ∈ entries t allow true,
      t.getAt (Path.ofText d.path) = some (.string d.value) := by
    intro d hd
    obtain ⟨_, _, _, hreached⟩ := exists_of_mem_entries hd
    exact hreached.getAt_eq ht
  refine ⟨nodup_distinct _ _, fun d hd => ⟨?_, hread d hd⟩, ?_, replay_of_getAt ?_⟩
  · obtain ⟨e, he, htype, hreached⟩ := exists_of_mem_entries hd
    refine ⟨e, he, htype, ?_⟩
    rw [Allowlist.matchesPattern, segments_of_reached hreached]
    exact hreached.allowsAll ht
  · intro e he place text hne hclean hfills htext
    obtain ⟨d, hd, rfl⟩ :=
      exists_mem_entries he hne hclean (reached_of_fills hfills ht hclean htext)
    have hvalue := (hread d hd).symm.trans htext
    exact ⟨d, hd, rfl, Node.string.inj (Option.some.inj hvalue)⟩
  · intro o ho
    obtain ⟨d, hd, rfl⟩ := List.mem_map.1 ho
    exact hread d hd

/-- All questions as plain texts, and the first of them as a rich text too. -/
def questionsAndFirst : Allowlist :=
  questions ++ [{ path := "faqs.0.question", type := .rich }]

/-- The first question is collected once, for the first of the patterns. -/
theorem the_question_is_collected_once :
    asked.Addressable ∧
      entries asked questionsAndFirst true = [⟨"faqs.0.question", .plain, "Why?"⟩] ∧
      replay asked ((entries asked questionsAndFirst true).map setOp) = asked := by
  have haddressable : asked.Addressable := by
    simp [asked, Node.Addressable, Node.AddressableItems, Node.AddressableMembers]
  have hentries : entries asked questionsAndFirst true = [⟨"faqs.0.question", .plain, "Why?"⟩] := by
    decide +kernel
  exact ⟨haddressable, hentries,
    (the_collected_texts_are_those_at_the_places_of_the_patterns haddressable _).2.2.2⟩

/-- A pattern without segments. -/
def blankPattern : AllowEntry := { path := "" }

/-- The pattern without segments leads to the root. A text at the root is not collected. -/
theorem a_text_at_the_root_is_not_collected :
    Path.hasProhibited (Allowlist.segments blankPattern.pattern) = false ∧
      Fills (Allowlist.segments blankPattern.pattern) (.string "x") (Path.ofText "") ∧
      (Node.string "x").getAt (Path.ofText "") = some (.string "x") ∧
      ¬ ∃ d ∈ entries (.string "x") [blankPattern] true, d.path = "" := by
  have hsegments : Allowlist.segments blankPattern.pattern = [] := by decide
  have hroot : Path.ofText "" = [] := if_pos rfl
  have hnone : entries (.string "x") [blankPattern] true = [] := by decide
  rw [hsegments, hroot, hnone]
  refine ⟨rfl, .root, rfl, ?_⟩
  rintro ⟨d, hd, -⟩
  exact List.not_mem_nil hd

end Overlay

end WidgetSchema
