-- The strict and the lenient way to put an overlay on a tree. Where the strict one goes through,
-- the filter keeps every edit, with its place in the normal form that the strict way checks and
-- writes to; and both ask the same tree for the range of positions. So each edit has one effect
-- in both ways, and the trees stay the same from step to step.
import WidgetSchema.Proofs.Overlay.Outside
import WidgetSchema.Proofs.Text.Split
namespace WidgetSchema.Overlay

variable {allow : Allowlist} {o : OverlayOp} {t next : Node}

/-! ## Allowed places -/

/-- Every pattern of the list has a segment that is not blank. -/
def HasSolidPatterns (allow : Allowlist) : Prop :=
  ∀ e ∈ allow, Allowlist.segments e.pattern ≠ []

instance (allow : Allowlist) : Decidable (HasSolidPatterns allow) :=
  inferInstanceAs (Decidable (∀ e ∈ allow, Allowlist.segments e.pattern ≠ []))

/-- A blank place has no segments that a pattern could allow. -/
theorem compared_of_isBlankText {p : String} (h : Text.isBlankText p = true) :
    Allowlist.compared (Text.split '.' p) = [] := by
  have hdot : '.' ∉ p.toList := fun hmem => absurd (List.all_eq_true.1 h '.' hmem) (by decide)
  have htrim : Text.trim p = "" := congrArg String.ofList (Text.trimChars_eq_nil.2 h)
  rw [Text.split_of_notMem hdot, Allowlist.compared_cons, if_pos htrim]
  rfl

theorem isBlankText_of_allows {p : String} (hallow : HasSolidPatterns allow)
    (h : allow.allows p = true) : Text.isBlankText p = false := by
  obtain ⟨e, he, _, hall⟩ := Allowlist.allows_iff.1 h
  refine Bool.eq_false_iff.2 fun hblank => hallow e he ?_
  rw [compared_of_isBlankText hblank] at hall
  exact List.eq_nil_of_length_eq_zero (Allowlist.length_of_allowsAll hall)

theorem allowedPath?_eq_some_iff {path : String} :
    allowedPath? allow o = some path ↔ path = normalPath o.path ∧ path ≠ "" ∧
      isProhibited path = false ∧ allow.allows path = true := by
  unfold allowedPath?
  by_cases hne : normalPath o.path = ""
  · simp only [hne, decide_true, Bool.true_or, if_true, reduceCtorEq, false_iff]
    rintro ⟨rfl, h, _⟩
    exact h rfl
  · by_cases hx : isProhibited (normalPath o.path) = true
    · simp only [hne, hx, decide_false, Bool.false_or, Bool.true_or, if_true, reduceCtorEq,
        false_iff]
      rintro ⟨rfl, _, h, _⟩
      rw [hx] at h
      cases h
    · by_cases ha : allow.allows (normalPath o.path) = true
      · simp only [hne, hx, ha, decide_false, Bool.not_true, Bool.or_false, Bool.false_eq_true,
          if_false, Option.some.injEq]
        constructor
        · rintro rfl
          exact ⟨rfl, hne, Bool.eq_false_iff.2 hx, ha⟩
        · exact fun h => h.1.symm
      · simp only [hne, hx, ha, decide_false, Bool.not_false, Bool.or_true, if_true, reduceCtorEq,
          false_iff]
        rintro ⟨rfl, _, _, h⟩
        exact ha h

/-! ## Single edits -/

/-- An edit that the strict way accepts is kept by the filter, and its replay is the same write. -/
theorem replayOne_of_change (hallow : HasSolidPatterns allow)
    (h : change allow t o.toNode = .ok next) :
    ∃ path, allowedPath? allow o = some path ∧ isReplayable { o with path } = true ∧
      replayOne t { o with path } = next := by
  obtain ⟨value, _, hset, hne, hallowed, hallows, hvalue, hgap, rfl⟩ := change_eq_ok_iff.1 h
  rw [place_toNode] at hne hallowed hallows hgap ⊢
  have hop : o.op = "set" := by
    simpa [OverlayOp.toNode, Node.member?, Node.object?, Members.get?, Node.string?] using hset
  have htext : o.value = value := by
    simpa [OverlayOp.toNode, Node.member?, Node.object?, Members.get?, Node.string?] using hvalue
  have hsolid := isBlankText_of_allows hallow hallows
  refine ⟨_, allowedPath?_eq_some_iff.2 ⟨rfl, hne, hallowed, hallows⟩, ?_, ?_⟩
  · simp [isReplayable, hop, hsolid, hallowed]
  · simp [replayOne, hgap, htext]

/-! ## Lists of edits -/

theorem refused_cons {path : String} (h : allowedPath? allow o = some path)
    (ops : List OverlayOp) : refused allow (o :: ops) = refused allow ops := by
  rw [refused, List.filter_cons_of_neg (by simp [h])]
  rfl

theorem replay_permitted_cons {path : String} (h : allowedPath? allow o = some path)
    (hreplayable : isReplayable { o with path } = true) (t : Node) (ops : List OverlayOp) :
    replay t (permitted allow (o :: ops)) =
      replay (replayOne t { o with path }) (permitted allow ops) := by
  unfold permitted replay
  rw [List.filterMap_cons_some (b := { o with path }) (by rw [h]; rfl),
    List.filter_cons_of_pos hreplayable, List.foldl_cons]

theorem replay_of_applyFrom (hallow : HasSolidPatterns allow) {index : Nat}
    {ops : List OverlayOp} (h : applyFrom allow index t (ops.map OverlayOp.toNode) = .ok next) :
    refused allow ops = [] ∧ replay t (permitted allow ops) = next := by
  induction ops generalizing index t with
  | nil => exact ⟨rfl, Except.ok.inj h⟩
  | cons o ops ih =>
    obtain ⟨u, hchange, hrest⟩ := applyFrom_cons_eq_ok_iff.1 h
    obtain ⟨path, hpath, hreplayable, rfl⟩ := replayOne_of_change hallow hchange
    rw [refused_cons hpath, replay_permitted_cons hpath hreplayable]
    exact ih hrest

/-- Where an overlay is accepted as a whole, the filter rejects none of its edits, and replaying
what the filter gives makes the same tree. -/
theorem an_accepted_overlay_is_replayed_alike (hallow : HasSolidPatterns allow) {base : Node}
    {ops : List OverlayOp} (h : apply allow base (ops.map OverlayOp.toNode) = .ok next) :
    refused allow ops = [] ∧ replay base (permitted allow ops) = next :=
  replay_of_applyFrom hallow h

/-! ## Questions that make room for each other -/

/-- Two questions behind the one that is there. The second one is in range only once the first
has been written. -/
def addedQuestions : List OverlayOp :=
  [⟨"set", "faqs.1.question", "How?"⟩, ⟨"set", ".faqs..2.question", "When?"⟩]

def grown : Node :=
  .object [("faqs", .array [
    .object [("id", .string "a"), ("question", .string "Why?")],
    .object [("question", .string "How?")],
    .object [("question", .string "When?")]])]

theorem apply_addedQuestions :
    apply questions asked (addedQuestions.map OverlayOp.toNode) = .ok grown := by
  have hfirst : change questions asked (OverlayOp.toNode ⟨"set", "faqs.1.question", "How?"⟩) =
      .ok (asked.setAt (Path.ofText "faqs.1.question") (.string "How?")) := by
    refine change_eq_ok_iff.2 ⟨"How?", rfl, rfl, ?_⟩
    rw [place_toNode, normalPath_of_not_mem (by decide)]
    exact ⟨by decide, rfl, rfl, rfl, rfl, rfl⟩
  have hsecond : change questions (asked.setAt (Path.ofText "faqs.1.question") (.string "How?"))
      (OverlayOp.toNode ⟨"set", ".faqs..2.question", "When?"⟩) = .ok grown := by
    refine change_eq_ok_iff.2 ⟨"When?", rfl, rfl, ?_⟩
    rw [place_toNode, normalPath_of_not_mem (by decide)]
    exact ⟨by decide, rfl, rfl, rfl, rfl, rfl⟩
  exact applyFrom_cons_eq_ok_iff.2 ⟨_, hfirst, applyFrom_cons_eq_ok_iff.2 ⟨_, hsecond, rfl⟩⟩

theorem added_questions_are_replayed_alike :
    HasSolidPatterns questions ∧
      apply questions asked (addedQuestions.map OverlayOp.toNode) = .ok grown ∧
      refused questions addedQuestions = [] ∧
      replay asked (permitted questions addedQuestions) = grown := by
  have hsolid : HasSolidPatterns questions := by decide
  exact ⟨hsolid, apply_addedQuestions,
    an_accepted_overlay_is_replayed_alike hsolid apply_addedQuestions⟩

end WidgetSchema.Overlay
