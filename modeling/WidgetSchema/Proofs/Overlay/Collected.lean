-- What is collected of what an overlay wrote. A star of the allowlist is read in three ways: the
-- permission asks for a position, a write makes an object where nothing is, and the collector
-- goes through the items of an array. All writes are texts and make no arrays, so the three
-- agree on a place exactly where the tree has had its arrays from the start.
import WidgetSchema.Proofs.Node.Spared
import WidgetSchema.Proofs.Overlay.Outside
import WidgetSchema.Proofs.Overlay.Snapshot
namespace WidgetSchema.Overlay

open WidgetSchema.Path (Comparable)

/-! ## Stars and arrays -/

/-- Every star of a pattern stands at an array of the tree, against a position without leading
zeros. -/
def StarsAtArrays : Node → (segments place : Path) → Prop
  | t, σ :: rest, s :: q =>
    (σ = "*" → t.isArray = true ∧ ∃ i : Nat, s = toString i) ∧
      StarsAtArrays ((t.child? s).getD .null) rest q
  | _, _, _ => True

/-- A star that stands at an array has it after every write that spares the way, and had it
before. -/
theorem starsAtArrays_setAt {t : Node} {w p segments : Path} (h : t.Spares w p)
    (hgap : t.gapAt? w = none) (hallows : Allowlist.allowsAll segments p = true) (v : Node) :
    StarsAtArrays (t.setAt w v) segments p ↔ StarsAtArrays t segments p := by
  induction w generalizing t p segments with
  | nil =>
    obtain rfl := h.root_eq
    cases segments with
    | nil => exact Iff.rfl
    | cons σ rest => simp [Allowlist.allowsAll] at hallows
  | cons u w ih =>
    cases p with
    | nil => exact h.not_root.elim
    | cons s p =>
      cases segments with
      | nil => exact Iff.rfl
      | cons σ rest =>
        obtain ⟨hσ, hrest⟩ := Bool.and_eq_true_iff.1 hallows
        have hhere : (σ = "*" → (t.setAt (u :: w) v).isArray = true ∧ ∃ i : Nat, s = toString i) ↔
            (σ = "*" → t.isArray = true ∧ ∃ i : Nat, s = toString i) := by
          refine imp_congr_right fun hstar => ?_
          rw [Allowlist.allowsSegment, if_pos hstar] at hσ
          rw [h.isArray_setAt hσ v]
        unfold StarsAtArrays
        refine and_congr hhere ?_
        rcases h.step hgap v with hchild | ⟨hchild, hbelow, hgapBelow⟩
        · rw [hchild]
        · rw [hchild, Option.getD_some]
          exact ih hbelow hgapBelow hrest

/-- Of the texts of a tree, a pattern reaches those at the places that it allows with an array at
every star. -/
theorem reached_iff {segments p : Path} {t : Node} {text : String}
    (hp : t.getAt p = some (.string text)) (hallowed : Path.hasProhibited p = false) :
    Reached segments t p text ↔
      Allowlist.allowsAll segments p = true ∧ StarsAtArrays t segments p := by
  induction segments generalizing t p with
  | nil =>
    cases p with
    | nil =>
      obtain rfl : t = .string text := Option.some.inj hp
      exact iff_of_true .here ⟨rfl, trivial⟩
    | cons s p =>
      refine iff_of_false (fun h => by cases h) fun h => ?_
      simp [Allowlist.allowsAll] at h
  | cons σ rest ih =>
    cases p with
    | nil =>
      refine iff_of_false (fun h => by cases h) fun h => ?_
      simp [Allowlist.allowsAll] at h
    | cons s p =>
      obtain ⟨x, hx, hv⟩ := Option.bind_eq_some_iff.1 hp
      obtain ⟨hs, hrest⟩ := Bool.or_eq_false_iff.1 hallowed
      have hbelow := ih hv hrest
      unfold Allowlist.allowsAll StarsAtArrays
      rw [hx, Option.getD_some, Bool.and_eq_true]
      constructor
      · intro h
        cases h with
        | item hitem hreached =>
          rename_i items i y
          obtain ⟨j, hj, hyj⟩ := Node.getElem?_of_child? hx
          rw [← Path.eq_of_index?_toString hj, hitem] at hyj
          obtain rfl := Option.some.inj hyj
          obtain ⟨hallows, hstars⟩ := hbelow.1 hreached
          have hstar : Allowlist.allowsSegment "*" (toString i) = true :=
            Option.isSome_iff_exists.2 ⟨j, hj⟩
          exact ⟨⟨hstar, hallows⟩, fun _ => ⟨rfl, i, rfl⟩, hstars⟩
        | step hne _ hy hreached =>
          rw [hx] at hy
          obtain rfl := Option.some.inj hy
          obtain ⟨hallows, hstars⟩ := hbelow.1 hreached
          have hsame : Allowlist.allowsSegment σ σ = true := by
            rw [Allowlist.allowsSegment, if_neg hne, beq_self_eq_true]
          exact ⟨⟨hsame, hallows⟩, fun hstar => absurd hstar hne, hstars⟩
      · rintro ⟨⟨hσ, hallows⟩, hstar, hstars⟩
        have hreached := hbelow.2 ⟨hallows, hstars⟩
        by_cases hne : σ = "*"
        · obtain ⟨harray, i, rfl⟩ := hstar hne
          cases t with
          | array items =>
            obtain ⟨j, hj, hxj⟩ := Node.getElem?_of_child? hx
            rw [← Path.eq_of_index?_toString hj] at hxj
            exact hne ▸ .item hxj hreached
          | _ => cases harray
        · rw [Allowlist.allowsSegment, if_neg hne, beq_iff_eq] at hσ
          exact hσ ▸ .step hne (hσ ▸ hs) (hσ ▸ hx) hreached

/-! ## Places -/

theorem mem_of_allowsAll {segments p : Path} {σ : String}
    (h : Allowlist.allowsAll segments p = true) (hσ : σ ∈ segments) (hstar : σ ≠ "*") :
    σ ∈ p := by
  induction segments generalizing p with
  | nil => cases hσ
  | cons τ rest ih =>
    cases p with
    | nil => simp [Allowlist.allowsAll] at h
    | cons s p =>
      obtain ⟨hτ, hrest⟩ := Bool.and_eq_true_iff.1 h
      rcases List.mem_cons.1 hσ with rfl | hσ
      · rw [Allowlist.allowsSegment, if_neg hstar, beq_iff_eq] at hτ
        exact hτ ▸ List.mem_cons_self
      · exact List.mem_cons_of_mem s (ih hrest hσ)

/-- A pattern that allows a place without prohibited names has none. -/
theorem not_hasProhibited_of_allowsAll {pattern : String} {p : Path}
    (h : Allowlist.allowsAll (Allowlist.segments pattern) p = true)
    (hp : Path.hasProhibited p = false) :
    Path.hasProhibited (Text.split '.' pattern) = false := by
  refine Bool.eq_false_iff.2 fun hpattern => ?_
  obtain ⟨s, hs, hprohibited⟩ := List.any_eq_true.1 hpattern
  obtain ⟨hsegment, hstar⟩ := mem_segments_of_isProhibited hs hprohibited
  have hfound : Path.hasProhibited p = true :=
    List.any_eq_true.2 ⟨s, mem_of_allowsAll h hsegment hstar, hprohibited⟩
  rw [hp] at hfound
  cases hfound

theorem exists_place_eq {op : Node} (hne : place op ≠ "") : ∃ raw, place op = normalPath raw := by
  unfold place at hne ⊢
  cases hraw : (op.member? "path").bind Node.string? with
  | none => simp [hraw] at hne
  | some raw => exact ⟨raw, rfl⟩

/-- Where no segment has blank ends, the allowlist reads a place as it stands. -/
theorem matchesPattern_place {op : Node} (hplain : ∀ s ∈ Path.ofText (place op), Text.trim s = s)
    (hne : place op ≠ "") (pattern : String) :
    Allowlist.matchesPattern (place op) pattern =
      Allowlist.allowsAll (Allowlist.segments pattern) (Path.ofText (place op)) := by
  have hsolid : ∀ s ∈ Path.ofText (place op), s ≠ "" := by
    obtain ⟨raw, hraw⟩ := exists_place_eq hne
    rw [hraw]
    exact fun s hs => (solid_of_mem_solidParts (ofText_normalPath raw ▸ hs)).1
  rw [Allowlist.matchesPattern, segments_eq_ofText fun s hs => ⟨hsolid s hs, hplain s hs⟩]

/-- A snapshot shows a text of the tree at a place that a pattern allows as it stands, with an
array at every star. -/
theorem get?_snapshot_iff_allowsAll {t : Node} {allow : Allowlist} {p text : String} (hne : p ≠ "")
    (hp : t.getAt (Path.ofText p) = some (.string text))
    (hnames : Path.hasProhibited (Path.ofText p) = false) :
    Members.get? p (snapshot t allow) = some text ↔
      ∃ e ∈ allow, e.pattern ≠ "" ∧
        Allowlist.allowsAll (Allowlist.segments e.pattern) (Path.ofText p) = true ∧
          StarsAtArrays t (Allowlist.segments e.pattern) (Path.ofText p) := by
  rw [get?_snapshot_iff hne hp]
  constructor
  · rintro ⟨e, he, d, hd, rfl⟩
    obtain ⟨hpattern, hreached⟩ := reached_of_mem_entryTexts hd hne
    have hvalue := getAt_of_reached hreached hp
    rw [← Node.string.inj hvalue, reached_iff hp hnames] at hreached
    exact ⟨e, he, hpattern, hreached⟩
  · rintro ⟨e, he, hpattern, hreached⟩
    have hclean := not_hasProhibited_of_allowsAll hreached.1 hnames
    rw [← reached_iff hp hnames] at hreached
    exact ⟨e, he, _, mem_entryTexts_of_reached hne hpattern hclean hreached, rfl⟩

/-! ## Runs -/

variable {allow : Allowlist} {index : Nat} {t next : Node}

theorem applyFrom_append_eq_ok_iff {before after : List Node} :
    applyFrom allow index t (before ++ after) = .ok next ↔
      ∃ u, applyFrom allow index t before = .ok u ∧
        applyFrom allow (index + before.length) u after = .ok next := by
  induction before generalizing index t with
  | nil =>
    have hstart : ∀ u, applyFrom allow index t [] = .ok u ↔ t = u := fun u => by
      unfold applyFrom
      exact ⟨Except.ok.inj, congrArg _⟩
    simp [hstart]
  | cons op before ih =>
    rw [List.cons_append, applyFrom_cons_eq_ok_iff]
    simp only [ih, applyFrom_cons_eq_ok_iff, List.length_cons]
    constructor
    · rintro ⟨u, hop, w, hbefore, hafter⟩
      rw [Nat.add_assoc, Nat.add_comm 1] at hafter
      exact ⟨w, ⟨u, hop, hbefore⟩, hafter⟩
    · rintro ⟨w, ⟨u, hop, hbefore⟩, hafter⟩
      rw [Nat.add_comm before.length, ← Nat.add_assoc] at hafter
      exact ⟨u, hop, w, hbefore, hafter⟩

/-- What every accepted edit keeps holds at the end. -/
theorem applyFrom_preserves {P : Node → Prop} {ops : List Node}
    (hstep : ∀ op ∈ ops, ∀ t u, change allow t op = .ok u → P t → P u)
    (h : applyFrom allow index t ops = .ok next) (ht : P t) : P next := by
  induction ops generalizing index t with
  | nil =>
    have hsame : t = next := Except.ok.inj h
    exact hsame ▸ ht
  | cons op ops ih =>
    obtain ⟨u, hop, hrest⟩ := applyFrom_cons_eq_ok_iff.1 h
    exact ih (fun o ho => hstep o (List.mem_cons_of_mem op ho)) hrest
      (hstep op List.mem_cons_self t u hop ht)

/-- All edits of a list spare the way to a place. -/
def SparedBy (ops : List Node) (p : Path) (t : Node) : Prop :=
  ∀ o ∈ ops, t.Spares (Path.ofText (place o)) p

theorem SparedBy.change {ops : List Node} {p : Path} {u op : Node} (h : SparedBy ops p t)
    (hop : op ∈ ops) (hchange : change allow t op = .ok u) : SparedBy ops p u := by
  obtain ⟨value, _, _, _, _, _, _, hgap, rfl⟩ := change_eq_ok_iff.1 hchange
  exact fun o ho => (h op hop).setAt hgap _ (h o ho)

theorem SparedBy.of_applyFrom {before ops : List Node} {p : Path} (hbefore : ∀ op ∈ before, op ∈ ops)
    (h : SparedBy ops p t) (happly : applyFrom allow index t before = .ok next) :
    SparedBy ops p next :=
  applyFrom_preserves (P := SparedBy ops p)
    (fun op hop _ _ hchange ht => ht.change (hbefore op hop) hchange) happly h

/-- A run of edits that spare the way to a place keeps the stars above it at their arrays, and
brings no array under others. -/
theorem starsAtArrays_of_applyFrom {ops : List Node} {p segments : Path} (h : SparedBy ops p t)
    (hallows : Allowlist.allowsAll segments p = true)
    (happly : applyFrom allow index t ops = .ok next) :
    StarsAtArrays next segments p ↔ StarsAtArrays t segments p := by
  refine (applyFrom_preserves (P := fun u => SparedBy ops p u ∧
    (StarsAtArrays u segments p ↔ StarsAtArrays t segments p)) ?_ happly ⟨h, Iff.rfl⟩).2
  rintro op hop u w hchange ⟨hspared, hstars⟩
  refine ⟨hspared.change hop hchange, ?_⟩
  obtain ⟨value, _, _, _, _, _, _, hgap, rfl⟩ := change_eq_ok_iff.1 hchange
  exact (starsAtArrays_setAt (hspared op hop) hgap hallows _).trans hstars

/-- Edits at other places that spare the way leave a value where it is. -/
theorem getAt_of_sparedBy {ops : List Node} {p : String} {v : Node}
    (hother : ∀ op ∈ ops, place op ≠ p) (h : SparedBy ops (Path.ofText p) t)
    (hv : t.getAt (Path.ofText p) = some v) (happly : applyFrom allow index t ops = .ok next) :
    next.getAt (Path.ofText p) = some v := by
  refine (applyFrom_preserves (P := fun u => SparedBy ops (Path.ofText p) u ∧
    u.getAt (Path.ofText p) = some v) ?_ happly ⟨h, hv⟩).2
  rintro op hop u w hchange ⟨hspared, hu⟩
  refine ⟨hspared.change hop hchange, ?_⟩
  obtain ⟨value, _, _, _, _, _, _, hgap, rfl⟩ := change_eq_ok_iff.1 hchange
  have hne : Path.ofText (place op) ≠ Path.ofText p := by
    intro heq
    have htext := congrArg Path.text heq
    rw [Path.text_ofText, Path.text_ofText] at htext
    exact hother op hop htext
  rw [(hspared op hop).getAt_setAt hgap hne, hu]

/-- The text of an edit is there at the end, if the edits after it go to other places and all
spare the way. -/
theorem getAt_of_apply {base op : Node} {before after : List Node} {text : String}
    (h : apply allow base (before ++ op :: after) = .ok next)
    (htext : (op.member? "value").bind Node.string? = some text)
    (hlast : ∀ o ∈ after, place o ≠ place op)
    (hspared : SparedBy (before ++ op :: after) (Path.ofText (place op)) base) :
    next.getAt (Path.ofText (place op)) = some (.string text) := by
  obtain ⟨t, hbefore, hrest⟩ := applyFrom_append_eq_ok_iff.1 h
  obtain ⟨u, hchange, hafter⟩ := applyFrom_cons_eq_ok_iff.1 hrest
  have hmem : op ∈ before ++ op :: after := List.mem_append_right _ List.mem_cons_self
  have ht := hspared.of_applyFrom (fun o ho => List.mem_append_left _ ho) hbefore
  have hu := ht.change hmem hchange
  obtain ⟨value, _, _, _, _, _, hvalue, _, rfl⟩ := change_eq_ok_iff.1 hchange
  obtain rfl : value = text := Option.some.inj (hvalue.symm.trans htext)
  refine getAt_of_sparedBy hlast (fun o ho => hu o ?_) (Node.getAt_setAt_self _ _ _) hafter
  exact List.mem_append_right _ (List.mem_cons_of_mem op ho)

/-! ## Overlays -/

theorem allowed_of_apply {base : Node} {ops : List Node} (h : apply allow base ops = .ok next)
    {op : Node} (hop : op ∈ ops) :
    place op ≠ "" ∧ Path.hasProhibited (Path.ofText (place op)) = false := by
  obtain ⟨before, after, rfl⟩ := List.append_of_mem hop
  obtain ⟨t, _, hrest⟩ := applyFrom_append_eq_ok_iff.1 h
  obtain ⟨u, hchange, _⟩ := applyFrom_cons_eq_ok_iff.1 hrest
  obtain ⟨_, _, _, hne, hallowed, _⟩ := change_eq_ok_iff.1 hchange
  refine ⟨hne, ?_⟩
  rw [Path.ofText, if_neg hne]
  exact hallowed

/-- The last text that an overlay writes at a place is there afterwards, if the other edits go
beside the place and turn no array on the way into an object. A snapshot shows it at that place
just where a pattern that allows the place has an array of the base tree at each of its stars, with
a position without leading zeros against it. -/
theorem a_written_text_is_shown_where_its_stars_stand_at_arrays {base op : Node}
    {before after : List Node} {text : String}
    (h : apply allow base (before ++ op :: after) = .ok next)
    (htext : (op.member? "value").bind Node.string? = some text)
    (hlast : ∀ o ∈ after, place o ≠ place op)
    (hplain : ∀ s ∈ Path.ofText (place op), Text.trim s = s)
    (hbeside : ∀ o ∈ before ++ op :: after, place o ≠ place op →
      ¬ Comparable (Path.ofText (place o)) (Path.ofText (place op)) ∧
        base.breaksWay (Path.ofText (place o)) (Path.ofText (place op)) = false) :
    next.getAt (Path.ofText (place op)) = some (.string text) ∧
      (Members.get? (place op) (snapshot next allow) = some text ↔
        ∃ e ∈ allow, e.pattern ≠ "" ∧ Allowlist.matchesPattern (place op) e.pattern = true ∧
          StarsAtArrays base (Allowlist.segments e.pattern) (Path.ofText (place op))) := by
  have hspared : SparedBy (before ++ op :: after) (Path.ofText (place op)) base := by
    intro o ho
    by_cases hsame : place o = place op
    · exact Or.inl (congrArg Path.ofText hsame)
    · exact Or.inr (hbeside o ho hsame)
  have hvalue := getAt_of_apply h htext hlast hspared
  obtain ⟨hne, hnames⟩ := allowed_of_apply h (List.mem_append_right before List.mem_cons_self)
  refine ⟨hvalue, ?_⟩
  rw [get?_snapshot_iff_allowsAll hne hvalue hnames]
  refine exists_congr fun e => and_congr_right fun _ => and_congr_right fun _ => ?_
  rw [matchesPattern_place hplain hne]
  exact and_congr_right fun hallows => starsAtArrays_of_applyFrom hspared hallows h

/-! ## Questions -/

/-- An edit of the question of an item. -/
def questionOp (i text : String) : Node :=
  OverlayOp.toNode ⟨"set", Path.text ["faqs", i, "question"], text⟩

theorem place_questionOp {i : String} (hi : i ∈ ["0", "1"]) (text : String) :
    place (questionOp i text) = Path.text ["faqs", i, "question"] := by
  have hplaces : ∀ i ∈ ["0", "1"], '[' ∉ (Path.text ["faqs", i, "question"]).toList ∧
      Path.text ((Text.split '.' (Path.text ["faqs", i, "question"])).filter (· ≠ "")) =
        Path.text ["faqs", i, "question"] := by decide
  obtain ⟨hbracket, hnormal⟩ := hplaces i hi
  rw [questionOp, place_toNode, normalPath_of_not_mem hbracket, hnormal]

theorem change_questionOp {t : Node} {i : String} (hi : i ∈ ["0", "1"]) (text : String)
    (hgap : t.gapAt? ["faqs", i, "question"] = none) :
    change questions t (questionOp i text) =
      .ok (t.setAt ["faqs", i, "question"] (.string text)) := by
  have hplaces : ∀ i ∈ ["0", "1"], Path.text ["faqs", i, "question"] ≠ "" ∧
      isProhibited (Path.text ["faqs", i, "question"]) = false ∧
      questions.allows (Path.text ["faqs", i, "question"]) = true ∧
      Path.ofText (Path.text ["faqs", i, "question"]) = ["faqs", i, "question"] := by decide
  obtain ⟨hne, hallowed, hallows, hsegments⟩ := hplaces i hi
  refine change_eq_ok_iff.2 ⟨text, rfl, rfl, ?_⟩
  rw [place_questionOp hi, hsegments]
  exact ⟨hne, hallowed, hallows, rfl, hgap, rfl⟩

def askedTwice : Node :=
  .object [("faqs", .array [.object [("id", .string "a"), ("question", .string "How?")],
    .object [("question", .string "Where?")]])]

/-- The question of the first item twice, then one for an item that is new. -/
theorem apply_questionOps :
    apply questions asked
      ([questionOp "0" "Who?"] ++ questionOp "0" "How?" :: [questionOp "1" "Where?"]) =
        .ok askedTwice := by
  refine applyFrom_cons_eq_ok_iff.2 ⟨_, change_questionOp (by decide) _ rfl, ?_⟩
  refine applyFrom_cons_eq_ok_iff.2 ⟨_, change_questionOp (by decide) _ rfl, ?_⟩
  exact applyFrom_cons_eq_ok_iff.2 ⟨_, change_questionOp (by decide) _ rfl, rfl⟩

/-- The question that is written last at its place is the one that a snapshot shows. -/
theorem the_last_text_of_the_first_question_is_shown :
    (∀ o ∈ [questionOp "1" "Where?"], place o ≠ place (questionOp "0" "How?")) ∧
      (∀ s ∈ Path.ofText (place (questionOp "0" "How?")), Text.trim s = s) ∧
      (∀ o ∈ [questionOp "0" "Who?"] ++ questionOp "0" "How?" :: [questionOp "1" "Where?"],
        place o ≠ place (questionOp "0" "How?") →
          ¬ Comparable (Path.ofText (place o)) (Path.ofText (place (questionOp "0" "How?"))) ∧
            asked.breaksWay (Path.ofText (place o))
              (Path.ofText (place (questionOp "0" "How?"))) = false) ∧
      Members.get? (place (questionOp "0" "How?")) (snapshot askedTwice questions) =
        some "How?" := by
  have hfirst : ∀ text, place (questionOp "0" text) = "faqs.0.question" :=
    place_questionOp (by decide)
  have hsecond : place (questionOp "1" "Where?") = "faqs.1.question" :=
    place_questionOp (by decide) _
  have hlast : ∀ o ∈ [questionOp "1" "Where?"], place o ≠ place (questionOp "0" "How?") := by
    intro o ho
    rw [List.mem_singleton.1 ho, hfirst, hsecond]
    decide
  have hbeside : ∀ o ∈ [questionOp "0" "Who?"] ++ questionOp "0" "How?" ::
      [questionOp "1" "Where?"], place o ≠ place (questionOp "0" "How?") →
        ¬ Comparable (Path.ofText (place o)) (Path.ofText (place (questionOp "0" "How?"))) ∧
          asked.breaksWay (Path.ofText (place o))
            (Path.ofText (place (questionOp "0" "How?"))) = false := by
    intro o ho hother
    rcases List.mem_append.1 ho with ho | ho
    · rw [List.mem_singleton.1 ho, hfirst, hfirst] at hother
      exact absurd rfl hother
    · rcases List.mem_cons.1 ho with rfl | ho
      · exact absurd rfl hother
      · rw [List.mem_singleton.1 ho, hfirst, hsecond]
        decide
  have hplain : ∀ s ∈ Path.ofText (place (questionOp "0" "How?")), Text.trim s = s := by
    rw [hfirst]
    decide
  refine ⟨hlast, hplain, hbeside, ?_⟩
  have hsegments : Allowlist.segments (AllowEntry.pattern { path := "faqs.*.question" }) =
      ["faqs", "*", "question"] := by decide
  have hstars : StarsAtArrays asked ["faqs", "*", "question"] ["faqs", "0", "question"] :=
    ⟨fun h => absurd h (by decide), fun _ => ⟨rfl, 0, rfl⟩, fun h => absurd h (by decide), trivial⟩
  refine (a_written_text_is_shown_where_its_stars_stand_at_arrays apply_questionOps rfl hlast
    hplain hbeside).2.2 ⟨_, List.mem_singleton.2 rfl, by decide, ?_⟩
  rw [hfirst, hsegments]
  exact ⟨by decide, hstars⟩

/-- Where nothing is, a write puts an object in place of the array of the allowlist. -/
theorem a_written_text_is_not_always_shown :
    ¬ ∀ (allow : Allowlist) (base next op : Node) (before after : List Node) (text : String),
      apply allow base (before ++ op :: after) = .ok next →
      (op.member? "value").bind Node.string? = some text →
      (∀ o ∈ after, place o ≠ place op) →
      (∀ a ∈ before ++ op :: after, ∀ b ∈ before ++ op :: after,
        Path.ofText (place a) <+: Path.ofText (place b) → place a = place b) →
      Members.get? (place op) (snapshot next allow) = some text := by
  intro hall
  have happly : apply questions (.object []) ([] ++ questionOp "0" "Why?" :: []) =
      .ok (.object [("faqs", .object [("0", .object [("question", .string "Why?")])])]) :=
    applyFrom_cons_eq_ok_iff.2 ⟨_, change_questionOp (by decide) _ rfl, rfl⟩
  have hshown := hall _ _ _ _ _ _ "Why?" happly rfl (fun o ho => absurd ho List.not_mem_nil) ?_
  · have hempty : snapshot
        (.object [("faqs", .object [("0", .object [("question", .string "Why?")])])])
        questions = [] := by decide
    rw [hempty] at hshown
    cases hshown
  · intro a ha b hb _
    rw [List.mem_singleton.1 ha, List.mem_singleton.1 hb]

end WidgetSchema.Overlay
