-- What a merged list of edits does. Merging keeps the last edit at each place, in the position of
-- the first, so the edits at different places change their order. Over texts that are there such
-- writes do not see each other, unless two written places are spellings of one: then the merged
-- list can end with another of its texts.
import Mathlib.Data.List.Induction
import WidgetSchema.Overlay.Op
import WidgetSchema.Proofs.Node.Spellings
namespace WidgetSchema.Overlay

/-! ## Merged lists -/

/-- The edits of a list at one written place. -/
def editsAt (path : String) (ops : List OverlayOp) : List OverlayOp :=
  ops.filter (·.path = path)

theorem editsAt_mergeOne_ne {path : String} {o : OverlayOp} (h : o.path ≠ path)
    (ms : List OverlayOp) : editsAt path (mergeOne ms o) = editsAt path ms := by
  induction ms with
  | nil => simp [mergeOne, editsAt, h]
  | cons m ms ih =>
    unfold editsAt at ih ⊢
    unfold mergeOne
    split
    · rename_i hm
      simp [h, hm]
    · simp [List.filter_cons, ih]

theorem editsAt_mergeOne_self {o : OverlayOp} {ms : List OverlayOp}
    (h : (editsAt o.path ms).length ≤ 1) : editsAt o.path (mergeOne ms o) = [o] := by
  induction ms with
  | nil => simp [mergeOne, editsAt]
  | cons m ms ih =>
    unfold editsAt at ih h ⊢
    unfold mergeOne
    split
    · rename_i hm
      rw [List.filter_cons_of_pos (by simpa using hm), List.length_cons] at h
      have hrest : ms.filter (·.path = o.path) = [] := List.eq_nil_of_length_eq_zero (by omega)
      rw [List.filter_cons_of_pos (by simp), hrest]
    · rename_i hm
      rw [List.filter_cons_of_neg (by simpa using hm)] at h ⊢
      exact ih h

/-- Of the edits at one written place a merged list has the last. -/
theorem editsAt_merge (path : String) (existing incoming : List OverlayOp) :
    editsAt path (merge existing incoming) =
      (editsAt path (existing ++ incoming)).getLast?.toList := by
  unfold merge
  generalize existing ++ incoming = ops
  induction ops using List.reverseRecOn with
  | nil => rfl
  | append_singleton ops o ih =>
    have hsnoc : editsAt path (ops ++ [o]) = editsAt path ops ++ editsAt path [o] :=
      List.filter_append ops [o]
    rw [List.foldl_append, List.foldl_cons, List.foldl_nil, hsnoc]
    by_cases ho : o.path = path
    · subst ho
      have hone : editsAt o.path [o] = [o] := by simp [editsAt]
      rw [editsAt_mergeOne_self (ih ▸ Option.length_toList_le), hone, List.getLast?_concat]
      rfl
    · have hnone : editsAt path [o] = [] := by simp [editsAt, ho]
      rw [editsAt_mergeOne_ne ho, ih, hnone, List.append_nil]

theorem mem_of_mem_merge {existing incoming : List OverlayOp} {o : OverlayOp}
    (h : o ∈ merge existing incoming) : o ∈ existing ++ incoming := by
  have hat : o ∈ editsAt o.path (merge existing incoming) := List.mem_filter.2 ⟨h, by simp⟩
  rw [editsAt_merge, Option.mem_toList] at hat
  exact (List.mem_filter.1 (List.mem_of_getLast? hat)).1

/-- A merged list goes to all places that the two lists go to. -/
theorem exists_mem_merge {existing incoming : List OverlayOp} {o : OverlayOp}
    (h : o ∈ existing ++ incoming) : ∃ m ∈ merge existing incoming, m.path = o.path := by
  have hat : o ∈ editsAt o.path (existing ++ incoming) := List.mem_filter.2 ⟨h, by simp⟩
  obtain ⟨m, hm⟩ := Option.isSome_iff_exists.1 (List.getLast?_isSome.2 (List.ne_nil_of_mem hat))
  have hmem : m ∈ editsAt o.path (merge existing incoming) := by
    rw [editsAt_merge, Option.mem_toList]
    exact hm
  exact ⟨m, (List.mem_filter.1 hmem).1, by simpa using (List.mem_filter.1 hmem).2⟩

/-! ## Replayed edits -/

variable {t : Node} {o : OverlayOp} {ops : List OverlayOp}

/-- All edits of a list go to texts of a tree. -/
def GoToTexts (t : Node) (ops : List OverlayOp) : Prop :=
  ∀ o ∈ ops, t.HoldsText (Path.ofText o.path)

/-- The text of the last edit that goes to a place, in whatever spelling. -/
def lastText (t : Node) (ops : List OverlayOp) (p : Path) : Option String :=
  (ops.filter fun o => t.samePlace (Path.ofText o.path) p).getLast?.map (·.value)

theorem replayOne_of_holdsText (h : t.HoldsText (Path.ofText o.path)) :
    replayOne t o = t.setAt (Path.ofText o.path) (.string o.value) := by
  obtain ⟨_, h⟩ := h
  rw [replayOne, Node.gapAt?_eq_none_of_getAt h]
  rfl

theorem samePlace_replayOne (h : t.HoldsText (Path.ofText o.path)) (p q : Path) :
    (replayOne t o).samePlace p q = t.samePlace p q := by
  rw [replayOne_of_holdsText h, Node.samePlace_setAt h]

theorem holdsText_replayOne {p : Path} (h : t.HoldsText (Path.ofText o.path))
    (hp : t.HoldsText p) : (replayOne t o).HoldsText p := by
  rw [replayOne_of_holdsText h]
  exact Node.holdsText_setAt h hp

theorem GoToTexts.replayOne (h : t.HoldsText (Path.ofText o.path)) (hops : GoToTexts t ops) :
    GoToTexts (replayOne t o) ops :=
  fun m hm => holdsText_replayOne h (hops m hm)

theorem lastText_cons (t : Node) (o : OverlayOp) (ops : List OverlayOp) (p : Path) :
    lastText t (o :: ops) p =
      (lastText t ops p).or (if t.samePlace (Path.ofText o.path) p then some o.value else none) := by
  unfold lastText
  by_cases h : t.samePlace (Path.ofText o.path) p = true
  · rw [List.filter_cons, if_pos h, List.getLast?_cons, if_pos h]
    cases (ops.filter fun o => t.samePlace (Path.ofText o.path) p).getLast? <;> rfl
  · rw [List.filter_cons, if_neg h, if_neg h, Option.or_none]

/-- At every place that held a text, the last text that was written there is read. -/
theorem getAt_foldl_replayOne {p : Path} (hops : GoToTexts t ops) (hp : t.HoldsText p) :
    (ops.foldl replayOne t).getAt p = ((lastText t ops p).map Node.string).or (t.getAt p) := by
  induction ops generalizing t with
  | nil => rfl
  | cons o ops ih =>
    obtain ⟨ho, hrest⟩ := List.forall_mem_cons.1 hops
    have hsame : lastText (replayOne t o) ops p = lastText t ops p := by
      unfold lastText
      simp only [samePlace_replayOne ho]
    rw [List.foldl_cons, ih (GoToTexts.replayOne ho hrest) (holdsText_replayOne ho hp), hsame,
      lastText_cons, replayOne_of_holdsText ho, Node.getAt_setAt_text ho hp]
    cases lastText t ops p with
    | some text => rfl
    | none => split <;> rfl

/-- An edit is lost if a later one goes to the same place. -/
theorem foldl_replayOne_of_overwritten (hops : GoToTexts t ops)
    (ho : t.HoldsText (Path.ofText o.path))
    (hlater : ∃ m ∈ ops, t.samePlace (Path.ofText o.path) (Path.ofText m.path) = true) :
    ops.foldl replayOne (replayOne t o) = ops.foldl replayOne t := by
  induction ops generalizing t with
  | nil =>
    obtain ⟨m, hm, _⟩ := hlater
    cases hm
  | cons m ops ih =>
    obtain ⟨hm, hrest⟩ := List.forall_mem_cons.1 hops
    have hthen : replayOne (replayOne t o) m =
        (t.setAt (Path.ofText o.path) (.string o.value)).setAt (Path.ofText m.path)
          (.string m.value) := by
      rw [replayOne_of_holdsText (holdsText_replayOne ho hm), replayOne_of_holdsText ho]
    rw [List.foldl_cons, List.foldl_cons, hthen]
    -- The next edit overwrites this one, or may be made before it, and a later one overwrites it.
    by_cases hsame : t.samePlace (Path.ofText o.path) (Path.ofText m.path) = true
    · rw [Node.setAt_setAt_of_samePlace hsame, replayOne_of_holdsText hm]
    · have hm' := holdsText_replayOne hm ho
      rw [Node.setAt_comm ho hm (Bool.eq_false_iff.2 hsame), ← replayOne_of_holdsText hm,
        ← replayOne_of_holdsText hm']
      refine ih (GoToTexts.replayOne hm hrest) hm' ?_
      obtain ⟨l, hl, hlater⟩ := hlater
      have hne : l ≠ m := by
        rintro rfl
        exact hsame hlater
      exact ⟨l, List.mem_of_ne_of_mem hne hl, (samePlace_replayOne hm _ _).trans hlater⟩

theorem foldl_replayOne_append {later : List OverlayOp} (hops : GoToTexts t ops)
    (hlater : GoToTexts t later)
    (hcover : ∀ o ∈ ops, ∃ m ∈ later,
      t.samePlace (Path.ofText o.path) (Path.ofText m.path) = true) :
    (ops ++ later).foldl replayOne t = later.foldl replayOne t := by
  induction ops with
  | nil => rfl
  | cons o ops ih =>
    obtain ⟨ho, hrest⟩ := List.forall_mem_cons.1 hops
    obtain ⟨⟨m, hm, hsame⟩, hcover⟩ := List.forall_mem_cons.1 hcover
    have hall : GoToTexts t (ops ++ later) := List.forall_mem_append.2 ⟨hrest, hlater⟩
    rw [List.cons_append, List.foldl_cons,
      foldl_replayOne_of_overwritten hall ho ⟨m, List.mem_append_right ops hm, hsame⟩,
      ih hrest hcover]

/-- Edits whose texts are there already change nothing. -/
theorem foldl_replayOne_of_written
    (h : ∀ o ∈ ops, t.getAt (Path.ofText o.path) = some (.string o.value)) :
    ops.foldl replayOne t = t := by
  induction ops with
  | nil => rfl
  | cons o ops ih =>
    obtain ⟨ho, hrest⟩ := List.forall_mem_cons.1 h
    rw [List.foldl_cons, replayOne_of_holdsText ⟨o.value, ho⟩, Node.setAt_of_getAt ho, ih hrest]

/-- A run is the same as any list that writes what the run leaves at all of its places. -/
theorem foldl_replayOne_eq {later : List OverlayOp} (hops : GoToTexts t ops)
    (hlater : GoToTexts t later)
    (hcover : ∀ o ∈ ops, ∃ m ∈ later,
      t.samePlace (Path.ofText o.path) (Path.ofText m.path) = true)
    (hwritten : ∀ m ∈ later,
      (ops.foldl replayOne t).getAt (Path.ofText m.path) = some (.string m.value)) :
    ops.foldl replayOne t = later.foldl replayOne t := by
  rw [← foldl_replayOne_append hops hlater hcover, List.foldl_append,
    foldl_replayOne_of_written hwritten]

theorem isSome_lastText_iff {p : Path} :
    (lastText t ops p).isSome = true ↔
      ∃ o ∈ ops, t.samePlace (Path.ofText o.path) p = true := by
  rw [lastText, Option.isSome_map, List.getLast?_isSome, ne_eq, List.filter_eq_nil_iff]
  simp only [not_forall, not_not, exists_prop]

theorem isSome_lastText_self (hops : GoToTexts t ops) (ho : o ∈ ops) :
    (lastText t ops (Path.ofText o.path)).isSome = true := by
  obtain ⟨_, h⟩ := hops o ho
  exact isSome_lastText_iff.2 ⟨o, ho, Node.samePlace_self h⟩

/-- Edits at the places of a list, with the texts that a run leaves there. -/
def settled (t : Node) (run ops : List OverlayOp) : List OverlayOp :=
  ops.map fun o => { o with value := (lastText t run (Path.ofText o.path)).getD "" }

/-- A run can be replaced by edits that write what it leaves. -/
theorem foldl_replayOne_eq_settled {run : List OverlayOp} (hops : GoToTexts t ops)
    (hrun : ∀ o ∈ run, o ∈ ops)
    (hsome : ∀ o ∈ ops, (lastText t run (Path.ofText o.path)).isSome = true) :
    run.foldl replayOne t = (settled t run ops).foldl replayOne t := by
  have hgo : GoToTexts t run := fun o ho => hops o (hrun o ho)
  refine foldl_replayOne_eq hgo (List.forall_mem_map.2 hops) (fun o ho => ?_) fun m hm => ?_
  · obtain ⟨_, h⟩ := hgo o ho
    exact ⟨_, List.mem_map.2 ⟨o, hrun o ho, rfl⟩, Node.samePlace_self h⟩
  · obtain ⟨o, ho, rfl⟩ := List.mem_map.1 hm
    obtain ⟨text, htext⟩ := Option.isSome_iff_exists.1 (hsome o ho)
    rw [getAt_foldl_replayOne hgo (hops o ho), htext]
    rfl

/-- Two runs come to the same tree if they end with the same texts at all of their places. -/
theorem foldl_replayOne_eq_of_lastText_eq {others : List OverlayOp} (hops : GoToTexts t ops)
    (hothers : GoToTexts t others)
    (hlast : ∀ o ∈ ops ++ others,
      lastText t ops (Path.ofText o.path) = lastText t others (Path.ofText o.path)) :
    ops.foldl replayOne t = others.foldl replayOne t := by
  have hall : GoToTexts t (ops ++ others) := List.forall_mem_append.2 ⟨hops, hothers⟩
  have hsome : ∀ o ∈ ops ++ others, (lastText t ops (Path.ofText o.path)).isSome = true := by
    intro o ho
    rcases List.mem_append.1 ho with hmem | hmem
    · exact isSome_lastText_self hops hmem
    · rw [hlast o ho]
      exact isSome_lastText_self hothers hmem
  have hsame : settled t ops (ops ++ others) = settled t others (ops ++ others) :=
    List.map_congr_left fun o ho => by rw [hlast o ho]
  rw [foldl_replayOne_eq_settled hall (fun o ho => List.mem_append_left _ ho) hsome, hsame,
    ← foldl_replayOne_eq_settled hall (fun o ho => List.mem_append_right _ ho)
      fun o ho => hlast o ho ▸ hsome o ho]

/-- Two runs over the same places that come to the same tree end with the same text at every
place. -/
theorem lastText_eq_of_foldl_replayOne_eq {others : List OverlayOp} (hops : GoToTexts t ops)
    (hothers : GoToTexts t others) (hthere : ∀ o ∈ ops, ∃ m ∈ others, m.path = o.path)
    (hback : ∀ o ∈ others, ∃ m ∈ ops, m.path = o.path)
    (h : ops.foldl replayOne t = others.foldl replayOne t) (p : Path) :
    lastText t ops p = lastText t others p := by
  have hboth : (lastText t ops p).isSome = (lastText t others p).isSome := by
    rw [Bool.eq_iff_iff, isSome_lastText_iff, isSome_lastText_iff]
    constructor
    · rintro ⟨o, ho, hsame⟩
      obtain ⟨m, hm, hpath⟩ := hthere o ho
      exact ⟨m, hm, hpath ▸ hsame⟩
    · rintro ⟨o, ho, hsame⟩
      obtain ⟨m, hm, hpath⟩ := hback o ho
      exact ⟨m, hm, hpath ▸ hsame⟩
  cases hleft : lastText t ops p with
  | none =>
    rw [hleft, Option.isSome_none] at hboth
    exact (Option.isSome_eq_false_iff.1 hboth.symm |> Option.isNone_iff_eq_none.1).symm
  | some text =>
    rw [hleft, Option.isSome_some] at hboth
    obtain ⟨other, hright⟩ := Option.isSome_iff_exists.1 hboth.symm
    obtain ⟨o, ho, hsame⟩ := isSome_lastText_iff.1 (hleft ▸ rfl : (lastText t ops p).isSome = true)
    have hp : t.HoldsText p := by
      unfold Node.HoldsText
      rw [← Node.getAt_of_samePlace hsame]
      exact hops o ho
    have hread := congrArg (·.getAt p) h
    simp only [getAt_foldl_replayOne hops hp, getAt_foldl_replayOne hothers hp, hleft, hright,
      Option.map_some, Option.some_or, Option.some.injEq, Node.string.injEq] at hread
    rw [hright, hread]

/-! ## Merged lists, replayed -/

/-- The edits of a list that are replayed. -/
def replayed (ops : List OverlayOp) : List OverlayOp := ops.filter isReplayable

theorem replay_eq (t : Node) (ops : List OverlayOp) :
    replay t ops = (replayed ops).foldl replayOne t := rfl

theorem isReplayable_congr {a b : OverlayOp} (hop : a.op = b.op) (hpath : a.path = b.path) :
    isReplayable a = isReplayable b := by
  rw [isReplayable, isReplayable, hop, hpath]

variable {existing incoming : List OverlayOp}

theorem mem_replayed_merge (h : o ∈ replayed (merge existing incoming)) :
    o ∈ replayed (existing ++ incoming) :=
  List.mem_filter.2 ⟨mem_of_mem_merge (List.mem_filter.1 h).1, (List.mem_filter.1 h).2⟩

theorem exists_mem_replayed_merge (hset : ∀ o ∈ existing ++ incoming, o.op = "set")
    (h : o ∈ replayed (existing ++ incoming)) :
    ∃ m ∈ replayed (merge existing incoming), m.path = o.path := by
  obtain ⟨ho, hreplayable⟩ := List.mem_filter.1 h
  obtain ⟨m, hm, hpath⟩ := exists_mem_merge ho
  have hop : m.op = o.op := (hset m (mem_of_mem_merge hm)).trans (hset o ho).symm
  exact ⟨m, List.mem_filter.2 ⟨hm, (isReplayable_congr hop hpath).trans hreplayable⟩, hpath⟩

/-- Where the places of a list have one spelling each, the edits that go to a place are those at
its written form. -/
theorem lastText_replayed {part : List OverlayOp} (hops : GoToTexts t ops)
    (hset : ∀ o ∈ ops, o.op = "set")
    (honce : ∀ a ∈ ops, ∀ b ∈ ops,
      t.samePlace (Path.ofText a.path) (Path.ofText b.path) = true → a.path = b.path)
    (hpart : ∀ o ∈ part, o ∈ ops) (ho : o ∈ replayed ops) :
    lastText t (replayed part) (Path.ofText o.path) =
      (editsAt o.path part).getLast?.map (·.value) := by
  obtain ⟨ho, hreplayable⟩ := List.mem_filter.1 ho
  have hat : (replayed part).filter (fun m =>
      t.samePlace (Path.ofText m.path) (Path.ofText o.path)) = editsAt o.path part := by
    rw [replayed, editsAt, List.filter_filter]
    refine List.filter_congr fun m hm => ?_
    rw [Bool.eq_iff_iff, Bool.and_eq_true, decide_eq_true_eq]
    constructor
    · exact fun h => honce m (hpart m hm) o ho h.1
    · intro hpath
      obtain ⟨_, hthere⟩ := hops o ho
      have hop : m.op = o.op := (hset m (hpart m hm)).trans (hset o ho).symm
      rw [hpath]
      exact ⟨Node.samePlace_self hthere, (isReplayable_congr hop hpath).trans hreplayable⟩
  rw [lastText, hat]

/-- Over texts that are there, a merged list of edits replays as the two lists one after the other
just where both end with the same text at every place. That is so wherever no place is written in
two spellings. -/
theorem a_merged_list_replays_alike_where_its_last_texts_are_the_same {base : Node}
    (hset : ∀ o ∈ existing ++ incoming, o.op = "set")
    (htexts : ∀ o ∈ existing ++ incoming, base.HoldsText (Path.ofText o.path)) :
    (replay base (merge existing incoming) = replay base (existing ++ incoming) ↔
      ∀ p, lastText base (replayed (merge existing incoming)) p =
        lastText base (replayed (existing ++ incoming)) p) ∧
      ((∀ a ∈ existing ++ incoming, ∀ b ∈ existing ++ incoming,
          base.samePlace (Path.ofText a.path) (Path.ofText b.path) = true → a.path = b.path) →
        replay base (merge existing incoming) = replay base (existing ++ incoming)) := by
  have hall : GoToTexts base (replayed (existing ++ incoming)) := fun o ho =>
    htexts o (List.mem_filter.1 ho).1
  have hmerged : GoToTexts base (replayed (merge existing incoming)) := fun o ho =>
    hall o (mem_replayed_merge ho)
  rw [replay_eq, replay_eq]
  constructor
  · constructor
    · exact lastText_eq_of_foldl_replayOne_eq hmerged hall
        (fun o ho => ⟨o, mem_replayed_merge ho, rfl⟩) fun o ho => exists_mem_replayed_merge hset ho
    · exact fun hlast => foldl_replayOne_eq_of_lastText_eq hmerged hall fun o _ => hlast _
  · intro honce
    refine foldl_replayOne_eq_of_lastText_eq hmerged hall fun o ho => ?_
    have hmem : o ∈ replayed (existing ++ incoming) :=
      (List.mem_append.1 ho).elim mem_replayed_merge id
    rw [lastText_replayed htexts hset honce (fun _ => mem_of_mem_merge) hmem,
      lastText_replayed htexts hset honce (fun _ => id) hmem, editsAt_merge]
    cases (editsAt o.path (existing ++ incoming)).getLast? <;> rfl

/-! ## A question in two spellings -/

/-- A title and one question. -/
def titled : Node :=
  .object [("faqs", .array [.object [("question", .string "Why?")]]), ("title", .string "Answers")]

/-- The title is written again after the question, and replaced where it stood first. -/
theorem titles_around_a_question_replay_alike :
    replay titled
        (merge [⟨"set", "title", "Help"⟩, ⟨"set", "faqs.0.question", "How?"⟩]
          [⟨"set", "title", "Questions"⟩]) =
      replay titled ([⟨"set", "title", "Help"⟩, ⟨"set", "faqs.0.question", "How?"⟩] ++
        [⟨"set", "title", "Questions"⟩]) := by
  refine (a_merged_list_replays_alike_where_its_last_texts_are_the_same (by decide) ?_).2
    (by decide)
  have htitle : titled.HoldsText (Path.ofText "title") := ⟨"Answers", rfl⟩
  have hquestion : titled.HoldsText (Path.ofText "faqs.0.question") := ⟨"Why?", rfl⟩
  exact List.forall_mem_cons.2 ⟨htitle, List.forall_mem_cons.2 ⟨hquestion,
    List.forall_mem_singleton.2 htitle⟩⟩

/-- The first question under two spellings: the list ends with the last edit, the merged list with
the other spelling. -/
theorem a_merged_list_does_not_always_replay_alike :
    ¬ ∀ (base : Node) (existing incoming : List OverlayOp),
      (∀ o ∈ existing ++ incoming, o.op = "set" ∧ isProhibited o.path = false ∧
        base.HoldsText (Path.ofText o.path)) →
      replay base (merge existing incoming) = replay base (existing ++ incoming) := by
  intro hall
  have hsame := hall titled
    [⟨"set", "faqs.0.question", "How?"⟩, ⟨"set", "faqs.00.question", "When?"⟩]
    [⟨"set", "faqs.0.question", "Where?"⟩] ?_
  · have hmerged := congrArg (·.getAt ["faqs", "0", "question"]) hsame
    have hwhen : some (Node.string "When?") = some (.string "Where?") := hmerged
    exact absurd (Node.string.inj (Option.some.inj hwhen)) (by decide)
  · refine List.forall_mem_cons.2 ⟨⟨rfl, by decide, "Why?", rfl⟩, List.forall_mem_cons.2
      ⟨⟨rfl, by decide, "Why?", rfl⟩, List.forall_mem_singleton.2 ⟨rfl, by decide, "Why?", rfl⟩⟩⟩

end WidgetSchema.Overlay
