-- One control for every panel and place. Declarations are taken up one after the other; at every
-- moment those that are kept are the best ones so far, in the order in which their places came
-- up. Each of them becomes one control.
import Mathlib.Data.List.Basic
import Mathlib.Data.List.Nodup
import WidgetSchema.Proofs.Declaration.Parts
namespace WidgetSchema

open Markup

namespace Declaration

/-- The panel and the place that a declaration is for. -/
def binding (d : Declaration) : String × String := (d.panelId, d.path)

theorem sameBinding_iff {a b : Declaration} : sameBinding a b = true ↔ a.binding = b.binding := by
  simp [sameBinding, binding]

/-! ## Every field tag declares its place -/

theorem exists_mem_of_ofTag {panelId path : String} {t : FieldTag} {ds : List Declaration}
    (ht : t.Names path) (h : ofTag panelId t = .ok ds) :
    ∃ d ∈ ds, d.binding = (panelId, path) := by
  obtain ⟨type, htype⟩ := Option.isSome_iff_exists.1 ht.type
  have hpath := ht.path
  rw [FieldTag.attributes] at htype hpath
  rw [ofTag, htype, hpath] at h
  obtain ⟨options, -, h⟩ := bind_eq_ok_iff.1 h
  obtain rfl := Except.ok.inj h
  exact ⟨_, List.mem_cons_self, rfl⟩

/-- Whatever declares something inside of a field tag declares it in the markup around it. -/
theorem subset_of_collects {panelId : String} {markup inner : List Char} {t : FieldTag}
    {ds : List Declaration} (h : collect panelId markup = .ok ds) (ht : t ∈ fieldTags markup)
    (hinner : template? t = some inner ∨ t.inner = some inner) :
    ∃ inside, collect panelId inner = .ok inside ∧ inside ⊆ ds := by
  obtain ⟨parts, rfl, htags, -⟩ := parts_of_collect h
  obtain ⟨part, hpart, own, inTemplate, inBody, rfl, -, hinTemplate, hinBody⟩ := htags t ht
  have hmem : ∀ d ∈ own ++ inTemplate ++ inBody,
      d ∈ parts.flatten ++ (boundPaths markup).map (generic panelId) := fun d hd =>
    List.mem_append_left _ (List.mem_flatten.2 ⟨_, hpart, hd⟩)
  simp only [List.mem_append] at hmem
  rcases hinner with htemplate | hbody
  · rw [htemplate] at hinTemplate
    cases hinTemplate with
    | some hrun => exact ⟨inTemplate, hrun, fun d hd => by simpa using hmem d (.inl (.inr hd))⟩
  · rw [hbody] at hinBody
    cases hinBody with
    | some hrun => exact ⟨inBody, hrun, fun d hd => by simpa using hmem d (.inr hd)⟩

theorem exists_mem_of_collect {panelId path : String} {markup : List Char} {t : FieldTag}
    {ds : List Declaration} (hheld : Holds markup t) (ht : t.Names path)
    (h : collect panelId markup = .ok ds) : ∃ d ∈ ds, d.binding = (panelId, path) := by
  induction hheld generalizing ds with
  | here hmem =>
    obtain ⟨parts, rfl, htags, -⟩ := parts_of_collect h
    obtain ⟨part, hpart, own, inTemplate, inBody, rfl, hown, -, -⟩ := htags _ hmem
    obtain ⟨d, hd, hbinding⟩ := exists_mem_of_ofTag ht hown
    refine ⟨d, List.mem_append_left _ (List.mem_flatten.2 ⟨_, hpart, ?_⟩), hbinding⟩
    exact List.mem_append_left _ (List.mem_append_left _ hd)
  | inBody hmem hbody _ ih =>
    obtain ⟨inside, hinside, hsub⟩ := subset_of_collects h hmem (.inr hbody)
    obtain ⟨d, hd, hbinding⟩ := ih ht hinside
    exact ⟨d, hsub hd, hbinding⟩
  | inTemplate hmem htemplate _ ih =>
    have hinner := congrArg (Option.map fun s => Entity.decodeChars (String.toList s)) htemplate
    obtain ⟨inside, hinside, hsub⟩ := subset_of_collects h hmem (.inl hinner)
    obtain ⟨d, hd, hbinding⟩ := ih ht hinside
    exact ⟨d, hsub hd, hbinding⟩

/-! ## Keeping the best -/

/-- The first of the declarations for its binding that say the most. -/
def IsFirstBest (ds : List Declaration) (d : Declaration) : Prop :=
  ∃ before after, ds = before ++ d :: after ∧
    (∀ e ∈ before, e.binding = d.binding → e.score < d.score) ∧
    ∀ e ∈ after, e.binding = d.binding → e.score ≤ d.score

/-- One binding came up before another. -/
def CameBefore (ds : List Declaration) (a b : String × String) : Prop :=
  (ds.map binding).idxOf a < (ds.map binding).idxOf b

/-- What is kept of the declarations that have been taken up. -/
structure IsKept (taken kept : List Declaration) : Prop where
  best : ∀ k ∈ kept, IsFirstBest taken k
  complete : ∀ d ∈ taken, d.binding ∈ kept.map binding
  ordered : (kept.map binding).Pairwise (CameBefore taken)

theorem keep_of_notMem {kept : List Declaration} {d : Declaration}
    (h : d.binding ∉ kept.map binding) : keep kept d = kept ++ [d] := by
  induction kept with
  | nil => rfl
  | cons k ks ih =>
    rw [List.map_cons, List.mem_cons, not_or] at h
    have hne : ¬ sameBinding k d = true := fun hs => h.1 (sameBinding_iff.1 hs).symm
    rw [keep, if_neg hne, ih h.2, List.cons_append]

/-- Where the binding has come up, at most its declaration is exchanged. -/
theorem keep_of_mem {kept : List Declaration} {d : Declaration}
    (h : d.binding ∈ kept.map binding) : ∃ before k after, kept = before ++ k :: after ∧
      k.binding = d.binding ∧
      keep kept d = before ++ (if k.score < d.score then d else k) :: after := by
  induction kept with
  | nil => exact absurd h List.not_mem_nil
  | cons k ks ih =>
    by_cases hs : sameBinding k d = true
    · refine ⟨[], k, ks, rfl, sameBinding_iff.1 hs, ?_⟩
      rw [keep, if_pos hs]
      split <;> rfl
    · have hne : d.binding ≠ k.binding := fun he => hs (sameBinding_iff.2 he.symm)
      obtain ⟨before, k', after, rfl, hbinding, hkeep⟩ :=
        ih (List.mem_of_ne_of_mem hne h)
      refine ⟨k :: before, k', after, rfl, hbinding, ?_⟩
      rw [keep, if_neg hs, hkeep, List.cons_append]

theorem IsFirstBest.snoc {taken : List Declaration} {d k : Declaration} (h : IsFirstBest taken k)
    (hscore : d.binding = k.binding → d.score ≤ k.score) : IsFirstBest (taken ++ [d]) k := by
  obtain ⟨before, after, rfl, hbefore, hafter⟩ := h
  refine ⟨before, after ++ [d], by simp, hbefore, ?_⟩
  intro e he
  rcases List.mem_append.1 he with he | he
  · exact hafter e he
  · obtain rfl := List.mem_singleton.1 he
    exact hscore

/-- A declaration that says more than the best so far is the first to say so much. -/
theorem IsFirstBest.exchange {taken : List Declaration} {d k : Declaration}
    (h : IsFirstBest taken k) (hbinding : k.binding = d.binding) (hscore : k.score < d.score) :
    IsFirstBest (taken ++ [d]) d := by
  obtain ⟨before, after, rfl, hbefore, hafter⟩ := h
  refine ⟨before ++ k :: after, [], rfl, ?_, fun e he => nomatch he⟩
  intro e he hsame
  have he' : e.binding = k.binding := hsame.trans hbinding.symm
  rcases List.mem_append.1 he with he | he
  · exact Nat.lt_trans (hbefore e he he') hscore
  · rcases List.mem_cons.1 he with rfl | he
    · exact hscore
    · exact Nat.lt_of_le_of_lt (hafter e he he') hscore

theorem CameBefore.snoc {taken : List Declaration} {a b : String × String} (d : Declaration)
    (hb : b ∈ taken.map binding) (h : CameBefore taken a b) : CameBefore (taken ++ [d]) a b := by
  have ha : a ∈ taken.map binding := by
    rw [← List.idxOf_lt_length_iff]
    exact Nat.lt_trans h (List.idxOf_lt_length_iff.2 hb)
  rw [CameBefore, List.map_append, List.idxOf_append_of_mem ha, List.idxOf_append_of_mem hb]
  exact h

theorem IsKept.mem {taken kept : List Declaration} (h : IsKept taken kept) {b : String × String}
    (hb : b ∈ kept.map binding) : b ∈ taken.map binding := by
  obtain ⟨k, hk, rfl⟩ := List.mem_map.1 hb
  obtain ⟨before, after, rfl, -, -⟩ := h.best k hk
  exact List.mem_map_of_mem (List.mem_append_right _ List.mem_cons_self)

theorem IsKept.ordered_snoc {taken kept : List Declaration} (h : IsKept taken kept)
    (d : Declaration) : (kept.map binding).Pairwise (CameBefore (taken ++ [d])) :=
  h.ordered.imp_of_mem fun _ hb hab => hab.snoc d (h.mem hb)

theorem IsKept.nodup {taken kept : List Declaration} (h : IsKept taken kept) :
    (kept.map binding).Nodup := by
  refine h.ordered.imp fun {a b} hab he => ?_
  rw [he] at hab
  exact Nat.lt_irrefl _ hab

/-- Taking up a declaration keeps the best ones. -/
theorem IsKept.keep {taken kept : List Declaration} (h : IsKept taken kept) (d : Declaration) :
    IsKept (taken ++ [d]) (keep kept d) := by
  have hordered := h.ordered_snoc d
  by_cases hd : d.binding ∈ kept.map binding
  · obtain ⟨before, k, after, rfl, hbinding, hkeep⟩ := keep_of_mem hd
    have hmap : (Declaration.keep (before ++ k :: after) d).map binding =
        (before ++ k :: after).map binding := by
      rw [hkeep, List.map_append, List.map_cons, List.map_append, List.map_cons]
      split
      · rw [hbinding]
      · rfl
    refine ⟨?_, ?_, hmap ▸ hordered⟩
    · -- The other declarations are for other bindings, so the new one does not compete with them.
      have hothers : ∀ e, e ∈ before ∨ e ∈ after → IsFirstBest (taken ++ [d]) e := by
        intro e he
        have hnodup := h.nodup
        rw [List.map_append, List.map_cons, List.nodup_middle, List.nodup_cons,
          ← List.map_append] at hnodup
        have hne : d.binding ≠ e.binding := by
          intro hsame
          rw [hbinding, hsame] at hnodup
          exact hnodup.1 (List.mem_map_of_mem (List.mem_append.2 he))
        have hmem : e ∈ before ++ k :: after :=
          List.mem_append.2 (he.imp id (List.mem_cons_of_mem k))
        exact (h.best e hmem).snoc fun hsame => absurd hsame hne
      have hk := h.best k (List.mem_append_right _ List.mem_cons_self)
      intro e he
      rw [hkeep] at he
      rcases List.mem_append.1 he with he | he
      · exact hothers e (.inl he)
      rcases List.mem_cons.1 he with rfl | he
      · split
        · exact hk.exchange hbinding ‹_›
        · exact hk.snoc fun _ => Nat.le_of_not_lt ‹_›
      · exact hothers e (.inr he)
    · intro e he
      rw [hmap]
      rcases List.mem_append.1 he with he | he
      · exact h.complete e he
      · obtain rfl := List.mem_singleton.1 he
        exact hd
  · rw [keep_of_notMem hd]
    have hnew : d.binding ∉ taken.map binding := fun hmem => by
      obtain ⟨e, he, hsame⟩ := List.mem_map.1 hmem
      exact hd (hsame ▸ h.complete e he)
    refine ⟨?_, ?_, ?_⟩
    · intro e he
      rcases List.mem_append.1 he with he | he
      · refine (h.best e he).snoc fun hsame => absurd ?_ hd
        exact hsame ▸ List.mem_map_of_mem he
      · obtain rfl := List.mem_singleton.1 he
        refine ⟨taken, [], rfl, fun e' he' hsame => ?_, fun e' he' => nomatch he'⟩
        exact absurd (hsame ▸ List.mem_map_of_mem he') hnew
    · intro e he
      rw [List.map_append]
      rcases List.mem_append.1 he with he | he
      · exact List.mem_append_left _ (h.complete e he)
      · exact List.mem_append_right _ (List.mem_map_of_mem he)
    · rw [List.map_append, List.pairwise_append]
      refine ⟨hordered, List.pairwise_singleton _ _, ?_⟩
      intro a ha b hb
      obtain rfl := List.mem_singleton.1 hb
      have ha' := h.mem ha
      rw [CameBefore, List.map_append, List.idxOf_append_of_mem ha',
        List.idxOf_append_of_notMem hnew]
      exact Nat.lt_of_lt_of_le (List.idxOf_lt_length_iff.2 ha') (Nat.le_add_right _ _)

theorem isKept_distinct (ds : List Declaration) : IsKept ds (distinct ds) := by
  suffices hrun : ∀ taken kept, IsKept taken kept →
      IsKept (taken ++ ds) (ds.foldl Declaration.keep kept) from
    hrun [] [] ⟨fun _ hk => (nomatch hk), fun _ hd => (nomatch hd), .nil⟩
  induction ds with
  | nil =>
    intro taken kept h
    rwa [List.append_nil]
  | cons d ds ih =>
    intro taken kept h
    have hstep := ih _ _ (h.keep d)
    rwa [List.append_assoc, List.singleton_append] at hstep

/-! ## Their controls -/

end Declaration

/-- The panel and the place of a control. -/
def Control.binding (c : Control) : String × String := (c.panelId, c.path)

/-- A control with the data of a declaration. -/
structure Control.Carries (c : Control) (d : Declaration) : Prop where
  binding : c.binding = d.binding
  type : c.type = d.type
  groupId : c.groupId = d.groupId
  label : c.label = d.label
  showIf : c.showIf = d.showIf
  options : c.options = d.options
  min : c.min = d.min
  max : c.max = d.max
  allowImage : c.allowImage = d.allowImage

namespace Declaration

theorem carries_of_toControl? {d : Declaration} {defaults : Node} {c : Control}
    (h : d.toControl? defaults = some c) : c.Carries d := by
  obtain ⟨inferred, -, rfl⟩ := Option.map_eq_some_iff.1 h
  exact ⟨rfl, rfl, rfl, rfl, rfl, rfl, rfl, rfl, rfl⟩

theorem carries_of_toControls {defaults : Node} {ds : List Declaration} {cs : List Control}
    (h : toControls defaults ds = .ok cs) : List.Forall₂ Control.Carries cs ds := by
  induction ds generalizing cs with
  | nil =>
    obtain rfl := Except.ok.inj h
    exact .nil
  | cons d ds ih =>
    unfold toControls at h
    split at h
    · cases h
    · rename_i c hcontrol
      obtain ⟨rest, hrest, rfl⟩ := map_eq_ok_iff.1 h
      exact .cons (carries_of_toControl? hcontrol) (ih hrest)

theorem map_binding_of_carries {cs : List Control} {ds : List Declaration}
    (h : List.Forall₂ Control.Carries cs ds) : cs.map Control.binding = ds.map binding := by
  induction h with
  | nil => rfl
  | cons hc _ ih => rw [List.map_cons, List.map_cons, hc.binding, ih]

theorem exists_carried {cs : List Control} {ds : List Declaration}
    (h : List.Forall₂ Control.Carries cs ds) : ∀ c ∈ cs, ∃ d ∈ ds, c.Carries d := by
  induction h with
  | nil => exact fun c hc => nomatch hc
  | @cons c d cs ds hc _ ih =>
    intro c' hc'
    rcases List.mem_cons.1 hc' with rfl | hc'
    · exact ⟨d, List.mem_cons_self, hc⟩
    · obtain ⟨d', hd', hcarries⟩ := ih c' hc'
      exact ⟨d', List.mem_cons_of_mem d hd', hcarries⟩

theorem eq_of_binding {cs : List Control} (h : (cs.map Control.binding).Nodup) {a b : Control}
    (ha : a ∈ cs) (hb : b ∈ cs) (hsame : a.binding = b.binding) : a = b :=
  List.inj_on_of_nodup_map h ha hb hsame

/-- The controls of panels stand for their declarations, one for each panel and place: every
field tag with a type and a path has exactly one, at whatever depth it stands, and a control
carries the first of the declarations that say the most. -/
theorem every_place_has_the_control_of_its_best_declaration {ps : List Panel} {defaults : Node}
    {cs : List Control} (h : controls ps defaults = .ok cs) :
    ∃ declared, (ps.mapM fun p => collect p.id p.markup.toList) = .ok declared ∧
      (∀ p ∈ ps, ∀ t path, Holds p.markup.toList t → t.Names path →
        ∃! c, c ∈ cs ∧ c.panelId = p.id ∧ c.path = path) ∧
      (cs.map Control.binding).Nodup ∧
      (∀ c ∈ cs, ∃ d, IsFirstBest declared.flatten d ∧ c.Carries d) ∧
      (∀ d ∈ declared.flatten, d.binding ∈ cs.map Control.binding) ∧
      (cs.map Control.binding).Pairwise (CameBefore declared.flatten) := by
  unfold controls at h
  split at h
  · cases h
  rename_i ds hds
  obtain ⟨declared, hdeclared, hds⟩ := bind_eq_ok_iff.1 hds
  obtain rfl := Except.ok.inj hds
  have hkept := isKept_distinct declared.flatten
  have hcarries := carries_of_toControls h
  have hmap := map_binding_of_carries hcarries
  have hnodup : (cs.map Control.binding).Nodup := hmap ▸ hkept.nodup
  have hcomplete : ∀ d ∈ declared.flatten, d.binding ∈ cs.map Control.binding :=
    hmap ▸ hkept.complete
  refine ⟨declared, hdeclared, ?_, hnodup, ?_, hcomplete, hmap ▸ hkept.ordered⟩
  · intro p hp t path hheld ht
    obtain ⟨part, hpart, hrun⟩ := (relates_of_mapM_eq_ok hdeclared fun _ _ h => h).1 p hp
    obtain ⟨d, hd, hbinding⟩ := exists_mem_of_collect hheld ht hrun
    obtain ⟨c, hc, hcd⟩ := List.mem_map.1 (hcomplete d (List.mem_flatten.2 ⟨part, hpart, hd⟩))
    have hpair : (c.panelId, c.path) = (p.id, path) := hcd.trans hbinding
    obtain ⟨hid, hpath⟩ := Prod.mk.inj hpair
    refine ⟨c, ⟨hc, hid, hpath⟩, ?_⟩
    rintro c' ⟨hc', hid', hpath'⟩
    refine eq_of_binding hnodup hc' hc ?_
    rw [Control.binding, Control.binding, hid', hpath', hid, hpath]
  · intro c hc
    obtain ⟨d, hd, hcd⟩ := exists_carried hcarries c hc
    exact ⟨d, hkept.best d hd, hcd⟩

/-- A list of answers. Its body binds the text of an answer, and so does a preview behind it. -/
def answersPanel : Panel where
  id := "content"
  markup := "<tooldrawer-field type='list' path='q'>" ++
    "<tooldrawer-field type='text' path='q.__i__.a' /></tooldrawer-field>" ++
    "<p data-bob-path='q.__i__.a'></p>"

def answersDefaults : Node := .object [("q", .array [.object [("a", .string "")]])]

/-- The tag of the list, and the one in its body. -/
def listTag : FieldTag where
  source := ("<tooldrawer-field type='list' path='q'>" ++
    "<tooldrawer-field type='text' path='q.__i__.a' /></tooldrawer-field>").toList
  group := none
  attrs := " type='list' path='q'".toList
  inner := some "<tooldrawer-field type='text' path='q.__i__.a' />".toList

def answerTag : FieldTag where
  source := "<tooldrawer-field type='text' path='q.__i__.a' />".toList
  group := none
  attrs := " type='text' path='q.__i__.a' ".toList
  inner := none

theorem holds_answerTag : Holds answersPanel.markup.toList answerTag := by
  have hlist : listTag ∈ fieldTags answersPanel.markup.toList := by decide +kernel
  exact .inBody hlist rfl (.here (by decide +kernel))

theorem the_text_of_an_answer_has_one_control :
    ∃ cs, controls [answersPanel] answersDefaults = .ok cs ∧
      ∃! c, c ∈ cs ∧ c.panelId = "content" ∧ c.path = "q.__i__.a" := by
  have hok : (controls [answersPanel] answersDefaults).toOption.isSome = true := by decide +kernel
  rcases hrun : controls [answersPanel] answersDefaults with e | cs
  · rw [hrun] at hok
    cases hok
  · obtain ⟨-, -, hone, -⟩ := every_place_has_the_control_of_its_best_declaration hrun
    have hnames : answerTag.Names "q.__i__.a" := ⟨by decide +kernel, by decide +kernel⟩
    exact ⟨cs, rfl, hone _ List.mem_cons_self _ _ holds_answerTag hnames⟩

end Declaration

end WidgetSchema
