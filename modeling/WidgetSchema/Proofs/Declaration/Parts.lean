-- What markup declares, tag by tag: every field tag declares itself, then what its template
-- declares, then what its body does. The bare bindings of the markup come last. So what holds of
-- all declarations of tags and of bare bindings holds of all that is declared.
import WidgetSchema.Declaration.Inference
import WidgetSchema.Proofs.Checked
import WidgetSchema.Proofs.Markup.Held
namespace WidgetSchema.Declaration

open Markup

/-- The declarations of markup, where there is any. -/
inductive Collects (panelId : String) : Option (List Char) → List Declaration → Prop
  | none : Collects panelId none []
  | some {markup : List Char} {ds : List Declaration} :
      collect panelId markup = .ok ds → Collects panelId (some markup) ds

/-- The template of a field tag as markup. -/
def template? (t : FieldTag) : Option (List Char) :=
  (t.attributes.get? "template").map fun template => Entity.decodeChars template.toList

theorem length_template? {t : FieldTag} {template : List Char} (h : template? t = some template) :
    template.length < t.attrs.length := by
  obtain ⟨value, hvalue, rfl⟩ := Option.map_eq_some_iff.1 h
  have hdecoded := Entity.length_decodeChars_le value.toList
  have hattribute := Attributes.length_get?_ofChars hvalue
  omega

/-- The declarations of a field tag with all that is in it. -/
structure IsPart (panelId : String) (t : FieldTag) (part : List Declaration) : Prop where
  split : ∃ own inTemplate inBody, part = own ++ inTemplate ++ inBody ∧
    ofTag panelId t = .ok own ∧ Collects panelId (template? t) inTemplate ∧
    Collects panelId t.inner inBody

theorem collects_of_elim {panelId : String} {markup : Option (List Char)} {ds : List Declaration}
    (h : markup.elim (pure []) (collect panelId) = .ok ds) : Collects panelId markup ds := by
  cases markup with
  | none =>
    obtain rfl := Except.ok.inj h
    exact .none
  | some markup => exact .some h

/-! ## One level of the collector -/

/-- What a field tag declares, by what the markup in it is said to declare. -/
def tagLevel (panelId : String) (ask : List Char → Except ChoicesError (List Declaration))
    (t : FieldTag) : Except ChoicesError (List Declaration) := do
  let own ← ofTag panelId t
  let inTemplate ← (template? t).elim (pure []) ask
  let inBody ← t.inner.elim (pure []) ask
  return own ++ inTemplate ++ inBody

/-- What markup declares, by what the markup in its field tags is said to declare. -/
def collectLevel (panelId : String) (ask : List Char → Except ChoicesError (List Declaration))
    (markup : List Char) : Except ChoicesError (List Declaration) := do
  let tagged ← (fieldTags markup).mapM (tagLevel panelId ask)
  return tagged.flatten ++ (boundPaths markup).map (generic panelId)

/-- The collector asks itself about the markup in field tags. -/
theorem collect_eq (panelId : String) (markup : List Char) :
    collect panelId markup = collectLevel panelId (collect panelId) markup := by
  rw [collect, collectLevel, ← mapM_attach (tagLevel panelId (collect panelId))]
  congr 2
  funext ⟨t, ht⟩
  unfold tagLevel template? FieldTag.attributes Function.comp
  refine bind_congr fun own => ?_
  dsimp only
  -- The matches keep their equations for the measure, so they are taken apart one by one.
  split
  all_goals
    rename_i htemplate
    rw [htemplate]
    refine bind_congr fun inTemplate => ?_
    split
    all_goals
      rename_i hbody
      rw [hbody]
      rfl

theorem parts_of_collect {panelId : String} {markup : List Char} {ds : List Declaration}
    (h : collect panelId markup = .ok ds) :
    ∃ parts : List (List Declaration),
      ds = parts.flatten ++ (boundPaths markup).map (generic panelId) ∧
      (∀ t ∈ fieldTags markup, ∃ part ∈ parts, IsPart panelId t part) ∧
      ∀ part ∈ parts, ∃ t ∈ fieldTags markup, IsPart panelId t part := by
  rw [collect_eq] at h
  obtain ⟨parts, hparts, h⟩ := bind_eq_ok_iff.1 h
  obtain rfl := Except.ok.inj h
  refine ⟨parts, rfl, relates_of_mapM_eq_ok hparts fun t part hpart => ?_⟩
  obtain ⟨own, hown, hpart⟩ := bind_eq_ok_iff.1 hpart
  obtain ⟨inTemplate, hinTemplate, hpart⟩ := bind_eq_ok_iff.1 hpart
  obtain ⟨inBody, hinBody, hpart⟩ := bind_eq_ok_iff.1 hpart
  obtain rfl := Except.ok.inj hpart
  exact ⟨own, inTemplate, inBody, rfl, hown, collects_of_elim hinTemplate, collects_of_elim hinBody⟩

/-! ## Where a declaration comes from -/

/-- A declaration of markup is one of a field tag, one of the shorter markup in a tag, or a bare
binding. -/
theorem source_of_mem_collect {panelId : String} {markup : List Char} {ds : List Declaration}
    {d : Declaration} (h : collect panelId markup = .ok ds) (hd : d ∈ ds) :
    (∃ t own, ofTag panelId t = .ok own ∧ d ∈ own) ∨
      (∃ shorter inner, shorter.length < markup.length ∧ collect panelId shorter = .ok inner ∧
        d ∈ inner) ∨
      ∃ path, d = generic panelId path := by
  obtain ⟨parts, rfl, -, hparts⟩ := parts_of_collect h
  rcases (List.mem_append.1 hd).symm with hd | hd
  · obtain ⟨path, -, rfl⟩ := List.mem_map.1 hd
    exact .inr (.inr ⟨path, rfl⟩)
  obtain ⟨part, hpart, hd⟩ := List.mem_flatten.1 hd
  obtain ⟨t, ht, own, inTemplate, inBody, rfl, hown, hinTemplate, hinBody⟩ := hparts part hpart
  have hshorter : ∀ m ds, (∀ shorter, m = some shorter → shorter.length < markup.length) →
      Collects panelId m ds → d ∈ ds → ∃ shorter inner, shorter.length < markup.length ∧
        collect panelId shorter = .ok inner ∧ d ∈ inner := by
    intro m ds hlength hds hd
    cases hds with
    | none => exact absurd hd List.not_mem_nil
    | some hrun => exact ⟨_, ds, hlength _ rfl, hrun, hd⟩
  obtain ⟨hattrs, hbody⟩ := length_of_mem_fieldTags ht
  simp only [List.mem_append] at hd
  rcases hd with (hd | hd) | hd
  · exact .inl ⟨t, own, hown, hd⟩
  · have htemplate : ∀ shorter, template? t = some shorter → shorter.length < markup.length :=
      fun shorter h => Nat.lt_trans (length_template? h) hattrs
    exact .inr (.inl (hshorter _ _ htemplate hinTemplate hd))
  · exact .inr (.inl (hshorter _ _ hbody hinBody hd))

/-- A declaration of a field tag is one for the given panel, and a bound of it is a number that was
written. -/
theorem panelId_and_bounds_of_mem_ofTag {panelId : String} {t : FieldTag} {ds : List Declaration}
    {d : Declaration} (h : ofTag panelId t = .ok ds) (hd : d ∈ ds) :
    d.panelId = panelId ∧ ∃ low high : Option String,
      d.min = low.bind numberValue? ∧ d.max = high.bind numberValue? := by
  unfold ofTag at h
  dsimp only at h
  split at h
  · obtain ⟨options, -, h⟩ := bind_eq_ok_iff.1 h
    obtain rfl := Except.ok.inj h
    rcases List.mem_cons.1 hd with rfl | hd
    · exact ⟨rfl, _, _, rfl, rfl⟩
    · obtain ⟨path, -, hpath⟩ := List.mem_filterMap.1 hd
      split at hpath
      · obtain rfl := Option.some.inj hpath
        exact ⟨rfl, none, none, rfl, rfl⟩
      · cases hpath
  · obtain rfl := Except.ok.inj h
    cases hd

theorem forall_mem_collect {panelId : String} {P : Declaration → Prop}
    (htag : ∀ t own, ofTag panelId t = .ok own → ∀ d ∈ own, P d)
    (hgeneric : ∀ path, P (generic panelId path)) {markup : List Char} {ds : List Declaration}
    (h : collect panelId markup = .ok ds) : ∀ d ∈ ds, P d := by
  induction hlength : markup.length using Nat.strongRecOn generalizing markup ds with
  | ind n ih =>
    intro d hd
    obtain ⟨t, own, hown, hd⟩ | ⟨shorter, inner, hshorter, hinner, hd⟩ | ⟨path, rfl⟩ :=
      source_of_mem_collect h hd
    · exact htag t own hown d hd
    · exact ih shorter.length (hlength ▸ hshorter) hinner rfl d hd
    · exact hgeneric path

theorem mem_of_mem_keep {d x : Declaration} {ks : List Declaration} (h : x ∈ keep ks d) :
    x = d ∨ x ∈ ks := by
  induction ks with
  | nil => exact .inl (List.mem_singleton.1 h)
  | cons k ks ih =>
    unfold keep at h
    split at h
    · split at h
      · rcases List.mem_cons.1 h with h | h
        · exact .inl h
        · exact .inr (List.mem_cons_of_mem k h)
      · exact .inr h
    · rcases List.mem_cons.1 h with rfl | h
      · exact .inr List.mem_cons_self
      · exact (ih h).imp id (List.mem_cons_of_mem k)

theorem mem_of_mem_distinct {x : Declaration} {ds : List Declaration} (h : x ∈ distinct ds) :
    x ∈ ds := by
  suffices hrun : ∀ kept, x ∈ ds.foldl keep kept → x ∈ kept ∨ x ∈ ds from
    (hrun [] h).resolve_left List.not_mem_nil
  clear h
  induction ds with
  | nil => exact fun kept h => .inl h
  | cons d ds ih =>
    intro kept h
    rcases ih _ h with hkept | hrest
    · rcases mem_of_mem_keep hkept with rfl | hkept
      · exact .inr List.mem_cons_self
      · exact .inl hkept
    · exact .inr (List.mem_cons_of_mem d hrest)

/-- What is declared by panels is declared by one of them. -/
theorem exists_collect_of_ofPanels {ps : List Panel} {ds : List Declaration}
    (h : ofPanels ps = .ok ds) {d : Declaration} (hd : d ∈ ds) :
    ∃ p ∈ ps, ∃ part, collect p.id p.markup.toList = .ok part ∧ d ∈ part := by
  obtain ⟨declared, hdeclared, h⟩ := bind_eq_ok_iff.1 h
  obtain rfl := Except.ok.inj h
  obtain ⟨part, hpart, hd⟩ := List.mem_flatten.1 (mem_of_mem_distinct hd)
  obtain ⟨p, hp, hrun⟩ := exists_of_mapM_eq_ok hdeclared part hpart
  exact ⟨p, hp, part, hrun, hd⟩

theorem exists_of_mem_toControls {defaults : Node} {ds : List Declaration} {cs : List Control}
    (h : toControls defaults ds = .ok cs) :
    ∀ c ∈ cs, ∃ d ∈ ds, d.toControl? defaults = some c := by
  induction ds generalizing cs with
  | nil =>
    obtain rfl := Except.ok.inj h
    exact fun c hc => nomatch hc
  | cons d ds ih =>
    unfold toControls at h
    split at h
    · cases h
    · rename_i c hcontrol
      obtain ⟨rest, hrest, rfl⟩ := map_eq_ok_iff.1 h
      intro c' hc'
      rcases List.mem_cons.1 hc' with rfl | hc'
      · exact ⟨d, List.mem_cons_self, hcontrol⟩
      · obtain ⟨d', hd', hfound⟩ := ih hrest c' hc'
        exact ⟨d', List.mem_cons_of_mem d hd', hfound⟩

/-- Every control stands for a declaration of one of the panels. -/
theorem exists_collect_of_controls {ps : List Panel} {defaults : Node} {cs : List Control}
    (h : controls ps defaults = .ok cs) : ∀ c ∈ cs, ∃ p ∈ ps, ∃ part,
      collect p.id p.markup.toList = .ok part ∧ ∃ d ∈ part, d.toControl? defaults = some c := by
  unfold controls at h
  split at h
  · cases h
  · rename_i ds hds
    intro c hc
    obtain ⟨d, hd, hcontrol⟩ := exists_of_mem_toControls h c hc
    obtain ⟨p, hp, part, hrun, hpart⟩ := exists_collect_of_ofPanels hds hd
    exact ⟨p, hp, part, hrun, d, hpart, hcontrol⟩

end WidgetSchema.Declaration
