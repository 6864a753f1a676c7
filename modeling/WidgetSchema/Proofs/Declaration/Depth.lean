-- How deep markup goes. A collector goes on with the bodies of field tags and with their templates,
-- which are decoded first, so they are no part of the markup. Still they are shorter: a template
-- stands between quotes, and decoding makes no text longer. So whoever follows a collector down more
-- levels than the markup has characters finds it at its end.
import Mathlib.Logic.Function.Iterate
import WidgetSchema.Component.Usage
import WidgetSchema.Proofs.Declaration.Parts
import WidgetSchema.Proofs.Markup.Values
namespace WidgetSchema

open Text Markup

/-! ## Bytes of decoded text -/

theorem Text.byteSize_mono {as bs : List Char} (h : as <:+: bs) :
    byteSize as ≤ byteSize bs := by
  obtain ⟨first, last, rfl⟩ := h
  simp only [byteSize_append]
  omega

namespace Entity

theorem byteSize_replaceChars_le {word new : List Char} (h : byteSize new ≤ byteSize word)
    (cs : List Char) : byteSize (replaceChars word new cs) ≤ byteSize cs := by
  fun_induction replaceChars word new cs with
  | case1 => exact Nat.le_refl _
  | case2 cs hw before rest hc _ ih =>
    rw [← append_of_cutAt hc]
    simp only [byteSize_append]
    omega
  | case3 => exact Nat.le_refl _

/-- Decoding makes no text take more bytes. -/
theorem byteSize_decodeChars_le (cs : List Char) : byteSize (decodeChars cs) ≤ byteSize cs := by
  have hstep : ∀ p ∈ table, byteSize p.2.toList ≤ byteSize p.1.toList := by decide
  suffices hrun : ∀ entities : List (String × String), entities ⊆ table → ∀ cs : List Char,
      byteSize (entities.foldl (fun cs p => replaceChars p.1.toList p.2.toList cs) cs) ≤
        byteSize cs from hrun table (List.Subset.refl _) cs
  intro entities
  induction entities with
  | nil => exact fun _ cs => Nat.le_refl _
  | cons p entities ih =>
    intro hsub cs
    have hp := hstep p (hsub List.mem_cons_self)
    exact Nat.le_trans (ih (fun q hq => hsub (List.mem_cons_of_mem p hq)) _)
      (byteSize_replaceChars_le hp cs)

end Entity

/-! ## What a collector goes on with -/

namespace Markup

/-- Markup that a collector goes on with: the body of a field tag, or its template. -/
inductive GoesOn (markup : List Char) : List Char → Prop
  | inBody {t : FieldTag} {body : List Char} (ht : t ∈ fieldTags markup)
    (hbody : t.inner = some body) : GoesOn markup body
  | inTemplate {t : FieldTag} {template : List Char} (ht : t ∈ fieldTags markup)
    (htemplate : Declaration.template? t = some template) : GoesOn markup template

variable {markup part : List Char} {t : FieldTag}

namespace IsWritten

theorem byteSize_attrs (h : IsWritten t) : byteSize t.attrs < byteSize t.source := by
  have hend := Char.utf8Size_pos '>'
  cases h with
  | closed =>
    simp only [byteSize_append, byteSize_cons]
    omega
  | wrapping =>
    simp only [byteSize_append, byteSize_cons]
    omega

theorem byteSize_inner (h : IsWritten t) {body : List Char} (hb : t.inner = some body) :
    byteSize body < byteSize t.source := by
  have hend := Char.utf8Size_pos '>'
  cases h with
  | closed => cases hb
  | wrapping =>
    obtain rfl := Option.some.inj hb
    simp only [byteSize_append, byteSize_cons]
    omega

end IsWritten

theorem byteSize_template? {template : List Char}
    (h : Declaration.template? t = some template) : byteSize template ≤ byteSize t.attrs := by
  obtain ⟨value, hvalue, rfl⟩ := Option.map_eq_some_iff.1 h
  obtain ⟨quote, before, after, -, -, hattrs⟩ := Attributes.standsQuoted_of_get? hvalue
  have hin : value.toList <:+: t.attrs :=
    ⟨before ++ [quote], quote :: after, by rw [hattrs]; simp⟩
  exact Nat.le_trans (Entity.byteSize_decodeChars_le _) (byteSize_mono hin)

/-- It is shorter than the markup, in characters and in bytes. -/
theorem GoesOn.shorter (h : GoesOn markup part) :
    part.length < markup.length ∧ byteSize part < byteSize markup := by
  cases h with
  | inBody ht hbody =>
    obtain ⟨hwritten, hsource⟩ := source_infix_of_mem_fieldTags ht
    have hbytes := hwritten.byteSize_inner hbody
    have hmarkup := byteSize_mono hsource
    exact ⟨(length_of_mem_fieldTags ht).2 _ hbody, by omega⟩
  | inTemplate ht htemplate =>
    obtain ⟨hwritten, hsource⟩ := source_infix_of_mem_fieldTags ht
    have hbytes := byteSize_template? htemplate
    have hattrs := hwritten.byteSize_attrs
    have hmarkup := byteSize_mono hsource
    have hlength := Declaration.length_template? htemplate
    exact ⟨Nat.lt_trans hlength (length_of_mem_fieldTags ht).1, by omega⟩

/-! ## Levels -/

/-- A collector by one level of it: what it makes of markup, given answers about the markup that it
goes on with. With its own answers the level is the collector. No other answers count, and behind
more levels than the markup has characters no answer is asked for any more. -/
structure EndsBelow {α : Type} (level : (List Char → α) → List Char → α) (run : List Char → α)
    (markup : List Char) : Prop where
  run_eq : run markup = level run markup
  asks : ∀ ask ask', (∀ part, GoesOn markup part → ask part = ask' part) →
    level ask markup = level ask' markup
  ends : ∀ ask n, markup.length < n → level^[n] ask markup = run markup

theorem endsBelow {α : Type} {level : (List Char → α) → List Char → α} {run : List Char → α}
    (heq : ∀ markup, run markup = level run markup)
    (hasks : ∀ markup ask ask', (∀ part, GoesOn markup part → ask part = ask' part) →
      level ask markup = level ask' markup) (markup : List Char) :
    EndsBelow level run markup where
  run_eq := heq markup
  asks := hasks markup
  ends ask n := by
    -- One level less is left for the markup that the outermost level goes on with, which is shorter.
    induction n generalizing markup with
    | zero => exact fun h => absurd h (Nat.not_lt_zero _)
    | succ n ih =>
      intro h
      rw [Function.iterate_succ_apply', heq markup]
      apply hasks
      intro part hpart
      have hshorter := hpart.shorter.1
      exact ih part (by omega)

end Markup

/-! ## Declarations -/

namespace Declaration

theorem tagLevel_congr {markup : List Char} {t : FieldTag} (ht : t ∈ fieldTags markup)
    (panelId : String) {ask ask' : List Char → Except ChoicesError (List Declaration)}
    (h : ∀ part, GoesOn markup part → ask part = ask' part) :
    tagLevel panelId ask t = tagLevel panelId ask' t := by
  have htemplate : (template? t).elim (pure []) ask = (template? t).elim (pure []) ask' := by
    rcases hm : template? t with _ | template
    · rfl
    · exact h _ (.inTemplate ht hm)
  have hbody : t.inner.elim (pure []) ask = t.inner.elim (pure []) ask' := by
    rcases hi : t.inner with _ | body
    · rfl
    · exact h _ (.inBody ht hi)
  rw [tagLevel, htemplate, hbody, tagLevel]

theorem collectLevel_congr (panelId : String) (markup : List Char)
    (ask ask' : List Char → Except ChoicesError (List Declaration))
    (h : ∀ part, GoesOn markup part → ask part = ask' part) :
    collectLevel panelId ask markup = collectLevel panelId ask' markup := by
  unfold collectLevel
  rw [mapM_congr_of_mem fun t ht => tagLevel_congr ht panelId h]

end Declaration

/-! ## Types of fields -/

namespace Usages

/-- The types of a field tag, by what the markup in it is said to add. -/
def tagLevel (ask : List Char → Usages → Usages) (u : Usages) (t : FieldTag) : Usages :=
  let own := (t.attributes.get? "type").elim u u.require
  let withTemplate := (Declaration.template? t).elim own fun template =>
    (ask template own).addHints template
  t.inner.elim withTemplate fun body => ask body withTemplate

def addTypesLevel (ask : List Char → Usages → Usages) (markup : List Char) (u : Usages) :
    Usages :=
  (fieldTags markup).foldl (tagLevel ask) u

theorem addTypes_eq (markup : List Char) (u : Usages) :
    addTypes u markup = addTypesLevel (fun markup u => addTypes u markup) markup u := by
  have htags : (fieldTags markup).foldl (tagLevel fun markup u => addTypes u markup) u =
      (fieldTags markup).attach.foldl
        (fun u t => tagLevel (fun markup u => addTypes u markup) u t.1) u :=
    List.foldl_attach.symm
  rw [addTypes, addTypesLevel, htags]
  congr 1
  funext u ⟨t, ht⟩
  unfold tagLevel Declaration.template? FieldTag.attributes
  dsimp only
  cases (Attributes.ofChars t.attrs).get? "type"
  all_goals
    dsimp only [Option.elim_none, Option.elim_some]
    split
    all_goals
      rename_i hbody
      rw [hbody]
      split
      all_goals
        rename_i htemplate
        rw [htemplate]
        rfl

theorem tagLevel_congr {markup : List Char} {t : FieldTag} (ht : t ∈ fieldTags markup)
    {ask ask' : List Char → Usages → Usages}
    (h : ∀ part, GoesOn markup part → ask part = ask' part) (u : Usages) :
    tagLevel ask u t = tagLevel ask' u t := by
  unfold tagLevel
  rcases hm : Declaration.template? t with _ | template
  · rcases hi : t.inner with _ | body
    · rfl
    · simp only [Option.elim_none, Option.elim_some, h body (.inBody ht hi)]
  · have htemplate := h template (.inTemplate ht hm)
    rcases hi : t.inner with _ | body
    · simp only [Option.elim_none, Option.elim_some, htemplate]
    · simp only [Option.elim_some, htemplate, h body (.inBody ht hi)]

theorem addTypesLevel_congr (markup : List Char) (ask ask' : List Char → Usages → Usages)
    (h : ∀ part, GoesOn markup part → ask part = ask' part) :
    addTypesLevel ask markup = addTypesLevel ask' markup := by
  funext u
  unfold addTypesLevel
  exact List.foldl_ext _ _ _ fun u t ht => tagLevel_congr ht h u

end Usages

/-! ## Both end -/

namespace Markup

/-- The collectors of declarations and of types come to an end on every markup, as they go on with
shorter markup only. -/
theorem collectors_end_as_they_go_on_with_shorter_markup (markup : List Char) :
    (∀ part, GoesOn markup part →
      part.length < markup.length ∧ byteSize part < byteSize markup) ∧
      (∀ panelId, EndsBelow (Declaration.collectLevel panelId) (Declaration.collect panelId)
        markup) ∧
      EndsBelow Usages.addTypesLevel (fun markup u => Usages.addTypes u markup) markup := by
  refine ⟨fun part hpart => hpart.shorter, fun panelId => ?_, ?_⟩
  · exact endsBelow (Declaration.collect_eq panelId) (Declaration.collectLevel_congr panelId) _
  · exact endsBelow (fun markup => funext (Usages.addTypes_eq markup)) Usages.addTypesLevel_congr _

/-- A tag whose template is a tag in its turn. -/
def nestedTemplates : List Char :=
  "<tooldrawer-field template='&lt;tooldrawer-field type=&quot;x&quot;/&gt;'/>".toList

def nestedTemplate : List Char := "<tooldrawer-field type=\"x\"/>".toList

theorem nested_templates_come_to_an_end :
    (nestedTemplate.length < nestedTemplates.length ∧
      byteSize nestedTemplate < byteSize nestedTemplates) ∧
      (Declaration.collectLevel "p")^[100] (fun _ => .ok []) nestedTemplates =
        Declaration.collect "p" nestedTemplates ∧
      Usages.addTypesLevel (fun part u => if part = nestedTemplates then {} else u.addTypes part)
          nestedTemplates {} =
        { required := ["x"] } := by
  obtain ⟨hshorter, hcollect, htypes⟩ :=
    collectors_end_as_they_go_on_with_shorter_markup nestedTemplates
  have htemplate : ∃ t ∈ fieldTags nestedTemplates,
      Declaration.template? t = some nestedTemplate := by decide +kernel
  obtain ⟨t, ht, htemplate⟩ := htemplate
  refine ⟨hshorter _ (.inTemplate ht htemplate), ?_, ?_⟩
  · exact (hcollect "p").ends _ 100 (by decide +kernel)
  · have hasks := htypes.asks
      (fun part u => if part = nestedTemplates then {} else u.addTypes part)
      (fun part u => u.addTypes part) ?_
    · have hrun : Usages.addTypes {} nestedTemplates = { required := ["x"] } := by
        decide +kernel
      exact (congrFun (hasks.trans htypes.run_eq.symm) {}).trans hrun
    · intro part hpart
      have hne : part ≠ nestedTemplates := by
        intro heq
        have hlength := (hshorter part hpart).1
        rw [heq] at hlength
        exact Nat.lt_irrefl _ hlength
      funext u
      exact if_neg hne

end Markup

end WidgetSchema
