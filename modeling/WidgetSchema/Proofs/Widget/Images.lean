-- Whether a fill takes images is decided twice: for its declaration from its attributes alone, for
-- the context it is rendered in also with the label that its component hands down. The decision is
-- the same one but for the label, and the label counts only where neither the attributes nor the
-- path decide. So the two differ just where a label that is handed down speaks of a background.
import WidgetSchema.Proofs.Declaration.Parts
import WidgetSchema.Proofs.Fragment.Rendered
import WidgetSchema.Proofs.Normalization.Defaults
namespace WidgetSchema

open Markup

/-! ## The context of a fill -/

namespace Template

theorem get?_fillMembers (context : Node) (skip : List String) (key : String)
    (ms : List (String × Node)) : Members.get? key (fillMembers context skip ms) =
      (Members.get? key ms).map fun v =>
        if skip.contains key then v else fillNode context skip v := by
  induction ms with
  | nil => rfl
  | cons m ms ih =>
    obtain ⟨k, v⟩ := m
    rw [fillMembers, Members.get?, Members.get?]
    by_cases hk : k = key
    · rw [if_pos hk, if_pos hk, hk, Option.map_some]
    · rw [if_neg hk, if_neg hk, ih]

end Template

namespace Field

theorem get?_setBlank_ne {key other : String} (h : other ≠ key) (context : Members Node)
    (fallback : String) :
    Members.get? other (setBlank context key fallback) = Members.get? other context := by
  unfold setBlank
  split
  · exact Members.get?_set_ne h _ _
  · exact Members.get?_set_ne h _ _
  · rfl

/-- The context of a fill says whether it takes images. -/
theorem allowImage_context {f : Field} (h : f.isFill = true) (options : Option Node)
    (template : String) : (f.context options template).member? "allowImage" =
      some (.bool (fillAllowsImage f.attrs f.path f.label)) := by
  unfold context
  rw [if_pos h]
  dsimp only
  rw [Template.fillContext, Template.fillNode, Node.member?]
  simp only [Node.object?, Option.bind_some]
  rw [Template.get?_fillMembers, get?_setBlank_ne (by decide), get?_setBlank_ne (by decide),
    get?_setBlank_ne (by decide), layered, List.foldl_append, List.foldl_cons, List.foldl_nil,
    Members.get?_set]
  rfl

/-- A fill gets a label that speaks of a background from its component, and nothing else says
whether it takes images. -/
structure InheritsBackground (f : Field) : Prop where
  unsaid : (f.attrs.first? allowImageNames).bind flagValue? = none
  noModes : (f.attrs.first? ["fillModes", "fill-modes"]).bind fillModes? = none
  plainPath : mentionsBackground f.path = false
  noLabel : f.attrs.get? "label" = none
  inherited : ∃ label, textOf? f.base "label" = some label ∧ mentionsBackground label = true

theorem label_eq (f : Field) : f.label =
    ((f.attrs.get? "label").or (textOf? f.base "label")).getD "Label" := by
  rw [label, pick, Attributes.first?, List.findSome?_cons]
  cases f.attrs.get? "label" <;> rfl

theorem mentionsBackground_fallback :
    mentionsBackground "" = false ∧ mentionsBackground "Label" = false := by
  decide +kernel

/-- The label that a component hands down decides only where nothing else does. -/
theorem fillAllowsImage_label_iff (f : Field) :
    fillAllowsImage f.attrs f.path f.label =
      fillAllowsImage f.attrs f.path ((f.attrs.get? "label").getD "") ↔
        ¬ f.InheritsBackground := by
  unfold fillAllowsImage
  rcases hflag : (f.attrs.first? allowImageNames).bind flagValue? with _ | allowed
  · rcases hmodes : (f.attrs.first? ["fillModes", "fill-modes"]).bind fillModes? with _ | modes
    · dsimp only
      rw [label_eq]
      rcases hlabel : f.attrs.get? "label" with _ | label
      · rcases hbase : textOf? f.base "label" with _ | label
        · refine iff_of_true ?_ fun h => ?_
          · rw [Option.or_none, Option.getD_none, Option.getD_none, mentionsBackground_fallback.1,
              mentionsBackground_fallback.2]
          · obtain ⟨label, hinherited, -⟩ := h.inherited
            cases hbase.symm.trans hinherited
        · -- Both names are read, and only the label that is handed down can make a difference.
          have hinherits : f.InheritsBackground ↔
              mentionsBackground f.path = false ∧ mentionsBackground label = true := by
            constructor
            · rintro ⟨-, -, hpath, -, inherited, hinherited, hmentions⟩
              obtain rfl := Option.some.inj (hbase.symm.trans hinherited)
              exact ⟨hpath, hmentions⟩
            · exact fun h => ⟨hflag, hmodes, h.1, hlabel, label, hbase, h.2⟩
          rw [hinherits, Option.none_or, Option.getD_some, Option.getD_none,
            mentionsBackground_fallback.1]
          cases mentionsBackground f.path <;> cases mentionsBackground label <;> decide
      · exact iff_of_true rfl fun h => absurd (hlabel.symm.trans h.noLabel) nofun
    · exact iff_of_true rfl fun h => absurd (hmodes.symm.trans h.noModes) nofun
  · exact iff_of_true rfl fun h => absurd (hflag.symm.trans h.unsaid) nofun

end Field

/-! ## Components and declarations -/

theorem Library.name_of_component {lib : Library} {name : String} {c : Component}
    (h : lib.component name = .ok c) : c.name = name := by
  unfold component at h
  split at h
  · cases h
  · split at h
    · cases h
    · rename_i hfiles
      obtain rfl := Except.ok.inj h
      unfold Component.ofFiles? at hfiles
      dsimp only at hfiles
      split at hfiles
      · obtain ⟨defaults, -, hc⟩ := Option.bind_eq_some_iff.1 hfiles
        obtain rfl := Option.some.inj hc
        rfl
      · obtain rfl := Option.some.inj hfiles
        rfl

namespace Declaration

/-- The declaration of a fill says whether it takes images. -/
theorem allowImage_of_ofTag {panelId path : String} {t : FieldTag} {own : List Declaration}
    (h : ofTag panelId t = .ok own) (htype : t.attributes.get? "type" = some "dropdown-fill")
    (hpath : t.attributes.get? "path" = some path) :
    ∃ declared rest, own = declared :: rest ∧ declared.allowImage =
      some (fillAllowsImage t.attributes path ((t.attributes.get? "label").getD "")) := by
  unfold ofTag at h
  simp only [show (Attributes.ofChars t.attrs) = t.attributes from rfl, htype, hpath,
    bind_eq_ok_iff] at h
  obtain ⟨options, -, h⟩ := h
  exact ⟨_, _, (Except.ok.inj h).symm, rfl⟩

/-- The declarations of every panel of controls that are known are known. -/
theorem collect_of_controls {ps : List Panel} {defaults : Node} {cs : List Control}
    (h : controls ps defaults = .ok cs) :
    ∀ p ∈ ps, ∃ ds, collect p.id p.markup.toList = .ok ds := by
  unfold controls at h
  split at h
  · cases h
  · rename_i ds hds
    obtain ⟨declared, hdeclared, -⟩ := bind_eq_ok_iff.1 hds
    intro p hp
    obtain ⟨part, -, hpart⟩ := (relates_of_mapM_eq_ok hdeclared fun _ _ => id).1 p hp
    exact ⟨part, hpart⟩

/-- What a field tag declares is declared by the markup that it stands in. -/
theorem ofTag_of_collect {panelId : String} {markup : List Char} {t : FieldTag}
    {ds : List Declaration} (h : collect panelId markup = .ok ds) (ht : t ∈ fieldTags markup) :
    ∃ own, ofTag panelId t = .ok own ∧ ∀ declared ∈ own, declared ∈ ds := by
  obtain ⟨parts, rfl, hparts, -⟩ := parts_of_collect h
  obtain ⟨part, hpart, ⟨own, inTemplate, inBody, rfl, hown, -, -⟩⟩ := hparts t ht
  refine ⟨own, hown, fun declared hdeclared => ?_⟩
  refine List.mem_append_left _ (List.mem_flatten.2 ⟨_, hpart, ?_⟩)
  exact List.mem_append_left _ (List.mem_append_left _ hdeclared)

end Declaration

/-! ## Main result -/

namespace Rendering

variable {lib : Library} {t : FieldTag} {c : Component} {ctx : Node}

theorem exists_context_of_rendersIn (h : RendersIn lib t c ctx) :
    ∃ options template, ctx = Field.context ⟨c, t.attributes⟩ options template := by
  obtain ⟨depth, before, after, -, hrun⟩ := h
  rw [context_eq] at hrun
  obtain ⟨⟨options, _⟩, -, hrun⟩ := bind_eq_ok_iff.1 hrun
  obtain ⟨⟨text, _⟩, -, hrun⟩ := bind_eq_ok_iff.1 hrun
  exact ⟨options, String.ofList text, (Prod.mk.inj (Except.ok.inj hrun)).1.symm⟩

end Rendering

/-- The context of a fill that was rendered says whether it takes images, and says what the
attributes say unless the fill inherits a label that speaks of a background. -/
theorem allowImage_of_rendersIn {lib : Library} {t : FieldTag} {c : Component} {ctx : Node}
    {path : String} (h : Rendering.RendersIn lib t c ctx) (hname : c.name = "dropdown-fill")
    (hpath : t.attributes.get? "path" = some path) :
    ∃ shown, ctx.member? "allowImage" = some (.bool shown) ∧
      (shown = fillAllowsImage t.attributes path ((t.attributes.get? "label").getD "") ↔
        ¬ Field.InheritsBackground ⟨c, t.attributes⟩) := by
  obtain ⟨options, template, rfl⟩ := Rendering.exists_context_of_rendersIn h
  have hfill : Field.isFill ⟨c, t.attributes⟩ = true := by rw [Field.isFill, hname]; rfl
  have hsame : Field.path ⟨c, t.attributes⟩ = path := by rw [Field.path, hpath, Option.getD_some]
  refine ⟨_, Field.allowImage_context hfill options template, ?_⟩
  rw [← Field.fillAllowsImage_label_iff, hsame]

namespace Definition

open Rendering

/-- Every fill of a panel that is compiled is declared, and rendered with the component for fills.
The context that it is rendered in says the same on images as its declaration, exactly if it does
not inherit a label that speaks of a background. -/
theorem a_fill_is_rendered_as_declared_unless_it_inherits_a_background {d : Definition}
    {options : CompileOptions} {lib : Library} {w : Widget} {cache : ComponentCache}
    (h : d.compile options lib = .ok (w, cache)) :
    ∃ ps, d.panels = .ok ps ∧ ∀ p ∈ ps, ∃ ds expanded,
      Declaration.collect p.id p.markup.toList = .ok ds ∧
      expandClusters p.markup.toList = .ok expanded ∧
      ∀ t ∈ fieldTags p.markup.toList, ∀ u ∈ fieldTags (expandSimple expanded),
        u.attrs = t.attrs → t.attributes.get? "type" = some "dropdown-fill" →
        ∀ path, t.attributes.get? "path" = some path →
          ∃ c declared rest allowed, lib.component "dropdown-fill" = .ok c ∧
            Declaration.ofTag p.id t = .ok (declared :: rest) ∧ declared ∈ ds ∧
            declared.allowImage = some allowed ∧
            (∃ ctx, RendersIn lib u c ctx) ∧
            ∀ ctx, RendersIn lib u c ctx → ∃ shown,
              ctx.member? "allowImage" = some (.bool shown) ∧
                (shown = allowed ↔ ¬ Field.InheritsBackground ⟨c, t.attributes⟩) := by
  obtain ⟨ps, hpanels, -, hcontrols⟩ := (compiles_of_compile h).panels
  obtain ⟨ps', hpanels', hrendered⟩ := rendersIn_of_compile h
  obtain rfl : ps = ps' := Except.ok.inj (hpanels.symm.trans hpanels')
  refine ⟨ps, hpanels, fun p hp => ?_⟩
  obtain ⟨ds, hds⟩ := Declaration.collect_of_controls hcontrols p hp
  obtain ⟨expanded, hexpanded, hrendered⟩ := hrendered p hp
  refine ⟨ds, expanded, hds, hexpanded, fun t ht u hu hattrs htype path hpath => ?_⟩
  have hattributes : u.attributes = t.attributes := congrArg Attributes.ofChars hattrs
  obtain ⟨c, ctx, hc, hctx⟩ :=
    hrendered u hu "dropdown-fill" (hattributes ▸ htype)
  obtain ⟨own, hown, hsub⟩ := Declaration.ofTag_of_collect hds ht
  obtain ⟨declared, rest, rfl, hallowed⟩ := Declaration.allowImage_of_ofTag hown htype hpath
  refine ⟨c, declared, rest, _, hc, hown, hsub declared List.mem_cons_self, hallowed, ⟨ctx, hctx⟩,
    fun ctx hctx => ?_⟩
  have hagree := allowImage_of_rendersIn hctx (Library.name_of_component hc) (hattributes ▸ hpath)
  rwa [hattributes] at hagree

/-- A field tag for a fill, with further attributes. -/
def coverTag (more : String) : FieldTag where
  source := ("<tooldrawer-field type='dropdown-fill' path='cover'" ++ more ++ "/>").toList
  group := none
  attrs := (" type='dropdown-fill' path='cover'" ++ more).toList
  inner := none

/-- A card with one fill. -/
def coverCard (more : String) : Definition where
  name := "card"
  displayName := "Card"
  defaults := .object [("cover", .string "")]
  html := ["<bob-panel id='content'>" ++ String.ofList (coverTag more).source ++ "</bob-panel>"]

/-- Fills that are labelled as backgrounds, and show whether they take images. -/
def backgrounds : Library :=
  ⟨.memory, [("dropdown-fill", {
    html := some (Template.tagText "allowImage".toList)
    spec := some ("\x7b\"defaults\":[\x7b\"context\":\x7b" ++
      "\"label\":\"Background\"\x7d\x7d]\x7d") })]⟩

def coverPanel (more : String) : Panel := ⟨"content", String.ofList (coverTag more).source⟩

/-- What a compiled card is tested for. -/
def showsAndAllows (shown : String) (allowed : Bool) (w : Widget) : Bool :=
  w.panels.map (·.html) == [shown] && w.controls.map (·.allowImage) == [some allowed]

/-- The fill with a label of its own. -/
def labelled : String := " label='Cover' "

theorem panels_coverCard : (coverCard labelled).panels.toOption = some [coverPanel labelled] := by
  decide +kernel

/-- A fill with a label of its own is rendered as it is declared. -/
theorem a_labelled_fill_is_rendered_as_declared : ∃ w cache c ctx,
    (coverCard labelled).compile {} backgrounds = .ok (w, cache) ∧
      w.controls.map (·.allowImage) = [some false] ∧
      RendersIn backgrounds (coverTag labelled) c ctx ∧
      ctx.member? "allowImage" = some (.bool false) := by
  have hrun : ((coverCard labelled).compile {} backgrounds).toOption.any
      (fun found => showsAndAllows "false" false found.1) = true := by
    decide +kernel
  obtain ⟨w, cache, hcompile, htest⟩ := exists_of_any (showsAndAllows "false" false) hrun
  rw [showsAndAllows, Bool.and_eq_true, beq_iff_eq, beq_iff_eq] at htest
  obtain ⟨ps, hpanels, hfills⟩ :=
    a_fill_is_rendered_as_declared_unless_it_inherits_a_background hcompile
  obtain rfl : ps = [coverPanel labelled] := by
    have hsome := panels_coverCard
    rw [hpanels] at hsome
    exact Option.some.inj hsome
  obtain ⟨ds, expanded, -, hexpanded, hfills⟩ := hfills _ List.mem_cons_self
  obtain rfl : expanded = (coverTag labelled).source := by
    have hsource : expandClusters (coverPanel labelled).markup.toList =
      .ok (coverTag labelled).source := by decide +kernel
    exact Except.ok.inj (hexpanded.symm.trans hsource)
  have ht : coverTag labelled ∈ fieldTags (coverPanel labelled).markup.toList := by decide +kernel
  have hu : coverTag labelled ∈ fieldTags (expandSimple (coverTag labelled).source) := by
    decide +kernel
  have htype : (coverTag labelled).attributes.get? "type" = some "dropdown-fill" := by
    decide +kernel
  have hpath : (coverTag labelled).attributes.get? "path" = some "cover" := by decide +kernel
  have hlabel : (coverTag labelled).attributes.get? "label" = some "Cover" := by decide +kernel
  obtain ⟨c, declared, rest, allowed, -, hdeclared, -, hallowed, ⟨ctx, hctx⟩, hsame⟩ :=
    hfills _ ht _ hu rfl htype "cover" hpath
  obtain ⟨shown, hshown, hagree⟩ := hsame ctx hctx
  obtain rfl : shown = allowed := hagree.2 fun hinherits =>
    absurd (hlabel.symm.trans hinherits.noLabel) nofun
  obtain ⟨_, _, hcons, hvalue⟩ := Declaration.allowImage_of_ofTag hdeclared htype hpath
  obtain ⟨rfl, -⟩ := List.cons.inj hcons
  have hfalse : fillAllowsImage (coverTag labelled).attributes "cover" "Cover" = false := by
    decide +kernel
  rw [hallowed, hlabel, Option.getD_some, hfalse] at hvalue
  obtain rfl := Option.some.inj hvalue
  exact ⟨w, cache, c, ctx, hcompile, htest.2, hctx, hshown⟩

/-- A fill without a label of its own is rendered as one that takes images, and is declared as one
that does not. -/
theorem a_fill_is_not_always_rendered_as_declared : ∃ w cache,
    (coverCard "").compile {} backgrounds = .ok (w, cache) ∧
      w.panels.map (·.html) = ["true"] ∧ w.controls.map (·.allowImage) = [some false] := by
  have hrun : ((coverCard "").compile {} backgrounds).toOption.any
      (fun found => showsAndAllows "true" false found.1) = true := by
    decide +kernel
  obtain ⟨w, cache, hcompile, htest⟩ := exists_of_any (showsAndAllows "true" false) hrun
  rw [showsAndAllows, Bool.and_eq_true, beq_iff_eq, beq_iff_eq] at htest
  exact ⟨w, cache, hcompile, htest⟩

end Definition

end WidgetSchema
