-- Runs of the renderer side by side. Two runs that see the same components do the same, whatever
-- they have read before, up to the place where one of them has no levels left.
import Mathlib.Logic.Basic
import WidgetSchema.Fragment.Render
namespace WidgetSchema

open Markup

namespace ComponentCache

/-- The component that is found under a name: one that is kept, or else that of the library. -/
def found (cache : ComponentCache) (lib : Library) (name : String) :
    Except ComponentError Component :=
  match Members.get? name cache with
  | some c => .ok c
  | none => lib.component name

theorem get_eq (cache : ComponentCache) (lib : Library) (name : String) :
    cache.get lib name = (cache.found lib name).map fun c =>
      (c, if (Members.get? name cache).isSome then cache else Members.set name c cache) := by
  unfold get found
  rcases Members.get? name cache with _ | c
  · rfl
  · rfl

/-- A component that is kept once it has been read is what was found before. -/
theorem found_keep {cache : ComponentCache} {lib : Library} {name : String} {c : Component}
    (hc : cache.found lib name = .ok c) (other : String) :
    found (Members.set name c cache) lib other = cache.found lib other := by
  by_cases hname : other = name
  · rw [hname, hc, found, Members.get?_set]
  · rw [found, Members.get?_set_ne hname, found]

end ComponentCache

namespace Rendering

variable {lib : Library} {seen : String → Except ComponentError Component} {cut : Prop}

/-! ## What is seen -/

/-- What is found under every name, with the components that are kept. -/
def Sees (lib : Library) (seen : String → Except ComponentError Component)
    (cache : ComponentCache) : Prop :=
  ∀ name, cache.found lib name = seen name

/-- Reading a component changes nothing for those that look for components later. -/
theorem Sees.get {cache : ComponentCache} (h : Sees lib seen cache) (name : String) :
    (∃ e, seen name = .error e ∧ component lib name cache = .error (.component e)) ∨
      ∃ c next, seen name = .ok c ∧ Sees lib seen next ∧
        component lib name cache = .ok (c, next) := by
  have hname := h name
  rcases hseen : seen name with e | c
  · refine .inl ⟨e, rfl, ?_⟩
    rw [component, cache.get_eq, hname, hseen]
    rfl
  · refine .inr ⟨c, _, rfl, ?_, by rw [component, cache.get_eq, hname, hseen]; rfl⟩
    rw [hseen] at hname
    split
    · exact h
    · exact fun other => (ComponentCache.found_keep hname other).trans (h other)

/-! ## Runs side by side -/

/-- The ends of two runs: both with the same value or the same error. The first may also be cut
off where it has no levels left, if that is allowed. -/
inductive Agrees (lib : Library) (seen : String → Except ComponentError Component) (cut : Prop)
    {α : Type} : Except RenderError (α × ComponentCache) →
      Except RenderError (α × ComponentCache) → Prop
  | cut (allowed : cut) (y : Except RenderError (α × ComponentCache)) :
    Agrees lib seen cut (.error .endlessTemplate) y
  | error {e : RenderError} (he : e ≠ .endlessTemplate) : Agrees lib seen cut (.error e) (.error e)
  | ok (a : α) {next next' : ComponentCache} (hnext : Sees lib seen next)
    (hnext' : Sees lib seen next') : Agrees lib seen cut (.ok (a, next)) (.ok (a, next'))

/-- The second renderer does what the first one does. -/
def Follows (lib : Library) (seen : String → Except ComponentError Component) (cut : Prop)
    {α : Type} (m m' : Rendering α) : Prop :=
  ∀ cache cache', Sees lib seen cache → Sees lib seen cache' →
    Agrees lib seen cut (m cache) (m' cache')

/-- The renderer comes to an end that depends only on the components that are seen. -/
def Ends (lib : Library) (seen : String → Except ComponentError Component) {α : Type}
    (m : Rendering α) : Prop :=
  Follows lib seen False m m

section Order

variable {α : Type} {m m' m'' : Rendering α}

theorem Follows.trans (h : Follows lib seen cut m m') (h' : Follows lib seen cut m' m'') :
    Follows lib seen cut m m'' := by
  intro cache cache'' hcache hcache''
  have hfirst := h cache cache hcache hcache
  have hsecond := h' cache cache'' hcache hcache''
  generalize m cache = x at *
  generalize m' cache = y at *
  generalize m'' cache'' = z at *
  cases hfirst with
  | cut allowed => exact .cut allowed _
  | error he =>
    cases hsecond with
    | cut => exact absurd rfl he
    | error => exact .error he
  | ok a hnext =>
    cases hsecond with
    | ok _ _ hnext' => exact .ok a hnext hnext'

theorem Follows.symm (h : Follows lib seen False m m') : Follows lib seen False m' m := by
  intro cache cache' hcache hcache'
  have hback := h cache' cache hcache' hcache
  generalize m cache' = x at *
  generalize m' cache = y at *
  cases hback with
  | cut allowed => exact allowed.elim
  | error he => exact .error he
  | ok a hnext hnext' => exact .ok a hnext' hnext

theorem Follows.ends (h : Follows lib seen False m m') : Ends lib seen m' := h.symm.trans h

theorem Follows.weaken (h : Follows lib seen False m m') : Follows lib seen cut m m' := by
  intro cache cache' hcache hcache'
  have hboth := h cache cache' hcache hcache'
  generalize m cache = x at *
  generalize m' cache' = y at *
  cases hboth with
  | cut allowed => exact allowed.elim
  | error he => exact .error he
  | ok a hnext hnext' => exact .ok a hnext hnext'

/-- A renderer that ends is not cut off. -/
theorem Follows.whole (h : Follows lib seen cut m m') (hends : Ends lib seen m) :
    Follows lib seen False m m' := by
  intro cache cache' hcache hcache'
  have hboth := h cache cache' hcache hcache'
  have hend := hends cache cache hcache hcache
  generalize m cache = x at *
  generalize m' cache' = y at *
  cases hboth with
  | cut =>
    cases hend with
    | cut allowed => exact allowed.elim
    | error he => exact absurd rfl he
  | error he => exact .error he
  | ok a hnext hnext' => exact .ok a hnext hnext'

/-- A renderer that does not end is cut off in every run. -/
theorem Follows.of_not_ends (h : Follows lib seen True m m) (hends : ¬ Ends lib seen m) :
    Follows lib seen True m m' := by
  obtain ⟨start, start', hstart, hstart', hnot⟩ : ∃ start start', Sees lib seen start ∧
      Sees lib seen start' ∧ ¬ Agrees lib seen False (m start) (m start') := by
    simpa only [Ends, Follows, not_forall, exists_prop] using hends
  intro cache cache' hcache hcache'
  have hcut : m start = .error .endlessTemplate := by
    have hboth := h start start' hstart hstart'
    generalize m start = x at *
    generalize m start' = y at *
    cases hboth with
    | cut => rfl
    | error he => exact absurd (.error he) hnot
    | ok a hnext hnext' => exact absurd (.ok a hnext hnext') hnot
  have hboth := h cache start hcache hstart
  rw [hcut] at hboth
  generalize m cache = x at *
  cases hboth with
  | cut => exact .cut trivial _
  | error he => exact absurd rfl he

end Order

/-! ## The steps of the renderer -/

section Steps

variable {α β : Type}

theorem follows_pure (a : α) : Follows lib seen cut (pure a) (pure a) :=
  fun _ _ hcache hcache' => .ok a hcache hcache'

theorem follows_throw {e : RenderError} (he : e ≠ .endlessTemplate) :
    Follows lib seen cut (throw e : Rendering α) (throw e) :=
  fun _ _ _ _ => .error he

theorem follows_endless (m : Rendering α) :
    Follows lib seen True (throw .endlessTemplate) m :=
  fun _ _ _ _ => .cut trivial _

theorem Follows.bind {m m' : Rendering α} {f f' : α → Rendering β}
    (hm : Follows lib seen cut m m') (hf : ∀ a, Follows lib seen cut (f a) (f' a)) :
    Follows lib seen cut (m >>= f) (m' >>= f') := by
  intro cache cache' hcache hcache'
  have hboth := hm cache cache' hcache hcache'
  rw [show (m >>= f) cache = (m cache >>= fun (a, next) => f a next) from rfl,
    show (m' >>= f') cache' = (m' cache' >>= fun (a, next) => f' a next) from rfl]
  generalize m cache = x at *
  generalize m' cache' = y at *
  cases hboth with
  | cut allowed => exact .cut allowed _
  | error he => exact .error he
  | ok a hnext hnext' => exact hf a _ _ hnext hnext'

/-- Behind the reading of a component, only the component that is seen has to be followed. -/
theorem follows_component {name : String} {f f' : Component → Rendering β}
    (hf : ∀ c, seen name = .ok c → Follows lib seen cut (f c) (f' c)) :
    Follows lib seen cut (component lib name >>= f) (component lib name >>= f') := by
  intro cache cache' hcache hcache'
  rw [show (component lib name >>= f) cache =
      (component lib name cache >>= fun (c, next) => f c next) from rfl,
    show (component lib name >>= f') cache' =
      (component lib name cache' >>= fun (c, next) => f' c next) from rfl]
  rcases hcache.get name with ⟨e, he, hget⟩ | ⟨c, next, hc, hnext, hget⟩ <;>
    rcases hcache'.get name with ⟨e', he', hget'⟩ | ⟨c', next', hc', hnext', hget'⟩ <;>
    rw [hget, hget']
  · obtain rfl : e = e' := Except.error.inj (he.symm.trans he')
    exact .error nofun
  · cases he.symm.trans hc'
  · cases hc.symm.trans he'
  · obtain rfl : c = c' := Except.ok.inj (hc.symm.trans hc')
    exact hf c hc _ _ hnext hnext'

end Steps

/-! ## Replacing tags -/

/-- A relation between runs that goes on from step to step holds along a list. -/
theorem related_mapM {m : Type → Type} [Monad m] [LawfulMonad m]
    (R : ∀ α : Type, m α → m α → Prop) (hpure : ∀ (α : Type) (a : α), R α (pure a) (pure a))
    (hbind : ∀ (α β : Type) (x x' : m α) (f f' : α → m β), R α x x' →
      (∀ a, R β (f a) (f' a)) → R β (x >>= f) (x' >>= f'))
    {α β : Type} {f f' : α → m β} (l : List α) (h : ∀ a, R β (f a) (f' a)) :
    R (List β) (l.mapM f) (l.mapM f') := by
  induction l with
  | nil => simpa only [List.mapM_nil] using hpure _ []
  | cons a l ih =>
    simp only [List.mapM_cons]
    exact hbind _ _ _ _ _ _ (h a) fun b => hbind _ _ _ _ _ _ ih fun bs => hpure _ (b :: bs)

theorem related_replaceTags {m : Type → Type} [Monad m] [LawfulMonad m]
    (R : ∀ α : Type, m α → m α → Prop) (hpure : ∀ (α : Type) (a : α), R α (pure a) (pure a))
    (hbind : ∀ (α β : Type) (x x' : m α) (f f' : α → m β), R α x x' →
      (∀ a, R β (f a) (f' a)) → R β (x >>= f) (x' >>= f'))
    {cs : List Char} {new? new?' : (t : FieldTag) → .tag t ∈ items cs → m (Option (List Char))}
    (h : ∀ t ht, R _ (new? t ht) (new?' t ht)) :
    R _ (replaceTags cs new?) (replaceTags cs new?') := by
  unfold replaceTags
  refine hbind _ _ _ _ _ _ (related_mapM R hpure hbind _ ?_) fun parts => hpure _ _
  rintro ⟨item, hitem⟩
  cases item with
  | text cs => exact hpure _ _
  | tag t => exact hbind _ _ _ _ _ _ (h t hitem) fun _ => hpure _ _

/-! ## Templates and panels -/

/-- A text holds a field, itself or in the template of a field, that has no template of its own
and gets one from its component. -/
inductive Leads (seen : String → Except ComponentError Component) : List Char → String → Prop
  | handed {cs : List Char} {t : FieldTag} {name text : String} {c : Component}
    (ht : .tag t ∈ items cs) (htype : (Attributes.ofChars t.attrs).get? "type" = some name)
    (hc : seen name = .ok c) (hown : (Attributes.ofChars t.attrs).get? "template" = none)
    (htext : Field.textOf? (Field.base ⟨c, .ofChars t.attrs⟩) "template" = some text) :
    Leads seen cs text
  | own {cs : List Char} {t : FieldTag} {name own text : String} {c : Component}
    (ht : .tag t ∈ items cs) (htype : (Attributes.ofChars t.attrs).get? "type" = some name)
    (hc : seen name = .ok c) (hown : (Attributes.ofChars t.attrs).get? "template" = some own)
    (hlater : Leads seen (Entity.decodeChars own.toList) text) : Leads seen cs text

/-- The markup of a panel leads to a template. -/
def PanelLeads (seen : String → Except ComponentError Component) (markup : List Char)
    (text : String) : Prop :=
  ∃ expanded, expandClusters markup = .ok expanded ∧ Leads seen (expandSimple expanded) text

/-- A template leads to another one. -/
def TextLeads (seen : String → Except ComponentError Component) (text next : String) : Prop :=
  Leads seen text.toList next

variable {hand hand' : String → Rendering (List Char)}

/-- The template of a field in the context of the field. -/
def slotText (hand : String → Rendering (List Char)) (lib : Library) (c : Component)
    (raw : List Char) : Rendering (List Char) :=
  match (Attributes.ofChars raw).get? "template" with
  | some own => template lib hand (Entity.decodeChars own.toList)
  | none =>
    match Field.textOf? (Field.base ⟨c, .ofChars raw⟩) "template" with
    | none => pure []
    | some text => hand text

theorem context_eq (c : Component) (raw : List Char) :
    context lib hand c raw = do
      let options ← optionsOf ⟨c, .ofChars raw⟩
      let text ← slotText hand lib c raw
      return Field.context ⟨c, .ofChars raw⟩ options (String.ofList text) := by
  rw [context]
  unfold slotText
  refine bind_congr fun options => ?_
  split
  · rename_i own hown
    simp only [hown]
  · rename_i hown
    simp only [hown]
    cases Field.textOf? (Field.base ⟨c, .ofChars raw⟩) "template" <;> rfl

/-- The context of a field follows another one if its template does. -/
theorem follows_context {c : Component} {raw : List Char}
    (hown : ∀ own, (Attributes.ofChars raw).get? "template" = some own →
      Follows lib seen cut (template lib hand (Entity.decodeChars own.toList))
        (template lib hand' (Entity.decodeChars own.toList)))
    (hhanded : (Attributes.ofChars raw).get? "template" = none → ∀ text,
      Field.textOf? (Field.base ⟨c, .ofChars raw⟩) "template" = some text →
        Follows lib seen cut (hand text) (hand' text)) :
    Follows lib seen cut (context lib hand c raw) (context lib hand' c raw) := by
  have hoptions : Follows lib seen cut (optionsOf ⟨c, .ofChars raw⟩)
      (optionsOf ⟨c, .ofChars raw⟩) := by
    unfold optionsOf
    split
    · exact follows_pure _
    · exact follows_throw nofun
  have htext : Follows lib seen cut (slotText hand lib c raw) (slotText hand' lib c raw) := by
    unfold slotText
    rcases h : (Attributes.ofChars raw).get? "template" with _ | own
    · rcases h' : Field.textOf? (Field.base ⟨c, .ofChars raw⟩) "template" with _ | text
      · exact follows_pure _
      · exact hhanded h text h'
    · exact hown own h
  rw [context_eq, context_eq]
  exact hoptions.bind fun _ => htext.bind fun _ => follows_pure _

/-- A template follows another run of it if the templates do that it leads to. -/
theorem follows_template (cs : List Char)
    (h : ∀ text, Leads seen cs text → Follows lib seen cut (hand text) (hand' text)) :
    Follows lib seen cut (template lib hand cs) (template lib hand' cs) := by
  induction hn : cs.length using Nat.strongRecOn generalizing cs with
  | _ n ih =>
    rw [template, template]
    refine related_replaceTags (fun α m m' => Follows lib seen cut m m') (fun _ => follows_pure)
      (fun _ _ _ _ _ _ => Follows.bind) fun t ht => ?_
    dsimp only
    rcases htype : (Attributes.ofChars t.attrs).get? "type" with _ | name
    · exact follows_pure _
    · refine follows_component fun c hc => ?_
      refine Follows.bind (follows_context ?_ ?_) fun context => ?_
      · intro own hown
        have hshorter : (Entity.decodeChars own.toList).length < t.attrs.length :=
          Nat.lt_of_le_of_lt (Entity.length_decodeChars_le _) (Attributes.length_get?_ofChars hown)
        exact ih _ (hn ▸ Nat.lt_trans hshorter (length_of_mem_items ht).1) _
          (fun text hlater => h text (.own ht htype hc hown hlater)) rfl
      · exact fun hown text htext => h text (.handed ht htype hc hown htext)
      · rcases (Attributes.ofChars t.attrs).get? "template" with _ | own <;> exact follows_pure _

/-- A field of a panel follows another run of it, as a template with the field does. -/
theorem follows_field {depth depth' : Nat} {cs : List Char} {t : FieldTag}
    (ht : .tag t ∈ items cs) (h : ∀ text, Leads seen cs text →
      Follows lib seen cut (handedDown lib depth text) (handedDown lib depth' text)) :
    Follows lib seen cut (field lib depth t) (field lib depth' t) := by
  unfold field
  dsimp only
  rcases htype : (Attributes.ofChars t.attrs).get? "type" with _ | name
  · exact follows_pure _
  · refine follows_component fun c hc => ?_
    refine Follows.bind (follows_context ?_ ?_) fun context => follows_pure _
    · exact fun own hown => follows_template _
        fun text hlater => h text (.own ht htype hc hown hlater)
    · exact fun hown text htext => h text (.handed ht htype hc hown htext)

/-- Runs that note components follow each other if they do from whatever has been noted. -/
def FollowsNoting (lib : Library) (seen : String → Except ComponentError Component) (cut : Prop)
    (α : Type) (m m' : StateT Usages Rendering α) : Prop :=
  ∀ u, Follows lib seen cut (m.run u) (m'.run u)

theorem followsNoting_pure (α : Type) (a : α) :
    FollowsNoting lib seen cut α (pure a) (pure a) :=
  fun u => follows_pure (a, u)

theorem followsNoting_bind (α β : Type) (m m' : StateT Usages Rendering α)
    (f f' : α → StateT Usages Rendering β) (hm : FollowsNoting lib seen cut α m m')
    (hf : ∀ a, FollowsNoting lib seen cut β (f a) (f' a)) :
    FollowsNoting lib seen cut β (m >>= f) (m' >>= f') := by
  intro u
  rw [StateT.run_bind, StateT.run_bind]
  exact (hm u).bind fun a => hf a.1 a.2

theorem followsNoting_lift {α : Type} {m m' : Rendering α} (h : Follows lib seen cut m m') :
    FollowsNoting lib seen cut α (liftM m) (liftM m') :=
  fun u => h.bind fun a => follows_pure (a, u)

/-- A field tag that is replaced in a panel follows another run of it, as its field does. -/
theorem followsNoting_field {depth depth' : Nat} {t : FieldTag}
    (h : Follows lib seen cut (field lib depth t) (field lib depth' t)) :
    FollowsNoting lib seen cut (Option (List Char))
      (do
        match ← field lib depth t with
        | none => return none
        | some (name, rendered) =>
          modify fun u => u.require name
          return some rendered)
      (do
        match ← field lib depth' t with
        | none => return none
        | some (name, rendered) =>
          modify fun u => u.require name
          return some rendered) := by
  refine followsNoting_bind _ _ _ _ _ _ (followsNoting_lift h) fun rendered => ?_
  cases rendered with
  | none => exact followsNoting_pure _ _
  | some rendered => exact fun u => follows_pure _

/-- A panel follows another run of it if the templates do that its markup leads to. -/
theorem follows_panelWithin {depth depth' : Nat} (usages : Usages) {markup : List Char}
    (h : ∀ text, PanelLeads seen markup text →
      Follows lib seen cut (handedDown lib depth text) (handedDown lib depth' text)) :
    Follows lib seen cut (panelWithin lib depth usages markup)
      (panelWithin lib depth' usages markup) := by
  unfold panelWithin
  cases hexpanded : expandClusters markup with
  | error name => exact follows_throw RenderError.noConfusion
  | ok expanded =>
    refine Follows.bind ?_ fun _ => follows_pure _
    unfold fields
    refine related_replaceTags (FollowsNoting lib seen cut) followsNoting_pure followsNoting_bind
      (fun t ht => followsNoting_field (follows_field ht ?_)) usages
    exact fun text htext => h text ⟨expanded, hexpanded, htext⟩

end Rendering

end WidgetSchema
