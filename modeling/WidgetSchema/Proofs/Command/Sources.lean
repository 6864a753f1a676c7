-- What a run of the compiler compiles from. It finds the configuration, the widgets and the
-- components by reading alone, and then writes into a directory that it made before.
import WidgetSchema.Command.Run
import WidgetSchema.Proofs.Project.Disk
namespace WidgetSchema

/-! ## Parts of a run that only read -/

namespace Disk

/-- A part of a run that leaves the disk as it is. -/
def IsReading {α : Type} (x : StateM Disk α) : Prop := ∀ d, (x.run d).2 = d

variable {α β ε : Type}

theorem isReading_pure (a : α) : IsReading (pure a : StateM Disk α) := fun _ => rfl

theorem run_bind (x : StateM Disk α) (f : α → StateM Disk β) (d : Disk) :
    (x >>= f).run d = (f (x.run d).1).run (x.run d).2 := rfl

theorem IsReading.bind {x : StateM Disk α} {f : α → StateM Disk β} (hx : IsReading x)
    (hf : ∀ a, IsReading (f a)) : IsReading (x >>= f) := by
  intro d
  rw [run_bind, hx d]
  exact hf _ d

theorem isReading_kind? (path : String) : IsReading (fileSystem.kind? path) := fun _ => rfl

theorem isReading_read? (path : String) : IsReading (fileSystem.read? path) := fun _ => rfl

theorem isReading_names? (path : String) : IsReading (fileSystem.names? path) := fun _ => rfl

theorem isReading_exists? (path : String) : IsReading (fileSystem.exists? path) := fun _ => rfl

theorem isReading_isFile (path : String) : IsReading (fileSystem.isFile path) := fun _ => rfl

theorem isReading_readFile? (path : String) : IsReading (fileSystem.readFile? path) := by
  refine (isReading_isFile path).bind fun isFile => ?_
  cases isFile with
  | true => exact isReading_read? path
  | false => exact isReading_pure none

theorem isReading_mapM {f : α → StateM Disk β} (hf : ∀ a, IsReading (f a)) (xs : List α) :
    IsReading (xs.mapM f) := by
  induction xs with
  | nil =>
    rw [List.mapM_nil]
    exact isReading_pure []
  | cons x xs ih =>
    rw [List.mapM_cons]
    exact (hf x).bind fun _ => ih.bind fun _ => isReading_pure _

theorem isReading_filterAuxM {p : α → StateM Disk Bool} (hp : ∀ a, IsReading (p a)) (xs : List α) :
    ∀ kept, IsReading (xs.filterAuxM p kept) := by
  induction xs with
  | nil => exact fun kept => isReading_pure kept
  | cons x xs ih => exact fun kept => (hp x).bind fun _ => ih _

theorem isReading_filterM {p : α → StateM Disk Bool} (hp : ∀ a, IsReading (p a)) (xs : List α) :
    IsReading (xs.filterM p) :=
  (isReading_filterAuxM hp xs []).bind fun _ => isReading_pure _

theorem mem_of_mem_filterM {p : α → StateM Disk Bool} {xs : List α} {d : Disk} {x : α}
    (h : x ∈ ((xs.filterM p).run d).1) : x ∈ xs := by
  have haux : ∀ (d : Disk) (kept : List α), x ∈ ((xs.filterAuxM p kept).run d).1 →
      x ∈ xs ∨ x ∈ kept := by
    clear h
    induction xs with
    | nil => exact fun d kept h => .inr h
    | cons y ys ih =>
      intro d kept h
      have hrun : ((y :: ys).filterAuxM p kept).run d =
          (ys.filterAuxM p (cond ((p y).run d).1 (y :: kept) kept)).run ((p y).run d).2 := rfl
      rw [hrun] at h
      rcases ih _ _ h with hys | hkept
      · exact .inl (List.mem_cons_of_mem y hys)
      · cases hpasses : ((p y).run d).1 with
        | true =>
          rw [hpasses] at hkept
          rcases List.mem_cons.1 hkept with rfl | hkept
          · exact .inl List.mem_cons_self
          · exact .inr hkept
        | false =>
          rw [hpasses] at hkept
          exact .inr hkept
  have hmem : x ∈ ((xs.filterAuxM p []).run d).1 := by
    have hrun : ((xs.filterM p).run d).1 = ((xs.filterAuxM p []).run d).1.reverse := rfl
    rw [hrun, List.mem_reverse] at h
    exact h
  exact (haux d [] hmem).resolve_right List.not_mem_nil

theorem isReading_bind_run {x : ExceptT ε (StateM Disk) α} {f : α → ExceptT ε (StateM Disk) β}
    (hx : IsReading x.run) (hf : ∀ a, IsReading (f a).run) : IsReading (x >>= f).run := by
  rw [ExceptT.run_bind]
  refine hx.bind fun a => ?_
  cases a with
  | ok a => exact hf a
  | error e => exact isReading_pure _

theorem isReading_lift_run {x : StateM Disk α} (hx : IsReading x) :
    IsReading (ExceptT.lift x : ExceptT ε (StateM Disk) α).run :=
  hx.bind fun _ => isReading_pure _

end Disk

open Disk (IsReading isReading_pure isReading_bind_run isReading_lift_run)

theorem Config.isReading_load (path : String) : IsReading (Config.load Disk.fileSystem path) := by
  refine (Disk.isReading_kind? path).bind fun kind => ?_
  refine (Disk.isReading_exists? _).bind fun isThere => ?_
  cases isThere with
  | false => exact isReading_pure _
  | true =>
    refine (Disk.isReading_read? _).bind fun text => ?_
    cases text <;> exact isReading_pure _

theorem Config.isReading_widgetNames? (c : Config) :
    IsReading (c.widgetNames? Disk.fileSystem) := by
  refine (Disk.isReading_exists? _).bind fun isThere => ?_
  cases isThere with
  | false => exact isReading_pure _
  | true =>
    refine (Disk.isReading_names? _).bind fun names => ?_
    cases names with
    | none => exact isReading_pure _
    | some names =>
      refine (Disk.isReading_filterM (fun name => ?_) names).bind fun found => isReading_pure _
      exact Disk.isReading_isFile _

theorem Library.isReading_readTexts (root name : String) :
    IsReading (readTexts Disk.fileSystem root name) := by
  refine (Disk.isReading_isFile _).bind fun hasSpec => ?_
  refine (Disk.isReading_read? _).bind fun spec => ?_
  refine (Disk.isReading_readFile? _).bind fun html => ?_
  refine (Disk.isReading_isFile _).bind fun styles => ?_
  exact (Disk.isReading_isFile _).bind fun script => isReading_pure _

theorem Library.isReading_ofDirectory (root : String) :
    IsReading (Library.ofDirectory Disk.fileSystem root) := by
  refine (Disk.isReading_names? root).bind fun names => ?_
  refine (Disk.isReading_mapM (fun name => ?_) _).bind fun components => isReading_pure _
  exact (isReading_readTexts root name).bind fun texts => isReading_pure _

namespace Command

theorem isReading_orFail {α : Type} (e : CommandError) (o : Option α) :
    IsReading (orFail e o : ExceptT CommandError (StateM Disk) α).run := by
  cases o <;> exact isReading_pure _

theorem isReading_loadConfig (path : String) :
    IsReading (loadConfig Disk.fileSystem path).run := by
  refine isReading_bind_run (isReading_lift_run (Config.isReading_load path)) fun loaded => ?_
  cases loaded <;> exact isReading_pure _

theorem isReading_chosenWidgets (c : Config) (widget : Option String) :
    IsReading (chosenWidgets Disk.fileSystem c widget).run := by
  cases widget with
  | some name =>
    refine isReading_bind_run (isReading_lift_run (Disk.isReading_isFile _)) fun isThere => ?_
    cases isThere <;> exact isReading_pure _
  | none =>
    exact isReading_bind_run (isReading_lift_run (Config.isReading_widgetNames? c)) fun names =>
      isReading_orFail _ names

/-! ## Runs that succeed -/

/-- A run succeeds on a disk with a result, and leaves a disk behind. -/
def Succeeds {α : Type} (x : ExceptT CommandError (StateM Disk) α) (d : Disk) (a : α)
    (after : Disk) : Prop :=
  x.run.run d = (.ok a, after)

variable {α β : Type} {d after : Disk}

theorem succeeds_pure_iff {a b : α} :
    Succeeds (pure a) d b after ↔ a = b ∧ d = after := by
  constructor
  · intro h
    obtain ⟨ha, hd⟩ := Prod.mk.inj h
    exact ⟨Except.ok.inj ha, hd⟩
  · rintro ⟨rfl, rfl⟩
    rfl

theorem succeeds_bind_iff {x : ExceptT CommandError (StateM Disk) α}
    {f : α → ExceptT CommandError (StateM Disk) β} {b : β} :
    Succeeds (x >>= f) d b after ↔
      ∃ a between, Succeeds x d a between ∧ Succeeds (f a) between b after := by
  have hrun : (x >>= f).run.run d = match x.run.run d with
      | (.ok a, between) => (f a).run.run between
      | (.error e, between) => (.error e, between) := by
    rw [ExceptT.run_bind, StateT.run_bind]
    rcases x.run.run d with ⟨a | a, between⟩ <;> rfl
  unfold Succeeds
  rw [hrun]
  rcases hx : x.run.run d with ⟨e | a, between⟩
  · constructor
    · exact fun h => nomatch h
    · rintro ⟨a, between', h, -⟩
      cases h
  · constructor
    · exact fun h => ⟨a, between, rfl, h⟩
    · rintro ⟨a', between', h, hf⟩
      obtain ⟨ha, rfl⟩ := Prod.mk.inj h
      obtain rfl := Except.ok.inj ha
      exact hf

theorem succeeds_lift_iff {x : StateM Disk α} {a : α} :
    Succeeds (ExceptT.lift x) d a after ↔ x.run d = (a, after) := by
  constructor
  · intro h
    obtain ⟨ha, hd⟩ := Prod.mk.inj h
    exact Prod.ext (Except.ok.inj ha) hd
  · intro h
    have hrun : (ExceptT.lift x : ExceptT CommandError (StateM Disk) α).run.run d =
        (.ok (x.run d).1, (x.run d).2) := rfl
    unfold Succeeds
    rw [hrun, h]

theorem not_succeeds_throw {e : CommandError} {a : α} : ¬ Succeeds (throw e) d a after :=
  fun h => nomatch h

theorem succeeds_orFail_iff {e : CommandError} {o : Option α} {a : α} :
    Succeeds (orFail e o) d a after ↔ o = some a ∧ d = after := by
  cases o with
  | none => exact ⟨fun h => absurd h not_succeeds_throw, fun h => nomatch h.1⟩
  | some b =>
    rw [orFail, succeeds_pure_iff, Option.some.injEq]

theorem run_order_of_eq_none {change : Disk → Option Disk} (h : change d = none) :
    (Disk.order change).run d = (false, d) := by
  change Disk.order change d = (false, d)
  unfold Disk.order
  rw [h]

theorem run_order_of_eq_some {change : Disk → Option Disk} (h : change d = some after) :
    (Disk.order change).run d = (true, after) := by
  change Disk.order change d = (true, after)
  unfold Disk.order
  rw [h]

theorem succeeds_must_iff {e : CommandError} {change : Disk → Option Disk} {u : Unit} :
    Succeeds (must e (Disk.order change)) d u after ↔ change d = some after := by
  have hmust : must e (Disk.order change) = ExceptT.lift (Disk.order change) >>= fun done =>
      if !done then throw e else pure () := rfl
  rw [hmust, succeeds_bind_iff]
  constructor
  · rintro ⟨done, between, hdone, h⟩
    rw [succeeds_lift_iff] at hdone
    cases hchange : change d with
    | none =>
      rw [run_order_of_eq_none hchange] at hdone
      obtain ⟨rfl, rfl⟩ := Prod.mk.inj hdone
      exact absurd h not_succeeds_throw
    | some changed =>
      rw [run_order_of_eq_some hchange] at hdone
      obtain ⟨rfl, rfl⟩ := Prod.mk.inj hdone
      exact congrArg some (succeeds_pure_iff.1 h).2
  · intro h
    refine ⟨true, after, ?_, rfl⟩
    rw [succeeds_lift_iff, run_order_of_eq_some h]

/-- A part that only reads leaves the disk as it is. -/
theorem Succeeds.eq_of_isReading {x : ExceptT CommandError (StateM Disk) α} {a : α}
    (h : Succeeds x d a after) (hx : IsReading x.run) : after = d := by
  have hd := hx d
  rw [show x.run.run d = (.ok a, after) from h] at hd
  exact hd

/-- What a run of the compiler compiles from: the configuration, the widgets to compile with the
texts of their definitions, and the components. -/
structure Sources where
  config : Config
  names : List String
  texts : List (Option String)
  lib : Library
  deriving DecidableEq

section

variable {m : Type → Type} [Monad m] (fs : FileSystem m)

/-- Finds what there is to compile, once there is a directory for what is compiled. -/
def sources (i : Invocation) (widget : Option String) : ExceptT CommandError m Sources := do
  let config ← loadConfig fs i.config
  let names ← chosenWidgets fs config widget
  if !names.isEmpty then
    must (.notCreated config.outputDirectory) (fs.createDirectories config.outputDirectory)
  let lib ← ExceptT.lift (Library.ofDirectory fs config.stencilsDirectory)
  let texts ← ExceptT.lift (names.mapM fun name => fs.read? (config.definitionPath name))
  return { config, names, texts, lib }

end

/-- The options that widgets are compiled with. -/
def options (i : Invocation) (c : Config) : CompileOptions :=
  { assetBaseUrl := i.assetBaseUrl.getD c.project.assetBaseUrl }

/-- What is found on a disk, and the disk with the directory for what is compiled. -/
structure Finds (i : Invocation) (widget : Option String) (d : Disk) (s : Sources)
    (after : Disk) : Prop where
  config : Succeeds (loadConfig Disk.fileSystem i.config) d s.config d
  names : Succeeds (chosenWidgets Disk.fileSystem s.config widget) d s.names d
  directory : if s.names = [] then after = d
    else d.createDirectories? s.config.outputDirectory = some after
  lib : (Library.ofDirectory Disk.fileSystem s.config.stencilsDirectory).run after = (s.lib, after)
  texts : s.texts = s.names.map fun name => after.read? (s.config.definitionPath name)

theorem run_mapM_read? (path : α → String) (xs : List α) :
    (xs.mapM fun x => Disk.fileSystem.read? (path x)).run d =
      (xs.map fun x => d.read? (path x), d) := by
  induction xs with
  | nil =>
    rw [List.mapM_nil]
    rfl
  | cons x xs ih =>
    have hread : (Disk.fileSystem.read? (path x)).run d = (d.read? (path x), d) := rfl
    rw [List.mapM_cons, Disk.run_bind, hread, Disk.run_bind, ih]
    rfl

/-- A run of the compiler reads the configuration and the names of the widgets first, and leaves
the disk as it is for them. -/
theorem succeeds_chosen_iff {i : Invocation} {widget : Option String} {a : α}
    {rest : Config → List String → ExceptT CommandError (StateM Disk) α} :
    Succeeds (do
      let config ← loadConfig Disk.fileSystem i.config
      let names ← chosenWidgets Disk.fileSystem config widget
      rest config names) d a after ↔
      ∃ config names, Succeeds (loadConfig Disk.fileSystem i.config) d config d ∧
        Succeeds (chosenWidgets Disk.fileSystem config widget) d names d ∧
        Succeeds (rest config names) d a after := by
  constructor
  · intro h
    obtain ⟨config, d₁, hconfig, h₁⟩ := succeeds_bind_iff.1 h
    have hd₁ := hconfig.eq_of_isReading (isReading_loadConfig _)
    rw [hd₁] at hconfig h₁
    obtain ⟨names, d₂, hnames, h₂⟩ := succeeds_bind_iff.1 h₁
    have hd₂ := hnames.eq_of_isReading (isReading_chosenWidgets _ _)
    rw [hd₂] at hnames h₂
    exact ⟨config, names, hconfig, hnames, h₂⟩
  · rintro ⟨config, names, hconfig, hnames, h⟩
    exact succeeds_bind_iff.2 ⟨config, d, hconfig, succeeds_bind_iff.2 ⟨names, d, hnames, h⟩⟩

theorem succeeds_reads_iff {path : α → String} {xs : List α} {texts : List (Option String)} :
    Succeeds (ExceptT.lift (xs.mapM fun x => Disk.fileSystem.read? (path x))) d texts after ↔
      (xs.map fun x => d.read? (path x)) = texts ∧ d = after := by
  rw [succeeds_lift_iff, run_mapM_read?, Prod.mk.injEq]

theorem succeeds_lib_iff {directory : String} {lib : Library} :
    Succeeds (ExceptT.lift (Library.ofDirectory Disk.fileSystem directory)) d lib after ↔
      (Library.ofDirectory Disk.fileSystem directory).run d = (lib, d) ∧ d = after := by
  have hd := Library.isReading_ofDirectory directory d
  rw [succeeds_lift_iff]
  constructor
  · intro h
    rw [h] at hd
    obtain rfl : after = d := hd
    exact ⟨h, rfl⟩
  · rintro ⟨h, rfl⟩
    exact h

/-- What is read last, when there is a directory for what is compiled. -/
theorem succeeds_texts_iff {config : Config} {names : List String} {s : Sources} :
    Succeeds (do
      let lib ← ExceptT.lift (Library.ofDirectory Disk.fileSystem config.stencilsDirectory)
      let texts ← ExceptT.lift
        (names.mapM fun name => Disk.fileSystem.read? (config.definitionPath name))
      return ({ config, names, texts, lib } : Sources)) d s after ↔
      d = after ∧ s.config = config ∧ s.names = names ∧
        (Library.ofDirectory Disk.fileSystem config.stencilsDirectory).run after = (s.lib, after) ∧
        s.texts = names.map fun name => after.read? (config.definitionPath name) := by
  simp only [succeeds_bind_iff, succeeds_lib_iff, succeeds_reads_iff, succeeds_pure_iff]
  constructor
  · rintro ⟨lib, d₁, ⟨hlib, rfl⟩, texts, d₂, ⟨htexts, rfl⟩, rfl, rfl⟩
    exact ⟨rfl, rfl, rfl, hlib, htexts.symm⟩
  · obtain ⟨config', names', texts, lib⟩ := s
    rintro ⟨rfl, rfl, rfl, hlib, htexts⟩
    exact ⟨lib, d, ⟨hlib, rfl⟩, texts, d, ⟨htexts.symm, rfl⟩, rfl, rfl⟩

theorem succeeds_sources_iff {i : Invocation} {widget : Option String} {s : Sources} :
    Succeeds (sources Disk.fileSystem i widget) d s after ↔ Finds i widget d s after := by
  refine succeeds_chosen_iff.trans ?_
  constructor
  · rintro ⟨config, names, hconfig, hnames, h⟩
    cases names with
    | nil =>
      obtain ⟨rfl, rfl, hnil, hlib, htexts⟩ := succeeds_texts_iff.1 h
      rw [← hnil] at hnames htexts
      exact ⟨hconfig, hnames, by rw [if_pos hnil], hlib, htexts⟩
    | cons name names =>
      obtain ⟨⟨⟩, between, hmust, h⟩ := succeeds_bind_iff.1 h
      obtain ⟨rfl, rfl, hcons, hlib, htexts⟩ := succeeds_texts_iff.1 h
      rw [← hcons] at hnames htexts
      have hne : s.names ≠ [] := by
        rw [hcons]
        exact List.cons_ne_nil name names
      exact ⟨hconfig, hnames, by rw [if_neg hne]; exact succeeds_must_iff.1 hmust, hlib, htexts⟩
  · rintro ⟨hconfig, hnames, hdirectory, hlib, htexts⟩
    refine ⟨s.config, s.names, hconfig, hnames, ?_⟩
    have hrest := succeeds_texts_iff.2 ⟨Eq.refl after, rfl, rfl, hlib, htexts⟩
    generalize s.names = names at hdirectory hrest
    cases names with
    | nil =>
      obtain rfl : after = d := hdirectory
      exact hrest
    | cons name names =>
      exact succeeds_bind_iff.2 ⟨(), after, succeeds_must_iff.2 hdirectory, hrest⟩

theorem Succeeds.unique {x : ExceptT CommandError (StateM Disk) α} {a b : α} {e : Disk}
    (h : Succeeds x d a after) (h' : Succeeds x d b e) : a = b ∧ after = e := by
  obtain ⟨ha, hd⟩ := Prod.mk.inj (h.symm.trans h')
  exact ⟨Except.ok.inj ha, hd⟩

theorem Finds.unique {i : Invocation} {widget : Option String} {s t : Sources} {e : Disk}
    (h : Finds i widget d s after) (h' : Finds i widget d t e) : s = t ∧ after = e :=
  (succeeds_sources_iff.2 h).unique (succeeds_sources_iff.2 h')

/-! ## Where compiled widgets go -/

theorem isFileName_json {name : String} (h : '/' ∉ name.toList) :
    Disk.IsFileName (name ++ ".json") := by
  have hlast : (name ++ ".json").toList.getLast? = some 'n' := by
    simp
  refine ⟨?_, ?_, ?_⟩
  · simp [h]
  · refine Bool.eq_false_iff.2 fun hidle => ?_
    simp only [Disk.isIdle, Bool.or_eq_true, beq_iff_eq] at hidle
    rcases hidle with hidle | hidle
    · rw [hidle] at hlast
      cases hlast
    · rw [hidle] at hlast
      cases hlast
  · intro hup
    rw [hup] at hlast
    cases hlast

theorem run_widgetNames? (c : Config) :
    ((c.widgetNames? Disk.fileSystem).run d).1 =
      if (d.kind? c.widgetsDirectory).isSome then
        (d.names? c.widgetsDirectory).map fun found =>
          ((found.filterM fun name =>
            Disk.fileSystem.isFile (c.definitionPath name)).run d).1.mergeSort
            fun a b => !decide (b < a)
      else some [] := by
  have hexists : (Disk.fileSystem.exists? c.widgetsDirectory).run d =
      ((d.kind? c.widgetsDirectory).isSome, d) := rfl
  have hlisted : (Disk.fileSystem.names? c.widgetsDirectory).run d =
      (d.names? c.widgetsDirectory, d) := rfl
  rw [Config.widgetNames?, Disk.run_bind, hexists]
  cases (d.kind? c.widgetsDirectory).isSome with
  | false => rfl
  | true =>
    have hrest : ∀ x : StateM Disk (Option (List String)),
        (if (!true) = true then pure (some []) else x) = x := fun _ => rfl
    rw [hrest, Disk.run_bind, hlisted]
    cases d.names? c.widgetsDirectory <;> rfl

theorem slash_notMem_of_widgetNames? {c : Config} {names : List String}
    (hplain : d.HasPlainNames) (h : ((c.widgetNames? Disk.fileSystem).run d).1 = some names) :
    ∀ name ∈ names, '/' ∉ name.toList := by
  rw [run_widgetNames?] at h
  split at h
  · obtain ⟨found, hfound, rfl⟩ := Option.map_eq_some_iff.1 h
    intro name hname
    have hmem := Disk.mem_of_mem_filterM (List.mem_mergeSort.1 hname)
    exact Disk.slash_notMem_of_names? hplain hfound name hmem
  · obtain rfl := Option.some.inj h
    exact fun name hname => nomatch hname

/-- Different widgets are compiled to different places. -/
theorem Finds.apart {i : Invocation} {widget : Option String} {s : Sources}
    (h : Finds i widget d s after) (hplain : d.HasPlainNames) {a b : String} (ha : a ∈ s.names)
    (hb : b ∈ s.names) (hne : a ≠ b) (e : Disk) {place : List String}
    (hplace : e.resolve? (s.config.compiledPath a) = some place) :
    e.resolve? (s.config.compiledPath b) ≠ some place := by
  have hnames := h.names
  cases widget with
  | some name =>
    obtain ⟨isThere, d₁, -, hrest⟩ := succeeds_bind_iff.1 hnames
    cases isThere with
    | false => exact absurd hrest not_succeeds_throw
    | true =>
      have hname : [name] = s.names := (succeeds_pure_iff.1 hrest).1
      rw [← hname, List.mem_singleton] at ha hb
      exact absurd (ha.trans hb.symm) hne
  | none =>
    obtain ⟨found, d₁, hfound, hrest⟩ := succeeds_bind_iff.1 hnames
    have hfound : ((s.config.widgetNames? Disk.fileSystem).run d).1 = some s.names := by
      rw [succeeds_lift_iff.1 hfound]
      exact (succeeds_orFail_iff.1 hrest).1
    have hslash := slash_notMem_of_widgetNames? hplain hfound
    exact Disk.resolve?_ne_of_ne (isFileName_json (hslash a ha)) (isFileName_json (hslash b hb))
      (fun heq => hne ((String.append_left_inj ".json").1 heq)) hplace

end Command

end WidgetSchema
