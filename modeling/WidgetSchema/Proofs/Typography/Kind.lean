-- The kind of a scale. A size is taken for a number where it can be, and only otherwise for a
-- length. A bare zero is both, so among lengths it counts against them: just those scales of
-- lengths that hold one are said to be mixed.
import WidgetSchema.Proofs.Css.Single
import WidgetSchema.Typography.Rules
namespace WidgetSchema

variable {s : String} {scale : Node} {kind : ScaleKind}

/-! ## Numbers that are lengths -/

namespace Css

open Text

def zeros : List String := ["0", "0.0", "0.00"]

/-- A zero that is a length without a unit. -/
def isBareZero (s : String) : Bool := zeros.contains (trim s)

theorem isNumeric_trim (s : String) : isNumeric (trim s) = isNumeric s := by
  have htrim := congrArg String.toList (trim_trim s)
  rw [trim, String.toList_ofList, trim, String.toList_ofList] at htrim
  rw [isNumeric, isNumeric, trim, String.toList_ofList, htrim]

theorem isLength_trim (s : String) : isLength (trim s) = isLength s := by
  have htrim := congrArg String.toList (trim_trim s)
  rw [trim, String.toList_ofList, trim, String.toList_ofList] at htrim
  rw [isLength, isLength, trim, String.toList_ofList, htrim]

/-- A number is no call, since the name of each function has a character that numbers have not. -/
theorem callBody?_of_number {cs : List Char} (h : afterNumber? cs = some []) :
    callBody? id lengthFunctions cs = none := by
  obtain ⟨number, hcs, hne, hnumber⟩ := append_of_afterNumber? h
  rw [List.append_nil] at hcs
  subst hcs
  refine Option.eq_none_iff_forall_ne_some.2 fun body hbody => ?_
  obtain ⟨name, hname, hcall⟩ := call_of_callBody? hbody
  rw [List.map_id] at hname
  have hfirst : ∀ word ∈ lengthFunctions, word.toList.any (fun c => !isNumberChar c) = true := by
    decide
  obtain ⟨c, hc, hforeign⟩ := List.any_eq_true.1 (hfirst _ hname)
  rw [String.toList_ofList] at hc
  have hin : c ∈ cs := hcall ▸ List.mem_append_left _ hc
  rw [hnumber c hin] at hforeign
  exact Bool.noConfusion hforeign

/-- What is both a number and a length is a bare zero. -/
theorem isBareZero_iff : isBareZero s = true ↔ isNumeric s = true ∧ isLength s = true := by
  constructor
  · intro hzero
    have hboth : ∀ z ∈ zeros, isNumeric z = true ∧ isLength z = true := by decide
    have h := hboth _ (List.contains_iff_mem.1 hzero)
    rwa [isNumeric_trim, isLength_trim] at h
  · rintro ⟨hnumeric, hlength⟩
    have hnumber : afterNumber? (trimChars s.toList) = some [] := beq_iff_eq.1 hnumeric
    have hunit : units.contains (String.ofList []) = false := by decide
    rw [isBareZero, zeros, trim]
    simpa only [isLength, callBody?_of_number hnumber, hnumber, Option.any_none, Option.any_some,
      hunit, Bool.or_false] using hlength

end Css

/-! ## Scales -/

namespace ScaleKind

/-- The text that a scale has for a size. -/
def textAt? (scale : Node) (size : String) : Option String :=
  (scale.member? size).bind Node.string?

def kindAt? (scale : Node) (size : String) : Option ScaleKind :=
  (textAt? scale size).bind fun s => ofSize? (Text.trim s)

/-- Every size of a scale is a text that passes a check. -/
def passes (check : String → Bool) (scale : Node) : Bool :=
  sizes.all fun size => (textAt? scale size).any check

/-- A size of a scale is a bare zero. -/
def hasBareZero (scale : Node) : Bool :=
  sizes.any fun size => (textAt? scale size).any Css.isBareZero

/-- The kind of a scale whose sizes are all numbers, or else all lengths. -/
def uniform? (scale : Node) : Option ScaleKind :=
  if passes Css.isNumeric scale then some number
  else if passes Css.isLength scale then some length
  else none

/-- A scale of lengths, not all of them numbers, with a bare zero among them. -/
structure MixesZeros (scale : Node) : Prop where
  lengths : uniform? scale = some length
  zero : hasBareZero scale = true

theorem passes_iff {check : String → Bool} :
    passes check scale = true ↔ ∀ size ∈ sizes, (textAt? scale size).any check = true :=
  List.all_eq_true

theorem ofSize?_eq_number_iff : ofSize? (Text.trim s) = some number ↔ Css.isNumeric s = true := by
  rw [ofSize?, Css.isNumeric_trim, Css.isLength_trim]
  cases Css.isNumeric s <;> cases Css.isLength s <;> simp

theorem ofSize?_eq_length_iff : ofSize? (Text.trim s) = some length ↔
    Css.isLength s = true ∧ Css.isBareZero s = false := by
  rw [← Bool.not_eq_true (Css.isBareZero s), Css.isBareZero_iff, ofSize?, Css.isNumeric_trim,
    Css.isLength_trim]
  cases Css.isNumeric s <;> cases Css.isLength s <;> simp

/-- A run gives one value throughout just when it gives this value for every item. -/
theorem mapM_all_iff {α : Type} {f : α → Option ScaleKind} {xs : List α} :
    (∃ kinds, xs.mapM f = some kinds ∧ kinds.all (· == kind) = true) ↔
      ∀ x ∈ xs, f x = some kind := by
  induction xs with
  | nil => simp
  | cons x xs ih =>
    rw [List.forall_mem_cons, ← ih, List.mapM_cons]
    constructor
    · rintro ⟨kinds, hrun, hall⟩
      obtain ⟨k, hk, hrun⟩ := Option.bind_eq_some_iff.1 hrun
      obtain ⟨ks, hks, hrun⟩ := Option.bind_eq_some_iff.1 hrun
      obtain rfl := Option.some.inj hrun
      rw [List.all_cons, Bool.and_eq_true, beq_iff_eq] at hall
      exact ⟨hall.1 ▸ hk, ks, hks, hall.2⟩
    · rintro ⟨hx, ks, hks, hall⟩
      exact ⟨kind :: ks, by rw [hx, hks]; rfl, by rw [List.all_cons, hall, beq_self_eq_true]; rfl⟩

/-- A scale is of a kind just when each of its sizes is. -/
theorem ofScale?_eq_some_iff : ofScale? scale = some kind ↔
    ∀ size ∈ sizes, kindAt? scale size = some kind := by
  have hrun : ofScale? scale = (sizes.mapM (kindAt? scale)).bind fun kinds =>
      if kinds.all (· == number) then some number
      else if kinds.all (· == length) then some length else none := rfl
  rw [hrun, ← mapM_all_iff]
  rcases hkinds : sizes.mapM (kindAt? scale) with _ | kinds
  · simp
  · rw [Option.bind_some]
    -- No scale is of both kinds, since its first size is not.
    have hone : ¬ (kinds.all (· == number) = true ∧ kinds.all (· == length) = true) := by
      rintro ⟨hnumber, hlength⟩
      have hfirst := mapM_all_iff.1 ⟨kinds, hkinds, hnumber⟩ "xs" (by decide)
      rw [mapM_all_iff.1 ⟨kinds, hkinds, hlength⟩ "xs" (by decide)] at hfirst
      cases hfirst
    cases kind <;> simp only [Option.some.injEq, exists_eq_left'] <;> grind

theorem ofScale?_eq_number_iff :
    ofScale? scale = some number ↔ passes Css.isNumeric scale = true := by
  rw [ofScale?_eq_some_iff, passes_iff]
  refine forall₂_congr fun size _ => ?_
  rw [kindAt?, Option.bind_eq_some_iff, Option.any_eq_true]
  exact exists_congr fun s => and_congr_right fun _ => ofSize?_eq_number_iff

theorem ofScale?_eq_length_iff : ofScale? scale = some length ↔
    passes Css.isLength scale = true ∧ hasBareZero scale = false := by
  have hsize : ∀ size, kindAt? scale size = some length ↔
      (textAt? scale size).any Css.isLength = true ∧
        (textAt? scale size).any Css.isBareZero = false := by
    intro size
    rw [kindAt?]
    rcases textAt? scale size with _ | s
    · simp
    · rw [Option.bind_some, Option.any_some, Option.any_some, ofSize?_eq_length_iff]
  rw [ofScale?_eq_some_iff, passes_iff, hasBareZero, List.any_eq_false]
  simp only [Bool.not_eq_true, ← forall₂_and]
  exact forall₂_congr fun size _ => hsize size

/-- The count says what the reading of all sizes says, but for lengths with a bare zero. -/
theorem ofScale?_eq_uniform?_iff : ofScale? scale = uniform? scale ↔ ¬ MixesZeros scale := by
  constructor
  · rintro hequal ⟨hlengths, hzero⟩
    rw [hlengths, ofScale?_eq_length_iff, hzero] at hequal
    exact Bool.noConfusion hequal.2
  · intro hunmixed
    by_cases hnumber : passes Css.isNumeric scale = true
    · rw [uniform?, if_pos hnumber, ofScale?_eq_number_iff]
      exact hnumber
    · by_cases hlength : passes Css.isLength scale = true
      · have huniform : uniform? scale = some length := by
          rw [uniform?, if_neg hnumber, if_pos hlength]
        rw [huniform, ofScale?_eq_length_iff]
        exact ⟨hlength, Bool.eq_false_iff.2 fun hzero => hunmixed ⟨huniform, hzero⟩⟩
      · rw [uniform?, if_neg hnumber, if_neg hlength, Option.eq_none_iff_forall_ne_some]
        rintro (_ | _) hkind
        · exact hnumber (ofScale?_eq_number_iff.1 hkind)
        · exact hlength (ofScale?_eq_length_iff.1 hkind).1

theorem ofScale?_eq_none_iff :
    ofScale? scale = none ↔ uniform? scale = none ∨ MixesZeros scale := by
  by_cases hmixed : MixesZeros scale
  · refine iff_of_true (Option.eq_none_iff_forall_ne_some.2 ?_) (.inr hmixed)
    rintro (_ | _) hkind
    · have hlengths := hmixed.lengths
      rw [uniform?, if_pos (ofScale?_eq_number_iff.1 hkind)] at hlengths
      cases hlengths
    · exact Bool.noConfusion ((ofScale?_eq_length_iff.1 hkind).2.symm.trans hmixed.zero)
  · rw [ofScale?_eq_uniform?_iff.2 hmixed, or_iff_left hmixed]

end ScaleKind

/-! ## What is reported -/

namespace Typography

open ScaleKind

/-- The scale of a role: the role is an object, and so is its member of the scales. -/
structure HasScale (typography : Node) (role : String) (scale : Node) : Prop where
  listed : ∃ roles r, roles? typography = some roles ∧ (role, r) ∈ roles
  found : ∃ scales, (typography.member? "roleScales").filter Node.isObject = some scales ∧
    (scales.member? role).filter Node.isObject = some scale

theorem mixedScale_notMem_sizeFaults {place role : String} {r : Node} {kind : Option ScaleKind} :
    (⟨place, .mixedScale⟩ : Violation) ∉ sizeFaults role r kind := by
  unfold sizeFaults
  dsimp only
  split <;> (try split) <;> simp

theorem mixedScale_mem_roleScaleFaults_iff {place role : String} {scales r : Node} :
    (⟨place, .mixedScale⟩ : Violation) ∈ roleScaleFaults scales role r ↔
      place = scalePath role ∧ ∃ scale, (scales.member? role).filter Node.isObject = some scale ∧
        ofScale? scale = none := by
  unfold roleScaleFaults
  rcases (scales.member? role).filter Node.isObject with _ | scale
  · simp
  · dsimp only
    rw [List.mem_append, List.mem_append, or_iff_left mixedScale_notMem_sizeFaults]
    rcases hkind : ofScale? scale with _ | kind <;> simp [hkind]

theorem mixedScale_mem_scaleFaults_iff {place : String} {typography : Node} :
    (⟨place, .mixedScale⟩ : Violation) ∈ scaleFaults typography ↔
      ∃ role scale, place = scalePath role ∧ HasScale typography role scale ∧
        ofScale? scale = none := by
  unfold scaleFaults
  constructor
  · intro hmem
    rcases hroles : roles? typography with _ | roles
    · rw [hroles] at hmem
      cases hmem
    · rcases hscales : (typography.member? "roleScales").filter Node.isObject with _ | scales
      · rw [hroles, hscales] at hmem
        simp at hmem
      · rw [hroles, hscales] at hmem
        obtain ⟨⟨role, r⟩, hrole, hmem⟩ := List.mem_flatMap.1 hmem
        obtain ⟨hplace, scale, hscale, hkind⟩ := mixedScale_mem_roleScaleFaults_iff.1 hmem
        exact ⟨role, scale, hplace, ⟨⟨roles, r, hroles, hrole⟩, scales, hscales, hscale⟩, hkind⟩
  · rintro ⟨role, scale, hplace, ⟨⟨roles, r, hroles, hrole⟩, scales, hscales, hscale⟩, hkind⟩
    rw [hroles, hscales]
    exact List.mem_flatMap.2 ⟨(role, r), hrole,
      mixedScale_mem_roleScaleFaults_iff.2 ⟨hplace, scale, hscale, hkind⟩⟩

/-- A scale is one of numbers just where all its sizes are numbers, and one of lengths just where
all are lengths and none is a bare zero; so it has the kind that its sizes share, but for lengths
with a bare zero among them. A scale is reported as mixed just where its sizes share no kind or
where it is one of these. -/
theorem a_scale_has_the_kind_of_its_sizes_unless_it_mixes_zeros (scale typography : Node)
    (place : String) :
    ((ofScale? scale = some .number ↔ passes Css.isNumeric scale = true) ∧
      (ofScale? scale = some .length ↔
        passes Css.isLength scale = true ∧ hasBareZero scale = false) ∧
      (ofScale? scale = uniform? scale ↔ ¬ MixesZeros scale)) ∧
    ((⟨place, .mixedScale⟩ : Violation) ∈ scaleFaults typography ↔
      ∃ role scale, place = scalePath role ∧ HasScale typography role scale ∧
        (uniform? scale = none ∨ MixesZeros scale)) := by
  refine ⟨⟨ofScale?_eq_number_iff, ofScale?_eq_length_iff, ofScale?_eq_uniform?_iff⟩, ?_⟩
  simp only [mixedScale_mem_scaleFaults_iff, ofScale?_eq_none_iff]

/-- Sizes in pixels, but for the smallest one. -/
def pixelScale (smallest : String) : Node :=
  .object [("xs", .string smallest), ("s", .string "12px"), ("m", .string "16px"),
    ("l", .string "20px"), ("xl", .string "24px")]

/-- Five lengths are reported as mixed, because the first of them is a bare zero. -/
theorem five_lengths_are_not_always_of_one_kind :
    passes Css.isLength (pixelScale "0") = true ∧ uniform? (pixelScale "0") = some .length ∧
      ofScale? (pixelScale "0") = none ∧ ofScale? (pixelScale "0px") = some .length ∧
      (⟨"typography.roleScales.title", .mixedScale⟩ : Violation) ∈ scaleFaults
        (.object [("roles", .object [("title", .object [("sizeCustom", .string "24px")])]),
          ("roleScales", .object [("title", pixelScale "0")])]) := by
  decide

end Typography

end WidgetSchema
