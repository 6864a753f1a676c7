-- Which custom sizes pass the check of their scale. A number is made a length by a unit and a
-- custom property by a call, and either ends what there was to fit; a percent sign that goes leaves
-- a number, which has none. So a size is fitted once, and what comes out passes the check just
-- where it was written in one of the short forms of the scale.
import WidgetSchema.Proofs.Typography.Kind
import WidgetSchema.Proofs.Typography.Size
namespace WidgetSchema

open Text (trim trimChars trim_append trim_trim isDecimalDigit dropFolded dropFolded_append_self)

/-! ## The form of a number -/

namespace Css

variable {cs rest : List Char} {s : String}

structure IsDigits (cs : List Char) : Prop where
  ne_nil : cs ≠ []
  digit : ∀ c ∈ cs, isDecimalDigit c = true

/-- Digits, with or without a dot and more digits behind them. -/
inductive IsUnsigned : List Char → Prop
  | whole {digits : List Char} : IsDigits digits → IsUnsigned digits
  | fraction {digits places : List Char} : IsDigits digits → IsDigits places →
      IsUnsigned (digits ++ '.' :: places)

/-- A number with or without a minus sign. -/
inductive IsNumber : List Char → Prop
  | unsigned {cs : List Char} : IsUnsigned cs → IsNumber cs
  | minus {cs : List Char} : IsUnsigned cs → IsNumber ('-' :: cs)

theorem isDigits_takeWhile (h : ¬ (cs.takeWhile isDecimalDigit).isEmpty = true) :
    IsDigits (cs.takeWhile isDecimalDigit) where
  ne_nil := by simpa using h
  digit _ hc := List.mem_takeWhile_imp hc

theorem IsDigits.span (h : IsDigits cs) (hrest : ∀ c ∈ rest.head?, isDecimalDigit c = false) :
    (cs ++ rest).takeWhile isDecimalDigit = cs ∧ (cs ++ rest).dropWhile isDecimalDigit = rest := by
  rw [List.takeWhile_append_of_pos h.digit, List.dropWhile_append_of_pos h.digit]
  cases rest with
  | nil => exact ⟨List.append_nil cs, rfl⟩
  | cons c rest =>
    have hc := hrest c rfl
    simp [hc]

theorem IsDigits.isEmpty_eq (h : IsDigits cs) : cs.isEmpty = false := by
  simpa using h.ne_nil

theorem isUnsigned_of_afterUnsigned? (h : afterUnsigned? cs = some []) : IsUnsigned cs := by
  have hsplit := List.takeWhile_append_dropWhile (p := isDecimalDigit) (l := cs)
  unfold afterUnsigned? at h
  split at h
  · cases h
  · rename_i hdigits
    split at h
    · rename_i fraction hdot
      split at h
      · cases h
      · rename_i hplaces
        have hall := List.takeWhile_append_dropWhile (p := isDecimalDigit) (l := fraction)
        rw [Option.some.inj h, List.append_nil] at hall
        rw [← hsplit, hdot]
        exact .fraction (isDigits_takeWhile hdigits) (hall ▸ isDigits_takeWhile hplaces)
    · rw [Option.some.inj h, List.append_nil] at hsplit
      exact .whole (hsplit ▸ isDigits_takeWhile hdigits)

/-- A number is read up to the first character that does not belong to one. -/
theorem afterUnsigned?_append (h : IsUnsigned cs)
    (hrest : ∀ c ∈ rest.head?, isNumberChar c = false) :
    afterUnsigned? (cs ++ rest) = some rest := by
  have hdigit : ∀ c ∈ rest.head?, isDecimalDigit c = false := fun c hc => by
    have hno := hrest c hc
    simp only [isNumberChar, Bool.or_eq_false_iff] at hno
    exact hno.1.1
  have hdot : rest.head? ≠ some '.' := fun hhead => by
    have hno := hrest '.' hhead
    revert hno
    decide
  cases h with
  | whole hdigits =>
    obtain ⟨htake, hdrop⟩ := hdigits.span hdigit
    rw [afterUnsigned?, htake, hdrop, hdigits.isEmpty_eq, if_neg Bool.false_ne_true]
    split
    · exact absurd rfl hdot
    · rfl
  | @fraction digits places hdigits hplaces =>
    have hpoint : ∀ c ∈ ('.' :: (places ++ rest)).head?, isDecimalDigit c = false := by
      rintro c ⟨⟩
      decide
    obtain ⟨htake, hdrop⟩ := hdigits.span hpoint
    obtain ⟨htakeplaces, hdropplaces⟩ := hplaces.span hdigit
    have hread : afterUnsigned? (digits ++ '.' :: (places ++ rest)) =
        if ((places ++ rest).takeWhile isDecimalDigit).isEmpty then some ('.' :: (places ++ rest))
        else some ((places ++ rest).dropWhile isDecimalDigit) := by
      rw [afterUnsigned?, htake, hdrop, hdigits.isEmpty_eq, if_neg Bool.false_ne_true]
      rfl
    rw [List.append_assoc, List.cons_append, hread, htakeplaces, hdropplaces, hplaces.isEmpty_eq,
      if_neg Bool.false_ne_true]

/-- A number without a sign does not begin with a dash. -/
theorem IsUnsigned.head_ne_dash (h : IsUnsigned cs) (rest : List Char) :
    (cs ++ rest).head? ≠ some '-' := by
  have hfirst : ∀ {digits rest : List Char}, IsDigits digits →
      (digits ++ rest).head? ≠ some '-' := by
    intro digits rest hdigits hhead
    obtain ⟨c, digits, rfl⟩ := List.exists_cons_of_ne_nil hdigits.ne_nil
    obtain rfl := Option.some.inj hhead
    exact absurd (hdigits.digit _ List.mem_cons_self) (by decide)
  cases h with
  | whole hdigits => exact hfirst hdigits
  | fraction hdigits _ =>
    rw [List.append_assoc]
    exact hfirst hdigits

theorem afterNumber?_append (h : IsNumber cs)
    (hrest : ∀ c ∈ rest.head?, isNumberChar c = false) :
    afterNumber? (cs ++ rest) = some rest := by
  cases h with
  | unsigned h =>
    rw [afterNumber?_unsigned (h.head_ne_dash rest)]
    exact afterUnsigned?_append h hrest
  | minus h => exact afterUnsigned?_append h hrest

theorem isNumeric_iff : isNumeric s = true ↔ IsNumber (trimChars s.toList) := by
  rw [isNumeric, beq_iff_eq]
  constructor
  · intro h
    by_cases hsign : (trimChars s.toList).head? = some '-'
    · obtain ⟨cs, hcs⟩ := List.head?_eq_some_iff.1 hsign
      rw [hcs] at h ⊢
      exact .minus (isUnsigned_of_afterUnsigned? h)
    · exact .unsigned (isUnsigned_of_afterUnsigned? (afterNumber?_unsigned hsign ▸ h))
  · intro h
    have hread : afterNumber? (trimChars s.toList ++ []) = some [] :=
      afterNumber?_append h (by rintro c ⟨⟩)
    rwa [List.append_nil] at hread

theorem isNumberChar_of_isNumeric (h : isNumeric s = true) :
    ∀ c ∈ trimChars s.toList, isNumberChar c = true := by
  obtain ⟨number, hs, -, hnumber⟩ := append_of_afterNumber? (beq_iff_eq.1 h)
  rw [List.append_nil] at hs
  exact hs ▸ hnumber

theorem isLength_of_unit {unit : List Char} (h : afterNumber? (trimChars s.toList) = some unit)
    (hunit : units.contains (String.ofList unit) = true) : isLength s = true := by
  rw [isLength, h, Option.any_some, hunit, Bool.or_true]

theorem isLength_of_reference {body : List Char} (h : trimChars s.toList = call ['v', 'a', 'r'] body)
    (hne : body ≠ []) : isLength s = true := by
  have hbody : callBody? id lengthFunctions (call ['v', 'a', 'r'] body) = some body := by
    have hdrop : dropFolded id "var".toList (call ['v', 'a', 'r'] body) =
        some ('(' :: (body ++ [')'])) := dropFolded_append_self rfl _
    rw [callBody?, lengthFunctions, List.findSome?_cons, hdrop]
    simp
  have hfull : body.isEmpty = false := by simpa using hne
  rw [isLength, h, hbody, Option.any_some, hfull, Bool.not_false, Bool.or_true, Bool.true_or]

end Css

/-! ## Fitted sizes -/

variable {s : String} {kind : ScaleKind}

def pixels (s : String) : String := trim s ++ "px"

def reference (s : String) : String := "var(" ++ trim s ++ ")"

theorem toList_trim (s : String) : (trim s).toList = trimChars s.toList := String.toList_ofList

theorem trim_pixels (s : String) : trim (pixels s) = pixels s :=
  trim_append (trim_trim s) (by decide)

theorem trim_reference (s : String) : trim (reference s) = reference s :=
  trim_append (trim_append (by decide) (trim_trim s)) (by decide)

theorem trimChars_pixels (s : String) :
    trimChars (pixels s).toList = trimChars s.toList ++ ['p', 'x'] := by
  rw [← toList_trim, trim_pixels, pixels, String.toList_append, toList_trim]
  rfl

theorem trimChars_reference (s : String) :
    trimChars (reference s).toList = Css.call ['v', 'a', 'r'] (trimChars s.toList) := by
  rw [← toList_trim, trim_reference, reference, String.toList_append, String.toList_append,
    toList_trim]
  rfl

theorem fitSize_trim (s : String) (kind : Option ScaleKind) :
    fitSize (trim s) kind = fitSize s kind := by
  simp only [fitSize, trim_trim]

theorem fitSize_eq_pixels (h : Css.isNumeric s = true) : fitSize s (some .length) = pixels s := by
  simp [fitSize, pixels, Css.isNumeric_trim, h]

/-- No number begins with two dashes. -/
theorem not_isCustomProperty_of_isNumeric (h : Css.isNumeric s = true) (rest : List Char) :
    isCustomProperty (trimChars s.toList ++ rest) = false := by
  refine Bool.eq_false_iff.2 fun hproperty => ?_
  unfold isCustomProperty at hproperty
  split at hproperty
  · rename_i name hdashes
    have hnumber := Css.isNumeric_iff.1 h
    generalize trimChars s.toList = cs at hnumber hdashes
    cases hnumber with
    | unsigned hcs => exact hcs.head_ne_dash rest (congrArg List.head? hdashes)
    | minus hcs => exact hcs.head_ne_dash rest (congrArg List.head? (List.cons.inj hdashes).2)
  · cases hproperty

theorem fitSize_eq_reference (h : isCustomProperty (trimChars s.toList) = true) :
    fitSize s (some .length) = reference s := by
  have hnumeric : Css.isNumeric s = false := by
    refine Bool.eq_false_iff.2 fun hnumeric => ?_
    have hno := not_isCustomProperty_of_isNumeric hnumeric []
    rw [List.append_nil, h] at hno
    cases hno
  simp [fitSize, reference, Css.isNumeric_trim, hnumeric, toList_trim, h]

/-- On a scale of lengths every other text stays. -/
theorem fitSize_length_eq_trim (hnumeric : Css.isNumeric s = false)
    (hproperty : isCustomProperty (trimChars s.toList) = false) :
    fitSize s (some .length) = trim s := by
  simp [fitSize, Css.isNumeric_trim, hnumeric, toList_trim, hproperty]

theorem fitSize_percent {number : String} (h : trim s = number ++ "%")
    (hnumber : Css.isNumeric number = true) : fitSize s (some .number) = trim number := by
  have hlast : (trim s).toList = number.toList ++ ['%'] := by
    rw [h, String.toList_append]
    rfl
  simp [fitSize, hlast, Css.isNumeric_trim, hnumber]

/-- On a scale of numbers every text but a number with a percent sign stays. -/
theorem fitSize_number_eq_trim
    (h : ∀ number, trim s = number ++ "%" → Css.isNumeric number = false) :
    fitSize s (some .number) = trim s := by
  unfold fitSize
  dsimp only
  split
  · rename_i hlast
    obtain ⟨cs, hcs⟩ := List.getLast?_eq_some_iff.1 hlast
    have hsize : trim s = String.ofList cs ++ "%" := by
      rw [← String.toList_inj, hcs, String.toList_append, String.toList_ofList]
      rfl
    rw [hcs, List.dropLast_concat, if_neg]
    rw [Css.isNumeric_trim, h _ hsize]
    exact Bool.false_ne_true
  · rfl

/-! ## Fitting twice -/

/-- A number in pixels is no longer a number, nor a custom property. -/
theorem fitSize_pixels (h : Css.isNumeric s = true) :
    fitSize (pixels s) (some .length) = pixels s := by
  rw [fitSize_length_eq_trim, trim_pixels]
  · refine Bool.eq_false_iff.2 fun hnumeric => ?_
    have hunit : 'x' ∈ trimChars (pixels s).toList := by simp [trimChars_pixels]
    exact absurd (Css.isNumberChar_of_isNumeric hnumeric _ hunit) (by decide)
  · rw [trimChars_pixels]
    exact not_isCustomProperty_of_isNumeric h _

/-- A reference is neither a number nor a custom property. -/
theorem fitSize_reference (s : String) : fitSize (reference s) (some .length) = reference s := by
  rw [fitSize_length_eq_trim, trim_reference]
  · refine Bool.eq_false_iff.2 fun hnumeric => ?_
    have hname : 'v' ∈ trimChars (reference s).toList := by simp [trimChars_reference, Css.call]
    exact absurd (Css.isNumberChar_of_isNumeric hnumeric _ hname) (by decide)
  · rw [trimChars_reference]
    rfl

/-- A number has no percent sign to lose. -/
theorem fitSize_number (h : Css.isNumeric s = true) : fitSize s (some .number) = trim s := by
  refine fitSize_number_eq_trim fun number hsize => ?_
  have hpercent : '%' ∈ trimChars s.toList := by
    rw [← toList_trim, hsize, String.toList_append]
    exact List.mem_append_right _ List.mem_cons_self
  exact absurd (Css.isNumberChar_of_isNumeric h _ hpercent) (by decide)

/-- A fitted size is not fitted again. -/
theorem fitSize_fitSize (s : String) (kind : Option ScaleKind) :
    fitSize (fitSize s kind) kind = fitSize s kind := by
  have hkept : fitSize s kind = trim s → fitSize (fitSize s kind) kind = fitSize s kind :=
    fun h => (congrArg (fitSize · kind) h).trans (fitSize_trim s kind)
  rcases kind with _ | _ | _
  · exact hkept rfl
  · by_cases hpercent : ∃ number, trim s = number ++ "%" ∧ Css.isNumeric number = true
    · obtain ⟨number, hsize, hnumber⟩ := hpercent
      rw [fitSize_percent hsize hnumber, fitSize_trim, fitSize_number hnumber]
    · refine hkept (fitSize_number_eq_trim fun number hsize => ?_)
      exact Bool.eq_false_iff.2 fun hnumber => hpercent ⟨number, hsize, hnumber⟩
  · by_cases hnumeric : Css.isNumeric s = true
    · rw [fitSize_eq_pixels hnumeric, fitSize_pixels hnumeric]
    · by_cases hproperty : isCustomProperty (trimChars s.toList) = true
      · rw [fitSize_eq_reference hproperty, fitSize_reference]
      · exact hkept (fitSize_length_eq_trim (Bool.eq_false_iff.2 hnumeric)
          (Bool.eq_false_iff.2 hproperty))

/-! ## The check of a scale -/

namespace ScaleKind

/-- Whether a size is one of the kind. -/
def isSize : ScaleKind → String → Bool
  | number => Css.isNumeric
  | length => Css.isLength

/-- What may be written for a size: a number, and on a scale of numbers also a number with a percent
sign behind it, on a scale of lengths also a length or the name of a custom property. -/
inductive IsShorthand : ScaleKind → String → Prop
  | number {kind : ScaleKind} {s : String} : Css.IsNumber (trimChars s.toList) → IsShorthand kind s
  | percent {s rest : String} : trim s = rest ++ "%" → Css.IsNumber (trimChars rest.toList) →
      IsShorthand .number s
  | length {s : String} : Css.isLength s = true → IsShorthand .length s
  | property {s : String} : isCustomProperty (trimChars s.toList) = true → IsShorthand .length s

end ScaleKind

theorem isLength_pixels (h : Css.isNumeric s = true) : Css.isLength (pixels s) = true := by
  have hunit : Css.afterNumber? (trimChars (pixels s).toList) = some ['p', 'x'] := by
    rw [trimChars_pixels]
    refine Css.afterNumber?_append (Css.isNumeric_iff.1 h) ?_
    rintro c ⟨⟩
    decide
  exact Css.isLength_of_unit hunit (by decide)

theorem isLength_reference (h : isCustomProperty (trimChars s.toList) = true) :
    Css.isLength (reference s) = true := by
  refine Css.isLength_of_reference (trimChars_reference s) fun hnil => ?_
  rw [hnil] at h
  cases h

/-- What is fitted is a size of the kind just where it was a shorthand. -/
theorem isSize_fitSize_iff :
    kind.isSize (fitSize s (some kind)) = true ↔ kind.IsShorthand s := by
  cases kind with
  | number =>
    rw [ScaleKind.isSize]
    by_cases hpercent : ∃ number, trim s = number ++ "%" ∧ Css.isNumeric number = true
    · obtain ⟨number, hsize, hnumber⟩ := hpercent
      rw [fitSize_percent hsize hnumber, Css.isNumeric_trim, hnumber]
      exact iff_of_true rfl (.percent hsize (Css.isNumeric_iff.1 hnumber))
    · have hkept : ∀ number, trim s = number ++ "%" → Css.isNumeric number = false :=
        fun number hsize => Bool.eq_false_iff.2 fun hnumber => hpercent ⟨number, hsize, hnumber⟩
      rw [fitSize_number_eq_trim hkept, Css.isNumeric_trim, Css.isNumeric_iff]
      refine ⟨.number, fun h => ?_⟩
      cases h with
      | number hnumber => exact hnumber
      | percent hsize hnumber => exact absurd ⟨_, hsize, Css.isNumeric_iff.2 hnumber⟩ hpercent
  | length =>
    rw [ScaleKind.isSize]
    by_cases hnumeric : Css.isNumeric s = true
    · rw [fitSize_eq_pixels hnumeric, isLength_pixels hnumeric]
      exact iff_of_true rfl (.number (Css.isNumeric_iff.1 hnumeric))
    · by_cases hproperty : isCustomProperty (trimChars s.toList) = true
      · rw [fitSize_eq_reference hproperty, isLength_reference hproperty]
        exact iff_of_true rfl (.property hproperty)
      · rw [fitSize_length_eq_trim (Bool.eq_false_iff.2 hnumeric) (Bool.eq_false_iff.2 hproperty),
          Css.isLength_trim]
        refine ⟨.length, fun h => ?_⟩
        cases h with
        | number hnumber => exact absurd (Css.isNumeric_iff.2 hnumber) hnumeric
        | length hlength => exact hlength
        | property h => exact absurd h hproperty

namespace Typography

variable {role : String} {r : Node}

theorem not_isBlankText_of_isSize (h : kind.isSize s = true) : Text.isBlankText s = false := by
  refine Bool.eq_false_iff.2 fun hblank => ?_
  have hnil : trimChars s.toList = [] := Text.trimChars_eq_nil.2 hblank
  cases kind with
  | number =>
    rw [ScaleKind.isSize, Css.isNumeric, hnil] at h
    revert h
    decide
  | length =>
    rw [ScaleKind.isSize, Css.isLength, hnil] at h
    revert h
    decide

/-- The check of the custom size of a role finds nothing just where the size is of the kind. -/
theorem sizeFaults_eq_nil_iff (h : r.member? "sizeCustom" = some (.string s)) :
    sizeFaults role r (some kind) = [] ↔ kind.isSize s = true := by
  have hsolid : solid? (some (.string s)) = if Text.isBlankText s then none else some s := by
    cases hblank : Text.isBlankText s <;> simp [solid?, Node.string?, hblank]
  unfold sizeFaults
  rw [h, hsolid]
  by_cases hblank : Text.isBlankText s = true
  · rw [if_pos hblank]
    refine iff_of_false (List.cons_ne_nil _ _) fun hsize => ?_
    rw [not_isBlankText_of_isSize hsize] at hblank
    cases hblank
  · rw [if_neg hblank]
    cases kind <;> simp [ScaleKind.isSize]

/-- Fitting a size again leaves it as it is, on a scale of either kind and without one. The check of
a role with the fitted size finds nothing just where the size was a shorthand of the kind. -/
theorem a_fitted_size_stays_and_passes_iff_it_was_a_shorthand (s : String) :
    (∀ kind, fitSize (fitSize s kind) kind = fitSize s kind) ∧
      ∀ (kind : ScaleKind) (role : String) (r : Node),
        r.member? "sizeCustom" = some (.string (fitSize s (some kind))) →
          (sizeFaults role r (some kind) = [] ↔ kind.IsShorthand s) :=
  ⟨fitSize_fitSize s, fun _ _ _ h => (sizeFaults_eq_nil_iff h).trans isSize_fitSize_iff⟩

/-- A custom property that is fitted into a scale of lengths. -/
theorem a_fitted_property_passes :
    (ScaleKind.IsShorthand .length " --fs-24 ") ∧
      fitSize " --fs-24 " (some .length) = "var(--fs-24)" ∧
      sizeFaults "title" (.object [("sizeCustom", .string "var(--fs-24)")]) (some .length) = [] := by
  have hshorthand : ScaleKind.IsShorthand .length " --fs-24 " := .property (by decide)
  have hfit : fitSize " --fs-24 " (some .length) = "var(--fs-24)" := by decide
  have hmember : (Node.object [("sizeCustom", .string "var(--fs-24)")]).member? "sizeCustom" =
      some (.string (fitSize " --fs-24 " (some .length))) := by rw [hfit]; rfl
  exact ⟨hshorthand, hfit,
    ((a_fitted_size_stays_and_passes_iff_it_was_a_shorthand " --fs-24 ").2 .length "title" _
      hmember).2 hshorthand⟩

end Typography

end WidgetSchema
