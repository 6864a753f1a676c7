-- Which weights a font is served in. Each entry of its axes adds the hundreds of a range or a
-- single weight, and what all of them add is put in ascending order. The first hundred of a range
-- is rounded up in words of 32 bits: this goes wrong just where the range starts behind the last
-- hundred that such a word holds, and the hundreds are then counted from 4 on.
import WidgetSchema.Proofs.Typography.Ranges
namespace WidgetSchema.Font

open Text (cutAt splitChars trimChars)

variable {axes entry : String} {k m n v w : Nat} {vs ws : List Nat}

/-! ## Ascending lists -/

theorem mem_insertWeight_iff : v ∈ insertWeight w vs ↔ v = w ∨ v ∈ vs := by
  induction vs with
  | nil => simp [insertWeight]
  | cons u vs ih =>
    unfold insertWeight
    split
    · exact List.mem_cons
    · split
      · rename_i heq
        simp [heq]
      · rw [List.mem_cons, ih, List.mem_cons]
        exact or_left_comm

/-- A weight that is put in leaves the list ascending, without repeats. -/
theorem pairwise_insertWeight (h : vs.Pairwise (· < ·)) :
    (insertWeight w vs).Pairwise (· < ·) := by
  induction vs with
  | nil => simp [insertWeight]
  | cons u vs ih =>
    obtain ⟨hu, hvs⟩ := List.pairwise_cons.1 h
    unfold insertWeight
    split
    · rename_i hlt
      refine List.pairwise_cons.2 ⟨?_, h⟩
      intro x hx
      rcases List.mem_cons.1 hx with rfl | hx
      · exact hlt
      · exact Nat.lt_trans hlt (hu x hx)
    · split
      · exact h
      · refine List.pairwise_cons.2 ⟨?_, ih hvs⟩
        intro x hx
        rcases mem_insertWeight_iff.1 hx with rfl | hx
        · omega
        · exact hu x hx

theorem mem_ascending_iff : w ∈ ascending ws ↔ w ∈ ws := by
  unfold ascending
  induction ws with
  | nil => rfl
  | cons v ws ih => rw [List.foldr_cons, mem_insertWeight_iff, ih, List.mem_cons]

theorem pairwise_ascending (ws : List Nat) : (ascending ws).Pairwise (· < ·) := by
  unfold ascending
  induction ws with
  | nil => exact List.Pairwise.nil
  | cons v ws ih => exact pairwise_insertWeight ih

/-! ## Hundreds -/

/-- The largest hundred in 32 bits. -/
def lastHundred : Nat := roundDown (Nat.pow 2 32 - 1)

theorem pow_two_32 : Nat.pow 2 32 = 4294967296 := rfl

theorem lastHundred_eq : lastHundred = 4294967200 := rfl

/-- A weight can be rounded up in 32 bits just where a hundred follows that fits in them. -/
theorem fits_roundUp_iff : (k + 99) / 100 * 100 < Nat.pow 2 32 ↔ k ≤ lastHundred := by
  rw [pow_two_32, lastHundred_eq]
  omega

theorem roundUp_of_le (h : k ≤ lastHundred) : roundUp k = (k + 99) / 100 * 100 :=
  Nat.mod_eq_of_lt (fits_roundUp_iff.2 h)

/-- Behind the last hundred, rounding up starts again and is 4 too high. -/
theorem roundUp_of_late (h : lastHundred < k) (hk : k < Nat.pow 2 32) : roundUp k = 4 := by
  rw [lastHundred_eq] at h
  rw [pow_two_32] at hk
  rw [roundUp, pow_two_32]
  omega

theorem mem_hundreds_iff :
    w ∈ hundreds m n ↔
      w ≤ roundDown (max m n) ∧ ∃ i, w = roundUp (min m n) + 100 * i := by
  unfold hundreds
  dsimp only
  split
  · refine iff_of_false List.not_mem_nil ?_
    rintro ⟨hw, i, rfl⟩
    omega
  · rw [List.mem_range']
    constructor
    · rintro ⟨i, hi, rfl⟩
      exact ⟨by omega, i, rfl⟩
    · rintro ⟨hw, i, rfl⟩
      exact ⟨i, by omega, rfl⟩

/-- A range that can be rounded adds the hundreds between its ends, and nothing else. -/
theorem mem_hundreds_of_le (h : min m n ≤ lastHundred) :
    w ∈ hundreds m n ↔ 100 ∣ w ∧ min m n ≤ w ∧ w ≤ max m n := by
  rw [mem_hundreds_iff, roundUp_of_le h, roundDown]
  constructor
  · rintro ⟨hw, i, rfl⟩
    omega
  · rintro ⟨⟨j, rfl⟩, hlow, hhigh⟩
    exact ⟨by omega, j - (min m n + 99) / 100, by omega⟩

/-- A range behind the last hundred adds every hundred in 32 bits, each 4 too high. -/
theorem mem_hundreds_of_late (h : lastHundred < min m n) (hm : m < Nat.pow 2 32)
    (hn : n < Nat.pow 2 32) : w ∈ hundreds m n ↔ w % 100 = 4 ∧ w < lastHundred := by
  have hlow : min m n < Nat.pow 2 32 := Nat.lt_of_le_of_lt (Nat.min_le_left m n) hm
  have hhigh : roundDown (max m n) = lastHundred := by
    rw [lastHundred_eq] at h ⊢
    rw [pow_two_32] at hm hn
    unfold roundDown
    omega
  rw [mem_hundreds_iff, roundUp_of_late h hlow, hhigh, lastHundred_eq]
  constructor
  · rintro ⟨hw, i, rfl⟩
    omega
  · rintro ⟨hrest, hw⟩
    exact ⟨by omega, w / 100, by omega⟩

theorem lt_of_mem_entryWeights (h : w ∈ entryWeights entry) : w < Nat.pow 2 32 := by
  rcases mem_entryWeights_iff.1 h with ⟨m, n, ⟨_, _, _, _, _, hm, hn⟩, hw⟩ | ⟨_, _, _, hword⟩
  · have hmax : max m n < Nat.pow 2 32 := Nat.max_lt.2 ⟨hm.fits, hn.fits⟩
    have hlast := (mem_hundreds_iff.1 hw).1
    unfold roundDown at hlast
    omega
  · exact hword.fits

/-! ## What entries stand for -/

/-- A range stands for the hundreds between its ends, in whichever order they are given, and a
single weight for itself. -/
inductive StandsFor (entry : String) (w : Nat) : Prop
  | hundred {m n : Nat} : IsRange entry m n → 100 ∣ w → min m n ≤ w → w ≤ max m n →
      StandsFor entry w
  | single : IsSingle entry w → StandsFor entry w

/-- An entry adds what it stands for, if it is no range behind the last hundred. -/
theorem mem_entryWeights_iff_standsFor (h : ∀ m n, IsRange entry m n → min m n ≤ lastHundred) :
    w ∈ entryWeights entry ↔ StandsFor entry w := by
  rw [mem_entryWeights_iff]
  constructor
  · rintro (⟨m, n, hrange, hw⟩ | hsingle)
    · obtain ⟨hdvd, hlow, hhigh⟩ := (mem_hundreds_of_le (h m n hrange)).1 hw
      exact .hundred hrange hdvd hlow hhigh
    · exact .single hsingle
  · intro hstands
    cases hstands with
    | @hundred m n hrange hdvd hlow hhigh =>
      exact .inl ⟨m, n, hrange, (mem_hundreds_of_le (h m n hrange)).2 ⟨hdvd, hlow, hhigh⟩⟩
    | single hsingle => exact .inr hsingle

/-- An entry that is a range behind the last hundred adds what it does not stand for. -/
theorem mem_entryWeights_of_late (hrange : IsRange entry m n) (hlate : lastHundred < min m n)
    (hrest : w % 100 = 4) (hw : w < lastHundred) :
    w ∈ entryWeights entry ∧ ¬ StandsFor entry w := by
  constructor
  · have ⟨_, _, _, _, _, hm, hn⟩ := hrange
    exact mem_entryWeights_iff.2
      (.inl ⟨m, n, hrange, (mem_hundreds_of_late hlate hm.fits hn.fits).2 ⟨hrest, hw⟩⟩)
  · intro hstands
    cases hstands with
    | hundred _ hdvd _ _ => omega
    | single hsingle => exact hrange.not_isSingle hsingle

/-! ## Weights of a font -/

/-- The entries of font axes: what stands between semicolons behind `wght@`, without the blank
characters around it and without what is blank. -/
def entries (axes : String) : List String :=
  match cutAt "wght@".toList axes.toList with
  | none => []
  | some (_, list) =>
    ((splitChars ';' list).map fun e => String.ofList (trimChars e)).filter (· ≠ "")

/-- An entry of the axes adds the weight. -/
def Adds (axes : String) (w : Nat) : Prop := ∃ entry ∈ entries axes, w ∈ entryWeights entry

theorem weightValues_eq (axes : String) :
    weightValues axes =
      match ascending ((entries axes).flatMap entryWeights) with
      | [] => [400]
      | w :: ws => w :: ws := by
  unfold weightValues entries
  rcases cutAt "wght@".toList axes.toList with _ | ⟨before, list⟩
  · rfl
  · rfl

theorem mem_added_iff :
    w ∈ ascending ((entries axes).flatMap entryWeights) ↔ Adds axes w := by
  rw [mem_ascending_iff, List.mem_flatMap]
  rfl

/-- What the entries add is what there is, once there is something. -/
theorem weightValues_of_adds (h : Adds axes w) :
    weightValues axes = ascending ((entries axes).flatMap entryWeights) := by
  rw [weightValues_eq]
  split
  · rename_i hnil
    have hmem := mem_added_iff.2 h
    rw [hnil] at hmem
    cases hmem
  · rename_i hcons
    exact hcons.symm

theorem weightValues_of_not_adds (h : ∀ w, ¬ Adds axes w) : weightValues axes = [400] := by
  have hnil : ascending ((entries axes).flatMap entryWeights) = [] := by
    rw [List.eq_nil_iff_forall_not_mem]
    exact fun w hw => h w (mem_added_iff.1 hw)
  rw [weightValues_eq, hnil]

theorem toString_mem_weights_iff : toString w ∈ weights axes ↔ w ∈ weightValues axes := by
  unfold weights
  exact List.mem_map_of_injective toString_injective

theorem toString_mem_weights_of_adds (h : Adds axes v) :
    toString w ∈ weights axes ↔ Adds axes w := by
  rw [toString_mem_weights_iff, weightValues_of_adds h, mem_added_iff]

/-! ## Weights that are served -/

/-- Words of 32 bits in ascending order, each written with digits, and at least one of them. -/
def IsAscending (ws : List String) : Prop :=
  ∃ values : List Nat, ws = values.map toString ∧ values ≠ [] ∧ values.Pairwise (· < ·) ∧
    ∀ v ∈ values, IsWord (toString v).toList v

theorem isWord_toString (h : v < Nat.pow 2 32) : IsWord (toString v).toList v where
  ne_nil := by
    rw [Ne, String.toList_eq_nil_iff]
    exact Nat.repr_ne_empty
  digit _ := isAsciiDigit_of_mem_toString
  value := ofDigitChars_toString v
  fits := h

theorem isAscending_weights (axes : String) : IsAscending (weights axes) := by
  refine ⟨weightValues axes, rfl, ?_⟩
  by_cases hadds : ∃ w, Adds axes w
  · obtain ⟨w, hw⟩ := hadds
    rw [weightValues_of_adds hw]
    refine ⟨List.ne_nil_of_mem (mem_added_iff.2 hw), pairwise_ascending _, fun v hv => ?_⟩
    obtain ⟨entry, -, hv⟩ := mem_added_iff.1 hv
    exact isWord_toString (lt_of_mem_entryWeights hv)
  · rw [weightValues_of_not_adds (not_exists.1 hadds)]
    refine ⟨List.cons_ne_nil _ _, List.pairwise_singleton _ _, fun v hv => ?_⟩
    rw [List.mem_singleton.1 hv]
    exact isWord_toString (by decide)

/-- An entry of the axes stands for the weight. -/
def Declares (axes : String) (w : Nat) : Prop := ∃ entry ∈ entries axes, StandsFor entry w

/-- A font is served in the weights that its axes declare. -/
structure IsServed (axes : String) : Prop where
  /-- The first hundred of every range fits in 32 bits, and it is computed in them. -/
  rounded : ∀ entry ∈ entries axes, ∀ m n, IsRange entry m n →
    (min m n + 99) / 100 * 100 < Nat.pow 2 32 ∧
      roundUp (min m n) = (min m n + 99) / 100 * 100
  added : ∀ entry ∈ entries axes, ∀ w, w ∈ entryWeights entry ↔ StandsFor entry w
  declared : (∃ w, Declares axes w) → ∀ w, toString w ∈ weights axes ↔ Declares axes w
  regular : (∀ w, ¬ Declares axes w) → weights axes = ["400"]

/-- No range starts behind the last hundred. -/
def StartsInTime (axes : String) : Prop :=
  ∀ entry ∈ entries axes, ∀ m n, IsRange entry m n → min m n ≤ lastHundred

theorem StartsInTime.adds_iff (h : StartsInTime axes) : Adds axes w ↔ Declares axes w := by
  constructor
  · rintro ⟨entry, hentry, hw⟩
    exact ⟨entry, hentry, (mem_entryWeights_iff_standsFor (h entry hentry)).1 hw⟩
  · rintro ⟨entry, hentry, hw⟩
    exact ⟨entry, hentry, (mem_entryWeights_iff_standsFor (h entry hentry)).2 hw⟩

theorem StartsInTime.isServed (h : StartsInTime axes) : IsServed axes where
  rounded entry hentry m n hrange :=
    ⟨fits_roundUp_iff.2 (h entry hentry m n hrange), roundUp_of_le (h entry hentry m n hrange)⟩
  added entry hentry w := mem_entryWeights_iff_standsFor (h entry hentry)
  declared := by
    rintro ⟨v, hv⟩ w
    rw [toString_mem_weights_of_adds (h.adds_iff.2 hv), h.adds_iff]
  regular hnone := by
    rw [weights, weightValues_of_not_adds fun w hw => hnone w (h.adds_iff.1 hw)]
    rfl

theorem IsServed.startsInTime (h : IsServed axes) : StartsInTime axes :=
  fun entry hentry m n hrange => fits_roundUp_iff.1 (h.rounded entry hentry m n hrange).1

/-- The weights of a font are always numbers in ascending order. They are the ones that its axes
declare, found without leaving 32 bits, just where no range starts behind the last hundred; such
a range puts in 4, 104, 204 and so on, for which it does not stand. -/
theorem weights_are_served_as_declared_iff_ranges_start_in_time (axes : String) :
    IsAscending (weights axes) ∧ (IsServed axes ↔ StartsInTime axes) ∧
      ∀ entry ∈ entries axes, ∀ m n, IsRange entry m n → lastHundred < min m n →
        ∀ w, w % 100 = 4 → w < lastHundred →
          toString w ∈ weights axes ∧ ¬ StandsFor entry w := by
  refine ⟨isAscending_weights axes, ⟨IsServed.startsInTime, StartsInTime.isServed⟩, ?_⟩
  intro entry hentry m n hrange hlate w hrest hw
  obtain ⟨hadded, hnot⟩ := mem_entryWeights_of_late hrange hlate hrest hw
  have hadds : Adds axes w := ⟨entry, hentry, hadded⟩
  exact ⟨(toString_mem_weights_of_adds hadds).2 hadds, hnot⟩

example : weights "X:ital,wght@0,900..650; 1,+050;1,७००..900" =
    ["50", "700", "800", "900"] := by
  decide +kernel

/-- A range between the last two weights of 32 bits that have no hundred behind them. -/
def lateAxes : String := "X:wght@4294967201..4294967295"

theorem isRange_late : IsRange "4294967201..4294967295" 4294967201 4294967295 := by
  have hpart : IsLastPart "4294967201..4294967295".toList "4294967201..4294967295".toList :=
    ⟨by decide, [], rfl, by simp⟩
  have hrange : range? "4294967201..4294967295".toList =
      some ("4294967201".toList, "4294967295".toList) := by
    decide +kernel
  have hfirst : word? "4294967201".toList = some 4294967201 := by decide +kernel
  have hlast : word? "4294967295".toList = some 4294967295 := by decide +kernel
  exact ⟨_, _, _, hpart, range?_eq_some_iff.1 hrange, word?_eq_some_iff.1 hfirst,
    word?_eq_some_iff.1 hlast⟩

/-- Without a hundred between its ends the range declares nothing, and the regular weight would
be left; but 4 is among the weights, because the first hundred was rounded up beyond 32 bits. -/
theorem a_late_range_is_not_served_as_declared :
    entries lateAxes = ["4294967201..4294967295"] ∧ (∀ w, ¬ Declares lateAxes w) ∧
      "4" ∈ weights lateAxes ∧ weights lateAxes ≠ ["400"] ∧ ¬ IsServed lateAxes := by
  have hentries : entries lateAxes = ["4294967201..4294967295"] := by decide +kernel
  have hlate : lastHundred < min 4294967201 4294967295 := by decide
  have hadds : Adds lateAxes 4 := by
    refine ⟨_, by rw [hentries]; exact List.mem_singleton_self _, ?_⟩
    exact (mem_entryWeights_of_late isRange_late hlate rfl (by decide)).1
  have hfour : "4" ∈ weights lateAxes := (toString_mem_weights_of_adds hadds).2 hadds
  refine ⟨hentries, ?_, hfour, ?_, ?_⟩
  · rintro w ⟨entry, hentry, hstands⟩
    rw [hentries, List.mem_singleton] at hentry
    subst hentry
    cases hstands with
    | hundred hrange hdvd hlow hhigh =>
      obtain ⟨rfl, rfl⟩ := isRange_late.unique hrange
      omega
    | single hsingle => exact isRange_late.not_isSingle hsingle
  · intro hregular
    rw [hregular] at hfour
    revert hfour
    decide
  · intro hserved
    have hstart := hserved.startsInTime _ (by rw [hentries]; exact List.mem_singleton_self _) _ _
      isRange_late
    exact absurd hlate (Nat.not_lt.2 hstart)

end WidgetSchema.Font
