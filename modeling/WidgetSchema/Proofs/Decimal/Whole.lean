-- Whole floating-point numbers and the whole numbers they are. Below 2^53 both are written with
-- the same 53 binary digits, so no bound tells them apart: they are read off the bits on one
-- side, and followed through the rounding and packing of a conversion on the other.
import Mathlib
import WidgetSchema.Node.Basic
namespace WidgetSchema.Decimal

open Float.Model Float.Model.UnpackedFloat

/-! ## Binary digits -/

theorem log2_eq {m : Nat} (h : 2 ^ 52 ≤ m) (h' : m < 2 ^ 53) : m.log2 = 52 := by
  have hne : m ≠ 0 := by omega
  have hle : 52 ≤ m.log2 := (Nat.le_log2 hne).2 h
  have hlt : m.log2 < 53 := (Nat.log2_lt hne).2 h'
  omega

theorem log2_mul_two_pow {m : Nat} (h : m ≠ 0) (k : Nat) : (m * 2 ^ k).log2 = m.log2 + k := by
  induction k with
  | zero => simp
  | succ k ih =>
    have hne : m * 2 ^ k ≠ 0 := Nat.mul_ne_zero h (Nat.two_pow_pos k).ne'
    have htwo : m * 2 ^ (k + 1) = 2 * (m * 2 ^ k) := by ring
    rw [htwo, Nat.log2_two_mul hne, ih, Nat.add_assoc]

/-! ## Rounding -/

/-- Zeros at the end go without a trace. -/
theorem shiftRight_exact (m k : Nat) :
    (⟨m * 2 ^ k, false, false⟩ : ExtendedMantissa) >>> k = ⟨m, false, false⟩ := by
  show Nat.repeat ExtendedMantissa.shiftRightOne k ⟨m * 2 ^ k, false, false⟩ = _
  induction k generalizing m with
  | zero => simp [Nat.repeat]
  | succ k ih =>
    have htwo : m * 2 ^ (k + 1) = m * 2 * 2 ^ k := by ring
    rw [Nat.repeat, htwo, ih (m * 2)]
    simp [ExtendedMantissa.shiftRightOne]

theorem shiftToTargetExponent_exact {m k : Nat} {e : Int} (h : 2 ^ 52 ≤ m)
    (h' : m < 2 ^ 53) (he : -1074 ≤ e + k) :
    shiftToTargetExponent .binary64 (m * 2 ^ k) e .exact = (⟨m, false, false⟩, e + k) := by
  have hlog : (m * 2 ^ k).log2 = 52 + k := by
    rw [log2_mul_two_pow (by omega), log2_eq h h']
  have htarget : Format.binary64.targetExponent (totalExponent (m * 2 ^ k) e) = e + k := by
    simp only [Format.targetExponent, totalExponent, Format.mantissaBits, Format.minExponent, hlog]
    norm_num
    omega
  have hshift : (e + k - e).toNat = k := by omega
  rw [shiftToTargetExponent, htarget, shiftToExponent, hshift]
  exact Prod.ext (shiftRight_exact m k) rfl

/-- A number of 53 digits with zeros behind them is not rounded. -/
theorem roundWithAccuracy_exact {m k : Nat} {e : Int} (s : Sign) (h : 2 ^ 52 ≤ m)
    (h' : m < 2 ^ 53) (he : -1074 ≤ e + k) (hm : 0 < m) :
    roundWithAccuracy .binary64 s (m * 2 ^ k) e .exact = .finite s m (e + k) hm := by
  have hrounded : (⟨m, false, false⟩ : ExtendedMantissa).roundedMantissa = m := rfl
  have hagain : shiftToTargetExponent .binary64 m (e + k) .exact = (⟨m, false, false⟩, e + k) := by
    have hzero := shiftToTargetExponent_exact (k := 0) h h' (e := e + k) (by simpa using he)
    simpa using hzero
  have hne : m ≠ 0 := by omega
  unfold roundWithAccuracy
  simp only [shiftToTargetExponent_exact h h' he, hrounded, hagain, dif_neg hne]

/-! ## Packing -/

theorem unpackSign_packComponents (s : Sign) (e : BitVec 11) (m : BitVec 52) :
    Sign.ofBitVec (unpackSign (packComponents .binary64 s e m)) = s := by
  simp only [unpackSign, packComponents, BitVec.extractLsb]
  rw [BitVec.extractLsb'_append_eq_of_le (by omega), BitVec.extractLsb'_append_eq_of_le (by omega)]
  cases s <;> rfl

theorem toNat_one_append (v : BitVec 52) : (1#1 ++ v).toNat = 2 ^ 52 + v.toNat := by
  rw [BitVec.toNat_append, ← Nat.shiftLeft_add_eq_or_of_lt v.isLt]
  simp [Nat.shiftLeft_eq]

/-- A number of 53 digits comes out of its bits as it went in. -/
theorem unpack_pack {s : Sign} {m : Nat} {e : Int} (h : 2 ^ 52 ≤ m) (h' : m < 2 ^ 53)
    (he : -1074 ≤ e) (he' : e ≤ 971) (hm : 0 < m) :
    (Float.Model.pack (.finite s m e hm)).unpack = .finite s m e hm := by
  have hbias : (e + Format.binary64.exponentBias + Format.binary64.mantissaBitsWithoutImplicit).toNat
      = (e + 1075).toNat := by
    show (e + (1023 : Nat) + (52 : Nat)).toNat = _
    congr 1
    omega
  have hpack : UnpackedFloat.pack .binary64 (.finite s m e hm) =
      packComponents .binary64 s (BitVec.ofNat 11 (e + 1075).toNat) (BitVec.ofNat 52 m) := by
    rw [UnpackedFloat.pack]
    simp only [log2_eq h h', hbias]
    have hsmall : ¬ 2 ^ 11 ≤ (e + 1075).toNat + 1 := by omega
    have hfull : 52 + 1 = Format.binary64.mantissaBits := rfl
    rw [if_neg hsmall, if_pos hfull]
  have hfield : (BitVec.ofNat 11 (e + 1075).toNat).toNat = (e + 1075).toNat := by
    rw [BitVec.toNat_ofNat]
    omega
  have hnotinf : BitVec.ofNat 11 (e + 1075).toNat ≠ -1#11 := by
    intro heq
    have hnat := congrArg BitVec.toNat heq
    rw [hfield] at hnat
    simp at hnat
    omega
  have hnotsub : BitVec.ofNat 11 (e + 1075).toNat ≠ 0#11 := by
    intro heq
    have hnat := congrArg BitVec.toNat heq
    rw [hfield] at hnat
    simp at hnat
    omega
  show UnpackedFloat.unpack .binary64 (UnpackedFloat.pack .binary64 (.finite s m e hm)) = _
  rw [hpack, UnpackedFloat.unpack]
  simp only [unpackMantissa_packComponents, unpackExponent_packComponents]
  rw [if_neg hnotinf, if_neg hnotsub]
  simp only [unpackSign_packComponents, toNat_one_append, hfield]
  have hmant : 2 ^ 52 + (BitVec.ofNat 52 m).toNat = m := by
    rw [BitVec.toNat_ofNat]
    omega
  have hexp : ((e + 1075).toNat : Int) - ((Format.binary64.exponentBias : Nat) + (52 : Nat)) = e := by
    show ((e + 1075).toNat : Int) - ((1023 : Nat) + (52 : Nat)) = e
    omega
  simp only [hmant, hexp]


/-! ## Converted whole numbers -/

/-- The 53 binary digits of a positive number of at most 53 digits. -/
def digits (n : Nat) : Nat := n * 2 ^ (52 - n.log2)

/-- The exponent that goes with the 53 digits. -/
def digitsExponent (n : Nat) : Int := (n.log2 : Int) - 52

theorem log2_le {n : Nat} (h : n < 2 ^ 53) : n.log2 ≤ 52 := by
  rcases Nat.eq_zero_or_pos n with rfl | hpos
  · simp
  · exact Nat.lt_succ_iff.1 ((Nat.log2_lt hpos.ne').2 h)

theorem log2_digits {n : Nat} (hpos : 0 < n) (h : n < 2 ^ 53) : (digits n).log2 = 52 := by
  have hle := log2_le h
  rw [digits, log2_mul_two_pow hpos.ne']
  omega

theorem digits_pos {n : Nat} (hpos : 0 < n) : 0 < digits n :=
  Nat.mul_pos hpos (Nat.two_pow_pos _)

theorem le_digits {n : Nat} (hpos : 0 < n) (h : n < 2 ^ 53) : 2 ^ 52 ≤ digits n :=
  (Nat.le_log2 (digits_pos hpos).ne').1 (log2_digits hpos h).ge

theorem digits_lt {n : Nat} (hpos : 0 < n) (h : n < 2 ^ 53) : digits n < 2 ^ 53 :=
  (Nat.log2_lt (digits_pos hpos).ne').1 (by rw [log2_digits hpos h]; decide)

theorem round_nat {n : Nat} (hpos : 0 < n) (h : n < 2 ^ 53) :
    round .binary64 .positive n 0 =
      .finite .positive (digits n) (digitsExponent n) (digits_pos hpos) := by
  have hle := log2_le h
  have htarget : Format.binary64.targetExponent (totalExponent n 0) = digitsExponent n := by
    simp only [Format.targetExponent, totalExponent, Format.mantissaBits, Format.minExponent,
      digitsExponent]
    norm_num
    omega
  have hshift : (0 - digitsExponent n).toNat = 52 - n.log2 := by
    unfold digitsExponent
    omega
  have hexp : (0 : Int) - ((52 - n.log2 : Nat) : Int) = digitsExponent n := by
    unfold digitsExponent
    omega
  have hround := roundWithAccuracy_exact (k := 0) (e := digitsExponent n) .positive
    (le_digits hpos h) (digits_lt hpos h) (by unfold digitsExponent; omega) (digits_pos hpos)
  rw [UnpackedFloat.round, htarget, decreaseExponent, hshift, hexp, Nat.shiftLeft_eq]
  simpa [digits] using hround

theorem unpack_ofNat {n : Nat} (hpos : 0 < n) (h : n < 2 ^ 53) :
    (Float.ofNat n).toModel.unpack =
      .finite .positive (digits n) (digitsExponent n) (digits_pos hpos) := by
  have hle := log2_le h
  have hexp : -52 ≤ digitsExponent n ∧ digitsExponent n ≤ 0 := by
    unfold digitsExponent
    omega
  have hsize : n.toUInt64.toNat = n := Nat.mod_eq_of_lt (by omega)
  have hcompare : compare (n : Int) 0 = .gt := by
    rw [Int.compare_eq_gt]
    omega
  have hword : n.toUInt64.toFloat.toModel.unpack =
      .finite .positive (digits n) (digitsExponent n) (digits_pos hpos) := by
    have hnormal : normalize .binary64 (n : Int) 0 .positive =
        .finite .positive (digits n) (digitsExponent n) (digits_pos hpos) := by
      rw [UnpackedFloat.normalize, hcompare]
      exact round_nat hpos h
    show (Float.Model.pack (normalize .binary64 n.toUInt64.toNat 0 .positive)).unpack = _
    rw [hsize, hnormal]
    exact unpack_pack (le_digits hpos h) (digits_lt hpos h) (by omega) (by omega) _
  have hone : (Float.ofBits 0x3FF0000000000000).toModel.unpack =
      .finite .positive (2 ^ 52) (-52) (by decide) := rfl
  have hproduct : UnpackedFloat.mul .binary64
      (.finite .positive (digits n) (digitsExponent n) (digits_pos hpos))
      (.finite .positive (2 ^ 52) (-52) (by decide)) =
        .finite .positive (digits n) (digitsExponent n) (digits_pos hpos) := by
    have hround := roundWithAccuracy_exact (k := 52) (e := digitsExponent n + -52) .positive
      (le_digits hpos h) (digits_lt hpos h) (by omega) (digits_pos hpos)
    have hsum : digitsExponent n + -52 + (52 : Nat) = digitsExponent n := by omega
    rw [UnpackedFloat.mul]
    exact hround.trans (by simp only [hsum])
  have hfast : Float.ofNat n = n.toUInt64.toFloat * Float.ofBits 0x3FF0000000000000 := by
    have hc : n < 2 ^ 53 ∧ 0 ≤ 22 := ⟨h, by decide⟩
    show Float.ofScientific n false 0 = _
    unfold Float.ofScientific
    rw [dif_pos hc]
    rfl
  rw [hfast]
  show (Float.Model.pack (UnpackedFloat.mul .binary64 n.toUInt64.toFloat.toModel.unpack
    (Float.ofBits 0x3FF0000000000000).toModel.unpack)).unpack = _
  rw [hword, hone, hproduct]
  exact unpack_pack (le_digits hpos h) (digits_lt hpos h) (by omega) (by omega) _


/-- The sign of a number that is or is not negative. -/
def signOf (negative : Bool) : Sign := if negative then .negative else .positive

theorem unpack_ofInt {i : Int} (hne : i ≠ 0) (h : i.natAbs < 2 ^ 53) :
    (Float.ofInt i).toModel.unpack = .finite (signOf (i < 0)) (digits i.natAbs)
      (digitsExponent i.natAbs) (digits_pos (Int.natAbs_pos.2 hne)) := by
  cases i with
  | ofNat n =>
    have hpos : 0 < n := Int.natAbs_pos.2 hne
    have hsign : decide (Int.ofNat n < 0) = false := by simp
    rw [hsign]
    exact unpack_ofNat hpos h
  | negSucc n =>
    have hpos : 0 < n + 1 := Nat.succ_pos n
    have hsize : n + 1 < 2 ^ 53 := h
    have hle := log2_le hsize
    have hsign : decide (Int.negSucc n < 0) = true := by simp
    rw [hsign]
    show (Float.Model.pack (Float.ofNat (n + 1)).toModel.unpack.neg).unpack = _
    rw [unpack_ofNat hpos hsize]
    refine unpack_pack (le_digits hpos hsize) (digits_lt hpos hsize) ?_ ?_ _
    · unfold digitsExponent
      omega
    · unfold digitsExponent
      omega

/-! ## The magnitude of a finite number -/

theorem toNat_unpackExponent (x : Float) :
    (@unpackExponent .binary64 x.toBits.toBitVec).toNat =
      x.toBits.toNat / 2 ^ 52 % 2 ^ 11 := by
  simp [unpackExponent, Nat.shiftRight_eq_div_pow]

theorem toNat_unpackMantissa (x : Float) :
    (@unpackMantissa .binary64 x.toBits.toBitVec).toNat = x.toBits.toNat % 2 ^ 52 := by
  simp [unpackMantissa]

theorem ofBitVec_unpackSign (x : Float) :
    Sign.ofBitVec (@unpackSign .binary64 x.toBits.toBitVec) = signOf (isNegative x) := by
  have hlt : x.toBits.toNat < 2 ^ 64 := x.toBits.toNat_lt
  have hbit : (@unpackSign .binary64 x.toBits.toBitVec).toNat =
      x.toBits.toNat / 2 ^ 63 := by
    simp [unpackSign, Nat.shiftRight_eq_div_pow]
    omega
  have hzero : @unpackSign .binary64 x.toBits.toBitVec = 0#1 ↔
      x.toBits.toNat / 2 ^ 63 = 0 := by
    rw [← hbit, ← BitVec.toNat_inj]
    rfl
  have hnegative : isNegative x = true ↔ x.toBits.toNat / 2 ^ 63 = 1 := beq_iff_eq
  unfold Sign.ofBitVec signOf
  by_cases h : x.toBits.toNat / 2 ^ 63 = 0
  · have hno : ¬ isNegative x = true := by
      rw [hnegative]
      omega
    rw [if_pos (hzero.2 h), if_neg hno]
  · have hyes : isNegative x = true := hnegative.2 (by omega)
    rw [if_neg fun hs => h (hzero.1 hs), if_pos hyes]

theorem magnitude_of_field_eq_zero {x : Float} (h : x.toBits.toNat / 2 ^ 52 % 2 ^ 11 = 0) :
    magnitude x = (x.toBits.toNat % 2 ^ 52, -1074) := if_pos h

theorem magnitude_of_field_ne_zero {x : Float} (h : x.toBits.toNat / 2 ^ 52 % 2 ^ 11 ≠ 0) :
    magnitude x = (x.toBits.toNat % 2 ^ 52 + 2 ^ 52,
      ((x.toBits.toNat / 2 ^ 52 % 2 ^ 11 : Nat) : Int) - 1075) := if_neg h

/-- A finite number is zero or its magnitude with its sign. -/
theorem unpack_of_isFinite {x : Float} (hx : x.isFinite = true) :
    x.toModel.unpack =
      if h : (magnitude x).1 = 0 then .zero (signOf (isNegative x))
      else .finite (signOf (isNegative x)) (magnitude x).1 (magnitude x).2
        (Nat.pos_of_ne_zero h) := by
  have hfinite : x.toModel.unpack.isFinite = true := hx
  have hunpack : x.toModel.unpack = UnpackedFloat.unpack .binary64 x.toBits.toBitVec := rfl
  rw [hunpack] at hfinite ⊢
  unfold UnpackedFloat.unpack at hfinite ⊢
  simp only [ofBitVec_unpackSign, toNat_one_append, toNat_unpackExponent,
    toNat_unpackMantissa] at hfinite ⊢
  have hbias : (Format.binary64.exponentBias : Int) = 1023 := rfl
  by_cases hinf : @unpackExponent .binary64 x.toBits.toBitVec = -1#11
  · rw [if_pos hinf] at hfinite
    split at hfinite <;> cases hfinite
  · rw [if_neg hinf]
    have hfield := toNat_unpackExponent x
    have hfraction := toNat_unpackMantissa x
    by_cases hsub : @unpackExponent .binary64 x.toBits.toBitVec = 0#11
    · rw [hsub] at hfield
      have hmagnitude := magnitude_of_field_eq_zero hfield.symm
      rw [if_pos hsub]
      by_cases hzero : @unpackMantissa .binary64 x.toBits.toBitVec = 0#52
      · rw [hzero] at hfraction
        have hnone : (magnitude x).1 = 0 := by
          rw [hmagnitude]
          exact hfraction.symm
        rw [dif_pos hzero, dif_pos hnone]
      · have hsome : (magnitude x).1 ≠ 0 := by
          rw [hmagnitude, ← hfraction]
          intro hnat
          exact hzero (BitVec.toNat_inj.1 hnat)
        rw [dif_neg hzero, dif_neg hsome]
        simp only [hmagnitude, hbias, ← hfield]
        rfl
    · have hne : x.toBits.toNat / 2 ^ 52 % 2 ^ 11 ≠ 0 := by
        rw [← hfield]
        intro hnat
        exact hsub (BitVec.toNat_inj.1 hnat)
      have hmagnitude := magnitude_of_field_ne_zero hne
      have hsome : (magnitude x).1 ≠ 0 := by
        rw [hmagnitude]
        exact (Nat.add_pos_right _ (by decide)).ne'
      rw [if_neg hsub, dif_neg hsome]
      simp only [hmagnitude, hbias, Nat.add_comm (2 ^ 52)]
      congr 1


theorem magnitude_bounds (x : Float) :
    ((magnitude x).1 < 2 ^ 52 ∧ (magnitude x).2 = -1074) ∨
      (2 ^ 52 ≤ (magnitude x).1 ∧ (magnitude x).1 < 2 ^ 53) := by
  have hlt : x.toBits.toNat % 2 ^ 52 < 2 ^ 52 := Nat.mod_lt _ (by decide)
  by_cases h : x.toBits.toNat / 2 ^ 52 % 2 ^ 11 = 0
  · rw [magnitude_of_field_eq_zero h]
    exact Or.inl ⟨hlt, rfl⟩
  · rw [magnitude_of_field_ne_zero h]
    refine Or.inr ⟨Nat.le_add_left _ _, ?_⟩
    omega

/-! ## Whole numbers that are stored as floating-point numbers -/

theorem wholeValue?_eq_some_iff {x : Float} {i : Int} :
    wholeValue? x = some i ↔ x.isFinite = true ∧
      ∃ n : Nat, i = (if isNegative x then -(n : Int) else n) ∧
        (0 ≤ (magnitude x).2 ∧ n = (magnitude x).1 * 2 ^ (magnitude x).2.toNat ∨
          (magnitude x).2 < 0 ∧ (magnitude x).1 = n * 2 ^ (magnitude x).2.natAbs) := by
  unfold wholeValue?
  by_cases hfinite : x.isFinite = true
  · rw [if_pos hfinite]
    simp only [hfinite, true_and]
    by_cases hq : 0 ≤ (magnitude x).2
    · rw [if_pos hq]
      simp only [Option.some.injEq, Nat.pow_eq]
      constructor
      · intro h
        exact ⟨_, h.symm, Or.inl ⟨hq, rfl⟩⟩
      · rintro ⟨n, hi, ⟨_, hn⟩ | ⟨hneg, _⟩⟩
        · rw [hi, hn]
        · omega
    · rw [if_neg hq]
      have hpos : 0 < 2 ^ (magnitude x).2.natAbs := Nat.two_pow_pos _
      by_cases hdvd : (magnitude x).1 % 2 ^ (magnitude x).2.natAbs = 0
      · simp only [Nat.pow_eq, hdvd, if_true, Option.some.injEq]
        constructor
        · intro h
          refine ⟨_, h.symm, Or.inr ⟨by omega, ?_⟩⟩
          exact (Nat.div_mul_cancel (Nat.dvd_of_mod_eq_zero hdvd)).symm
        · rintro ⟨n, hi, ⟨hq', _⟩ | ⟨_, hn⟩⟩
          · omega
          · rw [hi, hn, Nat.mul_div_cancel _ hpos]
      · simp only [Nat.pow_eq, hdvd, if_false, reduceCtorEq, false_iff]
        rintro ⟨n, _, ⟨hq', _⟩ | ⟨_, hn⟩⟩
        · omega
        · exact hdvd (hn ▸ Nat.mul_mod_left _ _)
  · simp [hfinite]

theorem eq_zero_of_magnitude_eq_zero {n m : Nat} {q : Int}
    (h : 0 ≤ q ∧ n = m * 2 ^ q.toNat ∨ q < 0 ∧ m = n * 2 ^ q.natAbs) : n = 0 ↔ m = 0 := by
  rcases h with ⟨_, h⟩ | ⟨_, h⟩ <;> simp [h]

/-- There is one way to write a positive number of at most 53 binary digits with 53 digits. -/
theorem eq_digits {n m : Nat} {q : Int} (hpos : 0 < n) (hlt : n < 2 ^ 53)
    (h : 0 ≤ q ∧ n = m * 2 ^ q.toNat ∨ q < 0 ∧ m = n * 2 ^ q.natAbs)
    (hm : (m < 2 ^ 52 ∧ q = -1074) ∨ (2 ^ 52 ≤ m ∧ m < 2 ^ 53)) :
    m = digits n ∧ q = digitsExponent n := by
  unfold digits digitsExponent
  rcases h with ⟨hq, hn⟩ | ⟨hq, hn⟩
  · rcases hm with ⟨_, hsub⟩ | ⟨hle, hlt'⟩
    · omega
    · have hzero : q.toNat = 0 := by
        by_contra hne
        have htwo : 2 ^ 1 ≤ 2 ^ q.toNat := Nat.pow_le_pow_right (by decide) (by omega)
        have hmul : 2 ^ 52 * 2 ^ 1 ≤ m * 2 ^ q.toNat := Nat.mul_le_mul hle htwo
        omega
      have heq : n = m := by rw [hn, hzero, Nat.pow_zero, Nat.mul_one]
      have hlog : n.log2 = 52 := by rw [heq, log2_eq hle hlt']
      rw [hlog]
      refine ⟨by rw [heq, Nat.sub_self, Nat.pow_zero, Nat.mul_one], by omega⟩
  · rcases hm with ⟨hsmall, hsub⟩ | ⟨hle, hlt'⟩
    · have hbig : 1 * 2 ^ 52 ≤ n * 2 ^ q.natAbs :=
        Nat.mul_le_mul hpos (Nat.pow_le_pow_right (by decide) (by omega))
      omega
    · have hlog : n.log2 + q.natAbs = 52 := by
        rw [← log2_mul_two_pow hpos.ne', ← hn, log2_eq hle hlt']
      have hk : q.natAbs = 52 - n.log2 := by omega
      exact ⟨by rw [hn, hk], by omega⟩

/-- The magnitude of a whole number with at most 53 binary digits. -/
theorem magnitude_of_wholeValue? {x : Float} {i : Int} (h : wholeValue? x = some i)
    (hne : i ≠ 0) (hlt : i.natAbs < 2 ^ 53) :
    magnitude x = (digits i.natAbs, digitsExponent i.natAbs) ∧ isNegative x = decide (i < 0) := by
  obtain ⟨_, n, hi, hn⟩ := wholeValue?_eq_some_iff.1 h
  have habs : i.natAbs = n := by
    rw [hi]
    split <;> omega
  have hpos : 0 < n := by omega
  constructor
  · obtain ⟨hdigits, hexponent⟩ := eq_digits hpos (by omega) hn (magnitude_bounds x)
    rw [habs]
    exact Prod.ext hdigits hexponent
  · by_cases hx : isNegative x = true
    · rw [if_pos hx] at hi
      rw [hx, eq_comm, decide_eq_true_iff]
      omega
    · rw [if_neg hx] at hi
      rw [Bool.eq_false_iff.2 hx, eq_comm, decide_eq_false_iff_not]
      omega

theorem signOf_injective {b b' : Bool} (h : signOf b = signOf b') : b = b' := by
  cases b <;> cases b' <;> trivial

/-- A whole number with at most 53 binary digits is read off its conversion. -/
theorem wholeValue?_ofInt {i : Int} (h : i.natAbs < 2 ^ 53) :
    wholeValue? (Float.ofInt i) = some i := by
  by_cases hne : i = 0
  · -- Zero has no leading digit.
    subst hne
    decide +kernel
  · have hunpack := unpack_ofInt hne h
    have hfinite : (Float.ofInt i).isFinite = true := congrArg UnpackedFloat.isFinite hunpack
    rw [unpack_of_isFinite hfinite] at hunpack
    split at hunpack
    · cases hunpack
    · obtain ⟨hsign, hdigits, hexponent⟩ := UnpackedFloat.finite.inj hunpack
      have hle := log2_le h
      rw [wholeValue?_eq_some_iff, signOf_injective hsign, hdigits, hexponent]
      refine ⟨hfinite, i.natAbs, ?_, ?_⟩
      · by_cases hneg : i < 0
        · rw [if_pos (decide_eq_true hneg)]
          omega
        · rw [if_neg (by simp [hneg])]
          omega
      · unfold digits digitsExponent
        by_cases hlog : i.natAbs.log2 = 52
        · left
          simp [hlog]
        · right
          refine ⟨by omega, ?_⟩
          congr 2
          omega

theorem compare_zero (s s' : Sign) (u : UnpackedFloat) :
    UnpackedFloat.compare (.zero s) u = UnpackedFloat.compare (.zero s') u ∧
      u.compare (.zero s) = u.compare (.zero s') := by
  cases u with
  | infinity t => cases t <;> exact ⟨rfl, rfl⟩
  | finite t _ _ _ => cases t <;> exact ⟨rfl, rfl⟩
  | _ => exact ⟨rfl, rfl⟩

theorem lt_iff_compare (x y : Float) :
    x < y ↔ x.toModel.unpack.compare y.toModel.unpack = some .lt := by
  show decide (x.toModel < y.toModel) = true ↔ _
  rw [decide_eq_true_iff]
  exact beq_iff_eq

/-- Two numbers that no bound tells apart. -/
structure SameSize (x y : Float) : Prop where
  finite : x.isFinite = y.isFinite
  below : ∀ z, x < z ↔ y < z
  above : ∀ z, z < x ↔ z < y

theorem sameSize_of_unpack_eq {x y : Float} (h : x.toModel.unpack = y.toModel.unpack) :
    SameSize x y where
  finite := congrArg UnpackedFloat.isFinite h
  below z := by rw [lt_iff_compare, lt_iff_compare, h]
  above z := by rw [lt_iff_compare, lt_iff_compare, h]

theorem sameSize_of_unpack_eq_zero {x y : Float} {s s' : Sign} (hx : x.toModel.unpack = .zero s)
    (hy : y.toModel.unpack = .zero s') : SameSize x y where
  finite := (congrArg UnpackedFloat.isFinite hx).trans (congrArg UnpackedFloat.isFinite hy).symm
  below z := by rw [lt_iff_compare, lt_iff_compare, hx, hy, (compare_zero s s' _).1]
  above z := by rw [lt_iff_compare, lt_iff_compare, hx, hy, (compare_zero s s' _).2]

/-- A whole number with at most 53 binary digits is as large as the floating-point number that
it is read from. -/
theorem sameSize_ofInt {x : Float} {i : Int} (h : wholeValue? x = some i)
    (hlt : i.natAbs < 2 ^ 53) : SameSize (Float.ofInt i) x := by
  obtain ⟨hfinite, n, hi, hn⟩ := wholeValue?_eq_some_iff.1 h
  by_cases hne : i = 0
  · subst hne
    have hzero : (magnitude x).1 = 0 := by
      refine (eq_zero_of_magnitude_eq_zero hn).1 ?_
      split at hi <;> omega
    have hx := unpack_of_isFinite hfinite
    rw [dif_pos hzero] at hx
    exact sameSize_of_unpack_eq_zero (s := .positive) rfl hx
  · obtain ⟨hmagnitude, hsign⟩ := magnitude_of_wholeValue? h hne hlt
    have hnonzero : (magnitude x).1 ≠ 0 := by
      rw [hmagnitude]
      exact (digits_pos (Int.natAbs_pos.2 hne)).ne'
    refine sameSize_of_unpack_eq ?_
    rw [unpack_ofInt hne hlt, unpack_of_isFinite hfinite, dif_neg hnonzero]
    simp only [hmagnitude, hsign]

end WidgetSchema.Decimal
