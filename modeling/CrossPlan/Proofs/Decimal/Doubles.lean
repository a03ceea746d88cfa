import CrossPlan.Quantity
import Mathlib.Tactic.FieldSimp
import Mathlib.Tactic.Linarith
import Mathlib.Tactic.LinearCombination
import Mathlib.Tactic.Positivity
import Mathlib.Tactic.Ring

/-!
# Rounding to doubles

A double of 53 binary digits stands for a positive rational.  Products and counts are rounded to
such doubles wherever the exact numbers are neither too large nor too small, and what comes out is
near to the exact number in relation to it.
-/

set_option autoImplicit false

namespace CrossPlan.Decimal

open Float.Model (Format totalExponent UnpackedFloat)
open Float.Model.UnpackedFloat

/-! ## Words and their parts -/

theorem Reading.ofBits_eq {biased fraction : Nat} (least : 0 < biased) (most : biased < 2047)
    (within : fraction < fractions) :
    ofBits (biased * fractions + fraction) =
      .finite false (fractions + fraction) ((biased : Int) - 1075) := by
  have exponent : (biased * fractions + fraction) / fractions % 2048 = biased := by
    unfold fractions at *
    omega
  have rest : (biased * fractions + fraction) % fractions = fraction := by
    unfold fractions at *
    omega
  have sign : ¬ Count.half ≤ biased * fractions + fraction := by
    unfold fractions Count.half at *
    omega
  simp only [ofBits, exponent, rest, decide_eq_false sign]
  rw [if_neg most.ne, if_neg least.ne']

theorem Reading.of_ofBits {bits m : Nat} {e : Int} (read : ofBits bits = .finite false m e)
    (full : fractions ≤ m) : ∃ biased fraction, 0 < biased ∧ biased < 2047 ∧
      fraction < fractions ∧ bits = biased * fractions + fraction ∧ m = fractions + fraction ∧
      e = (biased : Int) - 1075 := by
  have within : bits % fractions < fractions := Nat.mod_lt _ (by decide)
  simp only [ofBits] at read
  split_ifs at read with top _ bottom
  · rw [Reading.finite.injEq] at read
    exact absurd (read.2.1 ▸ full) within.not_ge
  · rw [Reading.finite.injEq, decide_eq_false_iff_not, not_le] at read
    obtain ⟨sign, rfl, rfl⟩ := read
    have biased : bits / fractions % 2048 = bits / fractions := by
      unfold fractions Count.half at *
      omega
    rw [biased] at top bottom ⊢
    refine ⟨bits / fractions, bits % fractions, Nat.pos_of_ne_zero bottom, ?_, within,
      (Nat.div_add_mod' bits fractions).symm, rfl, rfl⟩
    unfold fractions Count.half at *
    omega

theorem toBits_pack {m : Nat} {e : Int} (full : fractions ≤ m) (short : m < 2 * fractions)
    (low : -1074 ≤ e) (high : e ≤ 971) (positive : 0 < m) :
    (Float.Model.pack (.finite .positive m e positive)).toBits.toNat =
      (e + 1075).toNat * fractions + (m - fractions) := by
  have digits : m.log2 = 52 := (Nat.log2_eq_iff positive.ne').mpr ⟨full, short⟩
  have biased : (e + Format.binary64.exponentBias + (52 : Nat)).toNat = (e + 1075).toNat := by
    change (e + 1023 + 52).toNat = _
    omega
  have packed : pack Format.binary64 (.finite .positive m e positive) =
      packComponents Format.binary64 .positive (BitVec.ofNat 11 (e + 1075).toNat)
        (BitVec.ofNat 52 m) := by
    rw [← biased]
    refine (if_neg ?_).trans (if_pos (congrArg (· + 1) digits))
    change ¬ 2048 ≤ (e + Format.binary64.exponentBias + (52 : Nat)).toNat + 1
    omega
  change (pack Format.binary64 (.finite .positive m e positive)).toNat = _
  rw [packed]
  change (0#1 ++ BitVec.ofNat 11 (e + 1075).toNat ++ BitVec.ofNat 52 m).toNat = _
  simp only [BitVec.toNat_append, BitVec.toNat_ofNat, Nat.shiftLeft_eq, Nat.zero_mul, Nat.zero_or,
    Nat.zero_mod]
  rw [Nat.mul_comm, ← Nat.two_pow_add_eq_or_of_lt (Nat.mod_lt _ (by decide))]
  unfold fractions at *
  omega

theorem ofDouble_pack {m : Nat} {e : Int} (full : fractions ≤ m) (short : m < 2 * fractions)
    (low : -1074 ≤ e) (high : e ≤ 971) (positive : 0 < m) :
    Reading.ofDouble (.ofModel (.pack (.finite .positive m e positive))) = .finite false m e := by
  have fraction : m - fractions < fractions := by omega
  change Reading.ofBits (Float.Model.pack (.finite .positive m e positive)).toBits.toNat = _
  rw [toBits_pack full short low high positive,
    Reading.ofBits_eq (by omega) (by omega) fraction, Reading.finite.injEq]
  exact ⟨rfl, by omega, by omega⟩

theorem unpack_of_ofDouble {x : Float} {m : Nat} {e : Int}
    (read : Reading.ofDouble x = .finite false m e) (full : fractions ≤ m) :
    ∃ positive, x.toModel.unpack = .finite .positive m e positive := by
  have word : x.toBits.toNat = x.toModel.toBits.toBitVec.toNat := rfl
  rw [Reading.ofDouble, word] at read
  unfold Float.Model.unpack unpack
  generalize x.toModel.toBits.toBitVec = bits at read
  obtain ⟨biased, fraction, least, most, within, whole, rfl, rfl⟩ := Reading.of_ofBits read full
  have exponent : (@unpackExponent Format.binary64 bits).toNat = biased := by
    change (bits.toNat >>> 52) % 2 ^ 11 = _
    rw [Nat.shiftRight_eq_div_pow, whole]
    unfold fractions at *
    omega
  have mantissa : (@unpackMantissa Format.binary64 bits).toNat = fraction := by
    change bits.toNat % 2 ^ 52 = _
    unfold fractions at *
    omega
  have sign : @unpackSign Format.binary64 bits = 0#1 := by
    apply BitVec.eq_of_toNat_eq
    change (bits.toNat >>> 63) % 2 = 0
    rw [Nat.shiftRight_eq_div_pow, whole]
    unfold fractions at *
    omega
  have top : @unpackExponent Format.binary64 bits ≠ -1#11 := fun all =>
    most.ne (exponent.symm.trans (congrArg BitVec.toNat all))
  have bottom : @unpackExponent Format.binary64 bits ≠ 0#11 := fun none =>
    least.ne' (exponent.symm.trans (congrArg BitVec.toNat none))
  have leading : (1#1 ++ @unpackMantissa Format.binary64 bits).toNat =
      fractions + fraction := by
    change 2 ^ 52 ||| (@unpackMantissa Format.binary64 bits).toNat = _
    rw [mantissa, Nat.or_comm, Nat.or_two_pow_eq_add_of_lt within]
    exact Nat.add_comm _ _
  refine ⟨Nat.add_pos_left (by decide) _, ?_⟩
  dsimp only
  rw [if_neg top, if_neg bottom, finite.injEq, sign, exponent, leading]
  exact ⟨rfl, rfl, rfl⟩

/-! ## Rounding -/

/-- Of the digits that a shift drops it is kept whether they make up half a unit, and whether they
are neither nothing nor just half a unit. -/
theorem shiftRight_exact (m places : Nat) :
    ExtendedMantissa.ofMantissaAndAccuracy m .exact >>> places =
      ⟨m / 2 ^ places, decide (2 ^ places ≤ 2 * (m % 2 ^ places)),
        decide (m % 2 ^ places ≠ 0 ∧ 2 * (m % 2 ^ places) ≠ 2 ^ places)⟩ := by
  induction places with
  | zero =>
    change ExtendedMantissa.mk m false false = _
    simp [Nat.mod_one]
  | succ places ih =>
    change (ExtendedMantissa.ofMantissaAndAccuracy m .exact >>> places).shiftRightOne = _
    have unit : 0 < 2 ^ places := Nat.two_pow_pos places
    have dropped : m % 2 ^ places < 2 ^ places := Nat.mod_lt m unit
    rw [ih, Nat.mod_pow_succ, Nat.pow_succ, ← Nat.div_div_eq_div_mul]
    rcases Nat.mod_two_eq_zero_or_one (m / 2 ^ places) with digit | digit <;>
      simp only [ExtendedMantissa.shiftRightOne, digit, ExtendedMantissa.mk.injEq, true_and] <;>
      constructor <;> grind

theorem mantissa_shiftRight (m places : Nat) :
    (ExtendedMantissa.ofMantissaAndAccuracy m .exact >>> places).mantissa = m / 2 ^ places := by
  rw [shiftRight_exact]

/-- The dropped digits are rounded to the nearest, and to an even number from the middle. -/
theorem roundedMantissa_shiftRight (m places : Nat) :
    (ExtendedMantissa.ofMantissaAndAccuracy m .exact >>> places).roundedMantissa =
      roundHalfEven m (2 ^ places) := by
  rw [shiftRight_exact, roundHalfEven]
  by_cases half : 2 ^ places ≤ 2 * (m % 2 ^ places) <;>
    by_cases rest : m % 2 ^ places ≠ 0 ∧ 2 * (m % 2 ^ places) ≠ 2 ^ places <;>
    simp only [half, rest, decide_true, decide_false, ExtendedMantissa.roundedMantissa,
      ExtendedMantissa.accuracy, Accuracy.roundToNearestEven] <;>
    split_ifs <;> grind

theorem roundHalfEven_mem (num den : Nat) :
    num / den ≤ roundHalfEven num den ∧ roundHalfEven num den ≤ num / den + 1 := by
  unfold roundHalfEven
  dsimp only
  split_ifs <;> omega

theorem pos_of_full {m : Nat} (full : fractions ≤ m) : 0 < m :=
  Nat.lt_of_lt_of_le (by decide) full

theorem le_log2_of_full {m : Nat} (full : fractions ≤ m) : 52 ≤ m.log2 :=
  (Nat.le_log2 (pos_of_full full).ne').mpr full

theorem leading_mem {m : Nat} (full : fractions ≤ m) :
    fractions ≤ m / 2 ^ (m.log2 - 52) ∧ m / 2 ^ (m.log2 - 52) < 2 * fractions := by
  have digits := le_log2_of_full full
  constructor
  · rw [Nat.le_div_iff_mul_le (Nat.two_pow_pos _)]
    calc fractions * 2 ^ (m.log2 - 52) = 2 ^ m.log2 := by
          rw [show fractions = 2 ^ 52 from rfl, ← Nat.pow_add, Nat.add_sub_cancel' digits]
      _ ≤ m := Nat.log2_self_le (pos_of_full full).ne'
  · rw [Nat.div_lt_iff_lt_mul (Nat.two_pow_pos _)]
    calc m < 2 ^ (m.log2 + 1) := Nat.lt_log2_self
      _ = 2 * fractions * 2 ^ (m.log2 - 52) := by
          rw [show 2 * fractions = 2 ^ 53 from rfl, ← Nat.pow_add]
          congr 1
          omega

/-- A number of at least 53 digits is cut down to that many, unless it is too small. -/
theorem shiftToTargetExponent_full {m : Nat} {e : Int} (full : fractions ≤ m)
    (low : -1022 ≤ m.log2 + e) :
    shiftToTargetExponent Format.binary64 m e .exact =
      (ExtendedMantissa.ofMantissaAndAccuracy m .exact >>> (m.log2 - 52),
        e + (m.log2 - 52 : Nat)) := by
  have digits := le_log2_of_full full
  have shift : (Format.binary64.targetExponent (totalExponent m e) - e).toNat = m.log2 - 52 := by
    change (max ((m.log2 : Int) + 1 + e - 53) (-1074) - e).toNat = _
    omega
  rw [shiftToTargetExponent, shiftToExponent, shift]

/-- Within a part of a number that is told by its binary digits. -/
def Near (digits : Nat) (value exact : Rat) : Prop := |value - exact| ≤ exact / 2 ^ digits

theorem near_of_shift {m rounded places : Nat} (e : Int) (full : fractions * 2 ^ places ≤ m)
    (below : m / 2 ^ places ≤ rounded) (above : rounded ≤ m / 2 ^ places + 1) :
    Near 52 (rounded * 2 ^ (e + places)) (m * 2 ^ e) := by
  have unit : 0 < 2 ^ places := Nat.two_pow_pos places
  have floor := Nat.div_mul_le_self m (2 ^ places)
  have ceiling := Nat.lt_div_mul_add (a := m) unit
  have most : rounded * 2 ^ places ≤ m + 2 ^ places := by nlinarith
  have least : m ≤ rounded * 2 ^ places + 2 ^ places := by nlinarith
  have distance : |((rounded * 2 ^ places : Nat) : Rat) - m| ≤ m / 2 ^ 52 := by
    rw [le_div_iff₀ (by norm_num)]
    have apart : |((rounded * 2 ^ places : Nat) : Rat) - m| ≤ (2 ^ places : Nat) := by
      rw [abs_sub_le_iff, sub_le_iff_le_add', sub_le_iff_le_add']
      exact ⟨by exact_mod_cast most, by exact_mod_cast least⟩
    have unit' : ((2 ^ places : Nat) : Rat) * 2 ^ 52 ≤ m := by
      have : ((fractions * 2 ^ places : Nat) : Rat) ≤ m := Nat.cast_le.mpr full
      rwa [Nat.cast_mul, mul_comm, show (fractions : Rat) = 2 ^ 52 by norm_num [fractions]] at this
    exact (mul_le_mul_of_nonneg_right apart (by norm_num)).trans unit'
  have scale : (0 : Rat) < 2 ^ e := zpow_pos (by norm_num) e
  rw [Near, zpow_add₀ (by norm_num), zpow_natCast]
  calc |(rounded : Rat) * (2 ^ e * 2 ^ places) - m * 2 ^ e|
      = |((rounded * 2 ^ places : Nat) : Rat) - m| * 2 ^ e := by
        rw [← abs_of_pos scale, ← abs_mul, abs_of_pos scale]
        push_cast
        congr 1
        ring
    _ ≤ m / 2 ^ 52 * 2 ^ e := by gcongr
    _ = m * 2 ^ e / 2 ^ 52 := by ring

theorem full_shift {m : Nat} (full : fractions ≤ m) : fractions * 2 ^ (m.log2 - 52) ≤ m :=
  (Nat.mul_le_mul_right _ (leading_mem full).1).trans (Nat.div_mul_le_self m _)

/-- What 53 digits were rounded to has at most one digit more, and then the last one is a zero. -/
theorem cut_rounded {rounded : Nat} (full : fractions ≤ rounded) (most : rounded ≤ 2 * fractions) :
    rounded.log2 ≤ 53 ∧
      rounded / 2 ^ (rounded.log2 - 52) * 2 ^ (rounded.log2 - 52) = rounded := by
  rcases Nat.lt_or_eq_of_le most with short | rfl
  · have digits : rounded.log2 = 52 := (Nat.log2_eq_iff (pos_of_full full).ne').mpr ⟨full, short⟩
    rw [digits]
    exact ⟨by decide, by simp⟩
  · exact ⟨by decide, by decide⟩

def rounded (m : Nat) (e : Int) : Rat :=
  roundHalfEven m (2 ^ (m.log2 - 52)) * 2 ^ (e + (m.log2 - 52 : Nat))

theorem near_rounded {m : Nat} (e : Int) (full : fractions ≤ m) :
    Near 52 (rounded m e) (m * 2 ^ e) :=
  near_of_shift e (full_shift full) (roundHalfEven_mem _ _).1 (roundHalfEven_mem _ _).2

theorem exists_round {m : Nat} {e : Int} (full : fractions ≤ m) (low : -1022 ≤ m.log2 + e) :
    ∃ mantissa exponent positive,
      roundWithAccuracy Format.binary64 .positive m e .exact =
        .finite .positive mantissa exponent positive ∧
      fractions ≤ mantissa ∧ mantissa < 2 * fractions ∧
      m.log2 + e - 52 ≤ exponent ∧ exponent ≤ m.log2 + e - 51 ∧
      mantissa * 2 ^ exponent = rounded m e := by
  have digits := le_log2_of_full full
  obtain ⟨least, most⟩ := leading_mem full
  obtain ⟨below, above⟩ := roundHalfEven_mem m (2 ^ (m.log2 - 52))
  unfold roundWithAccuracy
  rw [shiftToTargetExponent_full full low]
  dsimp only
  rw [roundedMantissa_shiftRight, rounded]
  generalize roundHalfEven m (2 ^ (m.log2 - 52)) = rounded at below above ⊢
  have full' : fractions ≤ rounded := least.trans below
  obtain ⟨length, whole⟩ := cut_rounded full' (above.trans most)
  have digits' := le_log2_of_full full'
  obtain ⟨least', most'⟩ := leading_mem full'
  rw [shiftToTargetExponent_full full' (by omega), dif_neg]
  rotate_left
  · rw [mantissa_shiftRight]
    exact (pos_of_full least').ne'
  refine ⟨_, _, _, rfl, ?_⟩
  rw [mantissa_shiftRight]
  refine ⟨least', most', by omega, by omega, ?_⟩
  rw [zpow_add₀ (by norm_num), zpow_natCast]
  conv_rhs => rw [← whole]
  push_cast
  ring

/-! ## Doubles and the numbers they stand for -/

/-- A double that is read as a positive number of 53 binary digits. -/
inductive Normal : Float → Rat → Prop
  | read {x : Float} {mantissa : Nat} {exponent : Int}
      (reading : Reading.ofDouble x = .finite false mantissa exponent)
      (full : fractions ≤ mantissa) (short : mantissa < 2 * fractions) :
      Normal x (mantissa * 2 ^ exponent)

structure InRange (value : Rat) : Prop where
  least : 2 ^ (-1022 : Int) ≤ value
  most : value ≤ 2 ^ (1022 : Int)

theorem InRange.log2 {m : Nat} {e : Int} (positive : 0 < m)
    (range : InRange ((m : Rat) * 2 ^ e)) : -1022 ≤ m.log2 + e ∧ m.log2 + e ≤ 1022 := by
  have scale : (0 : Rat) < 2 ^ e := zpow_pos (by norm_num) e
  have two : (1 : Rat) < 2 := by norm_num
  have below : (2 : Rat) ^ (m.log2 + e : Int) ≤ m * 2 ^ e := by
    rw [zpow_add₀ (by norm_num), zpow_natCast]
    have : ((2 ^ m.log2 : Nat) : Rat) ≤ m := Nat.cast_le.mpr (Nat.log2_self_le positive.ne')
    push_cast at this
    gcongr
  have above : (m : Rat) * 2 ^ e < 2 ^ (m.log2 + 1 + e : Int) := by
    rw [zpow_add₀ (by norm_num)]
    have : (m : Rat) < ((2 ^ (m.log2 + 1) : Nat) : Rat) := Nat.cast_lt.mpr Nat.lt_log2_self
    push_cast at this
    rw [show ((m.log2 : Int) + 1) = ((m.log2 + 1 : Nat) : Int) by push_cast; rfl, zpow_natCast]
    gcongr
  have low := (zpow_lt_zpow_iff_right₀ two).mp (range.least.trans_lt above)
  have high := (zpow_le_zpow_iff_right₀ two).mp (below.trans range.most)
  omega

theorem normal_roundWithAccuracy {m : Nat} {e : Int} (full : fractions ≤ m)
    (range : InRange ((m : Rat) * 2 ^ e)) :
    Normal (.ofModel (.pack (roundWithAccuracy Format.binary64 .positive m e .exact)))
      (rounded m e) := by
  obtain ⟨low, high⟩ := range.log2 (pos_of_full full)
  obtain ⟨mantissa, exponent, positive, same, least, most, below, above, value⟩ :=
    exists_round full low
  rw [same, ← value]
  exact .read (ofDouble_pack least most (by omega) (by omega) positive) least most

theorem Normal.mul {x y : Float} {a b : Rat} (first : Normal x a) (second : Normal y b)
    (range : InRange (a * b)) : ∃ value, Normal (x * y) value ∧ Near 52 value (a * b) := by
  obtain @⟨m, e, reading, full, short⟩ := first
  obtain @⟨m', e', reading', full', short'⟩ := second
  obtain ⟨positive, unpacked⟩ := unpack_of_ofDouble reading full
  obtain ⟨positive', unpacked'⟩ := unpack_of_ofDouble reading' full'
  have product : (m : Rat) * 2 ^ e * (m' * 2 ^ e') = (m * m' : Nat) * 2 ^ (e + e') := by
    rw [zpow_add₀ (by norm_num)]
    push_cast
    ring
  rw [product] at range ⊢
  have long : fractions ≤ m * m' := full.trans (Nat.le_mul_of_pos_right _ positive')
  refine ⟨rounded (m * m') (e + e'), ?_, near_rounded _ long⟩
  change Normal (.ofModel (.pack (UnpackedFloat.mul Format.binary64 x.toModel.unpack
    y.toModel.unpack))) _
  rw [unpacked, unpacked']
  exact normal_roundWithAccuracy long range

theorem log2_shiftLeft {m : Nat} (positive : 0 < m) (places : Nat) :
    (m <<< places).log2 = m.log2 + places := by
  have some : m <<< places ≠ 0 := by
    rw [Nat.shiftLeft_eq]
    exact (Nat.mul_pos positive (Nat.two_pow_pos places)).ne'
  refine (Nat.log2_eq_iff some).mpr ?_
  rw [Nat.shiftLeft_eq, Nat.pow_add, show m.log2 + places + 1 = m.log2 + 1 + places by omega,
    Nat.pow_add]
  exact ⟨Nat.mul_le_mul_right _ (Nat.log2_self_le positive.ne'),
    Nat.mul_lt_mul_of_pos_right Nat.lt_log2_self (Nat.two_pow_pos places)⟩

theorem shiftLeft_scale (m places : Nat) (e : Int) :
    ((m <<< places : Nat) : Rat) * 2 ^ (e - places) = m * 2 ^ e := by
  rw [Nat.shiftLeft_eq, zpow_sub₀ (by norm_num), zpow_natCast]
  push_cast
  field_simp

theorem normal_round {m : Nat} {e : Int} (positive : 0 < m)
    (range : InRange ((m : Rat) * 2 ^ e)) :
    ∃ value, Normal (.ofModel (.pack (UnpackedFloat.round Format.binary64 .positive m e))) value ∧
      Near 52 value (m * 2 ^ e) := by
  obtain ⟨low, high⟩ := range.log2 positive
  unfold UnpackedFloat.round decreaseExponent
  dsimp only
  have target : Format.binary64.targetExponent (totalExponent m e) = m.log2 + e - 52 := by
    change max ((m.log2 : Int) + 1 + e - 53) (-1074) = _
    omega
  rw [target]
  have places : (e - (m.log2 + e - 52)).toNat = 52 - m.log2 := by omega
  rw [places]
  have full : fractions ≤ m <<< (52 - m.log2) := by
    have digits : 52 ≤ (m <<< (52 - m.log2)).log2 := by
      rw [log2_shiftLeft positive]
      omega
    have some : m <<< (52 - m.log2) ≠ 0 := by
      intro zero
      rw [zero] at digits
      exact absurd digits (by decide)
    exact (Nat.le_log2 some).mp digits
  rw [← shiftLeft_scale m (52 - m.log2) e] at range ⊢
  exact ⟨_, normal_roundWithAccuracy full range, near_rounded _ full⟩

theorem normal_toFloat {n : Nat} (positive : 0 < n) (short : n < 2 ^ 64)
    (range : InRange n) : ∃ value, Normal n.toUInt64.toFloat value ∧ Near 52 value n := by
  have range' : InRange ((n : Rat) * 2 ^ (0 : Int)) := by simpa using range
  obtain ⟨value, normal, near⟩ := normal_round positive range'
  refine ⟨value, ?_, by simpa using near⟩
  change Normal (.ofModel (.pack (UnpackedFloat.normalize Format.binary64
    (n.toUInt64.toNat : Int) 0 .positive))) value
  have same : n.toUInt64.toNat = n := Nat.mod_eq_of_lt short
  rw [same]
  unfold UnpackedFloat.normalize
  rw [Int.compare_eq_gt.mpr (by omega)]
  exact normal

theorem normal_one : Normal (Float.exactlyRepresentablePowersOfTen[0]) 1 := by
  have reading : Reading.ofDouble (Float.exactlyRepresentablePowersOfTen[0]) =
      .finite false fractions (-52) := by rfl
  have normal := Normal.read reading le_rfl (by decide)
  convert normal using 1
  norm_num [fractions]

theorem Near.mem {digits : Nat} {value exact : Rat} (near : Near digits value exact) :
    exact * (1 - 1 / 2 ^ digits) ≤ value ∧ value ≤ exact * (1 + 1 / 2 ^ digits) := by
  obtain ⟨above, below⟩ := abs_sub_le_iff.mp near
  constructor
  · linear_combination below
  · linear_combination above

theorem near_self {digits : Nat} {value : Rat} (nonneg : 0 ≤ value) : Near digits value value := by
  rw [Near, sub_self, abs_zero]
  exact div_nonneg nonneg (by positivity)

theorem Near.trans {first second third : Rat} (near : Near 52 first second)
    (near' : Near 52 second third) (positive : 0 ≤ third) : Near 50 first third := by
  obtain ⟨least, most⟩ := near.mem
  obtain ⟨least', most'⟩ := near'.mem
  norm_num at least most least' most'
  rw [Near, abs_sub_le_iff]
  constructor
  · linarith
  · linarith

theorem inRange_of_mem {value : Rat} (least : 1 / 2 ^ 100 ≤ value) (most : value ≤ 2 ^ 100) :
    InRange value where
  least := by
    refine le_trans ?_ least
    rw [one_div, ← zpow_natCast, ← zpow_neg]
    exact zpow_le_zpow_right₀ (by norm_num) (by norm_num)
  most := by
    refine most.trans ?_
    rw [← zpow_natCast]
    exact zpow_le_zpow_right₀ (by norm_num) (by norm_num)

theorem inRange_natCast {n : Nat} (positive : 0 < n) (short : n < 2 ^ 64) : InRange n := by
  have least : (1 : Rat) ≤ n := by exact_mod_cast positive
  have most : (n : Rat) ≤ 2 ^ 64 := by exact_mod_cast short.le
  exact inRange_of_mem (by linarith) (by linarith)

theorem roundHalfEven_mul (num den : Nat) {scale : Nat} (positive : 0 < scale) :
    roundHalfEven (num * scale) (den * scale) = roundHalfEven num den := by
  simp only [roundHalfEven, Nat.mul_div_mul_right _ _ positive, Nat.mul_mod_mul_right,
    ← Nat.mul_assoc, Nat.mul_lt_mul_right positive]

theorem rounded_shiftLeft {m : Nat} (full : fractions ≤ m) (places : Nat) (e : Int) :
    rounded (m <<< places) (e - places) = rounded m e := by
  have digits := le_log2_of_full full
  have cut : m.log2 + places - 52 = m.log2 - 52 + places := by omega
  rw [rounded, rounded, log2_shiftLeft (pos_of_full full), Nat.shiftLeft_eq, cut, Nat.pow_add,
    roundHalfEven_mul _ _ (Nat.two_pow_pos places)]
  congr 2
  push_cast
  ring

theorem ofScientific_eq {n : Nat} (positive : 0 < n) :
    Float.Model.ofScientific n 0 =
      .pack (roundWithAccuracy Format.binary64 .positive (n <<< 53) (-53) .exact) := by
  have tiny : ¬ (0 : Int) < -((2 : Int) ^ 11 + n.log2) := by omega
  have whole : n <<< 53 = n <<< 53 * 10 ^ 0 := (Nat.mul_one _).symm
  unfold Float.Model.ofScientific UnpackedFloat.ofScientific
  rw [dif_neg positive.ne', if_neg (by decide), if_neg tiny, if_pos le_rfl, whole]
  exact rfl

theorem full_shiftLeft {n : Nat} (full : fractions ≤ n) (places : Nat) :
    fractions ≤ n <<< places := by
  rw [Nat.shiftLeft_eq]
  exact full.trans (Nat.le_mul_of_pos_right _ (Nat.two_pow_pos places))

theorem normal_ofScientific {n : Nat} (full : fractions ≤ n) (range : InRange n) :
    Normal (.ofModel (.ofScientific n 0)) (rounded n 0) := by
  have same : ((n <<< 53 : Nat) : Rat) * 2 ^ (-53 : Int) = n :=
    (shiftLeft_scale n 53 0).trans (by rw [zpow_zero, mul_one])
  have unscaled : rounded (n <<< 53) (-53) = rounded n 0 := rounded_shiftLeft full 53 0
  rw [ofScientific_eq (pos_of_full full), ← unscaled]
  rw [← same] at range
  exact normal_roundWithAccuracy (full_shiftLeft full 53) range

theorem ofNat_eq {n : Nat} (long : 2 ^ 53 ≤ n) : Float.ofNat n = .ofModel (.ofScientific n 0) := by
  change Float.ofScientific n false 0 = _
  rw [Float.ofScientific, dif_neg (fun small => small.1.not_ge long)]
  rfl

theorem normal_ofNat_long {n : Nat} (long : 2 ^ 53 ≤ n) (short : n < 2 ^ 64) :
    Normal (Float.ofNat n) (rounded n 0) := by
  have full : fractions ≤ n := le_trans (by decide) long
  rw [ofNat_eq long]
  exact normal_ofScientific full (inRange_natCast (pos_of_full full) short)

/-- Counts of 64 bits become doubles near to them. -/
theorem normal_ofNat {n : Nat} (positive : 0 < n) (short : n < 2 ^ 64) :
    ∃ value, Normal (Float.ofNat n) value ∧ Near 50 value n := by
  have least : (1 : Rat) ≤ n := by exact_mod_cast positive
  have most : (n : Rat) ≤ 2 ^ 64 := by exact_mod_cast short.le
  rcases Nat.lt_or_ge n (2 ^ 53) with small | long
  · obtain ⟨direct, normal, near⟩ := normal_toFloat positive short (inRange_natCast positive short)
    obtain ⟨least', most'⟩ := near.mem
    norm_num at least' most'
    obtain ⟨value, normal', near'⟩ :=
      normal.mul normal_one (inRange_of_mem (by linarith) (by linarith))
    rw [mul_one] at near'
    change ∃ value, Normal (Float.ofScientific n false 0) value ∧ _
    rw [Float.ofScientific, dif_pos ⟨small, by decide⟩]
    exact ⟨value, normal', near'.trans near (by linarith)⟩
  · have near := near_rounded 0 (le_trans (by decide) long)
    rw [zpow_zero, mul_one] at near
    exact ⟨_, normal_ofNat_long long short,
      (near_self (by linarith [near.mem.1])).trans near (by linarith)⟩

/-! ## Rounding up -/

theorem ratio_scale (m : Nat) (e : Int) :
    0 < (ratio m e).2 ∧ ((ratio m e).1 : Rat) / (ratio m e).2 = m * 2 ^ e := by
  cases e with
  | ofNat e => exact ⟨Nat.one_pos, by simp [ratio]⟩
  | negSucc e =>
    refine ⟨Nat.two_pow_pos _, ?_⟩
    simp [ratio, zpow_negSucc, div_eq_mul_inv]

theorem ceilWithin_le_iff {x : Float} {m : Nat} {e : Int}
    (reading : Reading.ofDouble x = .finite false m e) {limit n : Nat} :
    ceilWithin limit x ≤ n ↔ limit ≤ n ∨ (m : Rat) * 2 ^ e ≤ n := by
  obtain ⟨divisor, same⟩ := ratio_scale m e
  rw [ceilWithin, reading]
  simp only [Bool.false_eq_true, if_false]
  rw [min_le_iff, ← same, div_le_iff₀ (by exact_mod_cast divisor),
    Nat.div_le_iff_le_mul_add_pred divisor]
  refine or_congr_right ?_
  rw [← Nat.cast_mul, Nat.cast_le, Nat.mul_comm]
  omega

theorem Normal.ceilWithin_le_iff {x : Float} {value : Rat} (normal : Normal x value)
    {limit n : Nat} : ceilWithin limit x ≤ n ↔ limit ≤ n ∨ value ≤ n := by
  obtain ⟨reading, -, -⟩ := normal
  exact Decimal.ceilWithin_le_iff reading

theorem Normal.pos {x : Float} {value : Rat} (normal : Normal x value) : 0 < value := by
  obtain ⟨-, full, -⟩ := normal
  exact mul_pos (Nat.cast_pos.mpr (pos_of_full full)) (zpow_pos (by norm_num) _)

theorem Normal.zero_mul {x : Float} {value : Rat} (normal : Normal x value) :
    Float.ofNat 0 * x = Float.ofNat 0 := by
  obtain ⟨reading, full, -⟩ := normal
  obtain ⟨positive, unpacked⟩ := unpack_of_ofDouble reading full
  change Float.ofModel (.pack (UnpackedFloat.mul Format.binary64 (Float.ofNat 0).toModel.unpack
    x.toModel.unpack)) = _
  rw [unpacked]
  rfl

end CrossPlan.Decimal
