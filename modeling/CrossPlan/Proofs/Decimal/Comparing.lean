import CrossPlan.Predicate.Basic
import CrossPlan.Proofs.Decimal.Doubles
import Mathlib

/-!
# The order of doubles

Doubles are compared as the numbers they stand for, the infinite ones beyond all others.  A count of
at most 63 binary digits and a literal beyond that are told apart as doubles unless both lie so near
to the limit that they are rounded to it (`order_limit`).  No smaller part of Mathlib brings the
lemmas on packed doubles.
-/

set_option autoImplicit false

namespace CrossPlan.Decimal

open Float.Model (Format UnpackedFloat)
open Float.Model.UnpackedFloat

/-! ## Swapping and negating -/

theorem compare_swap (u v : UnpackedFloat) :
    (u.compare v).map Ordering.swap = v.compare u := by
  have signs (s t : Sign) : (compare s t).swap = compare t s := by cases s <;> cases t <;> rfl
  have naturals (m n : Nat) : (compare m n).swap = compare n m := Std.OrientedOrd.eq_swap.symm
  have integers (e f : Int) : (compare e f).swap = compare f e := Std.OrientedOrd.eq_swap.symm
  rcases u with s | _ | s | ⟨s⟩ <;> rcases v with t | _ | t | ⟨t⟩ <;>
    try cases s <;> cases t
  all_goals simp [UnpackedFloat.compare, signs, naturals, integers, Ordering.swap_then]

theorem doubleOrder?_eq (x y : Float) :
    doubleOrder? x y = x.toModel.unpack.compare y.toModel.unpack := by
  have below (x y : Float) : x < y ↔ x.toModel.unpack.compare y.toModel.unpack = some .lt :=
    (decide_eq_true_iff (p := x.toModel < y.toModel)).trans beq_iff_eq
  have equal : (x == y) = (x.toModel.unpack.compare y.toModel.unpack == some .eq) := rfl
  simp only [doubleOrder?, below, equal, beq_iff_eq]
  rw [← compare_swap x.toModel.unpack]
  rcases x.toModel.unpack.compare y.toModel.unpack with _ | ⟨_ | _ | _⟩ <;> rfl

theorem unpack_pack_unpack (word : BitVec Format.binary64.numBits) :
    unpack Format.binary64 (pack Format.binary64 (unpack Format.binary64 word)) =
      unpack Format.binary64 word := by
  rw [pack_unpack word]
  split_ifs with undefined
  · rw [isNaNBits, decide_eq_true_eq] at undefined
    rw [unpack_packedNaN, unpack, if_pos undefined.1, if_neg undefined.2]
  · rfl

theorem neg_unpack (sign : Sign) (exponent : BitVec Format.binary64.exponentBits)
    (mantissa : BitVec Format.binary64.mantissaBitsWithoutImplicit) :
    (unpack Format.binary64 (packComponents Format.binary64 sign exponent mantissa)).neg =
      unpack Format.binary64 (packComponents Format.binary64 (-sign) exponent mantissa) := by
  unfold unpack
  simp only [unpackMantissa_packComponents, unpackExponent_packComponents,
    unpackSign_packComponents, Sign.ofBitVec_toBitVec]
  split_ifs <;> rfl

theorem unpack_pack_neg (word : BitVec Format.binary64.numBits) :
    unpack Format.binary64 (pack Format.binary64 (unpack Format.binary64 word).neg) =
      (unpack Format.binary64 word).neg := by
  rw [← packComponents_unpackSign_unpackExponent_unpackMantissa word, neg_unpack,
    unpack_pack_unpack]

theorem unpack_neg (x : Float) : (-x).toModel.unpack = x.toModel.unpack.neg :=
  unpack_pack_neg x.toModel.toBits.toBitVec

theorem compare_neg (u v : UnpackedFloat) : u.neg.compare v.neg = v.compare u := by
  have signs (s t : Sign) : compare (-s) (-t) = (compare s t).swap := by
    cases s <;> cases t <;> rfl
  rw [← compare_swap u v]
  rcases u with s | _ | s | ⟨s⟩ <;> rcases v with t | _ | t | ⟨t⟩ <;>
    try cases s <;> cases t
  all_goals simp [UnpackedFloat.compare, UnpackedFloat.neg, signs]

/-! ## Magnitudes -/

/-- What a double without sign stands for, where the infinite one is beyond every number. -/
inductive Magnitude : Float → WithTop Rat → Prop
  | zero {x : Float} (unpacked : x.toModel.unpack = .zero .positive) : Magnitude x 0
  | normal {x : Float} {value : Rat} (normal : Normal x value) : Magnitude x value
  | infinite {x : Float} (unpacked : x.toModel.unpack = .infinity .positive) : Magnitude x ⊤

theorem scale_lt_scale {m n : Nat} {e f : Int} (short : m < 2 * fractions) (full : fractions ≤ n)
    (below : e < f) : (m : Rat) * 2 ^ e < n * 2 ^ f := by
  have short' : (m : Rat) < 2 * fractions := by exact_mod_cast short
  have full' : (fractions : Rat) ≤ n := by exact_mod_cast full
  calc (m : Rat) * 2 ^ e < 2 * fractions * 2 ^ e := by gcongr
    _ = fractions * 2 ^ (e + 1) := by rw [zpow_add_one₀ (by norm_num)]; ring
    _ ≤ n * 2 ^ f := by
      gcongr
      · norm_num
      · omega

/-- Numbers of 53 binary digits are ordered by their exponents and then by their digits. -/
theorem cmp_scale {m n : Nat} {e f : Int} (full : fractions ≤ m) (short : m < 2 * fractions)
    (full' : fractions ≤ n) (short' : n < 2 * fractions) :
    cmp ((m : Rat) * 2 ^ e) (n * 2 ^ f) = (compare e f).then (compare m n) := by
  rcases lt_trichotomy e f with below | rfl | above
  · rw [compare_lt_iff_lt.mpr below, (cmp_eq_lt_iff _ _).mpr (scale_lt_scale short full' below)]
    rfl
  · have scale : (0 : Rat) < 2 ^ e := zpow_pos (by norm_num) e
    rw [cmp_mul_pos_right scale, Nat.strictMono_cast.cmp_map_eq, cmp_eq_compare,
      compare_eq_iff_eq.mpr rfl]
    rfl
  · rw [compare_gt_iff_gt.mpr above, (cmp_eq_gt_iff _ _).mpr (scale_lt_scale short' full above)]
    rfl

theorem Normal.unpack {x : Float} {value : Rat} (normal : Normal x value) :
    ∃ mantissa exponent positive, x.toModel.unpack = .finite .positive mantissa exponent positive ∧
      fractions ≤ mantissa ∧ mantissa < 2 * fractions ∧ value = mantissa * 2 ^ exponent := by
  obtain ⟨reading, full, short⟩ := normal
  obtain ⟨positive, unpacked⟩ := unpack_of_ofDouble reading full
  exact ⟨_, _, positive, unpacked, full, short, rfl⟩

theorem Magnitude.order {x y : Float} {a b : WithTop Rat} (first : Magnitude x a)
    (second : Magnitude y b) : doubleOrder? x y = some (cmp a b) := by
  rw [doubleOrder?_eq]
  cases first with
  | zero unpacked =>
    rw [unpacked]
    cases second with
    | zero unpacked' => rw [unpacked', cmp_self_eq_eq]; rfl
    | normal normal' =>
      obtain ⟨_, _, _, unpacked', -⟩ := normal'.unpack
      rw [unpacked', (cmp_eq_lt_iff _ _).mpr (WithTop.coe_pos.mpr normal'.pos)]
      rfl
    | infinite unpacked' => rw [unpacked', (cmp_eq_lt_iff _ _).mpr WithTop.top_pos]; rfl
  | normal normal =>
    obtain ⟨_, _, _, unpacked, full, short, value⟩ := normal.unpack
    rw [unpacked]
    cases second with
    | zero unpacked' =>
      rw [unpacked', (cmp_eq_gt_iff _ _).mpr (WithTop.coe_pos.mpr normal.pos)]
      rfl
    | normal normal' =>
      obtain ⟨_, _, _, unpacked', full', short', value'⟩ := normal'.unpack
      rw [unpacked', WithTop.coe_strictMono.cmp_map_eq, value, value',
        cmp_scale full short full' short']
      rfl
    | infinite unpacked' => rw [unpacked', (cmp_eq_lt_iff _ _).mpr (WithTop.coe_lt_top _)]; rfl
  | infinite unpacked =>
    rw [unpacked]
    cases second with
    | zero unpacked' => rw [unpacked', (cmp_eq_gt_iff _ _).mpr WithTop.top_pos]; rfl
    | normal normal' =>
      obtain ⟨_, _, _, unpacked', -⟩ := normal'.unpack
      rw [unpacked', (cmp_eq_gt_iff _ _).mpr (WithTop.coe_lt_top _)]
      rfl
    | infinite unpacked' => rw [unpacked', cmp_self_eq_eq]; rfl

theorem Magnitude.order_neg {x y : Float} {a b : WithTop Rat} (first : Magnitude x a)
    (second : Magnitude y b) : doubleOrder? (-x) (-y) = some (cmp b a) := by
  rw [doubleOrder?_eq, unpack_neg, unpack_neg, compare_neg, ← doubleOrder?_eq,
    second.order first]

theorem Magnitude.unpack {x : Float} {value : WithTop Rat} (magnitude : Magnitude x value) :
    x.toModel.unpack = .zero .positive ∧ value = 0 ∨
      (∃ mantissa exponent positive,
        x.toModel.unpack = .finite .positive mantissa exponent positive) ∨
      x.toModel.unpack = .infinity .positive := by
  rcases magnitude with unpacked | normal | unpacked
  · exact .inl ⟨unpacked, rfl⟩
  · obtain ⟨_, _, _, unpacked, -⟩ := normal.unpack
    exact .inr (.inl ⟨_, _, _, unpacked⟩)
  · exact .inr (.inr unpacked)

theorem Magnitude.order_neg_left {x y : Float} {a b : WithTop Rat} (first : Magnitude x a)
    (second : Magnitude y b) (positive : 0 < a ∨ 0 < b) : doubleOrder? (-x) y = some .lt := by
  rw [doubleOrder?_eq, unpack_neg]
  rcases first.unpack with ⟨unpacked, rfl⟩ | ⟨_, _, _, unpacked⟩ | unpacked <;>
    rcases second.unpack with ⟨unpacked', rfl⟩ | ⟨_, _, _, unpacked'⟩ | unpacked' <;>
    rw [unpacked, unpacked']
  case inl.inl => exact absurd positive (by simp)
  all_goals rfl

theorem Magnitude.order_neg_right {x y : Float} {a b : WithTop Rat} (first : Magnitude x a)
    (second : Magnitude y b) (positive : 0 < a ∨ 0 < b) : doubleOrder? x (-y) = some .gt := by
  rw [doubleOrder?_eq, ← compare_swap, ← doubleOrder?_eq,
    second.order_neg_left first positive.symm]
  rfl

theorem magnitude_roundWithAccuracy {m : Nat} {e : Int} (full : fractions ≤ m)
    (low : -1022 ≤ m.log2 + e) :
    ∃ value, Magnitude (.ofModel (.pack (roundWithAccuracy Format.binary64 .positive m e .exact)))
      value ∧ (value = rounded m e ∨ value = ⊤) := by
  obtain ⟨mantissa, exponent, positive, same, least, most, below, -, value⟩ :=
    exists_round full low
  rw [same, ← value]
  by_cases high : exponent ≤ 971
  · exact ⟨_, .normal (.read (ofDouble_pack least most (by omega) high positive) least most),
      .inl rfl⟩
  · refine ⟨⊤, .infinite ?_, .inr rfl⟩
    have overflow : 2 ^ Format.binary64.exponentBits ≤
        (exponent + Format.binary64.exponentBias +
          Format.binary64.mantissaBitsWithoutImplicit).toNat + 1 := by
      change 2048 ≤ (exponent + 1023 + (52 : Nat)).toNat + 1
      omega
    change unpack Format.binary64 (pack Format.binary64 _) = _
    rw [pack, if_pos overflow]
    rfl

/-! ## The limit of 64 bits with sign -/

theorem rounded_eq {n places : Nat} (digits : n.log2 = 52 + places) :
    rounded n 0 = (roundHalfEven n (2 ^ places) * 2 ^ places : Nat) := by
  rw [rounded, digits, Nat.add_sub_cancel_left, zero_add, zpow_natCast]
  push_cast
  rfl

def limit : WithTop Rat := ((Count.half : Rat) : WithTop Rat)

/-- A count of 63 binary digits is rounded to the limit from half a unit of 1024 below it on. -/
theorem rounded_below {n : Nat} (least : 2 ^ 62 ≤ n) (within : n ≤ Count.half) :
    ∃ count : Nat, rounded n 0 = count ∧ count ≤ Count.half ∧
      (count = Count.half ↔ Count.half ≤ n + 512) := by
  rcases within.lt_or_eq with below | rfl
  · have digits : n.log2 = 52 + 10 := (Nat.log2_eq_iff (by omega)).mpr ⟨least, below⟩
    refine ⟨_, rounded_eq digits, ?_⟩
    unfold roundHalfEven Count.half at *
    dsimp only
    split_ifs <;> omega
  · exact ⟨_, rounded_eq (show Nat.log2 _ = 52 + 11 from rfl), by decide +kernel⟩

theorem rounded_above {n : Nat} (beyond : Count.half ≤ n) (most : n < 2 ^ 64) :
    ∃ count : Nat, rounded n 0 = count ∧ Count.half ≤ count ∧
      (count = Count.half ↔ n ≤ Count.half + 1024) := by
  have some : n ≠ 0 := (lt_of_lt_of_le (by decide) beyond).ne'
  have digits : n.log2 = 52 + 11 := (Nat.log2_eq_iff some).mpr ⟨beyond, most⟩
  refine ⟨_, rounded_eq digits, ?_⟩
  unfold roundHalfEven Count.half at *
  dsimp only
  split_ifs <;> omega

theorem magnitude_ofNat {n : Nat} (within : n ≤ Count.half) :
    ∃ value, Magnitude (Float.ofNat n) value ∧ value ≤ limit ∧
      (value = limit ↔ Count.half ≤ n + 512) := by
  rcases Nat.eq_zero_or_pos n with rfl | positive
  · refine ⟨0, .zero rfl, WithTop.coe_nonneg.mpr (Nat.cast_nonneg _), ?_⟩
    have apart : (0 : Rat) ≠ Count.half := by norm_num [Count.half]
    exact iff_of_false (WithTop.coe_injective.ne apart) (by decide)
  have short : n < 2 ^ 64 := within.trans_lt (by decide)
  rcases Nat.lt_or_ge n (2 ^ 62) with small | large
  · obtain ⟨value, normal, near⟩ := normal_ofNat positive short
    have below : value < (Count.half : Rat) := by
      have small' : (n : Rat) < 2 ^ 62 := by exact_mod_cast small
      calc value ≤ n * (1 + 1 / 2 ^ 50) := near.mem.2
        _ ≤ 2 ^ 62 * (1 + 1 / 2 ^ 50) := by gcongr
        _ < Count.half := by norm_num [Count.half]
    refine ⟨value, .normal normal, WithTop.coe_le_coe.mpr below.le, ?_⟩
    exact iff_of_false (WithTop.coe_injective.ne below.ne) (by unfold Count.half; omega)
  · obtain ⟨count, same, most, merged⟩ := rounded_below large within
    have normal := normal_ofNat_long (le_trans (by decide) large) short
    refine ⟨((count : Rat) : WithTop Rat), .normal (same ▸ normal), ?_, ?_⟩
    · exact WithTop.coe_le_coe.mpr (Nat.cast_le.mpr most)
    · rw [limit, WithTop.coe_inj, Nat.cast_inj, merged]

theorem nearest_eq {n : Nat} (some : n ≠ 0) :
    Numeral.nearest n 0 =
      if 310 < (Nat.toDigits 10 n).length then Numeral.infiniteDouble else Float.ofNat n := by
  have same : Float.ofScientific (n * Nat.pow 10 0) false 0 = Float.ofNat n := by
    change Float.ofScientific (n * 1) false 0 = Float.ofScientific n false 0
    rw [Nat.mul_one]
  have point : ¬ ((Nat.toDigits 10 n).length : Int) + 0 < -330 := by omega
  unfold Numeral.nearest
  dsimp only
  rw [if_neg (not_or.mpr ⟨some, point⟩), same]
  simp only [add_zero, Nat.ofNat_lt_cast]

theorem magnitude_ofNat_long {n : Nat} (long : 2 ^ 64 ≤ n) :
    ∃ value, Magnitude (Float.ofNat n) value ∧ limit < value := by
  have full : fractions ≤ n := le_trans (by decide) long
  have full' : fractions ≤ n <<< 53 := full_shiftLeft full 53
  have digits := le_log2_of_full full'
  obtain ⟨value, magnitude, known⟩ := magnitude_roundWithAccuracy (e := -53) full' (by omega)
  have unscaled : rounded (n <<< 53) (-53) = rounded n 0 := rounded_shiftLeft full 53 0
  rw [← ofScientific_eq (pos_of_full full), ← ofNat_eq (le_trans (by decide) long)] at magnitude
  refine ⟨value, magnitude, ?_⟩
  rcases known with rfl | rfl
  · rw [unscaled, limit, WithTop.coe_lt_coe]
    have long' : (2 : Rat) ^ 64 ≤ n := by exact_mod_cast long
    calc (Count.half : Rat) < 2 ^ 64 * (1 - 1 / 2 ^ 52) := by norm_num [Count.half]
      _ ≤ n * (1 - 1 / 2 ^ 52) := by gcongr
      _ = n * 2 ^ (0 : Int) * (1 - 1 / 2 ^ 52) := by rw [zpow_zero, mul_one]
      _ ≤ rounded n 0 := (near_rounded 0 full).mem.1
  · exact WithTop.coe_lt_top _

theorem magnitude_nearest {n : Nat} (beyond : Count.half ≤ n) :
    ∃ value, Magnitude (Numeral.nearest n 0) value ∧ limit ≤ value ∧
      (value = limit ↔ n ≤ Count.half + 1024) := by
  have some : n ≠ 0 := (lt_of_lt_of_le (by decide) beyond).ne'
  rw [nearest_eq some]
  rcases Nat.lt_or_ge n (2 ^ 64) with short | long
  · obtain ⟨count, same, least, merged⟩ := rounded_above beyond short
    have places : ¬ 310 < (Nat.toDigits 10 n).length :=
      not_lt.mpr ((Nat.length_toDigits_le_iff (by decide) (by decide)).mpr
        (short.trans (by decide +kernel)))
    have normal := normal_ofNat_long (le_trans (by decide) beyond) short
    rw [if_neg places]
    refine ⟨((count : Rat) : WithTop Rat), .normal (same ▸ normal), ?_, ?_⟩
    · exact WithTop.coe_le_coe.mpr (Nat.cast_le.mpr least)
    · rw [limit, WithTop.coe_inj, Nat.cast_inj, merged]
  · have apart : ¬ n ≤ Count.half + 1024 := by unfold Count.half; omega
    split_ifs
    · exact ⟨⊤, .infinite rfl, le_top, iff_of_false WithTop.top_ne_coe apart⟩
    · obtain ⟨value, magnitude, above⟩ := magnitude_ofNat_long long
      exact ⟨value, magnitude, above.le, iff_of_false above.ne' apart⟩

/-- What the order of doubles says of a count up to the limit and of a number from the limit on,
with either sign: they are taken for equal where both are rounded to the limit. -/
theorem order_limit {n m : Nat} (within : n ≤ Count.half) (beyond : Count.half ≤ m) :
    let merged := Count.half ≤ n + 512 ∧ m ≤ Count.half + 1024
    doubleOrder? (Float.ofNat n) (Numeral.nearest m 0) = some (if merged then .eq else .lt) ∧
      doubleOrder? (-Float.ofNat n) (-Numeral.nearest m 0) =
        some (if merged then .eq else .gt) ∧
      doubleOrder? (-Float.ofNat n) (Numeral.nearest m 0) = some .lt ∧
      doubleOrder? (Float.ofNat n) (-Numeral.nearest m 0) = some .gt := by
  intro merged
  obtain ⟨a, first, most, below⟩ := magnitude_ofNat within
  obtain ⟨b, second, least, above⟩ := magnitude_nearest beyond
  have positive : 0 < b :=
    lt_of_lt_of_le (WithTop.coe_pos.mpr (by norm_num [Count.half])) least
  have equal : merged ↔ a = b := by
    rw [show merged ↔ _ ∧ _ from Iff.rfl, ← below, ← above]
    exact ⟨fun both => both.1.trans both.2.symm,
      fun same => ⟨most.antisymm (same ▸ least), (same ▸ most).antisymm least⟩⟩
  refine ⟨?_, ?_, first.order_neg_left second (.inr positive),
    first.order_neg_right second (.inr positive)⟩
  · rw [first.order second]
    split_ifs with both
    · rw [(cmp_eq_eq_iff _ _).mpr (equal.mp both)]
    · rw [(cmp_eq_lt_iff _ _).mpr ((most.trans least).lt_of_ne (mt equal.mpr both))]
  · rw [first.order_neg second]
    split_ifs with both
    · rw [(cmp_eq_eq_iff _ _).mpr (equal.mp both).symm]
    · rw [(cmp_eq_gt_iff _ _).mpr ((most.trans least).lt_of_ne (mt equal.mpr both))]

end CrossPlan.Decimal
