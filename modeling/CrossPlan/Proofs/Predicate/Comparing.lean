import CrossPlan.Predicate.Basic
import CrossPlan.Proofs.Decimal.Comparing

/-!
# Integers against literals

A literal of decimal digits writes an integer of any size.  Where that has 64 bits with sign, a test
of an integer against it compares the two as they are; beyond, it compares both as doubles, and
`Predicate.eval_compare_iff` tells where the rounding shows.
-/

set_option autoImplicit false

namespace CrossPlan

theorem Scalar.fits_iff {value : Int} :
    fits value = true ↔ -(Count.half : Int) ≤ value ∧ value < Count.half := by
  rw [fits, Bool.and_eq_true, decide_eq_true_eq, decide_eq_true_eq]

/-! ## Literals of integers -/

namespace Numeral

def written (digits : List Char) : Nat :=
  Nat.ofDigits 10 (digits.reverse.map fun c => c.toNat - '0'.toNat)

/-- A text of decimal digits, behind at most a minus sign, and the number that it writes. -/
inductive Writes (literal : String) : Int → Prop
  | plain {digits : List Char} (nonempty : digits ≠ []) (all : ∀ c ∈ digits, c.isDigit = true)
      (text : literal.toList = digits) : Writes literal (written digits)
  | negated {digits : List Char} (nonempty : digits ≠ []) (all : ∀ c ∈ digits, c.isDigit = true)
      (text : literal.toList = '-' :: digits) : Writes literal (-(written digits : Int))

theorem digit?_of_isDigit {c : Char} (digit : c.isDigit = true) :
    digit? 10 c = some (c.toNat - '0'.toNat) := by
  rw [Char.isDigit, Bool.and_eq_true, decide_eq_true_eq, decide_eq_true_eq] at digit
  have least : '0' ≤ c := digit.1
  have most : c ≤ '9' := digit.2
  have small : c.toNat ≤ 57 := digit.2
  rw [digit?]
  simp only [least, most, and_self, if_true]
  exact Option.filter_some_pos (by rw [decide_eq_true_eq]; omega)

theorem toLower_of_isDigit {c : Char} (digit : c.isDigit = true) : c.toLower = c := by
  rw [Char.isDigit, Bool.and_eq_true, decide_eq_true_eq, decide_eq_true_eq] at digit
  have most : c.toNat ≤ 57 := digit.2
  rw [Char.toLower, dif_neg]
  intro capital
  have least : 65 ≤ c.toNat := capital.1
  omega

theorem written_concat (digits : List Char) (c : Char) :
    written (digits ++ [c]) = 10 * written digits + (c.toNat - '0'.toNat) := by
  rw [written, List.reverse_append, List.reverse_singleton, List.singleton_append, List.map_cons,
    Nat.ofDigits_cons, Nat.add_comm]
  rfl

section

variable {digits : List Char} (nonempty : digits ≠ []) (all : ∀ c ∈ digits, c.isDigit = true)

include nonempty all

theorem natural?_of_digits : natural? 10 digits = some (written digits) := by
  rw [natural?, if_neg (by rwa [List.isEmpty_iff])]
  clear nonempty
  induction digits using List.reverseRecOn with
  | nil => rfl
  | append_singleton digits c ih =>
    have digit := digit?_of_isDigit (all c (by simp))
    rw [List.foldlM_append, ih fun c mem => all c (List.mem_append_left _ mem), written_concat]
    change ((digit? 10 c).map _).bind _ = _
    rw [digit]
    rfl

/-- Digits without a point or an exponent are none of the words for doubles either. -/
theorem magnitude?_of_digits : magnitude? digits = some (nearest (written digits) 0) := by
  have whole : digits.takeWhile Char.isDigit = digits := List.takeWhile_eq_self_iff.mpr all
  have rest : digits.dropWhile Char.isDigit = [] := List.dropWhile_eq_nil_iff.mpr all
  have small : digits.map Char.toLower = digits := by
    rw [List.map_congr_left fun c mem => toLower_of_isDigit (all c mem), List.map_id']
  have name (word : String) (letters : ∃ c ∈ word.toList, c.isDigit = false) :
      String.ofList digits ≠ word := by
    rintro rfl
    obtain ⟨c, mem, letter⟩ := letters
    rw [String.toList_ofList] at mem
    rw [all c mem] at letter
    exact absurd letter (by decide)
  unfold magnitude?
  simp only [small, whole, rest, name "inf" ⟨'i', by decide, by decide⟩,
    name "infinity" ⟨'i', by decide, by decide⟩, name "nan" ⟨'n', by decide, by decide⟩, or_self,
    if_false, List.append_nil, natural?_of_digits nonempty all]
  rfl

theorem signed?_of_digits (half : Nat) : signed? 10 half digits =
    if written digits < half then some (written digits : Int) else none := by
  have read := natural?_of_digits nonempty all
  unfold signed?
  split
  · exact absurd (all '-' (by simp)) (by decide)
  · exact absurd (all '+' (by simp)) (by decide)
  · rw [read]
    by_cases small : written digits < half <;> simp [small, Option.filter]

theorem signed?_of_negated (half : Nat) : signed? 10 half ('-' :: digits) =
    if written digits ≤ half then some (-(written digits : Int)) else none := by
  rw [signed?, natural?_of_digits nonempty all]
  by_cases small : written digits ≤ half <;> simp [small, Option.filter]

end

/-- An integer that fits into 64 bits with sign is read as it is written, and no other. -/
theorem Writes.integer? {literal : String} {number : Int} (writes : Writes literal number) :
    Numeral.integer? literal = if Scalar.fits number then some number else none := by
  simp only [Numeral.integer?, Scalar.fits_iff]
  rcases writes with ⟨nonempty, all, text⟩ | ⟨nonempty, all, text⟩
  · rw [text, signed?_of_digits nonempty all]
    exact if_congr (by omega) rfl rfl
  · rw [text, signed?_of_negated nonempty all]
    exact if_congr (by unfold Count.half; omega) rfl rfl

theorem Writes.double? {literal : String} {number : Int} (writes : Writes literal number)
    (nonzero : number ≠ 0) : Numeral.double? literal =
      some (if number < 0 then -nearest number.natAbs 0 else nearest number.natAbs 0) := by
  rcases writes with @⟨digits, nonempty, all, text⟩ | @⟨digits, nonempty, all, text⟩
  · have read := magnitude?_of_digits nonempty all
    rw [if_neg (by omega), Int.natAbs_natCast, ← read]
    unfold Numeral.double?
    rw [text]
    split
    · exact absurd (all '-' List.mem_cons_self) (by decide)
    · exact absurd (all '+' List.mem_cons_self) (by decide)
    · rfl
  · rw [if_pos (by omega), Int.natAbs_neg, Int.natAbs_natCast, Numeral.double?, text]
    simp only [magnitude?_of_digits nonempty all, Option.map_some]

end Numeral

/-! ## Integers and numbers beyond them -/

theorem Scalar.doubleOf_eq (value : Int) : doubleOf value =
    if value < 0 then -Float.ofNat value.natAbs else Float.ofNat value.natAbs := by
  rcases value with n | n
  · exact (if_neg (Int.natCast_nonneg n).not_gt).symm
  · exact (if_pos (Int.negSucc_lt_zero n)).symm

namespace Predicate

/-- A value of 64 bits with sign and a number beyond these that are rounded to the same double, the
limit between them.  Half a unit of the doubles is 512 on the side of the value and 1024 beyond. -/
def Merged (value number : Int) : Prop :=
  (Count.half ≤ value + 512 ∧ Count.half ≤ number ∧ number ≤ Count.half + 1024) ∨
    (value ≤ 512 - Count.half ∧ number < -Count.half ∧ -Count.half - 1024 ≤ number)

instance (value number : Int) : Decidable (Merged value number) :=
  inferInstanceAs (Decidable (_ ∨ _))

theorem order_doubles {value number : Int} (fits : Scalar.fits value = true)
    (beyond : ¬ Scalar.fits number = true) :
    doubleOrder? (Scalar.doubleOf value) (if number < 0 then -Numeral.nearest number.natAbs 0
        else Numeral.nearest number.natAbs 0) =
      some (if Merged value number then .eq else cmp value number) := by
  rw [Scalar.fits_iff] at fits beyond
  have within : value.natAbs ≤ Count.half := by omega
  have beyond' : Count.half ≤ number.natAbs := by omega
  obtain ⟨above, below, apart, apart'⟩ := Decimal.order_limit within beyond'
  rw [Scalar.doubleOf_eq]
  by_cases negative : number < 0
  · rw [if_pos negative, (cmp_eq_gt_iff _ _).mpr (by omega : number < value)]
    split_ifs with sign merged merged
    · rw [below, if_pos (by unfold Merged at merged; omega)]
    · rw [below, if_neg (by unfold Merged at merged; omega)]
    · exact absurd merged (by unfold Merged Count.half; omega)
    · exact apart'
  · rw [if_neg negative, (cmp_eq_lt_iff _ _).mpr (by omega : value < number)]
    split_ifs with sign merged merged
    · exact absurd merged (by unfold Merged Count.half; omega)
    · exact apart
    · rw [above, if_pos (by unfold Merged at merged; omega)]
    · rw [above, if_neg (by unfold Merged at merged; omega)]

theorem merged_beyond {value number : Int} (fits : Scalar.fits value = true)
    (merged : Merged value number) : ¬ Scalar.fits number = true ∧ value ≠ number := by
  rw [Scalar.fits_iff] at *
  unfold Merged at merged
  omega

/-- An integer and a literal are compared as numbers, unless both are rounded to the same double. -/
theorem order?_of_writes {literal : String} {value number : Int}
    (fits : Scalar.fits value = true) (writes : Numeral.Writes literal number) :
    order? literal (.int value) =
      some (if Merged value number then .eq else cmp value number) := by
  rw [order?, writes.integer?]
  by_cases inside : Scalar.fits number = true
  · rw [if_pos inside, if_neg fun merged => (merged_beyond fits merged).1 inside, cmp_eq_compare]
  · have nonzero : number ≠ 0 := by
      rintro rfl
      exact inside (by decide)
    rw [if_neg inside, writes.double? nonzero]
    exact order_doubles fits inside

end Predicate

/-! ## Tests of integers -/

namespace Comparison

def Relates : Comparison → Int → Int → Prop
  | .eq, a, b => a = b
  | .ne, a, b => a ≠ b
  | .lt, a, b => a < b
  | .le, a, b => a ≤ b
  | .gt, a, b => b < a
  | .ge, a, b => b ≤ a

theorem holds_cmp_iff (comparison : Comparison) (a b : Int) :
    comparison.holds (cmp a b) = true ↔ comparison.Relates a b := by
  rcases lt_trichotomy a b with below | rfl | above
  · rw [(cmp_eq_lt_iff _ _).mpr below]
    cases comparison <;> simp [holds, Relates] <;> omega
  · rw [cmp_self_eq_eq]
    cases comparison <;> simp [holds, Relates]
  · rw [(cmp_eq_gt_iff _ _).mpr above]
    cases comparison <;> simp [holds, Relates] <;> omega

end Comparison

namespace Predicate

theorem eval_compare_eq {row : Record} {column literal : String} {value number : Int}
    (members : Memberships) (comparison : Comparison)
    (found : row.get? column = some (.int value)) (fits : Scalar.fits value = true)
    (writes : Numeral.Writes literal number) :
    (compare column comparison literal).eval row members =
      comparison.holds (if Merged value number then .eq else cmp value number) := by
  simp only [eval, found, compares, order?_of_writes fits writes, Bool.true_and]

/-- A test of an integer of 64 bits against a literal of any integer tells the relation of the two,
unless both are rounded to the limit between them.  It then takes them for equal, which leaves only
two of the six comparisons right on either side. -/
theorem eval_compare_iff {row : Record} {column literal : String} {value number : Int}
    (members : Memberships) (comparison : Comparison)
    (found : row.get? column = some (.int value)) (fits : Scalar.fits value = true)
    (writes : Numeral.Writes literal number) :
    (¬ Merged value number →
      ((compare column comparison literal).eval row members = true ↔
        comparison.Relates value number)) ∧
    (Merged value number →
      ((compare column comparison literal).eval row members = true ↔
        comparison ∈ [.eq, .le, .ge])) ∧
    (((compare column comparison literal).eval row members = true ↔
        comparison.Relates value number) ↔
      (Merged value number → value < number ∧ comparison ∈ [.le, .gt] ∨
        number < value ∧ comparison ∈ [.ge, .lt])) := by
  rw [eval_compare_eq members comparison found fits writes]
  by_cases merged : Merged value number
  · have apart := (merged_beyond fits merged).2
    rw [if_pos merged]
    have equal : comparison.holds .eq = true ↔ comparison ∈ [.eq, .le, .ge] := by
      cases comparison <;> decide
    refine ⟨fun exact => absurd merged exact, fun _ => equal, ?_⟩
    simp only [merged, forall_const]
    rcases lt_or_gt_of_ne apart with below | above
    · cases comparison <;> simp [Comparison.holds, Comparison.Relates] <;> omega
    · cases comparison <;> simp [Comparison.holds, Comparison.Relates] <;> omega
  · rw [if_neg merged, comparison.holds_cmp_iff]
    exact ⟨fun _ => Iff.rfl, fun both => absurd both merged,
      iff_of_true Iff.rfl fun both => absurd both merged⟩

/-- The greatest integer of 64 bits passes the test for the integer behind it. -/
theorem eval_compare_iff_greatest :
    let row : Record := ⟨[("v", .int 9223372036854775807)]⟩
    let limit : Predicate := .compare "v" .eq "9223372036854775808"
    row.get? "v" = some (.int 9223372036854775807) ∧
      Scalar.fits 9223372036854775807 = true ∧
      Numeral.Writes "9223372036854775808" 9223372036854775808 ∧
      limit.eval row .none = true ∧
      ¬ Comparison.eq.Relates 9223372036854775807 9223372036854775808 := by
  have found : (⟨[("v", .int 9223372036854775807)]⟩ : Record).get? "v" =
    some (.int 9223372036854775807) := rfl
  have fits : Scalar.fits 9223372036854775807 = true := by decide
  have number : (Numeral.written "9223372036854775808".toList : Int) = 9223372036854775808 := by
    decide +kernel
  have writes : Numeral.Writes "9223372036854775808" 9223372036854775808 :=
    number ▸ .plain (by decide) (by simp) rfl
  obtain ⟨-, merged, -⟩ := eval_compare_iff .none .eq found fits writes
  exact ⟨found, fits, writes, (merged (by decide)).mpr (by decide),
    show ¬ (9223372036854775807 : Int) = 9223372036854775808 by decide⟩

end Predicate

end CrossPlan
