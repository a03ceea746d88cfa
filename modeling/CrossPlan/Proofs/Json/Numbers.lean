import CrossPlan.Proofs.Json.Lexing
import Mathlib.Data.List.TakeWhile

/-!
# How JSON numbers are read back

An integer is written by its digits and read as the same integer if it fits into 64 bits.  A double
is always written with a point or an exponent, so whatever is read from its text is a double again.
-/

set_option autoImplicit false

namespace CrossPlan.Json

/-! ## Integers -/

theorem le_ofDigitChars (digits : List Char) (value : Nat) :
    value ≤ Nat.ofDigitChars 10 digits value := by
  induction digits generalizing value with
  | nil => rw [Nat.ofDigitChars_nil]
  | cons c rest ih =>
    rw [Nat.ofDigitChars_cons]
    exact le_trans (by omega) (ih _)

theorem appendDigits_eq {digits : List Char} {value : Nat}
    (within : Nat.ofDigitChars 10 digits value ≤ maxWord) :
    appendDigits value digits = (Nat.ofDigitChars 10 digits value, []) := by
  induction digits generalizing value with
  | nil => rw [appendDigits, Nat.ofDigitChars_nil]
  | cons c rest ih =>
    rw [Nat.ofDigitChars_cons] at within ⊢
    have next : 10 * value + (c.toNat - 48) ≤ maxWord := (le_ofDigitChars rest _).trans within
    rw [appendDigits, if_pos next]
    exact ih within

theorem isDigit_toDigits {n : Nat} : ∀ c ∈ Nat.toDigits 10 n, c.isDigit = true :=
  fun _ listed => Nat.isDigit_of_mem_toDigits (by decide) (by decide) listed

/-- Only the number zero is written with a leading zero. -/
theorem eq_zero_of_head? {n : Nat} (leading : (Nat.toDigits 10 n).head? = some '0') : n = 0 := by
  induction n using Nat.strongRecOn with
  | ind n ih =>
    by_cases single : n < 10
    · have digit : ∀ n < 10, Nat.digitChar n = '0' → n = 0 := by decide
      rw [Nat.toDigits_of_lt_base single, List.head?_cons] at leading
      exact digit n single (Option.some.inj leading)
    · rw [Nat.toDigits_of_base_le (by decide) (not_lt.mp single),
        List.head?_append_of_ne_nil _ Nat.toDigits_ne_nil] at leading
      have none := ih (n / 10) (by omega) leading
      omega

theorem wholePart?_toDigits (n : Nat) :
    wholePart? (Nat.toDigits 10 n) = some (Nat.toDigits 10 n, []) := by
  rw [wholePart?, List.takeWhile_eq_self_iff.mpr isDigit_toDigits,
    List.dropWhile_eq_nil_iff.mpr isDigit_toDigits]
  split
  · next none => exact absurd none Nat.toDigits_ne_nil
  · next second rest zero =>
    obtain rfl := eq_zero_of_head? (congrArg List.head? zero)
    cases zero
  · rfl

theorem unsignedNumber?_toDigits {n : Nat} (within : n < Count.span) (negative : Bool) :
    unsignedNumber? negative (Nat.toDigits 10 n) =
      if !negative then some (.int n)
      else if n = 0 ∨ Count.half < n then some (.float (-Float.ofNat n))
      else some (.int (-(n : Int))) := by
  have digits : appendDigits 0 (Nat.toDigits 10 n) = (n, []) := by
    have value := Nat.ofDigitChars_ten_toDigits (n := n)
    rw [appendDigits_eq (by rw [value]; exact Nat.le_pred_of_lt within), value]
  simp only [unsignedNumber?, wholePart?_toDigits, Option.bind_eq_bind, Option.bind_some,
    fractionPart?, exponentPart?, digits]
  cases negative <;> rfl

theorem toList_toString (n : Int) :
    (toString n).toList = (if n < 0 then ['-'] else []) ++ Nat.toDigits 10 n.natAbs := by
  cases n with
  | ofNat m => exact Nat.toList_repr
  | negSucc m =>
    change ("-" ++ (m + 1).repr).toList = _
    rw [String.toList_append, Nat.toList_repr, if_pos (Int.negSucc_lt_zero m)]
    rfl

theorem number?_int {n : Int} (low : -(Count.half : Int) ≤ n) (high : n < Count.span) :
    number? (toString n).toList = some (.int n) := by
  have unsigned : ∀ rest, Nat.toDigits 10 n.natAbs ≠ '-' :: rest := fun rest same =>
    absurd (isDigit_toDigits '-' (same ▸ List.mem_cons_self)) (by decide)
  have within : n.natAbs < Count.span := by
    unfold Count.half Count.span at *
    omega
  rw [toList_toString]
  split
  · next negative =>
    change unsignedNumber? true (Nat.toDigits 10 n.natAbs) = _
    rw [unsignedNumber?_toDigits within, if_neg (by decide), if_neg (by omega)]
    exact congrArg (some ∘ Json.int) (by omega)
  · next positive =>
    rw [List.nil_append, number?]
    · rw [unsignedNumber?_toDigits within, Bool.not_false, if_pos rfl]
      exact congrArg (some ∘ Json.int) (by omega)
    · exact unsigned

theorem isNumberChar_of_isDigit {c : Char} (digit : c.isDigit = true) : isNumberChar c = true := by
  simp [isNumberChar, digit]

theorem isNumberChar_toString (n : Int) : ∀ c ∈ (toString n).toList, isNumberChar c = true := by
  rw [toList_toString, List.forall_mem_append]
  refine ⟨?_, fun c listed => isNumberChar_of_isDigit (isDigit_toDigits c listed)⟩
  split <;> exact List.all_eq_true.mp (by decide)

theorem spells_int {n : Int} (low : -(Count.half : Int) ≤ n) (high : n < Count.span) :
    Spells (toString n).toList [.scalar (.int n)] := by
  refine spells_number ?_ (isNumberChar_toString n) (number?_int low high)
  rw [toList_toString]
  exact List.append_ne_nil_of_right_ne_nil _ Nat.toDigits_ne_nil

/-! ## Doubles -/

theorem wholePart?_some {s whole rest : List Char} (read : wholePart? s = some (whole, rest)) :
    s.takeWhile Char.isDigit = whole ∧ s.dropWhile Char.isDigit = rest := by
  dsimp only [wholePart?] at read
  split at read
  · cases read
  · cases read
  · exact Prod.mk.inj (Option.some.inj read)

theorem fractionPart?_nil {s rest : List Char} (read : fractionPart? s = some ([], rest)) :
    s = rest := by
  unfold fractionPart? at read
  split at read
  · dsimp only at read
    split at read
    · cases read
    · next some =>
      rw [(Prod.mk.inj (Option.some.inj read)).1] at some
      exact absurd rfl some
  · exact (Prod.mk.inj (Option.some.inj read)).2

theorem exponentPart?_false {s : List Char} {power : Int}
    (read : exponentPart? s = some (power, false)) : s = [] := by
  unfold exponentPart? at read
  split at read
  · rfl
  · obtain ⟨_, -, wrong⟩ := Option.map_eq_some_iff.mp read
    cases wrong

/-- What is read as an integer is written with digits only. -/
theorem isDigit_of_unsignedNumber? {negative : Bool} {text : List Char} {n : Int}
    (read : unsignedNumber? negative text = some (.int n)) : ∀ c ∈ text, c.isDigit = true := by
  simp only [unsignedNumber?, Option.bind_eq_bind, Option.bind_eq_some_iff] at read
  obtain ⟨⟨whole, rest⟩, first, ⟨places, rest'⟩, second, ⟨power, scaled⟩, third, read⟩ := read
  split at read
  · next plain =>
    simp only [Bool.and_eq_true, List.isEmpty_iff, Bool.not_eq_true'] at plain
    obtain ⟨⟨rfl, rfl⟩, -⟩ := plain
    obtain rfl : rest' = [] := exponentPart?_false third
    obtain rfl : rest = [] := fractionPart?_nil second
    exact List.dropWhile_eq_nil_iff.mp (wholePart?_some first).2
  · obtain ⟨value, -, wrong⟩ := Option.map_eq_some_iff.mp read
    cases wrong

theorem isDigit_of_number? {text : List Char} {n : Int} (read : number? text = some (.int n)) :
    ∀ c ∈ text, c = '-' ∨ c.isDigit = true := by
  unfold number? at read
  split at read
  · exact List.forall_mem_cons.mpr ⟨Or.inl rfl, fun c listed =>
      Or.inr (isDigit_of_unsignedNumber? read c listed)⟩
  · exact fun c listed => Or.inr (isDigit_of_unsignedNumber? read c listed)

structure Broken (text : List Char) : Prop where
  parts : ∀ c ∈ text, isNumberChar c = true
  mark : '.' ∈ text ∨ 'e' ∈ text

theorem isNumberChar_digitText (n : Nat) :
    ∀ c ∈ (Decimal.digitText n).toList, isNumberChar c = true := by
  rw [Decimal.digitText, String.toList_ofList]
  exact fun c listed => isNumberChar_of_isDigit (isDigit_toDigits c listed)

theorem isNumberChar_zeros (count : Nat) :
    ∀ c ∈ (Decimal.zeros count).toList, isNumberChar c = true := by
  rw [Decimal.zeros, String.toList_ofList]
  exact fun c listed => (List.eq_of_mem_replicate listed) ▸ rfl

theorem broken_positional (digits : Decimal.Digits) :
    Broken (Decimal.positional digits ".0").toList := by
  have text := isNumberChar_digitText digits.value
  simp only [Decimal.positional]
  split_ifs
  · refine ⟨?_, Or.inl (by simp)⟩
    simp only [String.toList_append, List.forall_mem_append]
    exact ⟨⟨List.all_eq_true.mp (by decide), isNumberChar_zeros _⟩, text⟩
  · refine ⟨?_, Or.inl (by simp)⟩
    simp only [String.toList_append, String.toList_ofList, List.forall_mem_append]
    exact ⟨⟨fun c listed => text c (List.mem_of_mem_take listed),
      List.all_eq_true.mp (by decide)⟩, fun c listed => text c (List.mem_of_mem_drop listed)⟩
  · refine ⟨?_, Or.inl (by simp)⟩
    simp only [String.toList_append, List.forall_mem_append]
    exact ⟨⟨text, isNumberChar_zeros _⟩, List.all_eq_true.mp (by decide)⟩

theorem broken_scientific (digits : Decimal.Digits) :
    Broken (Decimal.scientific digits).toList := by
  have text := isNumberChar_digitText digits.value
  refine ⟨?_, Or.inr (by simp [Decimal.scientific])⟩
  simp only [Decimal.scientific, String.toList_append, String.toList_ofList, List.forall_mem_append]
  refine ⟨⟨⟨fun c listed => text c (List.mem_of_mem_take listed), ?_⟩,
    List.all_eq_true.mp (by decide)⟩, ?_, isNumberChar_digitText _⟩
  · split
    · exact fun _ none => absurd none List.not_mem_nil
    · simp only [String.toList_append, String.toList_ofList, List.forall_mem_append]
      exact ⟨List.all_eq_true.mp (by decide), fun c listed => text c (List.mem_of_mem_drop listed)⟩
  · split <;> exact List.all_eq_true.mp (by decide)

theorem broken_of_json? {x : Float} {text : String} (written : Decimal.json? x = some text) :
    Broken text.toList := by
  have signed : ∀ (negative : Bool) (text : String), Broken text.toList →
      Broken ((if negative then "-" else "") ++ text).toList := by
    rintro negative text ⟨parts, mark⟩
    rw [String.toList_append]
    refine ⟨List.forall_mem_append.mpr ⟨?_, parts⟩,
      mark.imp (List.mem_append_right _) (List.mem_append_right _)⟩
    cases negative <;> exact List.all_eq_true.mp (by decide)
  unfold Decimal.json? at written
  split at written
  · cases written
  · cases written
  · next negative mantissa exponent _ =>
    dsimp only at written
    generalize Decimal.shortest .toEven mantissa exponent = digits at written
    by_cases zero : mantissa = 0
    · rw [if_pos zero] at written
      exact Option.some.inj written ▸ signed negative _
        ⟨List.all_eq_true.mp (by decide), by decide⟩
    · rw [if_neg zero] at written
      by_cases near : -5 < digits.point ∧ digits.point ≤ 16
      · rw [if_pos near] at written
        exact Option.some.inj written ▸ signed negative _ (broken_positional digits)
      · rw [if_neg near] at written
        exact Option.some.inj written ▸ signed negative _ (broken_scientific digits)

end CrossPlan.Json
