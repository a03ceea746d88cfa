import CrossPlan.Predicate.Like
import Mathlib.Data.List.Forall2

/-!
# Texts that match a pattern

A text matches a pattern when it falls into parts, one for each character of the pattern, each of
which that character can stand for.  Going through both side by side finds out, although only the
last `%` is ever given more of the text: what follows an earlier one up to the next was found as
early as possible, so that no later place would leave more of the text behind it.
-/

set_option autoImplicit false

namespace CrossPlan.Like

def StandsFor (c : Char) (part : List Char) : Prop :=
  if c = '%' then True else if c = '_' then part.length = 1 else part = [c]

/-- A text falls into parts that the characters of a pattern stand for in turn. -/
def Matches (text pattern : List Char) : Prop :=
  ∃ parts : List (List Char), parts.flatten = text ∧ List.Forall₂ StandsFor pattern parts

def Fits (c d : Char) : Prop := c ≠ '%' ∧ (c = '_' ∨ c = d)

/-! ## The first character of a pattern -/

theorem matches_nil {text : List Char} : Matches text [] ↔ text = [] := by
  constructor
  · rintro ⟨parts, rfl, all⟩
    cases all
    rfl
  · rintro rfl
    exact ⟨[], rfl, .nil⟩

theorem matches_cons {c : Char} {text pattern : List Char} : Matches text (c :: pattern) ↔
    ∃ part rest, text = part ++ rest ∧ StandsFor c part ∧ Matches rest pattern := by
  constructor
  · rintro ⟨parts, rfl, all⟩
    cases all with
    | cons first later => exact ⟨_, _, rfl, first, _, rfl, later⟩
  · rintro ⟨part, rest, rfl, first, parts, rfl, later⟩
    exact ⟨part :: parts, rfl, .cons first later⟩

theorem matches_percent {text pattern : List Char} : Matches text ('%' :: pattern) ↔
    ∃ part rest, text = part ++ rest ∧ Matches rest pattern := by
  simp only [matches_cons, StandsFor, if_pos, true_and]

theorem standsFor_iff {c : Char} (single : c ≠ '%') {part : List Char} :
    StandsFor c part ↔ ∃ d, part = [d] ∧ Fits c d := by
  rw [StandsFor, if_neg single]
  split
  · next wild =>
    rw [List.length_eq_one_iff]
    exact exists_congr fun d => (and_iff_left ⟨single, Or.inl wild⟩).symm
  · next letter =>
    constructor
    · rintro rfl
      exact ⟨c, rfl, single, Or.inr rfl⟩
    · rintro ⟨d, rfl, -, same⟩
      rw [same.resolve_left letter]

theorem matches_single {c : Char} (single : c ≠ '%') {text pattern : List Char} :
    Matches text (c :: pattern) ↔
      ∃ d rest, text = d :: rest ∧ Fits c d ∧ Matches rest pattern := by
  rw [matches_cons]
  constructor
  · rintro ⟨part, rest, rfl, first, later⟩
    obtain ⟨d, rfl, fits⟩ := (standsFor_iff single).mp first
    exact ⟨d, rest, rfl, fits, later⟩
  · rintro ⟨d, rest, rfl, fits, later⟩
    exact ⟨[d], rest, rfl, (standsFor_iff single).mpr ⟨d, rfl, fits⟩, later⟩

theorem not_matches_nil_single {c : Char} (single : c ≠ '%') {pattern : List Char} :
    ¬ Matches [] (c :: pattern) := by
  rw [matches_single single]
  rintro ⟨d, rest, split, -⟩
  cases split

theorem matches_percent_append {pattern : List Char} (part : List Char) {text : List Char}
    (found : Matches text ('%' :: pattern)) : Matches (part ++ text) ('%' :: pattern) := by
  obtain ⟨first, rest, rfl, later⟩ := matches_percent.mp found
  exact matches_percent.mpr ⟨part ++ first, rest, (List.append_assoc _ _ _).symm, later⟩

/-- A `%` stands for nothing, or it takes in the next character. -/
theorem matches_percent_cons {d : Char} {text pattern : List Char} :
    Matches (d :: text) ('%' :: pattern) ↔
      Matches (d :: text) pattern ∨ Matches text ('%' :: pattern) := by
  constructor
  · intro found
    obtain ⟨part, rest, split, later⟩ := matches_percent.mp found
    cases part with
    | nil => exact Or.inl (split ▸ later)
    | cons e part =>
      obtain ⟨-, rfl⟩ := List.cons_eq_cons.mp split
      exact Or.inr (matches_percent.mpr ⟨part, rest, rfl, later⟩)
  · rintro (now | later)
    · exact matches_percent.mpr ⟨[], _, rfl, now⟩
    · exact matches_percent_append [d] later

theorem matches_nil_left {pattern : List Char} :
    Matches [] pattern ↔ pattern.all (· == '%') = true := by
  induction pattern with
  | nil => simp [matches_nil]
  | cons c pattern ih =>
    by_cases star : c = '%'
    · subst star
      simp [matches_percent, ih]
    · simp [not_matches_nil_single star, star]

/-! ## Characters in front that have found their place -/

theorem matches_append {passed spanned text pattern : List Char}
    (fitting : List.Forall₂ Fits passed spanned) :
    Matches (spanned ++ text) (passed ++ pattern) ↔ Matches text pattern := by
  induction fitting with
  | nil => exact Iff.rfl
  | @cons c d _ _ fits _ ih =>
    rw [List.cons_append, List.cons_append, matches_single fits.1, ← ih]
    constructor
    · rintro ⟨_, _, split, -, later⟩
      obtain ⟨-, rfl⟩ := List.cons_eq_cons.mp split
      exact later
    · exact fun later => ⟨d, _, rfl, fits, later⟩

theorem fits_ne {passed spanned : List Char} (fitting : List.Forall₂ Fits passed spanned) :
    ∀ c ∈ passed, c ≠ '%' := by
  induction fitting with
  | nil => exact fun _ listed => absurd listed List.not_mem_nil
  | cons fits _ ih => exact List.forall_mem_cons.mpr ⟨fits.1, ih⟩

theorem exists_rest_of_matches {passed pattern : List Char} (single : ∀ c ∈ passed, c ≠ '%')
    {text : List Char} (found : Matches text (passed ++ pattern)) :
    ∃ rest, Matches rest pattern ∧ rest <:+ text.drop passed.length := by
  induction passed generalizing text with
  | nil => exact ⟨text, found, List.suffix_refl _⟩
  | cons c passed ih =>
    obtain ⟨d, rest, rfl, -, later⟩ :=
      (matches_single (single c List.mem_cons_self)).mp found
    exact ih (fun e listed => single e (List.mem_cons_of_mem _ listed)) later

/-! ## Going through text and pattern -/

/-- Between the last `%` and where text and pattern are now, each character has found its place. -/
def Star.Keeps (star : Star) (text pattern : List Char) : Prop :=
  ∃ passed spanned, star.pattern = passed ++ pattern ∧ star.text = spanned ++ text ∧
    List.Forall₂ Fits passed spanned

def Open (text pattern : List Char) : Option Star → Prop
  | none => Matches text pattern
  | some star => Matches star.text ('%' :: star.pattern)

theorem Star.Keeps.here (text pattern : List Char) : (Star.mk pattern text).Keeps text pattern :=
  ⟨[], [], rfl, rfl, .nil⟩

theorem Star.Keeps.step {star : Star} {c d : Char} {text pattern : List Char} (fits : Fits c d)
    (kept : star.Keeps (d :: text) (c :: pattern)) : star.Keeps text pattern := by
  obtain ⟨passed, spanned, split, split', fitting⟩ := kept
  exact ⟨passed ++ [c], spanned ++ [d], by simp [split], by simp [split'],
    List.rel_append fitting (.cons fits .nil)⟩

theorem Star.Keeps.matches_iff {star : Star} {text pattern : List Char}
    (kept : star.Keeps text pattern) : Matches star.text star.pattern ↔ Matches text pattern := by
  obtain ⟨passed, spanned, split, split', fitting⟩ := kept
  rw [split, split']
  exact matches_append fitting

/-- However much the last `%` stands for, what is left behind it lies behind the place where its
characters were found first. -/
theorem Star.Keeps.exists_rest {star : Star} {text pattern : List Char}
    (kept : star.Keeps text pattern) (found : Matches star.text ('%' :: star.pattern)) :
    ∃ front rest, text = front ++ rest ∧ Matches rest pattern := by
  obtain ⟨passed, spanned, split, split', fitting⟩ := kept
  obtain ⟨part, tail, cut, later⟩ := matches_percent.mp found
  rw [split] at later
  obtain ⟨rest, suits, behind⟩ := exists_rest_of_matches (fits_ne fitting) later
  -- the last wildcard now stands for more than nothing, so that less of the text is left behind it
  have within : tail.drop passed.length <:+ text := by
    have here : text = star.text.drop passed.length := by
      rw [split', fitting.length_eq, List.drop_left]
    have there : tail = star.text.drop part.length := by rw [cut, List.drop_left]
    rw [here, there, List.drop_drop, Nat.add_comm, ← List.drop_drop]
    exact List.drop_suffix _ _
  obtain ⟨front, whole⟩ := behind.trans within
  exact ⟨front, rest, whole.symm, suits⟩

/-- At a further `%` the earlier one need not be tried again. -/
theorem Star.Keeps.matches_percent_iff {star : Star} {text pattern : List Char}
    (kept : star.Keeps text ('%' :: pattern)) :
    Matches star.text ('%' :: star.pattern) ↔ Matches text ('%' :: pattern) := by
  constructor
  · intro found
    obtain ⟨front, rest, rfl, suits⟩ := kept.exists_rest found
    exact matches_percent_append front suits
  · intro found
    exact matches_percent.mpr ⟨[], star.text, rfl, kept.matches_iff.mpr found⟩

theorem Star.Keeps.matches_end {star : Star} {pattern : List Char}
    (kept : star.Keeps [] pattern) :
    Matches star.text ('%' :: star.pattern) ↔ Matches [] pattern := by
  constructor
  · intro found
    obtain ⟨front, rest, empty, suits⟩ := kept.exists_rest found
    rwa [(List.append_eq_nil_iff.mp empty.symm).2] at suits
  · intro found
    exact matches_percent.mpr ⟨[], star.text, rfl, kept.matches_iff.mpr found⟩

/-- Where text and pattern part, the last `%` has to stand for more. -/
theorem Star.Keeps.matches_again {star : Star} {text pattern : List Char}
    (kept : star.Keeps text pattern) (parted : ¬ Matches text pattern) (left : text ≠ []) :
    Matches star.text ('%' :: star.pattern) ↔
      Matches star.text.tail ('%' :: star.pattern) := by
  have none : ¬ Matches star.text star.pattern := fun found => parted (kept.matches_iff.mp found)
  obtain ⟨_, spanned, -, split, -⟩ := kept
  cases whole : star.text with
  | nil => exact absurd (List.append_eq_nil_iff.mp (split.symm.trans whole)).2 left
  | cons c rest =>
    rw [whole] at none
    rw [matches_percent_cons, or_iff_right none]
    rfl

theorem exists_fits {c : Char} {pattern : List Char} (single : pattern.head? ≠ some '%')
    (fits : pattern.head? = some '_' ∨ pattern.head? = some c) :
    ∃ d behind, pattern = d :: behind ∧ Fits d c := by
  cases pattern with
  | nil => simp at fits
  | cons d behind =>
    simp only [List.head?_cons, ne_eq, Option.some.injEq] at single fits
    exact ⟨d, behind, rfl, single, fits⟩

theorem not_matches_of_parted {c : Char} {text pattern : List Char}
    (single : pattern.head? ≠ some '%')
    (parted : ¬ (pattern.head? = some '_' ∨ pattern.head? = some c)) :
    ¬ Matches (c :: text) pattern := by
  cases pattern with
  | nil => simp [matches_nil]
  | cons d behind =>
    simp only [List.head?_cons, ne_eq, Option.some.injEq] at single parted
    rw [matches_single single]
    rintro ⟨_, _, split, ⟨-, fits⟩, -⟩
    obtain ⟨rfl, -⟩ := List.cons_eq_cons.mp split
    exact parted fits

theorem scan_iff {text pattern : List Char} {last : Option Star}
    (kept : ∀ star, last = some star → star.Keeps text pattern) :
    scan text pattern last = true ↔ Open text pattern last := by
  fun_induction scan text pattern last with
  | case1 pattern last =>
    rw [← matches_nil_left]
    cases last with
    | none => exact Iff.rfl
    | some star => exact (kept star rfl).matches_end.symm
  | case2 pattern last c rest percent ih =>
    -- the wildcard that was passed before is given up for this one
    obtain ⟨behind, rfl⟩ := List.head?_eq_some_iff.mp percent
    rw [ih (by rintro _ ⟨⟩; exact .here _ _)]
    cases last with
    | none => exact Iff.rfl
    | some star => exact (kept star rfl).matches_percent_iff.symm
  | case3 pattern last c rest single fits ih =>
    obtain ⟨d, behind, rfl, fitting⟩ := exists_fits single fits
    rw [ih fun star same => (kept star same).step fitting]
    cases last with
    | none => exact (matches_append (.cons fitting .nil)).symm
    | some star => exact Iff.rfl
  | case4 pattern c rest single parted =>
    exact iff_of_false Bool.false_ne_true (not_matches_of_parted single parted)
  | case5 pattern c rest single parted star ih =>
    rw [ih (by rintro _ ⟨⟩; exact .here _ _)]
    exact ((kept star rfl).matches_again (not_matches_of_parted single parted)
      (List.cons_ne_nil c rest)).symm

/-- A text is found to match a pattern exactly when it falls into parts that the characters of the
pattern stand for: `%` for any, `_` for one of a single character, another character for itself. -/
theorem like_iff (text pattern : String) : like text pattern = true ↔
    ∃ parts : List (List Char), parts.flatten = text.toList ∧
      List.Forall₂ StandsFor pattern.toList parts :=
  scan_iff (by rintro _ ⟨⟩)

end CrossPlan.Like
