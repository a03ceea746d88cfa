import CrossPlan.Proofs.Estimation.Narrowing
import Mathlib.Order.Monotone.Union
import Mathlib.Tactic.FieldSimp

/-!
# Measured points joined by straight lines

In exact arithmetic the times of an accepted piecewise model run along the straight lines between
its points: through each of them, between the two at the ends of each line, level ahead of the first
point and not below the last one behind it.  They rise wherever the measured times do.
-/

set_option autoImplicit false

namespace CrossPlan

open Quantity

/-- The times of measured points that are joined by straight lines. -/
structure Joins (points : List (Breakpoint Rat)) (time : Rat → Rat) : Prop where
  nonneg : ∀ rows, 0 ≤ time rows
  hits : ∀ point ∈ points, time point.rows = point.ms
  between : ∀ before a b after, points = before ++ a :: b :: after →
    ∀ rows : Rat, a.rows ≤ rows → rows ≤ b.rows → time rows ∈ Set.uIcc a.ms b.ms
  ahead : ∀ first rest, points = first :: rest →
    ∀ rows : Rat, rows ≤ first.rows → time rows = first.ms
  behind : ∀ before last, points = before ++ [last] →
    ∀ rows : Rat, last.rows ≤ rows → last.ms ≤ time rows
  rising : points.Pairwise (fun a b => a.ms ≤ b.ms) → Monotone time

structure Measured (points : List (Breakpoint Rat)) : Prop where
  ascending : points.Pairwise fun a b => a.rows < b.rows
  nonneg : ∀ point ∈ points, 0 ≤ point.ms

theorem pairwise_of_ascending {points : List (Breakpoint Rat)} (checked : ascending points = true) :
    points.Pairwise fun a b => a.rows < b.rows := by
  rw [← List.isChain_iff_pairwise]
  induction points with
  | nil => exact .nil
  | cons a rest ih =>
    cases rest with
    | nil => exact .singleton a
    | cons b rest =>
      rw [ascending, Bool.and_eq_true, decide_eq_true_iff] at checked
      exact .cons_cons checked.1 (ih checked.2)

namespace Measured

theorem of_validate {points : List (Breakpoint Rat)} {memory network : Rat}
    (accepted : (CostModel.piecewise points memory network).validate = .ok ()) :
    points ≠ [] ∧ Measured points := by
  simp only [CostModel.validate, Bool.and_eq_true, List.all_eq_true, notNegative_rat] at accepted
  split_ifs at accepted with empty unordered values
  exact ⟨by simpa using empty, pairwise_of_ascending (by simpa using unordered), values.1.1⟩

theorem tail {first : Breakpoint Rat} {rest : List (Breakpoint Rat)}
    (measured : Measured (first :: rest)) : Measured rest where
  ascending := (List.pairwise_cons.mp measured.ascending).2
  nonneg point listed := measured.nonneg point (List.mem_cons_of_mem _ listed)

theorem drop {before after : List (Breakpoint Rat)} (measured : Measured (before ++ after)) :
    Measured after where
  ascending := (List.pairwise_append.mp measured.ascending).2.1
  nonneg point listed := measured.nonneg point (List.mem_append_right _ listed)

theorem lt {a b : Breakpoint Rat} {rest : List (Breakpoint Rat)}
    (measured : Measured (a :: b :: rest)) : (a.rows : Rat) < b.rows :=
  Nat.cast_lt.mpr ((List.pairwise_cons.mp measured.ascending).1 b List.mem_cons_self)

theorem le_getLast {first last : Breakpoint Rat} {rest : List (Breakpoint Rat)}
    (measured : Measured (first :: rest)) (ends : (first :: rest).getLast? = some last) :
    (first.rows : Rat) ≤ last.rows := by
  rcases List.mem_cons.mp (List.mem_of_getLast? ends) with rfl | later
  · exact le_rfl
  · exact Nat.cast_le.mpr ((List.pairwise_cons.mp measured.ascending).1 last later).le

end Measured

/-! ## The line through two points -/

section Line

variable {a b : Breakpoint Rat}

theorem lineThrough_eq (apart : (a.rows : Rat) < b.rows) (rows : Rat) :
    lineThrough a b rows = a.ms + (b.ms - a.ms) / (b.rows - a.rows) * (rows - a.rows) := by
  have order : a.rows ≤ b.rows := (Nat.cast_lt.mp apart).le
  rw [lineThrough, ofNat_rat, ofNat_rat, Nat.cast_sub order]

theorem lineThrough_left : lineThrough a b a.rows = a.ms := by
  rw [lineThrough, ofNat_rat a.rows, sub_self, mul_zero, add_zero]

theorem lineThrough_right (apart : (a.rows : Rat) < b.rows) : lineThrough a b b.rows = b.ms := by
  rw [lineThrough_eq apart, div_mul_cancel₀ _ (sub_pos.mpr apart).ne']
  exact add_sub_cancel _ _

theorem lineThrough_mem (apart : (a.rows : Rat) < b.rows) {rows : Rat} (least : a.rows ≤ rows)
    (most : rows ≤ b.rows) : lineThrough a b rows ∈ Set.uIcc a.ms b.ms := by
  have width : (0 : Rat) < b.rows - a.rows := sub_pos.mpr apart
  have part := blend_mem_uIcc a.ms b.ms (div_nonneg (sub_nonneg.mpr least) width.le)
    ((div_le_one width).mpr (sub_le_sub_right most _))
  convert part using 1
  rw [lineThrough_eq apart]
  field_simp
  ring

theorem lineThrough_monotone (apart : (a.rows : Rat) < b.rows) (rises : a.ms ≤ b.ms) :
    Monotone (lineThrough a b) := by
  intro rows more order
  rw [lineThrough_eq apart, lineThrough_eq apart]
  have slope : 0 ≤ (b.ms - a.ms) / ((b.rows : Rat) - a.rows) :=
    div_nonneg (sub_nonneg.mpr rises) (sub_pos.mpr apart).le
  gcongr

end Line

/-! ## Which line is taken -/

section Segment

variable {a b first last : Breakpoint Rat} {before rest : List (Breakpoint Rat)} {rows : Rat}

theorem segment?_some {points : List (Breakpoint Rat)}
    (found : segment? rows points = some (a, b)) :
    ∃ before after, points = before ++ a :: b :: after := by
  induction points with
  | nil => cases found
  | cons first rest ih =>
    rcases rest with - | ⟨second, - | ⟨third, rest⟩⟩
    · cases found
    · cases found
      exact ⟨[], [], rfl⟩
    · simp only [segment?] at found
      split at found
      · cases found
        exact ⟨[], third :: rest, rfl⟩
      · obtain ⟨before, after, same⟩ := ih found
        exact ⟨first :: before, after, congrArg (first :: ·) same⟩

theorem exists_segment? (rows : Rat) (a b : Breakpoint Rat) (rest : List (Breakpoint Rat)) :
    ∃ ends, segment? rows (a :: b :: rest) = some ends := by
  induction rest generalizing a b with
  | nil => exact ⟨(a, b), rfl⟩
  | cons c rest ih =>
    simp only [segment?]
    split
    · exact ⟨(a, b), rfl⟩
    · exact ih b c

theorem segment?_within (within : rows ≤ b.rows) :
    segment? rows (a :: b :: rest) = some (a, b) := by
  cases rest with
  | nil => rfl
  | cons c rest => simp only [segment?, ofNat_rat, le_rat, if_pos within]

theorem segment?_beyond {c : Breakpoint Rat} (beyond : (b.rows : Rat) < rows) :
    segment? rows (a :: b :: c :: rest) = segment? rows (b :: c :: rest) := by
  simp only [segment?, ofNat_rat, le_rat, if_neg beyond.not_ge]

theorem interpolate_ahead (rest : List (Breakpoint Rat)) (early : rows ≤ first.rows) :
    interpolate (first :: rest) rows = first.ms := by
  obtain ⟨last, ends⟩ := Option.isSome_iff_exists.mp
    (List.getLast?_isSome.mpr (List.cons_ne_nil first rest))
  simp only [interpolate, List.head?_cons, ends, ofNat_rat, le_rat, if_pos early]

/-- Behind the first point the time is that of the line taken, raised to the last point's behind
that and to zero. -/
theorem interpolate_line (late : (first.rows : Rat) < rows)
    (ends : (first :: rest).getLast? = some last)
    (found : segment? rows (first :: rest) = some (a, b)) :
    interpolate (first :: rest) rows =
      max (if (last.rows : Rat) < rows then max (lineThrough a b rows) last.ms
        else lineThrough a b rows) 0 := by
  simp only [interpolate, List.head?_cons, ends, found, ofNat_rat, le_rat, lt_rat, larger_rat,
    zero_rat, if_neg late.not_ge]

theorem interpolate_singleton (only : Breakpoint Rat) (rows : Rat) :
    interpolate [only] rows = only.ms := by
  simp only [interpolate, List.head?_cons, List.getLast?_singleton, segment?, ite_self]

/-- Up to the second point the time is level first and then that of the first line. -/
theorem interpolate_ramp (measured : Measured (a :: b :: rest)) (most : rows ≤ b.rows) :
    interpolate (a :: b :: rest) rows = lineThrough a b (max a.rows rows) := by
  rcases le_or_gt rows a.rows with early | late
  · rw [interpolate_ahead _ early, max_eq_left early, lineThrough_left]
  · obtain ⟨last, ends⟩ := Option.isSome_iff_exists.mp
      (List.getLast?_isSome.mpr (List.cons_ne_nil b rest))
    have within : ¬ (last.rows : Rat) < rows := (most.trans (measured.tail.le_getLast ends)).not_gt
    have amount : 0 ≤ lineThrough a b rows := by
      refine le_trans ?_ (lineThrough_mem measured.lt late.le most).1
      exact le_min (measured.nonneg a List.mem_cons_self)
        (measured.tail.nonneg b List.mem_cons_self)
    rw [interpolate_line late (List.getLast?_cons_cons.trans ends) (segment?_within most),
      if_neg within, max_eq_left amount, max_eq_right late.le]

/-- From the second point on the first one plays no part, unless there are only these two. -/
theorem interpolate_tail {c : Breakpoint Rat} (measured : Measured (a :: b :: c :: rest))
    (least : b.rows ≤ rows) :
    interpolate (a :: b :: c :: rest) rows = interpolate (b :: c :: rest) rows := by
  rcases least.eq_or_lt with rfl | beyond
  · rw [interpolate_ramp measured le_rfl, max_eq_right measured.lt.le,
      lineThrough_right measured.lt, interpolate_ahead _ le_rfl]
  · obtain ⟨last, ends⟩ := Option.isSome_iff_exists.mp
      (List.getLast?_isSome.mpr (List.cons_ne_nil b (c :: rest)))
    obtain ⟨⟨x, y⟩, found⟩ := exists_segment? rows b c rest
    rw [interpolate_line (measured.lt.trans beyond) (List.getLast?_cons_cons.trans ends)
      ((segment?_beyond beyond).trans found), interpolate_line beyond ends found]

/-- The last line goes on behind its end, but not below it. -/
theorem interpolate_pair (measured : Measured [a, b]) (least : b.rows ≤ rows) :
    interpolate [a, b] rows = max (lineThrough a b rows) b.ms := by
  rcases least.eq_or_lt with rfl | beyond
  · rw [interpolate_ramp measured le_rfl, max_eq_right measured.lt.le,
      lineThrough_right measured.lt, max_self]
  · have amount : 0 ≤ max (lineThrough a b rows) b.ms :=
      le_max_of_le_right (measured.tail.nonneg b List.mem_cons_self)
    have ends : [a, b].getLast? = some b := rfl
    rw [interpolate_line (measured.lt.trans beyond) ends rfl, if_pos beyond, max_eq_left amount]

theorem interpolate_append (measured : Measured (before ++ a :: b :: rest))
    (least : a.rows ≤ rows) :
    interpolate (before ++ a :: b :: rest) rows = interpolate (a :: b :: rest) rows := by
  induction before with
  | nil => rfl
  | cons first before ih =>
    rw [← ih measured.tail]
    cases before with
    | nil => exact interpolate_tail measured least
    | cons second before =>
      obtain ⟨third, others, same⟩ :
          ∃ third others, before ++ a :: b :: rest = third :: others := by
        cases before with
        | nil => exact ⟨_, _, rfl⟩
        | cons third before => exact ⟨_, _, rfl⟩
      have earlier : (second.rows : Rat) ≤ a.rows :=
        Nat.cast_le.mpr ((List.pairwise_cons.mp measured.tail.ascending).1 a (by simp)).le
      simp only [List.cons_append, same] at measured ⊢
      exact interpolate_tail measured (earlier.trans least)

end Segment

/-! ## What holds along all lines -/

namespace Measured

variable {points : List (Breakpoint Rat)}

theorem hits (measured : Measured points) {point : Breakpoint Rat} (listed : point ∈ points) :
    interpolate points point.rows = point.ms := by
  obtain ⟨before, after, rfl⟩ := List.append_of_mem listed
  rcases List.eq_nil_or_concat before with rfl | ⟨front, last, rfl⟩
  · exact interpolate_ahead after le_rfl
  · simp only [List.concat_eq_append, List.append_assoc, List.singleton_append] at measured ⊢
    have apart := measured.drop.lt
    rw [interpolate_append measured apart.le, interpolate_ramp measured.drop le_rfl,
      max_eq_right apart.le, lineThrough_right apart]

theorem between {before after : List (Breakpoint Rat)} {a b : Breakpoint Rat}
    (measured : Measured (before ++ a :: b :: after)) {rows : Rat} (least : a.rows ≤ rows)
    (most : rows ≤ b.rows) :
    interpolate (before ++ a :: b :: after) rows ∈ Set.uIcc a.ms b.ms := by
  rw [interpolate_append measured least, interpolate_ramp measured.drop most, max_eq_right least]
  exact lineThrough_mem measured.drop.lt least most

theorem behind {before : List (Breakpoint Rat)} {last : Breakpoint Rat}
    (measured : Measured (before ++ [last])) {rows : Rat} (least : last.rows ≤ rows) :
    last.ms ≤ interpolate (before ++ [last]) rows := by
  rcases List.eq_nil_or_concat before with rfl | ⟨front, next, rfl⟩
  · exact (interpolate_singleton last rows).ge
  · simp only [List.concat_eq_append, List.append_assoc, List.singleton_append] at measured ⊢
    rw [interpolate_append measured (measured.drop.lt.le.trans least),
      interpolate_pair measured.drop least]
    exact le_max_right _ _

theorem rising (measured : Measured points)
    (rises : points.Pairwise fun a b => a.ms ≤ b.ms) : Monotone (interpolate points) := by
  induction points with
  | nil => exact fun _ _ _ => le_rfl
  | cons a rest ih =>
    rcases rest with - | ⟨b, rest⟩
    · exact fun _ _ _ => by rw [interpolate_singleton, interpolate_singleton]
    have line : Monotone (lineThrough a b) :=
      lineThrough_monotone measured.lt ((List.pairwise_cons.mp rises).1 b List.mem_cons_self)
    have early : MonotoneOn (interpolate (a :: b :: rest)) (Set.Iic b.rows) := by
      have ramp : Monotone fun rows => lineThrough a b (max (a.rows : Rat) rows) :=
        line.comp (monotone_const.max monotone_id)
      exact (ramp.monotoneOn _).congr fun rows most => (interpolate_ramp measured most).symm
    have late : MonotoneOn (interpolate (a :: b :: rest)) (Set.Ici b.rows) := by
      rcases rest with - | ⟨c, rest⟩
      · have raised : Monotone fun rows => max (lineThrough a b rows) b.ms :=
          line.max monotone_const
        exact (raised.monotoneOn _).congr fun rows least => (interpolate_pair measured least).symm
      · have further := ih measured.tail (List.pairwise_cons.mp rises).2
        exact (further.monotoneOn _).congr fun rows least => (interpolate_tail measured least).symm
    exact early.Iic_union_Ici late

theorem joins (measured : Measured points) : Joins points (interpolate points) where
  nonneg := amounts_rat.interpolate measured.nonneg
  hits _ := measured.hits
  between before a b after same rows least most := by
    subst same
    exact measured.between least most
  ahead first rest same rows early := by
    subst same
    exact interpolate_ahead rest early
  behind before last same rows least := by
    subst same
    exact measured.behind least
  rising := measured.rising

end Measured

/-- The times of every accepted piecewise model join its points, of which there is at least one; and
the line that is taken leads from one point to the next, which has more rows, so that it is never
divided by zero. -/
theorem CostModel.joins_of_validate {points : List (Breakpoint Rat)} {memory network : Rat}
    (accepted : (CostModel.piecewise points memory network).validate = .ok ()) :
    points ≠ [] ∧
    (∀ bytes, Joins points fun rows =>
      (CostModel.piecewise points memory network).timeMs rows bytes) ∧
    ∀ rows a b, segment? rows points = some (a, b) →
      (∃ before after, points = before ++ a :: b :: after) ∧ a.rows < b.rows := by
  obtain ⟨some, measured⟩ := Measured.of_validate accepted
  refine ⟨some, fun bytes => measured.joins, fun rows a b found => ?_⟩
  obtain ⟨before, after, rfl⟩ := segment?_some found
  exact ⟨⟨before, after, rfl⟩, Nat.cast_lt.mp measured.drop.lt⟩

def falling : List (Breakpoint Rat) := [⟨0, 1⟩, ⟨100, 11⟩, ⟨200, 5⟩]

/-- Behind the last point the falling line is not followed. -/
theorem CostModel.joins_of_validate_falling :
    (CostModel.piecewise falling 0 0).validate = .ok () ∧
    (CostModel.piecewise falling 0 0).timeMs 150 0 ∈ Set.uIcc (11 : Rat) 5 ∧
    5 ≤ (CostModel.piecewise falling 0 0).timeMs 300 0 ∧
    ∀ rows a b, segment? rows falling = some (a, b) → a.rows < b.rows := by
  have accepted : (CostModel.piecewise falling 0 0).validate = .ok () := by decide +kernel
  obtain ⟨-, joins, lines⟩ := CostModel.joins_of_validate accepted
  refine ⟨accepted, ?_, ?_, fun rows a b found => (lines rows a b found).2⟩
  · exact (joins 0).between [⟨0, 1⟩] ⟨100, 11⟩ ⟨200, 5⟩ [] rfl 150 (by norm_num) (by norm_num)
  · exact (joins 0).behind [⟨0, 1⟩, ⟨100, 11⟩] ⟨200, 5⟩ rfl 300 (by norm_num)

end CrossPlan
