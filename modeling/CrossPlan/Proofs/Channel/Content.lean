import CrossPlan.Channel.Basic
import Mathlib.Data.List.Perm.Basic

/-!
# What channels hold

Filling, dealing to parts and converting keep the rows of a channel, though not their order.
-/

set_option autoImplicit false

namespace CrossPlan

/-- Collecting the items of each key below a bound collects all items below it. -/
theorem flatMap_filter_perm {β : Type} (key : β → Nat) (items : List β) (bound : Nat) :
    ((List.range bound).flatMap fun part => items.filter fun item => key item == part).Perm
      (items.filter fun item => key item < bound) := by
  induction bound with
  | zero => simp
  | succ bound ih =>
    rw [List.range_succ, List.flatMap_append, List.flatMap_singleton]
    have low : ((items.filter fun item => key item < bound + 1).filter fun item =>
        key item < bound) = items.filter fun item => key item < bound := by
      rw [List.filter_filter]
      refine List.filter_congr fun item _ => ?_
      by_cases small : key item < bound
      · simp [small, Nat.lt_succ_of_lt small]
      · simp [small]
    have high : ((items.filter fun item => key item < bound + 1).filter fun item =>
        !decide (key item < bound)) = items.filter fun item => key item == bound := by
      rw [List.filter_filter]
      refine List.filter_congr fun item _ => ?_
      rw [Bool.eq_iff_iff]
      simp only [Bool.and_eq_true, Bool.not_eq_true', decide_eq_false_iff_not, decide_eq_true_eq,
        beq_iff_eq]
      omega
    have both := List.filter_append_perm (fun item => decide (key item < bound))
      (items.filter fun item => key item < bound + 1)
    rw [low, high] at both
    exact (ih.append_right _).trans both

theorem dealRows_perm (rows : List Record) (count : Nat) :
    (dealRows rows count).flatten.Perm rows := by
  have positive : 0 < max 1 count := by omega
  have all : (rows.zipIdx.filter fun entry => entry.2 % max 1 count < max 1 count) =
      rows.zipIdx := by
    refine List.filter_eq_self.mpr fun entry _ => ?_
    simpa using Nat.mod_lt entry.2 positive
  have dealt := (flatMap_filter_perm (fun entry : Record × Nat => entry.2 % max 1 count)
    rows.zipIdx (max 1 count)).map Prod.fst
  rw [all, List.zipIdx_map_fst, List.map_flatMap] at dealt
  exact dealt

namespace Channel

variable {channel : Channel}

theorem rows_ok (produced : channel.produced = true) : channel.rows = .ok channel.content := by
  unfold Channel.produced at produced
  unfold Channel.rows Channel.content
  cases same : channel.data with
  | empty => simp [same] at produced
  | rows rows => rfl
  | parts parts => rfl

theorem parts_ok (produced : channel.produced = true) :
    ∃ parts, channel.parts = .ok parts ∧ parts.flatten = channel.content := by
  unfold Channel.produced at produced
  unfold Channel.parts Channel.content
  cases same : channel.data with
  | empty => simp [same] at produced
  | rows rows => exact ⟨[rows], rfl, by simp⟩
  | parts parts => exact ⟨parts, rfl, rfl⟩

@[simp]
theorem content_acceptParts (parts : List (List Record)) :
    (channel.acceptParts parts).content = parts.flatten := by
  unfold acceptParts content
  cases channel.form <;> rfl

@[simp]
theorem produced_acceptParts (parts : List (List Record)) :
    (channel.acceptParts parts).produced = true := by
  unfold acceptParts produced
  cases channel.form <;> rfl

@[simp]
theorem content_acceptRows (rows : List Record) : (channel.acceptRows rows).content = rows := by
  unfold acceptRows content
  cases channel.form <;> simp

@[simp]
theorem produced_acceptRows (rows : List Record) : (channel.acceptRows rows).produced = true := by
  unfold acceptRows produced
  cases channel.form <;> rfl

theorem convert_ok {conversion : Conversion} (form : channel.form = conversion.source)
    (produced : channel.produced = true) (id parallelism : Nat) :
    ∃ converted, channel.convert conversion id parallelism = .ok converted ∧
      converted.form = conversion.target ∧ converted.produced = true ∧
      converted.content.Perm channel.content := by
  unfold convert
  rw [if_neg (not_not.mpr form.symm), rows_ok produced]
  cases conversion with
  | parallelize =>
    refine ⟨_, rfl, rfl, produced_acceptParts _, ?_⟩
    rw [content_acceptParts]
    exact dealRows_perm _ _
  | collect => exact ⟨_, rfl, rfl, produced_acceptRows _, by rw [content_acceptRows]⟩
  | stream => exact ⟨_, rfl, rfl, produced_acceptRows _, by rw [content_acceptRows]⟩
  | gather => exact ⟨_, rfl, rfl, produced_acceptRows _, by rw [content_acceptRows]⟩

end Channel

end CrossPlan
