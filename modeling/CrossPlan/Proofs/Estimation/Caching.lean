import CrossPlan.Estimation.Specification
import CrossPlan.Proofs.Sequence
import Mathlib.Data.List.DropRight

/-!
# Asking through a cache

A cache in front of a source cannot be told from the source, but for the wording of errors, and it
asks the source no more often than it must: once for each lookup of a key that was not answered
since the cache was last emptied.  That a key is not declared is an answer; an error is none.
-/

set_option autoImplicit false

namespace CrossPlan

variable {α : Type}

def SpecSource.relay (source : SpecSource α) (key : String) :
    Except SpecError (Option (CostModel α)) :=
  (source key).mapError fun error => .unavailable (key ++ ": " ++ error.message)

namespace SpecCache

inductive Call where
  | lookup (key : String)
  | invalidate
  deriving DecidableEq

def perform (source : SpecSource α) (cache : SpecCache α) :
    Call → Option (Except SpecError (Option (CostModel α))) × SpecCache α
  | .lookup key => (cache.lookup source key).map some id
  | .invalidate => (none, cache.invalidate)

structure Session (α : Type) where
  answers : List (Option (Except SpecError (Option (CostModel α))))
  cache : SpecCache α

def Session.after (source : SpecSource α) (session : Session α) (call : Call) : Session α :=
  ⟨session.answers ++ [(session.cache.perform source call).1],
    (session.cache.perform source call).2⟩

def session (source : SpecSource α) (calls : List Call) : Session α :=
  calls.foldl (Session.after source) ⟨[], empty⟩

/-! ## What has to be asked -/

def reply (source : SpecSource α) : Call → Option (Except SpecError (Option (CostModel α)))
  | .lookup key => some (source.relay key)
  | .invalidate => none

def recent (calls : List Call) : List Call := calls.rtakeWhile (· != .invalidate)

/-- A key of which a lookup was answered since the cache was last emptied, and not with an error. -/
def Served (source : SpecSource α) (calls : List Call) (key : String) : Prop :=
  .lookup key ∈ recent calls ∧ (source key).isOk = true

instance (source : SpecSource α) (calls : List Call) (key : String) :
    Decidable (Served source calls key) :=
  inferInstanceAs (Decidable (_ ∧ _))

def isMiss (source : SpecSource α) (earlier : List Call) : Call → Bool
  | .lookup key => !decide (Served source earlier key)
  | .invalidate => false

/-- The number of lookups that no earlier one serves. -/
def misses (source : SpecSource α) (calls : List Call) : Nat :=
  (List.range calls.length).countP fun place =>
    calls[place]?.any (isMiss source (calls.take place))

variable {source : SpecSource α} {calls : List Call} {cache : SpecCache α}

/-! ## One call more -/

theorem session_concat (call : Call) :
    session source (calls ++ [call]) = (session source calls).after source call := by
  rw [session, List.foldl_append]
  rfl

theorem recent_lookup (key : String) :
    recent (calls ++ [.lookup key]) = recent calls ++ [.lookup key] :=
  List.rtakeWhile_concat_pos _ _ _ rfl

theorem recent_invalidate : recent (calls ++ [.invalidate]) = [] :=
  List.rtakeWhile_concat_neg _ _ _ (by decide)

theorem served_lookup {asked key : String} : Served source (calls ++ [.lookup asked]) key ↔
    Served source calls key ∨ key = asked ∧ (source key).isOk = true := by
  rw [Served, recent_lookup, List.mem_append, List.mem_singleton, Call.lookup.injEq, or_and_right]
  rfl

theorem not_served_invalidate (key : String) : ¬ Served source (calls ++ [.invalidate]) key := by
  rw [Served, recent_invalidate]
  exact fun both => List.not_mem_nil both.1

theorem misses_concat (call : Call) : misses source (calls ++ [call]) =
    misses source calls + if isMiss source calls call then 1 else 0 := by
  have earlier : ∀ place ∈ List.range calls.length,
      (calls ++ [call])[place]?.any (isMiss source ((calls ++ [call]).take place)) =
        calls[place]?.any (isMiss source (calls.take place)) := by
    intro place listed
    have within := List.mem_range.mp listed
    rw [List.getElem?_append_left within, List.take_append_of_le_length within.le]
  rw [misses, List.length_append, List.length_singleton, List.range_succ, List.countP_append,
    List.countP_singleton, List.getElem?_concat_length, List.take_left, Option.any_some,
    List.countP_congr fun place listed => by rw [earlier place listed]]
  rfl

/-! ## What a cache holds -/

/-- A cache that holds the answers to the keys that were served, and nothing else. -/
def Holds (source : SpecSource α) (calls : List Call) (cache : SpecCache α) : Prop :=
  ∀ key, cache.held.get? key =
    if Served source calls key then (source key).toOption else none

theorem holds_invalidate : Holds source (calls ++ [.invalidate]) cache.invalidate := fun key => by
  rw [if_neg (not_served_invalidate key)]
  rfl

namespace Holds

theorem lookup_served (holds : Holds source calls cache) {key : String}
    (served : Served source calls key) : cache.lookup source key = (source.relay key, cache) := by
  have held := holds key
  rw [if_pos served] at held
  cases answered : source key with
  | error error => simp [Served, answered, Except.isOk, Except.toBool] at served
  | ok found =>
    rw [answered] at held
    simp only [SpecCache.lookup, held, Except.toOption, SpecSource.relay, answered,
      Except.mapError]

theorem lookup_missed (holds : Holds source calls cache) {key : String}
    (missed : ¬ Served source calls key) :
    (cache.lookup source key).1 = source.relay key ∧
      (cache.lookup source key).2.fetches = cache.fetches + 1 ∧
      ∀ other, (cache.lookup source key).2.held.get? other =
        if other = key ∧ (source key).isOk = true then (source key).toOption
        else cache.held.get? other := by
  have held := holds key
  rw [if_neg missed] at held
  cases answered : source key with
  | error error =>
    simp [SpecCache.lookup, held, answered, SpecSource.relay, Except.mapError, Except.isOk,
      Except.toBool]
  | ok found =>
    simp [SpecCache.lookup, held, answered, SpecSource.relay, Except.mapError, Except.isOk,
      Except.toBool, Except.toOption, Table.get?_insert]

theorem lookup (holds : Holds source calls cache) (key : String) :
    Holds source (calls ++ [.lookup key]) (cache.lookup source key).2 := by
  intro other
  by_cases served : Served source calls key
  · have same : Served source (calls ++ [.lookup key]) other ↔ Served source calls other := by
      rw [served_lookup, or_iff_left_of_imp]
      rintro ⟨rfl, -⟩
      exact served
    rw [holds.lookup_served served, holds other]
    simp only [same]
  · rw [(holds.lookup_missed served).2.2, holds other]
    by_cases new : other = key ∧ (source key).isOk = true
    · obtain ⟨rfl, answered⟩ := new
      rw [if_pos ⟨rfl, answered⟩, if_pos (served_lookup.mpr (Or.inr ⟨rfl, answered⟩))]
    · have same : Served source (calls ++ [.lookup key]) other ↔ Served source calls other := by
        rw [served_lookup, or_iff_left]
        rintro ⟨rfl, answered⟩
        exact new ⟨rfl, answered⟩
      rw [if_neg new]
      simp only [same]

end Holds

/-! ## All calls -/

/-- A session in which each lookup was answered as the source answers, and the source was asked for
each lookup that no earlier one served. -/
structure Mirrors (source : SpecSource α) (calls : List Call) (session : Session α) : Prop where
  answers : session.answers = calls.map (reply source)
  fetches : session.cache.fetches = misses source calls

/-- One call more keeps what the cache holds, how it answers and how often it asks. -/
theorem Mirrors.after {session : Session α} (holds : Holds source calls session.cache)
    (mirrors : Mirrors source calls session) (call : Call) :
    Holds source (calls ++ [call]) (session.after source call).cache ∧
      Mirrors source (calls ++ [call]) (session.after source call) := by
  have answered : ∀ answer, (session.cache.perform source call).1 = answer →
      answer = reply source call →
        (session.after source call).answers = (calls ++ [call]).map (reply source) := by
    rintro _ rfl same
    rw [Session.after, mirrors.answers, List.map_append, same, List.map_singleton]
  cases call with
  | invalidate =>
    refine ⟨holds_invalidate, ⟨answered none rfl rfl, ?_⟩⟩
    rw [misses_concat, ← mirrors.fetches]
    rfl
  | lookup key =>
    refine ⟨holds.lookup key, ?_⟩
    by_cases served : Served source calls key
    · have hit : isMiss source calls (.lookup key) = false := by simp [isMiss, served]
      have same := holds.lookup_served served
      refine ⟨answered (some (source.relay key)) ?_ rfl, ?_⟩
      · rw [perform, same]
        rfl
      · rw [misses_concat, hit, ← mirrors.fetches, Session.after, perform, same]
        rfl
    · have miss : isMiss source calls (.lookup key) = true := by simp [isMiss, served]
      obtain ⟨answer, asked, -⟩ := holds.lookup_missed served
      refine ⟨answered _ (congrArg some answer) rfl, ?_⟩
      rw [misses_concat, miss, ← mirrors.fetches]
      exact asked

/-- A cache answers as its source, and asks it only for what was not answered since it was last
emptied. -/
theorem mirrors_session (source : SpecSource α) (calls : List Call) :
    Mirrors source calls (session source calls) := by
  suffices Holds source calls (session source calls).cache ∧
      Mirrors source calls (session source calls) from this.2
  induction calls using List.reverseRecOn with
  | nil => exact ⟨fun _ => rfl, ⟨rfl, rfl⟩⟩
  | append_singleton calls call ih =>
    rw [session_concat]
    exact ih.2.after ih.1 call

/-- An error is asked for again, and that a key is not declared only after the cache was emptied. -/
example : misses (fun key => if key = "offline" then .error .unreadable else .ok none :
    SpecSource Rat) [.lookup "a", .lookup "a", .lookup "offline", .lookup "offline", .invalidate,
      .lookup "a"] = 4 := by decide

end SpecCache

end CrossPlan
