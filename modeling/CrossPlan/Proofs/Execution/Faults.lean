import CrossPlan.Proofs.Execution.Steps

/-!
# How the steps of a run end or fail

A step may also fail, with errors that are allowed beforehand.  A task that takes its inputs can
find one of them missing, and a channel that is carried on can find its reader fed.
-/

set_option autoImplicit false

namespace CrossPlan.RunStep

open Sequence

variable {α β γ : Type}

/-- A step ends as asked, or fails with an error that is allowed. -/
def Leads (allowed : RunError → Prop) (step : RunStep α β) (state : RunState α)
    (post : β → RunState α → Prop) : Prop :=
  match step.run.run state with
  | (.ok value, after) => post value after
  | (.error error, _) => allowed error

theorem Ends.leads {step : RunStep α β} {state : RunState α} {post : β → RunState α → Prop}
    (ends : Ends step state post) (allowed : RunError → Prop) : Leads allowed step state post := by
  obtain ⟨value, after, run, holds⟩ := ends
  rw [Leads, run]
  exact holds

namespace Leads

variable {allowed : RunError → Prop} {step : RunStep α β} {state : RunState α}
  {post post' : β → RunState α → Prop}

theorem mono (leads : Leads allowed step state post)
    (weaker : ∀ value after, post value after → post' value after) :
    Leads allowed step state post' := by
  unfold Leads at leads ⊢
  split at leads
  · exact weaker _ _ leads
  · exact leads

theorem pure {value : β} (holds : post value state) :
    Leads allowed (Pure.pure value : RunStep α β) state post :=
  holds

theorem throw {error : RunError} (may : allowed error) :
    Leads allowed (MonadExcept.throw error : RunStep α β) state post :=
  may

theorem bind {next : β → RunStep α γ} {post : γ → RunState α → Prop}
    (leads : Leads allowed step state fun value after => Leads allowed (next value) after post) :
    Leads allowed (step >>= next) state post := by
  unfold Leads at leads ⊢
  rw [ExceptT.run_bind, StateT.run_bind]
  split at leads
  · next value after same =>
    rw [same]
    exact leads
  · next error after same =>
    rw [same]
    exact leads

theorem get {post : RunState α → RunState α → Prop} (holds : post state state) :
    Leads allowed (MonadState.get : RunStep α (RunState α)) state post :=
  holds

theorem set {changed : RunState α} {post : PUnit → RunState α → Prop} (holds : post ⟨⟩ changed) :
    Leads allowed (MonadStateOf.set changed : RunStep α PUnit) state post :=
  holds

theorem forM {items : List γ} {body : γ → RunStep α Unit} (holds : List γ → RunState α → Prop)
    (start : holds [] state)
    (keeps : ∀ before item behind state, items = before ++ item :: behind → holds before state →
      Leads allowed (body item) state fun _ after => holds (before ++ [item]) after) :
    Leads allowed (items.forM body) state fun _ after => holds items after := by
  have run : ∀ before behind state, items = before ++ behind → holds before state →
      Leads allowed (behind.forM body) state fun _ after => holds items after := by
    intro before behind
    induction behind generalizing before with
    | nil =>
      intro state same held
      rw [List.append_nil] at same
      subst same
      exact pure held
    | cons item rest ih =>
      intro state same held
      refine bind ((keeps before item rest state same held).mono fun _ after next => ?_)
      exact ih (before ++ [item]) after (by rw [same, List.append_assoc]; rfl) next
  exact run [] items state rfl start

theorem mapM {items : List γ} {body : γ → RunStep α β} (holds : List γ → List β → RunState α → Prop)
    (start : holds [] [] state)
    (keeps : ∀ before results item behind state, items = before ++ item :: behind →
      holds before results state →
      Leads allowed (body item) state fun value after =>
        holds (before ++ [item]) (results ++ [value]) after) :
    Leads allowed (items.mapM body) state fun results after => holds items results after := by
  have run : ∀ behind before results state, items = before ++ behind → holds before results state →
      Leads allowed (behind.mapM body) state fun later after =>
        holds items (results ++ later) after := by
    intro behind
    induction behind with
    | nil =>
      intro before results state same held
      rw [List.append_nil] at same
      subst same
      rw [List.mapM_nil]
      exact pure (by rwa [List.append_nil])
    | cons item rest ih =>
      intro before results state same held
      rw [List.mapM_cons]
      refine bind ((keeps before results item rest state same held).mono fun value after next => ?_)
      refine bind ((ih (before ++ [item]) (results ++ [value]) after
        (by rw [same, List.append_assoc]; rfl) next).mono fun later after last => ?_)
      rw [List.append_assoc] at last
      exact pure last
  exact run items [] [] state rfl start

end Leads

variable {allowed : RunError → Prop} {state : RunState α} {channel : Channel}

/-! ## Taking inputs -/

def Filled (state : RunState α) : Prop := ∀ entry ∈ state.pending, entry.2.produced = true

def waiting (state : RunState α) : List TaskSlot := state.pending.map (·.1)

theorem leads_take {slot : TaskSlot} {operator : String} (filled : Filled state)
    (missing : slot ∉ waiting state → allowed (.internal (.missingInput slot operator))) :
    Leads allowed (take slot operator) state fun taken after =>
      slot ∈ waiting state ∧ taken.produced = true ∧
        after.pending = state.pending.filter fun entry => entry.1 != slot := by
  unfold take
  refine .bind (.get ?_)
  cases found : state.pending.lookup slot with
  | none =>
    refine .bind (.throw (missing fun waits => ?_))
    obtain ⟨entry, listed, rfl⟩ := List.mem_map.mp waits
    simpa using List.lookup_eq_none_iff.mp found entry listed
  | some taken =>
    have present := mem_of_lookup found
    have produced := filled _ present
    refine .bind (.pure (.bind (.set ?_)))
    rw [produced]
    exact .pure ⟨List.mem_map_of_mem present, produced, rfl⟩

/-- A task takes the channels that wait at its inputs, or one of them is missing. -/
theorem leads_takes {task count : Nat} {operator : String} (filled : Filled state)
    (missing : ∀ slot, slot < count → ⟨task, slot⟩ ∉ waiting state →
      allowed (.internal (.missingInput ⟨task, slot⟩ operator))) :
    Leads allowed ((List.range count).mapM fun slot => take ⟨task, slot⟩ operator) state
      fun channels after => channels.length = count ∧
        (∀ channel ∈ channels, channel.produced = true) ∧
        (∀ slot, slot < count → ⟨task, slot⟩ ∈ waiting state) ∧
        after.pending = state.pending.filter fun entry =>
          !decide (entry.1.task = task ∧ entry.1.slot < count) := by
  refine (Leads.mapM (fun before (channels : List Channel) after =>
    channels.length = before.length ∧ (∀ channel ∈ channels, channel.produced = true) ∧
      (∀ slot ∈ before, ⟨task, slot⟩ ∈ waiting state) ∧
      after.pending = state.pending.filter fun entry =>
        !decide (entry.1.task = task ∧ entry.1.slot ∈ before)) (by simp) ?_).mono ?_
  · rintro before channels slot behind current split ⟨length, produced, waited, left⟩
    have within : slot < count := by
      rw [← List.mem_range, split]
      exact List.mem_append_right _ List.mem_cons_self
    have fresh : slot ∉ before := by
      have apart := List.nodup_range (n := count)
      rw [split] at apart
      exact fun old => (List.nodup_append.mp apart).2.2 _ old _ List.mem_cons_self rfl
    have same : ⟨task, slot⟩ ∈ waiting current ↔ ⟨task, slot⟩ ∈ waiting state := by
      simp [waiting, left, fresh]
    have filled' : Filled current := by
      intro entry listed
      rw [left] at listed
      exact filled entry (List.mem_filter.mp listed).1
    refine (leads_take filled' fun absent => missing slot within (mt same.mpr absent)).mono ?_
    rintro taken after ⟨waits, own, left'⟩
    refine ⟨by simp [length], ?_, ?_, ?_⟩
    · intro channel listed
      rcases List.mem_append.mp listed with old | new
      · exact produced channel old
      · rwa [List.mem_singleton.mp new]
    · intro other listed
      rcases List.mem_append.mp listed with old | new
      · exact waited other old
      · rw [List.mem_singleton.mp new]
        exact same.mp waits
    · rw [left', left, List.filter_filter]
      refine List.filter_congr fun entry _ => ?_
      obtain ⟨⟨other, place⟩, waiting⟩ := entry
      rw [Bool.eq_iff_iff]
      simp only [bne_iff_ne, ne_eq, TaskSlot.mk.injEq, Bool.and_eq_true, Bool.not_eq_true',
        decide_eq_false_iff_not, List.mem_append, List.mem_singleton]
      tauto
  · rintro channels after ⟨length, produced, waited, left⟩
    simp only [List.length_range, List.mem_range] at length waited left
    exact ⟨length, produced, waited, left⟩

/-! ## Carrying outputs on -/

structure Queued (before after : RunState α) (slots : List TaskSlot) : Prop where
  waiting : waiting after = waiting before ++ slots
  filled : Filled before → Filled after

namespace Queued

theorem of_untouched {before after : RunState α} (same : Untouched before after) :
    Queued before after [] :=
  ⟨by rw [RunStep.waiting, RunStep.waiting, same.pending, List.append_nil],
    fun filled => by rwa [Filled, same.pending]⟩

theorem trans {first second third : RunState α} {slots slots' : List TaskSlot}
    (one : Queued first second slots) (two : Queued second third slots') :
    Queued first third (slots ++ slots') :=
  ⟨by rw [two.waiting, one.waiting, List.append_assoc],
    fun filled => two.filled (one.filled filled)⟩

end Queued

/-- Slots may be fed behind others, if being fed twice is allowed wherever one of them comes
again. -/
def Admits (allowed : RunError → Prop) (fed slots : List TaskSlot) : Prop :=
  ∀ before slot behind, slots = before ++ slot :: behind → slot ∈ fed ++ before →
    allowed (.internal (.fedTwice slot))

theorem Admits.part {fed before slots behind : List TaskSlot}
    (admits : Admits allowed fed (before ++ slots ++ behind)) :
    Admits allowed (fed ++ before) slots := by
  rintro first slot second rfl listed
  refine admits (before ++ first) slot (second ++ behind) (by simp) ?_
  rwa [← List.append_assoc]

theorem leads_deliver (settings : RunSettings α) {target : JunctionTarget α} {arrived : Form}
    (chained : Conversion.chains target.conversions channel.form arrived = true)
    (produced : channel.produced = true)
    (twice : target.consumer ∈ waiting state → allowed (.internal (.fedTwice target.consumer))) :
    Leads allowed (deliver settings target channel) state fun _ after =>
      Queued state after [target.consumer] := by
  have held : Holds channel channel.content := ⟨produced, List.Perm.refl _⟩
  unfold deliver
  refine .bind (((ends_conversions settings target.consumer chained held).leads allowed).mono ?_)
  rintro converted between ⟨same, held'⟩
  refine .bind (.get (.bind (.set ?_)))
  cases found : between.pending.lookup target.consumer with
  | some earlier =>
    refine .throw (twice ?_)
    rw [waiting, ← same.pending]
    exact List.mem_map_of_mem (mem_of_lookup found)
  | none =>
    refine .pure ⟨?_, fun filled entry listed => ?_⟩
    · rw [waiting, waiting, ← same.pending, List.map_append]
      rfl
    · rcases List.mem_append.mp listed with old | new
      · exact filled entry (same.pending ▸ old)
      · rw [List.mem_singleton.mp new]
        exact held'.produced

theorem leads_route (settings : RunSettings α) {junction : Junction α}
    (form : channel.form = junction.form) (read : junction.targets ≠ [])
    (chained : ∀ target ∈ junction.targets, ∃ arrived,
      Conversion.chains target.conversions junction.form arrived = true)
    (produced : channel.produced = true)
    (admits : Admits allowed (waiting state) (junction.targets.map (·.consumer))) :
    Leads allowed (route settings junction channel) state fun _ after =>
      Queued state after (junction.targets.map (·.consumer)) := by
  unfold route
  rw [if_neg (by simpa using read)]
  refine .bind (((ends_copies channel junction.targets).leads allowed).mono ?_)
  rintro entries between ⟨same, names, alike⟩
  have consumers : entries.map (fun entry => entry.1.consumer) =
      junction.targets.map (·.consumer) := by
    rw [← names, List.map_map]
    rfl
  rw [← consumers] at admits ⊢
  refine Leads.forM (fun (done : List (JunctionTarget α × Channel)) after =>
    Queued state after (done.map fun entry => entry.1.consumer)) (.of_untouched same) ?_
  rintro before ⟨target, copy⟩ behind current split queued
  have listed : (target, copy) ∈ entries := by
    rw [split]
    exact List.mem_append_right _ List.mem_cons_self
  obtain ⟨form', data⟩ := alike _ listed
  obtain ⟨arrived, chain⟩ := chained target (names ▸ List.mem_map_of_mem listed)
  dsimp only at form' data
  have produced' : copy.produced = true := by
    rw [Channel.produced, data]
    exact produced
  rw [List.map_append]
  refine (leads_deliver settings (by rw [form', form]; exact chain) produced' fun again => ?_).mono
    fun _ after next => queued.trans next
  rw [queued.waiting] at again
  refine admits _ _ (behind.map fun entry => entry.1.consumer) ?_ again
  rw [split, List.map_append, List.map_cons]

theorem leads_evaluate (settings : RunSettings α) {task : CrossPlan.Task α}
    {inputs outputs : List Channel}
    (may : ∀ source, allowed (.execution task.id task.operator.name task.operator.platform
      (inputs.map fun channel => (channel.id, channel.form))
      (outputs.map fun channel => (channel.id, channel.form)) source)) :
    Leads allowed (evaluate settings task inputs outputs) state fun evaluation after =>
      after.pending = state.pending ∧ ∃ workspace,
        task.operator.evaluate (contextOf settings task) inputs outputs state.workspace =
          .ok (evaluation, workspace) := by
  unfold evaluate
  refine .bind (.get ?_)
  dsimp only
  split
  · next evaluation workspace success =>
    exact .bind (.set (.pure ⟨rfl, workspace, success⟩))
  · next source failed => exact .throw (may source)

variable [Quantity α]

theorem leads_emitOutput (settings : RunSettings α) {plan : ExecutionPlan α}
    {task : CrossPlan.Task α} {main slot : Nat} {junction : Junction α}
    (found : plan.junctionFrom? ⟨task.id, slot⟩ = some junction)
    (form : channel.form = junction.form) (read : junction.targets ≠ [])
    (chained : ∀ target ∈ junction.targets, ∃ arrived,
      Conversion.chains target.conversions junction.form arrived = true)
    (produced : channel.produced = true)
    (admits : Admits allowed (waiting state) (junction.targets.map (·.consumer))) :
    Leads allowed (emitOutput settings plan task main channel slot) state fun _ after =>
      Queued state after (junction.targets.map (·.consumer)) := by
  unfold emitOutput
  simp only [produced, Bool.not_true, Bool.false_eq_true, if_false]
  refine .bind (((ends_note _ _).leads allowed).mono fun node between same => .bind ?_)
  rw [found]
  refine .pure ?_
  have admits' : Admits allowed (waiting between) (junction.targets.map (·.consumer)) := by
    rwa [waiting, same.pending]
  have form' : (channel.withLineage node).form = junction.form := form
  have produced' : (channel.withLineage node).produced = true := produced
  exact (leads_route settings form' read chained produced' admits').mono fun _ after queued =>
    (Queued.of_untouched same).trans queued

end CrossPlan.RunStep
