import CrossPlan.Execution.Run
import CrossPlan.Proofs.Channel.Content
import CrossPlan.Proofs.Execution.Graph

/-!
# How the steps of a run end

For each step of a run: when it ends without error, and what waits at the inputs afterwards.
-/

set_option autoImplicit false

namespace CrossPlan.RunStep

variable {α β γ : Type}

/-! ## Steps that end -/

/-- A step ends without error, and what is asked holds of its result and of the state after it. -/
def Ends (step : RunStep α β) (state : RunState α) (post : β → RunState α → Prop) : Prop :=
  ∃ value after, step.run.run state = (.ok value, after) ∧ post value after

namespace Ends

variable {step : RunStep α β} {state : RunState α} {post post' : β → RunState α → Prop}

theorem mono (ends : Ends step state post)
    (weaker : ∀ value after, post value after → post' value after) : Ends step state post' := by
  obtain ⟨value, after, run, holds⟩ := ends
  exact ⟨value, after, run, weaker value after holds⟩

theorem pure {value : β} (holds : post value state) :
    Ends (Pure.pure value : RunStep α β) state post :=
  ⟨value, state, rfl, holds⟩

theorem bind {next : β → RunStep α γ} {post : γ → RunState α → Prop}
    (ends : Ends step state fun value after => Ends (next value) after post) :
    Ends (step >>= next) state post := by
  obtain ⟨value, after, run, value', after', run', holds⟩ := ends
  refine ⟨value', after', ?_, holds⟩
  change (ExceptT.run (step >>= next)).run state = _
  rw [ExceptT.run_bind, StateT.run_bind, run]
  exact run'

theorem get {post : RunState α → RunState α → Prop} (holds : post state state) :
    Ends (MonadState.get : RunStep α (RunState α)) state post :=
  ⟨state, state, rfl, holds⟩

theorem set {changed : RunState α} {post : PUnit → RunState α → Prop} (holds : post ⟨⟩ changed) :
    Ends (MonadStateOf.set changed : RunStep α PUnit) state post :=
  ⟨⟨⟩, changed, rfl, holds⟩

theorem require {fault : RunFault} {found : Option β} {value : β} (some : found = some value)
    (holds : post value state) : Ends (RunStep.require fault found : RunStep α β) state post := by
  rw [some]
  exact pure holds

theorem forM {items : List γ} {body : γ → RunStep α Unit} (holds : List γ → RunState α → Prop)
    (start : holds [] state)
    (keeps : ∀ before item behind state, items = before ++ item :: behind → holds before state →
      Ends (body item) state fun _ after => holds (before ++ [item]) after) :
    Ends (items.forM body) state fun _ after => holds items after := by
  have run : ∀ before behind state, items = before ++ behind → holds before state →
      Ends (behind.forM body) state fun _ after => holds items after := by
    intro before behind
    induction behind generalizing before with
    | nil =>
      intro state same held
      rw [List.append_nil] at same
      subst same
      exact pure held
    | cons item rest ih =>
      intro state same held
      refine bind ((keeps before item rest state same held).mono fun _ after next => ?_)
      exact ih (before ++ [item]) after (by rw [same, List.append_assoc]; rfl) next
  exact run [] items state rfl start

theorem mapM {items : List γ} {body : γ → RunStep α β} (holds : List γ → List β → RunState α → Prop)
    (start : holds [] [] state)
    (keeps : ∀ before results item behind state, items = before ++ item :: behind →
      holds before results state →
      Ends (body item) state fun value after =>
        holds (before ++ [item]) (results ++ [value]) after) :
    Ends (items.mapM body) state fun results after => holds items results after := by
  have run : ∀ behind before results state, items = before ++ behind → holds before results state →
      Ends (behind.mapM body) state fun later after => holds items (results ++ later) after := by
    intro behind
    induction behind with
    | nil =>
      intro before results state same held
      rw [List.append_nil] at same
      subst same
      rw [List.mapM_nil]
      exact pure (by rwa [List.append_nil])
    | cons item rest ih =>
      intro before results state same held
      rw [List.mapM_cons]
      refine bind ((keeps before results item rest state same held).mono fun value after next => ?_)
      refine bind ((ih (before ++ [item]) (results ++ [value]) after
        (by rw [same, List.append_assoc]; rfl) next).mono fun later after last => ?_)
      rw [List.append_assoc] at last
      exact pure last
  exact (run items [] [] state rfl start).mono fun results after held => held

end Ends

/-! ## Bookkeeping -/

structure Untouched (before after : RunState α) : Prop where
  pending : after.pending = before.pending
  workspace : after.workspace = before.workspace

namespace Untouched

theorem refl (state : RunState α) : Untouched state state := ⟨rfl, rfl⟩

theorem trans {first second third : RunState α} (one : Untouched first second)
    (two : Untouched second third) : Untouched first third :=
  ⟨two.pending.trans one.pending, two.workspace.trans one.workspace⟩

end Untouched

variable {state : RunState α}

theorem ends_record (form : Form) (producer : Nat) (consumer : Option TaskSlot) :
    Ends (record form producer consumer) state fun _ after => Untouched state after :=
  ⟨_, _, rfl, rfl, rfl⟩

theorem ends_note (node : LineageNode α) (earlier : List Nat) :
    Ends (note node earlier) state fun _ after => Untouched state after :=
  ⟨_, _, rfl, rfl, rfl⟩

/-! ## Carrying rows -/

structure Holds (channel : Channel) (rows : List Record) : Prop where
  produced : channel.produced = true
  content : channel.content.Perm rows

variable {rows : List Record} {channel : Channel}

theorem ends_convert (settings : RunSettings α) (target : TaskSlot) {conversion : Conversion}
    (form : channel.form = conversion.source) (held : Holds channel rows) :
    Ends (RunStep.convert settings target channel conversion) state fun converted after =>
      Untouched state after ∧ converted.form = conversion.target ∧ Holds converted rows := by
  unfold RunStep.convert
  refine .bind ((ends_record _ _ _).mono fun id after same => ?_)
  obtain ⟨converted, success, form', produced, content⟩ :=
    Channel.convert_ok form held.produced id settings.parallelism
  rw [success]
  refine .bind ((ends_note _ _).mono fun node after' same' => ?_)
  exact .pure ⟨same.trans same', form', produced, content.trans held.content⟩

theorem ends_conversions (settings : RunSettings α) (target : TaskSlot) {steps : List Conversion}
    {arrived : Form} (chained : Conversion.chains steps channel.form arrived = true)
    (held : Holds channel rows) :
    Ends (steps.foldlM (RunStep.convert settings target) channel) state fun converted after =>
      Untouched state after ∧ Holds converted rows := by
  induction steps generalizing channel state with
  | nil => exact .pure ⟨.refl state, held⟩
  | cons step rest ih =>
    rw [Conversion.chains, Bool.and_eq_true, beq_iff_eq] at chained
    rw [List.foldlM_cons]
    refine .bind ((ends_convert settings target chained.1.symm held).mono ?_)
    rintro converted after ⟨same, form, held'⟩
    refine (ih (by rw [form]; exact chained.2) held').mono ?_
    exact fun value after' both => ⟨same.trans both.1, both.2⟩

variable {arriving : TaskSlot → List Record}

structure Arrived (arriving : TaskSlot → List Record) (before after : RunState α)
    (slots : List TaskSlot) : Prop where
  workspace : after.workspace = before.workspace
  pending : ∃ added, after.pending = before.pending ++ added ∧ added.map (·.1) = slots ∧
    ∀ entry ∈ added, Holds entry.2 (arriving entry.1)

theorem Arrived.of_untouched {before after : RunState α} (same : Untouched before after) :
    Arrived arriving before after [] :=
  ⟨same.workspace, [], by rw [same.pending, List.append_nil], rfl, by simp⟩

theorem Arrived.trans {first second third : RunState α} {slots slots' : List TaskSlot}
    (one : Arrived arriving first second slots) (two : Arrived arriving second third slots') :
    Arrived arriving first third (slots ++ slots') := by
  obtain ⟨added, same, names, held⟩ := one.pending
  obtain ⟨added', same', names', held'⟩ := two.pending
  refine ⟨two.workspace.trans one.workspace, added ++ added', ?_, ?_, ?_⟩
  · rw [same', same, List.append_assoc]
  · rw [List.map_append, names, names']
  · intro entry listed
    rcases List.mem_append.mp listed with first | second
    · exact held entry first
    · exact held' entry second

theorem Arrived.slots {before after : RunState α} {slots : List TaskSlot}
    (arrived : Arrived arriving before after slots) :
    after.pending.map (·.1) = before.pending.map (·.1) ++ slots := by
  obtain ⟨added, same, names, -⟩ := arrived.pending
  rw [same, List.map_append, names]

theorem lookup_eq_none {slot : TaskSlot} {pending : List (TaskSlot × Channel)}
    (free : slot ∉ pending.map (·.1)) : pending.lookup slot = none := by
  rw [List.lookup_eq_none_iff]
  intro entry listed
  rw [bne_iff_ne]
  rintro rfl
  exact free (List.mem_map_of_mem listed)

theorem ends_deliver (settings : RunSettings α) {target : JunctionTarget α} {arrived : Form}
    (chained : Conversion.chains target.conversions channel.form arrived = true)
    (held : Holds channel (arriving target.consumer))
    (free : target.consumer ∉ state.pending.map (·.1)) :
    Ends (RunStep.deliver settings target channel) state fun _ after =>
      Arrived arriving state after [target.consumer] := by
  unfold RunStep.deliver
  refine .bind ((ends_conversions settings target.consumer chained held).mono ?_)
  rintro converted after ⟨same, held'⟩
  refine .bind (.get (.bind (.set ?_)))
  have nothing : after.pending.lookup target.consumer = none :=
    lookup_eq_none (by rw [same.pending]; exact free)
  rw [nothing]
  refine .pure ⟨same.workspace, [(target.consumer, converted)], ?_, rfl, ?_⟩
  · rw [same.pending]
  · intro entry listed
    rw [List.mem_singleton.mp listed]
    exact held'

theorem ends_copies (channel : Channel) (targets : List (JunctionTarget α)) :
    Ends (RunStep.copies channel targets) state fun entries after =>
      Untouched state after ∧ entries.map (·.1) = targets ∧
        ∀ entry ∈ entries, entry.2.form = channel.form ∧ entry.2.data = channel.data := by
  induction targets generalizing state with
  | nil => exact .pure ⟨.refl state, rfl, by simp⟩
  | cons target rest ih =>
    cases rest with
    | nil => exact .pure ⟨.refl state, rfl, by simp⟩
    | cons next rest =>
      unfold RunStep.copies
      refine .bind ((ends_record _ _ _).mono fun id after same => .bind (ih.mono ?_))
      rintro entries after' ⟨same', names, alike⟩
      refine .pure ⟨same.trans same', by rw [List.map_cons, names], ?_⟩
      intro entry listed
      rcases List.mem_cons.mp listed with rfl | later
      · exact ⟨rfl, rfl⟩
      · exact alike entry later

theorem Holds.of_data {other : Channel} (held : Holds channel rows)
    (same : other.data = channel.data) : Holds other rows := by
  obtain ⟨produced, content⟩ := held
  refine ⟨?_, ?_⟩
  · rw [Channel.produced, same]
    exact produced
  · rw [Channel.content, same]
    exact content

theorem ends_route (settings : RunSettings α) {junction : Junction α}
    (form : channel.form = junction.form) (read : junction.targets ≠ [])
    (chained : ∀ target ∈ junction.targets, ∃ arrived,
      Conversion.chains target.conversions junction.form arrived = true)
    (held : ∀ target ∈ junction.targets, Holds channel (arriving target.consumer))
    (distinct : (state.pending.map (·.1) ++ junction.targets.map (·.consumer)).Nodup) :
    Ends (RunStep.route settings junction channel) state fun _ after =>
      Arrived arriving state after (junction.targets.map (·.consumer)) := by
  unfold RunStep.route
  rw [if_neg (by simpa using read)]
  refine .bind ((ends_copies channel junction.targets).mono ?_)
  rintro entries between ⟨same, names, alike⟩
  refine (Ends.forM (fun done after =>
    Arrived arriving state after (done.map fun entry => entry.1.consumer))
      (.of_untouched same) ?_).mono ?_
  · rintro before ⟨target, copy⟩ behind current split arrived
    have listed : (target, copy) ∈ entries := by
      rw [split]
      exact List.mem_append_right _ List.mem_cons_self
    have among : target ∈ junction.targets := names ▸ List.mem_map_of_mem listed
    obtain ⟨form', data⟩ := alike _ listed
    obtain ⟨ending, chain⟩ := chained target among
    have free : target.consumer ∉ current.pending.map (·.1) := by
      rw [arrived.slots]
      have whole : junction.targets.map (·.consumer) =
          before.map (fun entry => entry.1.consumer) ++
            target.consumer :: behind.map fun entry => entry.1.consumer := by
        rw [← names, split, List.map_map, List.map_append, List.map_cons]
        rfl
      rw [whole, ← List.append_assoc] at distinct
      exact fun taken => (List.nodup_append.mp distinct).2.2 _ taken _ List.mem_cons_self rfl
    rw [List.map_append]
    dsimp only at form' data
    refine (ends_deliver settings (by rw [form', form]; exact chain) ((held target among).of_data
      data) free).mono ?_
    exact fun _ after next => arrived.trans next
  · intro _ after arrived
    have consumers : entries.map (fun entry => entry.1.consumer) =
        junction.targets.map (·.consumer) := by
      rw [← names, List.map_map]
      rfl
    rw [← consumers]
    exact arrived

theorem ends_emitOutput [Quantity α] (settings : RunSettings α) {plan : ExecutionPlan α}
    (task : CrossPlan.Task α) (main slot : Nat) {junction : Junction α}
    (found : plan.junctionFrom? ⟨task.id, slot⟩ = some junction)
    (form : channel.form = junction.form) (read : junction.targets ≠ [])
    (chained : ∀ target ∈ junction.targets, ∃ arrived,
      Conversion.chains target.conversions junction.form arrived = true)
    (produced : channel.produced = true)
    (held : ∀ target ∈ junction.targets, Holds channel (arriving target.consumer))
    (distinct : (state.pending.map (·.1) ++ junction.targets.map (·.consumer)).Nodup) :
    Ends (RunStep.emitOutput settings plan task main channel slot) state fun _ after =>
      Arrived arriving state after (junction.targets.map (·.consumer)) := by
  unfold RunStep.emitOutput
  simp only [produced, Bool.not_true, Bool.false_eq_true, if_false]
  refine .bind ((ends_note _ _).mono fun node between same => .bind (.require found ?_))
  have form' : (channel.withLineage node).form = junction.form := form
  have held' : ∀ target ∈ junction.targets,
      Holds (channel.withLineage node) (arriving target.consumer) :=
    fun target listed => (held target listed).of_data rfl
  rw [← same.pending] at distinct
  refine (ends_route settings form' read chained held' distinct).mono ?_
  exact fun _ after arrived => (Arrived.of_untouched same).trans arrived

/-! ## Inputs and outputs of a task -/

theorem lookup_of_mem {slot : TaskSlot} {pending : List (TaskSlot × Channel)}
    (distinct : (pending.map (·.1)).Nodup) (present : (slot, channel) ∈ pending) :
    pending.lookup slot = some channel := by
  induction pending with
  | nil => cases present
  | cons entry rest ih =>
    obtain ⟨other, waiting⟩ := entry
    rw [List.map_cons, List.nodup_cons] at distinct
    rw [List.lookup_cons]
    rcases List.mem_cons.mp present with same | later
    · cases same
      rw [beq_self_eq_true]
    · have different : slot ≠ other := by
        rintro rfl
        exact distinct.1 (List.mem_map.mpr ⟨_, later, rfl⟩)
      rw [beq_false_of_ne different]
      exact ih distinct.2 later

theorem ends_take {slot : TaskSlot} (operator : String)
    (distinct : (state.pending.map (·.1)).Nodup) (present : (slot, channel) ∈ state.pending)
    (produced : channel.produced = true) :
    Ends (RunStep.take slot operator) state fun taken after => taken = channel ∧
      after.pending = state.pending.filter (fun entry => entry.1 != slot) ∧
      after.workspace = state.workspace := by
  unfold RunStep.take
  refine .bind (.get (.bind (.require (lookup_of_mem distinct present) (.bind (.set ?_)))))
  rw [produced]
  exact .pure ⟨rfl, rfl, rfl⟩

/-- A task takes the channels that wait at its inputs. -/
theorem ends_takes (task count : Nat) (operator : String)
    (distinct : (state.pending.map (·.1)).Nodup)
    (present : ∀ slot, slot < count → ∃ channel, (⟨task, slot⟩, channel) ∈ state.pending ∧
      Holds channel (arriving ⟨task, slot⟩)) :
    Ends ((List.range count).mapM fun slot => RunStep.take ⟨task, slot⟩ operator) state
      fun channels after =>
        List.Forall₂ (fun slot channel => Holds channel (arriving ⟨task, slot⟩)) (List.range count)
          channels ∧
        after.pending = state.pending.filter (fun entry =>
          !decide (entry.1.task = task ∧ entry.1.slot ∈ List.range count)) ∧
        after.workspace = state.workspace := by
  refine Ends.mapM (fun before channels after =>
    List.Forall₂ (fun slot channel => Holds channel (arriving ⟨task, slot⟩)) before channels ∧
      after.pending = state.pending.filter (fun entry =>
        !decide (entry.1.task = task ∧ entry.1.slot ∈ before)) ∧
      after.workspace = state.workspace) ⟨.nil, by simp, rfl⟩ ?_
  rintro before channels slot behind current split ⟨held, left, workspace⟩
  have within : slot < count := by
    rw [← List.mem_range, split]
    exact List.mem_append_right _ List.mem_cons_self
  have fresh : slot ∉ before := by
    have apart := List.nodup_range (n := count)
    rw [split] at apart
    exact fun old => (List.nodup_append.mp apart).2.2 _ old _ List.mem_cons_self rfl
  obtain ⟨channel, waits, holds⟩ := present slot within
  have waits' : (⟨task, slot⟩, channel) ∈ current.pending := by
    rw [left, List.mem_filter]
    exact ⟨waits, by simp [fresh]⟩
  have distinct' : (current.pending.map (·.1)).Nodup := by
    rw [left]
    exact distinct.sublist (List.filter_sublist.map _)
  refine (ends_take operator distinct' waits' holds.produced).mono ?_
  rintro taken after ⟨rfl, left', workspace'⟩
  refine ⟨List.rel_append held (.cons holds .nil), ?_, workspace'.trans workspace⟩
  rw [left', left, List.filter_filter]
  refine List.filter_congr fun entry _ => ?_
  obtain ⟨⟨other, place⟩, waiting⟩ := entry
  rw [Bool.eq_iff_iff]
  simp only [bne_iff_ne, ne_eq, TaskSlot.mk.injEq, Bool.and_eq_true, Bool.not_eq_true',
    decide_eq_false_iff_not, List.mem_append, List.mem_singleton]
  tauto

theorem ends_createOutputs (plan : ExecutionPlan α) (task count : Nat) (operator : String)
    (found : ∀ slot, slot < count → ∃ junction, plan.junctionFrom? ⟨task, slot⟩ = some junction) :
    Ends ((List.range count).mapM fun slot => RunStep.createOutput plan ⟨task, slot⟩ operator) state
      fun outputs after =>
        List.Forall₂ (fun slot output => ∃ junction,
          plan.junctionFrom? ⟨task, slot⟩ = some junction ∧ output.form = junction.form)
          (List.range count) outputs ∧ Untouched state after := by
  refine Ends.mapM (fun before outputs after => List.Forall₂ (fun slot (output : Channel) =>
    ∃ junction, plan.junctionFrom? ⟨task, slot⟩ = some junction ∧ output.form = junction.form)
      before outputs ∧ Untouched state after) ⟨.nil, .refl state⟩ ?_
  rintro before outputs slot behind current split ⟨held, same⟩
  have within : slot < count := by
    rw [← List.mem_range, split]
    exact List.mem_append_right _ List.mem_cons_self
  obtain ⟨junction, here⟩ := found slot within
  unfold RunStep.createOutput
  refine .bind (.require here (.bind ((ends_record _ _ _).mono fun id after same' => .pure ?_)))
  exact ⟨List.rel_append held (.cons ⟨junction, here, rfl⟩ .nil), same.trans same'⟩

theorem ends_evaluate (settings : RunSettings α) (task : CrossPlan.Task α)
    {inputs outputs : List Channel} {evaluation : Evaluation α} {workspace : Workspace}
    (success : task.operator.evaluate (contextOf settings task) inputs outputs state.workspace =
      .ok (evaluation, workspace)) :
    Ends (RunStep.evaluate settings task inputs outputs) state fun value after =>
      value = evaluation ∧ after.pending = state.pending ∧ after.workspace = workspace := by
  unfold RunStep.evaluate
  refine .bind (.get ?_)
  simp only [success]
  exact .bind (.set (.pure ⟨rfl, rfl, rfl⟩))

end CrossPlan.RunStep
