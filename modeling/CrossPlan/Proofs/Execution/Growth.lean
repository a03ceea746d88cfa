import CrossPlan.Proofs.Execution.History

/-!
# What the steps of a run add

Channels are recorded in the order in which they are made, under consecutive numbers.  For each step
that ends without error: which channels it made, and what came to wait behind what waited before.
-/

set_option autoImplicit false

namespace CrossPlan

variable {α β : Type}

/-! ## Records of channels -/

structure Making where
  form : Form
  producer : Nat
  consumer : Option TaskSlot
  deriving DecidableEq

def CreatedChannel.making (channel : CreatedChannel) : Making :=
  ⟨channel.form, channel.producer, channel.consumer⟩

def Making.numbered (first : Nat) (makings : List Making) : List CreatedChannel :=
  (makings.zipIdx first).map fun (making, id) =>
    ⟨id, making.form, making.producer, making.consumer⟩

namespace Making

@[simp]
theorem length_numbered (first : Nat) (makings : List Making) :
    (numbered first makings).length = makings.length := by
  rw [numbered, List.length_map, List.length_zipIdx]

theorem numbered_append (first : Nat) (makings more : List Making) :
    numbered first (makings ++ more) =
      numbered first makings ++ numbered (first + makings.length) more := by
  rw [numbered, List.zipIdx_append, List.map_append]
  rfl

theorem map_making_numbered (first : Nat) (makings : List Making) :
    (numbered first makings).map CreatedChannel.making = makings := by
  rw [numbered, List.map_map]
  exact List.zipIdx_map_fst first makings

theorem map_id_numbered (first : Nat) (makings : List Making) :
    (numbered first makings).map (·.id) = List.range' first makings.length := by
  rw [numbered, List.map_map]
  exact List.zipIdx_map_snd first makings

end Making

def Junction.original (junction : Junction α) : Making :=
  ⟨junction.form, junction.producer.task, none⟩

def Junction.copied (junction : Junction α) : List Making :=
  junction.targets.dropLast.map fun target =>
    ⟨junction.form, junction.producer.task, some target.consumer⟩

def JunctionTarget.converted (target : JunctionTarget α) (producer : Nat) : List Making :=
  target.conversions.map fun step => ⟨step.target, producer, some target.consumer⟩

def Junction.routed (junction : Junction α) : List Making :=
  junction.copied ++ junction.targets.flatMap fun target =>
    target.converted junction.producer.task

/-! ## Numbers in hand -/

/-- Numbers are held once each; they were in hand before, or were given out between two bounds. -/
structure Owned (low high : Nat) (held numbers : List Nat) : Prop where
  nodup : numbers.Nodup
  known : ∀ number ∈ numbers, number ∈ held ∨ (low ≤ number ∧ number < high)

namespace Owned

variable {low mid high : Nat} {held held' numbers numbers' : List Nat}

theorem nil (low high : Nat) : Owned low high [] [] := ⟨List.nodup_nil, by simp⟩

theorem kept (low high number : Nat) : Owned low high [number] [number] :=
  ⟨List.nodup_singleton number, fun _ listed => Or.inl listed⟩

theorem fresh {number : Nat} (above : low ≤ number) (below : number < high) :
    Owned low high held [number] := by
  refine ⟨List.nodup_singleton number, fun other listed => ?_⟩
  rw [List.mem_singleton.mp listed]
  exact Or.inr ⟨above, below⟩

theorem mono {low' high' : Nat} (owned : Owned low high held numbers) (lower : low' ≤ low)
    (higher : high ≤ high') : Owned low' high' held numbers := by
  refine ⟨owned.nodup, fun number listed => ?_⟩
  rcases owned.known number listed with old | new
  · exact Or.inl old
  · exact Or.inr ⟨lower.trans new.1, new.2.trans_le higher⟩

theorem trans (first : Owned low mid held numbers) (second : Owned mid high numbers numbers')
    (rises : low ≤ mid) (rises' : mid ≤ high) : Owned low high held numbers' := by
  refine ⟨second.nodup, fun number listed => ?_⟩
  rcases second.known number listed with old | new
  · exact (first.mono le_rfl rises').known number old
  · exact Or.inr ⟨rises.trans new.1, new.2⟩

/-- What two steps hold of different numbers is different. -/
theorem append (first : Owned low mid held numbers) (second : Owned mid high held' numbers')
    (rises : low ≤ mid) (rises' : mid ≤ high) (apart : held.Disjoint held')
    (old : ∀ number ∈ held ++ held', number < low) :
    Owned low high (held ++ held') (numbers ++ numbers') := by
  refine ⟨List.nodup_append.mpr ⟨first.nodup, second.nodup, ?_⟩, fun number listed => ?_⟩
  · rintro number one _ two rfl
    rcases first.known number one with before | before <;>
      rcases second.known number two with after | after
    · exact apart before after
    · have := old number (List.mem_append_left _ before)
      omega
    · have := old number (List.mem_append_right _ after)
      omega
    · omega
  · rcases List.mem_append.mp listed with one | two
    · rcases first.known number one with before | new
      · exact Or.inl (List.mem_append_left _ before)
      · exact Or.inr ⟨new.1, new.2.trans_le rises'⟩
    · rcases second.known number two with before | new
      · exact Or.inl (List.mem_append_right _ before)
      · exact Or.inr ⟨rises.trans new.1, new.2⟩

end Owned

namespace RunStep

/-! ## Steps that grow a state -/

/-- Where a step ends without error, what is asked holds of its result and of the state after it. -/
abbrev Yields (step : RunStep α β) (state : RunState α) (post : β → RunState α → Prop) : Prop :=
  Leads (fun _ => True) step state post

theorem Leads.of_run {allowed : RunError → Prop} {step : RunStep α β} {state after : RunState α}
    {post : β → RunState α → Prop} {value : β} (leads : Leads allowed step state post)
    (run : step.run.run state = (.ok value, after)) : post value after := by
  rwa [Leads, run] at leads

theorem Idle.yields {step : RunStep α β} (idle : Idle step) (state : RunState α) :
    Yields step state fun _ after => after.workspace = state.workspace := by
  have leads := idle state
  unfold Leads at leads
  rw [Yields, Leads]
  split
  · next run => rwa [run] at leads
  · exact trivial

/-- Channels were made, and some came to wait behind those that waited before. -/
structure Grows (makings : List Making) (added : List (TaskSlot × Channel))
    (before after : RunState α) : Prop where
  workspace : after.workspace = before.workspace
  created : after.created = before.created ++ Making.numbered before.created.length makings
  pending : after.pending = before.pending ++ added
  distinct : (before.pending.map (·.1)).Nodup → (after.pending.map (·.1)).Nodup

namespace Grows

variable {makings makings' : List Making} {added added' : List (TaskSlot × Channel)}
  {first second third : RunState α}

theorem refl (state : RunState α) : Grows [] [] state state :=
  ⟨rfl, (List.append_nil _).symm, (List.append_nil _).symm, id⟩

theorem length (grows : Grows makings added first second) :
    second.created.length = first.created.length + makings.length := by
  rw [grows.created, List.length_append, Making.length_numbered]

theorem rises (grows : Grows makings added first second) :
    first.created.length ≤ second.created.length := by
  rw [grows.length]
  exact Nat.le_add_right _ _

theorem trans (one : Grows makings added first second)
    (two : Grows makings' added' second third) :
    Grows (makings ++ makings') (added ++ added') first third where
  workspace := two.workspace.trans one.workspace
  created := by
    rw [two.created, one.length, one.created, Making.numbered_append, List.append_assoc]
  pending := by rw [two.pending, one.pending, List.append_assoc]
  distinct := fun distinct => two.distinct (one.distinct distinct)

end Grows

variable {state : RunState α}

theorem yields_record (form : Form) (producer : Nat) (consumer : Option TaskSlot) :
    Yields (record form producer consumer) state fun id after =>
      id = state.created.length ∧ Grows [⟨form, producer, consumer⟩] [] state after :=
  ⟨rfl, rfl, rfl, (List.append_nil _).symm, id⟩

theorem yields_note (node : LineageNode α) (earlier : List Nat) :
    Yields (note node earlier) state fun _ after => Grows [] [] state after :=
  ⟨rfl, (List.append_nil _).symm, (List.append_nil _).symm, id⟩

/-! ## Carrying an output on -/

structure Passed (channel arrived : Channel) (form : Form) : Prop where
  form : arrived.form = form
  producer : arrived.producer = channel.producer
  content : arrived.content.Perm channel.content

end RunStep

namespace Channel

open RunStep

theorem produced_of_rows {channel : Channel} {rows : List Record}
    (found : channel.rows = .ok rows) : channel.produced = true := by
  unfold Channel.rows at found
  unfold Channel.produced
  cases same : channel.data with
  | empty => simp [same] at found
  | rows rows => rfl
  | parts parts => rfl

theorem passed_convert {channel converted : Channel} {conversion : Conversion}
    {id parallelism : Nat} (success : channel.convert conversion id parallelism = .ok converted) :
    converted.id = id ∧ Passed channel converted conversion.target := by
  have form : channel.form = conversion.source := by
    by_contra different
    rw [convert, if_pos (Ne.symm different)] at success
    cases success
  have unfolded := success
  rw [convert, if_neg (not_not.mpr form.symm)] at unfolded
  obtain ⟨rows, found, made⟩ := Sequence.bind_ok_iff.mp unfolded
  obtain ⟨other, same, form', -, content⟩ :=
    convert_ok form (produced_of_rows found) id parallelism
  obtain rfl := Except.ok.inj (success.symm.trans same)
  refine ⟨?_, form', ?_, content⟩
  · cases conversion <;> (cases made; rfl)
  · cases conversion <;> (cases made; rfl)

end Channel

namespace RunStep

variable {state : RunState α} {channel : Channel}

theorem yields_convert (settings : RunSettings α) (target : TaskSlot) (conversion : Conversion) :
    Yields (convert settings target channel conversion) state fun converted after =>
      Grows [⟨conversion.target, channel.producer, some target⟩] [] state after ∧
        converted.id = state.created.length ∧ Passed channel converted conversion.target := by
  unfold convert
  refine .bind ((yields_record _ _ _).mono ?_)
  rintro id between ⟨rfl, grows⟩
  split
  · exact .throw trivial
  · next converted success =>
    obtain ⟨number, passed⟩ := Channel.passed_convert success
    refine .bind ((yields_note _ _).mono fun node after noted => .pure ⟨?_, number, ?_⟩)
    · exact grows.trans noted
    · exact ⟨passed.form, passed.producer, passed.content⟩

theorem yields_conversions (settings : RunSettings α) (target : TaskSlot)
    (steps : List Conversion) :
    Yields (steps.foldlM (convert settings target) channel) state fun arrived after =>
      Grows (steps.map fun step => ⟨step.target, channel.producer, some target⟩) [] state after ∧
        Owned state.created.length after.created.length [channel.id] [arrived.id] ∧
        Passed channel arrived (Conversion.endOf channel.form steps) := by
  induction steps generalizing channel state with
  | nil => exact .pure ⟨.refl state, .kept _ _ _, rfl, rfl, List.Perm.refl _⟩
  | cons step rest ih =>
    rw [List.foldlM_cons]
    refine .bind ((yields_convert settings target step).mono ?_)
    rintro converted between ⟨grows, number, passed⟩
    refine ih.mono ?_
    rintro arrived after ⟨grows', owned, passed'⟩
    have count := grows.length
    have fresh : Owned state.created.length between.created.length [channel.id] [converted.id] := by
      refine .fresh number.ge ?_
      rw [count, number]
      exact Nat.lt_succ_self _
    refine ⟨?_, fresh.trans owned grows.rises grows'.rises, ?_, ?_, ?_⟩
    · rw [passed.producer] at grows'
      exact grows.trans grows'
    · rw [passed'.form, passed.form]
      rfl
    · exact passed'.producer.trans passed.producer
    · exact passed'.content.trans passed.content

/-- What comes to wait at a target: the rows of a channel, in the form at the end of the
conversions. -/
structure Delivered (channel : Channel) (target : JunctionTarget α) (entry : TaskSlot × Channel) :
    Prop where
  consumer : entry.1 = target.consumer
  form : entry.2.form = Conversion.endOf channel.form target.conversions
  content : entry.2.content.Perm channel.content

theorem yields_deliver (settings : RunSettings α) (target : JunctionTarget α) :
    Yields (deliver settings target channel) state fun _ after => ∃ entry,
      Grows (target.converted channel.producer) [entry] state after ∧
        Delivered channel target entry ∧
        Owned state.created.length after.created.length [channel.id] [entry.2.id] := by
  unfold deliver
  refine .bind ((yields_conversions settings target.consumer target.conversions).mono ?_)
  rintro arrived between ⟨grows, owned, passed⟩
  refine .bind (.get (.bind (.set ?_)))
  split
  · exact .throw trivial
  · next free =>
    refine .pure ⟨(target.consumer, arrived), ⟨grows.workspace, grows.created, ?_, ?_⟩,
      ⟨rfl, passed.form, passed.content⟩, owned⟩
    · rw [grows.pending, List.append_nil]
    · intro distinct
      have unfed : target.consumer ∉ between.pending.map (·.1) := by
        intro waits
        obtain ⟨entry, listed, same⟩ := List.mem_map.mp waits
        have nothing := Option.not_isSome_iff_eq_none.mp free
        have different := List.lookup_eq_none_iff.mp nothing entry listed
        rw [same, bne_self_eq_false] at different
        cases different
      rw [List.map_append]
      exact List.nodup_append.mpr ⟨grows.distinct distinct, List.nodup_singleton _, by
        rintro slot waits _ listed rfl
        rw [List.mem_singleton.mp listed] at waits
        exact unfed waits⟩

/-! ## Copies -/

theorem yields_copies (channel : Channel) (targets : List (JunctionTarget α))
    (held : channel.id < state.created.length) :
    Yields (copies channel targets) state fun entries after =>
      Grows (targets.dropLast.map fun target =>
        ⟨channel.form, channel.producer, some target.consumer⟩) [] state after ∧
      entries.map (·.1) = targets ∧
      (∀ entry ∈ entries, entry.2.form = channel.form ∧ entry.2.producer = channel.producer ∧
        entry.2.data = channel.data) ∧
      Owned state.created.length after.created.length [channel.id]
        (entries.map fun entry => entry.2.id) := by
  induction targets generalizing state with
  | nil => exact .pure ⟨.refl state, rfl, by simp, ⟨List.nodup_nil, by simp⟩⟩
  | cons target rest ih =>
    cases rest with
    | nil => exact .pure ⟨.refl state, rfl, by simp, .kept _ _ _⟩
    | cons next rest =>
      unfold copies
      refine .bind ((yields_record _ _ _).mono ?_)
      rintro id between ⟨number, grows⟩
      have count := grows.length
      rw [List.length_singleton] at count
      have held' : channel.id < between.created.length := by omega
      refine .bind ((ih held').mono ?_)
      rintro entries after ⟨grows', names, alike, owned⟩
      refine .pure ⟨grows.trans grows', by rw [List.map_cons, names], ?_, ?_⟩
      · intro entry listed
        rcases List.mem_cons.mp listed with rfl | later
        · exact ⟨rfl, rfl, rfl⟩
        · exact alike entry later
      · have first : Owned state.created.length between.created.length [] [id] := by
          apply Owned.fresh <;> omega
        apply first.append owned grows.rises grows'.rises
        · exact List.disjoint_nil_left _
        · intro number listed
          rw [List.nil_append, List.mem_singleton] at listed
          rwa [listed]

theorem Delivered.of_copy {copy : Channel} {target : JunctionTarget α}
    {entry : TaskSlot × Channel} (delivered : Delivered copy target entry)
    (form : copy.form = channel.form) (data : copy.data = channel.data) :
    Delivered channel target entry := by
  refine ⟨delivered.consumer, ?_, ?_⟩
  · rw [delivered.form, form]
  · have same : copy.content = channel.content := by
      rw [Channel.content, Channel.content, data]
    exact same ▸ delivered.content

/-- A channel is carried to all targets of its junction. -/
theorem yields_route (settings : RunSettings α) {junction : Junction α}
    (form : channel.form = junction.form) (producer : channel.producer = junction.producer.task)
    (held : channel.id < state.created.length) :
    Yields (route settings junction channel) state fun _ after => ∃ added,
      Grows junction.routed added state after ∧
        List.Forall₂ (Delivered channel) junction.targets added ∧
        Owned state.created.length after.created.length [channel.id]
          (added.map fun entry => entry.2.id) := by
  unfold route
  split
  · exact .bind (.throw trivial)
  refine .bind ((yields_copies channel junction.targets held).mono ?_)
  rintro entries between ⟨grows, names, alike, owned⟩
  rw [form, producer] at grows
  have old : ∀ entry ∈ entries, entry.2.id < between.created.length := by
    intro entry listed
    rcases owned.known _ (List.mem_map_of_mem listed) with same | new
    · rw [List.mem_singleton.mp same]
      exact held.trans_le grows.rises
    · exact new.2
  refine (Leads.forM (fun (done : List (JunctionTarget α × Channel)) current => ∃ added,
    Grows (done.flatMap fun entry => entry.1.converted junction.producer.task) added between
      current ∧
    List.Forall₂ (Delivered channel) (done.map (·.1)) added ∧
    Owned between.created.length current.created.length (done.map fun entry => entry.2.id)
      (added.map fun entry => entry.2.id)) ⟨[], .refl between, .nil, .nil _ _⟩ ?_).mono ?_
  · rintro done ⟨target, copy⟩ behind current split ⟨added, grown, delivered, numbers⟩
    have listed : (target, copy) ∈ entries := by
      rw [split]
      exact List.mem_append_right _ List.mem_cons_self
    obtain ⟨form', producer', data⟩ := alike _ listed
    dsimp only at form' producer' data
    refine (yields_deliver settings target).mono ?_
    rintro _ after ⟨entry, grows', delivered', owned'⟩
    rw [producer', producer] at grows'
    refine ⟨added ++ [entry], ?_, ?_, ?_⟩
    · rw [List.flatMap_append, List.flatMap_singleton]
      exact grown.trans grows'
    · rw [List.map_append]
      exact List.rel_append delivered (.cons (delivered'.of_copy form' data) .nil)
    · have distinct := owned.nodup
      rw [split, List.map_append, List.map_cons] at distinct
      rw [List.map_append, List.map_append]
      apply numbers.append owned' grown.rises grows'.rises
      · intro number one two
        rw [List.mem_singleton] at two
        subst two
        exact (List.nodup_append.mp distinct).2.2 _ one _ List.mem_cons_self rfl
      · intro number listed'
        rcases List.mem_append.mp listed' with one | two
        · obtain ⟨entry', among, rfl⟩ := List.mem_map.mp one
          exact old entry' (split ▸ List.mem_append_left _ among)
        · rw [List.mem_singleton.mp two]
          exact old _ listed
  · rintro _ after ⟨added, grown, delivered, numbers⟩
    rw [names] at delivered
    refine ⟨added, ?_, delivered, owned.trans numbers grows.rises grown.rises⟩
    have whole := grows.trans grown
    rw [← names] at whole
    have converted : (entries.flatMap fun entry =>
        entry.1.converted junction.producer.task) =
          junction.targets.flatMap fun target => target.converted junction.producer.task := by
      rw [← names, List.flatMap_map]
    rw [converted, names] at whole
    exact whole

/-! ## Taking inputs -/

theorem yields_take (slot : TaskSlot) (operator : String) :
    Yields (take slot operator) state fun taken after =>
      (slot, taken) ∈ state.pending ∧ taken.produced = true ∧
        after = { state with pending := state.pending.filter fun entry => entry.1 != slot } := by
  unfold take
  refine .bind (.get ?_)
  cases found : state.pending.lookup slot with
  | none => exact .bind (.throw trivial)
  | some taken =>
    refine .bind (.pure (.bind (.set ?_)))
    split
    · next produced => exact .pure ⟨Sequence.mem_of_lookup found, produced, rfl⟩
    · exact .throw trivial

def beyond (task count : Nat) (pending : List (TaskSlot × Channel)) : List (TaskSlot × Channel) :=
  pending.filter fun entry => !decide (entry.1.task = task ∧ entry.1.slot < count)

theorem yields_takes (task count : Nat) (operator : String) :
    Yields ((List.range count).mapM fun slot => take ⟨task, slot⟩ operator) state
      fun taken after =>
        List.Forall₂ (fun slot channel => (⟨task, slot⟩, channel) ∈ state.pending ∧
          channel.produced = true) (List.range count) taken ∧
        after = { state with pending := beyond task count state.pending } := by
  refine (Leads.mapM (fun before (taken : List Channel) after =>
    List.Forall₂ (fun slot channel => (⟨task, slot⟩, channel) ∈ state.pending ∧
      channel.produced = true) before taken ∧
      after = { state with pending := state.pending.filter (fun entry =>
        !decide (entry.1.task = task ∧ entry.1.slot ∈ before)) }) ⟨.nil, by simp⟩ ?_).mono ?_
  · rintro before taken slot behind current split ⟨held, rfl⟩
    refine (yields_take _ _).mono ?_
    rintro channel after ⟨waits, produced, rfl⟩
    refine ⟨List.rel_append held (.cons ⟨(List.mem_filter.mp waits).1, produced⟩ .nil), ?_⟩
    rw [List.filter_filter]
    congr 1
    refine List.filter_congr fun entry _ => ?_
    obtain ⟨⟨other, place⟩, waiting⟩ := entry
    rw [Bool.eq_iff_iff]
    simp only [bne_iff_ne, ne_eq, TaskSlot.mk.injEq, Bool.and_eq_true, Bool.not_eq_true',
      decide_eq_false_iff_not, List.mem_append, List.mem_singleton]
    tauto
  · rintro taken after ⟨held, rfl⟩
    refine ⟨held, ?_⟩
    simp only [List.mem_range, beyond]

end RunStep

/-! ## Outputs -/

def Junction.opened (junction : Junction α) (id : Nat) : Channel :=
  .create id junction.form junction.producer.task

def ExecutionPlan.outlets (plan : ExecutionPlan α) (task : Task α) : List (Junction α) :=
  (List.range task.operator.outputs).filterMap fun slot => plan.junctionFrom? ⟨task.id, slot⟩

def ExecutionPlan.Open (plan : ExecutionPlan α) (task : Task α) : Prop :=
  List.Forall₂ (fun slot junction => plan.junctionFrom? ⟨task.id, slot⟩ = some junction)
    (List.range task.operator.outputs) (plan.outlets task)

namespace ExecutionPlan

variable {plan : ExecutionPlan α} {task : Task α}

theorem producer_of_junctionFrom? {slot : TaskSlot} {junction : Junction α}
    (found : plan.junctionFrom? slot = some junction) : junction.producer = slot := by
  have same := List.find?_some found
  exact eq_of_beq same

theorem mem_of_junctionFrom? {slot : TaskSlot} {junction : Junction α}
    (found : plan.junctionFrom? slot = some junction) : junction ∈ plan.junctions :=
  List.mem_of_find?_eq_some found

theorem outlets_eq {slots : List Nat} {outlets : List (Junction α)}
    (found : List.Forall₂ (fun slot junction => plan.junctionFrom? ⟨task.id, slot⟩ = some junction)
      slots outlets) :
    (slots.filterMap fun slot => plan.junctionFrom? ⟨task.id, slot⟩) = outlets := by
  induction found with
  | nil => rfl
  | cons here _ ih => rw [List.filterMap_cons, here, ih]

theorem mem_outlets {junction : Junction α} :
    junction ∈ plan.outlets task ↔ ∃ slot, slot < task.operator.outputs ∧
      plan.junctionFrom? ⟨task.id, slot⟩ = some junction := by
  simp only [outlets, List.mem_filterMap, List.mem_range]

theorem Open.length (opens : plan.Open task) :
    (plan.outlets task).length = task.operator.outputs := by
  rw [← List.Forall₂.length_eq opens, List.length_range]

end ExecutionPlan

/-- An operator that succeeds answers with the channels that it was given to fill. -/
def BoundOperator.Returns (operator : BoundOperator α) : Prop :=
  ∀ context inputs outputs workspace evaluation after,
    inputs.length = operator.inputs → (∀ channel ∈ inputs, channel.produced = true) →
    outputs.length = operator.outputs →
    operator.evaluate context inputs outputs workspace = .ok (evaluation, after) →
    List.Forall₂ (fun (output made : Channel) => made.id = output.id ∧ made.form = output.form ∧
      made.producer = output.producer) outputs evaluation.produced

namespace RunStep

variable {state : RunState α} {plan : ExecutionPlan α} {task : CrossPlan.Task α}

theorem yields_createOutputs (plan : ExecutionPlan α) (task : CrossPlan.Task α)
    (operator : String) :
    Yields ((List.range task.operator.outputs).mapM fun slot =>
        createOutput plan ⟨task.id, slot⟩ operator) state fun given after =>
      plan.Open task ∧
        given = ((plan.outlets task).zipIdx state.created.length).map
          (fun (junction, id) => junction.opened id) ∧
        Grows ((plan.outlets task).map Junction.original) [] state after := by
  refine (Leads.mapM (fun before (given : List Channel) after => ∃ outlets,
    List.Forall₂ (fun slot junction => plan.junctionFrom? ⟨task.id, slot⟩ = some junction) before
      outlets ∧
    given = (outlets.zipIdx state.created.length).map (fun (junction, id) => junction.opened id) ∧
    Grows (outlets.map Junction.original) [] state after) ⟨[], .nil, rfl, .refl state⟩ ?_).mono ?_
  · rintro before given slot behind current split ⟨outlets, found, rfl, grows⟩
    unfold createOutput
    cases here : plan.junctionFrom? ⟨task.id, slot⟩ with
    | none => exact .bind (.throw trivial)
    | some junction =>
      refine .bind (.pure (.bind ((yields_record _ _ _).mono ?_)))
      rintro id after ⟨number, grows'⟩
      have producer := ExecutionPlan.producer_of_junctionFrom? here
      have count := grows.length
      rw [List.length_map] at count
      refine .pure ⟨outlets ++ [junction], List.rel_append found (.cons here .nil), ?_, ?_⟩
      · have opened : junction.opened id = .create id junction.form task.id := by
          rw [Junction.opened, producer]
        rw [List.zipIdx_append, List.map_append, ← count, ← number, ← opened]
        rfl
      · rw [List.map_append, List.map_singleton, Junction.original, producer]
        exact grows.trans grows'
  · rintro given after ⟨outlets, found, made, grows⟩
    have same : plan.outlets task = outlets := ExecutionPlan.outlets_eq found
    rw [ExecutionPlan.Open, same]
    exact ⟨found, made, grows⟩

/-- What came to wait for a target: rows that the task put on the output of the junction. -/
def Sent (made : List (Channel × Nat)) (connection : Junction α × JunctionTarget α)
    (entry : TaskSlot × Channel) : Prop :=
  ∃ channel, (channel, connection.1.producer.slot) ∈ made ∧
    channel.form = connection.1.form ∧ Delivered channel connection.2 entry

structure Suits (plan : ExecutionPlan α) (task : CrossPlan.Task α) (junction : Junction α)
    (made : Channel × Nat) : Prop where
  found : plan.junctionFrom? ⟨task.id, made.2⟩ = some junction
  form : made.1.form = junction.form
  producer : made.1.producer = junction.producer.task

variable [Quantity α]

theorem yields_emitOutput (settings : RunSettings α) (main : Nat) {junction : Junction α}
    {channel : Channel} {slot : Nat} (suits : Suits plan task junction (channel, slot))
    (held : channel.id < state.created.length) :
    Yields (emitOutput settings plan task main channel slot) state fun _ after => ∃ added,
      Grows junction.routed added state after ∧
        List.Forall₂ (Delivered channel) junction.targets added ∧
        Owned state.created.length after.created.length [channel.id]
          (added.map fun entry => entry.2.id) := by
  unfold emitOutput
  split
  · exact .bind (.throw trivial)
  refine .bind ((yields_note _ _).mono fun node between noted => ?_)
  rw [suits.found]
  refine .bind (.pure ?_)
  have count := noted.length
  rw [List.length_nil, Nat.add_zero] at count
  have form : (channel.withLineage node).form = junction.form := suits.form
  have producer : (channel.withLineage node).producer = junction.producer.task := suits.producer
  have held' : (channel.withLineage node).id < between.created.length := count ▸ held
  refine (yields_route settings form producer held').mono ?_
  rintro _ after ⟨added, grows, delivered, owned⟩
  refine ⟨added, noted.trans grows, ?_, count ▸ owned⟩
  exact delivered.imp fun target entry sent => sent.of_copy rfl rfl

theorem yields_emitOutputs (settings : RunSettings α) (main : Nat) {outlets : List (Junction α)}
    {made : List (Channel × Nat)} (suits : List.Forall₂ (Suits plan task) outlets made)
    (distinct : (made.map fun entry => entry.1.id).Nodup)
    (old : ∀ entry ∈ made, entry.1.id < state.created.length) :
    Yields (made.forM fun (channel, slot) => emitOutput settings plan task main channel slot) state
      fun _ after => ∃ added,
        Grows (outlets.flatMap Junction.routed) added state after ∧
          List.Forall₂ (Sent made) (TaskGraph.connections outlets) added ∧
          Owned state.created.length after.created.length (made.map fun entry => entry.1.id)
            (added.map fun entry => entry.2.id) := by
  induction suits generalizing state with
  | nil => exact .pure ⟨[], .refl state, .nil, .nil _ _⟩
  | @cons junction entry outlets made here rest ih =>
    obtain ⟨channel, slot⟩ := entry
    rw [List.map_cons, List.nodup_cons] at distinct
    refine .bind ((yields_emitOutput settings main here (old _ List.mem_cons_self)).mono ?_)
    rintro _ between ⟨added, grows, delivered, owned⟩
    have old' : ∀ entry ∈ made, entry.1.id < between.created.length := fun entry listed =>
      (old entry (List.mem_cons_of_mem _ listed)).trans_le grows.rises
    refine (ih distinct.2 old').mono ?_
    rintro _ after ⟨added', grows', sent, owned'⟩
    refine ⟨added ++ added', grows.trans grows', ?_, ?_⟩
    · have first : List.Forall₂ (Sent ((channel, slot) :: made))
          (junction.targets.map fun target => (junction, target)) added := by
        rw [List.forall₂_map_left_iff]
        refine delivered.imp fun target entry reached => ⟨channel, ?_, here.form, reached⟩
        rw [ExecutionPlan.producer_of_junctionFrom? here.found]
        exact List.mem_cons_self
      refine List.rel_append first (sent.imp ?_)
      rintro connection entry ⟨source, listed, form, reached⟩
      exact ⟨source, List.mem_cons_of_mem _ listed, form, reached⟩
    · rw [List.map_cons, List.map_append]
      apply owned.append owned' grows.rises grows'.rises
      · intro number one two
        rw [List.mem_singleton.mp one] at two
        exact distinct.1 two
      · intro number listed
        rcases List.mem_cons.mp listed with rfl | later
        · exact old _ List.mem_cons_self
        · obtain ⟨entry, among, rfl⟩ := List.mem_map.mp later
          exact old entry (List.mem_cons_of_mem _ among)

end RunStep

end CrossPlan
