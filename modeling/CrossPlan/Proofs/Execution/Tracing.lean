import CrossPlan.Proofs.Execution.Ledger
import CrossPlan.Proofs.Execution.Marks

/-!
# Noting what the plan lays down

Each step of a run that ends without error adds the nodes of the marks that are next, and what it
leaves at an input points to the node of the last mark on the way there.
-/

set_option autoImplicit false

namespace CrossPlan

open Sequence

variable {α : Type} {plan : ExecutionPlan α} {done : List Mark} {sent : List (TaskSlot × Mark)}
  {state after : RunState α}

/-- A run has noted the first marks, and what waits at an input is what was sent there last. -/
structure Sketched (plan : ExecutionPlan α) (done : List Mark) (sent : List (TaskSlot × Mark))
    (state : RunState α) : Prop where
  drawn : Drawn plan done state.lineage
  waiting : ∀ entry ∈ state.pending, ∃ mark ∈ done, entry.2.lineage = some (plan.place mark) ∧
    sent.reverse.lookup entry.1 = some mark

theorem Sketched.of_same (sketched : Sketched plan done sent state)
    (lineage : after.lineage = state.lineage)
    (pending : ∀ entry ∈ after.pending, entry ∈ state.pending) : Sketched plan done sent after :=
  ⟨lineage ▸ sketched.drawn, fun entry waits => sketched.waiting entry (pending entry waits)⟩

def BoundOperator.Reports (operator : BoundOperator α) : Prop :=
  ∀ context inputs outputs workspace evaluation after,
    operator.evaluate context inputs outputs workspace = .ok (evaluation, after) →
    ∃ rowsRead filled, evaluation.prepare = (context.evaluation rowsRead filled).prepare ∧
      evaluation.main = (context.evaluation rowsRead filled).main

theorem BoundAction.reports (action : BoundAction) (name : String) (platform : Platform)
    (epoch : Nat) : (action.toOperator name platform epoch : BoundOperator α).Reports := by
  intro context inputs outputs workspace evaluation after success
  cases action with
  | collectionSource rows =>
    obtain ⟨produced, -, success⟩ := bind_ok_iff.mp success
    cases success
    exact ⟨_, _, rfl, rfl⟩
  | sink destination =>
    obtain ⟨-, success⟩ := seq_ok_iff.mp success
    obtain ⟨rows, -, success⟩ := bind_ok_iff.mp success
    obtain ⟨changed, -, success⟩ := bind_ok_iff.mp success
    cases success
    exact ⟨_, _, rfl, rfl⟩
  | _ =>
    obtain ⟨rows, -, success⟩ := bind_ok_iff.mp success
    obtain ⟨produced, -, success⟩ := bind_ok_iff.mp success
    cases success
    exact ⟨_, _, rfl, rfl⟩

namespace RunStep

variable {settings : RunSettings α} {channel : Channel} {number slot place first : Nat}
  {junction : Junction α} {target : JunctionTarget α}

/-! ## Single nodes -/

theorem yields_next {mark : Mark} (distinct : plan.marks.Nodup)
    (sketched : Sketched plan done sent state) (next : done ++ [mark] <+: plan.marks)
    {node : LineageNode α} (depicts : plan.Depicts mark node)
    (known : ∀ earlier ∈ plan.before mark, earlier ∈ done) :
    Yields (note node ((plan.before mark).map plan.place)) state fun id after =>
      id = plan.place mark ∧ Sketched plan (done ++ [mark]) sent after := by
  obtain ⟨size, drawn⟩ := sketched.drawn.note distinct next depicts known
  refine ⟨size, drawn, fun entry waits => ?_⟩
  obtain ⟨other, listed, rest⟩ := sketched.waiting entry waits
  exact ⟨other, List.mem_append_left _ listed, rest⟩

theorem yields_convert_next {consumer : TaskSlot} {conversion : Conversion}
    (distinct : plan.marks.Nodup) (sketched : Sketched plan done sent state)
    (passed : channel.lineage = some (plan.place (.reached number slot place first)))
    (known : .reached number slot place first ∈ done)
    (next : done ++ [.conversion number slot place first] <+: plan.marks)
    (label : plan.label? (.conversion number slot place first) =
      some (consumer.task, conversion.key, .conversion)) :
    Yields (convert settings consumer channel conversion) state fun converted after =>
      converted.lineage = some (plan.place (.reached number slot place (first + 1))) ∧
        Sketched plan (done ++ [.conversion number slot place first]) sent after := by
  have recorded : Yields (record conversion.target channel.producer (some consumer)) state
      fun _ after => Sketched plan done sent after := sketched.of_same rfl fun _ waits => waits
  unfold convert
  refine .bind (recorded.mono fun id between sketched => ?_)
  split
  · exact .throw trivial
  · next converted success =>
    have rows : channel.cardinality = converted.cardinality :=
      (Channel.passed_convert success).2.content.length_eq.symm
    have earlier : channel.lineage.toList =
        (plan.before (.conversion number slot place first)).map plan.place := by
      rw [passed]
      rfl
    rw [earlier]
    refine .bind ((yields_next distinct sketched next ⟨label, fun _ => ⟨_, rfl, rows⟩⟩ ?_).mono ?_)
    · simpa [ExecutionPlan.before] using known
    · intro id after noted
      exact .pure ⟨congrArg some noted.1, noted.2⟩

/-! ## On the way to a target -/

theorem yields_conversions_next {consumer : TaskSlot} (distinct : plan.marks.Nodup)
    {steps : List Conversion} (sketched : Sketched plan done sent state)
    (passed : channel.lineage = some (plan.place (.reached number slot place first)))
    (known : .reached number slot place first ∈ done)
    (next : done ++ (List.range' first steps.length).map (.conversion number slot place) <+:
      plan.marks)
    (label : ∀ step conversion, steps[step]? = some conversion →
      plan.label? (.conversion number slot place (first + step)) =
        some (consumer.task, conversion.key, .conversion)) :
    Yields (steps.foldlM (convert settings consumer) channel) state fun arrived after =>
      ∃ mark ∈ done ++ (List.range' first steps.length).map (.conversion number slot place),
        mark = .reached number slot place (first + steps.length) ∧
        arrived.lineage = some (plan.place mark) ∧
        Sketched plan (done ++ (List.range' first steps.length).map (.conversion number slot place))
          sent after := by
  induction steps generalizing channel first done state with
  | nil =>
    simp only [List.length_nil, List.range'_zero, List.map_nil, List.append_nil, Nat.add_zero]
    exact .pure ⟨_, known, rfl, passed, sketched⟩
  | cons conversion rest ih =>
    rw [List.length_cons, List.range'_succ, List.map_cons, List.append_cons] at next ⊢
    rw [List.foldlM_cons]
    have one := (List.prefix_append _ _).trans next
    refine .bind ((yields_convert_next distinct sketched passed known one
      (label 0 conversion rfl)).mono ?_)
    intro converted between step
    have count : first + 1 + rest.length = first + (rest.length + 1) := by omega
    rw [← count]
    apply ih step.2 step.1 _ next
    · intro index other found
      have shift : first + 1 + index = first + (index + 1) := by omega
      rw [shift]
      exact label (index + 1) other found
    · simp [Mark.reached]

theorem label_conversion (outlet : (plan.outletsOf number)[slot]? = some junction)
    (aimed : junction.targets[place]? = some target) {step : Nat} {conversion : Conversion}
    (found : target.conversions[step]? = some conversion) :
    plan.label? (.conversion number slot place step) =
      some (target.consumer.task, conversion.key, .conversion) := by
  simp [ExecutionPlan.label?, outlet, aimed, found]

theorem yields_deliver_next (distinct : plan.marks.Nodup) (sketched : Sketched plan done sent state)
    (outlet : (plan.outletsOf number)[slot]? = some junction)
    (aimed : junction.targets[place]? = some target)
    (passed : channel.lineage = some (plan.place (.channel number slot)))
    (known : .channel number slot ∈ done)
    (next : done ++ target.marks number slot place <+: plan.marks) :
    Yields (deliver settings target channel) state fun _ after =>
      Sketched plan (done ++ target.marks number slot place)
        (sent ++ [target.arrival number slot place]) after := by
  unfold JunctionTarget.marks at next ⊢
  rw [List.range_eq_range'] at next ⊢
  have start : .reached number slot place 0 ∈ done := known
  unfold deliver
  refine .bind ((yields_conversions_next distinct sketched passed start next ?_).mono ?_)
  · intro step conversion found
    rw [Nat.zero_add]
    exact label_conversion outlet aimed found
  · rintro arrived between ⟨mark, listed, last, lineage, sketched⟩
    refine .bind (.get (.bind (.set ?_)))
    split
    · exact .throw trivial
    · next free =>
      refine .pure ⟨sketched.drawn, fun entry waits => ?_⟩
      rw [List.reverse_append, List.reverse_singleton, List.singleton_append]
      rcases List.mem_append.mp waits with old | new
      · obtain ⟨other, present, same, found⟩ := sketched.waiting entry old
        have apart : entry.1 ≠ target.consumer := by
          intro same
          have nothing := Option.not_isSome_iff_eq_none.mp free
          have different := List.lookup_eq_none_iff.mp nothing entry old
          simp [same] at different
        refine ⟨other, present, same, ?_⟩
        rw [JunctionTarget.arrival, List.lookup_cons, beq_eq_false_iff_ne.mpr apart]
        exact found
      · rw [List.mem_singleton.mp new]
        refine ⟨mark, listed, lineage, ?_⟩
        rw [last, Nat.zero_add, JunctionTarget.arrival, List.lookup_cons, beq_self_eq_true]

/-! ## Outputs -/

theorem yields_copies_same (channel : Channel) (targets : List (JunctionTarget α)) :
    Yields (copies channel targets) state fun entries after =>
      entries.map (·.1) = targets ∧ (∀ entry ∈ entries, entry.2.lineage = channel.lineage) ∧
        after.lineage = state.lineage ∧ after.pending = state.pending := by
  induction targets generalizing state with
  | nil => exact .pure (by simp)
  | cons target rest ih =>
    cases rest with
    | nil => exact .pure (by simp)
    | cons next rest =>
      have recorded : Yields (record channel.form channel.producer (some target.consumer)) state
          fun _ after => after.lineage = state.lineage ∧ after.pending = state.pending :=
        ⟨rfl, rfl⟩
      unfold copies
      refine .bind (recorded.mono fun id between same => .bind (ih.mono ?_))
      rintro entries after ⟨names, alike, lineage, pending⟩
      refine .pure ⟨by simp [names], ?_, lineage.trans same.1, pending.trans same.2⟩
      exact List.forall_mem_cons.mpr ⟨rfl, alike⟩

theorem yields_targets_next (distinct : plan.marks.Nodup)
    {entries : List (JunctionTarget α × Channel)} (sketched : Sketched plan done sent state)
    (outlet : (plan.outletsOf number)[slot]? = some junction)
    (aimed : ∀ index entry, entries[index]? = some entry →
      junction.targets[first + index]? = some entry.1)
    (passed : ∀ entry ∈ entries, entry.2.lineage = some (plan.place (.channel number slot)))
    (known : .channel number slot ∈ done)
    (next : done ++ ((entries.map (·.1)).zipIdx first).flatMap
      (fun entry => entry.1.marks number slot entry.2) <+: plan.marks) :
    Yields (entries.forM fun (target, channel) => deliver settings target channel) state
      fun _ after => Sketched plan
        (done ++ ((entries.map (·.1)).zipIdx first).flatMap
          (fun entry => entry.1.marks number slot entry.2))
        (sent ++ ((entries.map (·.1)).zipIdx first).map
          (fun entry => entry.1.arrival number slot entry.2)) after := by
  induction entries generalizing first done sent state with
  | nil => exact .pure (by simpa using sketched)
  | cons entry rest ih =>
    rw [List.map_cons, List.zipIdx_cons, List.flatMap_cons, ← List.append_assoc] at next ⊢
    rw [List.map_cons, List.append_cons]
    have one := (List.prefix_append _ _).trans next
    refine .bind ((yields_deliver_next distinct sketched outlet (aimed 0 entry rfl)
      (passed entry List.mem_cons_self) known one).mono fun _ between sketched => ?_)
    apply ih sketched _ _ (List.mem_append_left _ known) next
    · intro index other found
      have shift : first + 1 + index = first + (index + 1) := by omega
      rw [shift]
      exact aimed (index + 1) other found
    · exact fun other later => passed other (List.mem_cons_of_mem _ later)

theorem yields_route_next (distinct : plan.marks.Nodup) (sketched : Sketched plan done sent state)
    (outlet : (plan.outletsOf number)[slot]? = some junction)
    (passed : channel.lineage = some (plan.place (.channel number slot)))
    (known : .channel number slot ∈ done)
    (next : done ++ junction.targets.zipIdx.flatMap
      (fun entry => entry.1.marks number slot entry.2) <+: plan.marks) :
    Yields (route settings junction channel) state fun _ after => Sketched plan
      (done ++ junction.targets.zipIdx.flatMap (fun entry => entry.1.marks number slot entry.2))
      (sent ++ junction.arrivals number slot) after := by
  unfold route
  split
  · exact .bind (.throw trivial)
  refine .bind ((yields_copies_same channel junction.targets).mono ?_)
  rintro entries between ⟨names, alike, lineage, pending⟩
  have same := sketched.of_same lineage fun entry waits => pending ▸ waits
  have aimed : ∀ index entry, entries[index]? = some entry →
      junction.targets[0 + index]? = some entry.1 := by
    intro index entry found
    rw [Nat.zero_add, ← names, List.getElem?_map, found]
    rfl
  have carried : ∀ entry ∈ entries, entry.2.lineage = some (plan.place (.channel number slot)) :=
    fun entry listed => (alike entry listed).trans passed
  rw [← names] at next
  rw [Junction.arrivals, ← names]
  exact yields_targets_next distinct same outlet aimed carried known next

variable [Quantity α] {task : CrossPlan.Task α}

theorem yields_emitOutput_next (distinct : plan.marks.Nodup)
    (sketched : Sketched plan done sent state) (found : plan.tasks[number]? = some task)
    (carrier : plan.junctionFrom? ⟨task.id, slot⟩ = some junction)
    (outlet : (plan.outletsOf number)[slot]? = some junction) (known : .main number ∈ done)
    (next : done ++ junction.marks number slot <+: plan.marks) :
    Yields (emitOutput settings plan task (plan.place (.main number)) channel slot) state
      fun _ after => Sketched plan (done ++ junction.marks number slot)
        (sent ++ junction.arrivals number slot) after := by
  unfold emitOutput
  split
  · exact .bind (.throw trivial)
  rw [Junction.marks, List.append_cons] at next ⊢
  have one := (List.prefix_append _ _).trans next
  have depicts : plan.Depicts (.channel number slot)
      (channelNode task.id task.operator.name channel) := by
    refine ⟨?_, nofun⟩
    rw [ExecutionPlan.label?, found]
    rfl
  have before : [plan.place (.main number)] =
      (plan.before (.channel number slot)).map plan.place := rfl
  rw [before]
  refine .bind ((yields_next distinct sketched one depicts ?_).mono ?_)
  · simpa [ExecutionPlan.before] using known
  · rintro id between ⟨same, sketched⟩
    rw [carrier]
    refine .bind (.pure ?_)
    exact yields_route_next distinct sketched outlet (congrArg some same) (by simp) next

theorem yields_emitOutputs_next (distinct : plan.marks.Nodup)
    (sketched : Sketched plan done sent state) (found : plan.tasks[number]? = some task)
    {produced : List Channel} {outlets : List (Junction α)}
    (length : produced.length = outlets.length)
    (carriers : ∀ index junction, outlets[index]? = some junction →
      plan.junctionFrom? ⟨task.id, first + index⟩ = some junction ∧
        (plan.outletsOf number)[first + index]? = some junction)
    (known : .main number ∈ done)
    (next : done ++ (outlets.zipIdx first).flatMap (fun entry => entry.1.marks number entry.2) <+:
      plan.marks) :
    Yields ((produced.zipIdx first).forM fun (channel, slot) =>
        emitOutput settings plan task (plan.place (.main number)) channel slot) state
      fun _ after => Sketched plan
        (done ++ (outlets.zipIdx first).flatMap fun entry => entry.1.marks number entry.2)
        (sent ++ (outlets.zipIdx first).flatMap fun entry => entry.1.arrivals number entry.2)
        after := by
  induction outlets generalizing produced first done sent state with
  | nil =>
    rw [List.length_nil, List.length_eq_zero_iff] at length
    subst length
    exact .pure (by simpa using sketched)
  | cons junction rest ih =>
    cases produced with
    | nil => cases length
    | cons channel produced =>
      simp only [List.zipIdx_cons, List.flatMap_cons, ← List.append_assoc] at next ⊢
      have one := (List.prefix_append _ _).trans next
      have here := carriers 0 junction rfl
      refine .bind ((yields_emitOutput_next distinct sketched found here.1 here.2 known one).mono
        fun _ between sketched => ?_)
      apply ih sketched (Nat.succ.inj length) _ (List.mem_append_left _ known) next
      intro index other found
      have shift : first + 1 + index = first + (index + 1) := by omega
      rw [shift]
      exact carriers (index + 1) other found

/-! ## Tasks -/

omit [Quantity α] in
theorem arrival?_eq {numbers behind : List Nat} (distinct : plan.order.Nodup)
    (split : plan.order = numbers ++ number :: behind) (input : TaskSlot) :
    plan.arrival? number input = (numbers.flatMap plan.arrivalsOf).reverse.lookup input := by
  have earlier : plan.order.takeWhile (· != number) = numbers := by
    rw [split, List.nodup_append] at distinct
    rw [split, List.takeWhile_append_of_pos]
    · simp
    · intro other listed
      simpa using distinct.2.2 other listed number List.mem_cons_self
  rw [ExecutionPlan.arrival?, earlier]

/-- What a task took from its inputs points to the nodes of what was sent there last. -/
def Received (plan : ExecutionPlan α) (done : List Mark) (number : Nat) (task : CrossPlan.Task α)
    (taken : List Channel) : Prop :=
  List.Forall₂ (fun slot channel => ∃ mark ∈ done, channel.lineage = some (plan.place mark) ∧
    plan.arrival? number ⟨task.id, slot⟩ = some mark) (List.range task.operator.inputs) taken

omit [Quantity α] in
theorem Received.before {taken : List Channel} (arrived : Received plan done number task taken)
    (found : plan.tasks[number]? = some task) :
    plan.place (.prepare number) :: taken.filterMap Channel.lineage =
        (plan.before (.main number)).map plan.place ∧
      ∀ mark ∈ plan.inputsOf number, mark ∈ done := by
  have inputs : plan.inputsOf number = (List.range task.operator.inputs).filterMap fun slot =>
      plan.arrival? number ⟨task.id, slot⟩ := by
    rw [ExecutionPlan.inputsOf, found]
  rw [ExecutionPlan.before, inputs, List.map_cons]
  unfold Received at arrived
  generalize List.range task.operator.inputs = slots at arrived ⊢
  induction arrived with
  | nil => simp
  | cons here _ ih =>
    obtain ⟨mark, listed, lineage, same⟩ := here
    have rest := List.tail_eq_of_cons_eq ih.1
    simp only [List.filterMap_cons, lineage, same, List.map_cons, rest, List.forall_mem_cons]
    exact ⟨trivial, listed, ih.2⟩

def Served (plan : ExecutionPlan α) (number : Nat) : Prop :=
  ∃ task, plan.tasks[number]? = some task ∧ ∀ slot < task.operator.inputs,
    ∃ mark ∈ plan.marks, plan.arrival? number ⟨task.id, slot⟩ = some mark

omit [Quantity α] in
theorem Leads.and {β : Type} {allowed : RunError → Prop} {step : RunStep α β}
    {post post' : β → RunState α → Prop} (first : Leads allowed step state post)
    (second : Leads allowed step state post') :
    Leads allowed step state fun value after => post value after ∧ post' value after := by
  unfold Leads at *
  split at first <;> simp_all

omit [Quantity α] in
theorem yields_createOutputs_same (slots : List Nat) (operator : String) :
    Yields (slots.mapM fun slot => createOutput plan ⟨task.id, slot⟩ operator) state
      fun _ after => after.lineage = state.lineage ∧ after.pending = state.pending := by
  refine Leads.mapM (fun _ _ after =>
    after.lineage = state.lineage ∧ after.pending = state.pending) ⟨rfl, rfl⟩ ?_
  intro _ _ slot _ current _ same
  unfold createOutput
  cases plan.junctionFrom? ⟨task.id, slot⟩ with
  | none => exact .bind (.throw trivial)
  | some junction =>
    have recorded : Yields (record junction.form task.id none) current fun _ after =>
      after.lineage = state.lineage ∧ after.pending = state.pending := same
    exact .bind (.pure (.bind (recorded.mono fun _ _ same => .pure same)))

omit [Quantity α] in
theorem yields_handing_next {numbers behind : List Nat} (distinct : plan.order.Nodup)
    (split : plan.order = numbers ++ number :: behind)
    (sketched : Sketched plan done (numbers.flatMap plan.arrivalsOf) state) :
    Yields (handing plan task) state fun handed after => plan.Open task ∧
      Received plan done number task handed.1 ∧
        Sketched plan done (numbers.flatMap plan.arrivalsOf) after := by
  unfold handing
  refine .bind ((yields_takes _ _ _).mono ?_)
  rintro taken between ⟨held, rfl⟩
  have arrived : Received plan done number task taken := by
    refine held.imp fun slot channel waits => ?_
    rw [arrival?_eq distinct split]
    exact sketched.waiting _ waits.1
  refine .bind (((yields_createOutputs plan task _).and (yields_createOutputs_same _ _)).mono ?_)
  rintro given after ⟨⟨opens, -⟩, lineage, pending⟩
  refine .pure ⟨opens, arrived, sketched.of_same lineage fun entry waits => ?_⟩
  rw [pending] at waits
  exact (List.mem_filter.mp waits).1

theorem yields_settle_next (once : plan.marks.Nodup) (found : plan.tasks[number]? = some task)
    (opens : plan.Open task) {taken : List Channel} (arrived : Received plan done number task taken)
    {evaluation : Evaluation α} (prepare : plan.Depicts (.prepare number) evaluation.prepare)
    (main : plan.Depicts (.main number) evaluation.main) (sketched : Sketched plan done sent state)
    (next : done ++ plan.marksOf number <+: plan.marks) :
    Yields (settle settings plan task taken evaluation) state fun _ after =>
      Sketched plan (done ++ plan.marksOf number) (sent ++ plan.arrivalsOf number) after := by
  have outletsOf : plan.outletsOf number = plan.outlets task := by
    rw [ExecutionPlan.outletsOf, found]
    rfl
  rw [ExecutionPlan.marksOf, List.append_cons, List.append_cons, outletsOf] at next ⊢
  rw [ExecutionPlan.arrivalsOf, outletsOf]
  have toMain := (List.prefix_append _ _).trans next
  have toPrepare := (List.prefix_append _ _).trans toMain
  unfold settle
  have nothing : ∀ earlier ∈ plan.before (.prepare number), earlier ∈ done := by
    intro earlier listed
    cases listed
  refine .bind ((yields_next once sketched toPrepare prepare nothing).mono ?_)
  rintro id first ⟨rfl, sketched⟩
  obtain ⟨before, known⟩ := arrived.before found
  rw [before]
  refine .bind ((yields_next once sketched toMain main ?_).mono ?_)
  · intro earlier listed
    rcases List.mem_cons.mp listed with rfl | later
    · simp
    · exact List.mem_append_left _ (known earlier later)
  rintro id second ⟨rfl, sketched⟩
  split
  · exact .bind (.throw trivial)
  · next count =>
    have length : evaluation.produced.length = (plan.outlets task).length := by
      rw [opens.length]
      simpa using count
    refine yields_emitOutputs_next once sketched found length ?_ (by simp) next
    intro index junction here
    obtain ⟨slot, listed, joined⟩ := getElem?_right opens here
    obtain ⟨within, rfl⟩ := List.getElem?_eq_some_iff.mp listed
    rw [List.getElem_range] at joined
    rw [Nat.zero_add, outletsOf]
    exact ⟨joined, here⟩

/-- The turn of a task notes the marks of the task. -/
theorem yields_runTask_next {numbers behind : List Nat} (distinct : plan.order.Nodup)
    (split : plan.order = numbers ++ number :: behind) (found : plan.tasks[number]? = some task)
    (reports : task.operator.Reports)
    (sketched : Sketched plan (numbers.flatMap plan.marksOf) (numbers.flatMap plan.arrivalsOf)
      state) :
    Yields (runTask settings plan task) state fun _ after => Served plan number ∧
      Sketched plan ((numbers ++ [number]).flatMap plan.marksOf)
        ((numbers ++ [number]).flatMap plan.arrivalsOf) after := by
  have next : numbers.flatMap plan.marksOf ++ plan.marksOf number <+: plan.marks := by
    refine ⟨behind.flatMap plan.marksOf, ?_⟩
    rw [ExecutionPlan.marks, split, List.flatMap_append, List.flatMap_cons, List.append_assoc]
  rw [List.flatMap_append, List.flatMap_append, List.flatMap_singleton, List.flatMap_singleton,
    runTask_parts]
  refine .bind ((yields_handing_next distinct split sketched).mono ?_)
  rintro ⟨taken, given⟩ between ⟨opens, arrived, sketched⟩
  refine .bind (yields_evaluate.mono ?_)
  rintro evaluation last ⟨success, same⟩
  have sketched : Sketched plan _ _ last :=
    sketched.of_same (by rw [same]) fun entry waits => by rwa [same] at waits
  obtain ⟨rowsRead, filled, prepare, main⟩ := reports _ _ _ _ _ _ success
  have depicts : plan.Depicts (.prepare number) evaluation.prepare := by
    rw [prepare]
    exact ⟨by rw [ExecutionPlan.label?, found]; rfl, nofun⟩
  have depicts' : plan.Depicts (.main number) evaluation.main := by
    rw [main]
    exact ⟨by rw [ExecutionPlan.label?, found]; rfl, nofun⟩
  refine (yields_settle_next (plan.nodup_marks distinct) found opens arrived depicts depicts'
    sketched next).mono fun _ after sketched => ⟨⟨task, found, fun slot within => ?_⟩, sketched⟩
  obtain ⟨_, -, mark, listed, -, here⟩ := mem_left arrived (List.mem_range.mpr within)
  exact ⟨mark, ((List.prefix_append _ _).trans next).subset listed, here⟩

theorem yields_runPlan_next (distinct : plan.order.Nodup)
    (reports : ∀ task ∈ plan.tasks, task.operator.Reports) (workspace : Workspace) :
    Yields (runPlan settings plan) ⟨.empty, [], [], workspace⟩ fun _ after =>
      (∀ number ∈ plan.order, Served plan number) ∧ Drawn plan plan.marks after.lineage := by
  unfold runPlan
  refine .bind ((Leads.forM (fun numbers after => (∀ number ∈ numbers, Served plan number) ∧
    Sketched plan (numbers.flatMap plan.marksOf) (numbers.flatMap plan.arrivalsOf) after)
    ?_ ?_).mono ?_)
  · exact ⟨nofun, ⟨List.nil_prefix, .nil, rfl, nofun, nofun⟩, nofun⟩
  · rintro numbers number behind current split ⟨served, sketched⟩
    cases found : plan.tasks[number]? with
    | none => exact .bind (.throw trivial)
    | some task =>
      refine .bind (.pure ((yields_runTask_next distinct split found
        (reports task (List.mem_of_getElem? found)) sketched).mono ?_))
      intro _ after step
      refine ⟨?_, step.2⟩
      rw [List.forall_mem_append, List.forall_mem_singleton]
      exact ⟨served, step.1⟩
  · rintro _ after ⟨served, sketched⟩
    refine .bind (.get ?_)
    dsimp only
    split
    · exact .throw trivial
    · exact .pure ⟨served, sketched.drawn⟩

end RunStep

end CrossPlan
