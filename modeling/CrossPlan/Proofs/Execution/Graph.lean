import CrossPlan.Execution.Plan
import CrossPlan.Proofs.Precedence
import CrossPlan.Proofs.Sequence

/-!
# Which task graphs are accepted

A graph passes when each of its junctions carries a form that its producer has to forms that its
consumers take, each slot of a task is joined once, and no task comes before itself.
-/

set_option autoImplicit false

namespace CrossPlan.TaskGraph

open Sequence

variable {α : Type} {tasks : List (Task α)} {junctions : List (Junction α)}

/-! ## Junctions -/

def Arrives (tasks : List (Task α)) (form : Form) (target : JunctionTarget α) : Prop :=
  ∃ task arrived, tasks[target.consumer.task]? = some task ∧
    follow? form target.conversions = some arrived ∧
    arrived ∈ task.operator.inputForms target.consumer.slot

structure Carries (tasks : List (Task α)) (junction : Junction α) : Prop where
  produced : ∃ task, tasks[junction.producer.task]? = some task ∧
    junction.form ∈ task.operator.outputForms junction.producer.slot
  read : junction.targets ≠ []
  arrives : ∀ target ∈ junction.targets, Arrives tasks junction.form target

theorem checkTarget_ok {form : Form} {target : JunctionTarget α} :
    checkTarget tasks form target = .ok () ↔ Arrives tasks form target := by
  unfold checkTarget Arrives
  cases tasks[target.consumer.task]? with
  | none => simp [fault]
  | some task =>
    cases follow? form target.conversions with
    | none => simp [fault]
    | some arrived =>
      by_cases taken : arrived ∈ task.operator.inputForms target.consumer.slot
      · simp [taken]
      · simp [taken, fault]

theorem checkJunction_ok {junction : Junction α} :
    checkJunction tasks junction = .ok () ↔ Carries tasks junction := by
  unfold checkJunction
  constructor
  · intro checked
    dsimp only at checked
    split at checked
    · cases checked
    next task found =>
    split at checked
    · cases checked
    next read =>
    split at checked
    · cases checked
    next offered =>
    refine ⟨⟨task, found, by simpa using offered⟩, by simpa using read, ?_⟩
    intro target listed
    exact checkTarget_ok.mp (forM_ok_iff.mp checked target listed)
  · rintro ⟨⟨task, found, offered⟩, read, arrives⟩
    have all : junction.targets.forM (checkTarget tasks junction.form) = .ok () :=
      forM_ok_iff.mpr fun target listed => checkTarget_ok.mpr (arrives target listed)
    simp only [found]
    rw [if_neg (by simpa using read), if_neg (by simpa using offered)]
    exact all

theorem follow?_of_chains {steps : List Conversion} {source target : Form}
    (chained : Conversion.chains steps source target = true) :
    follow? source steps = some target := by
  induction steps generalizing source with
  | nil => simpa [Conversion.chains, follow?] using chained
  | cons step rest ih =>
    rw [Conversion.chains, Bool.and_eq_true, beq_iff_eq] at chained
    rw [follow?, if_pos chained.1]
    exact ih chained.2

theorem chains_of_follow? {steps : List Conversion} {source target : Form}
    (followed : follow? source steps = some target) :
    Conversion.chains steps source target = true := by
  induction steps generalizing source with
  | nil => simpa [Conversion.chains, follow?] using followed
  | cons step rest ih =>
    rw [follow?] at followed
    split at followed
    · next same =>
      rw [Conversion.chains, Bool.and_eq_true, beq_iff_eq]
      exact ⟨same, ih followed⟩
    · cases followed

def connections (junctions : List (Junction α)) : List (Junction α × JunctionTarget α) :=
  junctions.flatMap fun junction => junction.targets.map fun target => (junction, target)

theorem connections_append (first second : List (Junction α)) :
    connections (first ++ second) = connections first ++ connections second :=
  List.flatMap_append

theorem connections_singleton (junction : Junction α) :
    connections [junction] = junction.targets.map fun target => (junction, target) :=
  List.flatMap_singleton _ _

/-! ## Slots -/

structure Joined (junctions : List (Junction α)) (task : Task α) : Prop where
  fed : ∀ slot, slot < task.operator.inputs → (fed junctions).count ⟨task.id, slot⟩ = 1
  carried : ∀ slot, slot < task.operator.outputs → (carried junctions).count ⟨task.id, slot⟩ = 1

theorem checkTask_ok {task : Task α} :
    checkTask junctions task = .ok () ↔ Joined junctions task := by
  have each : ∀ (condition : Prop) [Decidable condition] (reason : String),
      (if condition then (Except.ok () : Except OptimizeError Unit) else fault reason) = .ok () ↔
        condition := by
    intro condition _ reason
    by_cases holds : condition <;> simp [holds, fault]
  simp only [checkTask, seq_ok_iff, forM_ok_iff, List.mem_range, each]
  exact ⟨fun ⟨inputs, outputs⟩ => ⟨inputs, outputs⟩, fun joined => ⟨joined.fed, joined.carried⟩⟩

def noSingleJunction (output : TaskSlot) (name : String) : OptimizeError :=
  .internal ("output " ++ (output.label ++ " (" ++ name ++ ")") ++ " has no single junction")

/-- Where all inputs are fed once, what is wrong with a task is one of its outputs. -/
theorem checkTask_error {task : Task α}
    (inputs : ∀ slot, slot < task.operator.inputs → (fed junctions).count ⟨task.id, slot⟩ = 1)
    {error : OptimizeError} (failed : checkTask junctions task = .error error) :
    ∃ slot, slot < task.operator.outputs ∧ (carried junctions).count ⟨task.id, slot⟩ ≠ 1 ∧
      error = noSingleJunction ⟨task.id, slot⟩ task.operator.name := by
  have first : ((List.range task.operator.inputs).forM fun slot =>
      if (fed junctions).count ⟨task.id, slot⟩ = 1 then (.ok () : Except OptimizeError Unit)
      else fault ("input " ++ ((TaskSlot.mk task.id slot).label ++ " (" ++ task.operator.name
        ++ ")") ++ " is not fed exactly once")) = .ok () :=
    forM_ok_iff.mpr fun slot among => if_pos (inputs slot (List.mem_range.mp among))
  simp only [checkTask, first, ok_bind] at failed
  obtain ⟨slot, among, failed⟩ := exists_forM_error failed
  split at failed
  · cases failed
  · next many =>
    cases failed
    exact ⟨slot, List.mem_range.mp among, many, rfl⟩

/-! ## Order -/

structure Closed (tasks : List (Task α)) (junctions : List (Junction α)) : Prop where
  numbered : tasks.map (·.id) = List.range tasks.length
  known : ∀ pair ∈ precedence junctions, pair.1 < tasks.length ∧ pair.2 < tasks.length

theorem id_of_numbered (numbered : tasks.map (·.id) = List.range tasks.length) {number : Nat}
    {task : Task α} (found : tasks[number]? = some task) : task.id = number := by
  have here : (tasks.map (·.id))[number]? = some task.id := by
    rw [List.getElem?_map, found]
    rfl
  rw [numbered, List.getElem?_range (List.getElem?_eq_some_iff.mp found).1] at here
  exact (Option.some.inj here).symm

theorem mem_precedence {earlier later : Nat} : (earlier, later) ∈ precedence junctions ↔
    ∃ junction ∈ junctions, junction.producer.task = earlier ∧
      ∃ target ∈ junction.targets, target.consumer.task = later := by
  simp only [precedence, List.mem_flatMap, List.mem_map, Prod.mk.injEq]
  constructor
  · rintro ⟨junction, listed, target, among, start, ends⟩
    exact ⟨junction, listed, start, target, among, ends⟩
  · rintro ⟨junction, listed, start, target, among, ends⟩
    exact ⟨junction, listed, target, among, start, ends⟩

theorem precedes_of_feeds {junction : Junction α} (present : junction ∈ junctions)
    {slot : TaskSlot} (feeds : slot ∈ junction.targets.map (·.consumer)) :
    (junction.producer.task, slot.task) ∈ precedence junctions := by
  obtain ⟨target, among, rfl⟩ := List.mem_map.mp feeds
  exact mem_precedence.mpr ⟨junction, present, rfl, target, among, rfl⟩

theorem Closed.of_carries (numbered : tasks.map (·.id) = List.range tasks.length)
    (carries : ∀ junction ∈ junctions, Carries tasks junction) : Closed tasks junctions := by
  refine ⟨numbered, fun pair present => ?_⟩
  obtain ⟨junction, listed, producer, target, among, consumer⟩ := mem_precedence.mp present
  obtain ⟨task, source, -⟩ := (carries junction listed).produced
  obtain ⟨reader, _, sink, -⟩ := (carries junction listed).arrives target among
  rw [← producer, ← consumer]
  exact ⟨(List.getElem?_eq_some_iff.mp source).1, (List.getElem?_eq_some_iff.mp sink).1⟩

theorem numbers_perm (closed : Closed tasks junctions) :
    (numbers tasks junctions).Perm (List.range tasks.length) := by
  refine (List.mergeSort_perm _ _).trans ?_
  refine (List.perm_ext_iff_of_nodup (nodup_eraseDups _) List.nodup_range).mpr ?_
  intro place
  rw [List.mem_eraseDups, List.mem_append, closed.numbered, List.mem_range]
  constructor
  · rintro (listed | later)
    · exact listed
    · obtain ⟨pair, present, rfl⟩ := List.mem_map.mp later
      exact (closed.known pair present).2
  · exact Or.inl

theorem order_ok {order : List Nat} (success : TaskGraph.order tasks junctions = .ok order) :
    order = Precedence.schedule (numbers tasks junctions) (precedence junctions) ∧
      order.length = tasks.length := by
  simp only [TaskGraph.order] at success
  split at success
  · next complete =>
    cases success
    exact ⟨rfl, complete⟩
  · cases success

theorem order_perm (closed : Closed tasks junctions) {order : List Nat}
    (success : TaskGraph.order tasks junctions = .ok order) :
    order.Perm (List.range tasks.length) := by
  obtain ⟨rfl, complete⟩ := order_ok success
  have taken : Precedence.Taken (numbers tasks junctions) (precedence junctions) _ :=
    Precedence.taken_schedule
  have all := numbers_perm closed
  refine (taken.perm_of_full ?_).trans all
  rw [all.length_eq, List.length_range, complete]

theorem respects_order {order : List Nat} (success : TaskGraph.order tasks junctions = .ok order) :
    Precedence.Respects (precedence junctions) order := by
  rw [(order_ok success).1]
  exact Precedence.taken_schedule.respects

theorem order_isOk_iff (closed : Closed tasks junctions) :
    (∃ order, TaskGraph.order tasks junctions = .ok order) ↔
      Precedence.Acyclic (precedence junctions) := by
  have all := numbers_perm closed
  have known : ∀ pair ∈ precedence junctions,
      pair.1 ∈ numbers tasks junctions ∧ pair.2 ∈ numbers tasks junctions := by
    intro pair present
    rw [all.mem_iff, all.mem_iff, List.mem_range, List.mem_range]
    exact closed.known pair present
  rw [← Precedence.schedule_perm_iff (all.nodup_iff.mpr List.nodup_range) known]
  constructor
  · rintro ⟨order, success⟩
    have full := order_perm closed success
    rw [(order_ok success).1] at full
    exact full.trans all.symm
  · intro same
    refine ⟨_, if_pos ?_⟩
    rw [same.length_eq, all.length_eq, List.length_range]

theorem verify_eq (carries : ∀ junction ∈ junctions, Carries tasks junction)
    (joined : ∀ task ∈ tasks, Joined junctions task) :
    verify tasks junctions = TaskGraph.order tasks junctions := by
  have first : junctions.forM (checkJunction tasks) = .ok () :=
    forM_ok_iff.mpr fun junction listed => checkJunction_ok.mpr (carries junction listed)
  have second : tasks.forM (checkTask junctions) = .ok () :=
    forM_ok_iff.mpr fun task listed => checkTask_ok.mpr (joined task listed)
  rw [verify, first, second]
  rfl

/-- Where all inputs are fed once, what is wrong is one of the outputs, or the order. -/
theorem verify_cases (carries : ∀ junction ∈ junctions, Carries tasks junction)
    (inputs : ∀ task ∈ tasks, ∀ slot, slot < task.operator.inputs →
      (fed junctions).count ⟨task.id, slot⟩ = 1) :
    (∀ task ∈ tasks, Joined junctions task) ∨
    ∃ task ∈ tasks, ∃ slot, slot < task.operator.outputs ∧
      (carried junctions).count ⟨task.id, slot⟩ ≠ 1 ∧
        verify tasks junctions =
          .error (noSingleJunction ⟨task.id, slot⟩ task.operator.name) := by
  have first : junctions.forM (checkJunction tasks) = .ok () :=
    forM_ok_iff.mpr fun junction listed => checkJunction_ok.mpr (carries junction listed)
  cases second : tasks.forM (checkTask junctions) with
  | ok => exact Or.inl fun task listed => checkTask_ok.mp (forM_ok_iff.mp second task listed)
  | error error =>
    obtain ⟨task, listed, failed⟩ := exists_forM_error second
    obtain ⟨slot, within, many, rfl⟩ := checkTask_error (inputs task listed) failed
    refine Or.inr ⟨task, listed, slot, within, many, ?_⟩
    rw [verify, first, second]
    rfl

theorem verify_ok {order : List Nat} (success : verify tasks junctions = .ok order) :
    (∀ junction ∈ junctions, Carries tasks junction) ∧ (∀ task ∈ tasks, Joined junctions task) ∧
      TaskGraph.order tasks junctions = .ok order := by
  obtain ⟨carries, success⟩ := seq_ok_iff.mp success
  obtain ⟨joined, ordered⟩ := seq_ok_iff.mp success
  exact ⟨fun junction listed => checkJunction_ok.mp (forM_ok_iff.mp carries junction listed),
    fun task listed => checkTask_ok.mp (forM_ok_iff.mp joined task listed), ordered⟩

/-- A graph that is accepted though its tasks need not be numbered by their places. -/
structure Accepted (tasks : List (Task α)) (junctions : List (Junction α)) (order : List Nat) :
    Prop where
  read : ∀ junction ∈ junctions, junction.targets ≠ []
  joined : ∀ task ∈ tasks, Joined junctions task
  distinct : order.Nodup
  known : ∀ number ∈ order, number ∈ tasks.map (·.id) ∨ ∃ slot ∈ fed junctions, slot.task = number
  length : order.length = tasks.length

theorem accepted_of_verify {order : List Nat} (success : verify tasks junctions = .ok order) :
    Accepted tasks junctions order := by
  obtain ⟨carries, joined, ordered⟩ := verify_ok success
  obtain ⟨rfl, length⟩ := order_ok ordered
  have taken : Precedence.Taken (numbers tasks junctions) (precedence junctions) _ :=
    Precedence.taken_schedule
  refine ⟨fun junction listed => (carries junction listed).read, joined, taken.nodup, ?_, length⟩
  intro number listed
  have among := taken.known number listed
  rw [numbers, List.mem_mergeSort, List.mem_eraseDups, List.mem_append] at among
  refine among.imp_right fun later => ?_
  obtain ⟨⟨earlier, last⟩, present, same⟩ := List.mem_map.mp later
  obtain ⟨junction, listed, -, target, feeds, ends⟩ := mem_precedence.mp present
  refine ⟨target.consumer, ?_, ends.trans same⟩
  exact List.mem_flatMap.mpr ⟨junction, listed, List.mem_map_of_mem feeds⟩

end CrossPlan.TaskGraph
