import CrossPlan.Proofs.Execution.Conservation
import CrossPlan.Proofs.Execution.Downstream
import CrossPlan.Proofs.Execution.Tracing

/-!
# The lineage of a run

A run that ends well leaves the lineage that its plan lays down.  Its edges lead forward, each task
has a node for its preparation and one for its work, an output comes behind the work of its task and
a conversion behind what it converts, and the work of a task comes behind its preparation and what
arrived last at its inputs.  Runs that differ in what the operators read have lineages of one shape.
-/

set_option autoImplicit false

namespace CrossPlan

open Sequence RunStep

variable {α : Type} {plan : ExecutionPlan α} {lineage : Lineage α} {mark : Mark}

/-! ## Labels -/

namespace ExecutionPlan

theorem phase_of_label? {label : Nat × String × Phase} (found : plan.label? mark = some label) :
    label.2.2 = mark.phase := by
  cases mark with
  | conversion number slot place step =>
    simp only [label?, Option.bind_eq_bind, Option.bind_eq_some_iff] at found
    obtain ⟨target, -, conversion, -, same⟩ := found
    cases same
    rfl
  | _ =>
    obtain ⟨task, -, rfl⟩ := Option.map_eq_some_iff.mp found
    rfl

/-- The last mark on the way from an output of a task to an input. -/
def LastOnWay (plan : ExecutionPlan α) (input : TaskSlot) (mark : Mark) : Prop :=
  ∃ number slot place junction target, (plan.outletsOf number)[slot]? = some junction ∧
    junction.targets[place]? = some target ∧ target.consumer = input ∧
    mark = .reached number slot place target.conversions.length

theorem lastOnWay_of_arrival? {number : Nat} {input : TaskSlot}
    (found : plan.arrival? number input = some mark) : plan.LastOnWay input mark := by
  have listed := List.mem_reverse.mp (mem_of_lookup found)
  obtain ⟨sender, -, sent⟩ := List.mem_flatMap.mp listed
  obtain ⟨⟨junction, slot⟩, outlet, sent⟩ := List.mem_flatMap.mp sent
  obtain ⟨⟨target, place⟩, aimed, same⟩ := List.mem_map.mp sent
  rw [JunctionTarget.arrival, Prod.mk.injEq] at same
  exact ⟨sender, slot, place, junction, target, List.mk_mem_zipIdx_iff_getElem?.mp outlet,
    List.mk_mem_zipIdx_iff_getElem?.mp aimed, same.1, same.2.symm⟩

end ExecutionPlan

/-! ## The finished lineage -/

namespace Drawn

theorem map_nodes (drawn : Drawn plan plan.marks lineage) :
    lineage.nodes.map (fun node => (node.task, node.operator, node.phase)) =
      plan.marks.filterMap plan.label? := by
  have nodes := drawn.nodes
  generalize plan.marks = marks at nodes ⊢
  generalize lineage.nodes = nodes' at nodes ⊢
  induction nodes with
  | nil => rfl
  | cons depicts _ ih => rw [List.map_cons, List.filterMap_cons, depicts.1, ih]

theorem shape_eq (drawn : Drawn plan plan.marks lineage) : lineage.shape = plan.sketch := by
  rw [Lineage.shape, ExecutionPlan.sketch, drawn.map_nodes, drawn.edges]

theorem exists_node (drawn : Drawn plan plan.marks lineage) (listed : mark ∈ plan.marks) :
    ∃ node, lineage.nodes[plan.place mark]? = some node ∧ plan.Depicts mark node := by
  obtain ⟨node, here, depicts⟩ := getElem?_left drawn.nodes (List.getElem?_idxOf listed)
  exact ⟨node, here, depicts⟩

theorem exists_mark (drawn : Drawn plan plan.marks lineage) (distinct : plan.marks.Nodup)
    {number : Nat} {node : LineageNode α} (here : lineage.nodes[number]? = some node) :
    ∃ mark ∈ plan.marks, plan.place mark = number ∧ plan.Depicts mark node := by
  obtain ⟨mark, found, depicts⟩ := getElem?_right drawn.nodes here
  obtain ⟨within, rfl⟩ := List.getElem?_eq_some_iff.mp found
  exact ⟨_, List.getElem_mem within, distinct.idxOf_getElem number within, depicts⟩

theorem predecessors_eq (drawn : Drawn plan plan.marks lineage) (distinct : plan.marks.Nodup)
    (listed : mark ∈ plan.marks) :
    lineage.predecessors (plan.place mark) = ((plan.before mark).map plan.place).eraseDups := by
  have other : ∀ marks, mark ∉ marks → (∀ mark' ∈ marks, mark' ∈ plan.marks) →
      (plan.edgesOf marks).filter (fun edge => edge.2 == plan.place mark) = [] := by
    intro marks absent among
    rw [List.filter_eq_nil_iff]
    intro edge present same
    obtain ⟨mark', listed', _, _, rfl⟩ := ExecutionPlan.mem_edgesOf present
    have equal := (List.idxOf_inj (among mark' listed')).mp (eq_of_beq same)
    exact absent (equal ▸ listed')
  have own : (plan.edgesOf [mark]).filter (fun edge => edge.2 == plan.place mark) =
      plan.edgesOf [mark] := by
    rw [List.filter_eq_self]
    intro edge present
    obtain ⟨mark', listed', _, _, rfl⟩ := ExecutionPlan.mem_edgesOf present
    rw [List.mem_singleton.mp listed']
    exact beq_self_eq_true _
  have edges : lineage.edges.filter (fun edge => edge.2 == plan.place mark) =
      plan.edgesOf [mark] := by
    obtain ⟨ahead, behind, split⟩ := List.append_of_mem listed
    rw [split, List.nodup_append, List.nodup_cons] at distinct
    obtain ⟨-, ⟨last, -⟩, apart⟩ := distinct
    have first : mark ∉ ahead := fun early => apart mark early mark List.mem_cons_self rfl
    rw [drawn.edges, split, List.append_cons, plan.edgesOf_append, plan.edgesOf_append,
      List.filter_append, List.filter_append, own,
      other ahead first fun _ early => by simp [split, early],
      other behind last fun _ late => by simp [split, late]]
    simp
  have injective : Function.Injective fun earlier : Nat => (earlier, plan.place mark) :=
    fun _ _ same => congrArg Prod.fst same
  have grouped := eraseDups_map injective ((plan.before mark).map plan.place)
  rw [List.map_map] at grouped
  rw [Lineage.predecessors, edges, ExecutionPlan.edgesOf, List.flatMap_singleton]
  change (List.eraseDups (List.map ((fun earlier => (earlier, plan.place mark)) ∘ plan.place)
    (plan.before mark))).map (·.1) = _
  rw [grouped, List.map_map]
  exact List.map_id _

end Drawn

namespace Lineage

theorem mem_ofPhase {phase : Phase} {number : Nat} {node : LineageNode α} :
    (number, node) ∈ lineage.ofPhase phase ↔
      lineage.nodes[number]? = some node ∧ node.phase = phase := by
  simp only [ofPhase, List.mem_map, List.mem_filter, Prod.exists, Prod.mk.injEq,
    List.mk_mem_zipIdx_iff_getElem?, beq_iff_eq]
  constructor
  · rintro ⟨_, _, ⟨here, same⟩, rfl, rfl⟩
    exact ⟨here, same⟩
  · rintro ⟨here, same⟩
    exact ⟨node, number, ⟨here, same⟩, rfl, rfl⟩

theorem map_ofPhase (lineage : Lineage α) (phase : Phase) :
    (lineage.ofPhase phase).map (fun entry => (entry.2.task, entry.2.operator)) =
      ((lineage.nodes.map fun node => (node.task, node.operator, node.phase)).filter
        fun label => label.2.2 == phase).map fun label => (label.1, label.2.1) := by
  have nodes : (lineage.ofPhase phase).map (·.2) =
      lineage.nodes.filter fun node => node.phase == phase := by
    rw [ofPhase, List.map_map]
    conv_rhs => rw [← List.zipIdx_map_fst 0 lineage.nodes, List.filter_map]
    rfl
  rw [List.filter_map, List.map_map]
  change _ = (lineage.nodes.filter fun node => node.phase == phase).map
    fun node => (node.task, node.operator)
  rw [← nodes, List.map_map]
  rfl

end Lineage

namespace ExecutionPlan

/-- The first two marks of a task are the only ones of their phases. -/
theorem labels_marksOf {number : Nat} {task : Task α} (found : plan.tasks[number]? = some task)
    {phase : Phase} (own : phase = .prepare ∨ phase = .main) :
    (((plan.marksOf number).filterMap plan.label?).filter fun label => label.2.2 == phase).map
      (fun label => (label.1, label.2.1)) = [(task.id, task.operator.name)] := by
  have rest : ((((plan.outletsOf number).zipIdx.flatMap fun entry =>
      entry.1.marks number entry.2).filterMap plan.label?).filter fun label =>
        label.2.2 == phase) = [] := by
    rw [List.filter_eq_nil_iff]
    intro label listed same
    obtain ⟨mark, present, named⟩ := List.mem_filterMap.mp listed
    obtain ⟨entry, -, here⟩ := List.mem_flatMap.mp present
    rw [beq_iff_eq, phase_of_label? named] at same
    rcases mem_marks_junction here with rfl | ⟨_, _, rfl⟩ <;> rcases own with rfl | rfl <;>
      cases same
  have first : plan.label? (.prepare number) = some (task.id, task.operator.name, .prepare) := by
    rw [label?, found]
    rfl
  have second : plan.label? (.main number) = some (task.id, task.operator.name, .main) := by
    rw [label?, found]
    rfl
  rw [marksOf, List.filterMap_cons, first, List.filterMap_cons, second]
  rcases own with rfl | rfl <;> simp [rest]

theorem order_perm_range (distinct : plan.order.Nodup)
    (length : plan.order.length = plan.tasks.length)
    (served : ∀ number ∈ plan.order, Served plan number) :
    plan.order.Perm (List.range plan.tasks.length) := by
  have within : plan.order ⊆ List.range plan.tasks.length := by
    intro number listed
    obtain ⟨task, found, -⟩ := served number listed
    exact List.mem_range.mpr (List.getElem?_eq_some_iff.mp found).1
  apply (List.subperm_of_subset distinct within).perm_of_length_le
  rw [List.length_range, length]

theorem perm_ofPhase (drawn : Drawn plan plan.marks lineage)
    (order : plan.order.Perm (List.range plan.tasks.length)) {phase : Phase}
    (own : phase = .prepare ∨ phase = .main) :
    ((lineage.ofPhase phase).map fun entry => (entry.2.task, entry.2.operator)).Perm
      (plan.tasks.map fun task => (task.id, task.operator.name)) := by
  have each : ∀ number ∈ plan.order,
      (((plan.marksOf number).filterMap plan.label?).filter fun label => label.2.2 == phase).map
        (fun label => (label.1, label.2.1)) =
      (plan.tasks[number]?.map fun task => (task.id, task.operator.name)).toList := by
    intro number listed
    have within := List.mem_range.mp (order.subset listed)
    have found := List.getElem?_eq_getElem within
    rw [labels_marksOf found own, found]
    rfl
  have all : (List.range plan.tasks.length).flatMap (fun number =>
      (plan.tasks[number]?.map fun task => (task.id, task.operator.name)).toList) =
        plan.tasks.map fun task => (task.id, task.operator.name) := by
    have looked := congrArg (List.flatMap fun task? : Option (Task α) =>
      (task?.map fun task => (task.id, task.operator.name)).toList) (map_getElem?_range plan.tasks)
    rw [List.flatMap_map, List.flatMap_map] at looked
    rw [looked]
    exact List.map_eq_flatMap.symm
  rw [lineage.map_ofPhase, drawn.map_nodes, marks, List.filterMap_flatMap, List.filter_flatMap,
    List.map_flatMap, List.flatMap_congr each, ← all]
  exact order.flatMap_right _

/-! ## What a lineage says -/

theorem acyclic_of_forward {edges : List (Nat × Nat)}
    (forward : ∀ edge ∈ edges, edge.1 < edge.2) (number : Nat) :
    ¬Relation.TransGen (fun earlier later => (earlier, later) ∈ edges) number number := by
  intro cycle
  have ascends : ∀ {first last}, Relation.TransGen (fun earlier later => (earlier, later) ∈ edges)
      first last → first < last := by
    intro first last path
    induction path with
    | single edge => exact forward _ edge
    | tail _ edge ih => exact ih.trans (forward _ edge)
  exact (ascends cycle).false

/-- The lineage of a run that ended well, beside the figures of the run. -/
structure Traced (plan : ExecutionPlan α) (lineage : Lineage α) : Prop where
  /-- each node has a mark of its own -/
  distinct : plan.marks.Nodup
  depicts : List.Forall₂ plan.Depicts plan.marks lineage.nodes
  forward : ∀ edge ∈ lineage.edges, edge.1 < edge.2
  acyclic : ∀ number,
    ¬Relation.TransGen (fun earlier later => (earlier, later) ∈ lineage.edges) number number
  prepared : ((lineage.ofPhase .prepare).map fun entry => (entry.2.task, entry.2.operator)).Perm
    (plan.tasks.map fun task => (task.id, task.operator.name))
  ran : ((lineage.ofPhase .main).map fun entry => (entry.2.task, entry.2.operator)).Perm
    (plan.tasks.map fun task => (task.id, task.operator.name))
  channels : ∀ number node, (number, node) ∈ lineage.ofPhase .channel → ∃ earlier main,
    lineage.predecessors number = [earlier] ∧ (earlier, main) ∈ lineage.ofPhase .main ∧
      main.task = node.task ∧ main.operator = node.operator
  conversions : ∀ number node, (number, node) ∈ lineage.ofPhase .conversion →
    (∃ earlier converted, lineage.predecessors number = [earlier] ∧
      ((earlier, converted) ∈ lineage.ofPhase .channel ∨
        (earlier, converted) ∈ lineage.ofPhase .conversion)) ∧
    ∃ cost, node.realized = some cost ∧ cost.inputRows = cost.outputRows
  /-- the work of a task comes behind its preparation and what arrived last at each input -/
  mains : ∀ number task, plan.tasks[number]? = some task → ∃ arrived,
    List.Forall₂ (fun slot mark => plan.arrival? number ⟨task.id, slot⟩ = some mark ∧
      mark ∈ plan.marks ∧ plan.LastOnWay ⟨task.id, slot⟩ mark)
      (List.range task.operator.inputs) arrived ∧
    .prepare number ∈ plan.marks ∧ .main number ∈ plan.marks ∧
    lineage.predecessors (plan.place (.main number)) =
      (plan.place (.prepare number) :: arrived.map plan.place).eraseDups

theorem channel_of_drawn (drawn : Drawn plan plan.marks lineage) (distinct : plan.marks.Nodup)
    {number : Nat} {node : LineageNode α} (listed : (number, node) ∈ lineage.ofPhase .channel) :
    ∃ earlier main, lineage.predecessors number = [earlier] ∧
      (earlier, main) ∈ lineage.ofPhase .main ∧ main.task = node.task ∧
        main.operator = node.operator := by
  obtain ⟨here, phase⟩ := Lineage.mem_ofPhase.mp listed
  obtain ⟨mark, present, rfl, depicts, -⟩ := drawn.exists_mark distinct here
  have same := phase_of_label? depicts
  cases mark with
  | channel number slot =>
    have known := drawn.closed _ present (.main number) (by simp [before])
    obtain ⟨main, there, depicts', -⟩ := drawn.exists_node known
    have phase' := phase_of_label? depicts'
    refine ⟨plan.place (.main number), main, ?_, Lineage.mem_ofPhase.mpr ⟨there, phase'⟩, ?_⟩
    · rw [drawn.predecessors_eq distinct present]
      simp [before, List.eraseDups_cons]
    · obtain ⟨task, found, named⟩ := Option.map_eq_some_iff.mp depicts
      obtain ⟨task', found', named'⟩ := Option.map_eq_some_iff.mp depicts'
      obtain rfl := Option.some.inj (found.symm.trans found')
      simp only [Prod.mk.injEq] at named named'
      exact ⟨named'.1.symm.trans named.1, named'.2.1.symm.trans named.2.1⟩
  | _ => cases same.symm.trans phase

theorem conversion_of_drawn (drawn : Drawn plan plan.marks lineage) (distinct : plan.marks.Nodup)
    {number : Nat} {node : LineageNode α} (listed : (number, node) ∈ lineage.ofPhase .conversion) :
    (∃ earlier converted, lineage.predecessors number = [earlier] ∧
      ((earlier, converted) ∈ lineage.ofPhase .channel ∨
        (earlier, converted) ∈ lineage.ofPhase .conversion)) ∧
    ∃ cost, node.realized = some cost ∧ cost.inputRows = cost.outputRows := by
  obtain ⟨here, phase⟩ := Lineage.mem_ofPhase.mp listed
  obtain ⟨mark, present, rfl, depicts, rows⟩ := drawn.exists_mark distinct here
  refine ⟨?_, rows phase⟩
  have same := phase_of_label? depicts
  cases mark with
  | conversion number slot place step =>
    have known := drawn.closed _ present (.reached number slot place step) (by simp [before])
    obtain ⟨converted, there, depicts', -⟩ := drawn.exists_node known
    have phase' := phase_of_label? depicts'
    refine ⟨plan.place (.reached number slot place step), converted, ?_, ?_⟩
    · rw [drawn.predecessors_eq distinct present]
      simp [before, List.eraseDups_cons]
    · cases step with
      | zero => exact Or.inl (Lineage.mem_ofPhase.mpr ⟨there, phase'⟩)
      | succ step => exact Or.inr (Lineage.mem_ofPhase.mpr ⟨there, phase'⟩)
  | _ => cases same.symm.trans phase

theorem main_of_drawn (drawn : Drawn plan plan.marks lineage) (distinct : plan.marks.Nodup)
    {number : Nat} {task : Task α} (found : plan.tasks[number]? = some task)
    (listed : number ∈ plan.order) (served : Served plan number) : ∃ arrived,
    List.Forall₂ (fun slot mark => plan.arrival? number ⟨task.id, slot⟩ = some mark ∧
      mark ∈ plan.marks ∧ plan.LastOnWay ⟨task.id, slot⟩ mark)
      (List.range task.operator.inputs) arrived ∧
    .prepare number ∈ plan.marks ∧ .main number ∈ plan.marks ∧
    lineage.predecessors (plan.place (.main number)) =
      (plan.place (.prepare number) :: arrived.map plan.place).eraseDups := by
  have prepare : .prepare number ∈ plan.marks :=
    List.mem_flatMap.mpr ⟨number, listed, by simp [marksOf]⟩
  have main : .main number ∈ plan.marks :=
    List.mem_flatMap.mpr ⟨number, listed, by simp [marksOf]⟩
  obtain ⟨task', found', arrivals⟩ := served
  obtain rfl := Option.some.inj (found.symm.trans found')
  refine ⟨plan.inputsOf number, ?_, prepare, main, drawn.predecessors_eq distinct main⟩
  rw [inputsOf, found]
  dsimp only
  have each : ∀ slot ∈ List.range task.operator.inputs, ∃ mark ∈ plan.marks,
      plan.arrival? number ⟨task.id, slot⟩ = some mark :=
    fun slot within => arrivals slot (List.mem_range.mp within)
  generalize List.range task.operator.inputs = slots at each ⊢
  induction slots with
  | nil => exact .nil
  | cons slot rest ih =>
    obtain ⟨⟨mark, known, here⟩, later⟩ := List.forall_mem_cons.mp each
    rw [List.filterMap_cons, here]
    exact .cons ⟨here, known, lastOnWay_of_arrival? here⟩ (ih later)

/-! ## Other evaluators -/

section Reequipped

variable (plan) (places : List Nat) (evaluate : Nat → Evaluator α)

theorem outletsOf_reequipped :
    (plan.reequipped places evaluate).outletsOf = plan.outletsOf := by
  funext number
  rw [outletsOf, outletsOf, reequipped, List.getElem?_mapIdx]
  cases plan.tasks[number]? with
  | none => rfl
  | some task => by_cases other : number ∈ places <;> simp [other] <;> rfl

theorem marks_reequipped : (plan.reequipped places evaluate).marks = plan.marks := by
  have each : (plan.reequipped places evaluate).marksOf = plan.marksOf := by
    funext number
    rw [marksOf, marksOf, outletsOf_reequipped]
  rw [marks, marks, each]
  rfl

theorem before_reequipped : (plan.reequipped places evaluate).before = plan.before := by
  have arrivals : (plan.reequipped places evaluate).arrivalsOf = plan.arrivalsOf := by
    funext number
    rw [arrivalsOf, arrivalsOf, outletsOf_reequipped]
  have arrival : (plan.reequipped places evaluate).arrival? = plan.arrival? := by
    funext number input
    rw [arrival?, arrival?, arrivals]
    rfl
  have inputs : (plan.reequipped places evaluate).inputsOf = plan.inputsOf := by
    funext number
    rw [inputsOf, inputsOf, arrival, reequipped, List.getElem?_mapIdx]
    cases plan.tasks[number]? with
    | none => rfl
    | some task => by_cases other : number ∈ places <;> simp [other]
  funext mark
  cases mark with
  | main number => rw [before, before, inputs]
  | _ => rfl

theorem label?_reequipped : (plan.reequipped places evaluate).label? = plan.label? := by
  funext mark
  cases mark with
  | conversion number slot place step => rw [label?, label?, outletsOf_reequipped]
  | _ number =>
    simp only [label?, reequipped, List.getElem?_mapIdx]
    cases plan.tasks[number]? with
    | none => rfl
    | some task => by_cases other : number ∈ places <;> simp [other]

/-- What the operators do has no part in the sketch. -/
theorem sketch_reequipped : (plan.reequipped places evaluate).sketch = plan.sketch := by
  have places_eq : (plan.reequipped places evaluate).place = plan.place := by
    funext mark
    rw [place, place, marks_reequipped]
  have edges : (plan.reequipped places evaluate).edgesOf = plan.edgesOf := by
    funext marks
    simp only [edgesOf, before_reequipped, places_eq]
  rw [sketch, sketch, marks_reequipped, label?_reequipped, edges]

end Reequipped

/-! ## Runs -/

variable [Quantity α] {settings : RunSettings α} {workspace : Workspace} {state : RunState α}

theorem drawn_of_runIn (distinct : plan.order.Nodup)
    (reports : ∀ task ∈ plan.tasks, task.operator.Reports)
    (run : plan.runIn settings workspace = (.ok (), state)) :
    (∀ number ∈ plan.order, Served plan number) ∧ Drawn plan plan.marks state.lineage :=
  (yields_runPlan_next distinct reports _).of_run run

/-- A run that ends well leaves the lineage that its plan lays down, whatever the operators read and
put out: other runs of the plan, also with other evaluators, leave a lineage of the same shape. -/
theorem traced_of_runIn {tasks : List (Task α)} {junctions : List (Junction α)} {score : Score α}
    {epoch : Nat} (accepted : create tasks junctions score epoch = .ok plan)
    (reports : ∀ task ∈ tasks, task.operator.Reports)
    (run : plan.runIn settings workspace = (.ok (), state)) :
    plan.Traced state.lineage ∧
      ∀ places evaluate settings' workspace' state',
        (∀ task ∈ (plan.reequipped places evaluate).tasks, task.operator.Reports) →
        (plan.reequipped places evaluate).runIn settings' workspace' = (.ok (), state') →
        state'.lineage.shape = state.lineage.shape := by
  obtain ⟨order, verified, made⟩ := bind_ok_iff.mp accepted
  have graph := TaskGraph.accepted_of_verify verified
  have distinct : plan.order.Nodup := by
    cases made
    exact graph.distinct
  have length : plan.order.length = plan.tasks.length := by
    cases made
    exact graph.length
  have reports : ∀ task ∈ plan.tasks, task.operator.Reports := by
    cases made
    exact reports
  obtain ⟨served, drawn⟩ := drawn_of_runIn distinct reports run
  have once := nodup_marks distinct
  have all := order_perm_range distinct length served
  constructor
  · refine ⟨once, drawn.nodes, drawn.forward, acyclic_of_forward drawn.forward,
      perm_ofPhase drawn all (Or.inl rfl), perm_ofPhase drawn all (Or.inr rfl),
      fun number node => channel_of_drawn drawn once,
      fun number node => conversion_of_drawn drawn once, fun number task found => ?_⟩
    have within := (List.getElem?_eq_some_iff.mp found).1
    have listed := all.symm.subset (List.mem_range.mpr within)
    exact main_of_drawn drawn once found listed (served number listed)
  · intro places evaluate settings' workspace' state' reports' run'
    have distinct' : (plan.reequipped places evaluate).order.Nodup := distinct
    obtain ⟨-, drawn'⟩ := drawn_of_runIn distinct' reports' run'
    rw [drawn.shape_eq, drawn'.shape_eq, sketch_reequipped]

def forkOther (_ : Nat) : Evaluator Rat :=
  (BoundAction.collectionSource [⟨[("n", .int 2)]⟩, ⟨[("n", .int 3)]⟩]).evaluate "source" .inProcess

theorem fork_reports : ∀ task ∈ forkTasks, task.operator.Reports := by
  intro task listed
  rcases List.mem_cons.mp listed with rfl | listed
  · exact BoundAction.reports _ _ _ _
  rcases List.mem_pair.mp listed with rfl | rfl
  · exact BoundAction.reports _ _ _ _
  · exact BoundAction.reports _ _ _ _

theorem forkOther_reports :
    ∀ task ∈ (forkPlan.reequipped [0] forkOther).tasks, task.operator.Reports := by
  intro task listed
  rcases List.mem_cons.mp listed with rfl | others
  · exact BoundAction.reports (.collectionSource _) "source" .inProcess 0
  · exact fork_reports task (List.mem_cons_of_mem _ others)

theorem forkOther_run :
    ((forkPlan.reequipped [0] forkOther).runIn ⟨4, fun _ _ => 0⟩ .empty).1 = .ok () := by
  decide +kernel

/-- The lineage does not tell a source of one row from one of two rows. -/
theorem traced_of_runIn_fork :
    (forkPlan.runIn ⟨4, fun _ _ => 0⟩ .empty).1 = .ok () ∧ ∃ state state',
      forkPlan.runIn ⟨4, fun _ _ => 0⟩ .empty = (.ok (), state) ∧
      (forkPlan.reequipped [0] forkOther).runIn ⟨4, fun _ _ => 0⟩ .empty = (.ok (), state') ∧
      forkPlan.Traced state.lineage ∧ state'.lineage.shape = state.lineage.shape := by
  refine ⟨fork_run, ?_⟩
  have ended := fork_run
  have ended' := forkOther_run
  cases run : forkPlan.runIn ⟨4, fun _ _ => 0⟩ .empty with
  | mk result state =>
    cases run' : (forkPlan.reequipped [0] forkOther).runIn ⟨4, fun _ _ => 0⟩ .empty with
    | mk result' state' =>
      rw [run] at ended
      rw [run'] at ended'
      obtain rfl : result = .ok () := ended
      obtain rfl : result' = .ok () := ended'
      obtain ⟨traced, alike⟩ := traced_of_runIn fork_accepted fork_reports run
      exact ⟨state, state', rfl, rfl, traced,
        alike [0] forkOther _ _ _ forkOther_reports run'⟩

end ExecutionPlan

end CrossPlan
