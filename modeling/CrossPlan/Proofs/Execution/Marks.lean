import CrossPlan.Proofs.Execution.Growth

/-!
# What a run notes

The nodes of a lineage are laid down by the plan.  A mark says what a node is noted for: a task has
one for its preparation and one for its work, one for each of its outputs, and one for each
conversion on the way from an output to a target.  From the plan follow the order of the marks, what
the nodes say of themselves beside the figures of a run, and which nodes come before which.
-/

set_option autoImplicit false

namespace CrossPlan

variable {α β : Type}

inductive Mark where
  | prepare (number : Nat)
  | main (number : Nat)
  | channel (number slot : Nat)
  | conversion (number slot target step : Nat)
  deriving DecidableEq

namespace Mark

def phase : Mark → Phase
  | .prepare _ => .prepare
  | .main _ => .main
  | .channel _ _ => .channel
  | .conversion _ _ _ _ => .conversion

def number : Mark → Nat
  | .prepare number | .main number | .channel number _ | .conversion number _ _ _ => number

def slot : Mark → Nat
  | .channel _ slot | .conversion _ slot _ _ => slot
  | _ => 0

def target : Mark → Nat
  | .conversion _ _ target _ => target
  | _ => 0

/-- Where an output is on the way to a target, after some conversions. -/
def reached (number slot target : Nat) : (steps : Nat) → Mark
  | 0 => .channel number slot
  | step + 1 => .conversion number slot target step

end Mark

/-! ## The marks of a plan -/

namespace JunctionTarget

def marks (target : JunctionTarget α) (number slot place : Nat) : List Mark :=
  (List.range target.conversions.length).map (.conversion number slot place)

def arrival (target : JunctionTarget α) (number slot place : Nat) : TaskSlot × Mark :=
  (target.consumer, .reached number slot place target.conversions.length)

end JunctionTarget

namespace Junction

def marks (junction : Junction α) (number slot : Nat) : List Mark :=
  .channel number slot ::
    junction.targets.zipIdx.flatMap fun entry => entry.1.marks number slot entry.2

def arrivals (junction : Junction α) (number slot : Nat) : List (TaskSlot × Mark) :=
  junction.targets.zipIdx.map fun entry => entry.1.arrival number slot entry.2

end Junction

namespace ExecutionPlan

def outletsOf (plan : ExecutionPlan α) (number : Nat) : List (Junction α) :=
  (plan.tasks[number]?.map plan.outlets).getD []

def marksOf (plan : ExecutionPlan α) (number : Nat) : List Mark :=
  .prepare number :: .main number ::
    (plan.outletsOf number).zipIdx.flatMap fun entry => entry.1.marks number entry.2

def arrivalsOf (plan : ExecutionPlan α) (number : Nat) : List (TaskSlot × Mark) :=
  (plan.outletsOf number).zipIdx.flatMap fun entry => entry.1.arrivals number entry.2

def marks (plan : ExecutionPlan α) : List Mark := plan.order.flatMap plan.marksOf

def place (plan : ExecutionPlan α) (mark : Mark) : Nat := plan.marks.idxOf mark

/-- What was sent last to an input before the task of a number has its turn: an output that goes
there as it is, or the last conversion on the way. -/
def arrival? (plan : ExecutionPlan α) (number : Nat) (input : TaskSlot) : Option Mark :=
  ((plan.order.takeWhile (· != number)).flatMap plan.arrivalsOf).reverse.lookup input

def inputsOf (plan : ExecutionPlan α) (number : Nat) : List Mark :=
  match plan.tasks[number]? with
  | some task => (List.range task.operator.inputs).filterMap fun slot =>
      plan.arrival? number ⟨task.id, slot⟩
  | none => []

def before (plan : ExecutionPlan α) : Mark → List Mark
  | .prepare _ => []
  | .main number => .prepare number :: plan.inputsOf number
  | .channel number _ => [.main number]
  | .conversion number slot target step => [.reached number slot target step]

def label? (plan : ExecutionPlan α) : Mark → Option (Nat × String × Phase)
  | .prepare number => plan.tasks[number]?.map fun task => (task.id, task.operator.name, .prepare)
  | .main number => plan.tasks[number]?.map fun task => (task.id, task.operator.name, .main)
  | .channel number _ =>
    plan.tasks[number]?.map fun task => (task.id, task.operator.name, .channel)
  | .conversion number slot place step => do
    let target ← ((plan.outletsOf number)[slot]?).bind fun junction => junction.targets[place]?
    let conversion ← target.conversions[step]?
    pure (target.consumer.task, conversion.key, .conversion)

def edgesOf (plan : ExecutionPlan α) (marks : List Mark) : List (Nat × Nat) :=
  marks.flatMap fun mark =>
    ((plan.before mark).map fun earlier => (plan.place earlier, plan.place mark)).eraseDups

/-- The shape that the lineage of each run has. -/
def sketch (plan : ExecutionPlan α) : Lineage.Shape :=
  ⟨plan.marks.filterMap plan.label?, plan.edgesOf plan.marks⟩

/-! ## No mark occurs twice -/

theorem nodup_flatMap_key {items : List β} {part : β → List Mark} (key : Mark → Nat)
    (name : β → Nat) (distinct : (items.map name).Nodup)
    (each : ∀ item ∈ items, (part item).Nodup)
    (keyed : ∀ item ∈ items, ∀ mark ∈ part item, key mark = name item) :
    (items.flatMap part).Nodup := by
  rw [List.nodup_flatMap]
  refine ⟨each, (List.pairwise_map.mp distinct).imp_of_mem ?_⟩
  intro first second listed listed' different mark one two
  apply different
  rw [← keyed first listed mark one, ← keyed second listed' mark two]

theorem nodup_zipIdx (items : List β) : (items.zipIdx.map fun entry => entry.2).Nodup := by
  rw [List.zipIdx_map_snd]
  exact List.nodup_range'

variable {plan : ExecutionPlan α} {mark : Mark}

theorem mem_marks_target {target : JunctionTarget α} {number slot place : Nat}
    (listed : mark ∈ target.marks number slot place) :
    ∃ step, mark = .conversion number slot place step := by
  obtain ⟨step, -, rfl⟩ := List.mem_map.mp listed
  exact ⟨step, rfl⟩

theorem mem_marks_junction {junction : Junction α} {number slot : Nat}
    (listed : mark ∈ junction.marks number slot) : mark = .channel number slot ∨
      ∃ target step, mark = .conversion number slot target step := by
  rcases List.mem_cons.mp listed with rfl | later
  · exact Or.inl rfl
  · obtain ⟨entry, -, here⟩ := List.mem_flatMap.mp later
    exact Or.inr ⟨entry.2, mem_marks_target here⟩

theorem number_of_mem_marksOf {number : Nat} (listed : mark ∈ plan.marksOf number) :
    mark.number = number := by
  simp only [marksOf, List.mem_cons, List.mem_flatMap] at listed
  rcases listed with rfl | rfl | ⟨entry, -, here⟩
  · rfl
  · rfl
  · rcases mem_marks_junction here with rfl | ⟨_, _, rfl⟩ <;> rfl

theorem nodup_marks_junction (junction : Junction α) (number slot : Nat) :
    (junction.marks number slot).Nodup := by
  refine List.nodup_cons.mpr ⟨fun listed => ?_, ?_⟩
  · obtain ⟨entry, -, here⟩ := List.mem_flatMap.mp listed
    obtain ⟨_, same⟩ := mem_marks_target here
    cases same
  · apply nodup_flatMap_key Mark.target (·.2) (nodup_zipIdx junction.targets)
    · intro entry _
      exact List.nodup_range.map fun step step' same => by injection same
    · intro entry _ mark listed
      obtain ⟨_, rfl⟩ := mem_marks_target listed
      rfl

theorem nodup_marksOf (plan : ExecutionPlan α) (number : Nat) : (plan.marksOf number).Nodup := by
  have outputs : ((plan.outletsOf number).zipIdx.flatMap fun entry =>
      entry.1.marks number entry.2).Nodup := by
    apply nodup_flatMap_key Mark.slot (·.2) (nodup_zipIdx _)
    · exact fun entry _ => nodup_marks_junction entry.1 number entry.2
    · intro entry _ mark listed
      rcases mem_marks_junction listed with rfl | ⟨_, _, rfl⟩ <;> rfl
  have apart : ∀ mark ∈ (plan.outletsOf number).zipIdx.flatMap (fun entry =>
      entry.1.marks number entry.2), mark ≠ .prepare number ∧ mark ≠ .main number := by
    intro mark listed
    obtain ⟨entry, -, here⟩ := List.mem_flatMap.mp listed
    rcases mem_marks_junction here with rfl | ⟨_, _, rfl⟩ <;> exact ⟨nofun, nofun⟩
  have work : .main number ∉ (plan.outletsOf number).zipIdx.flatMap fun entry =>
      entry.1.marks number entry.2 := fun listed => (apart _ listed).2 rfl
  refine List.nodup_cons.mpr ⟨?_, List.nodup_cons.mpr ⟨work, outputs⟩⟩
  rw [List.mem_cons, not_or]
  exact ⟨nofun, fun listed => (apart _ listed).1 rfl⟩

theorem nodup_marks (distinct : plan.order.Nodup) : plan.marks.Nodup := by
  apply nodup_flatMap_key Mark.number id
  · rwa [List.map_id]
  · exact fun number _ => plan.nodup_marksOf number
  · exact fun number _ mark listed => number_of_mem_marksOf listed

/-! ## Places of marks -/

theorem length_of_place {done : List Mark} (distinct : plan.marks.Nodup)
    (next : done ++ [mark] <+: plan.marks) : plan.place mark = done.length := by
  obtain ⟨ahead, split⟩ := next
  have fresh : mark ∉ done := by
    rw [← split, List.append_assoc, List.nodup_append] at distinct
    intro listed
    exact distinct.2.2 mark listed mark (by simp) rfl
  rw [place, ← split, List.append_assoc, List.idxOf_append_of_notMem fresh]
  simp

theorem place_lt {done : List Mark} (within : done <+: plan.marks) (listed : mark ∈ done) :
    plan.place mark < done.length := by
  obtain ⟨ahead, split⟩ := within
  rw [place, ← split, List.idxOf_append_of_mem listed]
  exact List.idxOf_lt_length_iff.mpr listed

theorem edgesOf_append (plan : ExecutionPlan α) (first second : List Mark) :
    plan.edgesOf (first ++ second) = plan.edgesOf first ++ plan.edgesOf second :=
  List.flatMap_append

theorem mem_edgesOf {marks : List Mark} {edge : Nat × Nat} (listed : edge ∈ plan.edgesOf marks) :
    ∃ mark ∈ marks, ∃ earlier ∈ plan.before mark,
      edge = (plan.place earlier, plan.place mark) := by
  obtain ⟨mark, present, here⟩ := List.mem_flatMap.mp listed
  rw [List.mem_eraseDups] at here
  obtain ⟨earlier, among, rfl⟩ := List.mem_map.mp here
  exact ⟨mark, present, earlier, among, rfl⟩

end ExecutionPlan

/-! ## Noting a node -/

namespace Lineage

theorem nodes_precede (lineage : Lineage α) (earlier later : Nat) :
    (lineage.precede earlier later).nodes = lineage.nodes := by
  unfold precede
  split <;> rfl

theorem edges_precede (lineage : Lineage α) (earlier later : Nat) :
    (lineage.precede earlier later).edges =
      lineage.edges ++ [(earlier, later)].removeAll lineage.edges := by
  unfold precede
  by_cases known : (earlier, later) ∈ lineage.edges
  · simp [known, List.removeAll]
  · simp [known, List.removeAll]

theorem foldl_precede {lineage : Lineage α} {later : Nat}
    (fresh : ∀ edge ∈ lineage.edges, edge.2 ≠ later) (earlier : List Nat) :
    (earlier.foldl (fun lineage before => lineage.precede before later) lineage).nodes =
        lineage.nodes ∧
      (earlier.foldl (fun lineage before => lineage.precede before later) lineage).edges =
        lineage.edges ++ (earlier.map fun before => (before, later)).eraseDups := by
  induction earlier using List.reverseRecOn with
  | nil => simp
  | append_singleton earlier before ih =>
    obtain ⟨nodes, edges⟩ := ih
    have new : (before, later) ∉ lineage.edges := fun listed => fresh _ listed rfl
    rw [List.foldl_append, List.foldl_cons, List.foldl_nil, nodes_precede, edges_precede, edges]
    refine ⟨nodes, ?_⟩
    rw [List.map_append, List.map_singleton, List.eraseDups_append, List.append_assoc]
    by_cases known : before ∈ earlier
    · simp [List.removeAll, known]
    · simp [List.removeAll, known, new, List.eraseDups_cons]

end Lineage

/-- The node of a mark names what the mark says, and a conversion neither drops nor adds rows. -/
def ExecutionPlan.Depicts (plan : ExecutionPlan α) (mark : Mark) (node : LineageNode α) : Prop :=
  plan.label? mark = some (node.task, node.operator, node.phase) ∧
    (node.phase = .conversion → ∃ cost, node.realized = some cost ∧
      cost.inputRows = cost.outputRows)

/-- The lineage so far is the one that the plan lays down for some of the first marks. -/
structure Drawn (plan : ExecutionPlan α) (done : List Mark) (lineage : Lineage α) : Prop where
  within : done <+: plan.marks
  nodes : List.Forall₂ plan.Depicts done lineage.nodes
  edges : lineage.edges = plan.edgesOf done
  forward : ∀ edge ∈ lineage.edges, edge.1 < edge.2
  closed : ∀ mark ∈ done, ∀ earlier ∈ plan.before mark, earlier ∈ done

theorem Drawn.note {plan : ExecutionPlan α} {done : List Mark} {lineage : Lineage α}
    (drawn : Drawn plan done lineage) (distinct : plan.marks.Nodup) {mark : Mark}
    (next : done ++ [mark] <+: plan.marks) {node : LineageNode α} (depicts : plan.Depicts mark node)
    (known : ∀ earlier ∈ plan.before mark, earlier ∈ done) :
    lineage.size = plan.place mark ∧ Drawn plan (done ++ [mark])
      (((plan.before mark).map plan.place).foldl
        (fun after before => after.precede before lineage.size) (lineage.add node)) := by
  have length : done.length = lineage.size := drawn.nodes.length_eq
  have size : lineage.size = plan.place mark := by
    rw [← length, plan.length_of_place distinct next]
  have fresh : ∀ edge ∈ (lineage.add node).edges, edge.2 ≠ lineage.size := by
    intro edge listed
    obtain ⟨other, present, _, _, rfl⟩ := ExecutionPlan.mem_edgesOf (drawn.edges ▸ listed)
    have lower := ExecutionPlan.place_lt drawn.within present
    dsimp only
    omega
  obtain ⟨nodes, edges⟩ := Lineage.foldl_precede fresh ((plan.before mark).map plan.place)
  refine ⟨size, next, ?_, ?_, ?_, ?_⟩
  · rw [nodes]
    exact List.rel_append drawn.nodes (.cons depicts .nil)
  · rw [edges, plan.edgesOf_append, ← drawn.edges, List.map_map, size]
    simp only [ExecutionPlan.edgesOf, List.flatMap_singleton]
    rfl
  · intro edge listed
    rw [edges, List.mem_append, List.mem_eraseDups, List.map_map] at listed
    rcases listed with old | new
    · exact drawn.forward edge old
    · obtain ⟨earlier, among, rfl⟩ := List.mem_map.mp new
      have lower := ExecutionPlan.place_lt drawn.within (known earlier among)
      dsimp only [Function.comp_apply]
      omega
  · intro other listed earlier right
    apply List.mem_append_left
    rcases List.mem_append.mp listed with old | new
    · exact drawn.closed other old earlier right
    · exact known earlier (List.mem_singleton.mp new ▸ right)

end CrossPlan
