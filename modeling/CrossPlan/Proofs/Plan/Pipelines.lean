import CrossPlan.Proofs.Json.Fields
import CrossPlan.Proofs.Plan.Drafting

/-!
# Pipelines are wired as written

An accepted document becomes a plan whose operators are its steps and whose edges are those that the
steps ask for.  Little can be wrong with the plan of a document: every edge ascends, so that there
is no cycle, and every input is fed when its step is added.
-/

set_option autoImplicit false

namespace CrossPlan

open Sequence

/-! ## Wired plans -/

/-- A plan is made of steps as they are written. -/
structure Wired (steps : List PipelineStep) (plan : Plan) : Prop where
  operators : plan.operators = steps.mapIdx PipelineStep.operator
  counted : ∀ step ∈ steps, step.Counted
  named : ∀ name first second, Named steps first name → Named steps second name → first = second
  fed : ∀ target step, steps[target]? = some step →
    ∀ slot < step.width, ∃! source, Feeds steps source target slot
  edges : ∀ edge, edge ∈ plan.edges ↔ edge.source.slot = 0 ∧
    Feeds steps edge.source.operator edge.target.operator edge.target.slot
  single : (plan.edges.map (·.target)).Nodup

theorem Follows.wired {steps : List PipelineStep} {draft : PipelineDraft}
    (follows : Follows steps steps.length draft) : Wired steps draft.plan where
  operators := by rw [follows.operators, List.take_length]
  counted := by
    have counted := follows.counted
    rwa [List.take_length] at counted
  named := by
    intro name first second named named'
    exact follows.distinct name first second named.lt named'.lt named named'
  fed := by
    intro target step here slot inside
    have within := (List.getElem?_eq_some_iff.mp here).1
    obtain ⟨source, feeding⟩ := follows.fed target within step here slot inside
    have counted := follows.counted step (by rw [List.take_length]; exact List.mem_of_getElem? here)
    refine ⟨source, feeding, fun other feeding' => Feeds.unique ?_ here counted feeding' feeding⟩
    intro name first second earlier earlier'
    exact follows.distinct name first second (earlier.trans within) (earlier'.trans within)
  edges := by
    intro edge
    rw [follows.edges]
    refine and_iff_right_of_imp fun ⟨_, feeding⟩ => ?_
    obtain ⟨step, here⟩ := feeding.exists_step
    exact (List.getElem?_eq_some_iff.mp here).1
  single := follows.single

theorem PipelineStep.broadcasts_operator (step : PipelineStep) (id : Nat) :
    (step.operator id).broadcasts.map (·.2) = step.broadcasts.keys := by
  have main : (step.plain id).inputs.filter (·.broadcast) = [] := by
    simp [plain, Operator.create]
  have flagged : ((step.operator id).inputs.filter (·.broadcast)).map (·.name) =
      step.broadcasts.keys := by
    rw [operator, Operator.spread, List.filter_append, main]
    simp [List.filter_map, Function.comp_def]
  rw [← flagged, Operator.broadcasts, List.map_map,
    ← List.zipIdx_map_fst 0 (step.operator id).inputs, List.filter_map, List.map_map]
  simp [Function.comp_def]

namespace Wired

variable {steps : List PipelineStep} {plan : Plan}

theorem ascending (wired : Wired steps plan) {edge : Edge} (present : edge ∈ plan.edges) :
    edge.source.operator < edge.target.operator :=
  ((wired.edges edge).mp present).2.lt

theorem order (wired : Wired steps plan) : plan.order = .ok (List.range steps.length) := by
  rw [Plan.order_of_ascending fun _ => wired.ascending, Plan.size, wired.operators,
    List.length_mapIdx]

theorem exists_step (wired : Wired steps plan) {operator : Operator}
    (present : operator ∈ plan.operators) :
    ∃ (id : Nat) (step : PipelineStep), steps[id]? = some step ∧ operator = step.operator id := by
  rw [wired.operators, List.mem_iff_getElem?] at present
  obtain ⟨id, found⟩ := present
  rw [List.getElem?_mapIdx, Option.map_eq_some_iff] at found
  obtain ⟨step, here, rfl⟩ := found
  exact ⟨id, step, here, rfl⟩

theorem checkInputs (wired : Wired steps plan) {id : Nat} {step : PipelineStep}
    (here : steps[id]? = some step) : plan.checkInputs (step.operator id) = .ok () := by
  refine forM_ok_iff.mpr fun ⟨slot, place⟩ listed => ?_
  have inside : place < step.width := by
    have within := (List.getElem?_eq_some_iff.mp (List.mk_mem_zipIdx_iff_getElem?.mp listed)).1
    simpa [PipelineStep.operator, PipelineStep.plain, Operator.spread, Operator.create,
      PipelineStep.width, Table.keys, Table.size] using within
  obtain ⟨source, feeding, -⟩ := wired.fed id step here place inside
  have fed : (plan.producerOf? ⟨id, place⟩).isSome = true :=
    Plan.producerOf?_isSome.mpr (List.mem_map.mpr
      ⟨⟨⟨source, 0⟩, ⟨id, place⟩⟩, (wired.edges _).mpr ⟨rfl, feeding⟩, rfl⟩)
  exact if_neg (by rw [Option.isNone_iff_eq_none]; exact Option.isSome_iff_ne_none.mp fed)

theorem checkOutputs_error (wired : Wired steps plan) {id : Nat} {step : PipelineStep}
    (here : steps[id]? = some step) {error : PlanError}
    (failed : plan.checkOutputs (step.operator id) = .error error) : PlanFault steps error := by
  obtain ⟨place, slot, found, unread, rfl⟩ := Plan.checkOutputs_error failed
  simp only [PipelineStep.operator, PipelineStep.plain, Operator.spread, Operator.create,
    List.getElem?_map, Option.map_eq_some_iff, List.getElem?_eq_some_iff, List.getElem_range,
    List.length_range] at found
  obtain ⟨_, ⟨within, rfl⟩, rfl⟩ := found
  obtain ⟨rfl, speaks⟩ : place = 0 ∧ step.action.kind ≠ .sink := by
    revert within
    cases step.action.kind <;> simp [Kind.outputs]
  refine .unread here speaks fun target slot feeding => ?_
  have read : (⟨target, slot⟩ : SlotRef) ∈ plan.consumersOf ⟨id, 0⟩ :=
    Plan.mem_consumersOf.mpr ((wired.edges _).mpr ⟨rfl, feeding⟩)
  exact List.ne_nil_of_mem read unread

theorem pairwise_broadcasts (wired : Wired steps plan)
    (ascending : ∀ step ∈ steps, step.broadcasts.keys.Pairwise (· < ·)) {operator : Operator}
    (present : operator ∈ plan.operators) : (operator.broadcasts.map (·.2)).Pairwise (· < ·) := by
  obtain ⟨id, step, here, rfl⟩ := wired.exists_step present
  rw [step.broadcasts_operator]
  exact ascending step (List.mem_of_getElem? here)

theorem planFault (wired : Wired steps plan) (filled : steps ≠ []) {error : PlanError}
    (failed : plan.validate = .error error) : PlanFault steps error := by
  rcases Plan.validate_error failed with ⟨none, -⟩ | unordered | ⟨operator, present, failed⟩
  · rw [wired.operators, List.mapIdx_eq_nil_iff] at none
    exact absurd none filled
  · rw [wired.order] at unordered
    cases unordered
  · obtain ⟨id, step, here, rfl⟩ := wired.exists_step present
    rcases failed with unfed | unread
    · rw [wired.checkInputs here] at unfed
      cases unfed
    · exact wired.checkOutputs_error here unread

end Wired

/-! ## Documents -/

/-- The broadcasts of each step stand in ascending order of their names. -/
def PipelineDocument.Ascending (document : PipelineDocument) : Prop :=
  ∀ step ∈ document.steps, step.broadcasts.keys.Pairwise (· < ·)

instance (document : PipelineDocument) : Decidable document.Ascending :=
  inferInstanceAs (Decidable (∀ step ∈ document.steps, _))

theorem Table.pairwise_keys_ofList {β : Type} (rows : List (String × β)) :
    (ofList rows).keys.Pairwise (· < ·) :=
  Json.pairwise_sortFields rows

theorem pairwise_tableOf? {β : Type} {entries : List (String × Yaml.Node)} {name : String}
    {read : Yaml.Node → Option β} {table : Table β}
    (found : tableOf? entries name read = some table) : table.keys.Pairwise (· < ·) := by
  simp only [tableOf?, Option.bind_eq_bind, Option.bind_eq_some_iff] at found
  obtain ⟨entry, -, found⟩ := found
  cases entry with
  | none =>
    cases found
    exact .nil
  | some node =>
    obtain ⟨rows, -, rfl⟩ := Option.map_eq_some_iff.mp found
    exact Table.pairwise_keys_ofList rows

theorem PipelineStep.pairwise_of_ofNode? {node : Yaml.Node} {step : PipelineStep}
    (decoded : ofNode? node = some step) : step.broadcasts.keys.Pairwise (· < ·) := by
  simp only [ofNode?, Option.bind_eq_bind, Option.bind_eq_some_iff] at decoded
  obtain ⟨_, -, _, -, _, -, _, -, _, -, _, -, _, broadcasts, _, -, made⟩ := decoded
  cases made
  exact pairwise_tableOf? broadcasts

/-- However the broadcasts of a document were written, they are read in ascending order. -/
theorem PipelineDocument.ascending_of_ofNode? {node : Yaml.Node} {document : PipelineDocument}
    (decoded : ofNode? node = some document) : document.Ascending := by
  simp only [ofNode?, Option.bind_eq_bind, Option.bind_eq_some_iff] at decoded
  obtain ⟨_, -, _, -, _, -, _, -, _, -, steps, listed, made⟩ := decoded
  cases made
  obtain ⟨items, -, read⟩ := Option.bind_eq_some_iff.mp listed
  intro step member
  obtain ⟨item, -, decoded⟩ := mem_right (mapM_some_iff.mp read) member
  exact PipelineStep.pairwise_of_ofNode? decoded

namespace PipelineDocument

theorem concludes_build (document : PipelineDocument) :
    Concludes (fun pipeline => Wired document.steps pipeline.plan) (PlanFault document.steps)
      document.build := by
  have drafted : Concludes (Follows document.steps document.steps.zipIdx.length)
      (PlanFault document.steps) (document.steps.zipIdx.foldlM PipelineDraft.add .empty) := by
    refine Concludes.foldlM (Follows document.steps) ?_ .empty
    rintro place ⟨step, _⟩ found draft follows
    rw [List.getElem?_zipIdx, Option.map_eq_some_iff] at found
    obtain ⟨_, here, same⟩ := found
    cases same
    rw [Nat.zero_add]
    exact follows.concludes_add here
  rw [List.length_zipIdx] at drafted
  simp only [build]
  split
  · trivial
  · next present =>
    refine drafted.bind fun draft follows => ?_
    have filled : document.steps ≠ [] := by simpa using present
    cases checked : draft.plan.validate with
    | ok => exact follows.wired
    | error error => exact follows.wired.planFault filled checked

/-- An accepted document is wired as it is written, so that its operators are in order already; and
a document that is refused for its plan asks for the rows of a sink, or leaves rows unread. -/
theorem wired_of_build {document : PipelineDocument} (ascending : document.Ascending) :
    (∀ pipeline, document.build = .ok pipeline →
      Wired document.steps pipeline.plan ∧
      (∀ operator ∈ pipeline.plan.operators,
        (operator.broadcasts.map (·.2)).Pairwise (· < ·)) ∧
      (∀ edge ∈ pipeline.plan.edges, edge.source.operator < edge.target.operator) ∧
      pipeline.plan.order = .ok (List.range document.steps.length)) ∧
    ∀ error, document.build = .error (.plan error) → PlanFault document.steps error := by
  have concluded := document.concludes_build
  constructor
  · intro pipeline accepted
    rw [accepted] at concluded
    exact ⟨concluded, fun _ => concluded.pairwise_broadcasts ascending,
      fun _ => concluded.ascending, concluded.order⟩
  · intro error refused
    rw [refused] at concluded
    exact concluded

def kept : PipelineDocument where
  settings := .none
  hints := .empty
  steps :=
    [⟨some "a", [], .empty, .textSource "file:///tmp/a.txt"⟩,
      ⟨some "b", [], .empty, .collectionSource []⟩,
      ⟨some "u", ["a", "b"], .empty, .union⟩,
      ⟨none, [], ⟨[("drop", "a"), ("keep", "b")]⟩, .filter "line in @keep"⟩,
      ⟨none, [], .empty, .sink "memory://out"⟩]

def stopped : PipelineDocument where
  settings := .none
  hints := .empty
  steps :=
    [⟨none, [], .empty, .collectionSource []⟩, ⟨none, [], .empty, .sink "memory://out"⟩,
      ⟨none, [], .empty, .filter "a > 1"⟩]

theorem wired_of_build_kept :
    (∃ pipeline, kept.build = .ok pipeline ∧ Wired kept.steps pipeline.plan ∧
      pipeline.plan.order = .ok [0, 1, 2, 3, 4]) ∧
    stopped.build = .error (.plan (.noSuchSlot 1 .output 0)) ∧
      PlanFault stopped.steps (.noSuchSlot 1 .output 0) := by
  obtain ⟨pipeline, accepted⟩ : ∃ pipeline, kept.build = .ok pipeline := ⟨_, rfl⟩
  obtain ⟨wired, -, -, order⟩ :=
    (wired_of_build (by decide : kept.Ascending)).1 pipeline accepted
  have refused : stopped.build = .error (.plan (.noSuchSlot 1 .output 0)) := rfl
  exact ⟨⟨pipeline, accepted, wired, order⟩, refused,
    (wired_of_build (by decide : stopped.Ascending)).2 _ refused⟩

end PipelineDocument

/-- Whatever text is accepted as a pipeline, the plan is wired as the steps of the document that was
read from the text are written. -/
theorem Pipeline.wired_of_read {text : String} {pipeline : Pipeline}
    (success : Pipeline.read text = .ok pipeline) :
    ∃ node document, Yaml.Node.read? text = some node ∧
      PipelineDocument.ofNode? node = some document ∧ document.Ascending ∧
      Wired document.steps pipeline.plan := by
  rw [Pipeline.read] at success
  split at success
  · cases success
  · next document found =>
    obtain ⟨node, read, decoded⟩ := Option.bind_eq_some_iff.mp found
    have concluded := document.concludes_build
    rw [success] at concluded
    exact ⟨node, document, read, decoded, PipelineDocument.ascending_of_ofNode? decoded, concluded⟩

end CrossPlan
