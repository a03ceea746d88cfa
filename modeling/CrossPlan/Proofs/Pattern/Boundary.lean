import CrossPlan.Proofs.Candidate
import CrossPlan.Proofs.Plan.Validity

/-!
# Where a match is joined to the rest of a plan

The boundary inputs of a match are the inputs of its operators that are fed from outside, and its
boundary outputs are those that are read outside.  None is listed twice.
-/

set_option autoImplicit false

namespace CrossPlan.Pattern.Embeds

variable {pattern : Pattern} {plan : Plan} {image : Nat → Nat}

theorem under_inj (embeds : pattern.Embeds plan image) {a b : SlotRef}
    (first : a.operator < pattern.nodes.length) (second : b.operator < pattern.nodes.length)
    (same : a.under image = b.under image) : a = b := by
  obtain ⟨node, slot⟩ := a
  obtain ⟨other, slot'⟩ := b
  simp only [SlotRef.under, SlotRef.mk.injEq] at same ⊢
  exact ⟨embeds.injective node other first second same.1, same.2⟩

theorem operator_at (embeds : pattern.Embeds plan image) {node : Nat} {asked : OperatorPattern}
    (found : pattern.nodes[node]? = some asked) :
    ∃ operator, plan.operators[image node]? = some operator ∧ operator.kind = asked.kind ∧
      (asked.allowsBroadcasts = false → operator.hasBroadcasts = false) := by
  obtain ⟨operator, present, fits⟩ := embeds.fits node asked found
  simp only [OperatorPattern.fits, Bool.and_eq_true, Bool.or_eq_true, beq_iff_eq,
    Bool.not_eq_true'] at fits
  refine ⟨operator, present, fits.1.1, fun refused => ?_⟩
  rw [refused] at fits
  simpa using fits.1.2

theorem hasInput_under (embeds : pattern.Embeds plan image) (formed : plan.WellFormed)
    {slot : SlotRef} (has : pattern.HasSlot .input slot) : plan.HasInput (slot.under image) := by
  obtain ⟨asked, found, within⟩ := has
  obtain ⟨operator, present, kind, -⟩ := embeds.operator_at found
  refine ⟨operator, present, Nat.lt_of_lt_of_le ?_ (formed.slotted_of_getElem? present).inputs⟩
  rw [kind]
  exact within

theorem hasOutput_under_iff (embeds : pattern.Embeds plan image) (formed : plan.WellFormed)
    {slot : SlotRef} (known : slot.operator < pattern.nodes.length) :
    plan.HasOutput (slot.under image) ↔ pattern.HasSlot .output slot := by
  have found := List.getElem?_eq_getElem known
  obtain ⟨operator, present, kind, -⟩ := embeds.operator_at found
  have outputs := (formed.slotted_of_getElem? present).outputs
  rw [kind] at outputs
  constructor
  · rintro ⟨other, present', within⟩
    rw [show (slot.under image).operator = image slot.operator from rfl, present,
      Option.some.injEq] at present'
    subst present'
    rw [outputs] at within
    exact ⟨_, found, within⟩
  · rintro ⟨asked, found', within⟩
    rw [found, Option.some.injEq] at found'
    subst found'
    refine ⟨operator, present, ?_⟩
    rw [outputs]
    exact within

theorem matched_under {slot : SlotRef} (known : slot.operator < pattern.nodes.length) :
    pattern.Matched image (slot.under image).operator :=
  ⟨slot.operator, known, rfl⟩

/-! ## Inputs -/

theorem mem_broadcastInputs {id : Nat} {input : SlotRef} :
    input ∈ broadcastInputs plan id ↔ input.operator = id ∧
      ∃ operator name, plan.operators[id]? = some operator ∧
        operator.inputs[input.slot]? = some ⟨name, true⟩ := by
  unfold broadcastInputs
  cases found : plan.operators[id]? with
  | none => simp
  | some operator =>
    simp only [List.mem_map, Prod.exists, Operator.mem_broadcasts]
    constructor
    · rintro ⟨place, name, present, rfl⟩
      exact ⟨rfl, operator, name, rfl, present⟩
    · rintro ⟨rfl, other, name, same, present⟩
      obtain rfl := Option.some.inj same
      exact ⟨input.slot, name, present, rfl⟩

theorem mem_inputs {input : SlotRef} : input ∈ (pattern.occurrence plan image).inputs ↔
    (∃ slot ∈ pattern.inputs, slot.under image = input) ∨
      pattern.Matched image input.operator ∧ ∃ operator name,
        plan.operators[input.operator]? = some operator ∧
          operator.inputs[input.slot]? = some ⟨name, true⟩ := by
  rw [occurrence, List.mem_append, List.mem_map, List.mem_flatMap]
  refine or_congr Iff.rfl ⟨?_, ?_⟩
  · rintro ⟨id, matched, present⟩
    obtain ⟨rfl, operator, name, found, named⟩ := mem_broadcastInputs.mp present
    exact ⟨mem_images.mp matched, operator, name, found, named⟩
  · rintro ⟨matched, operator, name, found, named⟩
    exact ⟨_, mem_images.mpr matched, mem_broadcastInputs.mpr ⟨rfl, operator, name, found, named⟩⟩

theorem hasInput_of_mem_inputs (embeds : pattern.Embeds plan image)
    (registered : pattern.Registered) (formed : plan.WellFormed) {input : SlotRef}
    (listed : input ∈ (pattern.occurrence plan image).inputs) :
    plan.HasInput input ∧ pattern.Matched image input.operator := by
  rcases mem_inputs.mp listed with ⟨slot, present, rfl⟩ | ⟨matched, operator, name, found, named⟩
  · have has := registered.inputs slot present
    exact ⟨embeds.hasInput_under formed has, matched_under (registered.node_lt has)⟩
  · exact ⟨⟨operator, found, (List.getElem?_eq_some_iff.mp named).1⟩, matched⟩

/-- The inputs that broadcast are none of those that the pattern knows. -/
theorem slot_ge_of_broadcast (embeds : pattern.Embeds plan image) (formed : plan.WellFormed)
    {slot : SlotRef} {side : Side} (has : pattern.HasSlot side slot) {operator : Operator}
    {name : String} (found : plan.operators[image slot.operator]? = some operator) {place : Nat}
    (named : operator.inputs[place]? = some ⟨name, true⟩) :
    ∃ asked, pattern.nodes[slot.operator]? = some asked ∧ asked.kind.inputs ≤ place := by
  obtain ⟨asked, node, -⟩ := has
  obtain ⟨other, present, kind, -⟩ := embeds.operator_at node
  rw [found, Option.some.injEq] at present
  subst present
  refine ⟨asked, node, ?_⟩
  rw [← kind]
  exact ((formed.slotted_of_getElem? found).broadcast place _ named).mp rfl

theorem not_broadcast_under (embeds : pattern.Embeds plan image) (formed : plan.WellFormed)
    {slot : SlotRef} (has : pattern.HasSlot .input slot) {operator : Operator} {name : String}
    (found : plan.operators[image slot.operator]? = some operator)
    (named : operator.inputs[slot.slot]? = some ⟨name, true⟩) : False := by
  obtain ⟨asked, node, beyond⟩ := embeds.slot_ge_of_broadcast formed has found named
  obtain ⟨asked', node', within⟩ := has
  rw [node, Option.some.injEq] at node'
  subst node'
  exact absurd within (Nat.not_lt.mpr beyond)

theorem nodup_inputs (embeds : pattern.Embeds plan image) (registered : pattern.Registered)
    (formed : plan.WellFormed) : (pattern.occurrence plan image).inputs.Nodup := by
  rw [occurrence, List.nodup_append]
  refine ⟨?_, ?_, ?_⟩
  · refine List.Nodup.map_on ?_ ?_
    · intro a first b second same
      exact embeds.under_inj (registered.node_lt (registered.inputs a first))
        (registered.node_lt (registered.inputs b second)) same
    · refine List.nodup_iff_count_le_one.mpr fun slot => ?_
      by_cases present : slot ∈ pattern.inputs
      · have bound := registered.inputsBound slot (registered.inputs slot present)
        omega
      · rw [List.count_eq_zero.mpr present]
        omega
  · refine List.nodup_flatMap.mpr ⟨?_, ?_⟩
    · intro id _
      unfold broadcastInputs
      split
      · next operator _ =>
        refine List.Nodup.of_map SlotRef.slot ?_
        rw [List.map_map]
        have places : operator.broadcasts.map
            ((·.slot) ∘ fun broadcast => SlotRef.mk id broadcast.1) =
            (operator.inputs.zipIdx.filter fun entry => entry.1.broadcast).map (·.2) := by
          rw [Operator.broadcasts, List.map_map]
          rfl
        rw [places]
        refine List.Nodup.sublist (List.filter_sublist.map _) ?_
        rw [List.zipIdx_map_snd]
        exact List.nodup_range'
      · exact List.nodup_nil
    · have distinct : (pattern.images image).Nodup :=
        covered_perm.nodup_iff.mp embeds.nodup_covered
      refine distinct.imp ?_
      intro a b different input first second
      rw [mem_broadcastInputs] at first second
      exact different (first.1.symm.trans second.1)
  · intro a declared b broadcast same
    subst same
    obtain ⟨slot, present, rfl⟩ := List.mem_map.mp declared
    obtain ⟨id, -, listed⟩ := List.mem_flatMap.mp broadcast
    obtain ⟨rfl, operator, name, found, named⟩ := mem_broadcastInputs.mp listed
    exact embeds.not_broadcast_under formed (registered.inputs slot present) found named

/-- An input of a matched operator is a boundary exactly when it is fed from outside. -/
theorem target_mem_inputs_iff (embeds : pattern.Embeds plan image)
    (registered : pattern.Registered) (formed : plan.WellFormed) {edge : Edge}
    (present : edge ∈ plan.edges) (matched : pattern.Matched image edge.target.operator) :
    edge.target ∈ (pattern.occurrence plan image).inputs ↔
      ¬ pattern.Matched image edge.source.operator := by
  constructor
  · intro listed inside
    obtain ⟨inner, among, rfl⟩ := embeds.induced edge present inside matched
    have has := (registered.edges inner among).2
    rcases mem_inputs.mp listed with ⟨slot, declared, same⟩ | ⟨-, operator, name, found, named⟩
    · obtain rfl := embeds.under_inj (registered.node_lt (registered.inputs slot declared))
        (registered.node_lt has) same
      have bound := registered.inputsBound _ has
      have internal : 0 < (pattern.edges.map (·.target)).count inner.target :=
        List.count_pos_iff.mpr (List.mem_map_of_mem among)
      have boundary : 0 < pattern.inputs.count inner.target := List.count_pos_iff.mpr declared
      omega
    · exact embeds.not_broadcast_under formed has found named
  · intro outside
    obtain ⟨node, known, same⟩ := matched
    obtain ⟨-, operator, found, within⟩ := formed.joined edge present
    have asked := List.getElem?_eq_getElem known
    obtain ⟨other, found', kind, -⟩ := embeds.operator_at asked
    rw [same, found, Option.some.injEq] at found'
    subst found'
    have slotted := formed.slotted_of_getElem? found
    rcases Nat.lt_or_ge edge.target.slot operator.kind.inputs with main | beyond
    · -- a main input: were it internal in the pattern, it would be fed from inside
      have has : pattern.HasSlot .input ⟨node, edge.target.slot⟩ :=
        ⟨_, asked, by rw [kind] at main; exact main⟩
      have image_eq : SlotRef.under image ⟨node, edge.target.slot⟩ = edge.target := by
        rw [SlotRef.under, same]
      by_cases declared : (⟨node, edge.target.slot⟩ : SlotRef) ∈ pattern.inputs
      · exact mem_inputs.mpr (Or.inl ⟨_, declared, image_eq⟩)
      · have bound := registered.inputsBound _ has
        rw [List.count_eq_zero.mpr declared, Nat.add_zero] at bound
        have internal := List.count_pos_iff.mp (bound.symm ▸ Nat.one_pos)
        obtain ⟨inner, among, target⟩ := List.mem_map.mp internal
        have one : inner.under image = edge :=
          formed.edge_eq (embeds.realized inner among) present (by
          rw [← image_eq, ← target]
          rfl)
        refine absurd ?_ outside
        rw [← one]
        exact matched_under (registered.node_lt (registered.edges inner among).1)
    · refine mem_inputs.mpr (Or.inr ⟨⟨node, known, same⟩, operator,
        operator.inputs[edge.target.slot].name, found, ?_⟩)
      have flagged := (slotted.broadcast _ _ (List.getElem?_eq_getElem within)).mpr beyond
      rw [List.getElem?_eq_getElem within, ← flagged]

/-! ## Outputs -/

theorem mem_outputs {output : SlotRef} : output ∈ (pattern.occurrence plan image).outputs ↔
    ∃ slot ∈ pattern.outputs, slot.under image = output := by
  rw [occurrence, List.mem_map]

theorem hasOutput_of_mem_outputs (embeds : pattern.Embeds plan image)
    (registered : pattern.Registered) (formed : plan.WellFormed) {output : SlotRef}
    (listed : output ∈ (pattern.occurrence plan image).outputs) :
    plan.HasOutput output ∧ pattern.Matched image output.operator := by
  obtain ⟨slot, present, rfl⟩ := mem_outputs.mp listed
  have has := registered.outputs slot present
  exact ⟨(embeds.hasOutput_under_iff formed (registered.node_lt has)).mpr has,
    matched_under (registered.node_lt has)⟩

theorem nodup_outputs (embeds : pattern.Embeds plan image) (registered : pattern.Registered) :
    (pattern.occurrence plan image).outputs.Nodup := by
  refine List.Nodup.map_on ?_ ?_
  · intro a first b second same
    exact embeds.under_inj (registered.node_lt (registered.outputs a first))
      (registered.node_lt (registered.outputs b second)) same
  · refine List.nodup_iff_count_le_one.mpr fun slot => ?_
    by_cases present : slot ∈ pattern.outputs
    · rcases registered.outputsBound slot (registered.outputs slot present) with inside | boundary
      · exact absurd present inside.2
      · exact boundary.2.le
    · rw [List.count_eq_zero.mpr present]
      omega

theorem source_mem_outputs_iff (embeds : pattern.Embeds plan image)
    (registered : pattern.Registered) (formed : plan.WellFormed) {edge : Edge}
    (present : edge ∈ plan.edges) (matched : pattern.Matched image edge.source.operator) :
    edge.source ∈ (pattern.occurrence plan image).outputs ↔
      ¬ pattern.Matched image edge.target.operator := by
  constructor
  · intro listed inside
    obtain ⟨inner, among, rfl⟩ := embeds.induced edge present matched inside
    obtain ⟨slot, declared, same⟩ := mem_outputs.mp listed
    have has := (registered.edges inner among).1
    obtain rfl := embeds.under_inj (registered.node_lt (registered.outputs slot declared))
      (registered.node_lt has) same
    rcases registered.outputsBound _ has with internal | boundary
    · exact internal.2 declared
    · exact boundary.1 (List.mem_map_of_mem among)
  · intro outside
    obtain ⟨node, known, same⟩ := matched
    have image_eq : SlotRef.under image ⟨node, edge.source.slot⟩ = edge.source := by
      rw [SlotRef.under, same]
    have has : pattern.HasSlot .output ⟨node, edge.source.slot⟩ :=
      (embeds.hasOutput_under_iff formed known).mp (image_eq ▸ (formed.joined edge present).1)
    rcases registered.outputsBound _ has with internal | boundary
    · -- what reads an internal output is matched
      obtain ⟨inner, among, source⟩ := List.mem_map.mp internal.1
      refine absurd (embeds.contained inner among edge.target ?_) outside
      rw [source, image_eq]
      exact present
    · exact mem_outputs.mpr ⟨_, List.count_pos_iff.mp (boundary.2 ▸ Nat.one_pos), image_eq⟩

end CrossPlan.Pattern.Embeds
