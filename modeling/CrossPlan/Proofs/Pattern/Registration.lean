import CrossPlan.Proofs.Pattern.Traversal
import CrossPlan.Proofs.Precedence
import CrossPlan.Proofs.Sequence
import CrossPlan.Rule.Builtin

/-!
# What acceptance guarantees of a pattern

The slots that an accepted pattern mentions are there, each slot of its nodes is internal or a
boundary and not both, its edges form no cycle, and its traversal reaches each node once, along an
edge from a node reached before.
-/

set_option autoImplicit false

namespace CrossPlan

open Sequence

namespace PatternDraft

def HasSlot (draft : PatternDraft) (side : Side) (slot : SlotRef) : Prop :=
  ∃ node, draft.nodes[slot.operator]? = some node ∧ slot.slot < arity node.kind side

end PatternDraft

def Pattern.Accepted (pattern : Pattern) : Prop := ∃ draft : PatternDraft, draft.build = .ok pattern

structure Pattern.Registered (pattern : Pattern) : Prop where
  nonempty : pattern.nodes ≠ []
  edges : ∀ edge ∈ pattern.edges,
    pattern.HasSlot .output edge.source ∧ pattern.HasSlot .input edge.target
  inputs : ∀ slot ∈ pattern.inputs, pattern.HasSlot .input slot
  outputs : ∀ slot ∈ pattern.outputs, pattern.HasSlot .output slot
  inputsBound : ∀ slot, pattern.HasSlot .input slot →
    (pattern.edges.map (·.target)).count slot + pattern.inputs.count slot = 1
  outputsBound : ∀ slot, pattern.HasSlot .output slot →
    (slot ∈ pattern.edges.map (·.source) ∧ slot ∉ pattern.outputs) ∨
      (slot ∉ pattern.edges.map (·.source) ∧ pattern.outputs.count slot = 1)
  acyclic : Precedence.Acyclic pattern.precedence
  traversed : PatternDraft.Traversed pattern.edges pattern.traversal
  complete : pattern.traversal.length = pattern.nodes.length

namespace PatternDraft

variable {draft : PatternDraft}

theorem checkSlot_ok_iff {side : Side} {slot : SlotRef} :
    draft.checkSlot side slot = .ok () ↔ draft.HasSlot side slot := by
  unfold checkSlot HasSlot
  cases found : draft.nodes[slot.operator]? with
  | none => simp
  | some node => by_cases within : slot.slot < arity node.kind side <;> simp [within]

theorem checkSlots_ok_iff : draft.checkSlots = .ok () ↔
    (∀ edge ∈ draft.edges, draft.HasSlot .output edge.source ∧ draft.HasSlot .input edge.target) ∧
      (∀ slot ∈ draft.inputs, draft.HasSlot .input slot) ∧
        ∀ slot ∈ draft.outputs, draft.HasSlot .output slot := by
  simp only [checkSlots, seq_ok_iff, forM_ok_iff, checkSlot_ok_iff]

/-- An input is bound once, by an edge or as a boundary. -/
theorem inputFault?_eq_none_iff {slot : SlotRef} : draft.inputFault? slot = none ↔
    ((draft.edges.map (·.target)).count slot = 1 ∧ slot ∉ draft.inputs) ∨
      (slot ∉ draft.edges.map (·.target) ∧ draft.inputs.count slot = 1) := by
  rw [← List.count_eq_zero, ← List.count_eq_zero]
  unfold inputFault?
  split <;> simp_all

theorem outputFault?_eq_none_iff {slot : SlotRef} : draft.outputFault? slot = none ↔
    (slot ∈ draft.edges.map (·.source) ∧ slot ∉ draft.outputs) ∨
      (slot ∉ draft.edges.map (·.source) ∧ draft.outputs.count slot = 1) := by
  rw [← List.contains_iff_mem, ← List.count_eq_zero (l := draft.outputs)]
  unfold outputFault?
  split <;> simp_all

theorem checkSide_ok_iff {node : Nat} {side : Side} {count : Nat}
    {fault? : SlotRef → Option BindingFault} : draft.checkSide node side count fault? = .ok () ↔
      ∀ slot < count, fault? ⟨node, slot⟩ = none := by
  rw [checkSide, forM_ok_iff]
  refine forall_congr' fun slot => ?_
  rw [List.mem_range]
  refine imp_congr_right fun _ => ?_
  cases fault? ⟨node, slot⟩ <;> simp

theorem checkBindings_ok_iff : draft.checkBindings = .ok () ↔
    (∀ slot, draft.HasSlot .input slot → draft.inputFault? slot = none) ∧
      ∀ slot, draft.HasSlot .output slot → draft.outputFault? slot = none := by
  have checked : draft.checkBindings = .ok () ↔ ∀ place node, draft.nodes[place]? = some node →
      (∀ slot < node.kind.inputs, draft.inputFault? ⟨place, slot⟩ = none) ∧
        ∀ slot < node.kind.outputs, draft.outputFault? ⟨place, slot⟩ = none := by
    simp only [checkBindings, forM_ok_iff, seq_ok_iff, checkSide_ok_iff, Prod.forall,
      List.mk_mem_zipIdx_iff_getElem?]
    exact forall_comm
  rw [checked]
  constructor
  · intro fine
    exact ⟨fun ⟨place, slot⟩ ⟨node, found, within⟩ => (fine place node found).1 slot within,
      fun ⟨place, slot⟩ ⟨node, found, within⟩ => (fine place node found).2 slot within⟩
  · rintro ⟨inputs, outputs⟩ place node found
    exact ⟨fun slot within => inputs ⟨place, slot⟩ ⟨node, found, within⟩,
      fun slot within => outputs ⟨place, slot⟩ ⟨node, found, within⟩⟩

theorem HasSlot.node_lt {side : Side} {slot : SlotRef} (has : draft.HasSlot side slot) :
    slot.operator < draft.nodes.length := by
  obtain ⟨_, found, _⟩ := has
  exact (List.getElem?_eq_some_iff.mp found).1

theorem precedence_known (within : Within draft.edges draft.nodes.length) :
    ∀ pair ∈ draft.precedence, pair.1 ∈ List.range draft.nodes.length ∧
      pair.2 ∈ List.range draft.nodes.length := by
  simpa [precedence, Within] using within

theorem isAcyclic_iff (within : Within draft.edges draft.nodes.length) :
    draft.isAcyclic = true ↔ Precedence.Acyclic draft.precedence := by
  rw [← Precedence.schedule_perm_iff List.nodup_range (precedence_known within), isAcyclic,
    beq_iff_eq]
  constructor
  · intro full
    apply Precedence.taken_schedule.perm_of_full
    rw [full, List.length_range]
  · intro all
    rw [all.length_eq, List.length_range]

/-- A draft is built once all checks pass; it stays as it is and is given its traversal. -/
theorem build_ok_iff {pattern : Pattern} : draft.build = .ok pattern ↔
    draft.nodes ≠ [] ∧ draft.checkSlots = .ok () ∧ draft.checkBindings = .ok () ∧
      draft.isAcyclic = true ∧ draft.traversal.length = draft.nodes.length ∧
        { draft with traversal := draft.traversal } = pattern := by
  unfold build
  by_cases empty : draft.nodes = []
  · simp [empty, bind, Except.bind, throw, throwThe, MonadExceptOf.throw]
  · by_cases acyclic : draft.isAcyclic = true <;>
      by_cases full : draft.traversal.length = draft.nodes.length <;>
        simp [empty, acyclic, full, seq_ok_iff, throw, throwThe, MonadExceptOf.throw, pure,
          Except.pure]

end PatternDraft

theorem Pattern.Accepted.registered {pattern : Pattern} (accepted : pattern.Accepted) :
    pattern.Registered := by
  obtain ⟨draft, success⟩ := accepted
  obtain ⟨nonempty, slots, bindings, noCycle, complete, rfl⟩ := PatternDraft.build_ok_iff.mp success
  obtain ⟨edges, inputs, outputs⟩ := PatternDraft.checkSlots_ok_iff.mp slots
  obtain ⟨inputsBound, outputsBound⟩ := PatternDraft.checkBindings_ok_iff.mp bindings
  exact
    { nonempty := nonempty
      edges := edges
      inputs := inputs
      outputs := outputs
      inputsBound := fun slot has => by
        rcases PatternDraft.inputFault?_eq_none_iff.mp (inputsBound slot has) with
          ⟨once, absent⟩ | ⟨absent, once⟩
        · rw [once, List.count_eq_zero.mpr absent]
        · rw [once, List.count_eq_zero.mpr absent]
      outputsBound := fun slot has =>
        PatternDraft.outputFault?_eq_none_iff.mp (outputsBound slot has)
      acyclic := (PatternDraft.isAcyclic_iff fun edge present =>
        ⟨(edges edge present).1.node_lt, (edges edge present).2.node_lt⟩).mp noCycle
      traversed := draft.traversed_traversal
      complete := complete }

namespace Pattern.Registered

variable {pattern : Pattern}

theorem node_lt (_ : pattern.Registered) {side : Side} {slot : SlotRef}
    (has : pattern.HasSlot side slot) : slot.operator < pattern.nodes.length := has.node_lt

theorem within (registered : pattern.Registered) :
    PatternDraft.Within pattern.edges pattern.nodes.length := by
  intro edge present
  obtain ⟨output, input⟩ := registered.edges edge present
  exact ⟨output.node_lt, input.node_lt⟩

theorem visits_perm (registered : pattern.Registered) :
    (pattern.traversal.map (·.node)).Perm (List.range pattern.nodes.length) := by
  have nonempty := List.length_pos_iff.mpr registered.nonempty
  refine (registered.traversed.subperm registered.within nonempty).perm_of_length_le ?_
  rw [List.length_range, List.length_map, registered.complete]

theorem visit_lt (registered : pattern.Registered) {visit : Visit}
    (present : visit ∈ pattern.traversal) : visit.node < pattern.nodes.length :=
  List.mem_range.mp (registered.visits_perm.subset (List.mem_map_of_mem present))

theorem source_ne_target (registered : pattern.Registered) {edge : Edge}
    (present : edge ∈ pattern.edges) : edge.source.operator ≠ edge.target.operator := by
  intro same
  refine registered.acyclic edge.source.operator (.single ?_)
  exact List.mem_map.mpr ⟨edge, present, by rw [same]⟩

end Pattern.Registered

/-! ## The patterns of the built-in rules -/

theorem Pattern.accepted_singleton (node : OperatorPattern) :
    (Pattern.singleton node).Accepted := by
  refine ⟨(Pattern.singleton node).toPatternDraft, ?_⟩
  obtain ⟨_, kind, _, _⟩ := node
  cases kind <;> rfl

theorem accepted_filterProject : filterProjectPattern.Accepted :=
  ⟨filterProjectPattern.toPatternDraft, rfl⟩

theorem mem_builtinRules {α : Type} {rule : Rule α} :
    rule ∈ builtinRules ↔ (∃ platform kind, rule = kindRule platform kind) ∨
      rule = filterProjectRule := by
  simp only [builtinRules, List.mem_append, List.mem_flatMap, List.mem_map, List.mem_singleton]
  refine or_congr ⟨?_, ?_⟩ Iff.rfl
  · rintro ⟨platform, -, kind, -, rfl⟩
    exact ⟨platform, kind, rfl⟩
  · rintro ⟨platform, kind, rfl⟩
    exact ⟨platform, by cases platform <;> decide, kind,
      by cases kind <;> cases platform <;> decide, rfl⟩

theorem accepted_builtin {α : Type} :
    ∀ rule ∈ (RuleRegistry.builtin : RuleRegistry α).rules, rule.pattern.Accepted := by
  intro rule listed
  rcases mem_builtinRules.mp listed with ⟨platform, kind, rfl⟩ | rfl
  · exact Pattern.accepted_singleton _
  · exact accepted_filterProject

end CrossPlan
