import CrossPlan.Proofs.Selection.Junctions

/-!
# The wires of a selection

The links of the chosen candidates and the outputs that are handed over join exactly the slots that
links and edges join.  No input is joined twice, and an output as often as links and boundaries read
it.
-/

set_option autoImplicit false

namespace CrossPlan

open Sequence

namespace Problem

variable {α : Type} {problem : Problem α}

structure Spans (problem : Problem α) (selection : List Nat) (wires : List Wire) : Prop where
  wired : ∀ output input, problem.Wired selection output input ↔
    ∃ wire ∈ wires, wire.producer = output ∧ input ∈ wire.consumers
  consumers : (wires.flatMap (·.consumers)).Nodup
  read : ∀ wire ∈ wires, wire.consumers ≠ []

def Reads (problem : Problem α) (selection : List Nat) (wires : List Wire) : Prop :=
  ∀ candidate ∈ selection, ∀ found, problem.candidates[candidate]? = some found → ∀ slot,
    (wires.map (·.producer)).count ⟨candidate, slot⟩ = found.replacement.read.count slot

/-- Wires join the slots that are joined, each slot once. -/
structure Connects (problem : Problem α) (selection : List Nat) (wires : List Wire) : Prop
    extends Spans problem selection wires where
  producers : (wires.map (·.producer)).Nodup

def wires (problem : Problem α) (chosen : List Nat) (outcomes : List (Option (GroupOutcome α))) :
    List Wire :=
  chosen.flatMap problem.linkWires ++ outcomes.flatMap outcomeWires

theorem mem_linkWires {candidate : Nat} {wire : Wire} : wire ∈ problem.linkWires candidate ↔
    ∃ found, problem.candidates[candidate]? = some found ∧
      ∃ link ∈ found.replacement.links, linkWire candidate link = wire := by
  unfold linkWires
  cases problem.candidates[candidate]? with
  | none => simp
  | some found => simp

theorem mem_outcomeWires {outcome : Option (GroupOutcome α)} {wire : Wire} :
    wire ∈ outcomeWires outcome ↔ ∃ held, outcome = some held ∧
      wire = ⟨held.producer, held.consumers.map (·.1)⟩ := by
  cases outcome <;> simp [outcomeWires]

/-- The links and boundaries of each chosen candidate read an output once. -/
def ReadOnce (problem : Problem α) (selection : List Nat) : Prop :=
  ∀ candidate ∈ selection, ∀ found, problem.candidates[candidate]? = some found →
    found.replacement.read.Nodup

def givenBy (candidate : Candidate α) (slot : SlotRef) : List SlotRef :=
  ((candidate.matched.outputs.zip candidate.replacement.outputs).filter (·.2 = slot)).map (·.1)

theorem mem_givenBy {candidate : Candidate α} {slot output : SlotRef} :
    output ∈ givenBy candidate slot ↔ ∃ place : Nat,
      candidate.matched.outputs[place]? = some output ∧
        candidate.replacement.outputs[place]? = some slot := by
  simp only [givenBy, List.mem_map, List.mem_filter, decide_eq_true_eq]
  constructor
  · rintro ⟨⟨_, _⟩, ⟨paired, rfl⟩, rfl⟩
    obtain ⟨place, here⟩ := List.mem_iff_getElem?.mp paired
    exact ⟨place, List.getElem?_zip_eq_some.mp here⟩
  · rintro ⟨place, both⟩
    have paired := List.mem_of_getElem? (List.getElem?_zip_eq_some (z := (output, slot)).mpr both)
    exact ⟨(output, slot), ⟨paired, rfl⟩, rfl⟩

theorem gives_iff {candidate : Nat} {found : Candidate α}
    (known : problem.candidates[candidate]? = some found) {slot output : SlotRef} :
    problem.Gives ⟨candidate, slot⟩ output ↔ output ∈ givenBy found slot := by
  rw [mem_givenBy]
  constructor
  · rintro ⟨found', known', paired⟩
    obtain rfl := Option.some.inj (known.symm.trans known')
    exact paired
  · exact fun paired => ⟨found, known, paired⟩

theorem nodup_givenBy {plan : Plan} {candidate : Candidate α} (joined : candidate.Joined plan)
    (slot : SlotRef) : (givenBy candidate slot).Nodup := by
  have firsts := List.map_fst_zip joined.outputs.ge
  exact (firsts.symm ▸ joined.distinctOutputs).sublist (List.filter_sublist.map _)

theorem length_givenBy {plan : Plan} {candidate : Candidate α} (joined : candidate.Joined plan)
    (slot : SlotRef) :
    (givenBy candidate slot).length = candidate.replacement.outputs.count slot := by
  rw [givenBy, List.length_map, ← List.countP_eq_length_filter]
  conv_rhs => rw [← List.map_snd_zip joined.outputs.le, List.count, List.countP_map]
  exact List.countP_congr fun pair _ => by simp

theorem count_linkProducers {chosen : List Nat} (distinct : chosen.Nodup) {candidate : Nat}
    {found : Candidate α} (listed : candidate ∈ chosen)
    (known : problem.candidates[candidate]? = some found) (slot : SlotRef) :
    ((chosen.flatMap problem.linkWires).map (·.producer)).count ⟨candidate, slot⟩ =
      (found.replacement.links.map (·.source)).count slot := by
  have own : ((problem.linkWires candidate).map (·.producer)).count ⟨candidate, slot⟩ =
      (found.replacement.links.map (·.source)).count slot := by
    have same : (problem.linkWires candidate).map (·.producer) =
        (found.replacement.links.map (·.source)).map (CandidateSlot.mk candidate) := by
      rw [linkWires, known, List.map_map, List.map_map]
      rfl
    rw [same]
    exact List.count_map_of_injective _ _ (fun _ _ => congrArg CandidateSlot.slot) _
  rw [List.map_flatMap, List.count_flatMap, List.sum_map_eq_nsmul_single candidate,
    List.count_eq_one_of_mem distinct listed, one_nsmul]
  · exact own
  · intro other apart _
    refine List.count_eq_zero_of_not_mem fun among => apart ?_
    obtain ⟨wire, linked, same⟩ := List.mem_map.mp among
    obtain ⟨_, -, link, -, rfl⟩ := mem_linkWires.mp linked
    exact congrArg CandidateSlot.candidate same

namespace Cover

variable [Quantity α] {full selection chosen : List Nat}
  {outcomes : List (Option (GroupOutcome α))}

theorem nodup_linkConsumers (cover : problem.Cover full selection) (distinct : chosen.Nodup)
    (listed : ∀ candidate, candidate ∈ chosen ↔ candidate ∈ selection) :
    ((chosen.flatMap problem.linkWires).flatMap (·.consumers)).Nodup := by
  rw [List.flatMap_assoc]
  refine List.nodup_flatMap.mpr ⟨fun candidate among => ?_, distinct.imp fun apart input => ?_⟩
  · unfold linkWires
    cases known : problem.candidates[candidate]? with
    | none => exact List.nodup_nil
    | some found =>
      have used := cover.used candidate ((listed candidate).mp among) found known
      have targets := (List.nodup_append.mp used.nodup_fed).1
      have same : (found.replacement.links.map (linkWire candidate)).flatMap (·.consumers) =
          (found.replacement.links.map (·.target)).map (CandidateSlot.mk candidate) := by
        rw [List.flatMap_map, List.map_map, List.map_eq_flatMap]
        rfl
      dsimp only
      rw [same]
      exact targets.map fun _ _ => congrArg CandidateSlot.slot
  · intro first second
    obtain ⟨_, listed, member⟩ := List.mem_flatMap.mp first
    obtain ⟨_, listed', member'⟩ := List.mem_flatMap.mp second
    obtain ⟨_, -, _, -, rfl⟩ := mem_linkWires.mp listed
    obtain ⟨_, -, _, -, rfl⟩ := mem_linkWires.mp listed'
    rw [linkWire, List.mem_singleton] at member member'
    exact apart (congrArg CandidateSlot.candidate (member.symm.trans member'))

theorem nodup_outcomeConsumers (cover : problem.Cover full selection)
    (handed : List.Forall₂ (problem.Handed selection) problem.groups outcomes) :
    ((outcomes.flatMap outcomeWires).flatMap (·.consumers)).Nodup := by
  rw [List.flatMap_assoc]
  have apart : problem.groups.Pairwise fun a b => a.producer ≠ b.producer :=
    List.pairwise_map.mp cover.prepared.nodup_groups
  have fromGroups : List.Forall₂ (fun group outcome => group ∈ problem.groups ∧
      problem.Handed selection group outcome) problem.groups outcomes :=
    (List.forall₂_and_left _ _).mpr ⟨fun _ listed => listed, handed⟩
  refine List.nodup_flatMap.mpr ⟨fun outcome listed => ?_, pairwise_right fromGroups apart ?_⟩
  · obtain ⟨group, present, one⟩ := mem_right handed listed
    cases one with
    | inside => exact List.nodup_nil
    | across outcome outside _ among _ _ takes =>
      rw [outcomeWires, List.flatMap_singleton]
      have distinct : outside.Nodup := by
        rw [(cover.prepared.mem_groups.mp present).2] at among
        exact (cover.formed.nodup_consumersOf _).sublist among
      refine pairwise_right takes distinct ?_
      rintro a b a' - b' - ⟨chosen, first⟩ ⟨-, second⟩ different rfl
      exact different (cover.input_unique chosen first second)
  · rintro a b a' - b' - ⟨present, one⟩ ⟨present', two⟩ different input first second
    obtain ⟨_, listed, member⟩ := List.mem_flatMap.mp first
    obtain ⟨_, listed', member'⟩ := List.mem_flatMap.mp second
    obtain ⟨outcome, rfl, rfl⟩ := mem_outcomeWires.mp listed
    obtain ⟨outcome', rfl, rfl⟩ := mem_outcomeWires.mp listed'
    cases one with
    | across _ outside _ among _ _ takes =>
      cases two with
      | across _ outside' _ among' _ _ takes' =>
        obtain ⟨read, here, chosen, taken⟩ := mem_right takes member
        obtain ⟨read', here', -, taken'⟩ := mem_right takes' member'
        obtain rfl := cover.input_unique chosen taken taken'
        have edge := among.subset here
        have edge' := among'.subset here'
        rw [(cover.prepared.mem_groups.mp present).2, Plan.mem_consumersOf] at edge
        rw [(cover.prepared.mem_groups.mp present').2, Plan.mem_consumersOf] at edge'
        exact different (congrArg Edge.source (cover.formed.edge_eq edge edge' rfl))

theorem wired_iff (cover : problem.Cover full selection)
    (listed : ∀ candidate, candidate ∈ chosen ↔ candidate ∈ selection)
    (handed : List.Forall₂ (problem.Handed selection) problem.groups outcomes)
    {output input : CandidateSlot} : problem.Wired selection output input ↔
      ∃ wire ∈ problem.wires chosen outcomes, wire.producer = output ∧ input ∈ wire.consumers := by
  constructor
  · intro wired
    cases wired with
    | @link candidate found link among known present =>
      refine ⟨_, List.mem_append_left _ (List.mem_flatMap.mpr ⟨candidate, (listed _).mpr among,
        mem_linkWires.mpr ⟨found, known, link, present, rfl⟩⟩), rfl, List.mem_cons_self⟩
    | @edge _ _ edge among among' present gives takes =>
      have outside := cover.not_stands_target present gives
      have grouped : ⟨edge.source, problem.plan.consumersOf edge.source⟩ ∈ problem.groups :=
        cover.prepared.mem_groups.mpr ⟨(cover.gives_stands gives).1, rfl⟩
      obtain ⟨outcome, here, one⟩ := mem_left handed grouped
      have reads := Plan.mem_consumersOf.mpr present
      cases one with
      | inside candidate found producer consumers =>
        obtain rfl := cover.stands_unique found among producer (cover.gives_stands gives).2
        exact absurd (consumers _ reads) outside
      | across outcome _ _ _ found gives' takes' others =>
        obtain rfl := cover.gives_unique found among gives' gives
        obtain ⟨consumer, here', found', taken⟩ :=
          mem_left takes' ((others _ reads).resolve_left outside)
        obtain rfl := cover.takes_unique found' among' taken takes
        refine ⟨_, List.mem_append_right _ (List.mem_flatMap.mpr ⟨_, here,
          mem_outcomeWires.mpr ⟨outcome, rfl, rfl⟩⟩), rfl, here'⟩
  · rintro ⟨wire, listed', rfl, member⟩
    rcases List.mem_append.mp listed' with linked | handedOver
    · obtain ⟨candidate, among, linked⟩ := List.mem_flatMap.mp linked
      obtain ⟨found, known, link, present, rfl⟩ := mem_linkWires.mp linked
      obtain rfl := List.mem_singleton.mp member
      exact .link ((listed _).mp among) known present
    · obtain ⟨outcome, here, held⟩ := List.mem_flatMap.mp handedOver
      obtain ⟨outcome, rfl, rfl⟩ := mem_outcomeWires.mp held
      obtain ⟨group, grouped, one⟩ := mem_right handed here
      cases one with
      | across _ outside _ among found gives takes =>
        obtain ⟨read, inside, found', taken⟩ := mem_right takes member
        have edge := among.subset inside
        rw [(cover.prepared.mem_groups.mp grouped).2, Plan.mem_consumersOf] at edge
        exact .edge found found' edge gives taken

theorem spans (cover : problem.Cover full selection) (distinct : chosen.Nodup)
    (listed : ∀ candidate, candidate ∈ chosen ↔ candidate ∈ selection)
    (handed : List.Forall₂ (problem.Handed selection) problem.groups outcomes) :
    problem.Spans selection (problem.wires chosen outcomes) := by
  refine ⟨fun _ _ => cover.wired_iff listed handed, ?_, ?_⟩
  · rw [wires, List.flatMap_append]
    refine List.nodup_append.mpr ⟨cover.nodup_linkConsumers distinct listed,
      cover.nodup_outcomeConsumers handed, ?_⟩
    rintro _ first _ second rfl
    obtain ⟨_, linked, member⟩ := List.mem_flatMap.mp first
    obtain ⟨candidate, among, linked⟩ := List.mem_flatMap.mp linked
    obtain ⟨found, known, link, present, rfl⟩ := mem_linkWires.mp linked
    obtain rfl := List.mem_singleton.mp member
    obtain ⟨_, held, member'⟩ := List.mem_flatMap.mp second
    obtain ⟨outcome, here, held⟩ := List.mem_flatMap.mp held
    obtain ⟨outcome, rfl, rfl⟩ := mem_outcomeWires.mp held
    obtain ⟨group, -, one⟩ := mem_right handed here
    cases one with
    | across _ _ _ _ _ _ takes =>
      obtain ⟨_, -, -, found', known', place, -, there⟩ := mem_right takes member'
      obtain rfl := Option.some.inj (known.symm.trans known')
      have used := cover.used candidate ((listed candidate).mp among) found known
      exact (List.nodup_append.mp used.nodup_fed).2.2 _ (List.mem_map_of_mem present) _
        (List.mem_of_getElem? there) rfl
  · intro wire present
    rcases List.mem_append.mp present with linked | held
    · obtain ⟨candidate, -, linked⟩ := List.mem_flatMap.mp linked
      obtain ⟨_, -, _, -, rfl⟩ := mem_linkWires.mp linked
      exact List.cons_ne_nil _ _
    · obtain ⟨outcome, here, held⟩ := List.mem_flatMap.mp held
      obtain ⟨outcome, rfl, rfl⟩ := mem_outcomeWires.mp held
      obtain ⟨group, -, one⟩ := mem_right handed here
      cases one with
      | across _ outside read _ _ _ takes =>
        intro none
        dsimp only at none
        rw [none, List.forall₂_nil_right_iff] at takes
        exact read takes

/-! ## How often an output is read -/

/-- An output of the plan is handed over from the slot that stands for it, and only there. -/
theorem count_outcomeWires (cover : problem.Cover full selection) {group : OutputGroup}
    {outcome : Option (GroupOutcome α)} (grouped : group ∈ problem.groups)
    (handed : problem.Handed selection group outcome) {candidate : Nat} {found : Candidate α}
    (listed : candidate ∈ selection) (known : problem.candidates[candidate]? = some found)
    (slot : SlotRef) : ((outcomeWires outcome).map (·.producer)).count ⟨candidate, slot⟩ =
      if group.producer ∈ givenBy found slot then 1 else 0 := by
  obtain ⟨has, consumers⟩ := cover.prepared.mem_groups.mp grouped
  cases handed with
  | inside other chosen stands inside =>
    rw [if_neg, outcomeWires, List.map_nil, List.count_nil]
    intro given
    have gives := (gives_iff known).mpr given
    obtain ⟨input, present⟩ := cover.connected.read _ has
    obtain rfl := cover.stands_unique chosen listed stands (cover.gives_stands gives).2
    refine cover.not_stands_target present gives (inside input ?_)
    rw [consumers]
    exact Plan.mem_consumersOf.mpr present
  | across outcome _ _ _ chosen gives =>
    have same : outcome.producer = ⟨candidate, slot⟩ ↔ group.producer ∈ givenBy found slot := by
      rw [← gives_iff known]
      exact ⟨fun same => same ▸ gives, cover.gives_unique chosen listed gives⟩
    rw [outcomeWires, List.map_singleton, List.count_singleton]
    exact if_congr (beq_iff_eq.trans same) rfl rfl

theorem count_outcomeProducers (cover : problem.Cover full selection)
    (handed : List.Forall₂ (problem.Handed selection) problem.groups outcomes) {candidate : Nat}
    {found : Candidate α} (listed : candidate ∈ selection)
    (known : problem.candidates[candidate]? = some found) (slot : SlotRef) :
    ((outcomes.flatMap outcomeWires).map (·.producer)).count ⟨candidate, slot⟩ =
      found.replacement.outputs.count slot := by
  have joined := cover.joined found (List.mem_of_getElem? known)
  have each : ∀ {groups : List OutputGroup} {outcomes : List (Option (GroupOutcome α))},
      List.Forall₂ (fun group outcome => group ∈ problem.groups ∧
        problem.Handed selection group outcome) groups outcomes →
      ((outcomes.flatMap outcomeWires).map (·.producer)).count ⟨candidate, slot⟩ =
        (groups.map (·.producer)).countP (· ∈ givenBy found slot) := by
    intro groups outcomes paired
    induction paired with
    | nil => rfl
    | cons now _ ih =>
      rw [List.flatMap_cons, List.map_append, List.count_append, ih,
        cover.count_outcomeWires now.1 now.2 listed known, List.map_cons, List.countP_cons,
        Nat.add_comm]
      simp only [decide_eq_true_eq]
  have named : ((problem.groups.map (·.producer)).filter (· ∈ givenBy found slot)).Perm
      (givenBy found slot) := by
    refine (List.perm_ext_iff_of_nodup (cover.prepared.nodup_groups.filter _)
      (nodup_givenBy joined slot)).mpr fun output => ?_
    rw [List.mem_filter, decide_eq_true_eq, and_iff_right_iff_imp]
    intro given
    have has := (cover.gives_stands ((gives_iff known).mpr given)).1
    have grouped : ⟨output, problem.plan.consumersOf output⟩ ∈ problem.groups :=
      cover.prepared.mem_groups.mpr ⟨has, rfl⟩
    exact List.mem_map_of_mem grouped
  rw [each ((List.forall₂_and_left _ _).mpr ⟨fun _ grouped => grouped, handed⟩),
    List.countP_eq_length_filter, named.length_eq, length_givenBy joined]

theorem reads (cover : problem.Cover full selection) (distinct : chosen.Nodup)
    (listed : ∀ candidate, candidate ∈ chosen ↔ candidate ∈ selection)
    (handed : List.Forall₂ (problem.Handed selection) problem.groups outcomes) :
    problem.Reads selection (problem.wires chosen outcomes) := by
  intro candidate among found known slot
  rw [wires, List.map_append, List.count_append, Replacement.read, List.count_append,
    count_linkProducers distinct ((listed candidate).mpr among) known,
    cover.count_outcomeProducers handed among known]

/-- Where nothing is read twice no slot is joined twice. -/
theorem connects (cover : problem.Cover full selection) {wires : List Wire}
    (spans : problem.Spans selection wires) (reads : problem.Reads selection wires)
    (once : problem.ReadOnce selection) : problem.Connects selection wires := by
  refine ⟨spans, List.nodup_iff_count_le_one.mpr ?_⟩
  rintro ⟨candidate, slot⟩
  by_cases named : ⟨candidate, slot⟩ ∈ wires.map (·.producer)
  · obtain ⟨wire, present, same⟩ := List.mem_map.mp named
    obtain ⟨input, member⟩ := List.exists_mem_of_ne_nil _ (spans.read wire present)
    obtain ⟨⟨among, found, known, -⟩, -⟩ :=
      cover.wired_known ((spans.wired _ _).mpr ⟨wire, present, same, member⟩)
    rw [reads candidate among found known]
    exact List.nodup_iff_count_le_one.mp (once candidate among found known) slot
  · exact (List.count_eq_zero_of_not_mem named).trans_le (Nat.zero_le 1)

end Cover

theorem ExactCover.readOnce [Quantity α] {full selection : List Nat}
    (cover : problem.ExactCover full selection) : problem.ReadOnce selection :=
  fun _ _ found known => (cover.complete found (List.mem_of_getElem? known)).nodup_read

end Problem

end CrossPlan
