import CrossPlan.Proofs.Selection.Handover

/-!
# Which slots of the chosen candidates are joined

The links of the chosen replacements and the edges of the plan between them join every output of a
chosen operator with some input, and every input with one output.
-/

set_option autoImplicit false

namespace CrossPlan

open Sequence

variable {α : Type}

/-! ## Slots of a replacement -/

namespace Replacement

def HasInput (replacement : Replacement α) (slot : SlotRef) : Prop :=
  ∃ operator, replacement.operators[slot.operator]? = some operator ∧ slot.slot < operator.inputs

def HasOutput (replacement : Replacement α) (slot : SlotRef) : Prop :=
  ∃ operator, replacement.operators[slot.operator]? = some operator ∧ slot.slot < operator.outputs

def fed (replacement : Replacement α) : List SlotRef :=
  replacement.links.map (·.target) ++ replacement.inputs

def read (replacement : Replacement α) : List SlotRef :=
  replacement.links.map (·.source) ++ replacement.outputs

/-- Links and boundaries name slots that there are.  They feed each input once and read each output,
perhaps more than once. -/
structure SlotsUsed (replacement : Replacement α) : Prop where
  fedKnown : ∀ slot ∈ replacement.fed, replacement.HasInput slot
  fedOnce : ∀ slot, replacement.HasInput slot → replacement.fed.count slot = 1
  readKnown : ∀ slot ∈ replacement.read, replacement.HasOutput slot
  readUsed : ∀ slot, replacement.HasOutput slot → slot ∈ replacement.read

/-- Links and boundaries name slots that there are, and each slot is named once. -/
structure SlotComplete (replacement : Replacement α) : Prop where
  fedKnown : ∀ slot ∈ replacement.fed, replacement.HasInput slot
  fedOnce : ∀ slot, replacement.HasInput slot → replacement.fed.count slot = 1
  readKnown : ∀ slot ∈ replacement.read, replacement.HasOutput slot
  readOnce : ∀ slot, replacement.HasOutput slot → replacement.read.count slot = 1

section Used

variable {replacement : Replacement α}

theorem nodup_of_once {slots : List SlotRef} {has : SlotRef → Prop}
    (known : ∀ slot ∈ slots, has slot) (once : ∀ slot, has slot → slots.count slot = 1) :
    slots.Nodup := by
  rw [List.nodup_iff_count_le_one]
  intro slot
  by_cases listed : slot ∈ slots
  · exact Nat.le_of_eq (once slot (known slot listed))
  · rw [List.count_eq_zero_of_not_mem listed]
    exact Nat.zero_le 1

theorem SlotsUsed.nodup_fed (used : replacement.SlotsUsed) : replacement.fed.Nodup :=
  nodup_of_once used.fedKnown used.fedOnce

theorem SlotsUsed.mem_fed (used : replacement.SlotsUsed) {slot : SlotRef} :
    slot ∈ replacement.fed ↔ replacement.HasInput slot := by
  refine ⟨used.fedKnown slot, fun has => List.count_pos_iff.mp ?_⟩
  rw [used.fedOnce slot has]
  exact Nat.one_pos

theorem SlotComplete.nodup_read (complete : replacement.SlotComplete) : replacement.read.Nodup :=
  nodup_of_once complete.readKnown complete.readOnce

theorem SlotComplete.used (complete : replacement.SlotComplete) : replacement.SlotsUsed where
  fedKnown := complete.fedKnown
  fedOnce := complete.fedOnce
  readKnown := complete.readKnown
  readUsed := fun slot has =>
    List.count_pos_iff.mp ((complete.readOnce slot has).symm ▸ Nat.one_pos)

end Used

def slots (replacement : Replacement α) (count : BoundOperator α → Nat) : List SlotRef :=
  replacement.operators.zipIdx.flatMap fun (operator, place) =>
    (List.range (count operator)).map (SlotRef.mk place)

theorem mem_slots {replacement : Replacement α} {count : BoundOperator α → Nat}
    {slot : SlotRef} : slot ∈ replacement.slots count ↔
      ∃ operator, replacement.operators[slot.operator]? = some operator ∧
        slot.slot < count operator := by
  obtain ⟨place, number⟩ := slot
  simp only [slots, List.mem_flatMap, List.mem_map, List.mem_range, SlotRef.mk.injEq]
  constructor
  · rintro ⟨⟨operator, _⟩, listed, _, within, rfl, rfl⟩
    exact ⟨operator, List.mem_zipIdx_iff_getElem?.mp listed, within⟩
  · rintro ⟨operator, found, within⟩
    exact ⟨(operator, place), List.mem_zipIdx_iff_getElem?.mpr found, number, within, rfl, rfl⟩

instance (replacement : Replacement α) : Decidable replacement.SlotsUsed :=
  decidable_of_iff
    ((∀ slot ∈ replacement.fed, slot ∈ replacement.slots (·.inputs)) ∧
      (∀ slot ∈ replacement.slots (·.inputs), replacement.fed.count slot = 1) ∧
      (∀ slot ∈ replacement.read, slot ∈ replacement.slots (·.outputs)) ∧
      ∀ slot ∈ replacement.slots (·.outputs), slot ∈ replacement.read)
    ⟨fun ⟨fedKnown, fedOnce, readKnown, readUsed⟩ =>
      { fedKnown := fun slot listed => mem_slots.mp (fedKnown slot listed)
        fedOnce := fun slot has => fedOnce slot (mem_slots.mpr has)
        readKnown := fun slot listed => mem_slots.mp (readKnown slot listed)
        readUsed := fun slot has => readUsed slot (mem_slots.mpr has) },
    fun used =>
      ⟨fun slot listed => mem_slots.mpr (used.fedKnown slot listed),
        fun slot has => used.fedOnce slot (mem_slots.mp has),
        fun slot listed => mem_slots.mpr (used.readKnown slot listed),
        fun slot has => used.readUsed slot (mem_slots.mp has)⟩⟩

theorem mem_slotsOf {count : Nat} {slot : SlotRef} :
    slot ∈ Pattern.slotsOf count ↔ slot.operator = 0 ∧ slot.slot < count := by
  obtain ⟨operator, place⟩ := slot
  simp only [Pattern.slotsOf, List.mem_map, List.mem_range, SlotRef.mk.injEq]
  constructor
  · rintro ⟨_, within, rfl, rfl⟩
    exact ⟨rfl, within⟩
  · rintro ⟨rfl, within⟩
    exact ⟨place, within, rfl, rfl⟩

theorem nodup_slotsOf (count : Nat) : (Pattern.slotsOf count).Nodup :=
  List.nodup_range.map fun _ _ => congrArg SlotRef.slot

theorem getElem?_slotsOf {count place : Nat} {slot : SlotRef}
    (found : (Pattern.slotsOf count)[place]? = some slot) : slot = ⟨0, place⟩ := by
  rw [Pattern.slotsOf, List.getElem?_map, Option.map_eq_some_iff] at found
  obtain ⟨_, here, rfl⟩ := found
  obtain ⟨_, rfl⟩ := List.getElem?_eq_some_iff.mp here
  rw [List.getElem_range]

theorem getElem?_single {operator found : BoundOperator α} {place : Nat} :
    (single operator).operators[place]? = some found ↔ place = 0 ∧ found = operator := by
  cases place <;> simp [single, eq_comm]

theorem slotComplete_single (operator : BoundOperator α) : (single operator).SlotComplete := by
  have input : ∀ slot, (single operator).HasInput slot ↔
      slot ∈ Pattern.slotsOf operator.inputs := by
    intro slot
    simp only [HasInput, getElem?_single, mem_slotsOf]
    exact ⟨fun ⟨_, ⟨first, same⟩, within⟩ => ⟨first, same ▸ within⟩,
      fun ⟨first, within⟩ => ⟨operator, ⟨first, rfl⟩, within⟩⟩
  have output : ∀ slot, (single operator).HasOutput slot ↔
      slot ∈ Pattern.slotsOf operator.outputs := by
    intro slot
    simp only [HasOutput, getElem?_single, mem_slotsOf]
    exact ⟨fun ⟨_, ⟨first, same⟩, within⟩ => ⟨first, same ▸ within⟩,
      fun ⟨first, within⟩ => ⟨operator, ⟨first, rfl⟩, within⟩⟩
  exact
    { fedKnown := fun slot listed => (input slot).mpr listed
      fedOnce := fun slot has =>
        List.count_eq_one_of_mem (nodup_slotsOf _) ((input slot).mp has)
      readKnown := fun slot listed => (output slot).mpr listed
      readOnce := fun slot has =>
        List.count_eq_one_of_mem (nodup_slotsOf _) ((output slot).mp has) }

end Replacement

namespace Problem

variable {problem : Problem α}

/-! ## Joined slots -/

def Stands (problem : Problem α) (candidate id : Nat) : Prop :=
  ∃ found, problem.candidates[candidate]? = some found ∧ id ∈ found.covered

def Gives (problem : Problem α) (slot : CandidateSlot) (output : SlotRef) : Prop :=
  ∃ found, problem.candidates[slot.candidate]? = some found ∧
    ∃ place : Nat, found.matched.outputs[place]? = some output ∧
      found.replacement.outputs[place]? = some slot.slot

def Takes (problem : Problem α) (slot : CandidateSlot) (input : SlotRef) : Prop :=
  ∃ found, problem.candidates[slot.candidate]? = some found ∧
    ∃ place : Nat, found.matched.inputs[place]? = some input ∧
      found.replacement.inputs[place]? = some slot.slot

/-- A slot of a replacement stands beside a slot of the plan in two lists of its candidate. -/
def Beside (problem : Problem α) (outer inner : Candidate α → List SlotRef) (slot : CandidateSlot)
    (ref : SlotRef) : Prop :=
  ∃ found, problem.candidates[slot.candidate]? = some found ∧
    ∃ place : Nat, (outer found)[place]? = some ref ∧ (inner found)[place]? = some slot.slot

section Beside

variable {outer inner : Candidate α → List SlotRef}

theorem Beside.ref_unique {slot : CandidateSlot} (distinct : ∀ found,
      problem.candidates[slot.candidate]? = some found → (inner found).Nodup)
    {first second : SlotRef} (one : problem.Beside outer inner slot first)
    (two : problem.Beside outer inner slot second) : first = second := by
  obtain ⟨found, known, place, here, there⟩ := one
  obtain ⟨found', known', place', here', there'⟩ := two
  obtain rfl := Option.some.inj (known.symm.trans known')
  exact beside_unique (distinct found known) there there' here here'

theorem Beside.slot_unique (distinct : ∀ candidate ∈ problem.candidates, (outer candidate).Nodup)
    {first second : CandidateSlot} {ref : SlotRef} (same : first.candidate = second.candidate)
    (one : problem.Beside outer inner first ref) (two : problem.Beside outer inner second ref) :
    first = second := by
  obtain ⟨candidate, slot⟩ := first
  obtain ⟨candidate', slot'⟩ := second
  obtain rfl : candidate = candidate' := same
  obtain ⟨found, known, place, here, there⟩ := one
  obtain ⟨found', known', place', here', there'⟩ := two
  obtain rfl := Option.some.inj (known.symm.trans known')
  exact congrArg (CandidateSlot.mk candidate)
    (beside_unique (distinct found (List.mem_of_getElem? known)) here here' there there')

theorem exists_beside {candidate : Nat} {found : Candidate α}
    (known : problem.candidates[candidate]? = some found)
    (length : (inner found).length = (outer found).length) {ref : SlotRef}
    (listed : ref ∈ outer found) : ∃ slot, problem.Beside outer inner ⟨candidate, slot⟩ ref := by
  obtain ⟨place, here⟩ := List.mem_iff_getElem?.mp listed
  have within : place < (inner found).length :=
    length ▸ (List.getElem?_eq_some_iff.mp here).1
  exact ⟨_, found, known, place, here, List.getElem?_eq_getElem within⟩

end Beside

/-- What leaves an output of a chosen candidate enters an input of the same or another one. -/
inductive Wired (problem : Problem α) (selection : List Nat) :
    CandidateSlot → CandidateSlot → Prop where
  | link {candidate : Nat} {found : Candidate α} {link : Edge} (chosen : candidate ∈ selection)
      (known : problem.candidates[candidate]? = some found)
      (present : link ∈ found.replacement.links) :
      Wired problem selection ⟨candidate, link.source⟩ ⟨candidate, link.target⟩
  | edge {output input : CandidateSlot} {edge : Edge} (source : output.candidate ∈ selection)
      (target : input.candidate ∈ selection) (present : edge ∈ problem.plan.edges)
      (gives : problem.Gives output edge.source) (takes : problem.Takes input edge.target) :
      Wired problem selection output input

def Feeds (problem : Problem α) (selection : List Nat) (earlier later : Nat × Nat) : Prop :=
  ∃ output input, problem.Wired selection output input ∧
    earlier = (output.candidate, output.slot.operator) ∧
    later = (input.candidate, input.slot.operator)

/-- Where replacements have no links and no input of a candidate comes behind its outputs, data
never comes back. -/
theorem acyclic_of_forward [Quantity α] (formed : problem.plan.WellFormed)
    (prepared : problem.Prepared)
    (unlinked : ∀ candidate ∈ problem.candidates, candidate.replacement.links = [])
    (forward : ∀ candidate ∈ problem.candidates, ∀ input ∈ candidate.matched.inputs,
      ∀ output ∈ candidate.matched.outputs,
        problem.order.idxOf input.operator ≤ problem.order.idxOf output.operator)
    (selection : List Nat) (site : Nat × Nat) :
    ¬ Relation.TransGen (problem.Feeds selection) site site := by
  have ascends : ∀ site site', problem.Feeds selection site site' → ∃ source target,
      problem.candidates[site.1]? = some source ∧ problem.candidates[site'.1]? = some target ∧
      ∃ output ∈ source.matched.outputs, ∃ input ∈ target.matched.inputs,
        problem.order.idxOf output.operator < problem.order.idxOf input.operator := by
    rintro _ _ ⟨output, input, wired, rfl, rfl⟩
    cases wired with
    | @link candidate found link _ known present =>
      rw [unlinked found (List.mem_of_getElem? known)] at present
      cases present
    | edge _ _ present gives takes =>
      obtain ⟨source, known, place, here, -⟩ := gives
      obtain ⟨target, known', place', here', -⟩ := takes
      exact ⟨source, target, known, known', _, List.mem_of_getElem? here, _,
        List.mem_of_getElem? here', Plan.edge_forward formed prepared.order present⟩
  have path : ∀ site site', Relation.TransGen (problem.Feeds selection) site site' →
      ∃ source target, problem.candidates[site.1]? = some source ∧
        problem.candidates[site'.1]? = some target ∧
        ∃ output ∈ source.matched.outputs, ∃ input ∈ target.matched.inputs,
          problem.order.idxOf output.operator < problem.order.idxOf input.operator := by
    intro site site' steps
    induction steps with
    | single step => exact ascends _ _ step
    | tail _ step ih =>
      obtain ⟨source, middle, known, known', output, first, input, listed, before⟩ := ih
      obtain ⟨middle', target, known'', known''', output', listed', input', last, behind⟩ :=
        ascends _ _ step
      obtain rfl := Option.some.inj (known'.symm.trans known'')
      have across := forward middle (List.mem_of_getElem? known') input listed output' listed'
      exact ⟨source, target, known, known''', output, first, input', last, by omega⟩
  intro cycle
  obtain ⟨source, target, known, known', output, listed, input, listed', before⟩ :=
    path site site cycle
  obtain rfl := Option.some.inj (known.symm.trans known')
  exact absurd (forward source (List.mem_of_getElem? known) input listed' output listed)
    (Nat.not_le_of_lt before)

/-- Data never comes back where all of it goes on to later candidates or to later operators. -/
theorem acyclic_of_rising {selection : List Nat}
    (rising : ∀ output input, problem.Wired selection output input →
      output.candidate < input.candidate ∨
        output.candidate = input.candidate ∧ output.slot.operator < input.slot.operator)
    (site : Nat × Nat) : ¬ Relation.TransGen (problem.Feeds selection) site site := by
  have later : ∀ first second, Relation.TransGen (problem.Feeds selection) first second →
      first.1 < second.1 ∨ first.1 = second.1 ∧ first.2 < second.2 := by
    intro first second path
    induction path with
    | single step =>
      obtain ⟨output, input, wired, rfl, rfl⟩ := step
      exact rising output input wired
    | tail _ step ih =>
      obtain ⟨output, input, wired, rfl, rfl⟩ := step
      have next := rising output input wired
      dsimp only at ih ⊢
      omega
  exact fun cycle => by have := later site site cycle; omega

/-- The chosen candidates cover each operator of a valid plan once, and their links and boundaries
use all their slots. -/
structure Cover [Quantity α] (problem : Problem α) (full selection : List Nat) : Prop where
  prepared : problem.Prepared
  formed : problem.plan.WellFormed
  connected : problem.plan.Connected
  joined : ∀ candidate ∈ problem.candidates, candidate.Joined problem.plan
  used : ∀ candidate ∈ selection, ∀ found, problem.candidates[candidate]? = some found →
    found.replacement.SlotsUsed
  fills : problem.Fills (full.map some) selection

/-- The chosen candidates cover each operator of a valid plan once, and all slots of candidates are
named by their links and boundaries. -/
structure ExactCover [Quantity α] (problem : Problem α) (full selection : List Nat) : Prop where
  prepared : problem.Prepared
  formed : problem.plan.WellFormed
  connected : problem.plan.Connected
  joined : ∀ candidate ∈ problem.candidates, candidate.Joined problem.plan
  complete : ∀ candidate ∈ problem.candidates, candidate.replacement.SlotComplete
  fills : problem.Fills (full.map some) selection

theorem ExactCover.base [Quantity α] {full selection : List Nat}
    (cover : problem.ExactCover full selection) : problem.Cover full selection where
  prepared := cover.prepared
  formed := cover.formed
  connected := cover.connected
  joined := cover.joined
  used := fun _ _ found known => (cover.complete found (List.mem_of_getElem? known)).used
  fills := cover.fills

namespace Cover

variable [Quantity α] {full selection : List Nat}

theorem chosen?_iff (cover : problem.Cover full selection) {id candidate : Nat} :
    problem.chosen? (full.map some) id = some candidate ↔
      candidate ∈ selection ∧ problem.Stands candidate id :=
  cover.prepared.chosen?_iff cover.fills

theorem stands_unique (cover : problem.Cover full selection) {first second id : Nat}
    (chosen : first ∈ selection) (chosen' : second ∈ selection) (stands : problem.Stands first id)
    (stands' : problem.Stands second id) : first = second := by
  have one := cover.chosen?_iff.mpr ⟨chosen, stands⟩
  have two := cover.chosen?_iff.mpr ⟨chosen', stands'⟩
  rw [one] at two
  exact Option.some.inj two

theorem exists_stands (cover : problem.Cover full selection) {id : Nat}
    (known : id < problem.plan.size) : ∃ candidate ∈ selection, problem.Stands candidate id := by
  have listed := (Plan.mem_order cover.prepared.order).mpr known
  have within : problem.order.idxOf id < full.length := by
    have length := cover.fills.length
    rw [List.length_map] at length
    rw [length]
    exact List.idxOf_lt_length_of_mem listed
  have held : problem.chosen? (full.map some) id = some full[problem.order.idxOf id] := by
    rw [chosen?, cover.prepared.idxOf?_iff.mpr (List.getElem?_idxOf listed), Option.bind_some,
      getD_map_some, List.getElem?_eq_getElem within]
  exact ⟨_, cover.chosen?_iff.mp held⟩

theorem gives_stands (cover : problem.Cover full selection) {slot : CandidateSlot}
    {output : SlotRef} (gives : problem.Gives slot output) :
    problem.plan.HasOutput output ∧ problem.Stands slot.candidate output.operator := by
  obtain ⟨found, known, place, here, -⟩ := gives
  obtain ⟨has, covered⟩ := (cover.joined found (List.mem_of_getElem? known)).hasOutput output
    (List.mem_of_getElem? here)
  exact ⟨has, found, known, covered⟩

theorem takes_stands (cover : problem.Cover full selection) {slot : CandidateSlot}
    {input : SlotRef} (takes : problem.Takes slot input) :
    problem.plan.HasInput input ∧ problem.Stands slot.candidate input.operator := by
  obtain ⟨found, known, place, here, -⟩ := takes
  obtain ⟨has, covered⟩ := (cover.joined found (List.mem_of_getElem? known)).hasInput input
    (List.mem_of_getElem? here)
  exact ⟨has, found, known, covered⟩

theorem input_unique (cover : problem.Cover full selection) {slot : CandidateSlot}
    {first second : SlotRef} (chosen : slot.candidate ∈ selection)
    (takes : problem.Takes slot first) (takes' : problem.Takes slot second) : first = second := by
  refine Beside.ref_unique (fun found known => ?_) takes takes'
  exact (List.nodup_append.mp (cover.used _ chosen found known).nodup_fed).2.1

theorem gives_unique (cover : problem.Cover full selection) {first second : CandidateSlot}
    {output : SlotRef} (chosen : first.candidate ∈ selection)
    (chosen' : second.candidate ∈ selection) (gives : problem.Gives first output)
    (gives' : problem.Gives second output) : first = second := by
  have same := cover.stands_unique chosen chosen' (cover.gives_stands gives).2
    (cover.gives_stands gives').2
  exact Beside.slot_unique (fun candidate listed => (cover.joined candidate listed).distinctOutputs)
    same gives gives'

theorem takes_unique (cover : problem.Cover full selection) {first second : CandidateSlot}
    {input : SlotRef} (chosen : first.candidate ∈ selection)
    (chosen' : second.candidate ∈ selection) (takes : problem.Takes first input)
    (takes' : problem.Takes second input) : first = second := by
  have same := cover.stands_unique chosen chosen' (cover.takes_stands takes).2
    (cover.takes_stands takes').2
  exact Beside.slot_unique (fun candidate listed => (cover.joined candidate listed).distinctInputs)
    same takes takes'

theorem not_stands_target (cover : problem.Cover full selection) {slot : CandidateSlot}
    {edge : Edge} (present : edge ∈ problem.plan.edges) (gives : problem.Gives slot edge.source) :
    ¬ problem.Stands slot.candidate edge.target.operator := by
  obtain ⟨found, known, place, here, -⟩ := gives
  have joined := cover.joined found (List.mem_of_getElem? known)
  have listed := List.mem_of_getElem? here
  rintro ⟨found', known', covered⟩
  obtain rfl := Option.some.inj (known.symm.trans known')
  exact (joined.readOutside edge present (joined.hasOutput _ listed).2).mp listed covered

theorem not_stands_source (cover : problem.Cover full selection) {slot : CandidateSlot}
    {edge : Edge} (present : edge ∈ problem.plan.edges) (takes : problem.Takes slot edge.target) :
    ¬ problem.Stands slot.candidate edge.source.operator := by
  obtain ⟨found, known, place, here, -⟩ := takes
  have joined := cover.joined found (List.mem_of_getElem? known)
  have listed := List.mem_of_getElem? here
  rintro ⟨found', known', covered⟩
  obtain rfl := Option.some.inj (known.symm.trans known')
  exact (joined.fedOutside edge present (joined.hasInput _ listed).2).mp listed covered

theorem exists_gives (cover : problem.Cover full selection) {candidate : Nat} {edge : Edge}
    (present : edge ∈ problem.plan.edges) (stands : problem.Stands candidate edge.source.operator)
    (outside : ¬ problem.Stands candidate edge.target.operator) :
    ∃ slot, problem.Gives ⟨candidate, slot⟩ edge.source := by
  obtain ⟨found, known, covered⟩ := stands
  have joined := cover.joined found (List.mem_of_getElem? known)
  exact exists_beside known joined.outputs ((joined.readOutside edge present covered).mpr
    fun among => outside ⟨found, known, among⟩)

theorem exists_takes (cover : problem.Cover full selection) {candidate : Nat} {edge : Edge}
    (present : edge ∈ problem.plan.edges) (stands : problem.Stands candidate edge.target.operator)
    (outside : ¬ problem.Stands candidate edge.source.operator) :
    ∃ slot, problem.Takes ⟨candidate, slot⟩ edge.target := by
  obtain ⟨found, known, covered⟩ := stands
  have joined := cover.joined found (List.mem_of_getElem? known)
  exact exists_beside known joined.inputs ((joined.fedOutside edge present covered).mpr
    fun among => outside ⟨found, known, among⟩)

/-- Every output of a chosen operator is read. -/
theorem exists_wired_from (cover : problem.Cover full selection) {candidate : Nat}
    {found : Candidate α} {slot : SlotRef} (chosen : candidate ∈ selection)
    (known : problem.candidates[candidate]? = some found)
    (has : found.replacement.HasOutput slot) :
    ∃ input, problem.Wired selection ⟨candidate, slot⟩ input := by
  have member := List.mem_of_getElem? known
  have joined := cover.joined found member
  have listed := (cover.used candidate chosen found known).readUsed slot has
  rcases List.mem_append.mp listed with linked | boundary
  · obtain ⟨link, present, rfl⟩ := List.mem_map.mp linked
    exact ⟨_, .link chosen known present⟩
  · obtain ⟨place, within, here⟩ := List.mem_iff_getElem.mp boundary
    have within' : place < found.matched.outputs.length := by rwa [← joined.outputs]
    have gives : problem.Gives ⟨candidate, slot⟩ found.matched.outputs[place] :=
      ⟨found, known, place, List.getElem?_eq_getElem within',
        List.getElem?_eq_some_iff.mpr ⟨within, here⟩⟩
    obtain ⟨input, present⟩ := cover.connected.read _ (cover.gives_stands gives).1
    have outside := cover.not_stands_target present gives
    obtain ⟨other, chosen', stands⟩ := cover.exists_stands (cover.formed.target_lt present)
    have apart : ¬ problem.Stands other found.matched.outputs[place].operator := by
      intro stands'
      have same := cover.stands_unique chosen chosen' (cover.gives_stands gives).2 stands'
      exact outside (same ▸ stands)
    obtain ⟨slot', takes⟩ := cover.exists_takes present stands apart
    exact ⟨⟨other, slot'⟩, .edge chosen chosen' present gives takes⟩

theorem exists_wired_into (cover : problem.Cover full selection) {candidate : Nat}
    {found : Candidate α} {slot : SlotRef} (chosen : candidate ∈ selection)
    (known : problem.candidates[candidate]? = some found)
    (has : found.replacement.HasInput slot) :
    ∃ output, problem.Wired selection output ⟨candidate, slot⟩ := by
  have member := List.mem_of_getElem? known
  have joined := cover.joined found member
  have listed := (cover.used candidate chosen found known).mem_fed.mpr has
  rcases List.mem_append.mp listed with linked | boundary
  · obtain ⟨link, present, rfl⟩ := List.mem_map.mp linked
    exact ⟨_, .link chosen known present⟩
  · obtain ⟨place, within, here⟩ := List.mem_iff_getElem.mp boundary
    have within' : place < found.matched.inputs.length := by rwa [← joined.inputs]
    have takes : problem.Takes ⟨candidate, slot⟩ found.matched.inputs[place] :=
      ⟨found, known, place, List.getElem?_eq_getElem within',
        List.getElem?_eq_some_iff.mpr ⟨within, here⟩⟩
    obtain ⟨output, present⟩ := cover.connected.fed _ (cover.takes_stands takes).1
    have outside := cover.not_stands_source present takes
    obtain ⟨other, chosen', stands⟩ := cover.exists_stands (cover.formed.source_lt present)
    have apart : ¬ problem.Stands other found.matched.inputs[place].operator := by
      intro stands'
      have same := cover.stands_unique chosen chosen' (cover.takes_stands takes).2 stands'
      exact outside (same ▸ stands)
    obtain ⟨slot', gives⟩ := cover.exists_gives present stands apart
    exact ⟨⟨other, slot'⟩, .edge chosen' chosen present gives takes⟩

theorem wired_known (cover : problem.Cover full selection) {output input : CandidateSlot}
    (wired : problem.Wired selection output input) :
    (output.candidate ∈ selection ∧ ∃ found, problem.candidates[output.candidate]? = some found ∧
      found.replacement.HasOutput output.slot) ∧
    (input.candidate ∈ selection ∧ ∃ found, problem.candidates[input.candidate]? = some found ∧
      found.replacement.HasInput input.slot) := by
  cases wired with
  | @link candidate found link chosen known present =>
    have used := cover.used candidate chosen found known
    exact ⟨⟨chosen, found, known, used.readKnown _ (List.mem_append_left _
        (List.mem_map_of_mem present))⟩,
      chosen, found, known, used.fedKnown _ (List.mem_append_left _
        (List.mem_map_of_mem present))⟩
  | edge chosen chosen' present gives takes =>
    obtain ⟨found, known, place, -, there⟩ := gives
    obtain ⟨found', known', place', -, there'⟩ := takes
    exact ⟨⟨chosen, found, known, (cover.used _ chosen found known).readKnown _
        (List.mem_append_right _ (List.mem_of_getElem? there))⟩,
      chosen', found', known', (cover.used _ chosen' found' known').fedKnown _
        (List.mem_append_right _ (List.mem_of_getElem? there'))⟩

end Cover

end Problem

end CrossPlan
