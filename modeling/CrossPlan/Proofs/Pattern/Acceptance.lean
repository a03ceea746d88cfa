import CrossPlan.Proofs.Pattern.Registration
import CrossPlan.Proofs.Precedence.Counting

/-!
# Which drafts of patterns are accepted

Calls put a draft together node by node, edge by edge and boundary by boundary, in any order.  The
draft is accepted exactly if it is well formed: it has nodes, all slots it mentions are there, each
slot of its nodes is internal or a boundary of its own, no edges form a cycle, and edges connect all
nodes.  Nothing is lost on the way: an accepted draft is the pattern, and the traversal that it is
given tours all of its nodes.
-/

set_option autoImplicit false

namespace CrossPlan.PatternDraft

open Precedence Sequence

inductive Call where
  | node (asked : OperatorPattern)
  | edge (edge : Edge)
  | input (slot : SlotRef)
  | output (slot : SlotRef)

def add (draft : PatternDraft) : Call → PatternDraft
  | .node asked => { draft with nodes := draft.nodes ++ [asked] }
  | .edge edge => { draft with edges := draft.edges ++ [edge] }
  | .input slot => { draft with inputs := draft.inputs ++ [slot] }
  | .output slot => { draft with outputs := draft.outputs ++ [slot] }

def drafted (name : String) (calls : List Call) : PatternDraft :=
  calls.foldl add ⟨name, [], [], [], []⟩

structure WellFormed (draft : PatternDraft) : Prop where
  nonempty : draft.nodes ≠ []
  edges : ∀ edge ∈ draft.edges,
    draft.HasSlot .output edge.source ∧ draft.HasSlot .input edge.target
  inputs : ∀ slot ∈ draft.inputs, draft.HasSlot .input slot
  outputs : ∀ slot ∈ draft.outputs, draft.HasSlot .output slot
  inputsBound : ∀ slot, draft.HasSlot .input slot →
    ((draft.edges.map (·.target)).count slot = 1 ∧ slot ∉ draft.inputs) ∨
      (slot ∉ draft.edges.map (·.target) ∧ draft.inputs.count slot = 1)
  outputsBound : ∀ slot, draft.HasSlot .output slot →
    (slot ∈ draft.edges.map (·.source) ∧ slot ∉ draft.outputs) ∨
      (slot ∉ draft.edges.map (·.source) ∧ draft.outputs.count slot = 1)
  acyclic : Acyclic draft.precedence
  connected : Connected draft.edges draft.nodes.length

/-- Visits to all nodes, one to each.  They start at the first node, and each further one goes along
an edge that joins the node to one visited before. -/
structure Tour (draft : PatternDraft) (visits : List Visit) : Prop where
  whole : (visits.map (·.node)).Perm (List.range draft.nodes.length)
  first : visits.head? = some ⟨0, none⟩
  onward : ∀ before visit after, visits = before ++ visit :: after → before ≠ [] →
    ∃ place edge, visit.via = some place ∧ draft.edges[place]? = some edge ∧
      ∃ earlier ∈ before, Joins edge earlier.node visit.node

/-- Whether all nodes can be taken, the one that became ready last first, as the edges into each of
them are counted down.  There is no answer if a count were to fall below zero. -/
def isAcyclicByCounts? (draft : PatternDraft) : Option Bool :=
  (Tally.pass? List.getLast? (List.range draft.nodes.length) draft.precedence).map fun tally =>
    tally.taken.length == draft.nodes.length

variable {draft : PatternDraft}

theorem within_of_checkSlots (success : draft.checkSlots = .ok ()) :
    Within draft.edges draft.nodes.length := by
  intro edge listed
  obtain ⟨output, input⟩ := (checkSlots_ok_iff.mp success).1 edge listed
  exact ⟨output.node_lt, input.node_lt⟩

theorem isAcyclicByCounts?_eq (within : Within draft.edges draft.nodes.length) :
    draft.isAcyclicByCounts? = some draft.isAcyclic := by
  have known := precedence_known within
  obtain ⟨tally, success, counted, stuck⟩ := exists_pass? List.nodup_range
    (fun pair listed => (known pair listed).2) chooses_getLast?
  -- both take the nodes that lie neither on a cycle nor behind one
  have same : tally.taken.Perm (schedule (List.range draft.nodes.length) draft.precedence) := by
    have starts : ∀ pair ∈ draft.precedence, pair.2 ∈ List.range draft.nodes.length →
        pair.1 ∈ List.range draft.nodes.length := fun pair listed _ => (known pair listed).1
    refine (List.perm_ext_iff_of_nodup counted.taken.nodup taken_schedule.nodup).mpr fun node => ?_
    rw [counted.taken.mem_iff starts stuck, mem_schedule_iff starts]
  rw [isAcyclicByCounts?, success, Option.map_some, isAcyclic, same.length_eq]

theorem exists_build_iff : (∃ pattern, draft.build = .ok pattern) ↔ draft.WellFormed := by
  constructor
  · rintro ⟨pattern, success⟩
    obtain ⟨nonempty, slots, bindings, acyclic, full, -⟩ := build_ok_iff.mp success
    have within := within_of_checkSlots slots
    obtain ⟨edges, inputs, outputs⟩ := checkSlots_ok_iff.mp slots
    obtain ⟨inputsBound, outputsBound⟩ := checkBindings_ok_iff.mp bindings
    exact
      { nonempty := nonempty
        edges := edges
        inputs := inputs
        outputs := outputs
        inputsBound := fun slot has => inputFault?_eq_none_iff.mp (inputsBound slot has)
        outputsBound := fun slot has => outputFault?_eq_none_iff.mp (outputsBound slot has)
        acyclic := (isAcyclic_iff within).mp acyclic
        connected := (length_traversal_iff within (List.length_pos_iff.mpr nonempty)).mp full }
  · intro formed
    have slots := checkSlots_ok_iff.mpr ⟨formed.edges, formed.inputs, formed.outputs⟩
    have within := within_of_checkSlots slots
    refine ⟨_, build_ok_iff.mpr ⟨formed.nonempty, slots, ?_, ?_, ?_, rfl⟩⟩
    · refine checkBindings_ok_iff.mpr ⟨fun slot has => ?_, fun slot has => ?_⟩
      · exact inputFault?_eq_none_iff.mpr (formed.inputsBound slot has)
      · exact outputFault?_eq_none_iff.mpr (formed.outputsBound slot has)
    · exact (isAcyclic_iff within).mpr formed.acyclic
    · exact (length_traversal_iff within (List.length_pos_iff.mpr formed.nonempty)).mpr
        formed.connected

theorem tour_of_build {pattern : Pattern} (success : draft.build = .ok pattern) :
    draft.Tour pattern.traversal := by
  have registered := Pattern.Accepted.registered ⟨draft, success⟩
  obtain ⟨-, -, -, -, -, rfl⟩ := build_ok_iff.mp success
  refine ⟨registered.visits_perm, registered.traversed.head?, ?_⟩
  intro before visit after split further
  rcases registered.traversed.along split with
    ⟨none, -⟩ | ⟨place, edge, via, found, earlier, present, crossed⟩
  · exact absurd none further
  · exact ⟨place, edge, via, found, earlier, present, across?_eq_some_iff.mp crossed⟩

/-- Whatever calls put a draft together, it is accepted exactly if it is well formed; then it is the
pattern as it stands, with a tour of its nodes.  The search for cycles can count down edges instead,
which comes to the same answer for all drafts that get this far. -/
theorem build_drafted_iff (name : String) (calls : List Call) :
    ((∃ pattern, (drafted name calls).build = .ok pattern) ↔ (drafted name calls).WellFormed) ∧
    (∀ pattern, (drafted name calls).build = .ok pattern →
      pattern.toPatternDraft = drafted name calls ∧
        (drafted name calls).Tour pattern.traversal) ∧
    ((drafted name calls).checkSlots = .ok () →
      (drafted name calls).isAcyclicByCounts? = some (drafted name calls).isAcyclic) := by
  refine ⟨exists_build_iff, fun pattern success => ⟨?_, tour_of_build success⟩, fun slots => ?_⟩
  · obtain ⟨-, -, -, -, -, rfl⟩ := build_ok_iff.mp success
    rfl
  · exact isAcyclicByCounts?_eq (within_of_checkSlots slots)

def filterProjectCalls : List Call :=
  [.edge ⟨⟨0, 0⟩, ⟨1, 0⟩⟩, .node (.ofKind .filter), .output ⟨1, 0⟩, .node (.ofKind .project),
    .input ⟨0, 0⟩]

/-- Both nodes are toured; and without the edge the draft of the calls is not well formed. -/
theorem build_drafted_iff_filterProject :
    (drafted "filter_project" filterProjectCalls).WellFormed ∧
      (drafted "filter_project" filterProjectCalls).Tour [⟨0, none⟩, ⟨1, some 0⟩] ∧
      (drafted "filter_project" filterProjectCalls).isAcyclicByCounts? = some true ∧
      ¬ (drafted "filter_project" filterProjectCalls.tail).WellFormed := by
  have built : (drafted "filter_project" filterProjectCalls).build = .ok filterProjectPattern := rfl
  have unbound : (drafted "filter_project" filterProjectCalls.tail).build =
      .error (.binding "filter_project" 0 .output 0 .unbound) := rfl
  obtain ⟨accepted, toured, counted⟩ := build_drafted_iff "filter_project" filterProjectCalls
  refine ⟨accepted.mp ⟨_, built⟩, (toured _ built).2, counted rfl, fun formed => ?_⟩
  obtain ⟨pattern, success⟩ :=
    (build_drafted_iff "filter_project" filterProjectCalls.tail).1.mpr formed
  rw [unbound] at success
  cases success

end CrossPlan.PatternDraft
