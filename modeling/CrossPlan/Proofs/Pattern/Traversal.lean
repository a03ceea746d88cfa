import CrossPlan.Pattern.Basic
import Mathlib.Data.List.Perm.Subperm
import Mathlib.Data.List.Nodup
import Mathlib.Logic.Relation

/-!
# What a traversal reaches

A traversal starts at the first node and goes on along edges, each time to a node not visited
before.  It has as many steps as there are nodes, and with these it goes through the edges at every
node that it visits, so that in the end no edge leads from a visited node to another one.  Hence it
visits all nodes exactly where any two nodes are connected, whichever way the edges between them
lead.
-/

set_option autoImplicit false

namespace CrossPlan.PatternDraft

def Joins (edge : Edge) (node next : Nat) : Prop :=
  (edge.source.operator = node ∧ edge.target.operator = next) ∨
    (edge.target.operator = node ∧ edge.source.operator = next)

def Adjacent (edges : List Edge) (node next : Nat) : Prop := ∃ edge ∈ edges, Joins edge node next

/-- Any two of the first `size` nodes are connected by edges, read in either direction. -/
def Connected (edges : List Edge) (size : Nat) : Prop :=
  ∀ node < size, ∀ other < size, Relation.ReflTransGen (Adjacent edges) node other

def Within (edges : List Edge) (size : Nat) : Prop :=
  ∀ edge ∈ edges, edge.source.operator < size ∧ edge.target.operator < size

theorem Joins.symm {edge : Edge} {node next : Nat} (joins : Joins edge node next) :
    Joins edge next node :=
  joins.elim (fun ends => .inr ends.symm) (fun ends => .inl ends.symm)

theorem Adjacent.symm {edges : List Edge} {node next : Nat} (adjacent : Adjacent edges node next) :
    Adjacent edges next node :=
  adjacent.imp fun _ ⟨listed, joins⟩ => ⟨listed, joins.symm⟩

theorem across?_eq_some_iff {edge : Edge} {node next : Nat} :
    across? edge node = some next ↔ Joins edge node next := by
  unfold across? Joins
  by_cases source : edge.source.operator = node
  · -- an edge from the node to itself joins it to itself only
    rw [if_pos source, Option.some.injEq]
    constructor
    · intro target
      exact .inl ⟨source, target⟩
    · rintro (⟨-, target⟩ | ⟨looped, same⟩)
      · exact target
      · rw [looped, ← source, same]
  · by_cases target : edge.target.operator = node <;> simp [source, target]

inductive Traversed (edges : List Edge) : List Visit → Prop where
  | root : Traversed edges [⟨0, none⟩]
  | step {visits : List Visit} {earlier : Visit} {edge : Edge} {place next : Nat} :
      Traversed edges visits → earlier ∈ visits → edges[place]? = some edge →
      across? edge earlier.node = some next → next ∉ visits.map (·.node) →
      Traversed edges (visits ++ [⟨next, some place⟩])

def note (node : Nat) (visits : List Visit) (entry : Edge × Nat) : List Visit :=
  match across? entry.1 node with
  | some next =>
    if visits.any (·.node == next) then visits else visits ++ [⟨next, some entry.2⟩]
  | none => visits

variable {edges : List Edge} {visits : List Visit} {size : Nat}

theorem reach_eq_foldl (node : Nat) :
    reach edges node visits = edges.zipIdx.foldl (note node) visits := rfl

theorem any_node_eq {next : Nat} :
    visits.any (·.node == next) = true ↔ next ∈ visits.map (·.node) := by
  simp [List.any_eq_true]

namespace Traversed

theorem nodup (traversed : Traversed edges visits) : (visits.map (·.node)).Nodup := by
  induction traversed with
  | root => simp
  | step _ _ _ _ fresh ih =>
    rw [List.map_append, List.nodup_append]
    refine ⟨ih, by simp, ?_⟩
    intro a old b new same
    rw [List.map_singleton, List.mem_singleton] at new
    subst new
    subst same
    exact fresh old

theorem along (traversed : Traversed edges visits) {before after : List Visit} {visit : Visit}
    (split : visits = before ++ visit :: after) :
    (before = [] ∧ visit = ⟨0, none⟩) ∨
      ∃ place edge, visit.via = some place ∧ edges[place]? = some edge ∧
        ∃ earlier ∈ before, across? edge earlier.node = some visit.node := by
  induction traversed generalizing after with
  | root =>
    obtain ⟨rfl, rfl, -⟩ : before = [] ∧ visit = ⟨0, none⟩ ∧ after = [] := by
      cases before with
      | nil => simpa [eq_comm] using split
      | cons first rest => simp at split
    exact Or.inl ⟨rfl, rfl⟩
  | @step visits earlier edge place next _ present found crossed fresh ih =>
    rcases List.eq_nil_or_concat after with rfl | ⟨front, last, rfl⟩
    · obtain ⟨rfl, one⟩ := List.append_inj' split rfl
      obtain rfl := List.singleton_inj.mp one
      exact Or.inr ⟨place, edge, rfl, found, earlier, present, crossed⟩
    · have ended : visits ++ [⟨next, some place⟩] = (before ++ visit :: front) ++ [last] := by
        simpa [List.concat_eq_append] using split
      exact ih (List.append_inj' ended rfl).1

theorem head? (traversed : Traversed edges visits) : visits.head? = some ⟨0, none⟩ := by
  induction traversed with
  | root => rfl
  | step _ _ _ _ _ ih => rw [List.head?_append, ih, Option.some_or]

theorem path (traversed : Traversed edges visits) {node : Nat}
    (visited : node ∈ visits.map (·.node)) : Relation.ReflTransGen (Adjacent edges) 0 node := by
  induction traversed generalizing node with
  | root =>
    obtain rfl : node = 0 := by simpa using visited
    exact .refl
  | @step visits earlier edge place next _ present found crossed _ ih =>
    rw [List.map_append, List.mem_append, List.map_singleton, List.mem_singleton] at visited
    rcases visited with old | rfl
    · exact ih old
    · have before : earlier.node ∈ visits.map (·.node) := List.mem_map_of_mem present
      exact (ih before).tail ⟨edge, List.mem_of_getElem? found, across?_eq_some_iff.mp crossed⟩

theorem node_lt (traversed : Traversed edges visits) (within : Within edges size)
    (nonempty : 0 < size) {node : Nat} (visited : node ∈ visits.map (·.node)) : node < size := by
  rcases Relation.ReflTransGen.cases_tail (traversed.path visited) with
    rfl | ⟨earlier, -, edge, listed, joins⟩
  · exact nonempty
  · obtain ⟨source, target⟩ := within edge listed
    rcases joins with ⟨-, rfl⟩ | ⟨-, rfl⟩
    · exact target
    · exact source

theorem subperm (traversed : Traversed edges visits) (within : Within edges size)
    (nonempty : 0 < size) : (visits.map (·.node)).Subperm (List.range size) :=
  List.subperm_of_subset traversed.nodup fun _ visited =>
    List.mem_range.mpr (traversed.node_lt within nonempty visited)

theorem length_le (traversed : Traversed edges visits) (within : Within edges size)
    (nonempty : 0 < size) : visits.length ≤ size := by
  simpa using (traversed.subperm within nonempty).length_le

theorem note (traversed : Traversed edges visits) {visit : Visit} (present : visit ∈ visits)
    {entry : Edge × Nat} (listed : entry ∈ edges.zipIdx) :
    Traversed edges (note visit.node visits entry) := by
  unfold PatternDraft.note
  cases crossed : across? entry.1 visit.node with
  | none => exact traversed
  | some next =>
    by_cases seen : visits.any (·.node == next) = true
    · simpa only [if_pos seen] using traversed
    · simp only [if_neg seen]
      refine traversed.step present (List.mem_zipIdx_iff_getElem?.mp listed) crossed ?_
      exact fun visited => seen (any_node_eq.mpr visited)

end Traversed

theorem starts_note (node : Nat) (entry : Edge × Nat) : visits <+: note node visits entry := by
  unfold note
  split
  · split
    · exact List.prefix_rfl
    · exact List.prefix_append _ _
  · exact List.prefix_rfl

theorem starts_foldl_note (node : Nat) (entries : List (Edge × Nat)) :
    visits <+: entries.foldl (note node) visits := by
  induction entries generalizing visits with
  | nil => exact List.prefix_rfl
  | cons entry rest ih => exact (starts_note node entry).trans ih

theorem mem_note {node next : Nat} {entry : Edge × Nat}
    (crossed : across? entry.1 node = some next) : next ∈ (note node visits entry).map (·.node) := by
  simp only [note, crossed]
  split
  · next seen => exact any_node_eq.mp seen
  · simp

theorem Traversed.foldl_note (traversed : Traversed edges visits) {visit : Visit}
    (present : visit ∈ visits) {entries : List (Edge × Nat)}
    (listed : ∀ entry ∈ entries, entry ∈ edges.zipIdx) :
    Traversed edges (entries.foldl (PatternDraft.note visit.node) visits) := by
  induction entries generalizing visits with
  | nil => exact traversed
  | cons entry rest ih =>
    refine ih (traversed.note present (listed entry List.mem_cons_self)) ?_
      fun other among => listed other (List.mem_cons_of_mem _ among)
    exact (starts_note visit.node entry).subset present

theorem Traversed.reach (traversed : Traversed edges visits) {visit : Visit}
    (present : visit ∈ visits) : Traversed edges (reach edges visit.node visits) :=
  traversed.foldl_note present fun _ listed => listed

theorem Traversed.traverse (traversed : Traversed edges visits) (steps place : Nat) :
    Traversed edges (traverse edges steps place visits) := by
  induction steps generalizing place visits with
  | zero => exact traversed
  | succ steps ih =>
    rw [PatternDraft.traverse]
    split
    · exact traversed
    · next visit found => exact ih (traversed.reach (List.mem_of_getElem? found)) (place + 1)

theorem traversed_traversal (draft : PatternDraft) : Traversed draft.edges draft.traversal :=
  Traversed.root.traverse _ _

/-! ## All that edges lead to is visited -/

theorem mem_reach {node next : Nat} (adjacent : Adjacent edges node next) :
    next ∈ (reach edges node visits).map (·.node) := by
  obtain ⟨edge, listed, joins⟩ := adjacent
  obtain ⟨place, found⟩ := List.mem_iff_getElem?.mp listed
  have entry : (edge, place) ∈ edges.zipIdx := List.mk_mem_zipIdx_iff_getElem?.mpr found
  rw [reach_eq_foldl]
  generalize edges.zipIdx = entries at entry
  induction entries generalizing visits with
  | nil => cases entry
  | cons first rest ih =>
    rcases List.mem_cons.mp entry with rfl | later
    · have visited : next ∈ (note node visits (edge, place)).map (·.node) :=
        mem_note (across?_eq_some_iff.mpr joins)
      exact ((starts_foldl_note node rest).map _).subset visited
    · exact ih later

def Settled (edges : List Edge) (visits : List Visit) (place : Nat) : Prop :=
  ∀ earlier < place, ∀ visit, visits[earlier]? = some visit →
    ∀ next, Adjacent edges visit.node next → next ∈ visits.map (·.node)

theorem Settled.reach {place : Nat} {visit : Visit} (settled : Settled edges visits place)
    (found : visits[place]? = some visit) :
    Settled edges (reach edges visit.node visits) (place + 1) := by
  obtain ⟨new, longer⟩ : visits <+: PatternDraft.reach edges visit.node visits :=
    starts_foldl_note _ _
  intro earlier before other there next adjacent
  have old : earlier < visits.length := by
    have := (List.getElem?_eq_some_iff.mp found).1
    omega
  have here : visits[earlier]? = some other := by
    rw [← longer, List.getElem?_append_left old] at there
    exact there
  by_cases last : earlier = place
  · -- the visit at the place itself is settled now, and those before it still are
    subst last
    obtain rfl := Option.some.inj (found.symm.trans here)
    exact mem_reach adjacent
  · have visited := settled earlier (by omega) other here next adjacent
    rw [← longer, List.map_append]
    exact List.mem_append_left _ visited

/-- With as many steps as there are nodes nothing is left to visit at the end. -/
theorem settled_traverse (traversed : Traversed edges visits) (within : Within edges size)
    (nonempty : 0 < size) {steps place : Nat} (enough : size ≤ place + steps)
    (settled : Settled edges visits place) : Settled edges (traverse edges steps place visits)
      (traverse edges steps place visits).length := by
  induction steps generalizing place visits with
  | zero =>
    -- no node is visited twice, so that there are never more visits than steps
    have short := traversed.length_le within nonempty
    intro earlier before
    rw [traverse] at before
    exact settled earlier (by omega)
  | succ steps ih =>
    rw [traverse]
    split
    · next ended =>
      rw [List.getElem?_eq_none_iff] at ended
      intro earlier before
      exact settled earlier (Nat.lt_of_lt_of_le before ended)
    · next visit found =>
      refine ih (traversed.reach (List.mem_of_getElem? found)) ?_ (settled.reach found)
      omega

theorem mem_traversal_of_adjacent {draft : PatternDraft}
    (within : Within draft.edges draft.nodes.length) (nonempty : 0 < draft.nodes.length)
    {node next : Nat} (visited : node ∈ draft.traversal.map (·.node))
    (adjacent : Adjacent draft.edges node next) : next ∈ draft.traversal.map (·.node) := by
  obtain ⟨visit, present, rfl⟩ := List.mem_map.mp visited
  obtain ⟨place, found⟩ := List.mem_iff_getElem?.mp present
  have none : Settled draft.edges [⟨0, none⟩] 0 := fun earlier before => absurd before (by omega)
  have settled := settled_traverse .root within nonempty (Nat.le_add_left _ 0) none
  exact settled place (List.getElem?_eq_some_iff.mp found).1 visit found next adjacent

theorem mem_traversal_iff {draft : PatternDraft} (within : Within draft.edges draft.nodes.length)
    (nonempty : 0 < draft.nodes.length) {node : Nat} :
    node ∈ draft.traversal.map (·.node) ↔ Relation.ReflTransGen (Adjacent draft.edges) 0 node := by
  have traversed := draft.traversed_traversal
  constructor
  · exact traversed.path
  · intro path
    induction path with
    | refl => exact List.mem_map_of_mem (List.mem_of_mem_head? traversed.head?)
    | tail _ adjacent ih => exact mem_traversal_of_adjacent within nonempty ih adjacent

/-- A traversal is as long as there are nodes exactly where the nodes are connected. -/
theorem length_traversal_iff {draft : PatternDraft} (within : Within draft.edges draft.nodes.length)
    (nonempty : 0 < draft.nodes.length) :
    draft.traversal.length = draft.nodes.length ↔ Connected draft.edges draft.nodes.length := by
  have subperm := draft.traversed_traversal.subperm within nonempty
  constructor
  · intro full
    have perm := subperm.perm_of_length_le (by simp [full])
    have path : ∀ node < draft.nodes.length,
        Relation.ReflTransGen (Adjacent draft.edges) 0 node := fun node known =>
      (mem_traversal_iff within nonempty).mp (perm.mem_iff.mpr (List.mem_range.mpr known))
    intro node known other known'
    have back : Relation.ReflTransGen (Adjacent draft.edges) node 0 :=
      (path node known).swap.lift id fun _ _ => Adjacent.symm
    exact back.trans (path other known')
  · intro connected
    have all : List.range draft.nodes.length ⊆ draft.traversal.map (·.node) := fun node known =>
      (mem_traversal_iff within nonempty).mpr (connected 0 nonempty node (List.mem_range.mp known))
    have perm := (List.subperm_of_subset List.nodup_range all).antisymm subperm
    simpa using perm.length_eq.symm

end CrossPlan.PatternDraft
