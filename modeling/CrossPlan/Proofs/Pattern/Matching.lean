import CrossPlan.Pattern.Matching
import CrossPlan.Proofs.Pattern.Registration
import CrossPlan.Proofs.Plan.Construction

/-!
# Pattern matching is exact

An embedding maps the nodes of a pattern to operators of a plan.  Each match that is found is the
occurrence of an embedding, and the occurrence of each embedding is found.
-/

set_option autoImplicit false

namespace CrossPlan

open Sequence

def SlotRef.under (image : Nat → Nat) (slot : SlotRef) : SlotRef :=
  ⟨image slot.operator, slot.slot⟩

def Edge.under (image : Nat → Nat) (edge : Edge) : Edge :=
  ⟨edge.source.under image, edge.target.under image⟩

namespace Pattern

def Matched (pattern : Pattern) (image : Nat → Nat) (id : Nat) : Prop :=
  ∃ node < pattern.nodes.length, image node = id

/-- Each node is mapped to an operator of its own that it asks for.  The edges of the plan among
these operators are those of the pattern, and internal outputs are read by matched operators
only. -/
structure Embeds (pattern : Pattern) (plan : Plan) (image : Nat → Nat) : Prop where
  injective : ∀ a b, a < pattern.nodes.length → b < pattern.nodes.length → image a = image b → a = b
  fits : ∀ (node : Nat) (asked : OperatorPattern), pattern.nodes[node]? = some asked →
    ∃ operator, plan.operators[image node]? = some operator ∧ asked.fits operator = true
  realized : ∀ edge ∈ pattern.edges, edge.under image ∈ plan.edges
  induced : ∀ edge ∈ plan.edges, pattern.Matched image edge.source.operator →
    pattern.Matched image edge.target.operator → ∃ inner ∈ pattern.edges, inner.under image = edge
  contained : ∀ edge ∈ pattern.edges, ∀ input, ⟨edge.source.under image, input⟩ ∈ plan.edges →
    pattern.Matched image input.operator

def images (pattern : Pattern) (image : Nat → Nat) : List Nat :=
  (List.range pattern.nodes.length).map image

/-- The match that an embedding gives: the boundaries in the order of the pattern, and behind the
inputs the broadcast inputs in the order of the nodes. -/
def occurrence (pattern : Pattern) (plan : Plan) (image : Nat → Nat) : SubplanMatch :=
  { nodes := pattern.images image
    inputs := pattern.inputs.map (SlotRef.under image) ++
      (pattern.images image).flatMap (broadcastInputs plan)
    outputs := pattern.outputs.map (SlotRef.under image) }

structure Fitting (pattern : Pattern) (plan : Plan) (bound : Binding) : Prop where
  distinct : (bound.map (·.2)).Nodup
  fits : ∀ entry ∈ bound, ∃ asked operator, pattern.nodes[entry.1]? = some asked ∧
    plan.operators[entry.2]? = some operator ∧ asked.fits operator = true

variable {pattern : Pattern} {plan : Plan} {image : Nat → Nat} {bound : Binding}

theorem mem_images {id : Nat} : id ∈ pattern.images image ↔ pattern.Matched image id := by
  simp [images, Matched]

/-! ## Bindings that are found fit -/

theorem admits_iff {node id : Nat} :
    pattern.admits plan bound node id = true ↔
      id ∉ bound.map (·.2) ∧ ∃ asked operator, pattern.nodes[node]? = some asked ∧
        plan.operators[id]? = some operator ∧ asked.fits operator = true := by
  unfold admits
  rw [Bool.and_eq_true, Bool.not_eq_true', ← Bool.not_eq_true, List.contains_iff_mem]
  refine and_congr Iff.rfl ?_
  cases pattern.nodes[node]? <;> cases plan.operators[id]? <;> simp

theorem Fitting.extend (fitting : Fitting pattern plan bound) {node id : Nat}
    (admitted : pattern.admits plan bound node id = true) :
    Fitting pattern plan (bound ++ [(node, id)]) := by
  obtain ⟨fresh, fits⟩ := admits_iff.mp admitted
  constructor
  · rw [List.map_append, List.nodup_append]
    refine ⟨fitting.distinct, by simp, ?_⟩
    intro a old b new same
    rw [List.map_singleton, List.mem_singleton] at new
    subst new
    subst same
    exact fresh old
  · intro entry present
    rw [List.mem_append, List.mem_singleton] at present
    rcases present with old | rfl
    · exact fitting.fits entry old
    · exact fits

theorem fitting_of_mem_bindings {visits : List Visit} {result : Binding}
    (found : result ∈ pattern.bindings plan visits bound) (fitting : Fitting pattern plan bound) :
    Fitting pattern plan result ∧ result.map (·.1) = bound.map (·.1) ++ visits.map (·.node) := by
  induction visits generalizing bound with
  | nil =>
    obtain rfl := List.mem_singleton.mp found
    exact ⟨fitting, by simp⟩
  | cons visit rest ih =>
    rw [bindings, List.mem_flatMap] at found
    obtain ⟨id, offered, found⟩ := found
    obtain ⟨fits, keys⟩ := ih found (fitting.extend (List.mem_filter.mp offered).2)
    exact ⟨fits, by rw [keys]; simp⟩

theorem operators?_eq {nodes : List Nat} (found : pattern.operators? bound = some nodes) :
    nodes = pattern.images (nodes.getD · 0) ∧
      ∀ node < pattern.nodes.length, (node, nodes.getD node 0) ∈ bound := by
  have all := mapM_some_iff.mp found
  have length : pattern.nodes.length = nodes.length := by simpa using all.length_eq
  constructor
  · refine List.ext_getElem (by simp [images, length]) fun node _ _ => ?_
    simp [images, *]
  · intro node within
    have here := all.get (by simpa using within) (by omega)
    refine mem_of_lookup ?_
    simpa [List.getD_eq_getElem?_getD, List.getElem?_eq_getElem (length ▸ within)] using here

/-! ## The check on a finished binding -/

theorem slotIn_images {slot : SlotRef} (within : slot.operator < pattern.nodes.length) :
    slotIn (pattern.images image) slot = slot.under image := by
  simp [slotIn, SlotRef.under, images, List.getD_eq_getElem?_getD, within]

namespace Registered

theorem edgeIn_images (registered : pattern.Registered) {edge : Edge}
    (present : edge ∈ pattern.edges) : edgeIn (pattern.images image) edge = edge.under image := by
  obtain ⟨output, input⟩ := registered.edges edge present
  rw [edgeIn, slotIn_images (registered.node_lt output), slotIn_images (registered.node_lt input)]
  rfl

theorem realized_iff (registered : pattern.Registered) (formed : plan.WellFormed) {edge : Edge}
    (present : edge ∈ pattern.edges) :
    realized plan (pattern.images image) edge = true ↔
      edge.under image ∈ plan.edges ∧ ∀ input, ⟨edge.source.under image, input⟩ ∈ plan.edges →
        pattern.Matched image input.operator := by
  simp only [realized, registered.edgeIn_images present, Bool.and_eq_true, beq_iff_eq,
    formed.producerOf?_iff, List.all_eq_true, List.contains_iff_mem, mem_images,
    Plan.mem_consumersOf]
  rfl

theorem isInduced_iff (registered : pattern.Registered) (formed : plan.WellFormed) :
    pattern.isInduced plan (pattern.images image) = true ↔
      (∀ edge ∈ pattern.edges, edge.under image ∈ plan.edges ∧
        ∀ input, ⟨edge.source.under image, input⟩ ∈ plan.edges →
          pattern.Matched image input.operator) ∧
      ∀ edge ∈ plan.edges, pattern.Matched image edge.source.operator →
        pattern.Matched image edge.target.operator →
          ∃ inner ∈ pattern.edges, inner.under image = edge := by
  rw [isInduced, Bool.and_eq_true, List.all_eq_true, List.all_eq_true]
  refine and_congr ?_ ?_
  · exact forall₂_congr fun edge present => registered.realized_iff formed present
  · refine forall₂_congr fun edge _ => ?_
    have among : edge ∈ pattern.edges.map (edgeIn (pattern.images image)) ↔
        ∃ inner ∈ pattern.edges, inner.under image = edge := by
      rw [List.mem_map]
      exact exists_congr fun inner => and_congr_right fun present => by
        rw [registered.edgeIn_images present]
    rw [Bool.or_eq_true, Bool.not_eq_true', ← Bool.not_eq_true, Bool.and_eq_true]
    simp only [List.contains_iff_mem, mem_images, among]
    tauto

theorem embeds_of_fitting (registered : pattern.Registered) (formed : plan.WellFormed)
    (fitting : Fitting pattern plan bound)
    (inside : ∀ node < pattern.nodes.length, (node, image node) ∈ bound)
    (induced : pattern.isInduced plan (pattern.images image) = true) :
    pattern.Embeds plan image := by
  obtain ⟨realized, induced⟩ := (registered.isInduced_iff formed).mp induced
  refine ⟨?_, ?_, fun edge present => (realized edge present).1, induced,
    fun edge present => (realized edge present).2⟩
  · intro a b first second same
    have one := List.inj_on_of_nodup_map fitting.distinct (inside a first) (inside b second) same
    exact congrArg Prod.fst one
  · intro node asked found
    obtain ⟨asked', operator, found', present, fits⟩ :=
      fitting.fits _ (inside node (List.getElem?_eq_some_iff.mp found).1)
    rw [found, Option.some.injEq] at found'
    subst found'
    exact ⟨operator, present, fits⟩

end Registered

/-! ## No embedding is skipped -/

namespace Embeds

def trail (image : Nat → Nat) (visits : List Visit) : Binding :=
  visits.map fun visit => (visit.node, image visit.node)

theorem lookup_trail {before : List Visit} (unique : (before.map (·.node)).Nodup) {visit : Visit}
    (present : visit ∈ before) : (trail image before).lookup visit.node = some (image visit.node) :=
  lookup_map_of_mem Visit.node (fun visit => image visit.node) unique present

theorem reachable (embeds : pattern.Embeds plan image) (registered : pattern.Registered)
    (formed : plan.WellFormed) {before after : List Visit} {visit : Visit}
    (split : pattern.traversal = before ++ visit :: after) :
    image visit.node ∈ pattern.reachable plan (trail image before) visit := by
  have unique : (before.map (·.node)).Nodup := by
    have all := registered.traversed.nodup
    rw [split, List.map_append] at all
    exact (List.nodup_append.mp all).1
  rcases registered.traversed.along split with
    ⟨-, rfl⟩ | ⟨place, edge, via, found, earlier, present, crossed⟩
  · have some := List.getElem?_eq_getElem (List.length_pos_iff.mpr registered.nonempty)
    obtain ⟨_, operator, _⟩ := embeds.fits 0 _ some
    exact List.mem_range.mpr (List.getElem?_eq_some_iff.mp operator).1
  · have member := List.mem_of_getElem? found
    have distinct := registered.source_ne_target member
    have real := embeds.realized edge member
    have bound : (trail image before).lookup earlier.node = _ := lookup_trail unique present
    simp only [Pattern.reachable, via, found]
    unfold PatternDraft.across? at crossed
    split at crossed
    · -- forwards: the operator reads an output that is bound
      next source =>
      obtain target := Option.some.inj crossed
      rw [if_pos target, source, bound]
      refine List.mem_map.mpr ⟨edge.target.under image, List.mem_filter.mpr ⟨?_, ?_⟩, ?_⟩
      · rw [Plan.mem_consumersOf, ← source]
        exact real
      · exact beq_self_eq_true _
      · rw [← target]
        rfl
    · -- backwards: the operator feeds an input that is bound
      next source =>
      split at crossed
      · next target =>
        obtain same := Option.some.inj crossed
        rw [if_neg (fun other => distinct (same.trans other.symm)), target, bound]
        have producer : plan.producerOf? ⟨image earlier.node, edge.target.slot⟩ =
            some (edge.source.under image) := by
          rw [formed.producerOf?_iff, ← target]
          exact real
        simp only [producer, SlotRef.under, if_true, same, List.mem_singleton]
      · cases crossed

theorem admits (embeds : pattern.Embeds plan image) (registered : pattern.Registered)
    {before after : List Visit} {visit : Visit}
    (split : pattern.traversal = before ++ visit :: after) :
    pattern.admits plan (trail image before) visit.node (image visit.node) = true := by
  have inside : ∀ other ∈ pattern.traversal, other.node < pattern.nodes.length :=
    fun other => registered.visit_lt
  rw [split] at inside
  have within := inside visit (by simp)
  refine admits_iff.mpr ⟨?_, ?_⟩
  · intro used
    obtain ⟨_, present, same⟩ := List.mem_map.mp used
    obtain ⟨earlier, bound, rfl⟩ := List.mem_map.mp present
    have one := embeds.injective _ _ (inside earlier (List.mem_append_left _ bound)) within same
    have all := registered.traversed.nodup
    rw [split, List.map_append, List.map_cons, List.nodup_append] at all
    exact all.2.2 earlier.node (List.mem_map_of_mem bound) visit.node List.mem_cons_self one
  · have found := List.getElem?_eq_getElem within
    obtain ⟨operator, present, fits⟩ := embeds.fits _ _ found
    exact ⟨_, operator, found, present, fits⟩

theorem trail_mem_bindings (embeds : pattern.Embeds plan image) (registered : pattern.Registered)
    (formed : plan.WellFormed) (before rest : List Visit)
    (split : pattern.traversal = before ++ rest) :
    trail image pattern.traversal ∈ pattern.bindings plan rest (trail image before) := by
  induction rest generalizing before with
  | nil =>
    rw [split, List.append_nil]
    exact List.mem_singleton_self _
  | cons visit rest ih =>
    rw [bindings, List.mem_flatMap]
    refine ⟨image visit.node, List.mem_filter.mpr
      ⟨embeds.reachable registered formed split, embeds.admits registered split⟩, ?_⟩
    have later := ih (before ++ [visit]) (by rw [split]; simp)
    rwa [trail, List.map_append] at later

theorem operators?_trail (registered : pattern.Registered) :
    pattern.operators? (trail image pattern.traversal) = some (pattern.images image) := by
  refine mapM_some_iff.mpr ?_
  rw [images, List.forall₂_map_right_iff, List.forall₂_same]
  intro node within
  obtain ⟨visit, present, rfl⟩ := List.mem_map.mp (registered.visits_perm.mem_iff.mpr within)
  exact lookup_trail registered.traversed.nodup present

theorem isInduced (embeds : pattern.Embeds plan image) (registered : pattern.Registered)
    (formed : plan.WellFormed) : pattern.isInduced plan (pattern.images image) = true :=
  (registered.isInduced_iff formed).mpr
    ⟨fun edge present => ⟨embeds.realized edge present, embeds.contained edge present⟩,
      embeds.induced⟩

end Embeds

/-! ## What is found -/

theorem matchOf_images (registered : pattern.Registered) :
    pattern.matchOf plan (pattern.images image) = pattern.occurrence plan image := by
  have inputs : pattern.inputs.map (slotIn (pattern.images image)) = _ :=
    List.map_congr_left fun slot present =>
      slotIn_images (registered.node_lt (registered.inputs slot present))
  have outputs : pattern.outputs.map (slotIn (pattern.images image)) = _ :=
    List.map_congr_left fun slot present =>
      slotIn_images (registered.node_lt (registered.outputs slot present))
  rw [matchOf, occurrence, inputs, outputs]

theorem mem_findMatches (registered : pattern.Registered) (formed : plan.WellFormed)
    {found : SubplanMatch} :
    found ∈ pattern.findMatches plan ↔
      ∃ image, pattern.Embeds plan image ∧ found = pattern.occurrence plan image := by
  simp only [findMatches, List.mem_map, List.mem_mergeSort, List.mem_eraseDups, List.mem_filter,
    List.mem_filterMap]
  constructor
  · rintro ⟨nodes, ⟨⟨bound, present, finished⟩, induced⟩, rfl⟩
    obtain ⟨same, inside⟩ := operators?_eq finished
    obtain ⟨fitting, -⟩ := fitting_of_mem_bindings present ⟨List.nodup_nil, by simp⟩
    rw [same] at induced ⊢
    exact ⟨_, registered.embeds_of_fitting formed fitting inside induced,
      matchOf_images registered⟩
  · rintro ⟨image, embeds, rfl⟩
    exact ⟨pattern.images image,
      ⟨⟨_, embeds.trail_mem_bindings registered formed [] _ rfl,
        Embeds.operators?_trail registered⟩, embeds.isInduced registered formed⟩,
      matchOf_images registered⟩

theorem pairwise_findMatches :
    (pattern.findMatches plan).Pairwise fun a b => List.Lex (· < ·) a.nodes b.nodes := by
  rw [findMatches, List.pairwise_map]
  exact Count.pairwise_sorted (nodup_eraseDups _)

/-- The matches of an accepted pattern in a plan that was built are the occurrences of its
embeddings, in strictly ascending order of the operators bound to the nodes. -/
theorem findMatches_exact (accepted : pattern.Accepted) (built : plan.Built) :
    ((pattern.findMatches plan).Pairwise fun a b => List.Lex (· < ·) a.nodes b.nodes) ∧
      ∀ found, found ∈ pattern.findMatches plan ↔
        ∃ image, pattern.Embeds plan image ∧ found = pattern.occurrence plan image :=
  ⟨pairwise_findMatches, fun _ => mem_findMatches accepted.registered built.wellFormed⟩

def branches : Plan :=
  { operators :=
      [.create 0 "rows" (.collectionSource []), .create 1 "adults" (.filter "age > 17"),
        .create 2 "names" (.project ["name"]), .create 3 "first" (.sink "memory://names"),
        .create 4 "minors" (.filter "age < 18"), .create 5 "ages" (.project ["age"]),
        .create 6 "second" (.sink "memory://ages"), .create 7 "third" (.sink "memory://minors")]
    edges :=
      [⟨⟨0, 0⟩, ⟨1, 0⟩⟩, ⟨⟨1, 0⟩, ⟨2, 0⟩⟩, ⟨⟨2, 0⟩, ⟨3, 0⟩⟩, ⟨⟨0, 0⟩, ⟨4, 0⟩⟩, ⟨⟨4, 0⟩, ⟨5, 0⟩⟩,
        ⟨⟨5, 0⟩, ⟨6, 0⟩⟩, ⟨⟨4, 0⟩, ⟨7, 0⟩⟩] }

theorem built_branches : branches.Built := by
  have operators := (((((((Plan.Built.empty.add "rows" (.collectionSource [])).add "adults"
    (.filter "age > 17")).add "names" (.project ["name"])).add "first"
    (.sink "memory://names")).add "minors" (.filter "age < 18")).add "ages"
    (.project ["age"])).add "second" (.sink "memory://ages")).add "third" (.sink "memory://minors")
  have first := ((operators.connect ⟨0, 0⟩ ⟨1, 0⟩ rfl).connect ⟨1, 0⟩ ⟨2, 0⟩ rfl).connect
    ⟨2, 0⟩ ⟨3, 0⟩ rfl
  have second := ((first.connect ⟨0, 0⟩ ⟨4, 0⟩ rfl).connect ⟨4, 0⟩ ⟨5, 0⟩ rfl).connect
    ⟨5, 0⟩ ⟨6, 0⟩ rfl
  exact second.connect ⟨4, 0⟩ ⟨7, 0⟩ rfl

/-- The first filter and its projection are found; the output of the second filter is read outside
the pattern. -/
theorem findMatches_exact_branches :
    ⟨[1, 2], [⟨1, 0⟩], [⟨2, 0⟩]⟩ ∈ filterProjectPattern.findMatches branches ∧
      ∀ found ∈ filterProjectPattern.findMatches branches, found.nodes ≠ [4, 5] := by
  obtain ⟨-, exact⟩ := findMatches_exact accepted_filterProject built_branches
  constructor
  · refine (exact _).mpr ⟨(· + 1), ⟨?_, ?_, ?_, ?_, ?_⟩, rfl⟩
    · intro a b _ _ same
      exact Nat.succ.inj same
    · intro node asked found
      match node, found with
      | 0, rfl => exact ⟨_, rfl, rfl⟩
      | 1, rfl => exact ⟨_, rfl, rfl⟩
    · decide
    · unfold Matched
      decide
    · intro edge present input read
      obtain rfl := List.mem_singleton.mp present
      obtain rfl : input = ⟨2, 0⟩ := by
        simpa [branches, SlotRef.under] using read
      exact ⟨1, by decide, rfl⟩
  · intro found present nodes
    obtain ⟨image, embeds, rfl⟩ := (exact _).mp present
    have filter : image 0 = 4 := congrArg (·.getD 0 0) nodes
    have project : image 1 = 5 := congrArg (·.getD 1 0) nodes
    have outside := embeds.contained ⟨⟨0, 0⟩, ⟨1, 0⟩⟩ (by decide) ⟨7, 0⟩ (by
      rw [SlotRef.under, filter]
      decide)
    obtain ⟨node, within, same⟩ := outside
    match node, within with
    | 0, _ => rw [filter] at same; cases same
    | 1, _ => rw [project] at same; cases same

end Pattern

end CrossPlan
