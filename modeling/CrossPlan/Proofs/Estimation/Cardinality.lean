import CrossPlan.Estimation.Cardinality
import CrossPlan.Proofs.Decimal.Doubles
import CrossPlan.Proofs.Plan.Validity

/-!
# What is known of the rows in a plan

The statistics of a plan satisfy one equation for each operator, whatever order they were filled in.
So rows are known behind the sources that are counted or hinted, broadcasts aside, and each step can
be judged by the rows that it is given.  A share of a count is taken on doubles, where rounding
never lifts it above the count, and never makes nothing of something.  A union adds in words of 64
bits.
-/

set_option autoImplicit false

namespace CrossPlan

open Decimal

/-! ## Shares of a count -/

/-- A share of a count, rounded up, is at most the count, and nothing only where the count is. -/
theorem Decimal.Normal.count_mem {share : Float} {part : Rat} (normal : Normal share part)
    (least : 1 / 16 ≤ part) (most : part ≤ 15 / 16) {n : Nat} (short : n < Count.span) :
    Quantity.count (Quantity.ofNat n * share) ≤ n ∧
      (1 ≤ n → 1 ≤ Quantity.count (Quantity.ofNat n * share)) := by
  rcases Nat.eq_zero_or_pos n with rfl | positive
  · change ceilWithin _ (Float.ofNat 0 * share) ≤ 0 ∧ _
    have zero : Reading.ofDouble (Float.ofNat 0) = .finite false 0 (-1074) := rfl
    rw [normal.zero_mul, Decimal.ceilWithin_le_iff zero]
    exact ⟨.inr (by simp), fun some => absurd some (by decide)⟩
  · obtain ⟨count, counted, near⟩ := normal_ofNat positive short
    have some : (1 : Rat) ≤ n := by exact_mod_cast positive
    have short' : n ≤ 2 ^ 64 := short.le
    have most' : (n : Rat) ≤ 2 ^ 64 := by exact_mod_cast short'
    obtain ⟨below, above⟩ := near.mem
    norm_num at below above
    -- what rounding adds, twice, is far less than what the share leaves away
    have total : count * part ≤ n * (31 / 32) :=
      calc count * part ≤ n * (1125899906842625 / 1125899906842624) * (15 / 16) := by
            gcongr
        _ ≤ n * (31 / 32) := by linarith
    have half : 1 / 2 ≤ count := by linarith
    have rest : 1 / 32 ≤ count * part :=
      calc (1 : Rat) / 32 = 1 / 2 * (1 / 16) := by norm_num
        _ ≤ count * part := by gcongr
    have low : 1 / 2 ^ 100 ≤ count * part := le_trans (by norm_num) rest
    have high : count * part ≤ 2 ^ 100 := le_trans total (by linarith)
    obtain ⟨value, product, near'⟩ := counted.mul normal (inRange_of_mem low high)
    have within : value ≤ n := by
      have := near'.mem.2
      norm_num at this
      linarith
    refine ⟨product.ceilWithin_le_iff.mpr (.inr within), fun _ => ?_⟩
    by_contra none
    rcases product.ceilWithin_le_iff.mp (Nat.lt_one_iff.mp (not_le.mp none)).le with limit | small
    · exact absurd limit (by decide)
    · rw [Nat.cast_zero] at small
      exact product.pos.not_ge small

theorem normal_selectivity (predicate : String) :
    ∃ part, Normal (selectivity predicate) part ∧ 1 / 16 ≤ part ∧ part ≤ 15 / 16 := by
  have half : Reading.ofDouble (Quantity.ofDecimal 5 1) = .finite false 4503599627370496 (-53) :=
    rfl
  have most : Reading.ofDouble (Quantity.ofDecimal 9 1) = .finite false 8106479329266893 (-53) :=
    rfl
  have few : Reading.ofDouble (Quantity.ofDecimal 1 1) = .finite false 7205759403792794 (-56) :=
    rfl
  have third : Reading.ofDouble (Quantity.ofDecimal 33 2) = .finite false 5944751508129055 (-54) :=
    rfl
  unfold selectivity
  dsimp only
  split_ifs
  · exact ⟨_, .read half (by decide) (by decide), by norm_num, by norm_num⟩
  · exact ⟨_, .read most (by decide) (by decide), by norm_num, by norm_num⟩
  · exact ⟨_, .read few (by decide) (by decide), by norm_num, by norm_num⟩
  · exact ⟨_, .read third (by decide) (by decide), by norm_num, by norm_num⟩
  · exact ⟨_, .read half (by decide) (by decide), by norm_num, by norm_num⟩

theorem count_selectivity (predicate : String) {n : Nat} (short : n < Count.span) :
    Quantity.count ((Quantity.ofNat n : Float) * selectivity predicate) ≤ n ∧
      (1 ≤ n → 1 ≤ Quantity.count ((Quantity.ofNat n : Float) * selectivity predicate)) := by
  obtain ⟨part, normal, least, most⟩ := normal_selectivity predicate
  exact normal.count_mem least most short

/-! ## One equation for each operator -/

/-- How many rows a source says it has: those of a collection, or what is hinted under the address
of a text or under its name. -/
def Operator.counted? (operator : Operator) (hints : Hints) : Option Nat :=
  match operator.action with
  | .collectionSource rows => some rows.length
  | .textSource url => (hints.get? url).or (hints.get? operator.name)
  | _ => none

namespace Plan

def mainEdges (plan : Plan) (operator : Operator) : List Edge :=
  (plan.incoming operator.id).filter fun edge =>
    !((operator.inputs[edge.target.slot]?.map (·.broadcast)).getD false)

def Supplies (plan : Plan) (first second : Nat) : Prop :=
  ∃ edge ∈ plan.edges, edge.source.operator = first ∧ edge.target.operator = second ∧
    ∃ operator slot, plan.operators[second]? = some operator ∧
      operator.inputs[edge.target.slot]? = some slot ∧ slot.broadcast = false

variable {plan : Plan} {hints : Hints} {config : EstimatorConfig Float}

section Edges

variable {id : Nat} {operator : Operator}

theorem mem_incoming {edge : Edge} :
    edge ∈ plan.incoming id ↔ edge ∈ plan.edges ∧ edge.target.operator = id := by
  rw [incoming, List.mem_mergeSort, List.mem_filter, beq_iff_eq]

theorem mem_mainEdges (formed : plan.WellFormed) (found : plan.operators[id]? = some operator)
    {edge : Edge} : edge ∈ plan.mainEdges operator ↔
      edge ∈ plan.edges ∧ edge.target.operator = id ∧ edge.target.slot < operator.kind.inputs := by
  rw [mainEdges, List.mem_filter, mem_incoming, formed.numbered id operator found, and_assoc]
  refine and_congr_right fun present => and_congr_right fun here => ?_
  obtain ⟨other, found', within⟩ := (formed.joined edge present).2
  rw [here, found, Option.some.injEq] at found'
  subst found'
  have slotted := (formed.slotted_of_getElem? found).broadcast edge.target.slot _
    (List.getElem?_eq_getElem within)
  rw [List.getElem?_eq_getElem within, Option.map_some, Option.getD_some, Bool.not_eq_true',
    ← Bool.not_eq_true, slotted, not_le]

theorem supplies_iff (formed : plan.WellFormed) (found : plan.operators[id]? = some operator)
    {first : Nat} :
    plan.Supplies first id ↔ ∃ edge ∈ plan.mainEdges operator, edge.source.operator = first := by
  have slotted := (formed.slotted_of_getElem? found).broadcast
  constructor
  · rintro ⟨edge, present, rfl, here, other, slot, found', at_slot, plain⟩
    rw [found, Option.some.injEq] at found'
    subst found'
    have main : ¬ operator.kind.inputs ≤ edge.target.slot := fun beyond =>
      Bool.false_ne_true (plain.symm.trans ((slotted _ _ at_slot).mpr beyond))
    exact ⟨edge, (mem_mainEdges formed found).mpr ⟨present, here, not_le.mp main⟩, rfl⟩
  · rintro ⟨edge, main, rfl⟩
    obtain ⟨present, here, within⟩ := (mem_mainEdges formed found).mp main
    have there : edge.target.slot < operator.inputs.length :=
      within.trans_le (formed.slotted_of_getElem? found).inputs
    have at_slot := List.getElem?_eq_getElem there
    refine ⟨edge, present, rfl, here, operator, _, found, at_slot, ?_⟩
    exact Bool.eq_false_iff.mpr fun beside => within.not_ge ((slotted _ _ at_slot).mp beside)

theorem slots_mainEdges (formed : plan.WellFormed) (connected : plan.Connected)
    (found : plan.operators[id]? = some operator) :
    (plan.mainEdges operator).map (·.target.slot) = List.range operator.kind.inputs := by
  have sorted : ((plan.mainEdges operator).map (·.target.slot)).Pairwise (· ≤ ·) := by
    rw [List.pairwise_map]
    refine List.Pairwise.filter _ ?_
    refine (List.pairwise_mergeSort ?_ ?_ _).imp fun below => of_decide_eq_true below
    · intro a b c first second
      exact decide_eq_true ((of_decide_eq_true first).trans (of_decide_eq_true second))
    · intro a b
      simpa using Nat.le_total a.target.slot b.target.slot
  have distinct : ((plan.mainEdges operator).map (·.target.slot)).Nodup := by
    have edges : (plan.mainEdges operator).Nodup := by
      refine List.Nodup.filter _ ((List.mergeSort_perm _ _).nodup_iff.mpr ?_)
      exact (List.Nodup.of_map _ formed.single).filter _
    refine (List.nodup_map_iff_inj_on edges).mpr fun a first b second same => ?_
    obtain ⟨present, here, -⟩ := (mem_mainEdges formed found).mp first
    obtain ⟨present', here', -⟩ := (mem_mainEdges formed found).mp second
    exact formed.edge_eq present present' (congrArg₂ SlotRef.mk (here.trans here'.symm) same)
  refine List.Perm.eq_of_pairwise' sorted (List.pairwise_lt_range.imp Nat.le_of_lt) ?_
  refine (List.perm_ext_iff_of_nodup distinct List.nodup_range).mpr fun slot => ?_
  rw [List.mem_map, List.mem_range]
  constructor
  · rintro ⟨edge, main, rfl⟩
    exact ((mem_mainEdges formed found).mp main).2.2
  · intro within
    have slotted := formed.slotted_of_getElem? found
    obtain ⟨output, edge⟩ :=
      connected.fed ⟨id, slot⟩ ⟨operator, found, within.trans_le slotted.inputs⟩
    exact ⟨_, (mem_mainEdges formed found).mpr ⟨edge, rfl, within⟩, rfl⟩

end Edges

end Plan

namespace PlanStatistics

variable {plan : Plan} {hints : Hints} {config : EstimatorConfig Float}
  {statistics : PlanStatistics} {id : Nat}

theorem mainInputs_eq (operator : Operator) : statistics.mainInputs plan operator =
    (plan.mainEdges operator).map fun edge => statistics.output edge.source.operator := rfl

theorem length_fill (order : List Nat) :
    (fill plan hints config order statistics).outputs.length = statistics.outputs.length := by
  rw [fill]
  induction order generalizing statistics with
  | nil => rfl
  | cons first rest ih =>
    rw [List.foldl_cons, ih]
    cases plan.operators[first]? with
    | none => rfl
    | some operator => exact List.length_set

theorem fill_append (before after : List Nat) :
    fill plan hints config (before ++ after) statistics =
      fill plan hints config after (fill plan hints config before statistics) :=
  List.foldl_append

theorem output_fill_of_notMem {order : List Nat} (other : id ∉ order) :
    (fill plan hints config order statistics).output id = statistics.output id := by
  rw [fill]
  induction order generalizing statistics with
  | nil => rfl
  | cons first rest ih =>
    rw [List.mem_cons, not_or] at other
    rw [List.foldl_cons, ih other.2]
    cases plan.operators[first]? with
    | none => rfl
    | some operator =>
      rw [output, output, List.getElem?_set_ne (Ne.symm other.1)]

end PlanStatistics

namespace Plan

variable {plan : Plan} {hints : Hints} {config : EstimatorConfig Float}
  {statistics : PlanStatistics} {id : Nat} {operator : Operator}

/-- What is known of an operator is what it makes of what is known of its main inputs. -/
theorem output_eq (formed : plan.WellFormed)
    (filled : plan.statistics hints config = .ok statistics)
    (found : plan.operators[id]? = some operator) :
    statistics.output id = operator.action.statistics operator.name
      (statistics.mainInputs plan operator) hints config := by
  obtain ⟨order, ordered, done⟩ := Sequence.bind_ok_iff.mp filled
  cases done
  have taken := taken_order ordered
  have here : id < plan.size := (List.getElem?_eq_some_iff.mp found).1
  obtain ⟨before, after, rfl⟩ := List.append_of_mem ((mem_order ordered).mpr here)
  have distinct := taken.nodup
  rw [List.nodup_append, List.nodup_cons] at distinct
  obtain ⟨-, ⟨notAfter, -⟩, apart⟩ := distinct
  have split : ∀ start : PlanStatistics, .fill plan hints config (before ++ id :: after) start =
      (PlanStatistics.fill plan hints config after
        ⟨(PlanStatistics.fill plan hints config before start).outputs.set id
          (operator.action.statistics operator.name
            ((PlanStatistics.fill plan hints config before start).mainInputs plan operator) hints
            config)⟩) := by
    intro start
    rw [PlanStatistics.fill_append, PlanStatistics.fill, List.foldl_cons, found]
    rfl
  have length : id < (PlanStatistics.fill plan hints config before
      ⟨List.replicate plan.size .unknown⟩).outputs.length := by
    rw [PlanStatistics.length_fill, List.length_replicate]
    exact here
  rw [split]
  conv_lhs => rw [PlanStatistics.output_fill_of_notMem notAfter, PlanStatistics.output,
    List.getElem?_set_self length, Option.getD_some]
  congr 1
  rw [PlanStatistics.mainInputs_eq, PlanStatistics.mainInputs_eq]
  refine List.map_congr_left fun edge main => ?_
  -- what feeds the operator stands before it, so that nothing behind changes what is known of it
  obtain ⟨present, target, -⟩ := (mem_mainEdges formed found).mp main
  have earlier : edge.source.operator ∈ before :=
    taken.respects before id after rfl _ (List.mem_map.mpr ⟨edge, present, rfl⟩) target
  have different : edge.source.operator ≠ id := fun same =>
    apart _ earlier _ List.mem_cons_self same
  have notLater : edge.source.operator ∉ after := fun later =>
    apart _ earlier _ (List.mem_cons_of_mem _ later) rfl
  rw [PlanStatistics.output_fill_of_notMem notLater, PlanStatistics.output, PlanStatistics.output,
    List.getElem?_set_ne different.symm]

/-- What holds of an operator where it holds of all that feed its main inputs, holds of all. -/
@[elab_as_elim]
theorem induction_mainEdges (formed : plan.WellFormed) {order : List Nat}
    (ordered : plan.order = .ok order) {suits : Nat → Prop}
    (step : ∀ id operator, plan.operators[id]? = some operator →
      (∀ edge ∈ plan.mainEdges operator, suits edge.source.operator) → suits id)
    (id : Nat) (here : id < plan.size) : suits id := by
  induction place : order.idxOf id using Nat.strong_induction_on generalizing id with
  | h place' earlier =>
    have found := List.getElem?_eq_getElem here
    refine step id _ found fun edge main => ?_
    obtain ⟨present, target, -⟩ := (mem_mainEdges formed found).mp main
    have forward := edge_forward formed ordered present
    rw [target, place] at forward
    exact earlier _ forward _ (formed.source_lt present) rfl

theorem exists_feeders (formed : plan.WellFormed) (connected : plan.Connected)
    (found : plan.operators[id]? = some operator) (statistics : PlanStatistics) :
    ∃ feeders : List SlotRef, feeders.length = operator.kind.inputs ∧
      (∀ slot input, feeders[slot]? = some input → plan.producerOf? ⟨id, slot⟩ = some input) ∧
      statistics.mainInputs plan operator =
        feeders.map fun input => statistics.output input.operator := by
  have slots := slots_mainEdges formed connected found
  refine ⟨(plan.mainEdges operator).map (·.source), ?_, fun slot input listed => ?_, ?_⟩
  · rw [List.length_map, ← List.length_map (·.target.slot), slots, List.length_range]
  · rw [List.getElem?_map, Option.map_eq_some_iff] at listed
    obtain ⟨edge, listed, rfl⟩ := listed
    obtain ⟨present, here, within⟩ :=
      (mem_mainEdges formed found).mp (List.mem_of_getElem? listed)
    have place := congrArg (·[slot]?) slots
    simp only [List.getElem?_map, listed, Option.map_some] at place
    obtain ⟨_, place⟩ := List.getElem?_eq_some_iff.mp place.symm
    rw [List.getElem_range] at place
    refine formed.producerOf?_iff.mpr ?_
    rwa [← here, place]
  · rw [PlanStatistics.mainInputs_eq, List.map_map]
    rfl

theorem isSome_statistics {action : Action} {name : String} {inputs : List Statistics}
    (arity : inputs.length = action.kind.inputs) (inner : action.kind.isSource = false) :
    (action.statistics name inputs hints config).cardinality.isSome = true ↔
      ∀ input ∈ inputs, input.cardinality.isSome = true := by
  cases action with
  | collectionSource | textSource => cases inner
  | filter | map | project | sink =>
    obtain ⟨input, rfl⟩ := List.length_eq_one_iff.mp arity
    simp [Action.statistics]
  | union =>
    obtain ⟨first, second, rfl⟩ := List.length_eq_two.mp arity
    cases one : first.cardinality <;> cases two : second.cardinality <;>
      simp [Action.statistics, one, two]

theorem statistics_lt {action : Action} {name : String} {inputs : List Statistics}
    (words : ∀ key n, hints.get? key = some n → n < Count.span)
    (held : ∀ rows, action = .collectionSource rows → rows.length < Count.span)
    (given : ∀ input ∈ inputs, ∀ n, input.cardinality = some n → n < Count.span) :
    ∀ n, (action.statistics name inputs hints config).cardinality = some n → n < Count.span := by
  have first : ∀ n, (inputs.head?.getD .unknown).cardinality = some n → n < Count.span := by
    cases inputs with
    | nil => exact fun n unknown => absurd unknown (by simp [Statistics.unknown])
    | cons input rest => exact given input List.mem_cons_self
  intro n answer
  cases action with
  | collectionSource rows =>
    obtain rfl := Option.some.inj answer
    exact held rows rfl
  | textSource url =>
    rcases Option.or_eq_some_iff.mp answer with hint | ⟨-, hint⟩
    · exact words url n hint
    · exact words name n hint
  | map | project | sink => exact first n answer
  | filter predicate =>
    obtain ⟨m, known, rfl⟩ := Option.map_eq_some_iff.mp answer
    exact (count_selectivity predicate (first m known)).1.trans_lt (first m known)
  | union =>
    obtain ⟨counts, -, rfl⟩ := Option.map_eq_some_iff.mp answer
    exact Nat.mod_lt _ (by decide)

/-- How what is known of the rows behind the operators of a plan hangs together. -/
structure Reckoned (plan : Plan) (hints : Hints) (known : Nat → Option Nat) : Prop where
  /-- rows are known exactly where all sources behind, broadcasts aside, say how many they have -/
  known_iff : ∀ id, id < plan.size → ((known id).isSome = true ↔
    ∀ source ∈ plan.operators, source.kind.isSource = true →
      Relation.ReflTransGen plan.Supplies source.id id → (source.counted? hints).isSome = true)
  sources : ∀ operator ∈ plan.operators, operator.kind.isSource = true →
    known operator.id = operator.counted? hints
  kept : ∀ operator ∈ plan.operators,
    operator.kind = .map ∨ operator.kind = .project ∨ operator.kind = .sink →
      ∃ input, plan.producerOf? ⟨operator.id, 0⟩ = some input ∧
        known operator.id = known input.operator
  filtered : ∀ operator ∈ plan.operators, operator.kind = .filter →
    ∃ input, plan.producerOf? ⟨operator.id, 0⟩ = some input ∧
      ∀ n, known input.operator = some n →
        ∃ part, known operator.id = some part ∧ part ≤ n ∧ (1 ≤ n → 1 ≤ part)
  /-- a sum is exact as long as it fits into 64 bits -/
  united : ∀ operator ∈ plan.operators, operator.kind = .union →
    ∃ first second, plan.producerOf? ⟨operator.id, 0⟩ = some first ∧
      plan.producerOf? ⟨operator.id, 1⟩ = some second ∧
      ∀ m n, known first.operator = some m → known second.operator = some n →
        known operator.id = some ((m + n) % Count.span) ∧
          (known operator.id = some (m + n) ↔ m + n < Count.span)

variable (formed : plan.WellFormed) {order : List Nat} (ordered : plan.order = .ok order)
  (connected : plan.Connected) (filled : plan.statistics hints config = .ok statistics)

include formed filled in
theorem counted_of_source (found : plan.operators[id]? = some operator)
    (source : operator.kind.isSource = true) :
    (statistics.output id).cardinality = operator.counted? hints := by
  rw [output_eq formed filled found]
  obtain ⟨_, name, action, _, _⟩ := operator
  cases action with
  | collectionSource | textSource => rfl
  | filter | map | project | union | sink => cases source

include formed ordered connected filled in
theorem known_iff (here : id < plan.size) :
    (statistics.output id).cardinality.isSome = true ↔
      ∀ source ∈ plan.operators, source.kind.isSource = true →
        Relation.ReflTransGen plan.Supplies source.id id →
          (source.counted? hints).isSome = true := by
  refine induction_mainEdges formed ordered ?_ id here
  intro id operator found feeders
  have numbered := formed.numbered id operator found
  cases inner : operator.kind.isSource with
  | true =>
    rw [counted_of_source formed filled found inner]
    refine ⟨fun known source present _ path => ?_, fun all => ?_⟩
    · -- nothing leads to a source but the source itself
      rcases path.cases_tail with same | ⟨_, _, last⟩
      · obtain ⟨place, found'⟩ := List.mem_iff_getElem?.mp present
        rw [formed.numbered place source found'] at same
        rw [same, found', Option.some.injEq] at found
        exact found ▸ known
      · obtain ⟨edge, main, -⟩ := (supplies_iff formed found).mp last
        have within := ((mem_mainEdges formed found).mp main).2.2
        rw [beq_iff_eq.mp inner] at within
        exact absurd within (Nat.not_lt_zero _)
    · exact all operator (List.mem_of_getElem? found) inner (numbered ▸ .refl)
  | false =>
    obtain ⟨inputs, arity, -, main⟩ := exists_feeders formed connected found statistics
    have arity' : (statistics.mainInputs plan operator).length = operator.kind.inputs := by
      rw [main, List.length_map, arity]
    rw [output_eq formed filled found, isSome_statistics arity' inner,
      PlanStatistics.mainInputs_eq, List.forall_mem_map]
    refine ⟨fun known source present first path => ?_, fun all edge main => ?_⟩
    · rcases path.cases_tail with same | ⟨_, path, last⟩
      · obtain ⟨place, found'⟩ := List.mem_iff_getElem?.mp present
        rw [formed.numbered place source found'] at same
        rw [same, found', Option.some.injEq] at found
        rw [found, inner] at first
        cases first
      · obtain ⟨edge, main, rfl⟩ := (supplies_iff formed found).mp last
        exact (feeders edge main).mp (known edge main) source present first path
    · refine (feeders edge main).mpr fun source present first path => ?_
      exact all source present first
        (path.tail ((supplies_iff formed found).mpr ⟨edge, main, rfl⟩))

include formed ordered filled in
theorem cardinality_lt (words : ∀ key n, hints.get? key = some n → n < Count.span)
    (held : ∀ operator ∈ plan.operators, ∀ rows, operator.action = .collectionSource rows →
      rows.length < Count.span) (here : id < plan.size) :
    ∀ n, (statistics.output id).cardinality = some n → n < Count.span := by
  refine induction_mainEdges formed ordered ?_ id here
  intro id operator found feeders
  rw [output_eq formed filled found]
  refine statistics_lt words (held operator (List.mem_of_getElem? found)) ?_
  exact List.forall_mem_map.mpr feeders

include formed connected filled

theorem output_of_one (present : operator ∈ plan.operators) (one : operator.kind.inputs = 1) :
    ∃ input, plan.producerOf? ⟨operator.id, 0⟩ = some input ∧
      statistics.output operator.id = operator.action.statistics operator.name
        [statistics.output input.operator] hints config := by
  obtain ⟨id, found⟩ := List.mem_iff_getElem?.mp present
  obtain ⟨feeders, arity, fed, main⟩ := exists_feeders formed connected found statistics
  obtain ⟨input, rfl⟩ := List.length_eq_one_iff.mp (arity.trans one)
  rw [formed.numbered id operator found, output_eq formed filled found, main]
  exact ⟨input, fed 0 input rfl, rfl⟩

theorem output_of_two (present : operator ∈ plan.operators) (two : operator.kind.inputs = 2) :
    ∃ first second, plan.producerOf? ⟨operator.id, 0⟩ = some first ∧
      plan.producerOf? ⟨operator.id, 1⟩ = some second ∧
      statistics.output operator.id = operator.action.statistics operator.name
        [statistics.output first.operator, statistics.output second.operator] hints config := by
  obtain ⟨id, found⟩ := List.mem_iff_getElem?.mp present
  obtain ⟨feeders, arity, fed, main⟩ := exists_feeders formed connected found statistics
  obtain ⟨first, second, rfl⟩ := List.length_eq_two.mp (arity.trans two)
  rw [formed.numbered id operator found, output_eq formed filled found, main]
  exact ⟨first, second, fed 0 first rfl, fed 1 second rfl, rfl⟩

include ordered

theorem reckoned (words : ∀ key n, hints.get? key = some n → n < Count.span)
    (held : ∀ operator ∈ plan.operators, ∀ rows, operator.action = .collectionSource rows →
      rows.length < Count.span) :
    plan.Reckoned hints fun id => (statistics.output id).cardinality where
  known_iff _ here := known_iff formed ordered connected filled here
  sources := by
    intro operator present source
    obtain ⟨id, found⟩ := List.mem_iff_getElem?.mp present
    rw [formed.numbered id operator found]
    exact counted_of_source formed filled found source
  kept := by
    intro operator present kind
    have one : operator.kind.inputs = 1 := by
      rcases kind with kind | kind | kind <;> rw [kind] <;> rfl
    obtain ⟨input, fed, output⟩ := output_of_one formed connected filled present one
    refine ⟨input, fed, ?_⟩
    rw [output]
    obtain ⟨_, name, action, _, _⟩ := operator
    cases action with
    | map | project | sink => rfl
    | filter | union | collectionSource | textSource => simp [Operator.kind, Action.kind] at kind
  filtered := by
    intro operator present kind
    obtain ⟨input, fed, output⟩ :=
      output_of_one formed connected filled present (congrArg Kind.inputs kind)
    refine ⟨input, fed, fun n known => ?_⟩
    have before := formed.source_lt (mem_of_producerOf? fed)
    have short := cardinality_lt formed ordered filled words held before n known
    rw [output]
    obtain ⟨_, name, action, _, _⟩ := operator
    cases action with
    | filter predicate =>
      exact ⟨_, congrArg (Option.map _) known, count_selectivity predicate short⟩
    | map | project | sink | union | collectionSource | textSource => cases kind
  united := by
    intro operator present kind
    obtain ⟨first, second, fed, fed', output⟩ :=
      output_of_two formed connected filled present (congrArg Kind.inputs kind)
    refine ⟨first, second, fed, fed', fun m n known known' => ?_⟩
    have sum : (statistics.output operator.id).cardinality = some ((m + n) % Count.span) := by
      rw [output]
      obtain ⟨_, name, action, _, _⟩ := operator
      cases action with
      | union => simp [Action.statistics, addCounts, Count.total, known, known']
      | map | project | sink | filter | collectionSource | textSource => cases kind
    refine ⟨sum, ?_⟩
    rw [sum, Option.some.injEq]
    exact ⟨fun same => same ▸ Nat.mod_lt _ (by decide), Nat.mod_eq_of_lt⟩

omit formed connected filled ordered

/-- Of a valid plan and any hints of 64 bits, what is known of the rows hangs together.  The rows
behind a union are the exact sum where it fits into 64 bits, and what is left of it elsewhere. -/
theorem statistics_reckoned {plan : Plan} (built : plan.Built) (valid : plan.validate = .ok ())
    {hints : Hints} (words : ∀ key n, hints.get? key = some n → n < Count.span)
    (held : ∀ operator ∈ plan.operators, ∀ rows, operator.action = .collectionSource rows →
      rows.length < Count.span) (config : EstimatorConfig Float) :
    ∃ statistics, plan.statistics hints config = .ok statistics ∧
      plan.Reckoned hints fun id => (statistics.output id).cardinality := by
  have formed := built.wellFormed
  obtain ⟨⟨order, ordered⟩, connected⟩ := validate_ok formed valid
  have filled : plan.statistics hints config =
      .ok (.fill plan hints config order ⟨List.replicate plan.size .unknown⟩) := by
    rw [Plan.statistics, ordered]
    rfl
  exact ⟨_, filled, reckoned formed ordered connected filled words held⟩

def flooded : Plan :=
  { operators :=
      [.create 0 "a" (.textSource "file:///a"), .create 1 "b" (.textSource "file:///b"),
        .create 2 "u" .union, .create 3 "out" (.sink "memory://out")]
    edges := [⟨⟨0, 0⟩, ⟨2, 0⟩⟩, ⟨⟨1, 0⟩, ⟨2, 1⟩⟩, ⟨⟨2, 0⟩, ⟨3, 0⟩⟩] }

theorem built_flooded : flooded.Built := by
  have operators := (((Plan.Built.empty.add "a" (.textSource "file:///a")).add "b"
    (.textSource "file:///b")).add "u" .union).add "out" (.sink "memory://out")
  exact ((operators.connect ⟨0, 0⟩ ⟨2, 0⟩ rfl).connect ⟨1, 0⟩ ⟨2, 1⟩ rfl).connect
    ⟨2, 0⟩ ⟨3, 0⟩ rfl

def halves : Hints := ⟨[("file:///a", Count.half), ("file:///b", Count.half)]⟩

/-- Where each of two texts has half of all counts, their union is taken to have no rows. -/
theorem statistics_reckoned_flooded : ∃ statistics,
    flooded.statistics halves (EngineConfig.standard : EngineConfig Float).estimator =
        .ok statistics ∧
      (statistics.output 0).cardinality = some Count.half ∧
      (statistics.output 1).cardinality = some Count.half ∧
      (statistics.output 2).cardinality = some 0 := by
  have words : ∀ key n, halves.get? key = some n → n < Count.span := by
    intro key n hint
    obtain ⟨row, found, rfl⟩ := Option.map_eq_some_iff.mp hint
    have listed := List.mem_of_find?_eq_some found
    have all : ∀ row ∈ halves.rows, row.2 < Count.span := by decide
    exact all row listed
  have held : ∀ operator ∈ flooded.operators, ∀ rows, operator.action = .collectionSource rows →
      rows.length < Count.span := by simp [flooded, Operator.create]
  obtain ⟨statistics, filled, reckoned⟩ :=
    statistics_reckoned built_flooded rfl words held EngineConfig.standard.estimator
  have first := reckoned.sources flooded.operators[0] (List.getElem_mem _) rfl
  have second := reckoned.sources flooded.operators[1] (List.getElem_mem _) rfl
  obtain ⟨_, _, ⟨⟩, ⟨⟩, sum⟩ := reckoned.united flooded.operators[2] (List.getElem_mem _) rfl
  exact ⟨statistics, filled, first, second, (sum _ _ first second).1⟩

end Plan

end CrossPlan
