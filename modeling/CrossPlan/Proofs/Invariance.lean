import CrossPlan.Proofs.Compilation
import CrossPlan.Proofs.Selection.Timeless

/-!
# Compiling with rules in any order and in any round

The order of candidates tells apart all candidates of rules with different names, so that the order
of the rules is lost in it.  The round goes nowhere but into the operators.
-/

set_option autoImplicit false

namespace CrossPlan

open Sequence

variable {α : Type}

/-! ## The order of candidates -/

namespace Candidate

theorem order_eq_compareLex : (order : Candidate α → Candidate α → Ordering) =
    compareLex (compareLex (compareLex (compareLex (compareLex
      (compareOn covered) (compareOn (·.platform.index))) (compareOn (·.ruleName)))
      (compareOn (·.matched.nodes))) (compareOn (slotKeys ·.matched.inputs)))
      (compareOn (slotKeys ·.matched.outputs)) :=
  rfl

instance : Std.TransCmp (order : Candidate α → Candidate α → Ordering) := by
  rw [order_eq_compareLex]
  infer_instance

theorem slotKeys_injective : Function.Injective slotKeys := by
  refine List.map_injective_iff.mpr fun first second same => ?_
  cases first
  cases second
  simpa using same

theorem same_of_order {first second : Candidate α} (same : order first second = .eq) :
    first.ruleName = second.ruleName ∧ first.matched = second.matched := by
  simp only [order, Ordering.then_eq_eq, Std.compare_eq_iff_eq] at same
  obtain ⟨⟨⟨⟨-, name⟩, nodes⟩, inputs⟩, outputs⟩ := same
  refine ⟨name, ?_⟩
  calc first.matched
    _ = ⟨first.matched.nodes, first.matched.inputs, first.matched.outputs⟩ := rfl
    _ = second.matched := by
      rw [nodes, slotKeys_injective inputs, slotKeys_injective outputs]

/-- Candidates that the order tells apart are arranged in one way. -/
theorem arrange_of_perm {first second : List (Candidate α)} (shuffled : first.Perm second)
    (apart : ∀ a ∈ first, ∀ b ∈ first, order a b = .eq → a = b) :
    arrange first = arrange second := by
  let ahead (a b : Candidate α) : Bool := order a b != .gt
  have ahead_iff (a b : Candidate α) : ahead a b = true ↔ (order a b).isLE = true :=
    bne_iff_ne.trans Ordering.ne_gt_iff_isLE
  have trans (a b c : Candidate α) (before : ahead a b = true) (after : ahead b c = true) :
      ahead a c = true := by
    rw [ahead_iff] at before after ⊢
    exact Std.TransCmp.isLE_trans before after
  have total (a b : Candidate α) : (ahead a b || ahead b a) = true := by
    have swapped : order b a = (order a b).swap := Std.OrientedCmp.eq_swap
    simp only [ahead, swapped]
    cases order a b <;> rfl
  have sorted : first.mergeSort ahead = second.mergeSort ahead := by
    have shuffled' := (List.mergeSort_perm first ahead).trans
      (shuffled.trans (List.mergeSort_perm second ahead).symm)
    refine shuffled'.eq_of_pairwise (fun a b left right before after => ?_)
      (List.pairwise_mergeSort trans total first) (List.pairwise_mergeSort trans total second)
    rw [ahead_iff] at before after
    exact apart a (List.mem_mergeSort.mp left)
      b (shuffled.mem_iff.mpr (List.mem_mergeSort.mp right))
      (Std.OrientedCmp.isLE_antisymm before after)
  simp only [arrange]
  rw [sorted]

theorem arrange_timeless (candidates : List (Candidate α)) :
    arrange (candidates.map timeless) = (arrange candidates).map timeless := by
  let ahead (a b : Candidate α) : Bool := order a b != .gt
  have keeps : ∀ a ∈ candidates, ∀ b ∈ candidates, ahead a b = ahead a.timeless b.timeless :=
    fun _ _ _ _ => rfl
  have sorted : (candidates.map timeless).mergeSort ahead =
      (candidates.mergeSort ahead).map timeless :=
    (List.map_mergeSort keeps).symm
  simp only [arrange]
  rw [sorted, List.zipIdx_map, List.map_map, List.map_map]
  rfl

end Candidate

/-! ## What rules make in different rounds -/

namespace Replacement

theorem isForward_timeless (replacement : Replacement α) :
    replacement.timeless.isForward = replacement.isForward := by
  simp only [isForward, timeless, List.length_map]

theorem estimates_timeless [Quantity α] (replacement : Replacement α) (estimator : Estimator α)
    (plan : Plan) (known : PlanStatistics) (found : SubplanMatch) :
    replacement.timeless.estimates estimator plan known found =
      replacement.estimates estimator plan known found := by
  suffices same : ∀ operators produced,
      replacement.timeless.estimateFrom estimator plan known found
        (operators.map BoundOperator.timeless) produced =
      replacement.estimateFrom estimator plan known found operators produced from
    same replacement.operators []
  intro operators
  induction operators with
  | nil => exact fun _ => rfl
  | cons operator rest ih =>
    intro produced
    simp only [List.map_cons, estimateFrom, ih]
    rfl

end Replacement

namespace Rule

def timeless (rule : Rule α) : Rule α :=
  { rule with factory := fun operators epoch =>
      (rule.factory operators epoch).map Replacement.timeless }

/-- What a rule makes in one round differs from what it makes in another in the round alone. -/
def IgnoresEpoch (rule : Rule α) : Prop :=
  ∀ operators epoch epoch', (rule.factory operators epoch).map Replacement.timeless =
    (rule.factory operators epoch').map Replacement.timeless

theorem replace_timeless (rule : Rule α) (operators : List Operator) (inputs outputs epoch : Nat) :
    rule.timeless.replace operators inputs outputs epoch =
      (rule.replace operators inputs outputs epoch).map Replacement.timeless := by
  unfold replace
  simp only [timeless]
  cases rule.factory operators epoch with
  | error reason => rfl
  | ok replacement =>
    have inputs' : replacement.timeless.inputs = replacement.inputs := rfl
    have outputs' : replacement.timeless.outputs = replacement.outputs := rfl
    simp only [Except.map, Except.mapError, bind, Except.bind, Replacement.isForward_timeless,
      inputs', outputs']
    split_ifs <;> rfl

theorem IgnoresEpoch.replace_eq {rule : Rule α} (ignores : rule.IgnoresEpoch)
    (operators : List Operator) (inputs outputs epoch epoch' : Nat) :
    rule.timeless.replace operators inputs outputs epoch =
      rule.timeless.replace operators inputs outputs epoch' := by
  have same : rule.timeless.factory operators epoch = rule.timeless.factory operators epoch' :=
    ignores operators epoch epoch'
  simp only [replace, same]

end Rule

namespace RuleRegistry

variable [Quantity α] (estimator : Estimator α) (weights : CostWeights α) (plan : Plan)
  (known : PlanStatistics)

theorem candidate_timeless (epoch place : Nat) (rule : Rule α) (found : SubplanMatch) :
    (candidate estimator weights plan known epoch place rule found).map Candidate.timeless =
      candidate estimator weights plan known epoch 0 rule.timeless found := by
  unfold candidate
  simp only [Rule.replace_timeless]
  cases found.nodes.mapM plan.get with
  | error error => rfl
  | ok operators =>
    simp only [Except.mapError, bind, Except.bind]
    cases rule.replace operators found.inputs.length found.outputs.length epoch with
    | error error => rfl
    | ok replacement =>
      simp only [Except.map, pure, Except.pure, Replacement.estimates_timeless]
      rfl

def candidatesOf (rule : Rule α) : Except MappingError (List (Candidate α)) :=
  (rule.pattern.findMatches plan).mapM (candidate estimator weights plan known 0 0 rule.timeless)

theorem candidatesOf_eq {rule : Rule α} (ignores : rule.IgnoresEpoch) (epoch place : Nat) :
    candidatesOf estimator weights plan known rule =
      ((rule.pattern.findMatches plan).mapM
        (candidate estimator weights plan known epoch place rule)).map
          (List.map Candidate.timeless) := by
  rw [map_mapM]
  refine mapM_congr fun found _ => ?_
  rw [candidate_timeless]
  simp only [candidate, ignores.replace_eq _ _ _ epoch 0]

theorem candidates_timeless {rules : List (Rule α)}
    (ignores : ∀ rule ∈ rules, rule.IgnoresEpoch) (epoch : Nat) :
    (candidates ⟨rules⟩ estimator weights plan known epoch).map (List.map Candidate.timeless) =
      (rules.mapM (candidatesOf estimator weights plan known)).map fun found =>
        Candidate.arrange found.flatten := by
  let made (entry : Rule α × Nat) : Except MappingError (List (Candidate α)) :=
    (entry.1.pattern.findMatches plan).mapM
      (candidate estimator weights plan known epoch entry.2 entry.1)
  have forgotten : (rules.zipIdx.mapM made).map (List.map (List.map Candidate.timeless)) =
      rules.mapM (candidatesOf estimator weights plan known) := by
    calc (rules.zipIdx.mapM made).map (List.map (List.map Candidate.timeless))
      _ = rules.zipIdx.mapM fun entry => (made entry).map (List.map Candidate.timeless) :=
        map_mapM _ _ _
      _ = rules.zipIdx.mapM fun entry => candidatesOf estimator weights plan known entry.1 := by
        refine mapM_congr fun entry listed => ?_
        have registered := List.fst_mem_of_mem_zipIdx listed
        rw [candidatesOf_eq estimator weights plan known (ignores entry.1 registered) epoch entry.2]
      _ = (rules.zipIdx.map Prod.fst).mapM (candidatesOf estimator weights plan known) := by
        rw [List.mapM_map]
        rfl
      _ = rules.mapM (candidatesOf estimator weights plan known) := by
        rw [List.zipIdx_map_fst]
  rw [← forgotten]
  change Except.map _ (rules.zipIdx.mapM made >>= _) = _
  cases rules.zipIdx.mapM made with
  | error error => rfl
  | ok found =>
    refine congrArg Except.ok ?_
    rw [← Candidate.arrange_timeless, List.map_flatten]

theorem exists_of_mem_candidatesOf {rules : List (Rule α)} {found : List (List (Candidate α))}
    (matched : rules.mapM (candidatesOf estimator weights plan known) = .ok found)
    {made : Candidate α} (present : made ∈ found.flatten) :
    ∃ rule ∈ rules, made.ruleName = rule.name ∧
      candidate estimator weights plan known 0 0 rule.timeless made.matched = .ok made := by
  obtain ⟨part, among, present⟩ := List.mem_flatten.mp present
  obtain ⟨rule, listed, all⟩ := mem_right (mapM_ok_iff.mp matched) among
  obtain ⟨occurrence, -, single⟩ := mem_right (mapM_ok_iff.mp all) present
  have named : made.ruleName = rule.name ∧ made.matched = occurrence := by
    obtain ⟨operators, -, success⟩ := bind_ok_iff.mp single
    obtain ⟨replacement, -, success⟩ := bind_ok_iff.mp success
    cases success
    exact ⟨rfl, rfl⟩
  rw [named.2]
  exact ⟨rule, listed, named.1, single⟩

theorem arranged_of_perm {rules rules' : List (Rule α)} (shuffled : rules.Perm rules')
    (distinct : (rules.map (·.name)).Nodup) {found : List (List (Candidate α))}
    (matched : rules.mapM (candidatesOf estimator weights plan known) = .ok found) :
    ∃ found', rules'.mapM (candidatesOf estimator weights plan known) = .ok found' ∧
      Candidate.arrange found.flatten = Candidate.arrange found'.flatten := by
  obtain ⟨found', matched', permuted⟩ := mapM_ok_of_perm shuffled matched
  refine ⟨found', matched', Candidate.arrange_of_perm permuted.flatten ?_⟩
  intro first left second right same
  obtain ⟨name, occurrence⟩ := Candidate.same_of_order same
  obtain ⟨rule, listed, named, made⟩ :=
    exists_of_mem_candidatesOf estimator weights plan known matched left
  obtain ⟨rule', listed', named', made'⟩ :=
    exists_of_mem_candidatesOf estimator weights plan known matched right
  have one : rule = rule' :=
    List.inj_on_of_nodup_map distinct listed listed' (named.symm.trans (name.trans named'))
  rw [one, occurrence, made'] at made
  exact (Except.ok.inj made).symm

theorem candidates_of_perm {rules rules' : List (Rule α)} (shuffled : rules.Perm rules')
    (distinct : (rules.map (·.name)).Nodup) (ignores : ∀ rule ∈ rules, rule.IgnoresEpoch)
    {epoch : Nat} {found : List (Candidate α)}
    (matched : candidates ⟨rules⟩ estimator weights plan known epoch = .ok found) (epoch' : Nat) :
    ∃ found', candidates ⟨rules'⟩ estimator weights plan known epoch' = .ok found' ∧
      found.map Candidate.timeless = found'.map Candidate.timeless := by
  have ignores' : ∀ rule ∈ rules', rule.IgnoresEpoch :=
    fun rule listed => ignores rule (shuffled.mem_iff.mpr listed)
  have forgotten := candidates_timeless estimator weights plan known ignores epoch
  have forgotten' := candidates_timeless estimator weights plan known ignores' epoch'
  rw [matched] at forgotten
  obtain ⟨parts, each, arranged⟩ := map_ok_iff.mp forgotten.symm
  obtain ⟨parts', each', same⟩ :=
    arranged_of_perm estimator weights plan known shuffled distinct each
  rw [each'] at forgotten'
  obtain ⟨found', matched', arranged'⟩ := map_ok_iff.mp forgotten'
  exact ⟨found', matched', arranged.symm.trans (same.trans arranged'.symm)⟩

end RuleRegistry

theorem ignoresEpoch_of_builtin {rule : Rule α} (listed : rule ∈ builtinRules) :
    rule.IgnoresEpoch := by
  intro operators epoch epoch'
  rcases mem_builtinRules.mp listed with ⟨platform, kind, rfl⟩ | rfl
  · rcases operators with _ | ⟨operator, _ | _⟩
    · rfl
    · simp only [kindRule, ReplacementFactory.ofSingle, Operator.bind]
      split
      · cases operator.bound <;> rfl
      · rfl
    · rfl
  · rcases operators with _ | ⟨filter, _ | ⟨project, _ | _⟩⟩
    · rfl
    · rfl
    · simp only [filterProjectRule, fuse]
      split
      · next predicate columns _ _ => cases fusedAction predicate columns <;> rfl
      · rfl
    · rfl

theorem nodup_names_builtin : ((builtinRules : List (Rule α)).map (·.name)).Nodup := by
  have names : (builtinRules : List (Rule α)).map (·.name) =
      Platform.all.flatMap (fun platform => platform.kinds.map fun kind =>
        platform.name ++ "." ++ kind.name) ++ ["distributed.filter_project"] := by
    rw [builtinRules, List.map_append, List.map_flatMap]
    simp only [List.map_map]
    rfl
  rw [names]
  decide +kernel

/-! ## Compiling -/

/-- What there is to see of a plan beside its round. -/
def ExecutionPlan.visible (plan : ExecutionPlan α) : Score α × Json × Fingerprint :=
  (plan.score, plan.shape, plan.fingerprint)

theorem ExecutionPlan.visible_timeless (plan : ExecutionPlan α) :
    plan.timeless.visible = plan.visible := by
  simp only [visible, fingerprint, shape_timeless]
  rfl

namespace Compiler

variable [Quantity α]

def select (compiler : Compiler α) (plan : Plan)
    (gathered : PlanStatistics × List (Candidate α)) (epoch : Nat) :
    Except CompileError (ExecutionPlan α) := do
  let problem ← (compiler.problem plan gathered.1 gathered.2).mapError .optimize
  (problem.optimize epoch).mapError .optimize

theorem compile_eq (compiler : Compiler α) (plan : Plan) (hints : Hints) :
    compiler.compile plan hints =
      compiler.candidates plan hints compiler.epoch >>= (compiler.select plan · compiler.epoch) :=
  rfl

theorem select_timeless (compiler : Compiler α) (plan : Plan) (known : PlanStatistics)
    (candidates : List (Candidate α)) (epoch : Nat) :
    compiler.select plan (known, candidates.map Candidate.timeless) 0 =
      (compiler.select plan (known, candidates) epoch).map ExecutionPlan.timeless := by
  simp only [select, problem, Problem.create_timeless]
  cases Problem.create plan candidates compiler.estimator known compiler.config.optimizer with
  | error error => rfl
  | ok problem =>
    change (problem.timeless.optimize 0).mapError _ = ((problem.optimize epoch).mapError _).map _
    rw [problem.optimize_timeless epoch]
    cases problem.optimize epoch <;> rfl

theorem compile_timeless (compiler : Compiler α) (plan : Plan) (hints : Hints) :
    (compiler.compile plan hints).map ExecutionPlan.timeless =
      (compiler.candidates plan hints compiler.epoch).map
        (Prod.map (·) (List.map Candidate.timeless)) >>= (compiler.select plan · 0) := by
  rw [compile_eq]
  cases compiler.candidates plan hints compiler.epoch with
  | error error => rfl
  | ok gathered => exact (compiler.select_timeless plan gathered.1 gathered.2 compiler.epoch).symm

theorem visible_compile (compiler : Compiler α) (plan : Plan) (hints : Hints) :
    (compiler.compile plan hints).map ExecutionPlan.visible =
      ((compiler.candidates plan hints compiler.epoch).map
        (Prod.map (·) (List.map Candidate.timeless)) >>= (compiler.select plan · 0)).map
          ExecutionPlan.visible := by
  rw [← compile_timeless]
  cases compiler.compile plan hints with
  | error error => rfl
  | ok executable => exact congrArg Except.ok executable.visible_timeless.symm

def withRules (compiler : Compiler α) (rules : List (Rule α)) (epoch : Nat) : Compiler α :=
  { compiler with registry := ⟨rules⟩, epoch }

section

variable {compiler : Compiler α} {rules : List (Rule α)}
  (shuffled : compiler.registry.rules.Perm rules)
  (distinct : (compiler.registry.rules.map (·.name)).Nodup)
  (ignores : ∀ rule ∈ compiler.registry.rules, rule.IgnoresEpoch) (epoch : Nat) (plan : Plan)

include shuffled distinct ignores

theorem matched_of_perm (known : PlanStatistics) :
    (compiler.registry.candidates compiler.estimator compiler.config.optimizer.weights plan known
      compiler.epoch).toOption.map (List.map Candidate.timeless) =
    (RuleRegistry.candidates ⟨rules⟩ compiler.estimator compiler.config.optimizer.weights plan known
      epoch).toOption.map (List.map Candidate.timeless) := by
  have distinct' : (rules.map (·.name)).Nodup := (shuffled.map (·.name)).nodup_iff.mp distinct
  have ignores' : ∀ rule ∈ rules, rule.IgnoresEpoch :=
    fun rule listed => ignores rule (shuffled.mem_iff.mpr listed)
  cases made : compiler.registry.candidates compiler.estimator compiler.config.optimizer.weights
      plan known compiler.epoch with
  | ok found =>
    obtain ⟨found', made', same⟩ := RuleRegistry.candidates_of_perm compiler.estimator
      compiler.config.optimizer.weights plan known shuffled distinct ignores made epoch
    rw [made']
    exact congrArg some same
  | error error =>
    cases made' : RuleRegistry.candidates ⟨rules⟩ compiler.estimator
        compiler.config.optimizer.weights plan known epoch with
    | error error => rfl
    | ok found' =>
      obtain ⟨found, again, -⟩ := RuleRegistry.candidates_of_perm compiler.estimator
        compiler.config.optimizer.weights plan known shuffled.symm distinct' ignores' made'
        compiler.epoch
      cases made.symm.trans again

/-- Unless a rule fails, rules in another order give the same candidates. -/
theorem gathered_of_perm {hints : Hints}
    (matched : ∀ error, compiler.candidates plan hints compiler.epoch ≠ .error (.mapping error)) :
    (compiler.candidates plan hints compiler.epoch).map
        (Prod.map (·) (List.map Candidate.timeless)) =
      ((compiler.withRules rules epoch).candidates plan hints epoch).map
        (Prod.map (·) (List.map Candidate.timeless)) := by
  revert matched
  simp only [candidates, withRules, bind, Except.bind]
  cases plan.validate.mapError CompileError.plan with
  | error error => exact fun _ => rfl
  | ok valid =>
    cases (plan.statistics hints compiler.config.estimator).mapError CompileError.plan with
    | error error => exact fun _ => rfl
    | ok known =>
      dsimp only
      intro matched
      cases made : compiler.registry.candidates compiler.estimator
          compiler.config.optimizer.weights plan known compiler.epoch with
      | error error =>
        rw [made] at matched
        exact absurd rfl (matched error)
      | ok found =>
        obtain ⟨found', made', same⟩ := RuleRegistry.candidates_of_perm compiler.estimator
          compiler.config.optimizer.weights plan known shuffled distinct ignores made epoch
        rw [made']
        exact congrArg (fun found => Except.ok (known, found)) same

end

theorem unmapped_of_builtin {compiler : Compiler α}
    (registry : compiler.registry = .builtin) {plan : Plan} (formed : plan.WellFormed)
    (readable : plan.Readable) (hints : Hints) (epoch : Nat) (error : MappingError) :
    compiler.candidates plan hints epoch ≠ .error (.mapping error) := by
  simp only [candidates, bind, Except.bind]
  cases plan.validate with
  | error error => exact nofun
  | ok valid =>
    cases plan.statistics hints compiler.config.estimator with
    | error error => exact nofun
    | ok known =>
      obtain ⟨found, matched⟩ := builtin_candidates_isOk formed readable.bound
        readable.broadcasts compiler.estimator compiler.config.optimizer.weights known epoch
      simp only [Except.mapError, registry, matched]
      exact nofun

/-- The order of the rules and the round have no part in what is compiled.  The same candidates are
found in the same places, if no rule fails, and the same plan is built or refused for the same
reason. -/
theorem compile_of_perm {compiler : Compiler α} {rules : List (Rule α)}
    (shuffled : compiler.registry.rules.Perm rules)
    (distinct : (compiler.registry.rules.map (·.name)).Nodup)
    (ignores : ∀ rule ∈ compiler.registry.rules, rule.IgnoresEpoch) (epoch : Nat) (plan : Plan) :
    (∀ known,
      (compiler.registry.candidates compiler.estimator compiler.config.optimizer.weights plan known
        compiler.epoch).toOption.map (List.map Candidate.timeless) =
      (RuleRegistry.candidates ⟨rules⟩ compiler.estimator compiler.config.optimizer.weights plan
        known epoch).toOption.map (List.map Candidate.timeless)) ∧
    ∀ hints,
      (∀ error, compiler.candidates plan hints compiler.epoch ≠ .error (.mapping error)) →
      (compiler.compile plan hints).map ExecutionPlan.visible =
        ((compiler.withRules rules epoch).compile plan hints).map ExecutionPlan.visible := by
  refine ⟨matched_of_perm shuffled distinct ignores epoch plan, fun hints matched => ?_⟩
  have gathered := gathered_of_perm shuffled distinct ignores epoch plan matched
  rw [visible_compile, visible_compile, gathered]
  rfl

theorem compile_of_perm_travel :
    hastyCompiler.registry.rules.Perm builtinRules.reverse ∧
      (hastyCompiler.registry.rules.map (·.name)).Nodup ∧
      (hastyCompiler.compile Problem.travel .empty).map ExecutionPlan.visible =
        ((hastyCompiler.withRules builtinRules.reverse 7).compile Problem.travel .empty).map
          ExecutionPlan.visible := by
  have shuffled : hastyCompiler.registry.rules.Perm builtinRules.reverse :=
    (List.reverse_perm builtinRules).symm
  have distinct : (hastyCompiler.registry.rules.map (·.name)).Nodup := nodup_names_builtin
  have readable := Problem.bindable_travel.readable
  obtain ⟨-, compiled⟩ := compile_of_perm shuffled distinct
    (fun _ => ignoresEpoch_of_builtin) 7 Problem.travel
  exact ⟨shuffled, distinct, compiled .empty
    (unmapped_of_builtin rfl Problem.built_travel.wellFormed readable .empty _)⟩

end Compiler

end CrossPlan
