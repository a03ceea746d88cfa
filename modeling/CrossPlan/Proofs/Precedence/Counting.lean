import CrossPlan.Proofs.Precedence
import Mathlib.Logic.Function.Basic

/-!
# Ordering by counting

Nodes can be ordered without going through all pairs at each step.  For each node one counts the
pairs into it that start at a node not taken yet, and takes one off as soon as such a start is
taken; a node is ready when nothing is left to take off.

Whichever of the ready nodes is chosen, no count is ever to fall below zero, and all nodes are taken
exactly where no pairs form a cycle.  If the least ready node is chosen each time, the nodes are
taken in the order of the schedule.
-/

set_option autoImplicit false

namespace CrossPlan.Precedence

/-- The open pairs into each node, the nodes that are ready and those taken so far. -/
structure Tally where
  missing : Nat → Nat
  ready : List Nat
  taken : List Nat

def followers (pairs : List (Nat × Nat)) (node : Nat) : List Nat :=
  (pairs.filter fun pair => pair.1 == node).map (·.2)

def openInto (pairs : List (Nat × Nat)) (taken : List Nat) (node : Nat) : Nat :=
  pairs.countP fun pair => pair.2 == node && !taken.contains pair.1

namespace Tally

def start (nodes : List Nat) (pairs : List (Nat × Nat)) : Tally where
  missing := openInto pairs []
  ready := nodes.filter fun node => openInto pairs [] node == 0
  taken := []

def lower (tally : Tally) (node left : Nat) : Tally where
  missing := Function.update tally.missing node left
  ready := if left = 0 then tally.ready ++ [node] else tally.ready
  taken := tally.taken

def countDown? (tally : Tally) (node : Nat) : Option Tally :=
  match tally.missing node with
  | 0 => none
  | left + 1 => some (tally.lower node left)

def take? (pairs : List (Nat × Nat)) (tally : Tally) (node : Nat) : Option Tally :=
  (followers pairs node).foldlM countDown?
    { tally with ready := tally.ready.erase node, taken := tally.taken ++ [node] }

def run? (choose : List Nat → Option Nat) (pairs : List (Nat × Nat)) :
    (steps : Nat) → Tally → Option Tally
  | 0, tally => some tally
  | steps + 1, tally =>
    match choose tally.ready with
    | none => some tally
    | some node => (tally.take? pairs node).bind (run? choose pairs steps)

def pass? (choose : List Nat → Option Nat) (nodes : List Nat) (pairs : List (Nat × Nat)) :
    Option Tally :=
  (start nodes pairs).run? choose pairs nodes.length

end Tally

structure Chooses (choose : List Nat → Option Nat) : Prop where
  mem : ∀ ready node, choose ready = some node → node ∈ ready
  none : ∀ ready, choose ready = none → ready = []

theorem chooses_min? : Chooses List.min? where
  mem _ _ chosen := List.min?_mem chosen
  none _ chosen := List.min?_eq_none_iff.mp chosen

theorem chooses_getLast? : Chooses List.getLast? where
  mem _ _ chosen := List.mem_of_getLast? chosen
  none _ chosen := List.getLast?_eq_none_iff.mp chosen

variable {nodes : List Nat} {pairs : List (Nat × Nat)}

/-! ## Counting down -/

theorem mem_followers {node later : Nat} :
    later ∈ followers pairs node ↔ (node, later) ∈ pairs := by
  simp [followers]

theorem openInto_eq_zero {taken : List Nat} {node : Nat} :
    openInto pairs taken node = 0 ↔ ∀ pair ∈ pairs, pair.2 = node → pair.1 ∈ taken := by
  simp [openInto, List.countP_eq_zero]

/-- Of the open pairs into a node those are left that do not start at the node just taken. -/
theorem count_followers_add {taken : List Nat} {node : Nat} (fresh : node ∉ taken) (later : Nat) :
    (followers pairs node).count later + openInto pairs (taken ++ [node]) later =
      openInto pairs taken later := by
  induction pairs with
  | nil => rfl
  | cons pair rest ih =>
    obtain ⟨earlier, next⟩ := pair
    by_cases same : earlier = node
    · subst same
      by_cases here : next = later <;>
        simp [followers, openInto, here, fresh] at ih ⊢ <;> omega
    · by_cases here : next = later <;> by_cases old : earlier ∈ taken <;>
        simp [followers, openInto, same, here, old] at ih ⊢ <;> omega

namespace Tally

structure Lowered (ends : List Nat) (before after : Tally) : Prop where
  taken : after.taken = before.taken
  missing : ∀ node, after.missing node + ends.count node = before.missing node
  distinct : after.ready.Nodup
  ready : ∀ node, node ∈ after.ready ↔
    node ∈ before.ready ∨ (node ∈ ends ∧ after.missing node = 0)

theorem exists_countDown? {tally : Tally} {node : Nat} (distinct : tally.ready.Nodup)
    (waits : node ∉ tally.ready) (enough : tally.missing node ≠ 0) :
    ∃ after, tally.countDown? node = some after ∧ Lowered [node] tally after := by
  obtain ⟨left, here⟩ := Nat.exists_eq_add_one_of_ne_zero enough
  refine ⟨tally.lower node left, by simp [countDown?, here], rfl, ?_, ?_, ?_⟩
  · intro other
    by_cases same : other = node
    · subst same
      simp [lower, here]
    · simp [lower, same, Ne.symm same]
  · simp only [lower]
    split
    · rw [List.nodup_append]
      refine ⟨distinct, List.nodup_singleton node, fun old among new listed same => ?_⟩
      rw [List.mem_singleton] at listed
      exact waits (listed ▸ same ▸ among)
    · exact distinct
  · intro other
    by_cases same : other = node
    · subst same
      by_cases last : left = 0 <;> simp [lower, last]
    · by_cases last : left = 0 <;> simp [lower, last, same]

theorem Lowered.trans {before middle after : Tally} {node : Nat} {rest : List Nat}
    (first : Lowered [node] before middle) (second : Lowered rest middle after) :
    Lowered (node :: rest) before after where
  taken := second.taken.trans first.taken
  missing other := by
    rw [← first.missing other, ← second.missing other, List.count_cons, List.count_singleton]
    omega
  distinct := second.distinct
  ready other := by
    have total := second.missing other
    have counts := List.count_pos_iff (a := other) (l := rest)
    rw [second.ready, first.ready, List.mem_singleton, List.mem_cons]
    constructor
    · rintro ((old | ⟨same, ended⟩) | ⟨later, ended⟩)
      · exact .inl old
      · exact .inr ⟨.inl same, by omega⟩
      · exact .inr ⟨.inr later, ended⟩
    · rintro (old | ⟨same | later, ended⟩)
      · exact .inl (.inl old)
      · by_cases later : other ∈ rest
        · exact .inr ⟨later, ended⟩
        · exact .inl (.inr ⟨same, by rw [← counts] at later; omega⟩)
      · exact .inr ⟨later, ended⟩

theorem exists_lowered (ends : List Nat) (tally : Tally) (distinct : tally.ready.Nodup)
    (zero : ∀ node ∈ tally.ready, tally.missing node = 0)
    (enough : ∀ node, ends.count node ≤ tally.missing node) :
    ∃ after, ends.foldlM countDown? tally = some after ∧ Lowered ends tally after := by
  induction ends generalizing tally with
  | nil => exact ⟨tally, rfl, rfl, by simp, distinct, by simp⟩
  | cons node rest ih =>
    have here : tally.missing node ≠ 0 := by
      have := enough node
      rw [List.count_cons_self] at this
      omega
    obtain ⟨next, step, lowered⟩ :=
      exists_countDown? distinct (fun among => here (zero node among)) here
    have zero' : ∀ other ∈ next.ready, next.missing other = 0 := by
      intro other among
      rcases (lowered.ready other).mp among with old | ⟨-, ended⟩
      · have := lowered.missing other
        have := zero other old
        omega
      · exact ended
    have enough' : ∀ other, rest.count other ≤ next.missing other := by
      intro other
      have total := lowered.missing other
      have := enough other
      rw [List.count_singleton] at total
      rw [List.count_cons] at this
      omega
    obtain ⟨after, success, further⟩ := ih next lowered.distinct zero' enough'
    refine ⟨after, ?_, lowered.trans further⟩
    rw [List.foldlM_cons, step]
    exact success

end Tally

/-! ## What a pass keeps -/

/-- The counts of a tally are those of the nodes it has taken, and ready is what is free. -/
structure Counted (nodes : List Nat) (pairs : List (Nat × Nat)) (tally : Tally) : Prop where
  taken : Taken nodes pairs tally.taken
  missing : ∀ node, tally.missing node = openInto pairs tally.taken node
  distinct : tally.ready.Nodup
  ready : ∀ node, node ∈ tally.ready ↔ Free nodes pairs tally.taken node

namespace Counted

variable {tally : Tally}

theorem start (distinct : nodes.Nodup) : Counted nodes pairs (Tally.start nodes pairs) where
  taken := .nil
  missing _ := rfl
  distinct := distinct.filter _
  ready node := by
    simp only [Tally.start, List.mem_filter, beq_iff_eq, openInto_eq_zero]
    exact ⟨fun ⟨known, prepared⟩ => ⟨known, List.not_mem_nil, prepared⟩,
      fun free => ⟨free.known, free.prepared⟩⟩

theorem notMem_of_follows (counted : Counted nodes pairs tally) {node later : Nat}
    (free : Free nodes pairs tally.taken node) (follows : (node, later) ∈ pairs) :
    later ∉ tally.taken ++ [node] := by
  intro listed
  rcases List.mem_append.mp listed with earlier | last
  · have behind := counted.taken.respects.closed (List.append_nil _).symm follows earlier
    exact free.fresh behind
  · rw [List.mem_singleton] at last
    exact free.fresh (free.prepared _ follows last)

/-- Taking a ready node keeps the counts, none of which falls below zero. -/
theorem exists_take? (counted : Counted nodes pairs tally)
    (known : ∀ pair ∈ pairs, pair.2 ∈ nodes) {node : Nat} (chosen : node ∈ tally.ready) :
    ∃ after, tally.take? pairs node = some after ∧ after.taken = tally.taken ++ [node] ∧
      Counted nodes pairs after := by
  have free := (counted.ready node).mp chosen
  have split : ∀ later, (followers pairs node).count later +
      openInto pairs (tally.taken ++ [node]) later = openInto pairs tally.taken later :=
    count_followers_add free.fresh
  have zero : ∀ other ∈ tally.ready.erase node, tally.missing other = 0 := by
    intro other among
    rw [counted.missing, openInto_eq_zero]
    exact ((counted.ready other).mp (List.mem_of_mem_erase among)).prepared
  have enough : ∀ other, (followers pairs node).count other ≤ tally.missing other := by
    intro other
    rw [counted.missing, ← split other]
    exact Nat.le_add_right _ _
  obtain ⟨after, success, lowered⟩ := Tally.exists_lowered (followers pairs node)
    { tally with ready := tally.ready.erase node, taken := tally.taken ++ [node] }
    (counted.distinct.erase node) zero enough
  have taken : after.taken = tally.taken ++ [node] := lowered.taken
  have missing : ∀ other, after.missing other = openInto pairs (tally.taken ++ [node]) other := by
    intro other
    have total : after.missing other + _ = tally.missing other := lowered.missing other
    rw [counted.missing, ← split other] at total
    omega
  refine ⟨after, success, taken, ⟨?_, ?_, lowered.distinct, fun other => ?_⟩⟩
  · rw [taken]
    exact counted.taken.push free
  · rw [taken]
    exact missing
  · -- ready is the rest of what was ready, and what waited for nothing but the node just taken
    rw [lowered.ready, taken, missing, openInto_eq_zero, mem_followers,
      counted.distinct.mem_erase_iff, counted.ready]
    constructor
    · rintro (⟨different, old⟩ | ⟨follows, prepared⟩)
      · refine ⟨old.known, ?_, fun pair present same => ?_⟩
        · simp [old.fresh, different]
        · exact List.mem_append_left _ (old.prepared pair present same)
      · exact ⟨known _ follows, counted.notMem_of_follows free follows, prepared⟩
    · rintro ⟨inNodes, fresh, prepared⟩
      by_cases follows : (node, other) ∈ pairs
      · exact .inr ⟨follows, prepared⟩
      · simp only [List.mem_append, List.mem_singleton, not_or] at fresh
        refine .inl ⟨fresh.2, inNodes, fresh.1, fun pair present same => ?_⟩
        rcases List.mem_append.mp (prepared pair present same) with earlier | last
        · exact earlier
        · rw [List.mem_singleton] at last
          exact absurd (last ▸ same ▸ present) follows

theorem exists_run? (counted : Counted nodes pairs tally)
    (known : ∀ pair ∈ pairs, pair.2 ∈ nodes) {choose : List Nat → Option Nat}
    (chooses : Chooses choose) (steps : Nat) :
    ∃ after, tally.run? choose pairs steps = some after ∧ Counted nodes pairs after ∧
      (after.ready = [] ∨ after.taken.length = tally.taken.length + steps) := by
  induction steps generalizing tally with
  | zero => exact ⟨tally, rfl, counted, .inr rfl⟩
  | succ steps ih =>
    cases chosen : choose tally.ready with
    | none =>
      refine ⟨tally, ?_, counted, .inl (chooses.none _ chosen)⟩
      rw [Tally.run?, chosen]
    | some node =>
      obtain ⟨next, took, longer, counted'⟩ :=
        counted.exists_take? known (chooses.mem _ _ chosen)
      obtain ⟨after, success, counted'', ending⟩ := ih counted'
      refine ⟨after, ?_, counted'', ending.imp_right fun length => ?_⟩
      · rw [Tally.run?, chosen]
        simp only [took, Option.bind_some, success]
      · rw [length, longer, List.length_append, List.length_singleton]
        omega

theorem ready_eq_nil_iff (counted : Counted nodes pairs tally) :
    tally.ready = [] ↔ next? nodes pairs tally.taken = none := by
  constructor
  · intro empty
    by_contra further
    obtain ⟨node, found⟩ := Option.ne_none_iff_exists'.mp further
    have among := (counted.ready node).mpr (next?_some found)
    rw [empty] at among
    exact List.not_mem_nil among
  · intro stuck
    refine List.eq_nil_iff_forall_not_mem.mpr fun node among => ?_
    have free := (counted.ready node).mp among
    obtain ⟨pair, present, same, missing⟩ := next?_none stuck free.known free.fresh
    exact missing (free.prepared pair present same)

theorem missing_pos_iff (counted : Counted nodes pairs tally)
    (stuck : next? nodes pairs tally.taken = none) {node : Nat} (member : node ∈ nodes) :
    0 < tally.missing node ↔ node ∉ tally.taken := by
  rw [counted.missing, Nat.pos_iff_ne_zero, ne_eq, openInto_eq_zero]
  constructor
  · intro waits listed
    exact waits fun pair present same => counted.taken.respects.closed
      (List.append_nil _).symm present (same ▸ listed)
  · intro left prepared
    obtain ⟨pair, present, same, missing⟩ := next?_none stuck member left
    exact missing (prepared pair present same)

end Counted

theorem exists_pass? (distinct : nodes.Nodup) (known : ∀ pair ∈ pairs, pair.2 ∈ nodes)
    {choose : List Nat → Option Nat} (chooses : Chooses choose) :
    ∃ after, Tally.pass? choose nodes pairs = some after ∧ Counted nodes pairs after ∧
      next? nodes pairs after.taken = none := by
  obtain ⟨after, success, counted, ending⟩ :=
    (Counted.start distinct).exists_run? known chooses nodes.length
  refine ⟨after, success, counted, ?_⟩
  rcases ending with empty | full
  · exact counted.ready_eq_nil_iff.mp empty
  · refine counted.taken.next?_of_full ?_
    rw [full]
    exact Nat.le_add_left _ _

/-! ## The least ready node first -/

theorem Counted.next?_eq_min? {tally : Tally} (ascending : nodes.Pairwise (· < ·))
    (counted : Counted nodes pairs tally) : next? nodes pairs tally.taken = tally.ready.min? := by
  cases chosen : tally.ready.min? with
  | none => exact counted.ready_eq_nil_iff.mp (List.min?_eq_none_iff.mp chosen)
  | some node =>
    rw [next?_eq_some_iff ascending]
    obtain ⟨among, least⟩ := List.min?_eq_some_iff.mp chosen
    refine ⟨(counted.ready node).mp among, fun other free => ?_⟩
    exact least other ((counted.ready other).mpr free)

theorem Counted.taken_run? {tally after : Tally} (ascending : nodes.Pairwise (· < ·))
    (known : ∀ pair ∈ pairs, pair.2 ∈ nodes) (counted : Counted nodes pairs tally) {steps : Nat}
    (success : tally.run? List.min? pairs steps = some after) :
    after.taken = extend nodes pairs steps tally.taken := by
  induction steps generalizing tally with
  | zero =>
    obtain rfl := Option.some.inj success
    rfl
  | succ steps ih =>
    rw [Tally.run?] at success
    rw [extend, counted.next?_eq_min? ascending]
    cases chosen : tally.ready.min? with
    | none =>
      rw [chosen] at success
      obtain rfl := Option.some.inj success
      rfl
    | some node =>
      obtain ⟨next, took, longer, counted'⟩ :=
        counted.exists_take? known (List.min?_mem chosen)
      simp only [chosen, took, Option.bind_some] at success
      rw [ih counted' success, longer]

/-- Counting with the least ready node first comes to the schedule. -/
theorem exists_pass?_min? (ascending : nodes.Pairwise (· < ·))
    (known : ∀ pair ∈ pairs, pair.2 ∈ nodes) :
    ∃ after, Tally.pass? List.min? nodes pairs = some after ∧ Counted nodes pairs after ∧
      after.taken = schedule nodes pairs := by
  have distinct : nodes.Nodup := ascending.imp Nat.ne_of_lt
  obtain ⟨after, success, counted, -⟩ := exists_pass? distinct known chooses_min?
  exact ⟨after, success, counted, (Counted.start distinct).taken_run? ascending known success⟩

end CrossPlan.Precedence
