import CrossPlan.Precedence
import Mathlib.Data.Fintype.Order
import Mathlib.Data.List.Nodup
import Mathlib.Data.List.Perm.Subperm
import Mathlib.Logic.Relation
import Mathlib.Order.WellFounded

/-!
# The schedule takes every node behind its predecessors

A schedule lists nodes once, each behind all its predecessors, and takes at each step the least node
that is free.  What it leaves out lies on a cycle or behind one, so that it lists all nodes when the
pairs form no cycle and lead from known nodes; and where it lists the end of every pair there is no
cycle.
-/

set_option autoImplicit false

namespace CrossPlan.Precedence

def Precedes (pairs : List (Nat × Nat)) (earlier later : Nat) : Prop := (earlier, later) ∈ pairs

def Acyclic (pairs : List (Nat × Nat)) : Prop :=
  ∀ node, ¬ Relation.TransGen (Precedes pairs) node node

/-- A node that lies on a cycle or behind one. -/
def Blocked (pairs : List (Nat × Nat)) (node : Nat) : Prop :=
  ∃ looped, Relation.TransGen (Precedes pairs) looped looped ∧
    Relation.ReflTransGen (Precedes pairs) looped node

/-- A node that can be taken after others, as all its predecessors are among them. -/
structure Free (nodes : List Nat) (pairs : List (Nat × Nat)) (taken : List Nat) (node : Nat) :
    Prop where
  known : node ∈ nodes
  fresh : node ∉ taken
  prepared : ∀ pair ∈ pairs, pair.2 = node → pair.1 ∈ taken

def Respects (pairs : List (Nat × Nat)) (order : List Nat) : Prop :=
  ∀ before node after, order = before ++ node :: after →
    ∀ pair ∈ pairs, pair.2 = node → pair.1 ∈ before

structure Taken (nodes : List Nat) (pairs : List (Nat × Nat)) (taken : List Nat) : Prop where
  nodup : taken.Nodup
  known : ∀ node ∈ taken, node ∈ nodes
  respects : Respects pairs taken

theorem ready_iff {pairs : List (Nat × Nat)} {taken : List Nat} {node : Nat} :
    ready pairs taken node = true ↔ ∀ pair ∈ pairs, pair.2 = node → pair.1 ∈ taken := by
  simp only [ready, List.all_eq_true, Bool.or_eq_true, bne_iff_ne, ne_eq, List.contains_iff_mem]
  constructor
  · intro all pair member same
    exact (all pair member).resolve_left (fun different => different same)
  · intro all pair member
    by_cases same : pair.2 = node
    · exact Or.inr (all pair member same)
    · exact Or.inl same

variable {nodes : List Nat} {pairs : List (Nat × Nat)}

theorem next?_some {taken : List Nat} {node : Nat} (found : next? nodes pairs taken = some node) :
    Free nodes pairs taken node := by
  have free := List.find?_some found
  simp only [Bool.and_eq_true, Bool.not_eq_true', List.contains_eq_mem, decide_eq_false_iff_not,
    ready_iff] at free
  exact ⟨List.mem_of_find?_eq_some found, free.1, free.2⟩

theorem next?_none {taken : List Nat} (stuck : next? nodes pairs taken = none) {node : Nat}
    (member : node ∈ nodes) (left : node ∉ taken) :
    ∃ pair ∈ pairs, pair.2 = node ∧ pair.1 ∉ taken := by
  by_contra none
  have prepared : ready pairs taken node = true := by
    rw [ready_iff]
    intro pair present same
    by_contra missing
    exact none ⟨pair, present, same, missing⟩
  have refused := List.find?_eq_none.mp stuck node member
  simp [prepared, left] at refused

theorem find?_eq_some_iff_isLeast (ascending : nodes.Pairwise (· < ·)) {accepts : Nat → Bool}
    {node : Nat} : nodes.find? accepts = some node ↔
      IsLeast {other | other ∈ nodes ∧ accepts other = true} node := by
  have least : ∀ {first}, nodes.find? accepts = some first →
      IsLeast {other | other ∈ nodes ∧ accepts other = true} first := by
    intro first found
    refine ⟨⟨List.mem_of_find?_eq_some found, List.find?_some found⟩, ?_⟩
    rintro other ⟨among, accepted⟩
    obtain ⟨-, before, after, rfl, refused⟩ := List.find?_eq_some_iff_append.mp found
    rw [List.pairwise_append, List.pairwise_cons] at ascending
    rcases List.mem_append.mp among with earlier | later
    · have := refused other earlier
      simp [accepted] at this
    · rcases List.mem_cons.mp later with same | behind
      · exact same.ge
      · exact (ascending.2.1.1 other behind).le
  constructor
  · exact least
  · rintro first
    obtain ⟨other, found⟩ := Option.isSome_iff_exists.mp
      (List.find?_isSome.mpr ⟨node, first.1⟩)
    rw [found, (least found).unique first]

theorem next?_eq_some_iff (ascending : nodes.Pairwise (· < ·)) {taken : List Nat} {node : Nat} :
    next? nodes pairs taken = some node ↔ IsLeast {other | Free nodes pairs taken other} node := by
  have free_iff : ∀ other, Free nodes pairs taken other ↔
      other ∈ nodes ∧ (!taken.contains other && ready pairs taken other) = true := by
    intro other
    simp only [Bool.and_eq_true, Bool.not_eq_true', List.contains_eq_mem, decide_eq_false_iff_not,
      ready_iff]
    exact ⟨fun free => ⟨free.known, free.fresh, free.prepared⟩, fun ⟨a, b, c⟩ => ⟨a, b, c⟩⟩
  simp only [next?, find?_eq_some_iff_isLeast ascending, free_iff]

theorem Taken.nil : Taken nodes pairs [] :=
  ⟨List.nodup_nil, by simp, by intro before node after empty; simp at empty⟩

theorem Taken.push {taken : List Nat} {node : Nat} (held : Taken nodes pairs taken)
    (free : Free nodes pairs taken node) : Taken nodes pairs (taken ++ [node]) := by
  obtain ⟨member, fresh, prepared⟩ := free
  refine ⟨?_, ?_, ?_⟩
  · rw [List.nodup_append]
    refine ⟨held.nodup, List.nodup_singleton node, ?_⟩
    intro a inTaken b inLast same
    rw [List.mem_singleton] at inLast
    exact fresh (by rw [← inLast, ← same]; exact inTaken)
  · intro other present
    rw [List.mem_append, List.mem_singleton] at present
    rcases present with old | rfl
    · exact held.known other old
    · exact member
  · intro before other after split pair present same
    rcases List.eq_nil_or_concat after with rfl | ⟨front, last, rfl⟩
    · obtain ⟨rfl, one⟩ := List.append_inj' split rfl
      rw [← List.singleton_inj.mp one] at same
      exact prepared pair present same
    · have ended : taken ++ [node] = (before ++ other :: front) ++ [last] := by
        simpa [List.concat_eq_append] using split
      exact held.respects before other front (List.append_inj' ended rfl).1 pair present same

theorem Taken.extend {taken : List Nat} (held : Taken nodes pairs taken) (steps : Nat) :
    Taken nodes pairs (extend nodes pairs steps taken) := by
  induction steps generalizing taken with
  | zero => exact held
  | succ steps ih =>
    simp only [Precedence.extend]
    split
    · exact held
    · next node found => exact ih (held.push (next?_some found))

theorem taken_schedule : Taken nodes pairs (schedule nodes pairs) := Taken.nil.extend _

theorem Taken.perm_of_full {taken : List Nat} (held : Taken nodes pairs taken)
    (full : nodes.length ≤ taken.length) : taken.Perm nodes :=
  (List.subperm_of_subset held.nodup held.known).perm_of_length_le full

theorem Taken.next?_of_full {taken : List Nat} (held : Taken nodes pairs taken)
    (full : nodes.length ≤ taken.length) : next? nodes pairs taken = none := by
  have all := held.perm_of_full full
  rw [next?, List.find?_eq_none]
  intro node member
  simp [all.mem_iff.mpr member]

/-- With enough steps nothing more can be taken at the end. -/
theorem next?_extend {taken : List Nat} (held : Taken nodes pairs taken) (steps : Nat)
    (enough : nodes.length ≤ taken.length + steps) :
    next? nodes pairs (extend nodes pairs steps taken) = none := by
  induction steps generalizing taken with
  | zero => exact held.next?_of_full (by simpa using enough)
  | succ steps ih =>
    simp only [extend]
    split
    · next stuck => exact stuck
    · next node found =>
      apply ih (held.push (next?_some found))
      simp only [List.length_append, List.length_singleton]
      omega

theorem next?_schedule : next? nodes pairs (schedule nodes pairs) = none :=
  next?_extend Taken.nil nodes.length (by simp)

theorem Blocked.exists_pair {node : Nat} (blocked : Blocked pairs node) :
    ∃ earlier, (earlier, node) ∈ pairs := by
  obtain ⟨looped, loop, leads⟩ := blocked
  obtain ⟨earlier, -, step⟩ := Relation.TransGen.tail'_iff.mp (loop.trans_left leads)
  exact ⟨earlier, step⟩

/-- Where nothing more can be taken, what is left lies on a cycle or behind one. -/
theorem blocked_of_stuck (known : ∀ pair ∈ pairs, pair.2 ∈ nodes → pair.1 ∈ nodes)
    {taken : List Nat} (stuck : next? nodes pairs taken = none) {node : Nat} (member : node ∈ nodes)
    (left : node ∉ taken) : Blocked pairs node := by
  by_contra free
  -- among the finitely many nodes left that lead to this one a first one would wait for another
  let Left := { other : Nat // other ∈ nodes ∧ other ∉ taken ∧
    Relation.ReflTransGen (Precedes pairs) other node }
  have : Finite Left := Set.Finite.subset nodes.finite_toSet (fun _ h => h.1)
  let before (a b : Left) : Prop := Relation.TransGen (Precedes pairs) a.1 b.1
  have : IsTrans Left before := ⟨fun _ _ _ => Relation.TransGen.trans⟩
  have : Std.Irrefl before := ⟨fun a loop => free ⟨a.1, loop, a.2.2.2⟩⟩
  have founded : WellFounded before := Finite.wellFounded_of_trans_of_irrefl before
  obtain ⟨first, -, least⟩ := founded.has_min Set.univ ⟨⟨node, member, left, .refl⟩, trivial⟩
  obtain ⟨inNodes, untaken, leads⟩ := first.2
  obtain ⟨pair, present, same, missing⟩ := next?_none stuck inNodes untaken
  have step : Precedes pairs pair.1 first.1 := by
    rw [← same]
    exact present
  have inNodes' : pair.1 ∈ nodes := known pair present (by rw [same]; exact inNodes)
  exact least ⟨pair.1, inNodes', missing, .head step leads⟩ trivial (.single step)

theorem Respects.idxOf_lt {order : List Nat} (respects : Respects pairs order)
    {pair : Nat × Nat} (present : pair ∈ pairs) (listed : pair.2 ∈ order) :
    order.idxOf pair.1 < order.idxOf pair.2 := by
  obtain ⟨before, after, split, fresh⟩ := List.eq_append_cons_of_mem listed
  have earlier := respects before pair.2 after split pair present rfl
  rw [split, List.idxOf_append_of_mem earlier, List.idxOf_append_of_notMem fresh]
  simpa using List.idxOf_lt_length_of_mem earlier

theorem Respects.closed {order done behind : List Nat} (respects : Respects pairs order)
    (split : order = done ++ behind) {pair : Nat × Nat} (present : pair ∈ pairs)
    (listed : pair.2 ∈ done) : pair.1 ∈ done := by
  obtain ⟨before, after, rfl⟩ := List.append_of_mem listed
  rw [List.append_assoc, List.cons_append] at split
  exact List.mem_append_left _ (respects before _ _ split pair present rfl)

theorem Respects.mem_of_path {order : List Nat} (respects : Respects pairs order)
    {first last : Nat} (path : Relation.ReflTransGen (Precedes pairs) first last)
    (listed : last ∈ order) : first ∈ order := by
  induction path with
  | refl => exact listed
  | tail _ step ih => exact ih (respects.closed (List.append_nil order).symm step listed)

theorem Respects.idxOf_lt_of_path {order : List Nat} (respects : Respects pairs order)
    {first last : Nat} (path : Relation.TransGen (Precedes pairs) first last)
    (listed : last ∈ order) : order.idxOf first < order.idxOf last := by
  induction path with
  | single step => exact respects.idxOf_lt step listed
  | tail _ step ih =>
    have earlier := respects.closed (List.append_nil order).symm step listed
    exact (ih earlier).trans (respects.idxOf_lt step listed)

theorem Respects.not_blocked {order : List Nat} (respects : Respects pairs order) {node : Nat}
    (listed : node ∈ order) : ¬ Blocked pairs node := by
  rintro ⟨looped, loop, leads⟩
  exact lt_irrefl _ (respects.idxOf_lt_of_path loop (respects.mem_of_path leads listed))

theorem Taken.mem_iff {taken : List Nat} (held : Taken nodes pairs taken)
    (known : ∀ pair ∈ pairs, pair.2 ∈ nodes → pair.1 ∈ nodes)
    (stuck : next? nodes pairs taken = none) {node : Nat} :
    node ∈ taken ↔ node ∈ nodes ∧ ¬ Blocked pairs node := by
  constructor
  · intro listed
    exact ⟨held.known node listed, held.respects.not_blocked listed⟩
  · rintro ⟨member, free⟩
    by_contra left
    exact free (blocked_of_stuck known stuck member left)

theorem mem_schedule_iff (known : ∀ pair ∈ pairs, pair.2 ∈ nodes → pair.1 ∈ nodes) {node : Nat} :
    node ∈ schedule nodes pairs ↔ node ∈ nodes ∧ ¬ Blocked pairs node :=
  taken_schedule.mem_iff known next?_schedule

theorem Acyclic.not_blocked (acyclic : Acyclic pairs) (node : Nat) : ¬ Blocked pairs node :=
  fun ⟨looped, loop, _⟩ => acyclic looped loop

theorem mem_schedule (known : ∀ pair ∈ pairs, pair.2 ∈ nodes → pair.1 ∈ nodes)
    (acyclic : Acyclic pairs) {node : Nat} (member : node ∈ nodes) :
    node ∈ schedule nodes pairs :=
  (mem_schedule_iff known).mpr ⟨member, acyclic.not_blocked node⟩

theorem acyclic_of_respects {order : List Nat} (respects : Respects pairs order)
    (listed : ∀ pair ∈ pairs, pair.2 ∈ order) : Acyclic pairs := by
  intro node loop
  obtain ⟨earlier, -, step⟩ := Relation.TransGen.tail'_iff.mp loop
  exact respects.not_blocked (listed _ step) ⟨node, loop, .refl⟩

/-- The schedule lists all nodes exactly where no pairs form a cycle. -/
theorem schedule_perm_iff (distinct : nodes.Nodup)
    (known : ∀ pair ∈ pairs, pair.1 ∈ nodes ∧ pair.2 ∈ nodes) :
    (schedule nodes pairs).Perm nodes ↔ Acyclic pairs := by
  have taken : Taken nodes pairs (schedule nodes pairs) := taken_schedule
  constructor
  · intro full
    apply acyclic_of_respects taken.respects
    intro pair present
    exact full.mem_iff.mpr (known pair present).2
  · intro acyclic
    rw [List.perm_ext_iff_of_nodup taken.nodup distinct]
    intro node
    exact ⟨taken.known node, mem_schedule (fun pair present _ => (known pair present).1) acyclic⟩

/-! ## Taking the least free node at each step -/

theorem prefix_extend (steps : Nat) (taken : List Nat) :
    taken <+: extend nodes pairs steps taken := by
  induction steps generalizing taken with
  | zero => exact List.prefix_rfl
  | succ steps ih =>
    simp only [extend]
    split
    · exact List.prefix_rfl
    · next node _ => exact (List.prefix_append taken [node]).trans (ih _)

theorem next?_of_extend {steps : Nat} {taken before after : List Nat} {node : Nat}
    (split : extend nodes pairs steps taken = before ++ node :: after)
    (further : taken.length ≤ before.length) : next? nodes pairs before = some node := by
  induction steps generalizing taken with
  | zero =>
    have := congrArg List.length split
    simp only [extend, List.length_append, List.length_cons] at this
    omega
  | succ steps ih =>
    rw [extend] at split
    cases found : next? nodes pairs taken with
    | none =>
      rw [found] at split
      have := congrArg List.length split
      simp only [List.length_append, List.length_cons] at this
      omega
    | some first =>
      simp only [found] at split
      by_cases here : taken.length = before.length
      · have starts : taken ++ [first] <+: before ++ node :: after :=
          split ▸ prefix_extend steps (taken ++ [first])
        have same : taken ++ [first] = before ++ [node] := by
          refine List.IsPrefix.eq_of_length ?_ (by simp [here])
          exact List.prefix_of_prefix_length_le starts (by simp) (by simp [here])
        obtain ⟨rfl, one⟩ := List.append_inj' same rfl
        rw [found, List.singleton_inj.mp one]
      · refine ih split ?_
        rw [List.length_append, List.length_singleton]
        omega

theorem extend_of_next? {order before after : List Nat} (split : order = before ++ after)
    (turns : ∀ front node rest, order = front ++ node :: rest →
      next? nodes pairs front = some node) :
    extend nodes pairs after.length before = order := by
  induction after generalizing before with
  | nil => rw [split, List.append_nil]; rfl
  | cons node rest ih =>
    simp only [List.length_cons, extend, turns before node rest split]
    exact ih (by rw [split, List.append_assoc, List.singleton_append])

/-- A full list of nodes is the schedule when each node is the next one at its turn. -/
theorem schedule_eq_iff {order : List Nat} (full : order.Perm nodes) :
    schedule nodes pairs = order ↔ ∀ before node after, order = before ++ node :: after →
      next? nodes pairs before = some node := by
  constructor
  · intro same before node after split
    exact next?_of_extend (same.trans split) (Nat.zero_le _)
  · intro turns
    rw [schedule, ← full.length_eq]
    exact extend_of_next? (List.nil_append order).symm turns

/-- The schedule depends on which pairs there are, not on their order or number. -/
theorem extend_congr {others : List (Nat × Nat)} (same : ∀ pair, pair ∈ pairs ↔ pair ∈ others)
    (steps : Nat) (taken : List Nat) :
    extend nodes pairs steps taken = extend nodes others steps taken := by
  have next : ∀ taken, next? nodes pairs taken = next? nodes others taken := by
    intro taken
    have prepared : ∀ node, ready pairs taken node = ready others taken node := by
      intro node
      rw [Bool.eq_iff_iff, ready_iff, ready_iff]
      simp only [same]
    simp only [next?, prepared]
  induction steps generalizing taken with
  | zero => rfl
  | succ steps ih => simp only [extend, next, ih]

/-! ## Ascending pairs -/

/-- Where all pairs ascend, the numbers up to a bound are taken one after the other. -/
theorem extend_range {size : Nat} (ascending : ∀ pair ∈ pairs, pair.1 < pair.2) {steps done : Nat}
    (total : done + steps = size) :
    extend (List.range size) pairs steps (List.range done) = List.range size := by
  induction steps generalizing done with
  | zero => rw [← total]; rfl
  | succ steps ih =>
    have found : next? (List.range size) pairs (List.range done) = some done := by
      rw [next?, List.find?_range_eq_some]
      refine ⟨?_, List.mem_range.mpr (by omega), fun earlier before => by simp [before]⟩
      have prepared : ready pairs (List.range done) done = true :=
        ready_iff.mpr fun pair present same => List.mem_range.mpr (same ▸ ascending pair present)
      simp [prepared]
    simp only [extend, found]
    rw [← List.range_succ]
    exact ih (by omega)

theorem schedule_range {size : Nat} (ascending : ∀ pair ∈ pairs, pair.1 < pair.2) :
    schedule (List.range size) pairs = List.range size := by
  rw [schedule, List.length_range]
  exact extend_range ascending (Nat.zero_add size)

theorem leftOut?_none {order : List Nat} :
    leftOut? nodes order = none ↔ ∀ node ∈ nodes, node ∈ order := by
  simp [leftOut?]

theorem leftOut?_eq_some_iff (ascending : nodes.Pairwise (· < ·)) {order : List Nat} {node : Nat} :
    leftOut? nodes order = some node ↔ IsLeast {other | other ∈ nodes ∧ other ∉ order} node := by
  simp [leftOut?, find?_eq_some_iff_isLeast ascending]

end CrossPlan.Precedence
