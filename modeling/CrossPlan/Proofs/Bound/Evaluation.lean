import CrossPlan.Proofs.Channel.Content
import CrossPlan.Proofs.Plan.Meaning

/-!
# What bound operators put out

A bound operator fills its output with the rows that its action makes of the rows on its inputs,
however these are divided into parts and in whatever order they come.
-/

set_option autoImplicit false

namespace CrossPlan

open Sequence

/-! ## Predicates -/

namespace Predicate

theorem eval_congr {row : Record} {members members' : Memberships} {predicate : Predicate}
    (same : ∀ entry ∈ predicate.lookups, ∀ text,
      (members entry.2 entry.1).contains text = (members' entry.2 entry.1).contains text) :
    predicate.eval row members = predicate.eval row members' := by
  induction predicate with
  | compare column comparison literal => rfl
  | like column pattern => rfl
  | member column broadcast =>
    have here := same (column, broadcast) List.mem_cons_self
    simp only [eval]
    cases shown? row column with
    | none => rfl
    | some text => exact here text
  | not predicate ih => rw [eval, eval, ih same]
  | and left right ihLeft ihRight =>
    rw [eval, eval, ihLeft fun entry listed => same entry (List.mem_append_left _ listed),
      ihRight fun entry listed => same entry (List.mem_append_right _ listed)]
  | or left right ihLeft ihRight =>
    rw [eval, eval, ihLeft fun entry listed => same entry (List.mem_append_left _ listed),
      ihRight fun entry listed => same entry (List.mem_append_right _ listed)]

theorem mem_memberships {predicate : Predicate} {entry : String × String} :
    entry ∈ predicate.memberships ↔ entry ∈ predicate.lookups := by
  rw [memberships, List.mem_mergeSort, List.mem_eraseDups]

theorem mem_broadcasts_of_lookup {predicate : Predicate} {entry : String × String}
    (listed : entry ∈ predicate.lookups) : entry.2 ∈ predicate.broadcasts := by
  rw [broadcasts, List.mem_mergeSort, List.mem_eraseDups]
  exact List.mem_map_of_mem listed

end Predicate

/-- The values that a broadcast offers do not depend on the order of its rows. -/
theorem contains_broadcastMembers {column : String} {rows rows' : List Record}
    (same : rows.Perm rows') (text : String) :
    (broadcastMembers column rows).contains text =
      (broadcastMembers column rows').contains text := by
  rw [Bool.eq_iff_iff, List.contains_iff_mem, List.contains_iff_mem]
  simp only [broadcastMembers, List.mem_mergeSort, List.mem_eraseDups, List.mem_filterMap,
    same.mem_iff]

namespace BoundAction

/-! ## Actions on rows -/

def offered (slots : List (String × Nat)) (contents : List (List Record)) : Memberships :=
  fun broadcast column =>
    match slots.find? fun slot => slot.1 == broadcast with
    | some (_, slot) => broadcastMembers column (contents.getD slot [])
    | none => []

/-- The rows that an action makes of the rows on its inputs; a sink keeps what it receives. -/
def meaning (action : BoundAction) (lines : String → List Record) (contents : List (List Record)) :
    List Record :=
  match action with
  | .collectionSource rows => rows
  | .textSource url => lines url
  | .filter predicate slots _ =>
    (contents.headD []).filter fun row => predicate.eval row (offered slots contents)
  | .filterProject predicate columns =>
    ((contents.headD []).filter fun row => predicate.eval row Memberships.none).map
      (Record.project columns)
  | .map renames => (contents.headD []).map (Record.rename renames)
  | .project columns => (contents.headD []).map (Record.project columns)
  | .union => contents.flatten
  | .sink _ => contents.headD []

variable {lines : String → List Record} {contents contents' : List (List Record)}

theorem headD_perm (same : List.Forall₂ List.Perm contents contents') :
    (contents.headD []).Perm (contents'.headD []) := by
  cases same with
  | nil => exact List.Perm.refl _
  | cons first _ => exact first

theorem getD_perm (same : List.Forall₂ List.Perm contents contents') (place : Nat) :
    (contents.getD place []).Perm (contents'.getD place []) := by
  rw [List.getD_eq_getElem?_getD, List.getD_eq_getElem?_getD]
  by_cases within : place < contents.length
  · have within' : place < contents'.length := same.length_eq ▸ within
    rw [List.getElem?_eq_getElem within, List.getElem?_eq_getElem within']
    exact same.get within within'
  · have beyond := Nat.le_of_not_lt within
    rw [List.getElem?_eq_none beyond, List.getElem?_eq_none (same.length_eq ▸ beyond)]

/-- The order in which rows come does not matter but for the order in which they leave. -/
theorem meaning_perm (action : BoundAction) (same : List.Forall₂ List.Perm contents contents') :
    (action.meaning lines contents).Perm (action.meaning lines contents') := by
  cases action with
  | collectionSource rows => exact List.Perm.refl _
  | textSource url => exact List.Perm.refl _
  | filter predicate slots inputs =>
    have kept : ∀ row, predicate.eval row (offered slots contents) =
        predicate.eval row (offered slots contents') := by
      intro row
      refine Predicate.eval_congr fun entry _ text => ?_
      unfold offered
      split
      · exact contains_broadcastMembers (getD_perm same _) text
      · rfl
    simp only [meaning, kept]
    exact (headD_perm same).filter _
  | filterProject predicate columns => exact ((headD_perm same).filter _).map _
  | map renames => exact (headD_perm same).map _
  | project columns => exact (headD_perm same).map _
  | union => exact List.Perm.flatten_congr same
  | sink destination => exact headD_perm same

/-! ## Evaluation -/

def Supplied : BoundAction → Prop
  | .filter predicate slots inputs => 0 < inputs ∧ ∀ entry ∈ predicate.lookups,
      ∃ slot, slots.find? (fun slot => slot.1 == entry.2) = some slot ∧ slot.2 < inputs
  | _ => True

variable {inputs outputs : List Channel}

theorem foldlM_insert {ε : Type} {step : Memberships → String × String → Except ε Memberships}
    {values : Memberships} {entries : List (String × String)}
    (each : ∀ entry ∈ entries, ∀ members, step members entry =
      .ok (members.insert entry.2 entry.1 (values entry.2 entry.1))) (start : Memberships) :
    ∃ members, entries.foldlM step start = .ok members ∧ ∀ column broadcast,
      ((column, broadcast) ∈ entries ∨ start broadcast column = values broadcast column) →
        members broadcast column = values broadcast column := by
  induction entries generalizing start with
  | nil => exact ⟨start, rfl, fun column broadcast known => known.resolve_left (by simp)⟩
  | cons entry rest ih =>
    obtain ⟨members, success, holds⟩ := ih
      (fun other later => each other (List.mem_cons_of_mem _ later))
      (start.insert entry.2 entry.1 (values entry.2 entry.1))
    refine ⟨members, ?_, fun column broadcast known => holds column broadcast ?_⟩
    · rw [List.foldlM_cons, bind_ok_iff]
      exact ⟨_, each entry List.mem_cons_self start, success⟩
    · unfold Memberships.insert
      rcases known with listed | before
      · rcases List.mem_cons.mp listed with rfl | later
        · exact Or.inr (if_pos ⟨rfl, rfl⟩)
        · exact Or.inl later
      · right
        split
        · next here => rw [here.1, here.2]
        · exact before

theorem memberships_ok (predicate : Predicate) (slots : List (String × Nat)) (inputs : List Channel)
    (found : ∀ entry ∈ predicate.lookups,
      ∃ slot, slots.find? (fun slot => slot.1 == entry.2) = some slot ∧ slot.2 < inputs.length)
    (filled : ∀ channel ∈ inputs, channel.produced = true) :
    ∃ members, memberships predicate slots inputs = .ok members ∧
      ∀ entry ∈ predicate.lookups, members entry.2 entry.1 =
        offered slots (inputs.map Channel.content) entry.2 entry.1 := by
  obtain ⟨members, success, holds⟩ : ∃ members, memberships predicate slots inputs = .ok members ∧
      ∀ column broadcast, ((column, broadcast) ∈ predicate.memberships ∨
        Memberships.none broadcast column =
          offered slots (inputs.map Channel.content) broadcast column) →
        members broadcast column =
          offered slots (inputs.map Channel.content) broadcast column := by
    refine foldlM_insert (fun entry listed members => ?_) Memberships.none
    obtain ⟨slot, looked, within⟩ := found entry (Predicate.mem_memberships.mp listed)
    have here := List.getElem?_eq_getElem within
    have rows : rowsOf inputs[slot.2] = .ok inputs[slot.2].content := by
      rw [rowsOf, Channel.rows_ok (filled _ (List.getElem_mem within))]
      rfl
    have same : broadcastMembers entry.1 inputs[slot.2].content =
        offered slots (inputs.map Channel.content) entry.2 entry.1 := by
      unfold offered
      rw [looked]
      dsimp only
      rw [List.getD_eq_getElem?_getD, List.getElem?_map, here]
      rfl
    simp only [looked, Option.bind_some, here, rows, ← same]
    rfl
  exact ⟨members, success, fun entry listed =>
    holds entry.1 entry.2 (Or.inl (Predicate.mem_memberships.mpr listed))⟩

theorem mapM_partsOf (filled : ∀ channel ∈ inputs, channel.produced = true) :
    ∃ parts, inputs.mapM partsOf = .ok parts ∧
      parts.flatten.flatten = (inputs.map Channel.content).flatten := by
  induction inputs with
  | nil => exact ⟨[], rfl, rfl⟩
  | cons channel rest ih =>
    obtain ⟨first, held, same⟩ := Channel.parts_ok (filled channel List.mem_cons_self)
    obtain ⟨parts, later, same'⟩ := ih fun other listed =>
      filled other (List.mem_cons_of_mem _ listed)
    refine ⟨first :: parts, ?_, ?_⟩
    · rw [List.mapM_cons, partsOf, held, later]
      rfl
    · rw [List.flatten_cons, List.flatten_append, same, same', List.map_cons, List.flatten_cons]

theorem mapM_rowsOf (filled : ∀ channel ∈ inputs, channel.produced = true) :
    inputs.mapM rowsOf = .ok (inputs.map Channel.content) := by
  rw [mapM_ok_iff, List.forall₂_map_right_iff, List.forall₂_same]
  intro channel listed
  rw [rowsOf, Channel.rows_ok (filled channel listed)]
  rfl

theorem transform_ok (action : BoundAction) (name : String) (lines : String → List Record)
    (supplied : action.Supplied) (count : inputs.length = action.inputs)
    (filled : ∀ channel ∈ inputs, channel.produced = true)
    (between : action.inputs ≠ 0 ∧ action.outputs ≠ 0) :
    ∃ parts rowsRead, action.transform name inputs = .ok (parts, rowsRead) ∧
      parts.flatten = action.meaning lines (inputs.map Channel.content) := by
  have expected : expectInputs name action.inputs inputs = .ok () := if_pos count
  have main : action.inputs ≠ 0 → ∃ channel rest parts, inputs = channel :: rest ∧
      partsOf channel = .ok parts ∧ parts.flatten = channel.content := by
    intro some
    cases inputs with
    | nil => exact absurd count.symm some
    | cons channel rest =>
      obtain ⟨parts, held, same⟩ := Channel.parts_ok (filled channel List.mem_cons_self)
      exact ⟨channel, rest, parts, rfl, by rw [partsOf, held]; rfl, same⟩
  cases action with
  | collectionSource rows => exact absurd rfl between.1
  | textSource url => exact absurd rfl between.1
  | sink destination => exact absurd rfl between.2
  | union =>
    obtain ⟨parts, held, same⟩ := mapM_partsOf filled
    exact ⟨parts.flatten, _, bind_ok_iff.mpr ⟨(), expected, bind_ok_iff.mpr ⟨parts, held, rfl⟩⟩,
      same⟩
  | filter predicate slots number =>
    obtain ⟨channel, rest, parts, rfl, held, same⟩ := main between.1
    obtain ⟨members, looked, holds⟩ := memberships_ok predicate slots (channel :: rest)
      (fun entry listed => by rw [count]; exact supplied.2 entry listed) filled
    refine ⟨_, _, bind_ok_iff.mpr ⟨(), expected, bind_ok_iff.mpr ⟨members, looked,
      bind_ok_iff.mpr ⟨parts, held, rfl⟩⟩⟩, ?_⟩
    rw [← List.filter_flatten, same, meaning, List.map_cons, List.headD_cons]
    refine List.filter_congr fun row _ => Predicate.eval_congr fun entry listed text => ?_
    rw [holds entry listed, List.map_cons]
  | filterProject predicate columns =>
    obtain ⟨channel, rest, parts, rfl, held, same⟩ := main between.1
    refine ⟨_, _, bind_ok_iff.mpr ⟨(), expected, bind_ok_iff.mpr ⟨parts, held, rfl⟩⟩, ?_⟩
    rw [meaning, List.map_cons, List.headD_cons, ← same, List.filter_flatten, List.map_flatten,
      List.map_map]
    rfl
  | map renames =>
    obtain ⟨channel, rest, parts, rfl, held, same⟩ := main between.1
    refine ⟨_, _, bind_ok_iff.mpr ⟨(), expected, bind_ok_iff.mpr ⟨parts, held, rfl⟩⟩, ?_⟩
    rw [meaning, List.map_cons, List.headD_cons, ← same, List.map_flatten]
  | project columns =>
    obtain ⟨channel, rest, parts, rfl, held, same⟩ := main between.1
    refine ⟨_, _, bind_ok_iff.mpr ⟨(), expected, bind_ok_iff.mpr ⟨parts, held, rfl⟩⟩, ?_⟩
    rw [meaning, List.map_cons, List.headD_cons, ← same, List.map_flatten]

theorem sourceParts_perm (platform : Platform) (parallelism : Nat) (rows : List Record) :
    (sourceParts platform parallelism rows).flatten.Perm rows := by
  cases platform with
  | inProcess => simp [sourceParts]
  | distributed => exact dealRows_perm rows parallelism

variable {α : Type} {action : BoundAction} {workspace : Workspace} {output : Channel}

theorem evaluate_eq_transform (between : action.inputs ≠ 0 ∧ action.outputs ≠ 0) (name : String)
    (platform : Platform) (context : TaskContext α) (outputs : List Channel) :
    action.evaluate name platform context inputs outputs workspace =
      action.transform name inputs >>= fun parts =>
        fillOutput name parts.1 outputs >>= fun produced =>
          .ok (context.evaluation parts.2 produced, workspace) := by
  cases action with
  | collectionSource rows => exact absurd rfl between.1
  | textSource url => exact absurd rfl between.1
  | sink destination => exact absurd rfl between.2
  | _ => rfl

theorem evaluate_fills (supplied : action.Supplied) (giving : action.outputs ≠ 0)
    (reads : ∀ url, action = .textSource url → readLines workspace url = .ok (lines url))
    (count : inputs.length = action.inputs) (filled : ∀ channel ∈ inputs, channel.produced = true)
    (name : String) (platform : Platform) (context : TaskContext α) :
    ∃ evaluation made,
      action.evaluate name platform context inputs [output] workspace =
        .ok (evaluation, workspace) ∧
      evaluation.produced = [made] ∧ made.form = output.form ∧ made.produced = true ∧
      made.content.Perm (action.meaning lines (inputs.map Channel.content)) := by
  have fills : ∀ parts : List (List Record),
      parts.flatten.Perm (action.meaning lines (inputs.map Channel.content)) →
      (output.acceptParts parts).form = output.form ∧
        (output.acceptParts parts).produced = true ∧ (output.acceptParts parts).content.Perm
          (action.meaning lines (inputs.map Channel.content)) := by
    intro parts same
    refine ⟨rfl, Channel.produced_acceptParts _, ?_⟩
    rw [Channel.content_acceptParts]
    exact same
  by_cases source : action.inputs = 0
  · cases action with
    | collectionSource rows =>
      exact ⟨_, _, bind_ok_iff.mpr ⟨_, rfl, rfl⟩, rfl,
        fills _ (sourceParts_perm platform context.parallelism rows)⟩
    | textSource url =>
      exact ⟨_, _, bind_ok_iff.mpr ⟨_, reads url rfl, bind_ok_iff.mpr ⟨_, rfl, rfl⟩⟩, rfl,
        fills _ (sourceParts_perm platform context.parallelism (lines url))⟩
    | filter predicate slots number => exact absurd source (Nat.ne_of_gt supplied.1)
    | _ => exact absurd source (Nat.succ_ne_zero _)
  · obtain ⟨parts, rowsRead, success, same⟩ :=
      transform_ok action name lines supplied count filled ⟨source, giving⟩
    refine ⟨context.evaluation rowsRead [output.acceptParts parts], _, ?_, rfl,
      fills parts (List.Perm.of_eq same)⟩
    rw [evaluate_eq_transform ⟨source, giving⟩]
    exact bind_ok_iff.mpr ⟨_, success, rfl⟩

theorem evaluate_delivers {result : String} (count : inputs.length = 1)
    (filled : ∀ channel ∈ inputs, channel.produced = true) (name : String) (platform : Platform)
    (context : TaskContext α) : ∃ evaluation rows,
      (sink (.memory result)).evaluate name platform context inputs [] workspace =
        .ok (evaluation, workspace.append result rows) ∧
      evaluation.produced = [] ∧
      rows = (sink (.memory result)).meaning lines (inputs.map Channel.content) := by
  obtain ⟨channel, rfl⟩ := List.length_eq_one_iff.mp count
  have rows : (([channel].mapM rowsOf).map List.flatten : Except EvaluationError (List Record)) =
      .ok channel.content := by
    rw [mapM_rowsOf filled]
    exact congrArg Except.ok (List.append_nil _)
  exact ⟨_, _, bind_ok_iff.mpr ⟨(), rfl, bind_ok_iff.mpr ⟨_, rows, bind_ok_iff.mpr ⟨_, rfl, rfl⟩⟩⟩,
    rfl, rfl⟩

/-- What an operator did that succeeded: it filled its first output and left the workspace alone or,
as a sink, took the rows that it received to its destination. -/
theorem evaluate_cases {name : String} {platform : Platform} {context : TaskContext α}
    {outputs : List Channel} {evaluation : Evaluation α} {after : Workspace}
    (success : action.evaluate name platform context inputs outputs workspace =
      .ok (evaluation, after)) :
    ((∀ destination, action ≠ .sink destination) ∧ after = workspace ∧ ∃ output rest parts,
      outputs = output :: rest ∧ evaluation.produced = output.acceptParts parts :: rest) ∨
    ∃ destination rows, action = .sink destination ∧ inputs.mapM rowsOf = .ok rows ∧
      deliver destination rows.flatten workspace = .ok after ∧ evaluation.produced = outputs := by
  have fills : ∀ {parts : List (List Record)} {produced : List Channel},
      fillOutput name parts outputs = .ok produced → ∃ output rest parts,
        outputs = output :: rest ∧ produced = output.acceptParts parts :: rest := by
    intro parts produced filled
    cases outputs with
    | nil => cases filled
    | cons output rest =>
      cases filled
      exact ⟨output, rest, parts, rfl, rfl⟩
  cases action with
  | collectionSource rows =>
    obtain ⟨produced, filled, success⟩ := bind_ok_iff.mp success
    cases success
    exact Or.inl ⟨nofun, rfl, fills filled⟩
  | textSource url =>
    obtain ⟨rows, -, success⟩ := bind_ok_iff.mp success
    obtain ⟨produced, filled, success⟩ := bind_ok_iff.mp success
    cases success
    exact Or.inl ⟨nofun, rfl, fills filled⟩
  | sink destination =>
    obtain ⟨-, success⟩ := seq_ok_iff.mp success
    obtain ⟨rows, gathered, success⟩ := bind_ok_iff.mp success
    obtain ⟨changed, delivered, success⟩ := bind_ok_iff.mp success
    obtain ⟨rows, held, rfl⟩ := map_ok_iff.mp gathered
    cases success
    exact Or.inr ⟨destination, rows, rfl, held, delivered, rfl⟩
  | _ =>
    obtain ⟨parts, -, success⟩ := bind_ok_iff.mp success
    obtain ⟨produced, filled, success⟩ := bind_ok_iff.mp success
    cases success
    exact Or.inl ⟨nofun, rfl, fills filled⟩

end BoundAction

/-! ## Binding -/

namespace Operator

variable {operator : Operator} {action : BoundAction} {lines : String → List Record}
  {contents : List (List Record)}

theorem broadcastSlots_ok {predicate : Predicate} {slots : List (String × Nat)}
    (success : broadcastSlots operator predicate = .ok slots) {name : String}
    (asked : name ∈ predicate.broadcasts) :
    ∃ slot, slots.find? (fun slot => slot.1 == name) = some (name, slot) ∧
      operator.broadcasts.find? (fun broadcast => broadcast.2 == name) = some (slot, name) := by
  have each : List.Forall₂ (fun name entry => entry.1 = name ∧
      operator.broadcasts.find? (fun broadcast => broadcast.2 == name) = some (entry.2, name))
      predicate.broadcasts slots := by
    refine (mapM_ok_iff.mp success).imp fun name entry found => ?_
    split at found
    · next slot shown here =>
      cases found
      have same := List.find?_some here
      rw [beq_iff_eq] at same
      exact ⟨rfl, same ▸ here⟩
    · cases found
  obtain ⟨entry, listed, same, -⟩ := mem_left each asked
  have some : (slots.find? fun slot => slot.1 == name).isSome = true :=
    List.find?_isSome.mpr ⟨entry, listed, beq_iff_eq.mpr same⟩
  obtain ⟨⟨name', slot⟩, found⟩ := Option.isSome_iff_exists.mp some
  have same' := List.find?_some found
  rw [beq_iff_eq] at same'
  dsimp only at same'
  subst same'
  obtain ⟨_, -, rfl, here⟩ := mem_right each (List.mem_of_find?_eq_some found)
  exact ⟨slot, found, here⟩

theorem offered_eq {predicate : Predicate} {slots : List (String × Nat)}
    (success : broadcastSlots operator predicate = .ok slots) {name : String}
    (asked : name ∈ predicate.broadcasts) (column : String) :
    BoundAction.offered slots contents name column = operator.offered contents name column := by
  obtain ⟨slot, found, here⟩ := broadcastSlots_ok success asked
  rw [BoundAction.offered, offered, found, here]

theorem bound_filter {text : String} (same : operator.action = .filter text)
    (bound : operator.bound = .ok action) : ∃ predicate slots,
      Predicate.read text = .ok predicate ∧ broadcastSlots operator predicate = .ok slots ∧
        action = .filter predicate slots operator.inputs.length := by
  unfold Operator.bound at bound
  rw [same] at bound
  obtain ⟨predicate, parsed, bound⟩ := bind_ok_iff.mp bound
  obtain ⟨slots, served, bound⟩ := bind_ok_iff.mp bound
  cases bound
  exact ⟨predicate, slots, parsed, served, rfl⟩

theorem bound_sink {text : String} (same : operator.action = .sink text)
    (bound : operator.bound = .ok action) :
    ∃ destination, Destination.read text = .ok destination ∧ action = .sink destination := by
  unfold Operator.bound at bound
  rw [same] at bound
  obtain ⟨destination, parsed, bound⟩ := bind_ok_iff.mp bound
  cases bound
  exact ⟨destination, parsed, rfl⟩

/-- A bound operator makes the same rows as the operator that it was bound for. -/
theorem meaning_of_bound (bound : operator.bound = .ok action) :
    action.meaning lines contents = operator.meaning lines contents := by
  cases same : operator.action with
  | filter text =>
    obtain ⟨predicate, slots, parsed, served, rfl⟩ := bound_filter same bound
    simp only [BoundAction.meaning, meaning, same, parsed]
    refine List.filter_congr fun row _ => Predicate.eval_congr fun entry listed text => ?_
    rw [offered_eq served (Predicate.mem_broadcasts_of_lookup listed)]
  | sink text =>
    obtain ⟨destination, -, rfl⟩ := bound_sink same bound
    simp only [BoundAction.meaning, meaning, same]
  | _ =>
    unfold Operator.bound at bound
    rw [same] at bound
    cases bound
    simp only [BoundAction.meaning, meaning, same]

theorem supplied_of_bound (slotted : operator.Slotted) (bound : operator.bound = .ok action) :
    action.Supplied := by
  cases same : operator.action with
  | filter text =>
    obtain ⟨predicate, slots, parsed, served, rfl⟩ := bound_filter same bound
    have inputs : 1 ≤ operator.inputs.length := by
      have least := slotted.inputs
      rwa [kind, same] at least
    refine ⟨inputs, fun entry listed => ?_⟩
    obtain ⟨slot, found, here⟩ :=
      broadcastSlots_ok served (Predicate.mem_broadcasts_of_lookup listed)
    have declared := mem_broadcasts.mp (List.mem_of_find?_eq_some here)
    exact ⟨_, found, (List.getElem?_eq_some_iff.mp declared).1⟩
  | sink text =>
    obtain ⟨destination, -, rfl⟩ := bound_sink same bound
    trivial
  | _ =>
    unfold Operator.bound at bound
    rw [same] at bound
    cases bound
    trivial

theorem length_inputs (slotted : operator.Slotted) (plain : operator.hasBroadcasts = false) :
    operator.inputs.length = operator.kind.inputs := by
  refine Nat.le_antisymm (Nat.le_of_not_lt fun more => ?_) slotted.inputs
  have broadcast := (slotted.broadcast _ _ (List.getElem?_eq_getElem more)).mpr (Nat.le_refl _)
  rw [hasBroadcasts, List.any_eq_false] at plain
  exact plain _ (List.getElem_mem more) broadcast

theorem arity_of_bound (slotted : operator.Slotted)
    (plain : operator.hasBroadcasts = true → operator.kind = .filter)
    (bound : operator.bound = .ok action) :
    action.inputs = operator.inputs.length ∧ action.outputs = operator.outputs.length := by
  have single : operator.kind ≠ .filter → operator.inputs.length = operator.kind.inputs := by
    intro other
    refine length_inputs slotted (Bool.eq_false_iff.mpr fun has => other (plain has))
  rw [slotted.outputs]
  cases same : operator.action with
  | filter text =>
    obtain ⟨predicate, slots, -, -, rfl⟩ := bound_filter same bound
    exact ⟨rfl, by rw [kind, same]; rfl⟩
  | sink text =>
    obtain ⟨destination, -, rfl⟩ := bound_sink same bound
    have count := single (by rw [kind, same]; exact Kind.noConfusion)
    rw [count, kind, same]
    exact ⟨rfl, rfl⟩
  | _ =>
    have count := single (by rw [kind, same]; exact Kind.noConfusion)
    unfold Operator.bound at bound
    rw [same] at bound
    cases bound
    rw [count, kind, same]
    exact ⟨rfl, rfl⟩

end Operator

/-- A filter and a projection in one pass make the rows of the one behind the other. -/
theorem meaning_filterProject {filter project : Operator} {text : String} {columns : List String}
    {predicate : Predicate} (filtered : filter.action = .filter text)
    (projected : project.action = .project columns) (parsed : Predicate.read text = .ok predicate)
    (alone : predicate.broadcasts = []) (lines : String → List Record) (rows : List Record) :
    (BoundAction.filterProject predicate columns).meaning lines [rows] =
      project.meaning lines [filter.meaning lines [rows]] := by
  simp only [BoundAction.meaning, Operator.meaning, filtered, projected, parsed, List.headD_cons]
  congr 1
  refine List.filter_congr fun row _ => Predicate.eval_congr fun entry listed => ?_
  have asked := Predicate.mem_broadcasts_of_lookup listed
  rw [alone] at asked
  cases asked

end CrossPlan
