import CrossPlan.Proofs.Execution.Remains
import CrossPlan.Proofs.Json.Fields

/-!
# Names of fields

An operator that gets rows without repeated names puts out such rows again, unless it renames: then
it does so exactly if no two fields of a row end up with one name.  A row without repeated names is
the same in memory and as a JSON object, while of two fields with one name the first is read in
memory and the last from the object.
-/

set_option autoImplicit false

namespace CrossPlan

open Sequence RunStep

/-! ## Reading a field by its name -/

namespace Record

variable {row : Record}

def Distinct (row : Record) : Prop := row.names.Nodup

instance (row : Record) : Decidable row.Distinct := inferInstanceAs (Decidable row.names.Nodup)

/-- Each name has the same value in memory and in the JSON object, or is in neither. -/
def Agrees (row : Record) : Prop :=
  ∀ name, row.toJson.field? name = (row.get? name).map Scalar.toJson

/-- A JSON object is read from the last field of a name. -/
theorem field?_toJson (row : Record) (name : String) : row.toJson.field? name =
    (row.fields.reverse.find? (·.1 == name)).map fun field => field.2.toJson := by
  have found := Json.find?_sortFields name (row.fields.map fun field => (field.1, field.2.toJson))
  rw [← List.map_reverse, List.find?_map, Option.map_map] at found
  exact found

theorem agrees_of_distinct (distinct : row.Distinct) : row.Agrees := by
  intro name
  have backwards : (row.fields.reverse.map (·.1)).Nodup := by
    rw [List.map_reverse]
    exact List.nodup_reverse.mpr distinct
  have same : row.fields.reverse.find? (·.1 == name) = row.fields.find? (·.1 == name) := by
    ext field
    rw [Json.find?_eq_some_iff backwards, Json.find?_eq_some_iff distinct, List.mem_reverse]
  rw [field?_toJson, same, get?, Option.map_map]
  rfl

/-! ## Changing the fields of a row -/

theorem map_fst_setField (name : String) (value : Scalar) (fields : List (String × Scalar)) :
    (setField name value fields).map (·.1) =
      if name ∈ fields.map (·.1) then fields.map (·.1) else fields.map (·.1) ++ [name] := by
  induction fields with
  | nil => rfl
  | cons field rest ih =>
    unfold setField
    split
    · next same => simp [same]
    · next other =>
      rw [List.map_cons, ih]
      by_cases later : name ∈ rest.map (·.1)
      · rw [if_pos later, List.map_cons, if_pos (List.mem_cons_of_mem _ later)]
      · have absent : name ∉ field.1 :: rest.map (·.1) := by
          rw [List.mem_cons, not_or]
          exact ⟨Ne.symm other, later⟩
        rw [if_neg later, List.map_cons, if_neg absent, List.cons_append]

theorem distinct_set (distinct : row.Distinct) (name : String) (value : Scalar) :
    (row.set name value).Distinct := by
  change ((setField name value row.fields).map (·.1)).Nodup
  rw [map_fst_setField]
  split
  · exact distinct
  · next absent => exact List.nodup_append_comm.mp (List.nodup_cons.mpr ⟨absent, distinct⟩)

theorem distinct_project (columns : List String) (row : Record) :
    (row.project columns).Distinct := by
  refine foldl_keeps Distinct (fun column _ kept distinct => ?_) List.nodup_nil
  split
  · exact distinct_set distinct _ _
  · exact distinct

def renamed (renames : List (String × String)) (name : String) : String :=
  match renames.find? fun pair => pair.1 == name with
  | some (_, new) => new
  | none => name

def Apart (renames : List (String × String)) (row : Record) : Prop :=
  ∀ first ∈ row.names, ∀ second ∈ row.names,
    renamed renames first = renamed renames second → first = second

instance (renames : List (String × String)) (row : Record) : Decidable (row.Apart renames) :=
  inferInstanceAs (Decidable (∀ first ∈ row.names, _))

theorem names_rename (renames : List (String × String)) (row : Record) :
    (row.rename renames).names = row.names.map (renamed renames) := by
  unfold names rename
  rw [List.map_map, List.map_map]
  refine List.map_congr_left fun field _ => ?_
  unfold renamed
  rw [Function.comp_apply, Function.comp_apply]
  cases renames.find? fun pair => pair.1 == field.1 with
  | none => rfl
  | some pair => rfl

theorem distinct_rename_iff (distinct : row.Distinct) (renames : List (String × String)) :
    (row.rename renames).Distinct ↔ row.Apart renames := by
  rw [Distinct, names_rename]
  exact List.nodup_map_iff_inj_on distinct

end Record

namespace BoundAction

/-! ## Rows that operators put out -/

/-- An action puts out rows without repeated names, given such rows: those of a collection have
none, and renaming keeps the fields of each row apart. -/
def Separates (action : BoundAction) (taken : List Record) : Prop :=
  match action with
  | .collectionSource rows => ∀ row ∈ rows, row.Distinct
  | .map renames => ∀ row ∈ taken, row.Apart renames
  | _ => True

variable {α : Type} {action : BoundAction} {name : String} {platform : Platform}
  {inputs outputs : List Channel}

theorem flatten_of_partsOf {channel : Channel} {parts : List (List Record)}
    (held : partsOf channel = .ok parts) : parts.flatten = channel.content := by
  have found := mapError_ok_iff.mp held
  unfold Channel.parts at found
  unfold Channel.content
  cases same : channel.data with
  | empty => simp [same] at found
  | rows rows =>
    simp only [same, Except.ok.injEq] at found
    simp [← found]
  | parts parts =>
    simp only [same, Except.ok.injEq] at found
    rw [← found]

theorem mem_flatten_mapM {parts : List (List (List Record))}
    (held : inputs.mapM partsOf = .ok parts) {row : Record} (listed : row ∈ parts.flatten.flatten) :
    ∃ channel ∈ inputs, row ∈ channel.content := by
  obtain ⟨part, among, here⟩ := List.mem_flatten.mp listed
  obtain ⟨channelParts, present, among'⟩ := List.mem_flatten.mp among
  obtain ⟨channel, taken, same⟩ := mem_right (mapM_ok_iff.mp held) present
  refine ⟨channel, taken, ?_⟩
  rw [← flatten_of_partsOf same]
  exact List.mem_flatten.mpr ⟨part, among', here⟩

theorem distinct_of_transform {parts : List (List Record)} {rowsRead : Nat}
    (success : action.transform name inputs = .ok (parts, rowsRead))
    (reading : ∀ rows, action ≠ .collectionSource rows)
    (distinct : ∀ channel ∈ inputs, ∀ row ∈ channel.content, row.Distinct) :
    (∀ row ∈ parts.flatten, row.Distinct) ↔ action.Separates (inputs.flatMap Channel.content) := by
  obtain ⟨expected, success⟩ := seq_ok_iff.mp success
  cases action with
  | collectionSource rows => exact absurd rfl (reading rows)
  | filter predicate slots number =>
    obtain ⟨members, -, success⟩ := bind_ok_iff.mp success
    obtain ⟨parts, found, success⟩ := bind_ok_iff.mp success
    cases success
    cases inputs with
    | nil => cases found
    | cons channel rest =>
      refine iff_of_true (fun row kept => ?_) trivial
      rw [← List.filter_flatten, flatten_of_partsOf found] at kept
      exact distinct channel List.mem_cons_self row (List.mem_filter.mp kept).1
  | filterProject predicate columns =>
    obtain ⟨parts, found, success⟩ := bind_ok_iff.mp success
    cases success
    refine iff_of_true (fun row made => ?_) trivial
    simp only [List.mem_flatten, List.mem_map] at made
    obtain ⟨_, ⟨part, -, rfl⟩, here⟩ := made
    obtain ⟨other, -, rfl⟩ := List.mem_map.mp here
    exact Record.distinct_project columns other
  | map renames =>
    obtain ⟨parts, found, success⟩ := bind_ok_iff.mp success
    cases success
    obtain ⟨channel, rfl⟩ : ∃ channel, inputs = [channel] := by
      unfold expectInputs at expected
      split at expected
      · next count => exact List.length_eq_one_iff.mp count
      · cases expected
    have same := flatten_of_partsOf found
    rw [← List.map_flatten, same, List.forall_mem_map, Separates, List.flatMap_singleton]
    exact forall₂_congr fun row listed =>
      Record.distinct_rename_iff (distinct channel List.mem_cons_self row listed) renames
  | project columns =>
    obtain ⟨parts, found, success⟩ := bind_ok_iff.mp success
    cases success
    refine iff_of_true (fun row made => ?_) trivial
    rw [← List.map_flatten] at made
    obtain ⟨other, -, rfl⟩ := List.mem_map.mp made
    exact Record.distinct_project columns other
  | _ =>
    obtain ⟨gathered, held, success⟩ := bind_ok_iff.mp success
    cases success
    refine iff_of_true (fun row listed => ?_) trivial
    obtain ⟨channel, taken, here⟩ := mem_flatten_mapM held listed
    exact distinct channel taken row here

variable {context : TaskContext α} {workspace after : Workspace} {evaluation : Evaluation α}

/-- An operator that is no sink fills its output with rows without repeated names exactly if its
action separates them. -/
theorem distinct_of_evaluate
    (success : action.evaluate name platform context inputs outputs workspace =
      .ok (evaluation, after)) (giving : ∀ destination, action ≠ .sink destination)
    (distinct : ∀ channel ∈ inputs, ∀ row ∈ channel.content, row.Distinct) :
    ∃ made rest, evaluation.produced = made :: rest ∧
      ((∀ row ∈ made.content, row.Distinct) ↔
        action.Separates (inputs.flatMap Channel.content)) := by
  have fills : ∀ {parts : List (List Record)} {produced : List Channel},
      fillOutput name parts outputs = .ok produced →
      ((∀ row ∈ parts.flatten, row.Distinct) ↔
        action.Separates (inputs.flatMap Channel.content)) →
      ∃ made rest, produced = made :: rest ∧ ((∀ row ∈ made.content, row.Distinct) ↔
        action.Separates (inputs.flatMap Channel.content)) := by
    intro parts produced filled same
    cases outputs with
    | nil => cases filled
    | cons output rest =>
      cases filled
      exact ⟨_, rest, rfl, by rwa [Channel.content_acceptParts]⟩
  cases action with
  | collectionSource rows =>
    obtain ⟨produced, filled, success⟩ := bind_ok_iff.mp success
    cases success
    refine fills filled ?_
    simp only [(sourceParts_perm platform context.parallelism rows).mem_iff, Separates]
  | textSource url =>
    obtain ⟨rows, lines, success⟩ := bind_ok_iff.mp success
    obtain ⟨produced, filled, success⟩ := bind_ok_iff.mp success
    cases success
    refine fills filled (iff_of_true (fun row listed => ?_) trivial)
    unfold readLines at lines
    split at lines
    · cases lines
    · cases lines
      rw [(sourceParts_perm platform context.parallelism _).mem_iff] at listed
      obtain ⟨line, -, rfl⟩ := List.mem_map.mp listed
      exact List.nodup_singleton "line"
  | sink destination => exact absurd rfl (giving destination)
  | _ =>
    obtain ⟨⟨parts, rowsRead⟩, transformed, success⟩ := bind_ok_iff.mp success
    obtain ⟨produced, filled, success⟩ := bind_ok_iff.mp success
    cases success
    exact fills filled (distinct_of_transform transformed nofun distinct)

end BoundAction

/-! ## Rows that reach a task -/

def Turn.rows {α : Type} (turn : Turn α) : List Record := turn.taken.flatMap Channel.content

namespace RunStep

variable {α : Type} {settings : RunSettings α} {plan : ExecutionPlan α} {task : CrossPlan.Task α}
  {before after : RunState α} {turn : Turn α} {action : CrossPlan.Task α → BoundAction}

theorem Turned.distinct_rows (turned : Turned settings plan task before turn after)
    (acts : ∃ name platform epoch, task.operator = (action task).toOperator name platform epoch)
    (waiting : ∀ entry ∈ before.pending, ∀ row ∈ entry.2.content, row.Distinct)
    (separates : (action task).Separates turn.rows) :
    (∀ row ∈ turn.rows, row.Distinct) ∧
      ∀ entry ∈ after.pending, ∀ row ∈ entry.2.content, row.Distinct := by
  have took : ∀ channel ∈ turn.taken, ∀ row ∈ channel.content, row.Distinct := by
    intro channel taken
    obtain ⟨slot, -, waits, -⟩ := mem_right turned.taken taken
    exact waiting _ waits
  refine ⟨fun row listed => ?_, fun entry waits => ?_⟩
  · obtain ⟨channel, taken, here⟩ := List.mem_flatMap.mp listed
    exact took channel taken row here
  · rw [turned.pending] at waits
    rcases List.mem_append.mp waits with old | new
    · exact waiting entry (List.mem_filter.mp old).1
    · obtain ⟨connection, joined, channel, made, -, delivered⟩ := mem_right turned.sent new
      obtain ⟨junction, outlet, target⟩ := List.mem_flatMap.mp joined
      obtain ⟨_, -, rfl⟩ := List.mem_map.mp target
      obtain ⟨slot, within, found⟩ := ExecutionPlan.mem_outlets.mp outlet
      rw [ExecutionPlan.producer_of_junctionFrom? found] at made
      obtain ⟨name, platform, epoch, same⟩ := acts
      have evaluated := turned.evaluated
      rw [same] at evaluated within
      -- a sink has no outputs, and every other operator one
      have giving : ∀ destination, action task ≠ .sink destination := by
        intro destination sink
        rw [sink] at within
        exact absurd within (Nat.not_lt_zero slot)
      have single : (action task).outputs = 1 := by
        cases kind : action task with
        | sink destination => exact absurd kind (giving destination)
        | _ => rfl
      obtain rfl : slot = 0 := Nat.lt_one_iff.mp (single ▸ within)
      obtain ⟨first, rest, produced, apart⟩ :=
        BoundAction.distinct_of_evaluate evaluated giving took
      have here := List.mk_mem_zipIdx_iff_getElem?.mp made
      rw [produced, List.getElem?_cons_zero, Option.some.injEq] at here
      subst here
      intro row listed
      exact apart.mpr separates row (delivered.content.mem_iff.mp listed)

/-- Tasks with built-in operators take rows without repeated names, as long as the actions of the
tasks separate them. -/
theorem distinct_of_turns [Quantity α] {numbers : List Nat} {turns : List (Turn α)}
    {state : RunState α} {workspace : Workspace} (acting : Acting plan.tasks action)
    (told : (RunStep.turns settings plan numbers).run.run (ExecutionPlan.start workspace) =
      (.ok turns, state))
    (separates : ∀ turn ∈ turns, (action turn.task).Separates turn.rows) :
    ∀ turn ∈ turns, ∀ row ∈ turn.rows, row.Distinct := by
  have returns : ∀ task ∈ plan.tasks, task.operator.Returns := by
    intro task listed
    obtain ⟨name, platform, epoch, same⟩ := acting task listed
    exact same ▸ BoundAction.returns _ _ _ _
  refine (Leads.of_run (yields_turns returns (fun _ turns state =>
    (∀ turn ∈ turns, (action turn.task).Separates turn.rows) →
      (∀ turn ∈ turns, ∀ row ∈ turn.rows, row.Distinct) ∧
        ∀ entry ∈ state.pending, ∀ row ∈ entry.2.content, row.Distinct) ?_ ?_) told separates).1
  · exact fun _ => ⟨by simp, by simp [ExecutionPlan.start]⟩
  · intro done number ahead task turns turn before after _ found held turned separates
    rw [List.forall_mem_append, List.forall_mem_singleton] at separates
    rw [turned.own] at separates
    obtain ⟨earlier, waiting⟩ := held separates.1
    obtain ⟨here, later⟩ := turned.distinct_rows (acting task (List.mem_of_getElem? found)) waiting
      separates.2
    exact ⟨List.forall_mem_append.mpr ⟨earlier, List.forall_mem_singleton.mpr here⟩, later⟩

end RunStep

/-- Operators that are no sinks, given rows without repeated names, put out such rows exactly if
their actions separate them: all do but those that rename two fields of a row to one name, or begin
with a collection whose rows have repeated names.  Where no operator of a run does that, every task
takes rows without repeated names, and these are the same in memory and as JSON objects. -/
theorem distinct_iff_separates {α : Type} [Quantity α] :
    (∀ (action : BoundAction) (name : String) (platform : Platform) (context : TaskContext α)
      (inputs outputs : List Channel) (workspace after : Workspace) (evaluation : Evaluation α),
      action.evaluate name platform context inputs outputs workspace = .ok (evaluation, after) →
      (∀ destination, action ≠ .sink destination) →
      (∀ channel ∈ inputs, ∀ row ∈ channel.content, row.Distinct) →
      ∃ made rest, evaluation.produced = made :: rest ∧
        ((∀ row ∈ made.content, row.Distinct) ↔
          action.Separates (inputs.flatMap Channel.content))) ∧
    ∀ (plan : ExecutionPlan α) (action : Task α → BoundAction) (settings : RunSettings α)
      (workspace : Workspace) (numbers : List Nat) (turns : List (Turn α)) (state : RunState α),
      Acting plan.tasks action →
      (RunStep.turns settings plan numbers).run.run (ExecutionPlan.start workspace) =
        (.ok turns, state) →
      (∀ turn ∈ turns, (action turn.task).Separates turn.rows) →
      ∀ turn ∈ turns, ∀ row ∈ turn.rows, row.Distinct ∧ row.Agrees := by
  constructor
  · intro action name platform context inputs outputs workspace after evaluation success giving
    exact BoundAction.distinct_of_evaluate success giving
  · intro plan action settings workspace numbers turns state acting told separates turn had row
      taken
    have distinct := distinct_of_turns acting told separates turn had row taken
    exact ⟨distinct, Record.agrees_of_distinct distinct⟩

def pairRow : Record := ⟨[("a", .int 1), ("b", .int 2)]⟩

/-- Renaming `a` to `b` in a row that has both puts out a row with a repeated name.  Before the
failure of the broken plan, all tasks take rows without repeated names. -/
theorem distinct_iff_separates_collision :
    (∃ (context : TaskContext Rat) (evaluation : Evaluation Rat) (made : Channel)
      (rest : List Channel),
      (BoundAction.map (parseRenames "a AS b")).evaluate "m" .inProcess context
        [(Channel.create 1 .stream 9).acceptRows [pairRow]] [.create 2 .stream 0] .empty =
          .ok (evaluation, .empty) ∧
      evaluation.produced = made :: rest ∧ ¬ ∀ row ∈ made.content, row.Distinct) ∧
    ∃ turns state,
      (RunStep.turns ⟨1, fun _ _ => 0⟩ ExecutionPlan.brokenPlan [0, 1]).run.run
        (ExecutionPlan.start .empty) = (.ok turns, state) ∧
      ∀ turn ∈ turns, ∀ row ∈ turn.rows, row.Distinct ∧ row.Agrees := by
  constructor
  · have renames : parseRenames "a AS b" = [("a", "b")] := by decide +kernel
    obtain ⟨context⟩ : Nonempty (TaskContext Rat) :=
      ⟨⟨0, "m", "", "", none, none, fun _ => 0, 4⟩⟩
    obtain ⟨evaluation, success⟩ : ∃ evaluation, (BoundAction.map [("a", "b")]).evaluate "m"
        .inProcess context [(Channel.create 1 .stream 9).acceptRows [pairRow]]
        [.create 2 .stream 0] .empty = .ok (evaluation, .empty) := ⟨_, rfl⟩
    have distinct : ∀ channel ∈ [(Channel.create 1 .stream 9).acceptRows [pairRow]],
        ∀ row ∈ channel.content, row.Distinct := by decide
    obtain ⟨made, rest, produced, same⟩ :=
      distinct_iff_separates.1 _ _ _ _ _ _ _ _ _ success nofun distinct
    rw [renames]
    refine ⟨context, evaluation, made, rest, success, produced, ?_⟩
    rw [same]
    change ¬ ∀ row ∈ [pairRow], row.Apart [("a", "b")]
    decide
  · cases told : (RunStep.turns ⟨1, fun _ _ => 0⟩ ExecutionPlan.brokenPlan [0, 1]).run.run
        (ExecutionPlan.start .empty) with
    | mk result state =>
      have ended : ((RunStep.turns ⟨1, fun _ _ => 0⟩ ExecutionPlan.brokenPlan [0, 1]).run.run
        (ExecutionPlan.start .empty)).1.isOk = true := by decide +kernel
      rw [told] at ended
      cases result with
      | error _ => cases ended
      | ok turns =>
        refine ⟨turns, state, rfl, ?_⟩
        have among := ((yields_evaluations [0, 1]).of_run told).1
        refine distinct_iff_separates.2 ExecutionPlan.brokenPlan ExecutionPlan.brokenAction _ _ _ _
          _ ExecutionPlan.broken_bound told fun turn had => ?_
        have each : ∀ task ∈ ExecutionPlan.brokenTasks,
            ∀ rows, (ExecutionPlan.brokenAction task).Separates rows := by
          simp only [ExecutionPlan.brokenTasks, List.forall_mem_cons, List.not_mem_nil,
            false_implies, implies_true, and_true]
          refine ⟨fun rows row listed => ?_, fun _ => trivial, fun _ => trivial, fun _ => trivial⟩
          rw [List.mem_singleton.mp listed]
          exact List.nodup_singleton "n"
        exact each _ (among turn had) _

end CrossPlan
