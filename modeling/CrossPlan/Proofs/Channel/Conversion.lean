import CrossPlan.Proofs.Channel.Content
import CrossPlan.Proofs.Sequence
import Mathlib.Data.List.Induction
import Mathlib.Data.Nat.Basic
import Mathlib.Order.Basic

/-!
# What channels keep

A channel starts empty and is then filled, copied, marked and converted in any order.  It holds
parts exactly when its form is partitioned, and reads the same as rows and as parts.  A conversion
keeps the rows and where they came from.  Only dealing rows to parts changes their order: row `i`
goes to place `i / n` of part `i mod n`, so that the parts read in turn give the rows back.
-/

set_option autoImplicit false

namespace CrossPlan

/-- The rows of some parts in turn: the first one of each part, then the second one of each. -/
def inTurn (parts : List (List Record)) : List Record :=
  (List.range ((parts.map List.length).max?.getD 0)).flatMap fun turn =>
    parts.filterMap (·[turn]?)

/-- Rows that stand in the parts as they were dealt in turn, to all parts alike. -/
structure Dealt (count : Nat) (rows : List Record) (parts : List (List Record)) : Prop where
  length : parts.length = count
  place : ∀ index row, rows[index]? = some row →
    ∃ part, parts[index % count]? = some part ∧ part[index / count]? = some row
  inTurn : inTurn parts = rows
  even : ∀ part ∈ parts, ∀ other ∈ parts, part.length ≤ other.length + 1

/-! ## Dealing rows in turn -/

section Dealing

def dealtTo (count part : Nat) (rows : List Record) : List Record :=
  (rows.zipIdx.filter fun entry => entry.2 % count == part).map (·.1)

variable {count part : Nat} {rows : List Record}

theorem dealRows_eq (rows : List Record) (count : Nat) :
    dealRows rows count =
      (List.range (max 1 count)).map fun part => dealtTo (max 1 count) part rows :=
  rfl

theorem dealtTo_append (count part : Nat) (rows : List Record) (row : Record) :
    dealtTo count part (rows ++ [row]) =
      dealtTo count part rows ++ if rows.length % count = part then [row] else [] := by
  by_cases here : rows.length % count = part <;> simp [dealtTo, List.zipIdx_append, here]

/-- The rows of a part are every so many of all rows. -/
theorem getElem?_dealtTo (within : part < count) (rows : List Record) (turn : Nat) :
    (dealtTo count part rows)[turn]? = rows[turn * count + part]? := by
  induction rows using List.reverseRecOn generalizing turn with
  | nil => rfl
  | append_singleton rows row ih =>
    have reach : ∀ turn, (dealtTo count part rows).length ≤ turn ↔
        rows.length ≤ turn * count + part := by
      intro turn
      rw [← List.getElem?_eq_none_iff, ih, List.getElem?_eq_none_iff]
    rw [dealtTo_append]
    split
    · next here =>
      -- the row comes to the part when that holds just the rows of the turns before
      have whole := Nat.div_add_mod' rows.length count
      rw [here] at whole
      have order : ∀ turn, rows.length / count ≤ turn ↔ rows.length ≤ turn * count + part := by
        intro turn
        rw [← whole, Nat.add_le_add_iff_right, Nat.mul_le_mul_right_iff (by omega), whole]
      have length : (dealtTo count part rows).length = rows.length / count :=
        eq_of_forall_ge_iff fun turn => (reach turn).trans (order turn).symm
      rcases lt_trichotomy turn (rows.length / count) with early | rfl | late
      · have short := not_le.mp (mt (order turn).mpr early.not_ge)
        rw [List.getElem?_append_left (length ▸ early), List.getElem?_append_left short, ih]
      · rw [whole, ← length, List.getElem?_concat_length, List.getElem?_concat_length]
      · have long : rows.length < turn * count + part := by
          rw [← whole, Nat.add_lt_add_iff_right]
          exact Nat.mul_lt_mul_of_pos_right late (by omega)
        rw [List.getElem?_eq_none_iff.mpr (by simp [length]; omega),
          List.getElem?_eq_none_iff.mpr (by simp; omega)]
    · next elsewhere =>
      have other : turn * count + part ≠ rows.length := by
        intro same
        rw [← same, Nat.mul_add_mod', Nat.mod_eq_of_lt within] at elsewhere
        exact elsewhere rfl
      rw [List.append_nil, ih]
      rcases lt_or_gt_of_ne other with short | long
      · rw [List.getElem?_append_left short]
      · rw [List.getElem?_eq_none_iff.mpr long.le, List.getElem?_eq_none_iff.mpr (by simp; omega)]

theorem length_dealtTo_le (within : part < count) (rows : List Record) {turn : Nat} :
    (dealtTo count part rows).length ≤ turn ↔ rows.length ≤ turn * count + part := by
  rw [← List.getElem?_eq_none_iff, getElem?_dealtTo within, List.getElem?_eq_none_iff]

theorem length_dealtTo_even {other : Nat} (within : part < count) (within' : other < count) :
    (dealtTo count part rows).length ≤ (dealtTo count other rows).length + 1 := by
  have reach := (length_dealtTo_le within' rows).mp le_rfl
  rw [length_dealtTo_le within, Nat.add_mul, Nat.one_mul]
  omega

theorem filterMap_getElem?_range (rows : List Record) (count : Nat) :
    (List.range count).filterMap (rows[·]?) = rows.take count := by
  induction count with
  | zero => rfl
  | succ count ih =>
    rw [List.range_succ, List.filterMap_append, ih, List.take_add_one]
    cases found : rows[count]? <;> simp [found]

/-- The rows of one turn follow each other among all rows. -/
theorem filterMap_dealRows (rows : List Record) (count turn : Nat) :
    (dealRows rows count).filterMap (·[turn]?) =
      (rows.drop (turn * max 1 count)).take (max 1 count) := by
  rw [dealRows_eq, List.filterMap_map, ← filterMap_getElem?_range]
  refine List.filterMap_congr fun part among => ?_
  rw [List.getElem?_drop]
  exact getElem?_dealtTo (List.mem_range.mp among) rows turn

theorem flatMap_take_drop (rows : List Record) (count turns : Nat) :
    ((List.range turns).flatMap fun turn => (rows.drop (turn * count)).take count) =
      rows.take (turns * count) := by
  induction turns with
  | zero => simp
  | succ turns ih =>
    rw [List.range_succ, List.flatMap_append, ih, List.flatMap_singleton, Nat.succ_mul,
      List.take_add]

theorem inTurn_dealRows (rows : List Record) (count : Nat) :
    inTurn (dealRows rows count) = rows := by
  have positive : 0 < max 1 count := by omega
  -- the first part is dealt to in every turn
  have first : dealtTo (max 1 count) 0 rows ∈ dealRows rows count :=
    List.mem_map.mpr ⟨0, List.mem_range.mpr positive, rfl⟩
  have longest := List.le_max?_getD_of_mem (k := 0) (List.mem_map_of_mem (f := List.length) first)
  have enough := (length_dealtTo_le positive rows).mp longest
  simp only [inTurn, filterMap_dealRows, flatMap_take_drop]
  exact List.take_of_length_le enough

theorem dealt_dealRows (rows : List Record) (count : Nat) :
    Dealt (max 1 count) rows (dealRows rows count) where
  length := by rw [dealRows_eq, List.length_map, List.length_range]
  place index row found := by
    have within : index % max 1 count < max 1 count := Nat.mod_lt _ (by omega)
    refine ⟨dealtTo (max 1 count) (index % max 1 count) rows, ?_, ?_⟩
    · rw [dealRows_eq, List.getElem?_map, List.getElem?_range within]
      rfl
    · rw [getElem?_dealtTo within, Nat.div_add_mod', found]
  inTurn := inTurn_dealRows rows count
  even := by
    simp only [dealRows_eq, List.forall_mem_map, List.mem_range]
    exact fun part within other within' => length_dealtTo_even within within'

end Dealing

/-! ## Channels that are filled, copied, marked and converted -/

namespace Channel

/-- A channel that comes from a new one by filling, copying, marking and converting. -/
inductive Reached : Channel → Prop
  | create (id : Nat) (form : Form) (producer : Nat) : Reached (create id form producer)
  | acceptRows {channel : Channel} (reached : Reached channel) (rows : List Record) :
      Reached (channel.acceptRows rows)
  | acceptParts {channel : Channel} (reached : Reached channel) (parts : List (List Record)) :
      Reached (channel.acceptParts parts)
  | withLineage {channel : Channel} (reached : Reached channel) (node : Nat) :
      Reached (channel.withLineage node)
  | duplicate {channel : Channel} (reached : Reached channel) (id : Nat) :
      Reached (channel.duplicate id)
  | convert {channel converted : Channel} (reached : Reached channel) {conversion : Conversion}
      {id parallelism : Nat} (success : channel.convert conversion id parallelism = .ok converted) :
      Reached converted

def Shaped (channel : Channel) : Prop :=
  channel.produced = true →
    ((∃ parts, channel.data = .parts parts) ↔ channel.form = .partitioned)

/-- What a conversion makes of a channel: all rows in order, unless they are dealt to parts. -/
structure Converts (conversion : Conversion) (id parallelism : Nat)
    (before after : Channel) : Prop where
  id : after.id = id
  form : after.form = conversion.target
  producer : after.producer = before.producer
  lineage : after.lineage = before.lineage
  rows : ∃ held kept, before.rows = .ok held ∧ after.rows = .ok kept ∧ kept.Perm held ∧
    (conversion ≠ .parallelize → kept = held) ∧
    (conversion = .parallelize →
      ∃ parts, after.parts = .ok parts ∧ Dealt (max 1 parallelism) held parts)

/-- What filling makes of a channel: it is told in parts, which only the partitioned form keeps
apart. -/
structure Fills (parts : List (List Record)) (before after : Channel) : Prop where
  id : after.id = before.id
  form : after.form = before.form
  producer : after.producer = before.producer
  lineage : after.lineage = before.lineage
  rows : after.rows = .ok parts.flatten
  parts : after.parts = .ok (if before.form = .partitioned then parts else [parts.flatten])

/-- What copying or marking leaves of a channel; what is missing is missing under the new number. -/
structure Carries (id : Nat) (lineage : Option Nat) (before after : Channel) : Prop where
  id : after.id = id
  form : after.form = before.form
  producer : after.producer = before.producer
  lineage : after.lineage = lineage
  rows : after.rows = before.rows.mapError fun _ => after.unproduced
  parts : after.parts = before.parts.mapError fun _ => after.unproduced

variable {channel converted : Channel} {conversion : Conversion} {id parallelism : Nat}

theorem acceptRows_eq (channel : Channel) (rows : List Record) :
    channel.acceptRows rows = channel.acceptParts [rows] := by
  unfold acceptRows acceptParts
  cases channel.form <;> simp

theorem shaped_acceptParts (channel : Channel) (parts : List (List Record)) :
    (channel.acceptParts parts).Shaped := by
  intro _
  unfold acceptParts
  cases same : channel.form <;> simp

theorem shaped_acceptRows (channel : Channel) (rows : List Record) :
    (channel.acceptRows rows).Shaped :=
  acceptRows_eq channel rows ▸ shaped_acceptParts channel [rows]

def emptied (channel : Channel) (conversion : Conversion) (id : Nat) : Channel :=
  { create id conversion.target channel.producer with lineage := channel.lineage }

theorem convert_ok_iff : channel.convert conversion id parallelism = .ok converted ↔
    conversion.source = channel.form ∧ ∃ held, channel.rows = .ok held ∧
      converted = if conversion = .parallelize
        then (channel.emptied conversion id).acceptParts (dealRows held parallelism)
        else (channel.emptied conversion id).acceptRows held := by
  unfold convert
  by_cases same : conversion.source = channel.form
  · rw [if_neg (not_not.mpr same), and_iff_right same]
    cases channel.rows with
    | error fault => simp [bind, Except.bind]
    | ok held =>
      rw [Sequence.ok_bind]
      cases conversion <;> simp [emptied, pure, Except.pure, Conversion.target, eq_comm]
  · simp [same]

theorem exists_rows_iff : (∃ held, channel.rows = .ok held) ↔ channel.produced = true := by
  constructor
  · rintro ⟨held, success⟩
    unfold rows at success
    unfold produced
    cases same : channel.data <;> simp_all
  · intro produced
    exact ⟨_, rows_ok produced⟩

theorem exists_convert_iff :
    (∃ converted, channel.convert conversion id parallelism = .ok converted) ↔
      conversion.source = channel.form ∧ channel.produced = true := by
  simp only [convert_ok_iff, ← exists_rows_iff]
  constructor
  · rintro ⟨_, fits, held, success, -⟩
    exact ⟨fits, held, success⟩
  · rintro ⟨fits, held, success⟩
    exact ⟨_, fits, held, success, rfl⟩

theorem shaped_convert (success : channel.convert conversion id parallelism = .ok converted) :
    converted.Shaped := by
  obtain ⟨-, held, -, rfl⟩ := convert_ok_iff.mp success
  split
  · exact shaped_acceptParts _ _
  · exact shaped_acceptRows _ _

theorem Reached.shaped (reached : Reached channel) : channel.Shaped := by
  induction reached with
  | create id form producer => intro produced; cases produced
  | acceptRows _ rows => exact shaped_acceptRows _ rows
  | acceptParts _ parts => exact shaped_acceptParts _ parts
  | withLineage _ node ih => exact ih
  | duplicate _ id ih => exact ih
  | convert _ success => exact shaped_convert success

/-- Rows are the rows of all parts, or both are missing for the same reason. -/
theorem rows_eq_parts (channel : Channel) : channel.rows = channel.parts.map List.flatten := by
  unfold rows parts
  cases channel.data <;> simp [Except.map]

theorem length_of_rows {held : List Record} (success : channel.rows = .ok held) :
    channel.cardinality = held.length := by
  have produced := exists_rows_iff.mp ⟨held, success⟩
  rw [rows_ok produced] at success
  cases success
  rfl

theorem rows_acceptParts (channel : Channel) (parts : List (List Record)) :
    (channel.acceptParts parts).rows = .ok parts.flatten := by
  rw [rows_ok (produced_acceptParts parts), content_acceptParts]

theorem rows_acceptRows (channel : Channel) (rows : List Record) :
    (channel.acceptRows rows).rows = .ok rows := by
  rw [acceptRows_eq, rows_acceptParts, List.flatten_singleton]

theorem parts_acceptParts (channel : Channel) (parts : List (List Record)) :
    (channel.acceptParts parts).parts =
      .ok (if channel.form = .partitioned then parts else [parts.flatten]) := by
  unfold acceptParts Channel.parts
  cases channel.form <;> rfl

theorem fills_acceptParts (channel : Channel) (parts : List (List Record)) :
    Fills parts channel (channel.acceptParts parts) :=
  ⟨rfl, rfl, rfl, rfl, rows_acceptParts channel parts, parts_acceptParts channel parts⟩

theorem fills_acceptRows (channel : Channel) (rows : List Record) :
    Fills [rows] channel (channel.acceptRows rows) :=
  acceptRows_eq channel rows ▸ fills_acceptParts channel [rows]

/-- Readers look at nothing but the data, save for the error. -/
theorem carries_of_data (after : Channel) (data : after.data = channel.data)
    (form : after.form = channel.form) (producer : after.producer = channel.producer) :
    Carries after.id after.lineage channel after where
  id := rfl
  form := form
  producer := producer
  lineage := rfl
  rows := by
    unfold rows
    rw [data]
    cases channel.data <;> rfl
  parts := by
    unfold parts
    rw [data]
    cases channel.data <;> rfl

theorem carries_duplicate (channel : Channel) (id : Nat) :
    Carries id channel.lineage channel (channel.duplicate id) :=
  carries_of_data (channel.duplicate id) rfl rfl rfl

theorem carries_withLineage (channel : Channel) (node : Nat) :
    Carries channel.id (some node) channel (channel.withLineage node) :=
  carries_of_data (channel.withLineage node) rfl rfl rfl

theorem converts_of_convert
    (success : channel.convert conversion id parallelism = .ok converted) :
    Converts conversion id parallelism channel converted := by
  obtain ⟨-, held, before, rfl⟩ := convert_ok_iff.mp success
  split
  · next dealt =>
    subst dealt
    refine ⟨rfl, rfl, rfl, rfl, held, _, before, rows_acceptParts _ _, dealRows_perm held _,
      fun other => absurd rfl other, fun _ => ⟨_, rfl, dealt_dealRows held parallelism⟩⟩
  · next other =>
    exact ⟨rfl, rfl, rfl, rfl, held, held, before, rows_acceptRows _ _, .refl _, fun _ => rfl,
      fun dealt => absurd dealt other⟩

/-- Whatever was done to a channel, it is of the shape of its form and reads the same as rows and as
parts.  Filling replaces what it holds, copying and marking keep that.  It can be converted exactly
from its own form and once it is filled, and a conversion keeps its rows and where they came from. -/
theorem keeps_of_reached (reached : Reached channel) :
    channel.Shaped ∧
    channel.rows = channel.parts.map List.flatten ∧
    (∀ held, channel.rows = .ok held → channel.cardinality = held.length) ∧
    (∀ rows, Fills [rows] channel (channel.acceptRows rows)) ∧
    (∀ parts, Fills parts channel (channel.acceptParts parts)) ∧
    (∀ id, Carries id channel.lineage channel (channel.duplicate id)) ∧
    (∀ node, Carries channel.id (some node) channel (channel.withLineage node)) ∧
    ∀ conversion id parallelism,
      ((∃ converted, channel.convert conversion id parallelism = .ok converted) ↔
        conversion.source = channel.form ∧ channel.produced = true) ∧
      ∀ converted, channel.convert conversion id parallelism = .ok converted →
        Converts conversion id parallelism channel converted :=
  ⟨reached.shaped, rows_eq_parts channel, fun _ => length_of_rows, fills_acceptRows channel,
    fills_acceptParts channel, carries_duplicate channel, carries_withLineage channel,
    fun _ _ _ => ⟨exists_convert_iff, fun _ => converts_of_convert⟩⟩

def five : Channel :=
  (create 0 .collection 7).acceptRows ((List.range 5).map fun n => ⟨[("n", .int n)]⟩)

theorem keeps_of_reached_five : Reached five ∧
    Carries 3 none five (five.duplicate 3) ∧
    ∃ converted, five.convert .parallelize 1 2 = .ok converted ∧
      Converts .parallelize 1 2 five converted := by
  have reached : Reached five := (Reached.create 0 .collection 7).acceptRows _
  obtain ⟨-, -, -, -, -, copies, -, conversions⟩ := keeps_of_reached reached
  obtain ⟨fits, converts⟩ := conversions .parallelize 1 2
  obtain ⟨converted, success⟩ := fits.mpr ⟨rfl, rfl⟩
  exact ⟨reached, copies 3, converted, success, converts converted success⟩

end Channel

end CrossPlan
