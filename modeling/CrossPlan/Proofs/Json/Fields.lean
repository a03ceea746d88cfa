import CrossPlan.Proofs.Sequence
import CrossPlan.Table
import Mathlib.Data.List.Induction
import Mathlib.Data.String.Basic

/-!
# Fields in the order of their names

Sorting the fields of an object leaves one field of each name, the last one, and the names ascend
strictly.  Fields that ascend already stay as they are.
-/

set_option autoImplicit false

namespace CrossPlan.Json

open Sequence

variable {β : Type} {fields rows : List (String × β)} {name : String} {value : β}

theorem find?_eq_some_iff (distinct : (fields.map (·.1)).Nodup) {field : String × β} :
    fields.find? (·.1 == name) = some field ↔ field ∈ fields ∧ field.1 = name := by
  constructor
  · intro found
    have named := List.find?_some found
    exact ⟨List.mem_of_find?_eq_some found, eq_of_beq named⟩
  · rintro ⟨present, rfl⟩
    have some : (fields.find? (·.1 == field.1)).isSome = true :=
      List.find?_isSome.mpr ⟨field, present, beq_self_eq_true _⟩
    obtain ⟨other, found⟩ := Option.isSome_iff_exists.mp some
    have named := List.find?_some found
    rw [found, List.inj_on_of_nodup_map distinct (List.mem_of_find?_eq_some found) present
      (eq_of_beq named)]

/-! ## Putting a field in its place -/

theorem mem_putField {next : String} (listed : next ∈ (putField name value rows).map (·.1)) :
    next = name ∨ next ∈ rows.map (·.1) := by
  induction rows with
  | nil => exact .inl (List.mem_singleton.mp listed)
  | cons row rest ih =>
    unfold putField at listed
    split at listed
    · next same =>
      subst same
      exact .inr listed
    · split at listed
      · exact List.mem_cons.mp listed
      · rcases List.mem_cons.mp listed with same | behind
        · exact .inr (same ▸ List.mem_cons_self)
        · exact (ih behind).imp_right (List.mem_cons_of_mem _)

theorem pairwise_putField (name : String) (value : β)
    (sorted : (rows.map (·.1)).Pairwise (· < ·)) :
    ((putField name value rows).map (·.1)).Pairwise (· < ·) := by
  induction rows with
  | nil => exact List.pairwise_singleton _ _
  | cons row rest ih =>
    obtain ⟨other, old⟩ := row
    obtain ⟨first, later⟩ := List.pairwise_cons.mp sorted
    unfold putField
    split
    · next same => exact same ▸ sorted
    · next differs =>
      split
      · next less =>
        refine List.pairwise_cons.mpr ⟨?_, sorted⟩
        rintro next listed
        rcases List.mem_cons.mp listed with rfl | behind
        · exact less
        · exact less.trans (first next behind)
      · next notLess =>
        have greater : other < name := (lt_or_gt_of_ne differs).resolve_left notLess
        refine List.pairwise_cons.mpr ⟨fun next listed => ?_, ih later⟩
        rcases mem_putField listed with rfl | behind
        · exact greater
        · exact first next behind

theorem putField_of_greater (greater : ∀ row ∈ rows, row.1 < name) :
    putField name value rows = rows ++ [(name, value)] := by
  induction rows with
  | nil => rfl
  | cons row rest ih =>
    obtain ⟨less, greater⟩ := List.forall_mem_cons.mp greater
    rw [putField, if_neg less.ne', if_neg less.asymm, ih greater, List.cons_append]

/-! ## Sorting -/

theorem sortFields_concat (fields : List (String × β)) (field : String × β) :
    sortFields (fields ++ [field]) = putField field.1 field.2 (sortFields fields) := by
  simp only [sortFields, List.foldl_append, List.foldl_cons, List.foldl_nil]

/-- Of several fields with one name the last stays. -/
theorem find?_sortFields (name : String) (fields : List (String × β)) :
    ((sortFields fields).find? (·.1 == name)).map (·.2) =
      (fields.reverse.find? (·.1 == name)).map (·.2) := by
  induction fields using List.reverseRecOn with
  | nil => rfl
  | append_singleton fields field ih =>
    rw [sortFields_concat, Table.find?_putField, ih, List.reverse_append, List.reverse_singleton,
      List.singleton_append, List.find?_cons]
    by_cases same : name = field.1
    · rw [if_pos same, same, beq_self_eq_true]
      rfl
    · rw [if_neg same, beq_eq_false_iff_ne.mpr (Ne.symm same)]

theorem pairwise_sortFields (fields : List (String × β)) :
    ((sortFields fields).map (·.1)).Pairwise (· < ·) :=
  foldl_keeps (fun sorted : List (String × β) => (sorted.map (·.1)).Pairwise (· < ·))
    (fun _ _ _ sorted => pairwise_putField _ _ sorted) .nil

theorem mem_sortFields_iff : (name, value) ∈ sortFields fields ↔
    (fields.reverse.find? (·.1 == name)).map (·.2) = some value := by
  have distinct : ((sortFields fields).map (·.1)).Nodup :=
    (pairwise_sortFields fields).imp fun less => less.ne
  rw [← find?_sortFields, Option.map_eq_some_iff]
  constructor
  · exact fun listed => ⟨_, (find?_eq_some_iff distinct).mpr ⟨listed, rfl⟩, rfl⟩
  · rintro ⟨field, found, rfl⟩
    obtain ⟨listed, rfl⟩ := (find?_eq_some_iff distinct).mp found
    exact listed

theorem sortFields_of_pairwise (sorted : (fields.map (·.1)).Pairwise (· < ·)) :
    sortFields fields = fields := by
  induction fields using List.reverseRecOn with
  | nil => rfl
  | append_singleton fields field ih =>
    rw [List.map_append, List.pairwise_append] at sorted
    obtain ⟨before, -, less⟩ := sorted
    rw [sortFields_concat, ih before]
    exact putField_of_greater fun row listed =>
      less _ (List.mem_map_of_mem listed) _ (List.mem_singleton_self _)

end CrossPlan.Json
