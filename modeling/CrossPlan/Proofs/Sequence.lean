import CrossPlan.Count
import Mathlib.Data.List.Forall2
import Mathlib.Data.List.Nodup
import Mathlib.Data.List.Perm.Basic

/-!
# Lists, and computations over them that can fail

A computation that goes through a list and stops at the first failure succeeds exactly when each of
its steps does.  A list that is sorted and freed of repetitions ascends strictly.
-/

set_option autoImplicit false

namespace CrossPlan.Sequence

variable {α β ε δ : Type}

theorem ok_bind (value : α) (next : α → Except ε β) : Except.ok value >>= next = next value := rfl

theorem bind_ok_iff {first : Except ε α} {next : α → Except ε β} {result : β} :
    first >>= next = .ok result ↔ ∃ value, first = .ok value ∧ next value = .ok result := by
  cases first with
  | error fault => simp [bind, Except.bind]
  | ok value => simp [bind, Except.bind]

theorem exists_bind_ok {first : Except ε α} {next : α → Except ε β} {suits : α → Prop}
    {good : β → Prop} (now : ∃ value, first = .ok value ∧ suits value)
    (after : ∀ value, suits value → ∃ result, next value = .ok result ∧ good result) :
    ∃ result, first >>= next = .ok result ∧ good result := by
  obtain ⟨value, success, suited⟩ := now
  obtain ⟨result, ending, fine⟩ := after value suited
  exact ⟨result, bind_ok_iff.mpr ⟨value, success, ending⟩, fine⟩

theorem exists_bind {first : Except ε α} {next : α → Except ε β}
    (now : ∃ value, first = .ok value)
    (after : ∀ value, first = .ok value → ∃ result, next value = .ok result) :
    ∃ result, first >>= next = .ok result := by
  obtain ⟨value, success⟩ := now
  obtain ⟨result, ending⟩ := after value success
  exact ⟨result, bind_ok_iff.mpr ⟨value, success, ending⟩⟩

theorem seq_ok_iff {first : Except ε Unit} {next : Unit → Except ε β} {result : β} :
    first >>= next = .ok result ↔ first = .ok () ∧ next () = .ok result := by
  rw [bind_ok_iff]
  exact ⟨fun ⟨(), now, after⟩ => ⟨now, after⟩, fun ⟨now, after⟩ => ⟨(), now, after⟩⟩

@[simp]
theorem mapError_ok_iff {first : Except ε α} {rename : ε → δ} {result : α} :
    first.mapError rename = .ok result ↔ first = .ok result := by
  cases first <;> simp [Except.mapError]

theorem error_of_bind {first : Except ε α} {next : α → Except ε β} {error : ε}
    (failed : first >>= next = .error error) :
    first = .error error ∨ ∃ value, first = .ok value ∧ next value = .error error := by
  cases first with
  | error other => exact Or.inl (congrArg Except.error (Except.error.inj failed))
  | ok value => exact Or.inr ⟨value, rfl, failed⟩

theorem map_ok_iff {first : Except ε α} {rename : α → β} {result : β} :
    first.map rename = .ok result ↔ ∃ before, first = .ok before ∧ rename before = result := by
  cases first <;> simp [Except.map]

theorem getD_mem {items : List α} {other : α} (among : other ∈ items) (place : Nat) :
    items.getD place other ∈ items := by
  rw [List.getD_eq_getElem?_getD]
  cases found : items[place]? with
  | none => exact among
  | some item => exact List.mem_of_getElem? found

theorem mapM_congr {m : Type → Type} [Monad m] [LawfulMonad m] {first second : α → m β}
    {items : List α} (same : ∀ item ∈ items, first item = second item) :
    items.mapM first = items.mapM second := by
  induction items with
  | nil => rfl
  | cons item rest ih =>
    rw [List.mapM_cons, List.mapM_cons, same item List.mem_cons_self,
      ih fun other later => same other (List.mem_cons_of_mem _ later)]

theorem map_mapM {γ : Type} (rename : β → γ) (step : α → Except ε β) (items : List α) :
    (items.mapM step).map (List.map rename) = items.mapM fun item => (step item).map rename := by
  induction items with
  | nil => rfl
  | cons item rest ih =>
    rw [List.mapM_cons, List.mapM_cons, ← ih]
    cases step item with
    | error error => rfl
    | ok result => cases rest.mapM step <;> rfl

theorem mapM_ok_iff {step : α → Except ε β} {items : List α} {results : List β} :
    items.mapM step = .ok results ↔
      List.Forall₂ (fun item result => step item = .ok result) items results := by
  induction items generalizing results with
  | nil => cases results <;> simp [pure, Except.pure]
  | cons item rest ih =>
    rw [List.mapM_cons]
    simp only [bind_ok_iff]
    constructor
    · rintro ⟨result, now, later, after, built⟩
      cases built
      exact .cons now (ih.mp after)
    · intro all
      cases all with
      | cons now after => exact ⟨_, now, _, ih.mpr after, rfl⟩

theorem mapM_ok_of_perm {step : α → Except ε β} {first second : List α} {results : List β}
    (shuffled : first.Perm second) (success : first.mapM step = .ok results) :
    ∃ others, second.mapM step = .ok others ∧ results.Perm others := by
  obtain ⟨others, same, beside⟩ :=
    List.perm_comp_forall₂ shuffled.symm (mapM_ok_iff.mp success)
  exact ⟨others, mapM_ok_iff.mpr same, beside.symm⟩

theorem exists_mapM_ok {step : α → Except ε β} {items : List α}
    (each : ∀ item ∈ items, ∃ result, step item = .ok result) :
    ∃ results, items.mapM step = .ok results := by
  induction items with
  | nil => exact ⟨[], rfl⟩
  | cons item rest ih =>
    obtain ⟨result, now⟩ := each item List.mem_cons_self
    obtain ⟨results, later⟩ := ih fun other member => each other (List.mem_cons_of_mem _ member)
    exact ⟨result :: results, by rw [List.mapM_cons, now, later]; rfl⟩

theorem error_of_mapM {step : α → Except ε β} {items : List α} {error : ε}
    (failed : items.mapM step = .error error) : ∃ item ∈ items, step item = .error error := by
  induction items with
  | nil => cases failed
  | cons item rest ih =>
    rw [List.mapM_cons] at failed
    rcases error_of_bind failed with now | ⟨result, -, failed⟩
    · exact ⟨item, List.mem_cons_self, now⟩
    · rcases error_of_bind failed with later | ⟨results, -, failed⟩
      · obtain ⟨other, listed, failed⟩ := ih later
        exact ⟨other, List.mem_cons_of_mem _ listed, failed⟩
      · cases failed

/-- Either each step gives a good result, or the first bad one ends the computation. -/
theorem mapM_cases {step : α → Except ε β} {good : α → β → Prop} {bad : α → ε → Prop}
    {items : List α} (each : ∀ item ∈ items, (∃ result, step item = .ok result ∧ good item result) ∨
      ∃ fault, step item = .error fault ∧ bad item fault) :
    (∃ results, items.mapM step = .ok results ∧ List.Forall₂ good items results) ∨
      ∃ item ∈ items, ∃ fault, items.mapM step = .error fault ∧ bad item fault := by
  induction items with
  | nil => exact Or.inl ⟨[], rfl, .nil⟩
  | cons item rest ih =>
    rw [List.mapM_cons]
    rcases each item List.mem_cons_self with ⟨result, now, fine⟩ | ⟨fault, now, wrong⟩
    · rw [now]
      rcases ih fun other later => each other (List.mem_cons_of_mem _ later) with
        ⟨results, later, all⟩ | ⟨other, listed, fault, later, wrong⟩
      · exact Or.inl ⟨result :: results, by rw [later]; rfl, .cons fine all⟩
      · exact Or.inr ⟨other, List.mem_cons_of_mem _ listed, fault, by rw [later]; rfl, wrong⟩
    · exact Or.inr ⟨item, List.mem_cons_self, fault, by rw [now]; rfl, wrong⟩

theorem mapM_some_iff {step : α → Option β} {items : List α} {results : List β} :
    items.mapM step = some results ↔
      List.Forall₂ (fun item result => step item = some result) items results := by
  induction items generalizing results with
  | nil => cases results <;> simp
  | cons item rest ih =>
    rw [List.mapM_cons]
    simp only [Option.bind_eq_bind, Option.bind_eq_some_iff, Option.pure_def, Option.some.injEq]
    constructor
    · rintro ⟨result, now, later, after, built⟩
      cases built
      exact .cons now (ih.mp after)
    · intro all
      cases all with
      | cons now after => exact ⟨_, now, _, ih.mpr after, rfl⟩

theorem exists_mapM_beside {γ : Type} {step : α → Except ε γ} {suits : β → γ → Prop}
    {paired : α → β → Prop} {items : List α} {others : List β}
    (all : List.Forall₂ paired items others)
    (each : ∀ item other, paired item other →
      ∃ result, step item = .ok result ∧ suits other result) :
    ∃ results, items.mapM step = .ok results ∧ List.Forall₂ suits others results := by
  induction all with
  | nil => exact ⟨[], rfl, .nil⟩
  | cons now _ ih =>
    obtain ⟨result, success, suited⟩ := each _ _ now
    obtain ⟨results, later, behind⟩ := ih
    refine ⟨result :: results, ?_, .cons suited behind⟩
    rw [List.mapM_cons, success, later]
    rfl

theorem mem_left {relation : α → β → Prop} {items : List α} {results : List β}
    (all : List.Forall₂ relation items results) {item : α} (present : item ∈ items) :
    ∃ result ∈ results, relation item result := by
  induction all with
  | nil => cases present
  | @cons first result _ _ now _ ih =>
    rcases List.mem_cons.mp present with rfl | later
    · exact ⟨result, List.mem_cons_self, now⟩
    · obtain ⟨result, among, related⟩ := ih later
      exact ⟨result, List.mem_cons_of_mem _ among, related⟩

theorem pairwise_right {relation : α → β → Prop} {first : α → α → Prop} {second : β → β → Prop}
    {items : List α} {others : List β} (all : List.Forall₂ relation items others)
    (distinct : items.Pairwise first)
    (carry : ∀ a b, ∀ a' ∈ others, ∀ b' ∈ others, relation a a' → relation b b' → first a b →
      second a' b') : others.Pairwise second := by
  induction all with
  | nil => exact .nil
  | @cons item other items others now later ih =>
    rw [List.pairwise_cons] at distinct ⊢
    refine ⟨fun b' listed => ?_, ih distinct.2 fun a b a' mem b' mem' =>
      carry a b a' (List.mem_cons_of_mem _ mem) b' (List.mem_cons_of_mem _ mem')⟩
    obtain ⟨b, among, related⟩ := mem_left (List.Forall₂.flip later) listed
    exact carry item b other List.mem_cons_self b' (List.mem_cons_of_mem _ listed) now related
      (distinct.1 b among)

theorem mem_right {relation : α → β → Prop} {items : List α} {results : List β}
    (all : List.Forall₂ relation items results) {result : β} (present : result ∈ results) :
    ∃ item ∈ items, relation item result :=
  mem_left (List.Forall₂.flip all) present

theorem forall₂_trans {γ : Type} {first : α → β → Prop} {second : β → γ → Prop} {items : List α}
    {others : List β} {results : List γ} (one : List.Forall₂ first items others)
    (two : List.Forall₂ second others results) :
    List.Forall₂ (fun item result => ∃ other, first item other ∧ second other result) items
      results := by
  induction one generalizing results with
  | nil =>
    cases two
    exact .nil
  | cons now _ ih =>
    cases two with
    | cons next later => exact .cons ⟨_, now, next⟩ (ih later)

theorem getElem?_left {relation : α → β → Prop} {items : List α} {results : List β}
    (all : List.Forall₂ relation items results) {place : Nat} {item : α}
    (found : items[place]? = some item) :
    ∃ result, results[place]? = some result ∧ relation item result := by
  obtain ⟨within, rfl⟩ := List.getElem?_eq_some_iff.mp found
  have within' := all.length_eq ▸ within
  exact ⟨results[place], List.getElem?_eq_getElem within', all.get within within'⟩

theorem getElem?_right {relation : α → β → Prop} {items : List α} {results : List β}
    (all : List.Forall₂ relation items results) {place : Nat} {result : β}
    (found : results[place]? = some result) :
    ∃ item, items[place]? = some item ∧ relation item result :=
  getElem?_left (List.Forall₂.flip all) found

theorem forM_ok_iff {step : α → Except ε Unit} {items : List α} :
    items.forM step = .ok () ↔ ∀ item ∈ items, step item = .ok () := by
  induction items with
  | nil => simp [List.forM, pure, Except.pure]
  | cons item rest ih =>
    change (step item >>= fun _ => rest.forM step) = _ ↔ _
    rw [seq_ok_iff, ih, List.forall_mem_cons]

theorem exists_forM_error {step : α → Except ε Unit} {items : List α} {error : ε}
    (failed : items.forM step = .error error) : ∃ item ∈ items, step item = .error error := by
  induction items with
  | nil => cases failed
  | cons item rest ih =>
    change (step item >>= fun _ => rest.forM step) = _ at failed
    cases now : step item with
    | error other =>
      rw [now] at failed
      cases failed
      exact ⟨item, List.mem_cons_self, now⟩
    | ok =>
      rw [now] at failed
      obtain ⟨later, member, same⟩ := ih failed
      exact ⟨later, List.mem_cons_of_mem _ member, same⟩

theorem foldl_keeps (keeps : β → Prop) {step : β → α → β} {items : List α}
    (kept : ∀ item ∈ items, ∀ state, keeps state → keeps (step state item)) {start : β}
    (first : keeps start) : keeps (items.foldl step start) := by
  induction items generalizing start with
  | nil => exact first
  | cons item rest ih =>
    exact ih (fun other later => kept other (List.mem_cons_of_mem _ later))
      (kept item List.mem_cons_self start first)

/-- A fold that passes an item which leads to a goal ends there, if no item leads away from it. -/
theorem foldl_reaches (keeps goal : β → Prop) {step : β → α → β} {items : List α} {item : α}
    (member : item ∈ items)
    (kept : ∀ other ∈ items, ∀ state, keeps state → keeps (step state other))
    (stays : ∀ other ∈ items, ∀ state, keeps state → goal state → goal (step state other))
    (reaches : ∀ state, keeps state → goal (step state item)) {start : β} (first : keeps start) :
    goal (items.foldl step start) := by
  obtain ⟨before, after, rfl⟩ := List.append_of_mem member
  rw [List.foldl_append, List.foldl_cons]
  have ahead := foldl_keeps keeps
    (fun other listed => kept other (List.mem_append_left _ listed)) first
  refine (foldl_keeps (fun state => keeps state ∧ goal state) ?_
    ⟨kept item member _ ahead, reaches _ ahead⟩).2
  rintro other listed state ⟨held, done⟩
  have behind := List.mem_append_right before (List.mem_cons_of_mem item listed)
  exact ⟨kept other behind state held, stays other behind state held done⟩

theorem length_foldl_set (places : List Nat) (value : α) (items : List α) :
    (places.foldl (fun items place => items.set place value) items).length = items.length :=
  foldl_keeps (fun state : List α => state.length = items.length)
    (fun _ _ _ same => by rw [List.length_set, same]) rfl

theorem getElem?_foldl_set (places : List Nat) (value : α) (items : List α) (place : Nat) :
    (places.foldl (fun items place => items.set place value) items)[place]? =
      if place ∈ places then items[place]?.map fun _ => value else items[place]? := by
  induction places generalizing items with
  | nil => rfl
  | cons first rest ih =>
    rw [List.foldl_cons, ih, List.getElem?_set]
    by_cases same : first = place
    · subst same
      by_cases within : first < items.length <;> simp [within]
    · simp [same, Ne.symm same]

/-- What is written over one value is undone by writing this value again. -/
theorem foldl_set_undone {places : List Nat} {items : List α} {old : α}
    (held : ∀ place ∈ places, ∀ item, items[place]? = some item → item = old) (value : α) :
    places.foldl (fun items place => items.set place old)
      (places.foldl (fun items place => items.set place value) items) = items := by
  refine List.ext_getElem? fun place => ?_
  rw [getElem?_foldl_set, getElem?_foldl_set]
  by_cases listed : place ∈ places
  · rw [if_pos listed, if_pos listed]
    cases found : items[place]? with
    | none => rfl
    | some item =>
      rw [held place listed item found]
      rfl
  · rw [if_neg listed, if_neg listed]

theorem total_append (first second : List Nat) :
    Count.total (first ++ second) = Count.total first + Count.total second :=
  List.sum_append

theorem total_flatMap (part : α → List Nat) (items : List α) :
    Count.total (items.flatMap part) =
      Count.total (items.map fun item => Count.total (part item)) := by
  induction items with
  | nil => rfl
  | cons item rest ih =>
    rw [List.flatMap_cons, total_append, ih]
    rfl

theorem length_flatMap_total (part : α → List β) (items : List α) :
    (items.flatMap part).length = Count.total (items.map fun item => (part item).length) :=
  List.length_flatMap

theorem total_map_one_add (count : α → Nat) (items : List α) :
    Count.total (items.map fun item => 1 + count item) =
      items.length + Count.total (items.map count) := by
  induction items with
  | nil => rfl
  | cons item rest ih =>
    simp only [List.map_cons, List.length_cons, Count.total, List.foldr_cons] at ih ⊢
    omega

theorem nodup_eraseDups [BEq α] [LawfulBEq α] : ∀ items : List α, items.eraseDups.Nodup
  | [] => by simp
  | item :: rest => by
    have shorter := List.length_filter_le (fun other => !other == item) rest
    rw [List.eraseDups_cons, List.nodup_cons]
    exact ⟨by simp [List.mem_eraseDups], nodup_eraseDups _⟩
termination_by items => items.length

theorem eraseDups_map [BEq α] [LawfulBEq α] [BEq β] [LawfulBEq β] {name : α → β}
    (injective : Function.Injective name) :
    ∀ items : List α, (items.map name).eraseDups = items.eraseDups.map name
  | [] => by simp
  | item :: rest => by
    have shorter := List.length_filter_le (fun other => !other == item) rest
    have same : (rest.map name).filter (fun other => !other == name item) =
        (rest.filter fun other => !other == item).map name := by
      rw [List.filter_map]
      congr 1
      refine List.filter_congr fun other _ => ?_
      by_cases equal : other = item
      · simp [equal]
      · simp [equal, injective.ne equal]
    rw [List.map_cons, List.eraseDups_cons, List.eraseDups_cons, List.map_cons, same,
      eraseDups_map injective]
termination_by items => items.length

theorem map_getElem?_range (items : List α) :
    (List.range items.length).map (fun place => items[place]?) = items.map some := by
  refine List.ext_getElem (by simp) fun place within within' => ?_
  rw [List.length_map] at within'
  simp [within']

theorem getElem?_of_idxOf? [BEq α] [LawfulBEq α] {items : List α} {item : α} {place : Nat}
    (found : items.idxOf? item = some place) : items[place]? = some item := by
  obtain ⟨within, same, -⟩ := List.idxOf?_eq_some_iff.mp found
  exact List.getElem?_eq_some_iff.mpr ⟨within, same⟩

theorem idxOf?_iff [BEq α] [LawfulBEq α] {items : List α} (distinct : items.Nodup) {item : α}
    {place : Nat} : items.idxOf? item = some place ↔ items[place]? = some item := by
  rw [List.idxOf?_eq_some_iff, List.getElem?_eq_some_iff]
  constructor
  · rintro ⟨within, same, -⟩
    exact ⟨within, same⟩
  · rintro ⟨within, same⟩
    refine ⟨within, same, fun earlier before other => ?_⟩
    have one := (distinct.getElem_inj_iff).mp (other.trans same.symm)
    omega

theorem beside_unique {items : List α} (distinct : items.Nodup) {others : List β}
    {place place' : Nat} {item : α} {other other' : β} (here : items[place]? = some item)
    (here' : items[place']? = some item) (beside : others[place]? = some other)
    (beside' : others[place']? = some other') : other = other' := by
  have within := (List.getElem?_eq_some_iff.mp here).1
  obtain rfl := (List.getElem?_inj within distinct).mp (here.trans here'.symm)
  exact Option.some.inj (beside.symm.trans beside')

theorem lookup_map_of_mem (key : α → Nat) (value : α → β) {items : List α} {item : α}
    (unique : (items.map key).Nodup) (present : item ∈ items) :
    (items.map fun item => (key item, value item)).lookup (key item) = some (value item) := by
  induction items with
  | nil => cases present
  | cons first rest ih =>
    rw [List.map_cons, List.nodup_cons] at unique
    rw [List.map_cons, List.lookup_cons]
    rcases List.mem_cons.mp present with rfl | later
    · rw [beq_self_eq_true]
    · have other : key item ≠ key first := fun same =>
        unique.1 (same ▸ List.mem_map_of_mem later)
      rw [beq_false_of_ne other]
      exact ih unique.2 later

theorem mem_of_lookup [DecidableEq α] {key : α} {value : β} {entries : List (α × β)}
    (found : entries.lookup key = some value) : (key, value) ∈ entries := by
  obtain ⟨_, _, rfl, -⟩ := List.lookup_eq_some_iff.mp found
  exact List.mem_append_right _ List.mem_cons_self

/-- What occurs once is part of one item. -/
theorem eq_of_count_flatMap [DecidableEq β] {items : List α} {part : α → List β} {value : β}
    (once : (items.flatMap part).count value ≤ 1) {first second : α} (present : first ∈ items)
    (present' : second ∈ items) (here : value ∈ part first) (there : value ∈ part second) :
    first = second := by
  by_contra different
  obtain ⟨before, after, rfl⟩ := List.append_of_mem present
  have elsewhere : second ∈ before ++ after := by
    rcases List.mem_append.mp present' with earlier | later
    · exact List.mem_append_left _ earlier
    · exact List.mem_append_right _ ((List.mem_cons.mp later).resolve_left (Ne.symm different))
  have moved : ((before ++ first :: after).flatMap part).Perm
      ((first :: (before ++ after)).flatMap part) := List.perm_middle.flatMap_right part
  rw [moved.count_eq, List.flatMap_cons, List.count_append] at once
  have one := List.count_pos_iff.mpr here
  have two := List.count_pos_iff.mpr (List.mem_flatMap.mpr ⟨second, elsewhere, there⟩)
  omega

end CrossPlan.Sequence

namespace CrossPlan.Count

theorem inOrder_iff {a b : List Nat} : inOrder a b = true ↔ a = b ∨ List.Lex (· < ·) a b := by
  induction a generalizing b with
  | nil => cases b <;> simp [inOrder]
  | cons x xs ih =>
    cases b with
    | nil => simp [inOrder]
    | cons y ys =>
      simp only [inOrder, Bool.or_eq_true, decide_eq_true_eq, Bool.and_eq_true, beq_iff_eq, ih,
        List.cons.injEq, List.cons_lex_cons_iff]
      grind

theorem inOrder_trans (a b c : List Nat) (first : inOrder a b = true)
    (second : inOrder b c = true) : inOrder a c = true := by
  induction a generalizing b c with
  | nil => rfl
  | cons x xs ih =>
    cases b with
    | nil => cases first
    | cons y ys =>
      cases c with
      | nil => cases second
      | cons z zs =>
        simp only [inOrder, Bool.or_eq_true, decide_eq_true_eq, Bool.and_eq_true, beq_iff_eq]
          at first second ⊢
        rcases first with less | ⟨rfl, tail⟩
        · omega
        · exact second.imp_right fun ⟨same, later⟩ => ⟨same, ih _ _ tail later⟩

theorem inOrder_total (a b : List Nat) : inOrder a b = true ∨ inOrder b a = true := by
  induction a generalizing b with
  | nil => exact Or.inl rfl
  | cons x xs ih =>
    cases b with
    | nil => exact Or.inr rfl
    | cons y ys =>
      have := ih ys
      simp only [inOrder, Bool.or_eq_true, decide_eq_true_eq, Bool.and_eq_true, beq_iff_eq]
      rcases Nat.lt_trichotomy x y with less | rfl | more
      · exact Or.inl (Or.inl less)
      · exact this.imp (fun tail => Or.inr ⟨rfl, tail⟩) fun tail => Or.inr ⟨rfl, tail⟩
      · exact Or.inr (Or.inl more)

theorem pairwise_sorted {items : List (List Nat)} (distinct : items.Nodup) :
    (items.mergeSort inOrder).Pairwise (List.Lex (· < ·)) := by
  have total : ∀ a b, (inOrder a b || inOrder b a) = true := fun a b => by
    rw [Bool.or_eq_true]
    exact inOrder_total a b
  have ordered : (items.mergeSort inOrder).Pairwise fun a b => inOrder a b = true :=
    List.pairwise_mergeSort inOrder_trans total items
  have unequal : (items.mergeSort inOrder).Nodup :=
    (List.mergeSort_perm items _).nodup_iff.mpr distinct
  refine (ordered.and unequal).imp ?_
  rintro a b ⟨before, different⟩
  exact (inOrder_iff.mp before).resolve_left different

end CrossPlan.Count
