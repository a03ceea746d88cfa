import CrossPlan.Json.Shape
import CrossPlan.Proofs.Json.Numbers

/-!
# Reading what was written

A JSON value is read from its text as the same value, as long as its integers fit into 64 bits, its
doubles read back from their texts, and its containers do not nest too deep.  Its fields keep their
order, and none of them is left out where several have one name.
-/

set_option autoImplicit false

namespace CrossPlan.Json

/-! ## Assembling -/

/-- Tokens that are assembled to a value wherever one is expected and so many further levels may be
opened. -/
def Builds (levels : Nat) (tokens : List Token) (value : Json) : Prop :=
  ∀ assembly : Assembly, assembly.expectsValue = true → assembly.result = none →
    assembly.frames.length + levels < nestingLimit →
      tokens.foldlM Assembly.step assembly = assembly.accept value

theorem builds_scalar (levels : Nat) (value : Json) : Builds levels [.scalar value] value := by
  rintro ⟨frames, expected, result⟩ expects rfl -
  cases expected <;> cases expects <;> cases value <;>
    simp [Assembly.step]

/-- A kind of container: how it is opened, filled and closed. -/
structure Container (β : Type) where
  opening : Token
  closing : Token
  /-- what is expected before the first item -/
  first : Expected
  /-- what is expected behind a comma -/
  further : Expected
  /-- the container with items in reverse -/
  frame : List β → Frame
  value : List β → Json
  opens : ∀ assembly : Assembly, assembly.step opening = assembly.enter (frame []) first
  continues : ∀ seen outer, Assembly.step ⟨frame seen :: outer, .more, none⟩ .comma =
    some ⟨frame seen :: outer, further, none⟩
  closes : ∀ seen outer expected, expected = first ∨ expected = .more →
    Assembly.step ⟨frame seen :: outer, expected, none⟩ closing =
      Assembly.accept ⟨outer, expected, none⟩ (value seen.reverse)

namespace Container

def list : Container Json where
  opening := .openList
  closing := .closeList
  first := .valueOrClose
  further := .value
  frame := .list
  value := .list
  opens := fun _ => rfl
  continues := fun _ _ => rfl
  closes := by rintro seen outer expected (rfl | rfl) <;> rfl

def object : Container (String × Json) where
  opening := .openObject
  closing := .closeObject
  first := .nameOrClose
  further := .name
  frame := fun fields => .object fields none
  value := .object
  opens := fun _ => rfl
  continues := fun _ _ => rfl
  closes := by rintro seen outer expected (rfl | rfl) <;> rfl

variable {β : Type} {container : Container β}

def Adds (container : Container β) (levels : Nat) (tokens : List Token) (item : β) : Prop :=
  ∀ seen outer expected, expected = container.first ∨ expected = container.further →
    (outer : List Frame).length + levels + 1 < nestingLimit →
      tokens.foldlM Assembly.step ⟨container.frame seen :: outer, expected, none⟩ =
        some ⟨container.frame (item :: seen) :: outer, .more, none⟩

theorem fills {levels : Nat} {spellings : List (List Token)} {items : List β}
    (each : List.Forall₂ (container.Adds levels) spellings items) (some : items ≠ [])
    (seen : List β) {outer : List Frame} {expected : Expected}
    (awaits : expected = container.first ∨ expected = container.further)
    (shallow : outer.length + levels + 1 < nestingLimit) :
    (List.intercalate [.comma] spellings).foldlM Assembly.step
        ⟨container.frame seen :: outer, expected, none⟩ =
      .some ⟨container.frame (items.reverse ++ seen) :: outer, .more, none⟩ := by
  induction each generalizing seen expected with
  | nil => exact absurd rfl some
  | @cons spelling item spellings items adds rest ih =>
    have here := adds seen outer expected awaits shallow
    cases rest with
    | nil => rw [List.intercalate_singleton, here]; rfl
    | cons next later =>
      -- behind the item a comma asks for a further one, never for the end
      rw [List.intercalate_cons_cons, List.append_assoc, List.foldlM_append, here,
        Option.bind_eq_bind, Option.bind_some, List.singleton_append, List.foldlM_cons,
        container.continues, Option.bind_eq_bind, Option.bind_some,
        ih (List.cons_ne_nil _ _) (item :: seen) (Or.inr rfl)]
      simp only [List.reverse_cons, List.append_assoc, List.cons_append, List.nil_append]

theorem builds (container : Container β) {levels : Nat} {spellings : List (List Token)}
    {items : List β} (each : List.Forall₂ (container.Adds levels) spellings items) :
    Builds (levels + 1)
      (container.opening :: List.intercalate [.comma] spellings ++ [container.closing])
      (container.value items) := by
  rintro ⟨frames, expected, result⟩ expects rfl shallow
  have entered : Assembly.step ⟨frames, expected, none⟩ container.opening =
      some ⟨container.frame [] :: frames, container.first, none⟩ := by
    rw [container.opens, Assembly.enter, if_pos]
    simp only [expects, Bool.true_and, Option.isNone_none, decide_eq_true_eq]
    exact (Nat.add_le_add_left (Nat.le_add_left 1 levels) _).trans_lt shallow
  obtain ⟨reached, filled, ready⟩ : ∃ reached,
      (List.intercalate [.comma] spellings).foldlM Assembly.step
          ⟨container.frame [] :: frames, container.first, none⟩ =
        some ⟨container.frame items.reverse :: frames, reached, none⟩ ∧
      (reached = container.first ∨ reached = .more) := by
    by_cases empty : items = []
    · subst empty
      cases each
      exact ⟨_, rfl, Or.inl rfl⟩
    · have room : frames.length + levels + 1 < nestingLimit := by omega
      have all := container.fills each empty [] (Or.inl rfl) room
      rw [List.append_nil] at all
      exact ⟨_, all, Or.inr rfl⟩
  rw [List.cons_append, List.foldlM_cons, entered, Option.bind_eq_bind, Option.bind_some,
    List.foldlM_append, filled, Option.bind_eq_bind, Option.bind_some, List.foldlM_cons,
    container.closes _ _ _ ready, List.reverse_reverse]
  exact bind_pure _

theorem adds_item {levels : Nat} {tokens : List Token} {value : Json}
    (built : Builds levels tokens value) : list.Adds levels tokens value := by
  intro seen outer expected awaits shallow
  refine built _ ?_ rfl (by rw [List.length_cons]; omega)
  rcases awaits with rfl | rfl <;> rfl

theorem adds_field {levels : Nat} {tokens : List Token} {value : Json} (name : String)
    (built : Builds levels tokens value) :
    object.Adds levels (.scalar (.text name) :: .colon :: tokens) (name, value) := by
  intro seen outer expected awaits shallow
  have named : [Token.scalar (.text name), .colon].foldlM Assembly.step
      ⟨object.frame seen :: outer, expected, none⟩ =
        some ⟨.object seen (some name) :: outer, .value, none⟩ := by
    rcases awaits with rfl | rfl <;> rfl
  change ([Token.scalar (.text name), .colon] ++ tokens).foldlM Assembly.step _ = _
  rw [List.foldlM_append, named, Option.bind_eq_bind, Option.bind_some]
  exact built _ rfl rfl (by rw [List.length_cons]; omega)

end Container

/-! ## Values that are read back -/

theorem read?_of_builds {text : String} {tokens : List Token} {value : Json} {levels : Nat}
    (spells : Spells text.toList tokens) (builds : Builds levels tokens value)
    (shallow : levels < nestingLimit) : read? text = some value := by
  obtain ⟨lexer, cut, holds⟩ := spells []
  have cut' : tokens? text = some tokens := by
    simp only [tokens?, cut, holds.finish, Option.bind_eq_bind, Option.bind_some, List.append_nil,
      List.reverse_reverse]
    rfl
  have built := builds ⟨[], .value, none⟩ rfl rfl (by simpa using shallow)
  simp only [read?, cut', built, Option.bind_eq_bind, Option.bind_some, Assembly.accept,
    List.isEmpty_nil, if_true]

/-- A text of the characters of numbers is read as the number that it is, if it is one. -/
theorem read?_of_number {text : String} (some : text.toList ≠ [])
    (parts : ∀ c ∈ text.toList, isNumberChar c = true) : read? text = number? text.toList := by
  cases known : number? text.toList with
  | none =>
    have cut : tokens? text = none := by
      simp only [tokens?, foldlM_number_start some parts, Option.bind_eq_bind, Option.bind_some,
        Lexer.finish, List.reverse_reverse, known, Option.map_none, Option.bind_none]
    rw [read?, cut]
    rfl
  | some value =>
    exact read?_of_builds (spells_number some parts known) (builds_scalar 0 value) (by decide)

/-- A double whose text reads back as a number that equals it. -/
def Faithful (x : Float) : Prop := (read? (write (.float x))).bind double? = some x

instance (x : Float) : Decidable (Faithful x) := inferInstanceAs (Decidable (_ = some x))

theorem spells_float {x : Float} (faithful : Faithful x) :
    Spells (write (.float x)).toList [.scalar (.float x)] := by
  unfold Faithful at faithful
  rw [write, floatText] at faithful ⊢
  cases written : Decimal.json? x with
  | none =>
    rw [written, Option.getD_none,
      read?_of_builds spells_null (builds_scalar 0 .null) (by decide)] at faithful
    cases faithful
  | some text =>
    obtain ⟨parts, mark⟩ := broken_of_json? written
    have some : text.toList ≠ [] := by
      rintro none
      rw [none] at mark
      simp at mark
    rw [written, Option.getD_some, read?_of_number some parts] at faithful
    obtain ⟨value, known, same⟩ := Option.bind_eq_some_iff.mp faithful
    have spells := spells_number some parts known
    cases value with
    | float y =>
      obtain rfl := Option.some.inj same
      exact spells
    | int n =>
      -- a point or an exponent is no part of an integer
      have digits := isDigit_of_number? known
      rcases mark with point | exponent
      · exact absurd (digits _ point) (by decide)
      · exact absurd (digits _ exponent) (by decide)
    | _ => cases same

inductive Legible : Nat → Json → Prop where
  | null (levels : Nat) : Legible levels .null
  | bool (levels : Nat) (b : Bool) : Legible levels (.bool b)
  | int {levels : Nat} {n : Int} (low : -(Count.half : Int) ≤ n) (high : n < Count.span) :
    Legible levels (.int n)
  | float {levels : Nat} {x : Float} (faithful : Faithful x) : Legible levels (.float x)
  | text (levels : Nat) (s : String) : Legible levels (.text s)
  | list {levels : Nat} {items : List Json} (each : ∀ item ∈ items, Legible levels item) :
    Legible (levels + 1) (.list items)
  | object {levels : Nat} {fields : List (String × Json)}
    (each : ∀ field ∈ fields, Legible levels field.2) : Legible (levels + 1) (.object fields)

theorem writeItems_eq (items : List Json) : writeItems items = items.map write := by
  induction items with
  | nil => rfl
  | cons item rest ih => rw [writeItems, ih, List.map_cons]

theorem writeFields_eq (fields : List (String × Json)) : writeFields fields =
    fields.map fun field => quote field.1 ++ ":" ++ write field.2 := by
  induction fields with
  | nil => rfl
  | cons field rest ih => rw [writeFields, ih, List.map_cons]

theorem toList_write_list (items : List Json) : (write (.list items)).toList =
    '[' :: List.intercalate [','] (items.map fun item => item.write.toList) ++ [']'] := by
  rw [write, writeItems_eq, String.toList_append, String.toList_append, String.toList_intercalate,
    List.map_map]
  rfl

theorem toList_write_object (fields : List (String × Json)) : (write (.object fields)).toList =
    '\x7b' :: List.intercalate [','] (fields.map fun field =>
      (quote field.1).toList ++ ':' :: field.2.write.toList) ++ ['\x7d'] := by
  have each : String.toList ∘ (fun field : String × Json => quote field.1 ++ ":" ++ write field.2) =
      fun field => (quote field.1).toList ++ ':' :: field.2.write.toList := by
    funext field
    simp
  rw [write, writeFields_eq, String.toList_append, String.toList_append, String.toList_intercalate,
    List.map_map, each]
  rfl

/-- The text of a value is cut into tokens that are assembled to the value. -/
theorem Legible.spells {levels : Nat} {value : Json} (legible : Legible levels value) :
    ∃ tokens, Spells value.write.toList tokens ∧ Builds levels tokens value := by
  induction legible with
  | null levels => exact ⟨_, spells_null, builds_scalar levels _⟩
  | bool levels b => exact ⟨_, spells_bool b, builds_scalar levels _⟩
  | int low high => exact ⟨_, spells_int low high, builds_scalar _ _⟩
  | float faithful => exact ⟨_, spells_float faithful, builds_scalar _ _⟩
  | text levels s => exact ⟨_, (closes_quote s).spells, builds_scalar levels _⟩
  | @list levels items each ih =>
    choose! tokens spelled using ih
    have adds : List.Forall₂ (Container.list.Adds levels) (items.map tokens) items := by
      rw [List.forall₂_map_left_iff, List.forall₂_same]
      exact fun item listed => Container.adds_item (spelled item listed).2
    refine ⟨_, ?_, Container.list.builds adds⟩
    rw [toList_write_list]
    refine (closes_container closes_openList closes_closeList (by decide) ?_).spells
    rw [List.forall₂_map_left_iff, List.forall₂_map_right_iff, List.forall₂_same]
    exact fun item listed => (spelled item listed).1
  | @object levels fields each ih =>
    choose! tokens spelled using ih
    have adds : List.Forall₂ (Container.object.Adds levels)
        (fields.map fun field => .scalar (.text field.1) :: .colon :: tokens field) fields := by
      rw [List.forall₂_map_left_iff, List.forall₂_same]
      exact fun field listed => Container.adds_field field.1 (spelled field listed).2
    refine ⟨_, ?_, Container.object.builds adds⟩
    rw [toList_write_object]
    refine (closes_container closes_openObject closes_closeObject (by decide) ?_).spells
    rw [List.forall₂_map_left_iff, List.forall₂_map_right_iff, List.forall₂_same]
    exact fun field listed => (closes_quote field.1).append_spells
      (closes_colon.append_spells (spelled field listed).1)

theorem read?_write {levels : Nat} {value : Json} (legible : Legible levels value)
    (shallow : levels < nestingLimit) : read? value.write = some value := by
  obtain ⟨tokens, spells, builds⟩ := legible.spells
  exact read?_of_builds spells builds shallow

end CrossPlan.Json
