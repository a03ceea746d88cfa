import CrossPlan.Proofs.Json.Fields
import CrossPlan.Proofs.Json.Reading
import CrossPlan.Record

/-!
# Rows on lines

Rows are written one to a line.  A written JSON text has no line feed in it, as the one in a text is
escaped, so that the lines are told apart again.  From its line a row is read with its fields in the
order of their names: of several fields of one name the last is left, and what is no finite number
is null.
-/

set_option autoImplicit false

namespace CrossPlan

/-! ## Line feeds -/

namespace Json

def Unbroken (text : String) : Prop := '\n' ∉ text.toList

instance (text : String) : Decidable (Unbroken text) := inferInstanceAs (Decidable (_ ∉ _))

theorem mem_intercalate {α : Type} {separator : List α} {parts : List (List α)} {x : α}
    (listed : x ∈ List.intercalate separator parts) : x ∈ separator ∨ ∃ part ∈ parts, x ∈ part := by
  induction parts with
  | nil => cases listed
  | cons part rest ih =>
    cases rest with
    | nil =>
      rw [List.intercalate_singleton] at listed
      exact Or.inr ⟨part, List.mem_cons_self, listed⟩
    | cons next later =>
      rw [List.intercalate_cons_cons, List.append_assoc] at listed
      rcases List.mem_append.mp listed with here | listed
      · exact Or.inr ⟨part, List.mem_cons_self, here⟩
      · rcases List.mem_append.mp listed with between | behind
        · exact Or.inl between
        · exact (ih behind).imp_right fun ⟨other, among, inside⟩ =>
            ⟨other, List.mem_cons_of_mem _ among, inside⟩

theorem Unbroken.append {first second : String} (before : Unbroken first)
    (behind : Unbroken second) : Unbroken (first ++ second) := by
  rw [Unbroken, String.toList_append]
  exact List.not_mem_append before behind

theorem unbroken_intercalate {texts : List String} (each : ∀ text ∈ texts, Unbroken text) :
    Unbroken (",".intercalate texts) := by
  intro broken
  rw [String.toList_intercalate] at broken
  rcases mem_intercalate broken with comma | ⟨part, listed, inside⟩
  · revert comma
    decide
  · obtain ⟨text, among, rfl⟩ := List.mem_map.mp listed
    exact each text among inside

theorem unbroken_number {text : String} (parts : ∀ c ∈ text.toList, isNumberChar c = true) :
    Unbroken text := fun broken => absurd (parts '\n' broken) (by decide)

theorem newline_notMem_escape (c : Char) : '\n' ∉ escape c := by
  have digit : ∀ n < 16, '\n' ≠ hexDigit n := by decide
  unfold escape
  split_ifs with _ _ _ _ line _ _ control
  · decide
  · decide
  · decide
  · decide
  · decide
  · decide
  · decide
  · have high := digit (c.toNat / 16) (by omega)
    have low := digit (c.toNat % 16) (by omega)
    simp [high, low]
  · exact fun listed => line (List.mem_singleton.mp listed).symm

theorem unbroken_quote (s : String) : Unbroken (quote s) := by
  intro broken
  rw [quote, String.toList_ofList, List.cons_append, List.mem_cons, List.mem_append,
    List.mem_flatMap] at broken
  rcases broken with mark | ⟨c, -, escaped⟩ | mark
  · cases mark
  · exact newline_notMem_escape c escaped
  · revert mark
    decide

theorem unbroken_float (x : Float) : Unbroken (floatText x) := by
  rw [floatText]
  cases written : Decimal.json? x with
  | none => decide
  | some text => exact unbroken_number (broken_of_json? written).parts

mutual

theorem unbroken_write : ∀ value : Json, Unbroken value.write
  | .null => by rw [write]; decide
  | .bool b => by cases b <;> (rw [write]; decide)
  | .int n => by rw [write]; exact unbroken_number (isNumberChar_toString n)
  | .float x => by rw [write]; exact unbroken_float x
  | .text s => by rw [write]; exact unbroken_quote s
  | .list items => by
    rw [write]
    exact (Unbroken.append (by decide) (unbroken_intercalate (unbroken_writeItems items))).append
      (by decide)
  | .object fields => by
    rw [write]
    exact (Unbroken.append (by decide) (unbroken_intercalate (unbroken_writeFields fields))).append
      (by decide)

theorem unbroken_writeItems : ∀ items : List Json, ∀ text ∈ writeItems items, Unbroken text
  | [] => by rw [writeItems]; exact fun _ none => absurd none List.not_mem_nil
  | item :: rest => by
    rw [writeItems]
    exact List.forall_mem_cons.mpr ⟨unbroken_write item, unbroken_writeItems rest⟩

theorem unbroken_writeFields : ∀ fields : List (String × Json), ∀ text ∈ writeFields fields,
    Unbroken text
  | [] => by rw [writeFields]; exact fun _ none => absurd none List.not_mem_nil
  | (name, value) :: rest => by
    rw [writeFields]
    exact List.forall_mem_cons.mpr ⟨((unbroken_quote name).append (by decide)).append
      (unbroken_write value), unbroken_writeFields rest⟩

end

end Json

/-! ## Bytes -/

namespace Text

def bytes (text : String) : List UInt8 := text.toUTF8.data.toList

def lineFeed : UInt8 := 0x0A

theorem bytes_append (first second : String) :
    bytes (first ++ second) = bytes first ++ bytes second := by
  simp [bytes, String.toUTF8]

theorem bytes_eq_flatMap (text : String) :
    bytes text = text.toList.flatMap String.utf8EncodeChar := by
  have whole : text.toByteArray = text.toList.utf8Encode := by
    rw [← String.toByteArray_ofList, String.ofList_toList]
  rw [bytes, String.toUTF8, whole, List.utf8Encode, List.data_toByteArray]

theorem bytes_join (texts : List String) : bytes (String.join texts) = texts.flatMap bytes := by
  rw [bytes_eq_flatMap, String.toList_join, List.flatMap_assoc]
  simp only [← bytes_eq_flatMap]

/-- All bytes of a character are too large for a line feed, unless it is one. -/
theorem eq_newline_of_mem {c : Char} (listed : lineFeed ∈ String.utf8EncodeChar c) : c = '\n' := by
  have value : ∀ n < 256, lineFeed = UInt8.ofNat n → n = 10 := by
    intro n small same
    have back := congrArg UInt8.toNat same
    rw [UInt8.toNat_ofNat_of_lt' small] at back
    exact back.symm
  unfold String.utf8EncodeChar at listed
  dsimp only at listed
  split_ifs at listed with one two three
  · have ten := value c.toNat (one.trans_lt (by decide)) (List.mem_singleton.mp listed)
    rw [← Char.ofNat_toNat c, ten]
  · simp only [List.mem_cons, List.not_mem_nil, or_false] at listed
    rcases listed with same | same <;> have ten := value _ (by omega) same <;> omega
  · simp only [List.mem_cons, List.not_mem_nil, or_false] at listed
    rcases listed with same | same | same <;> have ten := value _ (by omega) same <;> omega
  · simp only [List.mem_cons, List.not_mem_nil, or_false] at listed
    rcases listed with same | same | same | same <;> have ten := value _ (by omega) same <;> omega

end Text

theorem Json.Unbroken.lineFeed_notMem {text : String} (unbroken : Unbroken text) :
    Text.lineFeed ∉ Text.bytes text := by
  rw [Text.bytes_eq_flatMap, List.mem_flatMap]
  rintro ⟨c, listed, inside⟩
  exact unbroken (Text.eq_newline_of_mem inside ▸ listed)

/-! ## Rows and their texts -/

namespace Scalar

/-- What is left of a value in a JSON text. -/
def settled : Scalar → Scalar
  | .float x => if x.isFinite then .float x else .null
  | other => other

/-- Integers of 64 bits with sign, finite doubles that read back from their texts, and all other
values. -/
def Portable : Scalar → Prop
  | .int n => fits n = true
  | .float x => x.isFinite = true → Json.Faithful x
  | _ => True

instance : (value : Scalar) → Decidable value.Portable
  | .int n => inferInstanceAs (Decidable (fits n = true))
  | .float x => inferInstanceAs (Decidable (x.isFinite = true → Json.Faithful x))
  | .null | .bool _ | .text _ => isTrue trivial

theorem ofJson_toJson {value : Scalar} (portable : value.Portable) :
    ofJson value.toJson = value.settled := by
  cases value with
  | int n =>
    have within : fits n = true := portable
    rw [toJson, ofJson, if_pos within]
    rfl
  | float x =>
    rw [toJson, settled]
    split
    · next finite => rw [ofJson, if_pos finite]
    · rfl
  | _ => rfl

theorem legible_toJson {value : Scalar} (portable : value.Portable) (levels : Nat) :
    Json.Legible levels value.toJson := by
  cases value with
  | null => exact .null levels
  | bool b => exact .bool levels b
  | int n =>
    have within : -(Count.half : Int) ≤ n ∧ n < Count.half := by
      simpa [Portable, fits] using portable
    exact .int within.1 (within.2.trans (by decide))
  | float x =>
    rw [toJson]
    split
    · next finite => exact .float (portable finite)
    · exact .null levels
  | text s => exact .text levels s

theorem canonical_toJson (value : Scalar) : value.toJson.canonical = value.toJson := by
  cases value with
  | float x =>
    rw [toJson]
    split <;> rfl
  | _ => rfl

end Scalar

namespace Record

def last? (row : Record) (name : String) : Option Scalar :=
  (row.fields.reverse.find? (·.1 == name)).map (·.2)

/-- One field for each name of a row, in ascending order, with what is left of the last value under
that name. -/
structure Settles (row back : Record) : Prop where
  ascending : back.names.Pairwise (· < ·)
  mem_names_iff : ∀ name, name ∈ back.names ↔ name ∈ row.names
  mem_iff : ∀ name value, (name, value) ∈ back.fields ↔
    (row.last? name).map Scalar.settled = some value

variable {row : Record}

theorem mem_names_iff {name : String} : name ∈ row.names ↔ (row.last? name).isSome = true := by
  rw [last?, Option.isSome_map, List.find?_isSome, names, List.mem_map]
  simp only [List.mem_reverse, beq_iff_eq]

theorem mem_of_last? {name : String} {value : Scalar} (found : row.last? name = some value) :
    (name, value) ∈ row.fields := by
  obtain ⟨field, first, rfl⟩ := Option.map_eq_some_iff.mp found
  have named := List.find?_some first
  rw [← eq_of_beq named]
  exact List.mem_reverse.mp (List.mem_of_find?_eq_some first)

def jsonFields (row : Record) : List (String × Json) :=
  Json.sortFields (row.fields.map fun field => (field.1, field.2.toJson))

theorem mem_jsonFields_iff {name : String} {value : Json} :
    (name, value) ∈ row.jsonFields ↔ (row.last? name).map Scalar.toJson = some value := by
  rw [jsonFields, Json.mem_sortFields_iff, ← List.map_reverse, List.find?_map, last?,
    Option.map_map, Option.map_map]
  rfl

theorem exists_of_mem_jsonFields {field : String × Json} (listed : field ∈ row.jsonFields) :
    ∃ value, (field.1, value) ∈ row.fields ∧ field.2 = value.toJson := by
  obtain ⟨value, found, same⟩ := Option.map_eq_some_iff.mp (mem_jsonFields_iff.mp listed)
  exact ⟨value, mem_of_last? found, same.symm⟩

theorem pairwise_jsonFields (row : Record) : (row.jsonFields.map (·.1)).Pairwise (· < ·) :=
  Json.pairwise_sortFields _

theorem canonical_toJson (row : Record) : row.toJson.canonical = row.toJson := by
  -- the fields that are left are some of the fields of the row
  have fields : ∀ fields : List (String × Json), (∀ field ∈ fields, field ∈ row.jsonFields) →
      Json.canonicalFields fields = fields := by
    intro fields listed
    induction fields with
    | nil => rfl
    | cons field rest ih =>
      obtain ⟨here, later⟩ := List.forall_mem_cons.mp listed
      obtain ⟨value, -, same⟩ := exists_of_mem_jsonFields here
      rw [Json.canonicalFields, ih later, same, Scalar.canonical_toJson, ← same]
  change Json.object (Json.sortFields (Json.canonicalFields row.jsonFields)) =
    .object row.jsonFields
  rw [fields _ fun _ listed => listed, Json.sortFields_of_pairwise row.pairwise_jsonFields]

theorem ofJson_toJson (row : Record) :
    ofJson row.toJson = ⟨row.jsonFields.map fun field => (field.1, Scalar.ofJson field.2)⟩ := by
  rw [ofJson, canonical_toJson]
  rfl

/-- A row is read from its JSON object with one field for each name. -/
theorem settles_ofJson (portable : ∀ field ∈ row.fields, field.2.Portable) :
    row.Settles (ofJson row.toJson) := by
  have listed : ∀ name value, (name, value) ∈ (ofJson row.toJson).fields ↔
      (row.last? name).map Scalar.settled = some value := by
    intro name value
    have back : (row.last? name).map (Scalar.ofJson ∘ Scalar.toJson) =
        (row.last? name).map Scalar.settled :=
      Option.map_congr fun last found => Scalar.ofJson_toJson (portable _ (mem_of_last? found))
    calc (name, value) ∈ (ofJson row.toJson).fields
        ↔ ∃ json, (name, json) ∈ row.jsonFields ∧ Scalar.ofJson json = value := by
          rw [ofJson_toJson, List.mem_map]
          constructor
          · rintro ⟨field, among, same⟩
            cases same
            exact ⟨_, among, rfl⟩
          · rintro ⟨json, among, rfl⟩
            exact ⟨_, among, rfl⟩
      _ ↔ ((row.last? name).map Scalar.toJson).map Scalar.ofJson = some value := by
          simp only [mem_jsonFields_iff, Option.map_eq_some_iff]
      _ ↔ (row.last? name).map Scalar.settled = some value := by
          rw [Option.map_map, back]
  refine ⟨?_, fun name => Iff.trans ?_ mem_names_iff.symm, listed⟩
  · rw [ofJson_toJson, names, List.map_map]
    exact row.pairwise_jsonFields
  · rw [← Option.isSome_map, Option.isSome_iff_exists, names, List.mem_map]
    constructor
    · rintro ⟨⟨_, value⟩, among, rfl⟩
      exact ⟨value, (listed _ _).mp among⟩
    · rintro ⟨value, found⟩
      exact ⟨_, (listed _ _).mpr found, rfl⟩

theorem read?_write (portable : ∀ field ∈ row.fields, field.2.Portable) :
    Json.read? row.toJson.write = some row.toJson := by
  have legible : Json.Legible 1 row.toJson := .object fun field listed => by
    obtain ⟨value, among, same⟩ := exists_of_mem_jsonFields listed
    exact same ▸ Scalar.legible_toJson (portable _ among) 0
  exact Json.read?_write legible (by decide)

end Record

/-! ## Files of rows -/

/-- An output is a list of lines, each ended by a line feed, from which rows are read back. -/
structure Framing (rows : List Record) (output : String) (lines : List String) : Prop where
  bytes_eq : Text.bytes output = lines.flatMap fun line => Text.bytes line ++ [Text.lineFeed]
  unbroken : ∀ line ∈ lines, Text.lineFeed ∉ Text.bytes line
  read : List.Forall₂ (fun row line => ∃ value, Json.read? line = some value ∧
    row.Settles (Record.ofJson value)) rows lines

/-- Rows are written one to a line, and each is read back from its own line. -/
theorem framing_jsonLines {rows : List Record}
    (portable : ∀ row ∈ rows, ∀ field ∈ row.fields, field.2.Portable) :
    Framing rows (jsonLines rows) (rows.map fun row => row.toJson.write) where
  bytes_eq := by
    rw [jsonLines, Text.bytes_join, List.flatMap_map, List.flatMap_map]
    simp only [Text.bytes_append]
    rfl
  unbroken := List.forall_mem_map.mpr fun row _ => (Json.unbroken_write _).lineFeed_notMem
  read := by
    rw [List.forall₂_map_right_iff, List.forall₂_same]
    exact fun row listed => ⟨row.toJson, Record.read?_write (portable row listed),
      Record.settles_ofJson (portable row listed)⟩

def notes : List Record :=
  [⟨[("b", .int (-9223372036854775808)), ("a", .text "one\n\"two\"\\\x01é"), ("b", .float 1)]⟩,
    ⟨[("top", .int 9223372036854775807), ("", .null), ("none", .float Numeral.undefinedDouble),
      ("tenth", .float 0.1)]⟩]

theorem framing_jsonLines_notes :
    (notes.map fun row => row.toJson.write) =
      ["\x7b\"a\":\"one\\n\\\"two\\\"\\\\\\u0001é\",\"b\":1.0\x7d",
        "\x7b\"\":null,\"none\":null,\"tenth\":0.1,\"top\":9223372036854775807\x7d"] ∧
    Framing notes (jsonLines notes) (notes.map fun row => row.toJson.write) :=
  ⟨by decide +kernel, framing_jsonLines (by decide +kernel)⟩

end CrossPlan
