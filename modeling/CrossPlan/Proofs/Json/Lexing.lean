import CrossPlan.Json.Reading
import CrossPlan.Json.Writing
import Mathlib.Data.List.Forall2

/-!
# How JSON values are cut into tokens

A number or a word ends only where something else follows it, so a text that ends with one leaves
the lexer inside of it.  What counts is that the lexer holds the tokens of the text as soon as the
text ends or a mark follows, as one does behind each value in a container.
-/

set_option autoImplicit false

namespace CrossPlan.Json

/-! ## Texts and their tokens -/

def followers : List Char := [',', ']', '\x7d']

/-- At the end of the text, and at a mark behind it, the lexer goes on as between tokens. -/
structure Lexer.Holds (lexer : Lexer) (tokens : List Token) : Prop where
  finish : lexer.finish = some ⟨.between, tokens⟩
  step : ∀ c ∈ followers, lexer.step c = Lexer.start ⟨.between, tokens⟩ c

/-- A token that ends with the text is ended by a mark as well. -/
theorem Lexer.Holds.of_finish {lexer : Lexer} {tokens : List Token}
    (ended : lexer.finish = some ⟨.between, tokens⟩)
    (passes : ∀ c ∈ followers, lexer.step c = lexer.finish.bind (·.start c)) :
    lexer.Holds tokens :=
  ⟨ended, fun c follows => by rw [passes c follows, ended, Option.bind_some]⟩

/-- A text that is cut into tokens, the last of which may be ended by what follows. -/
def Spells (text : List Char) (tokens : List Token) : Prop :=
  ∀ before, ∃ lexer, text.foldlM Lexer.step ⟨.between, before⟩ = some lexer ∧
    lexer.Holds (tokens.reverse ++ before)

def Closes (text : List Char) (tokens : List Token) : Prop :=
  ∀ before, text.foldlM Lexer.step ⟨.between, before⟩ = some ⟨.between, tokens.reverse ++ before⟩

variable {first second : List Char} {tokens tokens' : List Token}

theorem Closes.spells (closes : Closes first tokens) : Spells first tokens :=
  fun before => ⟨_, closes before, rfl, fun _ _ => rfl⟩

theorem Closes.nil : Closes [] [] := fun _ => rfl

theorem Closes.append_spells (closes : Closes first tokens) (behind : Spells second tokens') :
    Spells (first ++ second) (tokens ++ tokens') := by
  intro before
  rw [List.foldlM_append, closes before, Option.bind_eq_bind, Option.bind_some,
    List.reverse_append, List.append_assoc]
  exact behind _

/-- A mark ends whatever stands before it. -/
theorem Spells.followed {c : Char} {token : Token} (spells : Spells first tokens)
    (mark : Closes [c] [token]) (follows : c ∈ followers) :
    Closes (first ++ [c]) (tokens ++ [token]) := by
  intro before
  obtain ⟨lexer, cut, holds⟩ := spells before
  have next := mark (tokens.reverse ++ before)
  rw [List.foldlM_cons] at next
  rw [List.foldlM_append, cut, Option.bind_eq_bind, Option.bind_some, List.foldlM_cons,
    holds.step c follows, List.reverse_append, List.append_assoc]
  exact next

theorem closes_openList : Closes ['['] [.openList] := fun _ => rfl

theorem closes_closeList : Closes [']'] [.closeList] := fun _ => rfl

theorem closes_openObject : Closes ['\x7b'] [.openObject] := fun _ => rfl

theorem closes_closeObject : Closes ['\x7d'] [.closeObject] := fun _ => rfl

theorem closes_comma : Closes [','] [.comma] := fun _ => rfl

theorem closes_colon : Closes [':'] [.colon] := fun _ => rfl

theorem spells_intercalate {texts : List (List Char)} {spellings : List (List Token)}
    (each : List.Forall₂ Spells texts spellings) :
    Spells (List.intercalate [','] texts) (List.intercalate [.comma] spellings) := by
  induction each with
  | nil => exact Closes.nil.spells
  | @cons text spelling texts spellings spells rest ih =>
    cases rest with
    | nil => rwa [List.intercalate_singleton, List.intercalate_singleton]
    | cons next later =>
      rw [List.intercalate_cons_cons, List.intercalate_cons_cons]
      -- the comma ends the item before it
      exact (spells.followed closes_comma (by decide)).append_spells ih

theorem closes_container {opening closing : Char} {start stop : Token}
    (begins : Closes [opening] [start]) (ends : Closes [closing] [stop])
    (follows : closing ∈ followers) {texts : List (List Char)} {spellings : List (List Token)}
    (each : List.Forall₂ Spells texts spellings) :
    Closes (opening :: List.intercalate [','] texts ++ [closing])
      (start :: List.intercalate [.comma] spellings ++ [stop]) :=
  (begins.append_spells (spells_intercalate each)).followed ends follows

/-! ## Words and numbers -/

theorem spells_word {text : List Char} (seen : List Char) {value : Json}
    (cut : ∀ before, text.foldlM Lexer.step ⟨.between, before⟩ = some ⟨.word seen, before⟩)
    (known : literal? seen = some value) : Spells text [.scalar value] := by
  intro before
  have ended : Lexer.finish ⟨.word seen, before⟩ = some ⟨.between, .scalar value :: before⟩ := by
    simp only [Lexer.finish, known, Option.map_some]
    rfl
  refine ⟨_, cut before, .of_finish ended fun c follows => ?_⟩
  have outside : followers.all (fun c => !c.isLower) = true := by decide
  have apart := Bool.not_eq_true' _ ▸ List.all_eq_true.mp outside c follows
  simp only [Lexer.step, apart, Bool.false_eq_true, if_false]

theorem spells_null : Spells "null".toList [.scalar .null] :=
  spells_word ['l', 'l', 'u', 'n'] (fun _ => rfl) rfl

theorem spells_bool (b : Bool) :
    Spells (if b then "true" else "false").toList [.scalar (.bool b)] := by
  cases b with
  | false => exact spells_word ['e', 's', 'l', 'a', 'f'] (fun _ => rfl) rfl
  | true => exact spells_word ['e', 'u', 'r', 't'] (fun _ => rfl) rfl

theorem start_number {c : Char} (part : isNumberChar c = true) (before : List Token) :
    Lexer.start ⟨.between, before⟩ c = some ⟨.number [c], before⟩ := by
  have others : [' ', '\n', '\t', '\r', '[', ']', '\x7b', '\x7d', ',', ':', '"'].all
      (fun d => !isNumberChar d) = true := by
    decide
  have apart : ∀ d ∈ [' ', '\n', '\t', '\r', '[', ']', '\x7b', '\x7d', ',', ':', '"'],
      c ≠ d := by
    rintro d listed rfl
    have none := List.all_eq_true.mp others c listed
    rw [part] at none
    cases none
  simp only [List.forall_mem_cons] at apart
  simp only [Lexer.start, apart, part, or_self, if_false, if_true]

theorem foldlM_number {text : List Char} (parts : ∀ c ∈ text, isNumberChar c = true)
    (seen : List Char) (before : List Token) :
    text.foldlM Lexer.step ⟨.number seen, before⟩ =
      some ⟨.number (text.reverse ++ seen), before⟩ := by
  induction text generalizing seen with
  | nil => rfl
  | cons c rest ih =>
    obtain ⟨part, parts⟩ := List.forall_mem_cons.mp parts
    rw [List.foldlM_cons, Lexer.step]
    simp only [part, if_true, Option.bind_eq_bind, Option.bind_some]
    rw [ih parts, List.reverse_cons, List.append_assoc, List.singleton_append]

theorem foldlM_number_start {text : List Char} (some : text ≠ [])
    (parts : ∀ c ∈ text, isNumberChar c = true) (before : List Token) :
    text.foldlM Lexer.step ⟨.between, before⟩ = .some ⟨.number text.reverse, before⟩ := by
  cases text with
  | nil => exact absurd rfl some
  | cons c rest =>
    obtain ⟨part, parts⟩ := List.forall_mem_cons.mp parts
    have first : Lexer.step ⟨.between, before⟩ c = Option.some ⟨.number [c], before⟩ :=
      start_number part before
    rw [List.foldlM_cons, first, Option.bind_eq_bind, Option.bind_some, foldlM_number parts,
      List.reverse_cons]

theorem spells_number {text : List Char} {value : Json} (some : text ≠ [])
    (parts : ∀ c ∈ text, isNumberChar c = true) (known : number? text = Option.some value) :
    Spells text [.scalar value] := by
  intro before
  have ended : Lexer.finish ⟨.number text.reverse, before⟩ =
      Option.some ⟨.between, .scalar value :: before⟩ := by
    simp only [Lexer.finish, List.reverse_reverse, known, Option.map_some]
    rfl
  refine ⟨_, foldlM_number_start some parts before, .of_finish ended fun c follows => ?_⟩
  have outside : followers.all (fun c => !isNumberChar c) = true := by decide
  have apart := Bool.not_eq_true' _ ▸ List.all_eq_true.mp outside c follows
  simp only [Lexer.step, apart, Bool.false_eq_true, if_false]

/-! ## Quoted texts -/

theorem digit?_hexDigit {n : Nat} (single : n < 16) : Numeral.digit? 16 (hexDigit n) = some n := by
  revert n
  decide

theorem foldlM_unit {c : Char} (control : c.toNat < 32) (seen : List Char) (before : List Token) :
    ['\\', 'u', '0', '0', hexDigit (c.toNat / 16), hexDigit (c.toNat % 16)].foldlM Lexer.step
      ⟨.text seen, before⟩ = some ⟨.text (c :: seen), before⟩ := by
  have high := digit?_hexDigit (n := c.toNat / 16) (by omega)
  have low := digit?_hexDigit (n := c.toNat % 16) (by omega)
  have whole : 16 * (c.toNat / 16) + c.toNat % 16 = c.toNat := Nat.div_add_mod _ _
  have start : ['\\', 'u', '0', '0'].foldlM Lexer.step ⟨.text seen, before⟩ =
      some ⟨.unit seen none 2 0, before⟩ := rfl
  have next : Lexer.step ⟨.unit seen none 2 0, before⟩ (hexDigit (c.toNat / 16)) =
      some ⟨.unit seen none 1 (c.toNat / 16), before⟩ := by
    simp [Lexer.step, high]
  have last : Lexer.step ⟨.unit seen none 1 (c.toNat / 16), before⟩ (hexDigit (c.toNat % 16)) =
      some ⟨.text (c :: seen), before⟩ := by
    have single : unitMode seen none c.toNat = some (.text (c :: seen)) := by
      rw [unitMode, if_neg (by omega), if_neg (by omega), Char.ofNat_toNat]
    simp [Lexer.step, low, whole, single]
  change (['\\', 'u', '0', '0'] ++ [_, _]).foldlM _ _ = _
  rw [List.foldlM_append, start, Option.bind_eq_bind, Option.bind_some, List.foldlM_cons, next,
    Option.bind_eq_bind, Option.bind_some, List.foldlM_cons, last]
  rfl

/-- The characters that stand for one character are read as that one. -/
theorem foldlM_escape (c : Char) (seen : List Char) (before : List Token) :
    (escape c).foldlM Lexer.step ⟨.text seen, before⟩ = some ⟨.text (c :: seen), before⟩ := by
  have marked : ∀ d ∈ ['"', '\\', '\x08', '\x0c', '\n', '\r', '\t'],
      (escape d).foldlM Lexer.step ⟨.text seen, before⟩ = some ⟨.text (d :: seen), before⟩ := by
    simp only [List.forall_mem_cons]
    exact ⟨rfl, rfl, rfl, rfl, rfl, rfl, rfl, fun _ none => absurd none List.not_mem_nil⟩
  by_cases listed : c ∈ ['"', '\\', '\x08', '\x0c', '\n', '\r', '\t']
  · exact marked c listed
  · simp only [List.mem_cons, List.not_mem_nil, or_false, not_or] at listed
    simp only [escape, listed, if_false]
    split
    · next control => exact foldlM_unit control seen before
    · next plain => simp [Lexer.step, listed, plain]

theorem foldlM_escapes (text seen : List Char) (before : List Token) :
    (text.flatMap escape).foldlM Lexer.step ⟨.text seen, before⟩ =
      some ⟨.text (text.reverse ++ seen), before⟩ := by
  induction text generalizing seen with
  | nil => rfl
  | cons c rest ih =>
    rw [List.flatMap_cons, List.foldlM_append, foldlM_escape, Option.bind_eq_bind, Option.bind_some,
      ih, List.reverse_cons, List.append_assoc, List.singleton_append]

theorem closes_quote (s : String) : Closes (quote s).toList [.scalar (.text s)] := by
  intro before
  have opened : Lexer.step ⟨.between, before⟩ '"' = some ⟨.text [], before⟩ := rfl
  have closed : Lexer.step ⟨.text s.toList.reverse, before⟩ '"' =
      some ⟨.between, .scalar (.text s) :: before⟩ := by
    simp [Lexer.step, Lexer.push]
  rw [quote, String.toList_ofList, List.cons_append, List.foldlM_cons, opened, Option.bind_eq_bind,
    Option.bind_some, List.foldlM_append, foldlM_escapes, List.append_nil, Option.bind_eq_bind,
    Option.bind_some, List.foldlM_cons, closed]
  rfl

end CrossPlan.Json
