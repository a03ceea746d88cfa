import CrossPlan.Predicate.Token
import Mathlib.Data.List.TakeWhile
import Mathlib.Tactic.SplitIfs

/-!
# How predicates are cut into tokens

A text is a sequence of tokens with blanks around them.  Words and comparisons are as long as they
can be, and a quoted text ends at the next quote of its kind.  Cutting a text up goes on until the
text is used up or nothing can be cut off any more: a quote has no end, or an equals sign or an
exclamation mark stands alone.
-/

set_option autoImplicit false

namespace CrossPlan.Predicate

def IsQuote (c : Char) : Prop := c = '\'' ∨ c = '"'

/-- How a token is spelled in front of further characters. -/
inductive Token.Spelled : Token → (spelling behind : List Char) → Prop
  | open (behind : List Char) : Token.Spelled .open ['('] behind
  | close (behind : List Char) : Token.Spelled .close [')'] behind
  | broadcast (behind : List Char) : Token.Spelled .broadcast ['@'] behind
  | comparison {comparison : Comparison} {behind : List Char}
      (longest : comparison = .lt ∨ comparison = .gt → behind.head? ≠ some '=') :
      Token.Spelled (.comparison comparison) comparison.symbol.toList behind
  | quoted {quote : Char} {text : List Char} (kind : IsQuote quote) (inside : quote ∉ text)
      (behind : List Char) :
      Token.Spelled (.quoted (String.ofList text)) (quote :: text ++ [quote]) behind
  | word {text behind : List Char} (some : text ≠ []) (plain : ∀ c ∈ text, isWordChar c = true)
      (longest : ∀ c, behind.head? = Option.some c → isWordChar c = false) :
      Token.Spelled (.word (String.ofList text)) text behind

/-- Tokens are cut off the front of a text, and the rest of it is left. -/
inductive Lexes : (text : List Char) → List Token → (rest : List Char) → Prop
  | stop (rest : List Char) : Lexes rest [] rest
  | blank {c : Char} {text rest : List Char} {tokens : List Token} (blank : Text.isBlank c = true)
      (more : Lexes text tokens rest) : Lexes (c :: text) tokens rest
  | token {token : Token} {spelling text rest : List Char} {tokens : List Token}
      (spelled : token.Spelled spelling text) (more : Lexes text tokens rest) :
      Lexes (spelling ++ text) (token :: tokens) rest

/-- Nothing can be cut off: a quote is not closed, or a sign that belongs to a comparison stands
alone. -/
inductive Jammed : List Char → Prop
  | unclosed {quote : Char} {rest : List Char} (kind : IsQuote quote) (inside : quote ∉ rest) :
      Jammed (quote :: rest)
  | alone {c : Char} {rest : List Char} (sign : c = '=' ∨ c = '!')
      (next : rest.head? ≠ some '=') : Jammed (c :: rest)

/-! ## Kinds of characters -/

theorem isSpecial_iff {c : Char} : isSpecial c = true ↔ c = '(' ∨ c = ')' ∨ c = '@' ∨
    IsQuote c ∨ c = '=' ∨ c = '!' ∨ c = '<' ∨ c = '>' := by
  simp only [isSpecial, IsQuote, String.reduceToList, List.contains_eq_mem, List.mem_cons,
    List.not_mem_nil, or_false, decide_eq_true_eq, or_assoc]

theorem isWordChar_iff {c : Char} :
    isWordChar c = true ↔ Text.isBlank c = false ∧ isSpecial c = false := by
  simp only [isWordChar, Bool.and_eq_true, Bool.not_eq_true']

theorem not_isBlank_of_isSpecial {c : Char} (special : isSpecial c = true) :
    Text.isBlank c = false := by
  rcases isSpecial_iff.mp special with rfl | rfl | rfl | (rfl | rfl) | rfl | rfl | rfl | rfl <;>
    decide

/-! ## What the scanner does with the next characters -/

theorem scan_plain {c : Char} (plain : isSpecial c = false) (text : List Char) :
    (scan .between (c :: text) =
      if Text.isBlank c then scan .between text else scan (.word [c]) text) ∧
    ∀ word, scan (.word word) (c :: text) =
      if Text.isBlank c then (scan .between text).map (.word (String.ofList word.reverse) :: ·)
      else scan (.word (c :: word)) text := by
  have others := (not_congr isSpecial_iff).mp (Bool.eq_false_iff.mp plain)
  simp only [IsQuote, not_or] at others
  constructor
  · rw [scan] <;> simp [others, plain, Scan.word?]
  · intro word
    rw [scan] <;> simp [others, plain, Scan.word?]

/-- A sign that may begin a comparison of two signs stands for itself, or for nothing. -/
theorem scan_alone {text : List Char} (next : text.head? ≠ some '=') :
    scan .between ('<' :: text) = (scan .between text).map (.comparison .lt :: ·) ∧
    scan .between ('>' :: text) = (scan .between text).map (.comparison .gt :: ·) ∧
    scan .between ('=' :: text) = none ∧ scan .between ('!' :: text) = none := by
  have following : ∀ rest, text ≠ '=' :: rest := by
    rintro rest rfl
    exact next rfl
  refine ⟨?_, ?_, ?_, ?_⟩ <;> (rw [scan] <;> simp [following, isSpecial, Scan.word?])

theorem scan_blank {c : Char} (blank : Text.isBlank c = true) (text : List Char) :
    scan .between (c :: text) = scan .between text := by
  have plain : isSpecial c = false := by
    by_contra special
    rw [Bool.not_eq_false] at special
    rw [not_isBlank_of_isSpecial special] at blank
    cases blank
  rw [(scan_plain plain text).1, if_pos blank]

theorem scan_word_char {c : Char} (plain : isWordChar c = true) (word text : List Char) :
    scan (.word word) (c :: text) = scan (.word (c :: word)) text := by
  obtain ⟨seen, ordinary⟩ := isWordChar_iff.mp plain
  rw [(scan_plain ordinary text).2, seen]
  rfl

theorem scan_word_start {c : Char} (plain : isWordChar c = true) (text : List Char) :
    scan .between (c :: text) = scan (.word [c]) text := by
  obtain ⟨seen, ordinary⟩ := isWordChar_iff.mp plain
  rw [(scan_plain ordinary text).1, seen]
  rfl

theorem scan_word_end {text : List Char}
    (ends : ∀ c, text.head? = some c → isWordChar c = false) (word : List Char) :
    scan (.word word) text =
      (scan .between text).map (.word (String.ofList word.reverse) :: ·) := by
  cases text with
  | nil => rfl
  | cons c text =>
    have apart := ends c rfl
    simp only [isWordChar, Bool.and_eq_false_iff, Bool.not_eq_false'] at apart
    rw [scan.eq_def, scan.eq_def .between]
    split <;> simp_all only [Scan.word?, List.nil_append, List.cons_append, Option.map_map,
      List.cons.injEq, reduceCtorEq] <;> try rfl
    -- one character alone: the same case of the scanner on both sides
    split_ifs <;> simp_all [Function.comp_def]

theorem scan_word {word : List Char} (plain : ∀ c ∈ word, isWordChar c = true) {text : List Char}
    (ends : ∀ c, text.head? = some c → isWordChar c = false) (before : List Char) :
    scan (.word before) (word ++ text) =
      (scan .between text).map (.word (String.ofList (before.reverse ++ word)) :: ·) := by
  induction word generalizing before with
  | nil => simpa using scan_word_end ends before
  | cons c word ih =>
    rw [List.cons_append, scan_word_char (plain c List.mem_cons_self),
      ih fun d listed => plain d (List.mem_cons_of_mem c listed)]
    simp

theorem scan_inside (quote c : Char) (before text : List Char) :
    scan (.quoted quote before) (c :: text) =
      if c = quote then (scan .between text).map (.quoted (String.ofList before.reverse) :: ·)
      else scan (.quoted quote (c :: before)) text :=
  rfl

theorem scan_quoted {quote : Char} {inside : List Char} (apart : quote ∉ inside)
    (before text : List Char) :
    scan (.quoted quote before) (inside ++ quote :: text) =
      (scan .between text).map (.quoted (String.ofList (before.reverse ++ inside)) :: ·) := by
  induction inside generalizing before with
  | nil => simp [scan_inside]
  | cons c inside ih =>
    rw [List.mem_cons, not_or] at apart
    rw [List.cons_append, scan_inside, if_neg (Ne.symm apart.1), ih apart.2]
    simp

theorem scan_unclosed {quote : Char} {text : List Char} (apart : quote ∉ text)
    (before : List Char) : scan (.quoted quote before) text = none := by
  induction text generalizing before with
  | nil => rfl
  | cons c text ih =>
    rw [List.mem_cons, not_or] at apart
    rw [scan_inside, if_neg (Ne.symm apart.1), ih apart.2]

theorem scan_quote {quote : Char} (kind : IsQuote quote) (text : List Char) :
    scan .between (quote :: text) = scan (.quoted quote []) text := by
  rcases kind with rfl | rfl
  · exact Option.map_id'
  · exact Option.map_id'

theorem scan_spelled {token : Token} {spelling text : List Char}
    (spelled : token.Spelled spelling text) :
    scan .between (spelling ++ text) = (scan .between text).map (token :: ·) := by
  cases spelled with
  | «open» => rfl
  | close => rfl
  | broadcast => rfl
  | @comparison comparison _ longest =>
    cases comparison with
    | lt => exact (scan_alone (longest (Or.inl rfl))).1
    | gt => exact (scan_alone (longest (Or.inr rfl))).2.1
    | _ => rfl
  | @quoted quote inside kind apart =>
    rw [List.cons_append, List.cons_append, List.append_assoc, List.singleton_append,
      scan_quote kind, scan_quoted apart]
    rfl
  | word some plain longest =>
    cases spelling with
    | nil => exact absurd rfl some
    | cons c rest =>
      rw [List.cons_append, scan_word_start (plain c List.mem_cons_self),
        scan_word (fun d listed => plain d (List.mem_cons_of_mem c listed)) longest]
      rfl

theorem scan_jammed {text : List Char} (jammed : Jammed text) : scan .between text = none := by
  cases jammed with
  | unclosed kind inside => rw [scan_quote kind, scan_unclosed inside]
  | alone sign next =>
    rcases sign with rfl | rfl
    · exact (scan_alone next).2.2.1
    · exact (scan_alone next).2.2.2

/-! ## Cutting a text up -/

theorem scan_of_lexes {text rest : List Char} {tokens : List Token}
    (lexes : Lexes text tokens rest) :
    scan .between text = (scan .between rest).map (tokens ++ ·) := by
  induction lexes with
  | stop rest => simp
  | blank blank _ ih => rw [scan_blank blank, ih]
  | token spelled _ ih =>
    rw [scan_spelled spelled, ih, Option.map_map]
    rfl

theorem comparison_cut {c : Char} {text : List Char}
    (sign : c = '=' ∨ c = '!' ∨ c = '<' ∨ c = '>') (free : ¬ Jammed (c :: text)) :
    ∃ comparison : Comparison, ∃ rest, c :: text = comparison.symbol.toList ++ rest ∧
      (comparison = .lt ∨ comparison = .gt → rest.head? ≠ some '=') := by
  by_cases next : text.head? = some '='
  · obtain ⟨rest, rfl⟩ := List.head?_eq_some_iff.mp next
    rcases sign with rfl | rfl | rfl | rfl
    · exact ⟨.eq, rest, rfl, by simp⟩
    · exact ⟨.ne, rest, rfl, by simp⟩
    · exact ⟨.le, rest, rfl, by simp⟩
    · exact ⟨.ge, rest, rfl, by simp⟩
  · rcases sign with rfl | rfl | rfl | rfl
    · exact absurd (.alone (Or.inl rfl) next) free
    · exact absurd (.alone (Or.inr rfl) next) free
    · exact ⟨.lt, text, rfl, fun _ => next⟩
    · exact ⟨.gt, text, rfl, fun _ => next⟩

/-- Something can be cut off any text that is neither used up nor jammed. -/
theorem next_cut {c : Char} {text : List Char} (free : ¬ Jammed (c :: text)) :
    Text.isBlank c = true ∨ ∃ token spelling rest, c :: text = spelling ++ rest ∧
      spelling ≠ [] ∧ Token.Spelled token spelling rest := by
  cases blank : Text.isBlank c with
  | true => exact Or.inl rfl
  | false =>
    refine Or.inr ?_
    cases special : isSpecial c with
    | false =>
      -- a word reaches as far as the characters of words do
      have plain : isWordChar c = true := isWordChar_iff.mpr ⟨blank, special⟩
      have first : (c :: text).takeWhile isWordChar = c :: text.takeWhile isWordChar := by
        rw [List.takeWhile_cons, if_pos plain]
      refine ⟨_, (c :: text).takeWhile isWordChar, (c :: text).dropWhile isWordChar,
        List.takeWhile_append_dropWhile.symm, by simp [first],
        .word (by simp [first]) (fun d listed => List.mem_takeWhile_imp listed) ?_⟩
      intro d next
      have found := List.head?_dropWhile_not isWordChar (c :: text)
      rw [next] at found
      exact found
    | true =>
      rcases isSpecial_iff.mp special with rfl | rfl | rfl | quote | sign
      · exact ⟨.open, ['('], text, rfl, by simp, .open text⟩
      · exact ⟨.close, [')'], text, rfl, by simp, .close text⟩
      · exact ⟨.broadcast, ['@'], text, rfl, by simp, .broadcast text⟩
      · by_cases closed : c ∈ text
        · obtain ⟨inside, rest, rfl, apart⟩ := List.eq_append_cons_of_mem closed
          exact ⟨_, c :: inside ++ [c], rest, by simp, by simp, .quoted quote apart rest⟩
        · exact absurd (Jammed.unclosed quote closed) free
      · obtain ⟨comparison, rest, split, longest⟩ := comparison_cut sign free
        refine ⟨_, _, rest, split, ?_, .comparison longest⟩
        cases comparison <;> simp [Comparison.symbol]

theorem exists_lexes (text : List Char) :
    ∃ tokens rest, Lexes text tokens rest ∧ (rest = [] ∨ Jammed rest) := by
  induction length : text.length using Nat.strongRecOn generalizing text with
  | _ count ih =>
    cases text with
    | nil => exact ⟨[], [], .stop [], Or.inl rfl⟩
    | cons c text =>
      by_cases jammed : Jammed (c :: text)
      · exact ⟨[], c :: text, .stop _, Or.inr jammed⟩
      rcases next_cut jammed with blank | ⟨token, spelling, rest, split, some, spelled⟩
      · obtain ⟨tokens, rest, lexes, ends⟩ := ih text.length (by simp [← length]) text rfl
        exact ⟨tokens, rest, .blank blank lexes, ends⟩
      · have shorter : rest.length < count := by
          have positive := List.length_pos_iff.mpr some
          rw [← length, split, List.length_append]
          omega
        obtain ⟨tokens, last, lexes, ends⟩ := ih rest.length shorter rest rfl
        exact ⟨token :: tokens, last, split ▸ .token spelled lexes, ends⟩

theorem tokens?_iff {text : String} {tokens : List Token} :
    tokens? text = some tokens ↔ Lexes text.toList tokens [] := by
  constructor
  · intro found
    obtain ⟨others, rest, lexes, ends⟩ := exists_lexes text.toList
    rw [tokens?, scan_of_lexes lexes] at found
    rcases ends with rfl | jammed
    · have same : others ++ [] = tokens := Option.some.inj found
      rwa [← same, List.append_nil]
    · rw [scan_jammed jammed] at found
      cases found
  · intro lexes
    rw [tokens?, scan_of_lexes lexes]
    exact congrArg some (List.append_nil tokens)

/-- A text has no tokens exactly if cutting it up comes to a place where nothing can be cut off. -/
theorem tokens?_eq_none_iff {text : String} :
    tokens? text = none ↔ ∃ tokens rest, Lexes text.toList tokens rest ∧ Jammed rest := by
  constructor
  · intro nothing
    obtain ⟨tokens, rest, lexes, ends⟩ := exists_lexes text.toList
    rcases ends with rfl | jammed
    · rw [tokens?_iff.mpr lexes] at nothing
      cases nothing
    · exact ⟨tokens, rest, lexes, jammed⟩
  · rintro ⟨tokens, rest, lexes, jammed⟩
    rw [tokens?, scan_of_lexes lexes, scan_jammed jammed]
    rfl

end CrossPlan.Predicate
