import CrossPlan.Estimation.Cardinality
import CrossPlan.Proofs.Predicate.Grammar
import Mathlib.Data.List.Infix

/-!
# Selectivity and the spelling of a predicate

The share of rows that a filter is taken to keep is judged by the text of its predicate, which is
searched for signs.  What is found outside of quotes are the comparisons of the predicate, and what
is found in quotes are parts of its literals and patterns.  But a membership is found only where it
is spelled with small letters and single blanks, so that two texts of one predicate can be judged
differently.
-/

set_option autoImplicit false

namespace CrossPlan

/-! ## Parts of texts -/

theorem Text.occurs_iff {part s : List Char} : occurs part s = true ↔ part <:+: s := by
  unfold occurs
  induction s with
  | nil => cases part <;> simp [find?]
  | cons c s ih =>
    have first : (after? part (c :: s)).isSome = true ↔ part <+: c :: s := by
      simp only [Option.isSome_iff_exists, after?_eq_some_iff]
      exact exists_congr fun rest => eq_comm
    rw [find?, List.infix_cons_iff, ← first, ← ih]
    split
    · next here => simp [here]
    · next elsewhere => simp [elsewhere]

theorem infix_append_cons_iff {part a b : List Char} {c : Char} (apart : c ∉ part) :
    part <:+: a ++ c :: b ↔ part <:+: a ∨ part <:+: b := by
  constructor
  · rintro ⟨before, behind, whole⟩
    rcases List.append_eq_append_iff.mp whole with ⟨rest, rfl, -⟩ | ⟨rest, split, cut⟩
    · exact .inl ⟨before, rest, rfl⟩
    · cases rest with
      | nil => exact .inl ⟨before, [], by simpa using split⟩
      | cons d rest =>
        obtain ⟨rfl, rfl⟩ := List.cons_eq_cons.mp cut
        -- the character lies in front of the part, as it is not in it
        rcases List.append_eq_append_iff.mp split with ⟨gap, rfl, rest'⟩ | ⟨gap, rfl, rest'⟩
        · exact absurd (rest' ▸ List.mem_append_right gap List.mem_cons_self) apart
        · cases gap with
          | nil =>
            rw [List.nil_append] at rest'
            exact absurd (rest' ▸ List.mem_cons_self) apart
          | cons e gap =>
            obtain ⟨rfl, rfl⟩ := List.cons_eq_cons.mp rest'
            exact .inr ⟨gap, behind, rfl⟩
  · rintro (left | right)
    · exact left.trans (List.prefix_append a _).isInfix
    · exact right.trans ((List.suffix_cons c b).trans (List.suffix_append a _)).isInfix

theorem infix_cons_iff_of_notMem {part b : List Char} {c : Char} (apart : c ∉ part) :
    part <:+: c :: b ↔ part <:+: b := by
  rw [← List.nil_append (c :: b), infix_append_cons_iff apart, List.infix_nil, or_iff_right_iff_imp]
  rintro rfl
  exact List.nil_infix

theorem infix_of_infix_append {c : Char} {part front s : List Char} (apart : c ∉ front)
    (found : c :: part <:+: front ++ s) : c :: part <:+: s := by
  induction front with
  | nil => exact found
  | cons d front ih =>
    rw [List.mem_cons, not_or] at apart
    rcases List.infix_cons_iff.mp found with here | later
    · exact absurd (List.cons_prefix_cons.mp here).1 apart.1
    · exact ih apart.2 later

namespace Predicate

/-! ## What is outside of quotes -/

instance (c : Char) : Decidable (IsQuote c) := inferInstanceAs (Decidable (c = '\'' ∨ c = '"'))

/-- A text without what is in its quotes, from a place that may be within a quote. -/
def outside : Option Char → List Char → List Char
  | _, [] => []
  | none, c :: rest => c :: outside (if IsQuote c then some c else none) rest
  | some quote, c :: rest =>
    if c = quote then c :: outside none rest else outside (some quote) rest

def Token.hollow : Token → Token
  | .quoted _ => .quoted ""
  | token => token

theorem Token.hollow_eq {token : Token} (other : ∀ literal, token ≠ .quoted literal) :
    token.hollow = token := by
  cases token with
  | quoted literal => exact absurd rfl (other literal)
  | word | comparison | broadcast | «open» | close => rfl

theorem outside_cons {c : Char} (plain : ¬ IsQuote c) (text : List Char) :
    outside none (c :: text) = c :: outside none text := by
  rw [outside, if_neg plain]

theorem outside_append {front : List Char} (plain : ∀ c ∈ front, ¬ IsQuote c) (text : List Char) :
    outside none (front ++ text) = front ++ outside none text := by
  induction front with
  | nil => rfl
  | cons c front ih =>
    rw [List.cons_append, outside_cons (plain c List.mem_cons_self),
      ih fun d listed => plain d (List.mem_cons_of_mem c listed)]
    rfl

theorem outside_within {quote : Char} {inside : List Char} (apart : quote ∉ inside)
    (text : List Char) :
    outside (some quote) (inside ++ quote :: text) = quote :: outside none text := by
  induction inside with
  | nil => exact if_pos rfl
  | cons c inside ih =>
    rw [List.mem_cons, not_or] at apart
    rw [List.cons_append, outside, if_neg (Ne.symm apart.1), ih apart.2]

theorem outside_quoted {quote : Char} (kind : IsQuote quote) {inside : List Char}
    (apart : quote ∉ inside) (text : List Char) :
    outside none (quote :: inside ++ [quote] ++ text) = quote :: quote :: outside none text := by
  rw [List.append_assoc, List.cons_append, outside, if_pos kind, List.singleton_append,
    outside_within apart]

theorem head?_outside (text : List Char) : (outside none text).head? = text.head? := by
  cases text <;> rfl

theorem Token.Spelled.plain {token : Token} {spelling behind : List Char}
    (spelled : token.Spelled spelling behind) :
    (∃ quote inside, IsQuote quote ∧ quote ∉ inside ∧ token = .quoted (String.ofList inside) ∧
      spelling = quote :: inside ++ [quote]) ∨
    (∀ literal, token ≠ .quoted literal) ∧
      (∀ other, other.head? = behind.head? → token.Spelled spelling other) ∧
      ∀ c ∈ spelling, ¬ IsQuote c := by
  cases spelled with
  | «open» => exact .inr ⟨by simp, fun other _ => .open other, by simp [IsQuote]⟩
  | close => exact .inr ⟨by simp, fun other _ => .close other, by simp [IsQuote]⟩
  | broadcast => exact .inr ⟨by simp, fun other _ => .broadcast other, by simp [IsQuote]⟩
  | @comparison comparison _ longest =>
    refine .inr ⟨by simp, fun other same => .comparison (same ▸ longest), ?_⟩
    cases comparison <;> simp [Comparison.symbol, IsQuote]
  | @quoted quote inside kind apart => exact .inl ⟨quote, inside, kind, apart, rfl, rfl⟩
  | word some plain longest =>
    refine .inr ⟨by simp, fun other same => .word some plain (same ▸ longest), ?_⟩
    intro c listed quote
    have ordinary := (isWordChar_iff.mp (plain c listed)).2
    rw [isSpecial_iff.mpr (.inr (.inr (.inr (.inl quote))))] at ordinary
    cases ordinary

theorem not_isQuote_of_isBlank {c : Char} (blank : Text.isBlank c = true) : ¬ IsQuote c := by
  intro quote
  rw [not_isBlank_of_isSpecial (isSpecial_iff.mpr (.inr (.inr (.inr (.inl quote)))))] at blank
  cases blank

/-- What is left of a text outside of quotes is cut into the same tokens, with nothing quoted. -/
theorem lexes_outside {text rest : List Char} {tokens : List Token} (lexes : Lexes text tokens rest)
    (ends : rest = []) : Lexes (outside none text) (tokens.map Token.hollow) [] := by
  induction lexes with
  | stop rest =>
    subst ends
    exact .stop []
  | blank blank _ ih =>
    rw [outside_cons (not_isQuote_of_isBlank blank)]
    exact .blank blank (ih ends)
  | @token token spelling text rest tokens spelled _ ih =>
    rw [List.map_cons]
    rcases spelled.plain with ⟨quote, inside, kind, apart, rfl, rfl⟩ | ⟨other, anywhere, plain⟩
    · rw [outside_quoted kind apart]
      exact .token (.quoted kind List.not_mem_nil _) (ih ends)
    · rw [outside_append plain, Token.hollow_eq other]
      exact .token (anywhere _ (head?_outside text)) (ih ends)

/-- A part without quotes is found in a text outside of its quotes or in one of them. -/
theorem infix_lexes_iff {part : List Char} (unquoted : ∀ c ∈ part, ¬ IsQuote c)
    {text rest : List Char} {tokens : List Token} (lexes : Lexes text tokens rest)
    (ends : rest = []) (front : List Char) (plain : ∀ c ∈ front, ¬ IsQuote c) :
    part <:+: front ++ text ↔ part <:+: front ++ outside none text ∨
      ∃ literal, .quoted literal ∈ tokens ∧ part <:+: literal.toList := by
  -- what was passed since the last quote is kept in front, as the part may begin there
  induction lexes generalizing front with
  | stop rest => simp [ends, outside]
  | @blank c text rest tokens blank _ ih =>
    have plain' : ∀ d ∈ front ++ [c], ¬ IsQuote d :=
      List.forall_mem_append.mpr ⟨plain, by simpa using not_isQuote_of_isBlank blank⟩
    rw [outside_cons (not_isQuote_of_isBlank blank)]
    simpa using ih ends _ plain'
  | @token token spelling text rest tokens spelled _ ih =>
    rcases spelled.plain with ⟨quote, inside, kind, apart, rfl, rfl⟩ | ⟨other, -, plain'⟩
    · have free : quote ∉ part := fun listed => unquoted quote listed kind
      have behind := ih ends [] (by simp)
      rw [List.nil_append, List.nil_append] at behind
      rw [outside_quoted kind apart, List.append_assoc (quote :: inside), List.cons_append,
        infix_append_cons_iff free, List.singleton_append, infix_append_cons_iff free, behind,
        infix_append_cons_iff free, infix_cons_iff_of_notMem free]
      simp only [List.mem_cons, Token.quoted.injEq, or_and_right, exists_or, exists_eq_left,
        String.toList_ofList, or_assoc, or_left_comm]
    · have whole : ∀ d ∈ front ++ spelling, ¬ IsQuote d :=
        List.forall_mem_append.mpr ⟨plain, plain'⟩
      rw [outside_append plain', ← List.append_assoc, ih ends _ whole, List.append_assoc]
      simp only [List.mem_cons, (other _).symm, false_or]

/-! ## Signs outside of quotes -/

def Token.signs : Token → List Char
  | .open => ['(']
  | .close => [')']
  | .broadcast => ['@']
  | .comparison sign => sign.symbol.toList
  | .word _ | .quoted _ => []

theorem comparison_mem_hollow {tokens : List Token} {comparison : Comparison} :
    .comparison comparison ∈ tokens.map Token.hollow ↔ .comparison comparison ∈ tokens := by
  rw [List.mem_map]
  constructor
  · rintro ⟨token, listed, same⟩
    cases token <;> cases same
    exact listed
  · exact fun listed => ⟨_, listed, rfl⟩

theorem mem_outside_iff {c : Char} (special : isSpecial c = true) (unquoted : ¬ IsQuote c)
    {text rest : List Char} {tokens : List Token} (lexes : Lexes text tokens rest)
    (ends : rest = []) : c ∈ outside none text ↔ ∃ token ∈ tokens, c ∈ token.signs := by
  induction lexes with
  | stop rest => simp [ends, outside]
  | @blank d text rest tokens blank _ ih =>
    have different : c ≠ d := by
      rintro rfl
      rw [not_isBlank_of_isSpecial special] at blank
      cases blank
    rw [outside_cons (not_isQuote_of_isBlank blank), List.mem_cons, or_iff_right different, ih ends]
  | @token token spelling text rest tokens spelled _ ih =>
    rw [List.exists_mem_cons_iff, ← ih ends]
    rcases spelled.plain with ⟨quote, inside, kind, apart, rfl, rfl⟩ | ⟨-, -, plain⟩
    · have different : c ≠ quote := fun same => unquoted (same ▸ kind)
      rw [outside_quoted kind apart]
      simp [different, Token.signs]
    · rw [outside_append plain, List.mem_append]
      refine or_congr_left ?_
      cases spelled with
      | word some letters =>
        refine iff_of_false (fun listed => ?_) List.not_mem_nil
        have ordinary := (isWordChar_iff.mp (letters c listed)).2
        rw [special] at ordinary
        cases ordinary
      | quoted kind => exact absurd kind (plain _ List.mem_cons_self)
      | «open» | close | broadcast | comparison => rfl

theorem symbol_infix {comparison : Comparison} {text rest : List Char} {tokens : List Token}
    (lexes : Lexes text tokens rest) (listed : .comparison comparison ∈ tokens) :
    comparison.symbol.toList <:+: text := by
  induction lexes with
  | stop => cases listed
  | blank _ _ ih => exact (ih listed).trans (List.suffix_cons _ _).isInfix
  | @token token spelling text rest tokens spelled _ ih =>
    rcases List.mem_cons.mp listed with rfl | later
    · cases spelled
      exact (List.prefix_append _ _).isInfix
    · exact (ih later).trans (List.suffix_append _ _).isInfix

theorem eq_mem_of_head {text rest : List Char} {tokens : List Token}
    (lexes : Lexes ('=' :: text) tokens rest) (ends : rest = []) : .comparison .eq ∈ tokens := by
  generalize whole : '=' :: text = front at lexes
  cases lexes with
  | stop =>
    rw [ends] at whole
    cases whole
  | blank blank =>
    obtain ⟨rfl, -⟩ := List.cons_eq_cons.mp whole
    exact absurd blank (by decide)
  | token spelled =>
    cases spelled with
    | «open» | close | broadcast => cases whole
    | @comparison comparison =>
      cases comparison with
      | eq => exact List.mem_cons_self
      | ne | lt | le | gt | ge => cases whole
    | quoted kind =>
      obtain ⟨rfl, -⟩ := List.cons_eq_cons.mp whole
      exact absurd kind (by decide)
    | word some plain =>
      obtain ⟨c, word, rfl⟩ := List.exists_cons_of_ne_nil some
      obtain ⟨rfl, -⟩ := List.cons_eq_cons.mp whole
      exact absurd (plain _ List.mem_cons_self) (by decide)

/-- Where two equals signs are found behind one more, they are found in the rest, or begin with that
one. -/
theorem eq_mem_of_infix_cons {text rest : List Char} {tokens : List Token}
    (lexes : Lexes text tokens rest) (ends : rest = [])
    (later : "==".toList <:+: outside none text → .comparison .eq ∈ tokens)
    (found : "==".toList <:+: '=' :: outside none text) : .comparison .eq ∈ tokens := by
  rcases List.infix_cons_iff.mp found with here | elsewhere
  · obtain ⟨behind, split⟩ := (List.cons_prefix_cons.mp here).2
    have head : text.head? = some '=' := by
      rw [← head?_outside, ← split]
      rfl
    obtain ⟨text, rfl⟩ := List.head?_eq_some_iff.mp head
    exact eq_mem_of_head lexes ends
  · exact later elsewhere

/-- Two equals signs outside of quotes are one comparison, whatever stands before them. -/
theorem equals_outside_iff {text rest : List Char} {tokens : List Token}
    (lexes : Lexes text tokens rest) (ends : rest = []) :
    "==".toList <:+: outside none text ↔ .comparison .eq ∈ tokens := by
  refine ⟨fun found => ?_, fun listed =>
    symbol_infix (lexes_outside lexes ends) (comparison_mem_hollow.mpr listed)⟩
  induction lexes with
  | stop =>
    rw [ends] at found
    exact absurd (List.infix_nil.mp found) (by decide)
  | @blank c _ _ _ blank _ ih =>
    have free : '=' ∉ [c] := by
      rw [List.mem_singleton]
      rintro rfl
      exact absurd blank (by decide)
    rw [outside_cons (not_isQuote_of_isBlank blank)] at found
    exact ih ends (infix_of_infix_append free found)
  | @token token spelling text rest tokens spelled more ih =>
    rw [List.mem_cons]
    rcases spelled.plain with ⟨quote, inside, kind, apart, rfl, rfl⟩ | ⟨-, -, plain⟩
    · have free : '=' ∉ [quote, quote] := by
        rcases kind with rfl | rfl <;> decide
      rw [outside_quoted kind apart] at found
      exact .inr (ih ends (infix_of_infix_append free found))
    · rw [outside_append plain] at found
      have pass (free : '=' ∉ spelling) : .comparison .eq ∈ tokens :=
        ih ends (infix_of_infix_append free found)
      cases spelled with
      | «open» | close | broadcast => exact .inr (pass (by decide))
      | quoted kind => exact absurd kind (plain _ List.mem_cons_self)
      | word some letters =>
        exact .inr (pass fun listed => absurd (letters _ listed) (by decide))
      | @comparison comparison =>
        cases comparison with
        | eq => exact .inl rfl
        | lt | gt => exact .inr (pass (by decide))
        | ne | le | ge =>
          refine .inr (eq_mem_of_infix_cons more ends (ih ends) ?_)
          exact (List.infix_cons_iff.mp found).resolve_left fun here =>
            absurd (List.cons_prefix_cons.mp here).1 (by decide)

theorem Token.mem_signs_iff {token : Token} :
    ('!' ∈ token.signs ↔ token = .comparison .ne) ∧
      ('<' ∈ token.signs ↔ token = .comparison .lt ∨ token = .comparison .le) ∧
      ('>' ∈ token.signs ↔ token = .comparison .gt ∨ token = .comparison .ge) ∧
      ('@' ∈ token.signs ↔ token = .broadcast) := by
  cases token with
  | comparison sign => cases sign <;> decide
  | word | quoted | broadcast | «open» | close => simp [Token.signs]

section

variable {text rest : List Char} {tokens : List Token} (lexes : Lexes text tokens rest)
  (ends : rest = [])

include lexes ends

theorem differs_outside_iff :
    "!=".toList <:+: outside none text ↔ .comparison .ne ∈ tokens := by
  refine ⟨fun found => ?_, fun listed =>
    symbol_infix (lexes_outside lexes ends) (comparison_mem_hollow.mpr listed)⟩
  have sign : '!' ∈ outside none text := found.subset List.mem_cons_self
  obtain ⟨token, listed, shown⟩ :=
    (mem_outside_iff (by decide) (by decide) lexes ends).mp sign
  exact Token.mem_signs_iff.1.mp shown ▸ listed

theorem less_outside_iff : "<".toList <:+: outside none text ↔
    .comparison .lt ∈ tokens ∨ .comparison .le ∈ tokens := by
  change ['<'] <:+: _ ↔ _
  rw [List.singleton_infix_iff, mem_outside_iff (by decide) (by decide) lexes ends]
  simp only [Token.mem_signs_iff.2.1, and_or_left, exists_or, exists_eq_right]

theorem greater_outside_iff : ">".toList <:+: outside none text ↔
    .comparison .gt ∈ tokens ∨ .comparison .ge ∈ tokens := by
  change ['>'] <:+: _ ↔ _
  rw [List.singleton_infix_iff, mem_outside_iff (by decide) (by decide) lexes ends]
  simp only [Token.mem_signs_iff.2.2.1, and_or_left, exists_or, exists_eq_right]

end

/-! ## Comparisons and literals of a predicate -/

def comparisons : Predicate → List Comparison
  | .compare _ comparison _ => [comparison]
  | .like _ _ | .member _ _ => []
  | .not p => p.comparisons
  | .and p q | .or p q => p.comparisons ++ q.comparisons

def literals : Predicate → List String
  | .compare _ _ literal => [literal]
  | .like _ pattern => [pattern]
  | .member _ _ => []
  | .not p => p.literals
  | .and p q | .or p q => p.literals ++ q.literals

theorem comparison_mem_iff {level : Level} {tokens : List Token} {p : Predicate}
    (derives : Derives level tokens p) {comparison : Comparison} :
    .comparison comparison ∈ tokens ↔ comparison ∈ p.comparisons := by
  induction derives with
  | disjunction _ ih | conjunction _ ih => exact ih
  | or _ _ _ ihLeft ihRight | and _ _ _ ihLeft ihRight =>
    simp [comparisons, ihLeft, ihRight]
  | not _ _ ih | group _ ih => simpa [comparisons] using ih
  | test tests =>
    cases tests with
    | compare _ _ means => cases means <;> simp [comparisons]
    | like | notLike | member | notMember => simp [comparisons]

theorem broadcast_mem_iff {level : Level} {tokens : List Token} {p : Predicate}
    (derives : Derives level tokens p) : .broadcast ∈ tokens ↔ p.lookups ≠ [] := by
  induction derives with
  | disjunction _ ih | conjunction _ ih => exact ih
  | or _ _ _ ihLeft ihRight | and _ _ _ ihLeft ihRight =>
    simp [lookups, ihLeft, ihRight, Classical.or_iff_not_imp_left]
  | not _ _ ih | group _ ih => simpa [lookups] using ih
  | test tests =>
    cases tests with
    | compare _ _ means => cases means <;> simp [lookups]
    | like | notLike | member | notMember => simp [lookups]

theorem quoted_mem_iff {level : Level} {tokens : List Token} {p : Predicate}
    (derives : Derives level tokens p) {said : String → Prop}
    (words : ∀ word, .word word ∈ tokens → ¬ said word) :
    (∃ literal, .quoted literal ∈ tokens ∧ said literal) ↔
      ∃ literal ∈ p.literals, said literal := by
  induction derives with
  | disjunction _ ih | conjunction _ ih => exact ih words
  | or _ _ _ ihLeft ihRight | and _ _ _ ihLeft ihRight =>
    simp only [List.mem_append, List.mem_cons] at words
    simp only [List.mem_append, List.mem_cons, reduceCtorEq, false_or, or_and_right, exists_or,
      literals, ihLeft fun word listed => words word (.inl listed),
      ihRight fun word listed => words word (.inr (.inr listed))]
  | not _ _ ih =>
    simpa [literals] using ih fun word listed => words word (List.mem_cons_of_mem _ listed)
  | group _ ih =>
    simpa [literals] using ih fun word listed => words word (by simp [listed])
  | test tests =>
    cases tests with
    | compare _ _ means =>
      cases means with
      | quoted => simp [literals]
      | word => simpa [literals] using words _ (by simp)
    | like | notLike | member | notMember => simp [literals]

theorem isWordChar_of_lexes {text rest : List Char} {tokens : List Token}
    (lexes : Lexes text tokens rest) {word : String} (listed : .word word ∈ tokens) :
    ∀ c ∈ word.toList, isWordChar c = true := by
  induction lexes with
  | stop => cases listed
  | blank _ _ ih => exact ih listed
  | token spelled _ ih =>
    rcases List.mem_cons.mp listed with rfl | later
    · cases spelled with
      | word some plain => simpa using plain
    · exact ih later

/-! ## The share of a predicate -/

def quotes (p : Predicate) (part : String) : Bool :=
  p.literals.any fun literal => Text.occurs part.toList literal.toList

/-- The share that the comparisons and the literals of a predicate stand for. -/
def share {α : Type} [Quantity α] (p : Predicate) : α :=
  let compares (comparison : Comparison) : Bool := p.comparisons.contains comparison
  if compares .ne || p.quotes "!=" then Quantity.ofDecimal 9 1
  else if compares .eq || p.quotes "==" then Quantity.ofDecimal 1 1
  else if (compares .lt || compares .le || p.quotes "<") ||
      (compares .gt || compares .ge || p.quotes ">") then Quantity.ofDecimal 33 2
  else Quantity.ofDecimal 5 1

/-- Whether a membership is spelled with small letters and single blanks, outside of quotes. -/
def spellsIn (text : String) : Bool := Text.occurs " in @".toList (outside none text.toList)

theorem quotes_iff {p : Predicate} {part : String} :
    p.quotes part = true ↔ ∃ literal ∈ p.literals, part.toList <:+: literal.toList := by
  simp only [quotes, List.any_eq_true, Text.occurs_iff]

section

variable {text : String} {tokens : List Token} {p : Predicate}
  (lexes : Lexes text.toList tokens []) (derives : Derives .disjunction tokens p)

include lexes derives

/-- A part that is not made of letters is found outside of quotes or in a literal. -/
theorem occurs_iff_of_derives (part : String) (c : Char)
    (unquoted : ∀ d ∈ part.toList, ¬ IsQuote d) (listed : c ∈ part.toList)
    (sign : isWordChar c = false) :
    Text.occurs part.toList text.toList = true ↔
      part.toList <:+: outside none text.toList ∨ p.quotes part = true := by
  have words : ∀ word, .word word ∈ tokens → ¬ part.toList <:+: word.toList := by
    intro word present found
    have letter := isWordChar_of_lexes lexes present c (found.subset listed)
    rw [sign] at letter
    cases letter
  have parts := infix_lexes_iff unquoted lexes rfl [] (by simp)
  rw [List.nil_append, List.nil_append] at parts
  rw [Text.occurs_iff, parts, quotes_iff, quoted_mem_iff derives words]

theorem occurs_eq (part : String) (c : Char) {signs : List Comparison}
    (unquoted : ∀ d ∈ part.toList, ¬ IsQuote d) (listed : c ∈ part.toList)
    (sign : isWordChar c = false) (found : part.toList <:+: outside none text.toList ↔
      ∃ comparison ∈ signs, .comparison comparison ∈ tokens) :
    Text.occurs part.toList text.toList =
      (signs.any p.comparisons.contains || p.quotes part) := by
  rw [Bool.eq_iff_iff, occurs_iff_of_derives lexes derives part c unquoted listed sign, found,
    Bool.or_eq_true, List.any_eq_true]
  simp only [comparison_mem_iff derives, List.contains_eq_mem, decide_eq_true_eq]

/-- The share of the rows is what the predicate stands for, unless its text has a membership spelled
in one way, or a literal that looks like this. -/
theorem selectivity_of_derives {α : Type} [Quantity α] : (selectivity text : α) =
    if p.quotes " in @" || spellsIn text then Quantity.ofDecimal 5 1 else p.share := by
  have member : Text.occurs " in @".toList text.toList = (p.quotes " in @" || spellsIn text) := by
    rw [Bool.eq_iff_iff, Bool.or_eq_true, spellsIn, Text.occurs_iff (s := outside _ _), or_comm]
    exact occurs_iff_of_derives lexes derives " in @" '@' (by simp [IsQuote]) (by simp) (by decide)
  have differs : Text.occurs "!=".toList text.toList =
      ([Comparison.ne].any p.comparisons.contains || p.quotes "!=") :=
    occurs_eq lexes derives "!=" '!' (by simp [IsQuote]) (by simp) (by decide)
      (by simpa using differs_outside_iff lexes rfl)
  have equals : Text.occurs "==".toList text.toList =
      ([Comparison.eq].any p.comparisons.contains || p.quotes "==") :=
    occurs_eq lexes derives "==" '=' (by simp [IsQuote]) (by simp) (by decide)
      (by simpa using equals_outside_iff lexes rfl)
  have less : Text.occurs "<".toList text.toList =
      ([Comparison.lt, .le].any p.comparisons.contains || p.quotes "<") :=
    occurs_eq lexes derives "<" '<' (by simp [IsQuote]) (by simp) (by decide)
      (by simpa using less_outside_iff lexes rfl)
  have greater : Text.occurs ">".toList text.toList =
      ([Comparison.gt, .ge].any p.comparisons.contains || p.quotes ">") :=
    occurs_eq lexes derives ">" '>' (by simp [IsQuote]) (by simp) (by decide)
      (by simpa using greater_outside_iff lexes rfl)
  simp only [selectivity, share, member, differs, equals, less, greater, List.any_cons,
    List.any_nil, Bool.or_false]

theorem lookups_of_spellsIn (spelled : spellsIn text = true) : p.lookups ≠ [] := by
  have found := (Text.occurs_iff.mp spelled).subset (by simp : '@' ∈ " in @".toList)
  obtain ⟨token, listed, shown⟩ := (mem_outside_iff (by decide) (by decide) lexes rfl).mp found
  rw [Token.mem_signs_iff.2.2.2.mp shown] at listed
  exact (broadcast_mem_iff derives).mp listed

end

/-- No comparison is made, and none of the signs of comparisons is in a literal. -/
def unsigned (p : Predicate) : Bool :=
  p.comparisons.isEmpty && ["!=", "==", "<", ">"].all fun sign => !p.quotes sign

theorem unsigned_iff {p : Predicate} : p.unsigned = true ↔
    ¬ (p.comparisons.contains .ne || p.quotes "!=") = true ∧
    ¬ (p.comparisons.contains .eq || p.quotes "==") = true ∧
    ¬ ((p.comparisons.contains .lt || p.comparisons.contains .le || p.quotes "<") ||
      (p.comparisons.contains .gt || p.comparisons.contains .ge || p.quotes ">")) = true := by
  have empty : p.comparisons.isEmpty = true ↔ ∀ comparison, comparison ∉ p.comparisons := by
    rw [List.isEmpty_iff, List.eq_nil_iff_forall_not_mem]
  have each : (∀ comparison, comparison ∉ p.comparisons) ↔
      .ne ∉ p.comparisons ∧ .eq ∉ p.comparisons ∧ .lt ∉ p.comparisons ∧ .le ∉ p.comparisons ∧
        .gt ∉ p.comparisons ∧ .ge ∉ p.comparisons := by
    refine ⟨fun none => ⟨none _, none _, none _, none _, none _, none _⟩, ?_⟩
    rintro ⟨ne, eq, lt, le, gt, ge⟩ comparison
    cases comparison <;> assumption
  simp only [unsigned, Bool.and_eq_true, empty, each, List.all_cons, List.all_nil, Bool.and_true,
    Bool.not_eq_true', Bool.or_eq_true, List.contains_eq_mem, decide_eq_true_eq, not_or,
    Bool.not_eq_true]
  tauto

theorem share_eq_half_iff {p : Predicate} :
    (p.share : Float) = Quantity.ofDecimal 5 1 ↔ p.unsigned = true := by
  have most : (Quantity.ofDecimal 9 1 : Float) ≠ Quantity.ofDecimal 5 1 := by decide +kernel
  have few : (Quantity.ofDecimal 1 1 : Float) ≠ Quantity.ofDecimal 5 1 := by decide +kernel
  have third : (Quantity.ofDecimal 33 2 : Float) ≠ Quantity.ofDecimal 5 1 := by decide +kernel
  rw [unsigned_iff, share]
  dsimp only
  split_ifs with differs equals apart
  · exact iff_of_false most fun none => none.1 differs
  · exact iff_of_false few fun none => none.2.1 equals
  · exact iff_of_false third fun none => none.2.2 apart
  · exact iff_of_true rfl ⟨differs, equals, apart⟩

/-- Two texts of one predicate are judged the same exactly where a literal looks like a membership,
where there is nothing else to judge by, or where both or neither have a membership that is spelled
with small letters and single blanks.  Without memberships they are always judged the same. -/
theorem selectivity_eq_iff {first second : String} {p : Predicate} (one : read first = .ok p)
    (two : read second = .ok p) :
    ((selectivity first : Float) = selectivity second ↔
      p.quotes " in @" = true ∨ p.unsigned = true ∨ spellsIn first = spellsIn second) ∧
    (p.lookups = [] → (selectivity first : Float) = selectivity second) := by
  obtain ⟨tokens, lexes, derives⟩ := read_ok_iff.mp one
  obtain ⟨tokens', lexes', derives'⟩ := read_ok_iff.mp two
  have judged : (selectivity first : Float) = selectivity second ↔
      p.quotes " in @" = true ∨ p.unsigned = true ∨ spellsIn first = spellsIn second := by
    rw [selectivity_of_derives lexes derives, selectivity_of_derives lexes' derives',
      ← share_eq_half_iff]
    cases p.quotes " in @" with
    | true => simp
    | false => cases spellsIn first <;> cases spellsIn second <;> simp [eq_comm]
  refine ⟨judged, fun alone => judged.mpr (.inr (.inr ?_))⟩
  have neither : spellsIn first = false :=
    Bool.eq_false_iff.mpr fun spelled => lookups_of_spellsIn lexes derives spelled alone
  have nor : spellsIn second = false :=
    Bool.eq_false_iff.mpr fun spelled => lookups_of_spellsIn lexes' derives' spelled alone
  rw [neither, nor]

/-- Written with capitals, a membership is not found. -/
theorem selectivity_eq_iff_capitals :
    read "a == 1 and b in @c" = .ok (.and (.compare "a" .eq "1") (.member "b" "c")) ∧
      read "a == 1 and b IN @c" = .ok (.and (.compare "a" .eq "1") (.member "b" "c")) ∧
      (selectivity "a == 1 and b in @c" : Float) ≠ selectivity "a == 1 and b IN @c" := by
  have one : read "a == 1 and b in @c" = .ok (.and (.compare "a" .eq "1") (.member "b" "c")) := by
    decide +kernel
  have two : read "a == 1 and b IN @c" = .ok (.and (.compare "a" .eq "1") (.member "b" "c")) := by
    decide +kernel
  refine ⟨one, two, fun same => ?_⟩
  rcases (selectivity_eq_iff one two).1.mp same with quoted | unsigned | spelled
  · exact absurd quoted (by decide +kernel)
  · exact absurd unsigned (by decide +kernel)
  · exact absurd spelled (by decide +kernel)

end Predicate

end CrossPlan
