import CrossPlan.Predicate.Text
import CrossPlan.Proofs.Predicate.Grammar

/-!
# Reading printed predicates

The text of a predicate that was read is cut into the tokens that it is made of.  A literal comes
back whether it is quoted or not, but a pattern has to be quoted: a predicate with a pattern that is
written as a word cannot be read back.  Every other predicate comes back with its chains leaning to
the left, which accepts the same rows.
-/

set_option autoImplicit false

namespace CrossPlan.Predicate

/-! ## Cutting up texts that are put together -/

/-- Nothing in front of the text grows into it: it begins with neither a character of a word nor an
equals sign. -/
def Parted (text : List Char) : Prop :=
  ∀ c, text.head? = some c → isWordChar c = false ∧ c ≠ '='

theorem parted_blank (text : List Char) : Parted (' ' :: text) := by
  intro c first
  simp only [List.head?_cons, Option.some.injEq] at first
  subst first
  decide

theorem parted_close (text : List Char) : Parted (')' :: text) := by
  intro c first
  simp only [List.head?_cons, Option.some.injEq] at first
  subst first
  decide

theorem Token.Spelled.append {token : Token} {spelling behind : List Char}
    (spelled : token.Spelled spelling behind) {more : List Char} (parted : Parted more) :
    token.Spelled spelling (behind ++ more) := by
  have head : (behind ++ more).head? = behind.head?.or more.head? := List.head?_append
  cases spelled with
  | «open» => exact .open _
  | close => exact .close _
  | broadcast => exact .broadcast _
  | comparison longest =>
    refine .comparison fun short => ?_
    rw [head]
    cases first : behind.head? with
    | none => exact fun next => (parted _ next).2 rfl
    | some c => exact fun next => longest short (first.trans next)
  | quoted kind inside => exact .quoted kind inside _
  | word some plain longest =>
    refine .word some plain fun c next => ?_
    rw [head] at next
    cases first : behind.head? with
    | none =>
      rw [first] at next
      exact (parted c next).1
    | some d =>
      rw [first] at next
      exact longest c (first.trans next)

theorem Lexes.append {text rest : List Char} {tokens : List Token}
    (lexes : Lexes text tokens rest) {more : List Char} (parted : Parted more) :
    Lexes (text ++ more) tokens (rest ++ more) := by
  induction lexes with
  | stop rest => exact .stop _
  | blank blank _ ih => exact .blank blank ih
  | token spelled _ ih =>
    rw [List.append_assoc]
    exact .token (spelled.append parted) ih

theorem Lexes.trans {text between rest : List Char} {tokens tokens' : List Token}
    (first : Lexes text tokens between) (second : Lexes between tokens' rest) :
    Lexes text (tokens ++ tokens') rest := by
  induction first with
  | stop rest => exact second
  | blank blank _ ih => exact .blank blank (ih second)
  | token spelled _ ih => exact .token spelled (ih second)

/-- Two texts are cut up one after the other, if the first does not grow into the second. -/
theorem Lexes.beside {first second : List Char} {tokens tokens' : List Token}
    (lexes : Lexes first tokens []) (lexes' : Lexes second tokens' []) (parted : Parted second) :
    Lexes (first ++ second) (tokens ++ tokens') [] :=
  (lexes.append parted).trans lexes'

theorem lexes_word (word : String) (some : word ≠ "")
    (plain : word.toList.all isWordChar = true) : Lexes word.toList [.word word] [] := by
  have spelled : Token.Spelled (.word (String.ofList word.toList)) word.toList [] :=
    .word (by simpa using some) (List.all_eq_true.mp plain) nofun
  rw [String.ofList_toList] at spelled
  have lexes := Lexes.token spelled (.stop [])
  rwa [List.append_nil] at lexes

theorem lexes_between (word : String) (some : word ≠ "")
    (plain : word.toList.all isWordChar = true) {first second : List Char}
    {tokens tokens' : List Token} (lexes : Lexes first tokens [])
    (lexes' : Lexes second tokens' []) :
    Lexes (first ++ ' ' :: word.toList ++ ' ' :: second) (tokens ++ .word word :: tokens') [] := by
  have behind : Lexes (' ' :: second) tokens' [] := .blank (by decide) lexes'
  have middle := (lexes_word _ some plain).beside behind (parted_blank second)
  have whole := lexes.beside (.blank (by decide) middle) (parted_blank _)
  simpa using whole

/-! ## Names and literals -/

theorem isWordChar_of_isAlphanum {c : Char} (plain : c.isAlphanum = true) :
    isWordChar c = true := by
  have between : ∀ {low high : Char}, low.val ≤ c.val → c.val ≤ high.val →
      low.toNat ≤ c.toNat ∧ c.toNat ≤ high.toNat := fun least most =>
    ⟨UInt32.le_iff_toNat_le.mp least, UInt32.le_iff_toNat_le.mp most⟩
  have bounds : 48 ≤ c.toNat ∧ c.toNat ≤ 122 := by
    rcases Bool.or_eq_true_iff.mp plain with letter | digit
    · rcases Bool.or_eq_true_iff.mp letter with upper | lower
      · have capital := of_decide_eq_true upper
        have range : 65 ≤ c.toNat ∧ c.toNat ≤ 90 := between capital.1 capital.2
        omega
      · have small := Bool.and_eq_true_iff.mp lower
        have range : 97 ≤ c.toNat ∧ c.toNat ≤ 122 :=
          between (of_decide_eq_true small.1) (of_decide_eq_true small.2)
        omega
    · have figure := Bool.and_eq_true_iff.mp digit
      have range : 48 ≤ c.toNat ∧ c.toNat ≤ 57 :=
        between (of_decide_eq_true figure.1) (of_decide_eq_true figure.2)
      omega
  rw [isWordChar_iff]
  constructor
  · simp only [Text.isBlank, Text.blankRanges, List.any_cons, List.any_nil, Bool.or_false,
      Bool.or_eq_false_iff, Bool.and_eq_false_iff, decide_eq_false_iff_not]
    omega
  · by_contra special
    rw [Bool.not_eq_false] at special
    rcases isSpecial_iff.mp special with rfl | rfl | rfl | (rfl | rfl) | rfl | rfl | rfl | rfl <;>
      cases plain

theorem letters_of_isName {word : String} (named : isName word = true) :
    word ≠ "" ∧ word.toList.all isWordChar = true := by
  unfold isName at named
  split at named
  · cases named
  · next c rest same =>
    simp only [Bool.and_eq_true, Bool.or_eq_true, beq_iff_eq, List.all_eq_true] at named
    constructor
    · rintro rfl
      cases same
    · rw [List.all_eq_true]
      intro d listed
      have letter : d.isAlphanum = true ∨ d = '_' ∨ d = '.' := by
        rw [same] at listed
        rcases List.mem_cons.mp listed with rfl | later
        · rcases named.1.1 with letter | line
          · exact Or.inl (by simp [Char.isAlphanum, letter])
          · exact Or.inr (Or.inl line)
        · exact or_assoc.mp (named.1.2 d later)
      rcases letter with plain | rfl | rfl
      · exact isWordChar_of_isAlphanum plain
      · decide
      · decide

def IsBare (literal : String) : Prop :=
  literal ≠ "" ∧ isKeyword literal = false ∧ literal.toList.all isWordChar = true

instance (literal : String) : Decidable (IsBare literal) :=
  inferInstanceAs (Decidable (_ ∧ _))

def Quotable (literal : String) : Prop :=
  '\'' ∉ literal.toList ∨ '"' ∉ literal.toList

def literalToken (literal : String) : Token :=
  if IsBare literal then .word literal else .quoted literal

theorem literalText_eq (literal : String) :
    literalText literal = if IsBare literal then literal
      else if '\'' ∈ literal.toList then "\"" ++ literal ++ "\"" else "'" ++ literal ++ "'" := by
  unfold literalText
  simp only [Bool.not_eq_true', List.contains_eq_mem, decide_eq_true_eq]
  congr

theorem isLiteral_literalToken (literal : String) : (literalToken literal).IsLiteral literal := by
  unfold literalToken
  split
  · next bare => exact .word bare.2.1
  · exact .quoted literal

theorem lexes_literal {literal : String} (quotable : Quotable literal) :
    Lexes (literalText literal).toList [literalToken literal] [] := by
  rw [literalText_eq, literalToken]
  split
  · next bare => exact lexes_word literal bare.1 bare.2.2
  · have quoted : ∀ quote, IsQuote quote → quote ∉ literal.toList →
        Lexes (quote :: literal.toList ++ [quote]) [.quoted literal] [] := by
      intro quote kind inside
      have lexes := Lexes.token (.quoted kind inside []) (.stop [])
      rwa [List.append_nil, String.ofList_toList] at lexes
    split
    · next single =>
      simpa using quoted '"' (Or.inr rfl) (quotable.resolve_left (not_not.mpr single))
    · next single => simpa using quoted '\'' (Or.inl rfl) single

/-! ## The tokens of a printed predicate -/

def grouped (needed : Bool) (tokens : List Token) : List Token :=
  if needed then .open :: tokens ++ [.close] else tokens

/-- The tokens that the text of a predicate is made of. -/
def tokens : Predicate → List Token
  | .compare column comparison literal =>
    [.word column, .comparison comparison, literalToken literal]
  | .like column pattern => [.word column, .word "like", literalToken pattern]
  | .member column broadcast => [.word column, .word "in", .broadcast, .word broadcast]
  | .not p => .word "not" :: grouped p.isChain p.tokens
  | .and p q => grouped p.isOr p.tokens ++ .word "and" :: grouped q.isOr q.tokens
  | .or p q => p.tokens ++ .word "or" :: q.tokens

/-- Names are names, and literals can be quoted. -/
def Sayable : Predicate → Prop
  | .compare column _ literal => isName column = true ∧ Quotable literal
  | .like column pattern => isName column = true ∧ Quotable pattern
  | .member column broadcast => isName column = true ∧ isName broadcast = true
  | .not p => p.Sayable
  | .and p q | .or p q => p.Sayable ∧ q.Sayable

theorem lexes_wrapped (needed : Bool) {text : String} {tokens : List Token}
    (lexes : Lexes text.toList tokens []) :
    Lexes (wrapped needed text).toList (grouped needed tokens) [] := by
  cases needed with
  | false => exact lexes
  | true =>
    have close : Lexes [')'] [.close] [] := .token (.close []) (.stop [])
    have inner := lexes.beside close (parted_close [])
    have whole := Lexes.token (.open _) inner
    simpa [wrapped, grouped] using whole

theorem lexes_text {p : Predicate} (sayable : p.Sayable) : Lexes p.text.toList p.tokens [] := by
  induction p with
  | compare column comparison literal =>
    obtain ⟨some, plain⟩ := letters_of_isName sayable.1
    have behind := Lexes.blank (c := ' ') (by decide) (lexes_literal sayable.2)
    have spelled : Token.Spelled (.comparison comparison) comparison.symbol.toList
        (' ' :: (literalText literal).toList) := .comparison fun _ => by simp
    have middle := Lexes.token spelled behind
    have whole := (lexes_word _ some plain).beside (.blank (c := ' ') (by decide) middle)
      (parted_blank _)
    simpa [text, tokens] using whole
  | like column pattern =>
    obtain ⟨some, plain⟩ := letters_of_isName sayable.1
    have whole := lexes_between "like" (by decide) (by decide) (lexes_word _ some plain)
      (lexes_literal sayable.2)
    simpa [text, tokens] using whole
  | member column broadcast =>
    obtain ⟨some, plain⟩ := letters_of_isName sayable.1
    obtain ⟨some', plain'⟩ := letters_of_isName sayable.2
    have side := Lexes.token (.broadcast broadcast.toList) (lexes_word _ some' plain')
    have whole := lexes_between "in" (by decide) (by decide) (lexes_word _ some plain) side
    simpa [text, tokens] using whole
  | not p ih =>
    have inner := lexes_wrapped p.isChain (ih sayable)
    have whole := (lexes_word "not" (by decide) (by decide)).beside
      (.blank (c := ' ') (by decide) inner) (parted_blank _)
    simpa [text, tokens] using whole
  | and p q ihLeft ihRight =>
    have whole := lexes_between "and" (by decide) (by decide)
      (lexes_wrapped p.isOr (ihLeft sayable.1)) (lexes_wrapped q.isOr (ihRight sayable.2))
    simpa [text, tokens] using whole
  | or p q ihLeft ihRight =>
    have whole := lexes_between "or" (by decide) (by decide)
      (ihLeft sayable.1) (ihRight sayable.2)
    simpa [text, tokens] using whole

/-! ## What has been read can be said -/

def Token.Quotable : Token → Prop
  | .word text | .quoted text => Predicate.Quotable text
  | _ => True

theorem Token.Spelled.quotable {token : Token} {spelling behind : List Char}
    (spelled : token.Spelled spelling behind) : token.Quotable := by
  cases spelled with
  | «open» => trivial
  | close => trivial
  | broadcast => trivial
  | comparison _ => trivial
  | @quoted quote letters kind inside =>
    change Predicate.Quotable (String.ofList letters)
    rw [Predicate.Quotable, String.toList_ofList]
    rcases kind with rfl | rfl
    · exact Or.inl inside
    · exact Or.inr inside
  | word _ plain =>
    change Predicate.Quotable (String.ofList spelling)
    rw [Predicate.Quotable, String.toList_ofList]
    exact Or.inl fun quote => absurd (plain _ quote) (by decide)

theorem Lexes.quotable {text rest : List Char} {tokens : List Token}
    (lexes : Lexes text tokens rest) : ∀ token ∈ tokens, token.Quotable := by
  induction lexes with
  | stop => nofun
  | blank _ _ ih => exact ih
  | token spelled _ ih => exact List.forall_mem_cons.mpr ⟨spelled.quotable, ih⟩

theorem Token.IsLiteral.quotable {token : Token} {literal : String}
    (means : token.IsLiteral literal) (quotable : token.Quotable) :
    Predicate.Quotable literal := by
  cases means with
  | quoted => exact quotable
  | word => exact quotable

theorem Tests.sayable {tokens : List Token} {p : Predicate} (tests : Tests tokens p)
    (quotable : ∀ token ∈ tokens, token.Quotable) : p.Sayable := by
  cases tests with
  | compare _ named means => exact ⟨named, means.quotable (quotable _ (by simp))⟩
  | like pattern named _ => exact ⟨named, quotable (.quoted pattern) (by simp)⟩
  | notLike pattern named _ _ => exact ⟨named, quotable (.quoted pattern) (by simp)⟩
  | member named _ called => exact ⟨named, called⟩
  | notMember named _ _ called => exact ⟨named, called⟩

theorem Derives.sayable {level : Level} {tokens : List Token} {p : Predicate}
    (derives : Derives level tokens p) (quotable : ∀ token ∈ tokens, token.Quotable) :
    p.Sayable := by
  induction derives with
  | disjunction _ ih => exact ih quotable
  | conjunction _ ih => exact ih quotable
  | or _ _ _ ihLeft ihRight =>
    rw [List.forall_mem_append, List.forall_mem_cons] at quotable
    exact ⟨ihLeft quotable.1, ihRight quotable.2.2⟩
  | and _ _ _ ihLeft ihRight =>
    rw [List.forall_mem_append, List.forall_mem_cons] at quotable
    exact ⟨ihLeft quotable.1, ihRight quotable.2.2⟩
  | not _ _ ih => exact ih (List.forall_mem_cons.mp quotable).2
  | group _ ih =>
    rw [List.cons_append, List.forall_mem_cons, List.forall_mem_append] at quotable
    exact ih quotable.2.1
  | test tests => exact tests.sayable quotable

theorem sayable_of_read {text : String} {p : Predicate} (found : read text = .ok p) :
    p.Sayable := by
  obtain ⟨tokens, lexes, derives⟩ := read_ok_iff.mp found
  exact derives.sayable lexes.quotable

/-! ## Chains that lean to the left -/

def joinAnd (left : Predicate) : Predicate → Predicate
  | .and p q => .and (joinAnd left p) q
  | p => .and left p

def joinOr (left : Predicate) : Predicate → Predicate
  | .or p q => .or (joinOr left p) q
  | p => .or left p

/-- The same predicate with every chain leaning to the left. -/
def leaning : Predicate → Predicate
  | .and p q => joinAnd p.leaning q.leaning
  | .or p q => joinOr p.leaning q.leaning
  | .not p => .not p.leaning
  | p => p

theorem joinAnd_assoc (p q r : Predicate) :
    joinAnd (joinAnd p q) r = joinAnd p (joinAnd q r) := by
  induction r with
  | and r₁ r₂ ih _ => exact congrArg (Predicate.and · r₂) ih
  | compare | like | member | not | or => rfl

theorem joinOr_assoc (p q r : Predicate) : joinOr (joinOr p q) r = joinOr p (joinOr q r) := by
  induction r with
  | or r₁ r₂ ih _ => exact congrArg (Predicate.or · r₂) ih
  | compare | like | member | not | and => rfl

theorem eval_joinAnd (row : Record) (members : Memberships) (p q : Predicate) :
    (joinAnd p q).eval row members = (p.eval row members && q.eval row members) := by
  induction q with
  | and q₁ q₂ ih _ => rw [joinAnd, eval, ih, eval, Bool.and_assoc]
  | compare | like | member | not | or => rfl

theorem eval_joinOr (row : Record) (members : Memberships) (p q : Predicate) :
    (joinOr p q).eval row members = (p.eval row members || q.eval row members) := by
  induction q with
  | or q₁ q₂ ih _ => rw [joinOr, eval, ih, eval, Bool.or_assoc]
  | compare | like | member | not | and => rfl

theorem eval_leaning (row : Record) (members : Memberships) (p : Predicate) :
    p.leaning.eval row members = p.eval row members := by
  induction p with
  | compare | like | member => rfl
  | not p ih => rw [leaning, eval, ih, eval]
  | and p q ihLeft ihRight => rw [leaning, eval_joinAnd, ihLeft, ihRight, eval]
  | or p q ihLeft ihRight => rw [leaning, eval_joinOr, ihLeft, ihRight, eval]

theorem exists_joinOr (p q : Predicate) : ∃ left right, joinOr p q = .or left right := by
  cases q <;> exact ⟨_, _, rfl⟩

/-! ## Reading back -/

def patterns : Predicate → List String
  | .like _ pattern => [pattern]
  | .not p => p.patterns
  | .and p q | .or p q => p.patterns ++ q.patterns
  | _ => []

/-- What the tokens of a printed predicate derive at each level, alone and as the last part of a
chain. -/
structure ReadsBack (p : Predicate) : Prop where
  unary : p.isChain = false → Derives .unary p.tokens p.leaning
  conjunction : p.isOr = false → Derives .conjunction p.tokens p.leaning
  disjunction : Derives .disjunction p.tokens p.leaning
  behindAnd : ∀ {before left}, Derives .conjunction before left →
    Derives .conjunction (before ++ .word "and" :: grouped p.isOr p.tokens)
      (joinAnd left p.leaning)
  behindOr : ∀ {before left}, Derives .disjunction before left →
    Derives .disjunction (before ++ .word "or" :: p.tokens) (joinOr left p.leaning)

/-- A predicate that is no chain is a part of any chain. -/
theorem ReadsBack.of_unary {p : Predicate} (single : p.isChain = false)
    (derives : Derives .unary p.tokens p.leaning) : ReadsBack p where
  unary _ := derives
  conjunction _ := .conjunction derives
  disjunction := .disjunction (.conjunction derives)
  behindAnd chain := by
    cases p with
    | compare | like | member | not => exact .and chain (by decide) derives
    | and | or => cases single
  behindOr chain := by
    cases p with
    | compare | like | member | not => exact .or chain (by decide) (.conjunction derives)
    | and | or => cases single

theorem ReadsBack.grouped_unary {p : Predicate} (back : ReadsBack p) :
    Derives .unary (grouped p.isChain p.tokens) p.leaning := by
  cases chain : p.isChain with
  | false => exact back.unary chain
  | true => exact .group back.disjunction

theorem ReadsBack.grouped_conjunction {p : Predicate} (back : ReadsBack p) :
    Derives .conjunction (grouped p.isOr p.tokens) p.leaning := by
  cases chain : p.isOr with
  | false => exact back.conjunction chain
  | true => exact .conjunction (.group back.disjunction)

theorem ReadsBack.and {p q : Predicate} (left : ReadsBack p) (right : ReadsBack q) :
    ReadsBack (.and p q) := by
  have whole : Derives .conjunction (Predicate.and p q).tokens (Predicate.and p q).leaning :=
    right.behindAnd left.grouped_conjunction
  refine ⟨nofun, fun _ => whole, .disjunction whole, fun {before first} chain => ?_,
    fun {before first} chain => ?_⟩
  · have longer := right.behindAnd (left.behindAnd chain)
    rw [joinAnd_assoc, List.append_assoc] at longer
    exact longer
  · have keyword : Text.sameLetters "or" "or" = true := by decide
    have step := Derives.or chain keyword whole
    have apart : joinOr first (Predicate.and p q).leaning =
        .or first (Predicate.and p q).leaning := by
      unfold leaning
      cases q.leaning <;> rfl
    rwa [apart]

theorem ReadsBack.or {p q : Predicate} (left : ReadsBack p) (right : ReadsBack q) :
    ReadsBack (.or p q) := by
  have whole : Derives .disjunction (Predicate.or p q).tokens (Predicate.or p q).leaning :=
    right.behindOr left.disjunction
  refine ⟨nofun, nofun, whole, fun {before first} chain => ?_, fun {before first} chain => ?_⟩
  · obtain ⟨p', q', made⟩ := exists_joinOr p.leaning q.leaning
    have apart : joinAnd first (Predicate.or p q).leaning =
        .and first (Predicate.or p q).leaning := by
      rw [leaning, made, joinAnd]
      nofun
    rw [apart]
    exact .and chain (by decide) (.group whole)
  · have longer := right.behindOr (left.behindOr chain)
    rw [joinOr_assoc, List.append_assoc] at longer
    exact longer

theorem readsBack_of_sayable {p : Predicate} (sayable : p.Sayable)
    (quoted : ∀ pattern ∈ p.patterns, ¬ IsBare pattern) : ReadsBack p := by
  induction p with
  | compare column comparison literal =>
    exact .of_unary rfl (.test (.compare comparison sayable.1 (isLiteral_literalToken literal)))
  | like column pattern =>
    have token : literalToken pattern = .quoted pattern :=
      if_neg (quoted pattern (by simp [patterns]))
    refine .of_unary rfl (.test ?_)
    rw [tokens, token]
    exact .like pattern sayable.1 (by decide)
  | member column broadcast =>
    exact .of_unary rfl (.test (.member sayable.1 (by decide) sayable.2))
  | not p ih =>
    exact .of_unary rfl (.not (by decide) (ih sayable quoted).grouped_unary)
  | and p q ihLeft ihRight =>
    obtain ⟨first, second⟩ := List.forall_mem_append.mp quoted
    exact (ihLeft sayable.1 first).and (ihRight sayable.2 second)
  | or p q ihLeft ihRight =>
    obtain ⟨first, second⟩ := List.forall_mem_append.mp quoted
    exact (ihLeft sayable.1 first).or (ihRight sayable.2 second)

/-! ## Patterns that are not quoted -/

def PatternsQuoted : List Token → Prop
  | [] => True
  | .word key :: rest =>
    (Text.sameLetters "like" key = true → ∃ pattern behind, rest = .quoted pattern :: behind) ∧
      PatternsQuoted rest
  | _ :: rest => PatternsQuoted rest

theorem PatternsQuoted.of_word {key : String} {rest : List Token}
    (other : Text.sameLetters "like" key = false) (quoted : PatternsQuoted rest) :
    PatternsQuoted (.word key :: rest) :=
  ⟨fun same => absurd same (Bool.eq_false_iff.mp other), quoted⟩

theorem PatternsQuoted.tail {token : Token} {rest : List Token}
    (quoted : PatternsQuoted (token :: rest)) : PatternsQuoted rest := by
  cases token with
  | word key => exact quoted.2
  | quoted | comparison | broadcast | «open» | close => exact quoted

theorem PatternsQuoted.behind {before rest : List Token}
    (quoted : PatternsQuoted (before ++ rest)) : PatternsQuoted rest := by
  induction before with
  | nil => exact quoted
  | cons token before ih => exact ih quoted.tail

theorem PatternsQuoted.append {before rest : List Token} (first : PatternsQuoted before)
    (second : PatternsQuoted rest) : PatternsQuoted (before ++ rest) := by
  induction before with
  | nil => exact second
  | cons token before ih =>
    have more := ih first.tail
    cases token with
    | word key =>
      refine ⟨fun same => ?_, more⟩
      obtain ⟨pattern, behind, rfl⟩ := first.1 same
      exact ⟨pattern, behind ++ rest, rfl⟩
    | quoted | comparison | broadcast | «open» | close => exact more

theorem PatternsQuoted.of_isName {column : String} {rest : List Token}
    (named : isName column = true) (quoted : PatternsQuoted rest) :
    PatternsQuoted (.word column :: rest) :=
  .of_word (isKeyword_eq_false_iff.mp (not_isKeyword_of_isName named)).2.2.2.1 quoted

theorem PatternsQuoted.of_keyword (keyword : String) {key : String} {rest : List Token}
    (same : Text.sameLetters keyword key = true)
    (apart : Text.sameLetters "like" keyword = false) (quoted : PatternsQuoted rest) :
    PatternsQuoted (.word key :: rest) :=
  .of_word (sameLetters_apart "like" same apart) quoted

theorem Tests.patternsQuoted {tokens : List Token} {p : Predicate} (tests : Tests tokens p) :
    PatternsQuoted tokens := by
  cases tests with
  | compare _ named means =>
    refine .of_isName named ?_
    cases means with
    | quoted => trivial
    | word free => exact .of_word (isKeyword_eq_false_iff.mp free).2.2.2.1 trivial
  | like pattern named _ =>
    exact .of_isName named ⟨fun _ => ⟨pattern, [], rfl⟩, trivial⟩
  | notLike pattern named negated _ =>
    exact .of_isName named
      (.of_keyword "not" negated (by decide) ⟨fun _ => ⟨pattern, [], rfl⟩, trivial⟩)
  | member named among called =>
    have last : PatternsQuoted [.word _] := .of_isName called trivial
    exact .of_isName named (.of_keyword "in" among (by decide) last)
  | notMember named negated among called =>
    have last : PatternsQuoted [.word _] := .of_isName called trivial
    exact .of_isName named
      (.of_keyword "not" negated (by decide) (.of_keyword "in" among (by decide) last))

theorem Derives.patternsQuoted {level : Level} {tokens : List Token} {p : Predicate}
    (derives : Derives level tokens p) : PatternsQuoted tokens := by
  induction derives with
  | disjunction _ ih => exact ih
  | conjunction _ ih => exact ih
  | or _ keyword _ ihLeft ihRight =>
    exact ihLeft.append (.of_keyword "or" keyword (by decide) ihRight)
  | and _ keyword _ ihLeft ihRight =>
    exact ihLeft.append (.of_keyword "and" keyword (by decide) ihRight)
  | not keyword _ ih => exact .of_keyword "not" keyword (by decide) ih
  | @group tokens _ _ ih =>
    have opened : PatternsQuoted (.open :: tokens) := ih
    exact opened.append trivial
  | test tests => exact tests.patternsQuoted

theorem not_isBare_of_patternsQuoted {p : Predicate} {rest : List Token}
    (quoted : PatternsQuoted (p.tokens ++ rest)) :
    ∀ pattern ∈ p.patterns, ¬ IsBare pattern := by
  have grouped_behind : ∀ {needed tokens rest}, PatternsQuoted (grouped needed tokens ++ rest) →
      ∃ rest', PatternsQuoted (tokens ++ rest') := by
    intro needed tokens rest quoted
    cases needed with
    | false => exact ⟨rest, quoted⟩
    | true =>
      have inner : PatternsQuoted (.open :: (tokens ++ ([.close] ++ rest))) := by
        simpa [grouped] using quoted
      exact ⟨_, inner.tail⟩
  induction p generalizing rest with
  | compare | member => nofun
  | like column pattern =>
    intro pattern' listed bare
    rw [List.mem_singleton.mp listed] at bare
    have word : literalToken pattern = .word pattern := if_pos bare
    rw [tokens, word] at quoted
    obtain ⟨_, _, same⟩ := quoted.2.1 (by decide)
    cases same
  | not p ih =>
    obtain ⟨_, inner⟩ := grouped_behind quoted.tail
    exact ih inner
  | and p q ihLeft ihRight =>
    rw [tokens, List.append_assoc] at quoted
    obtain ⟨_, first⟩ := grouped_behind quoted
    obtain ⟨_, second⟩ := grouped_behind quoted.behind.tail
    exact List.forall_mem_append.mpr ⟨ihLeft first, ihRight second⟩
  | or p q ihLeft ihRight =>
    rw [tokens, List.append_assoc] at quoted
    exact List.forall_mem_append.mpr ⟨ihLeft quoted, ihRight quoted.behind.tail⟩

/-! ## Reading a printed predicate -/

/-- The text of a predicate that was read can be read unless a pattern of it is written as a word.
What is read then is the predicate with its chains leaning to the left, and it accepts the same
rows. -/
theorem read_text {text : String} {p : Predicate} (found : read text = .ok p) :
    ((∃ q, read p.text = .ok q) ↔ ∀ pattern ∈ p.patterns, ¬ IsBare pattern) ∧
      ∀ q, read p.text = .ok q →
        q = p.leaning ∧ ∀ row members, q.eval row members = p.eval row members := by
  have sayable := sayable_of_read found
  have derived : ∀ {q}, read p.text = .ok q → Derives .disjunction p.tokens q := by
    intro q again
    obtain ⟨tokens, lexes, derives⟩ := read_ok_iff.mp again
    have same := (tokens?_iff.mpr lexes).symm.trans (tokens?_iff.mpr (lexes_text sayable))
    rwa [Option.some.inj same] at derives
  have quoted_of_read : ∀ {q}, read p.text = .ok q → ∀ pattern ∈ p.patterns, ¬ IsBare pattern := by
    intro q again
    have quoted := (derived again).patternsQuoted
    rw [← List.append_nil p.tokens] at quoted
    exact not_isBare_of_patternsQuoted quoted
  refine ⟨⟨fun ⟨q, again⟩ => quoted_of_read again, fun quoted => ?_⟩, fun q again => ?_⟩
  · exact ⟨p.leaning,
      read_ok_iff.mpr ⟨_, lexes_text sayable, (readsBack_of_sayable sayable quoted).disjunction⟩⟩
  · have back := readsBack_of_sayable sayable (quoted_of_read again)
    have same : q = p.leaning := derives_unique (derived again) back.disjunction
    exact ⟨same, fun row members => by rw [same, eval_leaning]⟩

/-- A pattern without blanks or special characters is written as a word, so a predicate with one
cannot be read back. -/
theorem not_read_text_like :
    read "name like 'A%'" = .ok (.like "name" "A%") ∧
      ¬ ∃ q, read (Predicate.like "name" "A%").text = .ok q := by
  have found : read "name like 'A%'" = .ok (.like "name" "A%") := by decide +kernel
  refine ⟨found, fun again => ?_⟩
  exact (read_text found).1.mp again "A%" (by simp [patterns]) (by decide +kernel)

end CrossPlan.Predicate
