import CrossPlan.Predicate.Reading
import CrossPlan.Proofs.Predicate.Lexing

/-!
# The grammar of predicates

A predicate is a chain of `or`s, whose parts are chains of `and`s, whose parts are tests, negations
and predicates in parentheses; chains lean to the left.  Reading a text succeeds exactly with the
predicate that its tokens derive in this grammar, and no list of tokens derives two predicates.
-/

set_option autoImplicit false

namespace CrossPlan.Predicate

/-! ## The grammar -/

inductive Token.IsLiteral : Token → String → Prop
  | quoted (text : String) : Token.IsLiteral (.quoted text) text
  | word {text : String} (free : isKeyword text = false) : Token.IsLiteral (.word text) text

inductive Tests : List Token → Predicate → Prop
  | compare {column literal : String} {token : Token} (comparison : Comparison)
      (named : isName column = true) (means : token.IsLiteral literal) :
      Tests [.word column, .comparison comparison, token] (.compare column comparison literal)
  | like {column key : String} (pattern : String) (named : isName column = true)
      (like : Text.sameLetters "like" key = true) :
      Tests [.word column, .word key, .quoted pattern] (.like column pattern)
  | notLike {column negation key : String} (pattern : String) (named : isName column = true)
      (negated : Text.sameLetters "not" negation = true)
      (like : Text.sameLetters "like" key = true) :
      Tests [.word column, .word negation, .word key, .quoted pattern] (.not (.like column pattern))
  | member {column key broadcast : String} (named : isName column = true)
      (among : Text.sameLetters "in" key = true) (called : isName broadcast = true) :
      Tests [.word column, .word key, .broadcast, .word broadcast] (.member column broadcast)
  | notMember {column negation key broadcast : String} (named : isName column = true)
      (negated : Text.sameLetters "not" negation = true)
      (among : Text.sameLetters "in" key = true) (called : isName broadcast = true) :
      Tests [.word column, .word negation, .word key, .broadcast, .word broadcast]
        (.not (.member column broadcast))

/-- How tightly the parts of a predicate are bound. -/
inductive Level where
  | disjunction
  | conjunction
  | unary

/-- The tokens of a predicate that may stand at a level. -/
inductive Derives : Level → List Token → Predicate → Prop
  | disjunction {tokens : List Token} {p : Predicate} (part : Derives .conjunction tokens p) :
      Derives .disjunction tokens p
  | or {before behind : List Token} {key : String} {p q : Predicate}
      (left : Derives .disjunction before p) (keyword : Text.sameLetters "or" key = true)
      (right : Derives .conjunction behind q) :
      Derives .disjunction (before ++ .word key :: behind) (.or p q)
  | conjunction {tokens : List Token} {p : Predicate} (part : Derives .unary tokens p) :
      Derives .conjunction tokens p
  | and {before behind : List Token} {key : String} {p q : Predicate}
      (left : Derives .conjunction before p) (keyword : Text.sameLetters "and" key = true)
      (right : Derives .unary behind q) :
      Derives .conjunction (before ++ .word key :: behind) (.and p q)
  | not {tokens : List Token} {key : String} {p : Predicate}
      (keyword : Text.sameLetters "not" key = true) (part : Derives .unary tokens p) :
      Derives .unary (.word key :: tokens) (.not p)
  | group {tokens : List Token} {p : Predicate} (part : Derives .disjunction tokens p) :
      Derives .unary (.open :: tokens ++ [.close]) p
  | test {tokens : List Token} {p : Predicate} (test : Tests tokens p) : Derives .unary tokens p

/-! ## Keywords -/

theorem sameLetters_apart (other : String) {keyword word : String}
    (same : Text.sameLetters keyword word = true)
    (apart : Text.sameLetters other keyword = false) : Text.sameLetters other word = false := by
  simp only [Text.sameLetters, beq_iff_eq] at same
  rw [← apart]
  simp only [Text.sameLetters, same]

theorem isKeyword_eq_false_iff {word : String} : isKeyword word = false ↔
    Text.sameLetters "and" word = false ∧ Text.sameLetters "or" word = false ∧
      Text.sameLetters "not" word = false ∧ Text.sameLetters "like" word = false ∧
      Text.sameLetters "in" word = false := by
  simp only [isKeyword, List.any_cons, List.any_nil, Bool.or_false, Bool.or_eq_false_iff]

theorem not_isKeyword_of_isName {word : String} (named : isName word = true) :
    isKeyword word = false := by
  unfold isName at named
  split at named
  · cases named
  · simp only [Bool.and_eq_true, Bool.not_eq_true'] at named
    exact named.2

theorem afterKeyword?_some_iff {keyword : String} {tokens rest : List Token} :
    afterKeyword? keyword tokens = some rest ↔
      ∃ word, tokens = .word word :: rest ∧ Text.sameLetters keyword word = true := by
  constructor
  · intro found
    unfold afterKeyword? at found
    split at found
    · next word rest' =>
      split at found
      · next same =>
        cases found
        exact ⟨word, rfl, same⟩
      · cases found
    · cases found
  · rintro ⟨word, rfl, same⟩
    exact if_pos same

theorem afterKeyword?_word {keyword word : String} {rest : List Token}
    (same : Text.sameLetters keyword word = true) :
    afterKeyword? keyword (.word word :: rest) = some rest :=
  if_pos same

theorem afterKeyword?_other {keyword word : String} {rest : List Token}
    (other : Text.sameLetters keyword word = false) :
    afterKeyword? keyword (.word word :: rest) = none := by
  rw [afterKeyword?, other]
  rfl

/-! ## Tests -/

theorem tests_of_testTail? {column : String} {negated : Bool} {tokens rest : List Token}
    {p : Predicate} (named : isName column = true)
    (found : testTail? column negated tokens = some (p, rest)) :
    ∃ used, tokens = used ++ rest ∧
      (negated = false → Tests (.word column :: used) p) ∧
      ∀ negation, Text.sameLetters "not" negation = true → negated = true →
        Tests (.word column :: .word negation :: used) (.not p) := by
  unfold testTail? at found
  split at found
  · next behind like =>
    obtain ⟨key, rfl, same⟩ := afterKeyword?_some_iff.mp like
    split at found
    · next pattern rest' =>
      cases found
      exact ⟨[.word key, .quoted pattern], rfl, fun _ => .like pattern named same,
        fun negation negates _ => .notLike pattern named negates same⟩
    · cases found
  · next behind _ among =>
    obtain ⟨key, rfl, same⟩ := afterKeyword?_some_iff.mp among
    split at found
    · rename_i broadcast rest' _
      split at found
      · next called =>
        cases found
        exact ⟨[.word key, .broadcast, .word broadcast], rfl, fun _ => .member named same called,
          fun negation negates _ => .notMember named negates same called⟩
      · cases found
    · cases found
  · split at found
    · cases found
    · next positive =>
      have absent : negated = true → False := fun negates => positive negates
      split at found
      · rename_i comparison literal rest' _ _
        cases found
        exact ⟨[.comparison comparison, .quoted literal], rfl,
          fun _ => .compare comparison named (.quoted literal),
          fun _ _ negates => (absent negates).elim⟩
      · rename_i comparison literal rest' _ _
        split at found
        · cases found
        · next free =>
          cases found
          exact ⟨[.comparison comparison, .word literal], rfl,
            fun _ => .compare comparison named (.word (Bool.eq_false_iff.mpr free)),
            fun _ _ negates => (absent negates).elim⟩
      · cases found

theorem tests_of_test? {tokens rest : List Token} {p : Predicate}
    (found : test? tokens = some (p, rest)) : ∃ used, tokens = used ++ rest ∧ Tests used p := by
  unfold test? at found
  split at found
  · next column behind =>
    split at found
    · cases found
    · next named =>
      simp only [Bool.not_eq_true', Bool.not_eq_false] at named
      split at found
      · next after negation =>
        obtain ⟨word, rfl, same⟩ := afterKeyword?_some_iff.mp negation
        obtain ⟨⟨q, rest'⟩, tail, made⟩ := Option.map_eq_some_iff.mp found
        cases made
        obtain ⟨used, rfl, -, negated⟩ := tests_of_testTail? named tail
        exact ⟨.word column :: .word word :: used, rfl, negated word same rfl⟩
      · obtain ⟨used, rfl, positive, -⟩ := tests_of_testTail? named found
        exact ⟨.word column :: used, rfl, positive rfl⟩
  · cases found

theorem test?_of_tests {tokens : List Token} {p : Predicate} (tests : Tests tokens p)
    (rest : List Token) : test? (tokens ++ rest) = some (p, rest) := by
  cases tests with
  | compare comparison named means =>
    cases means with
    | quoted literal => simp [test?, testTail?, afterKeyword?, named]
    | word free => simp [test?, testTail?, afterKeyword?, named, free]
  | like pattern named like =>
    have negation := sameLetters_apart "not" like (by decide)
    simp [test?, testTail?, afterKeyword?, named, like, negation]
  | notLike pattern named negated like =>
    simp [test?, testTail?, afterKeyword?, named, negated, like]
  | member named among called =>
    have negation := sameLetters_apart "not" among (by decide)
    have like := sameLetters_apart "like" among (by decide)
    simp [test?, testTail?, afterKeyword?, named, among, negation, like, called]
  | notMember named negated among called =>
    have like := sameLetters_apart "like" among (by decide)
    simp [test?, testTail?, afterKeyword?, named, negated, among, like, called]

theorem unary?_succ (steps : Nat) (tokens : List Token) :
    unary? (steps + 1) tokens =
      match afterKeyword? "not" tokens with
      | some rest => (unary? steps rest).map fun (p, rest) => (.not p, rest)
      | none =>
        match tokens with
        | .open :: rest =>
          match disjunction? steps rest with
          | some (p, .close :: rest) => some (p, rest)
          | _ => none
        | _ => test? tokens :=
  rfl

theorem Tests.head {tokens : List Token} {p : Predicate} (tests : Tests tokens p) :
    ∃ column rest, tokens = .word column :: rest ∧ isName column = true := by
  cases tests with
  | compare _ named => exact ⟨_, _, rfl, named⟩
  | like _ named => exact ⟨_, _, rfl, named⟩
  | notLike _ named => exact ⟨_, _, rfl, named⟩
  | member named => exact ⟨_, _, rfl, named⟩
  | notMember named => exact ⟨_, _, rfl, named⟩

/-! ## What is read is derived -/

/-- Whatever the readers of a depth take off some tokens derives what they answer with. -/
structure Sound (steps : Nat) : Prop where
  disjunction : ∀ {tokens p rest}, disjunction? steps tokens = some (p, rest) →
    ∃ used, tokens = used ++ rest ∧ Derives .disjunction used p
  disjuncts : ∀ {before left tokens p rest}, Derives .disjunction before left →
    moreDisjuncts? steps left tokens = some (p, rest) →
    ∃ used, tokens = used ++ rest ∧ Derives .disjunction (before ++ used) p
  conjunction : ∀ {tokens p rest}, conjunction? steps tokens = some (p, rest) →
    ∃ used, tokens = used ++ rest ∧ Derives .conjunction used p
  conjuncts : ∀ {before left tokens p rest}, Derives .conjunction before left →
    moreConjuncts? steps left tokens = some (p, rest) →
    ∃ used, tokens = used ++ rest ∧ Derives .conjunction (before ++ used) p
  unary : ∀ {tokens p rest}, unary? steps tokens = some (p, rest) →
    ∃ used, tokens = used ++ rest ∧ Derives .unary used p

theorem sound_zero : Sound 0 := by
  constructor
  · intro tokens p rest found
    cases found
  · intro before left tokens p rest _ found
    cases found
  · intro tokens p rest found
    cases found
  · intro before left tokens p rest _ found
    cases found
  · intro tokens p rest found
    cases found

theorem sound_succ {steps : Nat} (sound : Sound steps) : Sound (steps + 1) where
  disjunction := by
    intro tokens p rest found
    obtain ⟨⟨first, behind⟩, here, more⟩ := Option.bind_eq_some_iff.mp found
    obtain ⟨used, rfl, part⟩ := sound.conjunction here
    obtain ⟨used', rfl, whole⟩ := sound.disjuncts (.disjunction part) more
    exact ⟨used ++ used', (List.append_assoc _ _ _).symm, whole⟩
  disjuncts := by
    intro before left tokens p rest derived found
    rw [moreDisjuncts?] at found
    split at found
    · cases found
      exact ⟨[], rfl, by rwa [List.append_nil]⟩
    · next behind keyword =>
      obtain ⟨key, rfl, same⟩ := afterKeyword?_some_iff.mp keyword
      obtain ⟨⟨right, last⟩, here, more⟩ := Option.bind_eq_some_iff.mp found
      obtain ⟨used, rfl, part⟩ := sound.conjunction here
      obtain ⟨used', rfl, whole⟩ := sound.disjuncts (.or derived same part) more
      exact ⟨.word key :: used ++ used', by simp, by simpa using whole⟩
  conjunction := by
    intro tokens p rest found
    obtain ⟨⟨first, behind⟩, here, more⟩ := Option.bind_eq_some_iff.mp found
    obtain ⟨used, rfl, part⟩ := sound.unary here
    obtain ⟨used', rfl, whole⟩ := sound.conjuncts (.conjunction part) more
    exact ⟨used ++ used', (List.append_assoc _ _ _).symm, whole⟩
  conjuncts := by
    intro before left tokens p rest derived found
    rw [moreConjuncts?] at found
    split at found
    · cases found
      exact ⟨[], rfl, by rwa [List.append_nil]⟩
    · next behind keyword =>
      obtain ⟨key, rfl, same⟩ := afterKeyword?_some_iff.mp keyword
      obtain ⟨⟨right, last⟩, here, more⟩ := Option.bind_eq_some_iff.mp found
      obtain ⟨used, rfl, part⟩ := sound.unary here
      obtain ⟨used', rfl, whole⟩ := sound.conjuncts (.and derived same part) more
      exact ⟨.word key :: used ++ used', by simp, by simpa using whole⟩
  unary := by
    intro tokens p rest found
    rw [unary?_succ] at found
    split at found
    · next behind keyword =>
      obtain ⟨key, rfl, same⟩ := afterKeyword?_some_iff.mp keyword
      obtain ⟨⟨q, last⟩, here, made⟩ := Option.map_eq_some_iff.mp found
      cases made
      obtain ⟨used, rfl, part⟩ := sound.unary here
      exact ⟨.word key :: used, rfl, .not same part⟩
    · split at found
      · next behind =>
        split at found
        · next q last here =>
          cases found
          obtain ⟨used, rfl, part⟩ := sound.disjunction here
          exact ⟨.open :: used ++ [.close], by simp, .group part⟩
        · cases found
      · obtain ⟨used, rfl, tests⟩ := tests_of_test? found
        exact ⟨used, rfl, .test tests⟩

theorem sound_steps (steps : Nat) : Sound steps := by
  induction steps with
  | zero => exact sound_zero
  | succ steps ih => exact sound_succ ih

/-! ## A reader that may go deeper answers the same -/

structure Deepens (steps more : Nat) : Prop where
  disjunction : ∀ {tokens result}, disjunction? steps tokens = some result →
    disjunction? more tokens = some result
  disjuncts : ∀ {left tokens result}, moreDisjuncts? steps left tokens = some result →
    moreDisjuncts? more left tokens = some result
  conjunction : ∀ {tokens result}, conjunction? steps tokens = some result →
    conjunction? more tokens = some result
  conjuncts : ∀ {left tokens result}, moreConjuncts? steps left tokens = some result →
    moreConjuncts? more left tokens = some result
  unary : ∀ {tokens result}, unary? steps tokens = some result →
    unary? more tokens = some result

theorem deepens_zero (more : Nat) : Deepens 0 more := by
  constructor
  · intro tokens result found
    cases found
  · intro left tokens result found
    cases found
  · intro tokens result found
    cases found
  · intro left tokens result found
    cases found
  · intro tokens result found
    cases found

theorem deepens_succ {steps more : Nat} (deepens : Deepens steps more) :
    Deepens (steps + 1) (more + 1) where
  disjunction := by
    intro tokens result found
    obtain ⟨first, here, more⟩ := Option.bind_eq_some_iff.mp found
    exact Option.bind_eq_some_iff.mpr ⟨first, deepens.conjunction here, deepens.disjuncts more⟩
  disjuncts := by
    intro left tokens result found
    rw [moreDisjuncts?] at found ⊢
    cases keyword : afterKeyword? "or" tokens with
    | none => simpa only [keyword] using found
    | some rest =>
      simp only [keyword] at found ⊢
      obtain ⟨right, here, more⟩ := Option.bind_eq_some_iff.mp found
      exact Option.bind_eq_some_iff.mpr ⟨right, deepens.conjunction here, deepens.disjuncts more⟩
  conjunction := by
    intro tokens result found
    obtain ⟨first, here, more⟩ := Option.bind_eq_some_iff.mp found
    exact Option.bind_eq_some_iff.mpr ⟨first, deepens.unary here, deepens.conjuncts more⟩
  conjuncts := by
    intro left tokens result found
    rw [moreConjuncts?] at found ⊢
    cases keyword : afterKeyword? "and" tokens with
    | none => simpa only [keyword] using found
    | some rest =>
      simp only [keyword] at found ⊢
      obtain ⟨right, here, more⟩ := Option.bind_eq_some_iff.mp found
      exact Option.bind_eq_some_iff.mpr ⟨right, deepens.unary here, deepens.conjuncts more⟩
  unary := by
    intro tokens result found
    rw [unary?_succ] at found ⊢
    cases keyword : afterKeyword? "not" tokens with
    | some rest =>
      simp only [keyword] at found ⊢
      obtain ⟨part, here, made⟩ := Option.map_eq_some_iff.mp found
      exact Option.map_eq_some_iff.mpr ⟨part, deepens.unary here, made⟩
    | none =>
      simp only [keyword] at found ⊢
      split at found
      · split at found
        · next here => simpa only [deepens.disjunction here] using found
        · cases found
      · exact found

theorem deepens_of_le {steps more : Nat} (enough : steps ≤ more) : Deepens steps more := by
  induction steps generalizing more with
  | zero => exact deepens_zero more
  | succ steps ih =>
    obtain ⟨extra, rfl⟩ := Nat.exists_eq_add_of_le' enough
    exact deepens_succ (ih (Nat.le_add_left steps extra))

/-! ## What is derived is read -/

/-- A chain is read with what follows it: where its last part has been read, the reader goes on
with whatever comes behind.  Each token gives four steps of depth. -/
def Completes : Level → List Token → Predicate → Prop
  | .disjunction, tokens, p => ∀ steps rest result, afterKeyword? "and" rest = none →
      moreDisjuncts? steps p rest = some result →
      disjunction? (steps + 4 * tokens.length + 2) (tokens ++ rest) = some result
  | .conjunction, tokens, p => ∀ steps rest result, moreConjuncts? steps p rest = some result →
      conjunction? (steps + 4 * tokens.length + 1) (tokens ++ rest) = some result
  | .unary, tokens, p => ∀ steps rest, 4 * tokens.length ≤ steps →
      unary? steps (tokens ++ rest) = some (p, rest)

theorem moreDisjuncts?_end {p : Predicate} {rest : List Token}
    (ends : afterKeyword? "or" rest = none) : moreDisjuncts? 1 p rest = some (p, rest) := by
  rw [moreDisjuncts?, ends]

theorem moreConjuncts?_end {p : Predicate} {rest : List Token}
    (ends : afterKeyword? "and" rest = none) : moreConjuncts? 1 p rest = some (p, rest) := by
  rw [moreConjuncts?, ends]

theorem Completes.conjunction_alone {tokens : List Token} {p : Predicate}
    (completes : Completes .conjunction tokens p) (steps : Nat)
    (enough : 4 * tokens.length + 2 ≤ steps) {rest : List Token}
    (ends : afterKeyword? "and" rest = none) :
    conjunction? steps (tokens ++ rest) = some (p, rest) :=
  (deepens_of_le (by omega)).conjunction (completes 1 rest _ (moreConjuncts?_end ends))

theorem Completes.disjunction_alone {tokens : List Token} {p : Predicate}
    (completes : Completes .disjunction tokens p) (steps : Nat)
    (enough : 4 * tokens.length + 3 ≤ steps) {rest : List Token}
    (ends : afterKeyword? "and" rest = none) (ends' : afterKeyword? "or" rest = none) :
    disjunction? steps (tokens ++ rest) = some (p, rest) :=
  (deepens_of_le (by omega)).disjunction (completes 1 rest _ ends (moreDisjuncts?_end ends'))

theorem completes_of_derives {level : Level} {tokens : List Token} {p : Predicate}
    (derives : Derives level tokens p) : Completes level tokens p := by
  induction derives with
  | @disjunction tokens p _ ih =>
    intro steps rest result ends more
    cases steps with
    | zero => cases more
    | succ steps =>
      have part := Completes.conjunction_alone ih (steps + 4 * tokens.length + 2) (by omega) ends
      rw [show steps + 1 + 4 * tokens.length + 2 = steps + 4 * tokens.length + 2 + 1 by omega]
      exact Option.bind_eq_some_iff.mpr ⟨_, part, (deepens_of_le (by omega)).disjuncts more⟩
  | @or before behind key p q _ keyword _ ihLeft ihRight =>
    intro steps rest result ends more
    have part := Completes.conjunction_alone ihRight (steps + 4 * behind.length + 2) (by omega) ends
    have further : moreDisjuncts? (steps + 4 * behind.length + 2 + 1) p
        (.word key :: (behind ++ rest)) = some result := by
      rw [moreDisjuncts?, afterKeyword?_word keyword]
      exact Option.bind_eq_some_iff.mpr ⟨_, part, (deepens_of_le (by omega)).disjuncts more⟩
    have apart : afterKeyword? "and" (.word key :: (behind ++ rest)) = none :=
      afterKeyword?_other (sameLetters_apart "and" keyword (by decide))
    have whole := ihLeft _ _ _ apart further
    rw [List.append_assoc, List.cons_append]
    refine (deepens_of_le ?_).disjunction whole
    rw [List.length_append, List.length_cons]
    omega
  | @conjunction tokens p _ ih =>
    intro steps rest result more
    have part := ih (steps + 4 * tokens.length) rest (by omega)
    exact Option.bind_eq_some_iff.mpr ⟨_, part, (deepens_of_le (by omega)).conjuncts more⟩
  | @and before behind key p q _ keyword _ ihLeft ihRight =>
    intro steps rest result more
    have part := ihRight (steps + 4 * behind.length) rest (by omega)
    have further : moreConjuncts? (steps + 4 * behind.length + 1) p
        (.word key :: (behind ++ rest)) = some result := by
      rw [moreConjuncts?, afterKeyword?_word keyword]
      exact Option.bind_eq_some_iff.mpr ⟨_, part, (deepens_of_le (by omega)).conjuncts more⟩
    have whole := ihLeft _ _ _ further
    rw [List.append_assoc, List.cons_append]
    refine (deepens_of_le ?_).conjunction whole
    rw [List.length_append, List.length_cons]
    omega
  | @not tokens key p keyword _ ih =>
    intro steps rest enough
    rw [List.length_cons] at enough
    obtain ⟨steps, rfl⟩ : ∃ less, steps = less + 1 := ⟨steps - 1, by omega⟩
    rw [List.cons_append, unary?_succ, afterKeyword?_word keyword]
    dsimp only
    rw [ih steps rest (by omega)]
    rfl
  | @group tokens p _ ih =>
    intro steps rest enough
    rw [List.length_append, List.length_cons, List.length_singleton] at enough
    obtain ⟨steps, rfl⟩ : ∃ less, steps = less + 1 := ⟨steps - 1, by omega⟩
    have inner : disjunction? steps (tokens ++ .close :: rest) = some (p, .close :: rest) :=
      Completes.disjunction_alone ih steps (by omega) rfl rfl
    have split : (.open :: tokens ++ [.close]) ++ rest = .open :: (tokens ++ .close :: rest) := by
      simp
    rw [split, unary?_succ]
    simp only [afterKeyword?, inner]
  | @test tokens p tests =>
    intro steps rest enough
    obtain ⟨column, behind, rfl, named⟩ := tests.head
    rw [List.length_cons] at enough
    obtain ⟨steps, rfl⟩ : ∃ less, steps = less + 1 := ⟨steps - 1, by omega⟩
    obtain ⟨-, -, negation, -⟩ := isKeyword_eq_false_iff.mp (not_isKeyword_of_isName named)
    rw [List.cons_append, unary?_succ, afterKeyword?_other negation]
    exact test?_of_tests tests rest

/-! ## Reading a text -/

theorem ofTokens?_iff {tokens : List Token} {p : Predicate} :
    ofTokens? tokens = some p ↔ Derives .disjunction tokens p := by
  constructor
  · intro found
    unfold ofTokens? at found
    split at found
    · next q here =>
      cases found
      obtain ⟨used, rfl, derived⟩ := (sound_steps _).disjunction here
      rwa [List.append_nil]
    · cases found
  · intro derived
    have whole : disjunction? (4 * tokens.length + 4) (tokens ++ []) = some (p, []) :=
      Completes.disjunction_alone (completes_of_derives derived) _ (by omega) rfl rfl
    rw [List.append_nil] at whole
    rw [ofTokens?, whole]

theorem derives_unique {tokens : List Token} {p q : Predicate}
    (first : Derives .disjunction tokens p) (second : Derives .disjunction tokens q) : p = q :=
  Option.some.inj ((ofTokens?_iff.mpr first).symm.trans (ofTokens?_iff.mpr second))

theorem read_ok_iff {text : String} {p : Predicate} :
    read text = .ok p ↔
      ∃ tokens, Lexes text.toList tokens [] ∧ Derives .disjunction tokens p := by
  have parts : read text = .ok p ↔ (tokens? text).bind ofTokens? = some p := by
    unfold read
    split
    · next found => rw [found, Except.ok.injEq, Option.some.injEq]
    · next nothing => simp [nothing]
  simp only [parts, Option.bind_eq_some_iff, tokens?_iff, ofTokens?_iff]

/-- A text is read as a predicate exactly if it can be cut into tokens that derive the predicate.  A
text can be cut into tokens unless a place is reached where a quote has no end or an equals sign or
an exclamation mark stands alone, and tokens derive one predicate at most. -/
theorem read_exact :
    (∀ text p, read text = .ok p ↔
      ∃ tokens, Lexes text.toList tokens [] ∧ Derives .disjunction tokens p) ∧
    (∀ text : String, (∃ tokens, Lexes text.toList tokens []) ↔
      ¬ ∃ tokens rest, Lexes text.toList tokens rest ∧ Jammed rest) ∧
    ∀ tokens p q, Derives .disjunction tokens p → Derives .disjunction tokens q → p = q := by
  refine ⟨fun text p => read_ok_iff, fun text => ?_, fun tokens p q => derives_unique⟩
  rw [← tokens?_eq_none_iff, ← ne_eq, Option.ne_none_iff_exists']
  simp only [tokens?_iff]

end CrossPlan.Predicate
