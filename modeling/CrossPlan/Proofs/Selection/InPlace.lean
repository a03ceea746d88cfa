import CrossPlan.Proofs.Selection.Solving

/-!
# Searching in place

Both searches can do with a single desk.  They put a candidate on it, mark the groups that are
complete with it, and take back what they tried before they try something else.  A search in place
sees at any time the branch that it would otherwise be given, so that it finds the same.
-/

set_option autoImplicit false

namespace CrossPlan

open Sequence

/-- What a search in place writes to. -/
structure Desk where
  assigned : Assignment
  /-- for each group whether its cost is counted -/
  counted : List Bool
  chosen : List Nat

namespace Desk

def clear (desk : Desk) (places : List Nat) : Desk :=
  { desk with
    assigned := places.foldl (fun assigned place => assigned.set place none) desk.assigned }

def mark (desk : Desk) (groups : List Nat) (flag : Bool) : Desk :=
  { desk with counted := groups.foldl (fun counted group => counted.set group flag) desk.counted }

def push (desk : Desk) (candidate : Nat) : Desk :=
  { desk with chosen := desk.chosen ++ [candidate] }

def pop (desk : Desk) : Desk := { desk with chosen := desk.chosen.dropLast }

end Desk

namespace Problem

variable {α : Type} [Quantity α]

open Quantity

omit [Quantity α] in
def desk (problem : Problem α) : Desk :=
  ⟨problem.unassigned, List.replicate problem.groups.length false, []⟩

omit [Quantity α] in
def completedOn (problem : Problem α) (desk : Desk) (places : List Nat) : List Nat :=
  (places.flatMap fun place => problem.touching.getD place []).eraseDups.filter fun group =>
    !desk.counted.getD group false && problem.isComplete desk.assigned group

/-! ## Exhaustive search -/

/-- Puts a candidate on the desk if it fits, goes on from there unless that is in vain, and takes
the candidate back.  Answers whether it fitted. -/
def tryOut (problem : Problem α) (goOn : α → StateM (Desk × Search α) Unit) (cost : α)
    (candidate : Nat) : StateM (Desk × Search α) Bool := do
  let (desk, search) ← get
  match problem.candidates[candidate]?, problem.place? candidate desk.assigned with
  | some found, some (places, assigned) =>
    let desk := { desk with assigned }
    let completed := problem.completedOn desk places
    match problem.addGroups assigned (cost + found.cost) completed with
    | .error failure => set (desk, { search with failure := some failure })
    | .ok cost =>
      if search.excludes (problem.bound? ⟨assigned, [], [], cost⟩) then set (desk, search)
      else
        set ((desk.mark completed true).push candidate, search)
        goOn cost
        modify fun (desk, search) => (desk.pop.mark completed false, search)
    modify fun (desk, search) => (desk.clear places, search)
    return true
  | _, _ => return false

def explore (problem : Problem α) : List Nat → α → StateM (Desk × Search α) Unit
  | [], _ => modify fun (desk, search) =>
      (desk, search.finish problem ⟨desk.assigned, [], desk.chosen, zero⟩)
  | place :: rest, cost => do
    if ((← get).1.assigned.getD place none).isSome then problem.explore rest cost
    else
      let fitted ← (problem.covering.getD place []).foldlM (fun fitted candidate => do
        return (← problem.tryOut (problem.explore rest) cost candidate) || fitted) false
      unless fitted do modify fun (desk, search) => (desk, search.stuckAt place)

/-! ## Greedy search -/

structure Pick (α : Type) where
  share : α
  rank : Nat
  candidate : Nat
  completed : List Nat

def Pick.better (next best : Pick α) : Bool :=
  if sameCost next.share best.share then next.rank < best.rank else lt next.share best.share

/-- The best pick for a place and the last output that could not be handed over, after one more
candidate was put on the desk and taken back. -/
def weigh (problem : Problem α) (noted : Option (Pick α) × Option ChannelFailure)
    (candidate : Nat) : StateM Desk (Option (Pick α) × Option ChannelFailure) := do
  let desk ← get
  match problem.candidates[candidate]?, problem.place? candidate desk.assigned with
  | some found, some (places, assigned) =>
    set { desk with assigned }
    let completed := problem.completedOn { desk with assigned } places
    let channels := problem.addGroups assigned zero completed
    modify fun desk => desk.clear places
    match channels with
    | .error failure => return (noted.1, some failure)
    | .ok channels =>
      let next : Pick α := ⟨share found (found.cost + channels),
        problem.config.rank found.platform, candidate, completed⟩
      match noted.1 with
      | some held => return (some (if next.better held then next else held), noted.2)
      | none => return (some next, noted.2)
  | _, _ => return noted

def settle (problem : Problem α) (pick : Pick α) : StateM Desk Unit := do
  if let some (_, assigned) := problem.place? pick.candidate (← get).assigned then
    modify fun desk => { desk with assigned }
  modify fun desk => (desk.mark pick.completed true).push pick.candidate

def settleAll (problem : Problem α) :
    List Nat → Option ChannelFailure → StateM Desk (Except OptimizeError Unit)
  | [], _ => return .ok ()
  | place :: rest, failure => do
    if ((← get).assigned.getD place none).isSome then problem.settleAll rest failure
    else
      match ← (problem.covering.getD place []).foldlM problem.weigh (none, failure) with
      | (some pick, failure) => do
        problem.settle pick
        problem.settleAll rest failure
      | (none, some failure) => return .error failure.toError
      | (none, none) => return .error (.unsatisfiable [problem.nameAt place])

/-- The selection for a problem as it is found on one desk. -/
def solveInPlace (problem : Problem α) : Except OptimizeError (Solution α) :=
  if !problem.uncovered.isEmpty then .error (.unsatisfiable problem.uncovered)
  else if problem.candidates.length ≤ problem.config.exhaustiveLimit then
    let (_, search) := ((problem.explore problem.places zero).run (problem.desk, .empty)).2
    match search.best with
    | some solution => .ok solution
    | none => .error (search.error problem)
  else
    let (settled, desk) := (problem.settleAll problem.places none).run problem.desk
    do
      settled
      let score ← (problem.scoreOf (desk.assigned.filterMap id)).mapError ChannelFailure.toError
      pure ⟨desk.chosen, score⟩

/-! ## What the desk shows -/

structure Shows (problem : Problem α) (desk : Desk) (branch : Branch α) : Prop where
  assigned : desk.assigned = branch.assigned
  length : desk.counted.length = problem.groups.length
  counted : ∀ group < problem.groups.length,
    desk.counted.getD group false = branch.counted.contains group
  chosen : desk.chosen = branch.chosen

variable {problem : Problem α}

theorem shows_start :
    problem.Shows problem.desk (⟨problem.unassigned, [], [], zero⟩ : Branch α) where
  assigned := rfl
  length := List.length_replicate
  counted := fun group within => by simp [desk, within]
  chosen := rfl

omit [Quantity α] in
theorem lt_of_isComplete {assigned : Assignment} {group : Nat}
    (complete : problem.isComplete assigned group = true) : group < problem.groups.length := by
  by_contra beyond
  simp [isComplete, List.getElem?_eq_none (Nat.le_of_not_lt beyond)] at complete

namespace Shows

variable {desk : Desk} {branch : Branch α}

omit [Quantity α] in
theorem completedOn (shows : problem.Shows desk branch) (assigned : Assignment)
    (places : List Nat) : problem.completedOn { desk with assigned } places =
      problem.completed assigned branch.counted places := by
  refine List.filter_congr fun group _ => ?_
  cases complete : problem.isComplete assigned group with
  | false => rw [Bool.and_false, Bool.and_false]
  | true => rw [shows.counted group (lt_of_isComplete complete)]

omit [Quantity α] in
theorem after (shows : problem.Shows desk branch) (placement : Placement α) (cost : α) :
    problem.Shows (({ desk with assigned := placement.assigned : Desk }.mark placement.completed
      true).push placement.place) (branch.after placement cost) where
  assigned := rfl
  length := (length_foldl_set _ _ _).trans shows.length
  counted := by
    intro group within
    have flag := shows.counted group within
    have found := List.getElem?_eq_getElem (shows.length ▸ within)
    rw [List.getD_eq_getElem?_getD, found] at flag
    simp only [Desk.push, Desk.mark, Branch.after]
    rw [List.getD_eq_getElem?_getD, getElem?_foldl_set, found]
    by_cases listed : group ∈ placement.completed
    · simp [listed]
    · simpa [listed] using flag
  chosen := congrArg (· ++ [placement.place]) shows.chosen

omit [Quantity α] in
/-- What is put on the desk for a candidate can be taken back, also when groups were marked. -/
theorem undone (shows : problem.Shows desk branch) {candidate : Nat} {places : List Nat}
    {assigned : Assignment}
    (placed : problem.place? candidate branch.assigned = some (places, assigned)) :
    let completed := problem.completed assigned branch.counted places
    let filled : Desk := { desk with assigned }
    filled.clear places = desk ∧
      (((filled.mark completed true).push candidate).pop.mark completed false).clear places =
        desk := by
  obtain ⟨-, free, rfl⟩ := place?_iff.mp placed
  simp only [Desk.clear, Desk.mark, Desk.push, Desk.pop, List.dropLast_concat, ← shows.assigned]
  rw [foldl_set_undone _ (some candidate), foldl_set_undone _ true]
  · exact ⟨rfl, rfl⟩
  · intro group listed flag found
    have fresh := Bool.and_eq_true_iff.mp (List.mem_filter.mp listed).2
    have marked := shows.counted group (lt_of_isComplete fresh.2)
    rw [List.getD_eq_getElem?_getD, found] at marked
    simpa using marked.trans (by simpa using fresh.1)
  · intro place listed held found
    have empty := free place listed
    rwa [← shows.assigned, List.getD_eq_getElem?_getD, found] at empty

end Shows

/-! ## Exhaustive search -/

theorem attempt_eq (rest : List Nat) (branch : Branch α) (search : Search α)
    (placement : Placement α) : problem.attempt rest branch search placement =
      match problem.addGroups placement.assigned (branch.cost + placement.candidate.cost)
        placement.completed with
      | .error failure => { search with failure := some failure }
      | .ok cost =>
        if search.excludes (problem.bound? (branch.after placement cost)) then search
        else problem.descend rest (branch.after placement cost) search := by
  simp only [attempt, grow]
  cases problem.addGroups placement.assigned (branch.cost + placement.candidate.cost)
    placement.completed <;> rfl

/-- What goes on from a desk as a search goes on from the branch on it, and leaves the desk as it
was. -/
def Follows (problem : Problem α) (rest : List Nat) (goOn : α → StateM (Desk × Search α) Unit) :
    Prop :=
  ∀ (branch : Branch α) (desk : Desk) (search : Search α), problem.Shows desk branch →
    (goOn branch.cost).run (desk, search) = pure ((), desk, problem.descend rest branch search)

section

variable {rest : List Nat} {goOn : α → StateM (Desk × Search α) Unit} {branch : Branch α}
  {desk : Desk}

/-- A candidate that is tried out leaves the desk as it was and the search where it gets with it. -/
theorem run_tryOut (follows : problem.Follows rest goOn) (shows : problem.Shows desk branch)
    (search : Search α) (candidate : Nat) :
    (problem.tryOut goOn branch.cost candidate).run (desk, search) =
      match problem.placement? branch candidate with
      | some placement => pure (true, desk, problem.attempt rest branch search placement)
      | none => pure (false, desk, search) := by
  simp only [tryOut, placement?, StateT.run_bind, StateT.run_get, pure_bind, shows.assigned]
  cases problem.candidates[candidate]? with
  | none => rfl
  | some found =>
    cases placed : problem.place? candidate branch.assigned with
    | none => rfl
    | some result =>
      obtain ⟨places, assigned⟩ := result
      obtain ⟨cleared, undone⟩ := shows.undone placed
      simp only [shows.completedOn, Option.bind_eq_bind, Option.bind_some, Option.pure_def,
        attempt_eq]
      cases problem.addGroups assigned (branch.cost + found.cost)
          (problem.completed assigned branch.counted places) with
      | error failure =>
        simp only [StateT.run_bind, StateT.run_set, StateT.run_modify, StateT.run_pure, pure_bind,
          cleared]
      | ok cost =>
        have later : (goOn cost).run _ = _ := follows _ _ search (shows.after
          ⟨candidate, found, assigned, problem.completed assigned branch.counted places⟩ cost)
        simp only [bound?, Branch.after]
        split
        · simp only [StateT.run_bind, StateT.run_set, StateT.run_modify, StateT.run_pure, pure_bind,
            cleared]
        · simp only [StateT.run_bind, StateT.run_set, StateT.run_modify, StateT.run_pure, pure_bind,
            later, undone, Branch.after]

theorem run_tryOut_all (follows : problem.Follows rest goOn) (shows : problem.Shows desk branch)
    (candidates : List Nat) (search : Search α) (fitted : Bool) :
    (candidates.foldlM (fun fitted candidate => do
      return (← problem.tryOut goOn branch.cost candidate) || fitted) fitted).run (desk, search) =
      let placements := candidates.filterMap (problem.placement? branch)
      pure (fitted || !placements.isEmpty, desk,
        placements.foldl (problem.attempt rest branch) search) := by
  induction candidates generalizing search fitted with
  | nil => simp
  | cons candidate others ih =>
    rw [List.foldlM_cons, StateT.run_bind, StateT.run_bind, run_tryOut follows shows]
    cases placed : problem.placement? branch candidate with
    | none => simpa [placed] using ih search fitted
    | some placement => simpa [placed] using ih (problem.attempt rest branch search placement) true

end

/-- A search in place finds what the search of the branch on the desk finds. -/
theorem follows_explore (places : List Nat) : problem.Follows places (problem.explore places) := by
  induction places with
  | nil =>
    intro branch desk search shows
    rw [explore, StateT.run_modify]
    simp only [shows.assigned, shows.chosen]
    rfl
  | cons place rest ih =>
    intro branch desk search shows
    simp only [explore, StateT.run_bind, StateT.run_get, pure_bind, shows.assigned]
    by_cases taken : (branch.assigned.getD place none).isSome = true
    · rw [if_pos taken, descend_taken taken, ih branch desk search shows]
    · rw [if_neg taken, descend_free taken, StateT.run_bind, run_tryOut_all ih shows]
      cases (problem.covering.getD place []).filterMap (problem.placement? branch) <;> simp

/-! ## Greedy search -/

/-- What is noted down of a choice is enough to make it. -/
structure Notes (problem : Problem α) (branch : Branch α) (pick : Pick α) (choice : Choice α) :
    Prop where
  share : pick.share = choice.share
  rank : pick.rank = choice.rank
  made : ∃ found places assigned, problem.candidates[pick.candidate]? = some found ∧
    problem.place? pick.candidate branch.assigned = some (places, assigned) ∧
    choice.branch = branch.after ⟨pick.candidate, found, assigned, pick.completed⟩ zero

theorem Notes.better {branch : Branch α} {next held : Pick α} {choice best : Choice α}
    (first : problem.Notes branch next choice) (second : problem.Notes branch held best) :
    next.better held = choice.better best := by
  rw [Pick.better, Choice.better, first.share, first.rank, second.share, second.rank]

section

variable {branch : Branch α} {desk : Desk}

/-- A candidate that is weighed leaves the desk as it was, and is noted down where it is the best
choice so far. -/
theorem run_weigh (shows : problem.Shows desk branch) (candidate : Nat) (noted : Option (Pick α))
    (failure : Option ChannelFailure) : (problem.weigh (noted, failure) candidate).run desk =
      match problem.placement? branch candidate with
      | none => pure ((noted, failure), desk)
      | some placement =>
        match problem.choice branch placement with
        | .error missed => pure ((noted, some missed), desk)
        | .ok choice =>
          let next : Pick α := ⟨choice.share, choice.rank, candidate, placement.completed⟩
          match noted with
          | some held => pure ((some (if next.better held then next else held), failure), desk)
          | none => pure ((some next, failure), desk) := by
  simp only [weigh, placement?, StateT.run_bind, StateT.run_get, pure_bind, shows.assigned]
  cases problem.candidates[candidate]? with
  | none => rfl
  | some found =>
    cases placed : problem.place? candidate branch.assigned with
    | none => rfl
    | some result =>
      obtain ⟨places, assigned⟩ := result
      obtain ⟨cleared, -⟩ := shows.undone placed
      simp only [shows.completedOn, Option.bind_eq_bind, Option.bind_some, Option.pure_def, choice,
        StateT.run_bind, StateT.run_set, StateT.run_modify, pure_bind, cleared]
      cases problem.addGroups assigned zero (problem.completed assigned branch.counted places) with
      | error missed => rfl
      | ok channels => cases noted <;> rfl

theorem notes_choice {candidate : Nat} {placement : Placement α} {choice : Choice α}
    (placed : problem.placement? branch candidate = some placement)
    (chosen : problem.choice branch placement = .ok choice) :
    problem.Notes branch ⟨choice.share, choice.rank, candidate, placement.completed⟩ choice := by
  obtain ⟨found, places, assigned, known, fits, rfl⟩ := placement?_iff.mp placed
  obtain ⟨channels, -, same⟩ := bind_ok_iff.mp chosen
  cases same
  exact ⟨rfl, rfl, found, places, assigned, known, fits, rfl⟩

theorem run_weigh_all (shows : problem.Shows desk branch) (candidates : List Nat)
    {noted : Option (Pick α)} {held : Option (Choice α)} (failure : Option ChannelFailure)
    (notes : Option.Rel (problem.Notes branch) noted held) : ∃ noted',
      (candidates.foldlM problem.weigh (noted, failure)).run desk =
        pure ((noted', (problem.chooseFrom branch (candidates.filterMap
          (problem.placement? branch)) held failure).2), desk) ∧
      Option.Rel (problem.Notes branch) noted' (problem.chooseFrom branch (candidates.filterMap
        (problem.placement? branch)) held failure).1 := by
  induction candidates generalizing noted held failure with
  | nil => exact ⟨noted, rfl, notes⟩
  | cons candidate others ih =>
    simp only [List.foldlM_cons, StateT.run_bind, run_weigh shows, List.filterMap_cons]
    cases placed : problem.placement? branch candidate with
    | none => simpa only [pure_bind] using ih failure notes
    | some placement =>
      simp only [chooseFrom]
      cases chosen : problem.choice branch placement with
      | error missed => simpa only [pure_bind] using ih (some missed) notes
      | ok choice =>
        have next := notes_choice placed chosen
        cases notes with
        | none => simpa only [pure_bind] using ih failure (.some next)
        | some held =>
          simp only [next.better held, pure_bind]
          refine ih failure (.some ?_)
          split
          · exact next
          · exact held

omit [Quantity α] in
theorem run_settle {pick : Pick α} {choice : Choice α} [Quantity α]
    (shows : problem.Shows desk branch) (notes : problem.Notes branch pick choice) :
    ∃ desk', (problem.settle pick).run desk = pure ((), desk') ∧
      problem.Shows desk' choice.branch := by
  obtain ⟨found, places, assigned, -, placed, made⟩ := notes.made
  refine ⟨({ desk with assigned : Desk }.mark pick.completed true).push pick.candidate, ?_,
    made ▸ shows.after ⟨pick.candidate, found, assigned, pick.completed⟩ zero⟩
  simp [settle, shows.assigned, placed]

end

theorem run_settleAll (places : List Nat) (branch : Branch α) (desk : Desk)
    (failure : Option ChannelFailure) (shows : problem.Shows desk branch) : ∃ desk',
      (problem.settleAll places failure).run desk =
        pure ((problem.greedyFrom places branch failure).map fun _ => (), desk') ∧
      ∀ result, problem.greedyFrom places branch failure = .ok result →
        problem.Shows desk' result := by
  induction places generalizing branch desk failure with
  | nil =>
    refine ⟨desk, rfl, fun result same => ?_⟩
    cases same
    exact shows
  | cons place rest ih =>
    simp only [settleAll, greedyFrom, StateT.run_bind, StateT.run_get, pure_bind, shows.assigned]
    by_cases taken : (branch.assigned.getD place none).isSome = true
    · rw [if_pos taken, if_pos taken]
      exact ih branch desk failure shows
    · have start : Option.Rel (problem.Notes branch) none none := .none
      obtain ⟨noted, weighed, notes⟩ :=
        run_weigh_all shows (problem.covering.getD place []) failure start
      rw [if_neg taken, if_neg taken, StateT.run_bind, weighed, pure_bind]
      generalize problem.chooseFrom branch _ none failure = outcome at notes ⊢
      obtain ⟨chosen, missed⟩ := outcome
      cases notes with
      | none =>
        cases missed with
        | none =>
          refine ⟨desk, rfl, fun result same => ?_⟩
          cases same
        | some missed =>
          refine ⟨desk, rfl, fun result same => ?_⟩
          cases same
      | @some pick choice noted =>
        obtain ⟨desk', settled, shows'⟩ := run_settle shows noted
        obtain ⟨final, run, kept⟩ := ih choice.branch desk' missed shows'
        refine ⟨final, ?_, kept⟩
        simp only [StateT.run_bind, settled, pure_bind, run]

/-- One desk is enough for both searches. -/
theorem solveInPlace_eq : problem.solveInPlace = problem.solve := by
  unfold solveInPlace solve
  have start : problem.Shows problem.desk ⟨problem.unassigned, [], [], zero⟩ := shows_start
  have explored : (problem.explore problem.places zero).run (problem.desk, .empty) = _ :=
    follows_explore problem.places _ problem.desk .empty start
  obtain ⟨desk, settled, kept⟩ := run_settleAll problem.places _ problem.desk none start
  rw [explored, settled]
  refine ite_congr rfl (fun _ => rfl) fun _ => ite_congr rfl (fun _ => rfl) fun _ => ?_
  unfold greedy
  cases found : problem.greedyFrom problem.places ⟨problem.unassigned, [], [], zero⟩ none with
  | error error => rfl
  | ok branch =>
    have shows := kept branch found
    obtain ⟨assigned, counted, chosen⟩ := desk
    obtain rfl : assigned = branch.assigned := shows.assigned
    obtain rfl : chosen = branch.chosen := shows.chosen
    rfl

end Problem

end CrossPlan
