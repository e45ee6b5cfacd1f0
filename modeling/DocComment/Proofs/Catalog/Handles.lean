import DocComment.Proofs.Catalog.Merging
import Mathlib.Data.List.Induction

/-!
# The life of a handle

A handle numbers the slot that its tag was put into. Slots are added behind all others and
are emptied, never filled again and never moved, and that carries everything here: handles
are given out in ascending order over a whole run, whether one by one or by a merge, and one
that was given out means its tag until it is erased and nothing from then on.

An erasure of a handle that is not live hands nothing back and leaves the catalog as it is,
the indexes with it.
-/
namespace DocComment.Catalog

/-- What a change hands back: a handle, nothing, the tag that was erased if there was one, or
what became of a merge. -/
inductive Answer
  | given (handle : Handle)
  | nothing
  | erased (tag : Option Tag)
  | merged (outcome : Except MergeError MergeReport)

/-- What a change hands back to the one who asked for it. It is read off the catalog before the
change. -/
def answer (catalog : Catalog) : Step → Answer
  | .insert _ => .given catalog.next
  | .insertMany _ => .nothing
  | .erase handle => .erased (catalog.get? handle)
  | .merge tags => .merged (catalog.merge tags).2

/-- The handles that an answer tells of. A merge that is refused tells of none, even of those
that it gave out. -/
def Answer.handles : Answer → List Handle
  | .given handle => [handle]
  | .merged (.ok report) => report.added
  | .nothing | .erased _ | .merged (.error _) => []

/-- The answers of a run from some catalog on, one for each change. -/
def answersFrom (catalog : Catalog) : List Step → List Answer
  | [] => []
  | step :: rest => catalog.answer step :: (catalog.apply step).answersFrom rest

/-- The answers of a run, from the empty catalog on. -/
def answers (steps : List Step) : List Answer := empty.answersFrom steps

/-- Several insertions take as many handles, one after another. -/
theorem next_insertMany (catalog : Catalog) (tags : List Tag) :
    (catalog.insertMany tags).next = catalog.next + tags.length := by
  induction tags generalizing catalog with
  | nil => rfl
  | cons tag rest inductionHypothesis =>
    change ((catalog.insert tag).insertMany rest).next = _
    rw [inductionHypothesis, next_insert, List.length_cons, Nat.add_right_comm, Nat.add_assoc]

/-- An erasure leaves the slot of its tag behind, so its handle is not given out again. -/
theorem next_erase (catalog : Catalog) (handle : Handle) :
    (catalog.erase handle).next = catalog.next := by
  rw [erase]
  split
  · rfl
  · simp [next]

/-- Insertions leave the slots before the next one alone, whether there is a tag in them or
not. -/
theorem get?_insertMany (catalog : Catalog) (tags : List Tag) {handle : Handle}
    (issued : handle < catalog.next) :
    (catalog.insertMany tags).get? handle = catalog.get? handle := by
  induction tags generalizing catalog with
  | nil => rfl
  | cons tag rest inductionHypothesis =>
    have before : handle < (catalog.insert tag).next := by
      rw [next_insert]
      exact Nat.lt_succ_of_lt issued
    change ((catalog.insert tag).insertMany rest).get? handle = _
    rw [inductionHypothesis _ before, get?_insert, if_neg (Nat.ne_of_lt issued)]

section

variable {catalog : Catalog} {handle : Handle}

/-- Every change but an erasure inserts some tags and does nothing else. So two cases are enough
for what follows. -/
theorem InStep.apply_eq (inStep : catalog.InStep) (step : Step) :
    (∃ erased, step = .erase erased) ∨
      ∃ tags, catalog.apply step = catalog.insertMany tags := by
  cases step with
  | insert tag => exact .inr ⟨[tag], rfl⟩
  | insertMany tags => exact .inr ⟨tags, rfl⟩
  | erase erased => exact .inl ⟨erased, rfl⟩
  | merge tags => exact .inr ⟨catalog.appended tags, inStep.merge_eq_insertMany tags⟩

/-- No change takes a handle back: the next one never goes down. -/
theorem InStep.next_le_apply (inStep : catalog.InStep) (step : Step) :
    catalog.next ≤ (catalog.apply step).next := by
  rcases inStep.apply_eq step with ⟨erased, rfl⟩ | ⟨tags, inserted⟩
  · exact Nat.le_of_eq (catalog.next_erase erased).symm
  · rw [inserted, next_insertMany]
    exact Nat.le_add_right _ _

/-- A change other than its own erasure leaves a handle that was given out as it is. -/
theorem InStep.get?_apply (inStep : catalog.InStep) {step : Step}
    (issued : handle < catalog.next) (other : step ≠ .erase handle) :
    (catalog.apply step).get? handle = catalog.get? handle := by
  rcases inStep.apply_eq step with ⟨erased, rfl⟩ | ⟨tags, inserted⟩
  · have apart : handle ≠ erased := by
      rintro rfl
      exact other rfl
    change (catalog.erase erased).get? handle = _
    rw [get?_erase, if_neg apart]
  · rw [inserted, get?_insertMany _ _ issued]

/-- A handle that was given out and has no tag gets none by any change. Its slot is never filled
again. -/
theorem InStep.get?_apply_eq_none (inStep : catalog.InStep) (step : Step)
    (issued : handle < catalog.next) (gone : catalog.get? handle = none) :
    (catalog.apply step).get? handle = none := by
  by_cases own : step = .erase handle
  · subst step
    exact (catalog.get?_erase handle handle).trans (if_pos rfl)
  · rw [inStep.get?_apply issued own, gone]

/-- The handles that a change tells of are new ones, in ascending order. -/
theorem InStep.handles_answer (inStep : catalog.InStep) (step : Step) :
    (catalog.answer step).handles.Pairwise (· < ·) ∧
      ∀ handle ∈ (catalog.answer step).handles,
        catalog.next ≤ handle ∧ handle < (catalog.apply step).next := by
  cases step with
  | insert tag =>
    refine ⟨List.pairwise_singleton _ _, fun handle member => ?_⟩
    obtain rfl := List.mem_singleton.mp member
    refine ⟨Nat.le_refl _, ?_⟩
    rw [Catalog.apply, next_insert]
    exact Nat.lt_succ_self _
  | insertMany tags => exact ⟨.nil, nofun⟩
  | erase handle => exact ⟨.nil, nofun⟩
  | merge tags =>
    cases merged : catalog.merge tags with
    | mk final outcome =>
      cases outcome with
      | error refusal => simp [answer, merged, Answer.handles]
      | ok report =>
        obtain ⟨added, -⟩ := inStep.report_of_merge merged
        have told : (catalog.answer (.merge tags)).handles =
            List.range' catalog.next (catalog.appended tags).length := by
          simp only [answer, merged, Answer.handles, added]
        rw [told, Catalog.apply, inStep.merge_eq_insertMany, next_insertMany]
        exact ⟨List.pairwise_lt_range', fun handle member => List.mem_range'_1.mp member⟩

/-! Runs -/

/-- No run takes a handle back, by induction on its changes. -/
theorem InStep.next_le_foldl (inStep : catalog.InStep) (steps : List Step) :
    catalog.next ≤ (steps.foldl Catalog.apply catalog).next := by
  induction steps generalizing catalog with
  | nil => exact Nat.le_refl _
  | cons step rest inductionHypothesis =>
    exact Nat.le_trans (inStep.next_le_apply step) (inductionHypothesis (inStep.apply step))

/-- A handle keeps its tag through a run that does not erase it. -/
theorem InStep.get?_foldl (inStep : catalog.InStep) {steps : List Step}
    (issued : handle < catalog.next) (kept : .erase handle ∉ steps) :
    (steps.foldl Catalog.apply catalog).get? handle = catalog.get? handle := by
  induction steps generalizing catalog with
  | nil => rfl
  | cons step rest inductionHypothesis =>
    obtain ⟨other, others⟩ := not_or.mp (mt List.mem_cons.mpr kept)
    have still := Nat.lt_of_lt_of_le issued (inStep.next_le_apply step)
    rw [List.foldl_cons, inductionHypothesis (inStep.apply step) still others,
      inStep.get?_apply issued (Ne.symm other)]

/-- A handle that was given out has no tag after a run if it had none before, or if the run
erased it. The induction finds the first of its erasures. -/
theorem InStep.get?_foldl_eq_none (inStep : catalog.InStep) {steps : List Step}
    (issued : handle < catalog.next)
    (gone : catalog.get? handle = none ∨ .erase handle ∈ steps) :
    (steps.foldl Catalog.apply catalog).get? handle = none := by
  induction steps generalizing catalog with
  | nil => exact gone.resolve_right List.not_mem_nil
  | cons step rest inductionHypothesis =>
    have still := Nat.lt_of_lt_of_le issued (inStep.next_le_apply step)
    refine inductionHypothesis (inStep.apply step) still ?_
    rcases gone with before | erased
    · exact .inl (inStep.get?_apply_eq_none step issued before)
    · rcases List.mem_cons.mp erased with rfl | later
      · exact .inl ((catalog.get?_erase handle handle).trans (if_pos rfl))
      · exact .inr later

/-- Over a run the handles that are told of ascend, from the first that was free. -/
theorem InStep.handles_answersFrom (inStep : catalog.InStep) (steps : List Step) :
    ((catalog.answersFrom steps).flatMap Answer.handles).Pairwise (· < ·) ∧
      ∀ handle ∈ (catalog.answersFrom steps).flatMap Answer.handles,
        catalog.next ≤ handle ∧ handle < (steps.foldl Catalog.apply catalog).next := by
  induction steps generalizing catalog with
  | nil => exact ⟨.nil, nofun⟩
  | cons step rest inductionHypothesis =>
    obtain ⟨ascending, bounds⟩ := inStep.handles_answer step
    obtain ⟨laterAscending, laterBounds⟩ := inductionHypothesis (inStep.apply step)
    have lasts := (inStep.apply step).next_le_foldl rest
    rw [answersFrom, List.flatMap_cons, List.foldl_cons]
    refine ⟨List.pairwise_append.mpr ⟨ascending, laterAscending, ?_⟩, ?_⟩
    · intro earlier told later toldLater
      exact Nat.lt_of_lt_of_le (bounds earlier told).2 (laterBounds later toldLater).1
    · intro handle told
      rcases List.mem_append.mp told with now | later
      · exact ⟨(bounds handle now).1, Nat.lt_of_lt_of_le (bounds handle now).2 lasts⟩
      · exact ⟨Nat.le_trans (inStep.next_le_apply step) (laterBounds handle later).1,
          (laterBounds handle later).2⟩

end

/-- A run that goes on starts from where it stood. -/
theorem after_append (past future : List Step) :
    after (past ++ future) = future.foldl apply (after past) := List.foldl_append

/-- The handles of a run, whatever it has done and whatever it does later. They are told of in
ascending order, and the next one to be given out is above all of them and above every handle
that ever stood in the sequence, merges that were refused half way included. It is given to the
next tag. A handle that has a tag keeps it until it is erased, which hands that tag back, and
has none ever after. The sequence has every live handle once, in ascending order, and its size
is their number. To erase a handle that has no tag, or none any more, hands nothing back and
changes nothing. -/
theorem handles_keep_their_tags (past future : List Step) :
    let catalog := after past
    let later := after (past ++ future)
    (((answers past).flatMap Answer.handles).Pairwise (· < ·) ∧
      (∀ handle ∈ (answers past).flatMap Answer.handles, handle < catalog.next) ∧
      (∀ earlier, earlier <+: past →
        ∀ entry ∈ (after earlier).entries, entry.1 < catalog.next) ∧
      ∀ tag, catalog.answer (.insert tag) = .given catalog.next ∧
        (catalog.apply (.insert tag)).get? catalog.next = some tag) ∧
    (∀ handle tag, catalog.get? handle = some tag →
      (.erase handle ∉ future →
        later.get? handle = some tag ∧ later.answer (.erase handle) = .erased (some tag)) ∧
      (.erase handle ∈ future → later.get? handle = none)) ∧
    (∀ handle, handle < catalog.next → catalog.get? handle = none → later.get? handle = none) ∧
    ((∀ handle tag, (handle, tag) ∈ catalog.entries ↔ catalog.get? handle = some tag) ∧
      (catalog.entries.map (·.1)).Pairwise (· < ·) ∧
      catalog.size = catalog.entries.length) ∧
    ∀ handle, catalog.get? handle = none →
      catalog.answer (.erase handle) = .erased none ∧ catalog.apply (.erase handle) = catalog := by
  intro catalog later
  have inStep : catalog.InStep := inStep_after past
  have goesOn : later = future.foldl apply catalog := after_append past future
  obtain ⟨ascending, bounds⟩ := inStep_empty.handles_answersFrom past
  refine ⟨⟨ascending, fun handle told => (bounds handle told).2, ?_, ?_⟩, ?_, ?_,
    ⟨inStep.mem_entries, inStep.entries_ascending, ?_⟩, ?_⟩
  · rintro earlier ⟨since, rfl⟩ ⟨handle, tag⟩ member
    have earlierInStep : (after earlier).InStep := inStep_after earlier
    have stored := (earlierInStep.mem_entries handle tag).mp member
    have live : ((after earlier).get? handle).isSome := by simp [stored]
    have issued := (after earlier).lt_next live
    have grown := earlierInStep.next_le_foldl since
    rw [← after_append] at grown
    exact Nat.lt_of_lt_of_le issued grown
  · exact fun tag => ⟨rfl, catalog.get?_insert_next tag⟩
  · intro handle tag stored
    have issued : handle < catalog.next := catalog.lt_next (by simp [stored])
    constructor
    · intro kept
      have lasts : later.get? handle = some tag := by
        rw [goesOn, inStep.get?_foldl issued kept, stored]
      exact ⟨lasts, congrArg Answer.erased lasts⟩
    · intro erased
      rw [goesOn, inStep.get?_foldl_eq_none issued (.inr erased)]
  · intro handle issued gone
    rw [goesOn, inStep.get?_foldl_eq_none issued (.inl gone)]
  · have listed := congrArg List.length
      (catalog.map_fst_resolve catalog.order fun handle => (inStep.live handle).mp)
    rw [List.length_map] at listed
    exact listed.symm
  · intro handle gone
    refine ⟨congrArg Answer.erased gone, ?_⟩
    simp only [apply, erase, gone]

/-- A run with a merge that is refused half way and with an erasure. The tag that the merge
inserted keeps its handle, which its answer did not tell of; the erased handle stays without a
tag, though two more are given out. -/
theorem handles_keep_their_tags_half_way :
    let string := propertyOf .readWrite "string"
    let int := propertyOf .readWrite "int"
    let past := [.insert (string "x"), .merge [int "y", int "x", int "z"]]
    let future := [.erase 0, .insert (int "x"), .insertMany [int "v"]]
    ((after past).get? 1 = some (int "y") ∧ .erase 1 ∉ future ∧
      (after (past ++ future)).get? 1 = some (int "y")) ∧
    ((after past).get? 0 = some (string "x") ∧ .erase 0 ∈ future ∧
      (after (past ++ future)).get? 0 = none) ∧
    (after (past ++ future)).apply (.erase 0) = after (past ++ future) := by
  intro string int past future
  have kept : Step.erase 1 ∉ future := by simp [future]
  have erased : Step.erase 0 ∈ future := by simp [future]
  have first : (after past).get? 0 = some (string "x") := rfl
  have second : (after past).get? 1 = some (int "y") := rfl
  have lives := (handles_keep_their_tags past future).2.1
  have gone := (lives 0 _ first).2 erased
  exact ⟨⟨second, kept, ((lives 1 _ second).1 kept).1⟩, ⟨first, erased, gone⟩,
    ((handles_keep_their_tags (past ++ future) []).2.2.2.2 0 gone).2⟩

end DocComment.Catalog
