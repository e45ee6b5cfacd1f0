import DocComment.Proofs.Catalog.Duplicates

/-!
# Merging the same tags again

A tag that a merge accepts is present from then on. Something is alike to it, be it the tag
itself or an entry that stood for it, and unless the tag is vague nothing that is inserted later
is alike to it as well. A second merge of the same tags therefore inserts none of them and finds
no conflict. The main statement says so of every completed merge: the second one leaves all tags
out, or else a vague tag has become ambiguous.
-/
namespace DocComment

/-- No tag conflicts with itself, property or not. -/
theorem Tag.conflict?_self (tag : Tag) : tag.conflict? tag = none := by
  unfold Tag.conflict?
  cases tag.property? <;> simp

namespace Catalog

/-- A tag is present when something is alike to it. If this is a single entry, as it is unless
the tag is vague, then the two do not conflict. -/
structure Present (catalog : Catalog) (tag : Tag) : Prop where
  found : catalog.alike tag ≠ []
  agreed : ∀ entry, catalog.alike tag = [entry] → entry.2.conflict? tag = none
  alone : ¬ tag.isVague → (catalog.alike tag).length = 1

/-- A tag is present if one entry is alike to it and they do not conflict. -/
theorem present_of_alone {catalog : Catalog} {tag : Tag} {entry : Entry}
    (only : catalog.alike tag = [entry]) (harmless : entry.2.conflict? tag = none) :
    catalog.Present tag where
  found := by simp [only]
  agreed other alsoOnly := by
    obtain rfl : entry = other := by simpa [only] using alsoOnly
    exact harmless
  alone _ := by simp [only]

/-- An accepted tag is present, whether it was inserted or was there already. -/
theorem InStep.present_of_offer {catalog reached : Catalog} (inStep : catalog.InStep) {tag : Tag}
    {given : Option Handle} (accepted : catalog.offer tag = .ok (reached, given)) :
    reached.Present tag := by
  rcases inStep.offer_eq_ok_iff.mp accepted with ⟨none, rfl, -⟩ | ⟨entry, only, harmless, rfl, -⟩
  · have itself : (catalog.insert tag).alike tag = [(catalog.next, tag)] := by
      rw [inStep.alike_insert, none, if_pos tag.isMatch_self, List.nil_append]
    exact present_of_alone itself tag.conflict?_self
  · exact present_of_alone only harmless

/-- A tag that is present stays so when another is accepted. If the other one matches it, the tag
is vague, and then a second entry does no harm to what is said of it. -/
theorem Present.of_offer {catalog reached : Catalog} {tag other : Tag}
    (present : catalog.Present tag) (inStep : catalog.InStep) {given : Option Handle}
    (accepted : catalog.offer other = .ok (reached, given)) : reached.Present tag := by
  rcases inStep.offer_eq_ok_iff.mp accepted with ⟨none, rfl, -⟩ | ⟨-, -, -, rfl, -⟩
  · obtain ⟨entry, others, found⟩ := List.exists_cons_of_ne_nil present.found
    have alike := inStep.alike_insert other tag
    rw [found] at alike
    refine ⟨by simp [alike], ?_, ?_⟩
    · intro single only
      rw [alike, List.cons_append, List.cons.injEq, List.append_eq_nil_iff] at only
      obtain ⟨rfl, rfl, -⟩ := only
      exact present.agreed entry found
    · intro precise
      have listed : entry ∈ catalog.alike tag := by simp [found]
      obtain ⟨member, standsFor⟩ := List.mem_filter.mp listed
      -- a tag that matched this one would have matched the entry as well, and been left out
      have apart : ¬ other.isMatch tag := by
        intro isMatch
        rw [Tag.isMatch_comm] at isMatch
        exact alike_eq_nil_iff.mp none entry.2 (List.mem_map_of_mem member)
          (Tag.isMatch_trans precise standsFor isMatch)
      rw [inStep.alike_of_offer apart accepted]
      exact present.alone precise
  · exact present

/-- Every tag of a completed merge is present in the end. -/
theorem InStep.present_of_merge {catalog final : Catalog} (inStep : catalog.InStep)
    {tags : List Tag} {report : MergeReport}
    (completed : catalog.merge tags = (final, .ok report)) :
    ∀ tag ∈ tags, final.Present tag := by
  refine forall_of_merge InStep Present ?_ ?_ inStep completed
  · intro tag _ before reached given inStepThere accepted
    exact ⟨inStepThere.of_offer accepted, inStepThere.present_of_offer accepted⟩
  · intro tag _ other _ before reached given inStepThere present accepted
    exact present.of_offer inStepThere accepted

/-- A tag that is present is left out, unless it is ambiguous. It never conflicts. -/
theorem Present.offer_eq {catalog : Catalog} {tag : Tag} (present : catalog.Present tag)
    (inStep : catalog.InStep) :
    catalog.offer tag = .ok (catalog, none) ∨
      ∃ name count, catalog.offer tag = .error (.ambiguous name count) := by
  rw [inStep.offer_eq]
  match found : catalog.alike tag with
  | [] => exact absurd found present.found
  | [entry] => exact .inl (by simp [present.agreed entry found])
  | first :: second :: others => exact .inr ⟨_, _, rfl⟩

/-- A merge of tags that are present leaves all of them out, or ends in an ambiguity. It leaves
the catalog as it is. -/
theorem InStep.merge_of_present {catalog : Catalog} (inStep : catalog.InStep) {tags : List Tag}
    (present : ∀ tag ∈ tags, catalog.Present tag) :
    catalog.merge tags = (catalog, .ok ⟨[], tags.length⟩) ∨
      ∃ name count, catalog.merge tags = (catalog, .error (.ambiguous name count)) := by
  induction tags with
  | nil => exact .inl rfl
  | cons tag rest inductionHypothesis =>
    obtain ⟨presentFirst, presentRest⟩ := List.forall_mem_cons.mp present
    rcases presentFirst.offer_eq inStep with leftOut | ⟨name, count, refused⟩
    · rcases inductionHypothesis presentRest with completed | ⟨name, count, stopped⟩
      · exact .inl (merge_cons_eq_ok_iff.mpr ⟨_, _, _, leftOut, completed, rfl⟩)
      · exact .inr ⟨name, count, merge_cons_eq_error_iff.mpr (.inr ⟨_, _, leftOut, stopped⟩)⟩
    · exact .inr ⟨name, count, merge_cons_eq_error_iff.mpr (.inl ⟨refused, rfl⟩)⟩

/-- After a completed merge, merging the same tags again leaves the catalog as it is: either it
leaves all of them out, or it ends in an ambiguity. The latter takes a vague tag. -/
theorem merge_again {steps : List Step} {tags : List Tag} {final : Catalog} {report : MergeReport}
    (completed : (after steps).merge tags = (final, .ok report)) :
    (final.merge tags = (final, .ok ⟨[], tags.length⟩) ∨
      ∃ name count, final.merge tags = (final, .error (.ambiguous name count))) ∧
    ((∀ tag ∈ tags, ¬ tag.isVague) → final.merge tags = (final, .ok ⟨[], tags.length⟩)) := by
  have inStep : (after steps).InStep := inStep_after steps
  have finalInStep : final.InStep := by
    have kept := inStep.merge tags
    rwa [completed] at kept
  have present : ∀ tag ∈ tags, final.Present tag := inStep.present_of_merge completed
  have outcome := finalInStep.merge_of_present present
  refine ⟨outcome, fun precise => outcome.resolve_right ?_⟩
  rintro ⟨name, count, stopped⟩
  obtain ⟨accepted, refused, rest, _, rfl, _, reason⟩ := finalInStep.merge_eq_error_iff.mp stopped
  have member : refused ∈ accepted ++ refused :: rest := by simp
  have alone : (final.alike refused).length = 1 :=
    (present refused member).alone (precise refused member)
  cases reason with
  | ambiguous several => omega

/-- The first merge leaves out one tag and inserts two, the second leaves out all three. Where a
tag that names no variable stood for one of two variables, the second merge ends there. -/
theorem merge_again_count :
    let steps := [.insert (propertyOf .readOnly "int" "count")]
    let tags := [propertyOf .readWrite "bool" "count", propertyOf .readOnly "int" "count",
      variableOf "int" (some "total")]
    let unnamedSteps := [.insert (variableOf "int" (some "count"))]
    let unnamed := [variableOf "int" none, variableOf "int" (some "total")]
    (∃ final, (after steps).merge tags = (final, .ok ⟨[1, 2], 1⟩) ∧
      (∀ tag ∈ tags, ¬ tag.isVague) ∧ final.merge tags = (final, .ok ⟨[], 3⟩)) ∧
    ∃ final, (after unnamedSteps).merge unnamed = (final, .ok ⟨[1], 1⟩) ∧
      (final.merge unnamed).1 = final ∧
      (final.merge unnamed).2 = .error (.ambiguous "var".toList 2) := by
  intro steps tags unnamedSteps unnamed
  have completed : (after steps).merge tags = (((after steps).merge tags).1, .ok ⟨[1, 2], 1⟩) :=
    Prod.ext rfl rfl
  have precise : ∀ tag ∈ tags, ¬ tag.isVague := by decide
  have alsoCompleted : (after unnamedSteps).merge unnamed =
      (((after unnamedSteps).merge unnamed).1, .ok ⟨[1], 1⟩) := Prod.ext rfl rfl
  refine ⟨⟨_, completed, precise, (merge_again completed).2 precise⟩, _, alsoCompleted, ?_, rfl⟩
  rcases (merge_again alsoCompleted).1 with leftOut | ⟨name, count, stopped⟩
  · rw [leftOut]
  · rw [stopped]

end DocComment.Catalog
