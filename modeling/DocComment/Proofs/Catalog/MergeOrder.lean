import DocComment.Proofs.Catalog.Duplicates

/-!
# The order of a merge

Tags of which no two match do not get in one another's way. None of them is alike to another,
so what a merge makes of each depends on the entries that the catalog has at the beginning.
The main statement says that the order of such tags is of no account.
-/
namespace DocComment.Catalog

/-- A catalog accepts a tag that it has no reason to refuse. -/
def Accepts (catalog : Catalog) (tag : Tag) : Prop := ∀ refusal, ¬ catalog.Refuses tag refusal

/-- What a catalog accepts depends on the entries alike to it, and on nothing else of the
catalog. -/
theorem Accepts.of_alike {catalog other : Catalog} {tag : Tag} (accepts : catalog.Accepts tag)
    (same : other.alike tag = catalog.alike tag) : other.Accepts tag := by
  intro refusal refused
  refine accepts refusal ?_
  cases refused with
  | ambiguous several =>
    rw [same] at several ⊢
    exact .ambiguous several
  | conflicting only existing incoming different =>
    exact .conflicting (same.symm.trans only) existing incoming different

/-- A tag that is accepted is one that the catalog accepts: to have no reason to refuse it is to
take it in or to find it present. -/
theorem InStep.accepts_iff {catalog : Catalog} (inStep : catalog.InStep) {tag : Tag} :
    catalog.Accepts tag ↔ ∃ reached given, catalog.offer tag = .ok (reached, given) := by
  constructor
  · intro accepts
    cases offered : catalog.offer tag with
    | error refusal => exact absurd (inStep.offer_eq_error_iff.mp offered) (accepts refusal)
    | ok accepted => exact ⟨accepted.1, accepted.2, rfl⟩
  · rintro ⟨reached, given, accepted⟩ refusal refused
    rw [inStep.offer_eq_error_iff.mpr refused] at accepted
    contradiction

/-- A merge of distinct tags completes exactly when the catalog accepts each of them as it stands
at the beginning. A tag that was inserted matches none of those behind it. -/
theorem InStep.merge_completes_iff {catalog : Catalog} (inStep : catalog.InStep)
    {tags : List Tag} (distinct : Tag.Distinct tags) :
    (∃ final report, catalog.merge tags = (final, .ok report)) ↔
      ∀ tag ∈ tags, catalog.Accepts tag := by
  induction tags generalizing catalog with
  | nil => exact ⟨fun _ => by simp, fun _ => ⟨_, _, rfl⟩⟩
  | cons tag rest inductionHypothesis =>
    obtain ⟨apart, distinctRest⟩ := List.pairwise_cons.mp distinct
    constructor
    · rintro ⟨final, report, completed⟩
      obtain ⟨reached, given, later, offered, merged, -⟩ := merge_cons_eq_ok_iff.mp completed
      have acceptsThere := (inductionHypothesis (inStep.of_offer offered) distinctRest).mp
        ⟨final, later, merged⟩
      refine List.forall_mem_cons.mpr ⟨inStep.accepts_iff.mpr ⟨reached, given, offered⟩, ?_⟩
      intro other member
      exact (acceptsThere other member).of_alike
        (inStep.alike_of_offer (apart other member) offered).symm
    · intro accepts
      obtain ⟨acceptsFirst, acceptsRest⟩ := List.forall_mem_cons.mp accepts
      obtain ⟨reached, given, offered⟩ := inStep.accepts_iff.mp acceptsFirst
      have acceptsThere : ∀ other ∈ rest, reached.Accepts other := fun other member =>
        (acceptsRest other member).of_alike (inStep.alike_of_offer (apart other member) offered)
      obtain ⟨final, later, merged⟩ :=
        (inductionHypothesis (inStep.of_offer offered) distinctRest).mpr acceptsThere
      exact ⟨final, _, merge_cons_eq_ok_iff.mpr ⟨reached, given, later, offered, merged, rfl⟩⟩

/-- A completed merge of distinct tags inserts those to which nothing was alike at the
beginning. -/
theorem InStep.appended_of_distinct {catalog final : Catalog} (inStep : catalog.InStep)
    {tags : List Tag} (distinct : Tag.Distinct tags) {report : MergeReport}
    (completed : catalog.merge tags = (final, .ok report)) :
    catalog.appended tags = tags.filter fun tag => catalog.alike tag = [] := by
  induction tags generalizing catalog report with
  | nil => rfl
  | cons tag rest inductionHypothesis =>
    obtain ⟨apart, distinctRest⟩ := List.pairwise_cons.mp distinct
    obtain ⟨reached, given, later, offered, merged, -⟩ := merge_cons_eq_ok_iff.mp completed
    have insertedRest : reached.appended rest = rest.filter fun tag => catalog.alike tag = [] := by
      rw [inductionHypothesis (inStep.of_offer offered) distinctRest merged]
      refine List.filter_congr fun other member => ?_
      rw [inStep.alike_of_offer (apart other member) offered]
    rw [appended]
    rcases inStep.offer_eq_ok_iff.mp offered with ⟨none, rfl, rfl⟩ | ⟨entry, only, -, rfl, rfl⟩
    · simp only [offered]
      rw [insertedRest, List.filter_cons_of_pos (by simp [none])]
    · simp only [offered]
      rw [insertedRest, List.filter_cons_of_neg (by simp [only])]

/-- A completed merge puts the tags that it inserts behind the entries of the catalog, under the
handles that it reports. -/
theorem InStep.entries_of_merge {catalog final : Catalog} (inStep : catalog.InStep)
    {tags : List Tag} {report : MergeReport}
    (completed : catalog.merge tags = (final, .ok report)) :
    final.entries = catalog.entries ++ report.added.zip (catalog.appended tags) := by
  have inserted : final = catalog.insertMany (catalog.appended tags) := by
    rw [← inStep.merge_eq_insertMany tags, completed]
  rw [inserted, inStep.entries_insertMany, (inStep.report_of_merge completed).1]

/-- Tags of which no two match can be merged in any order. A merge of them completes in one order
exactly when it completes in another. Both merges report the same then: they give out the same
handles and leave out equally many tags. Both leave the old entries in place, and they insert the
same tags, in orders of their own. -/
theorem merge_perm {steps : List Step} {tags others : List Tag} (distinct : Tag.Distinct tags)
    (perm : tags.Perm others) :
    let catalog := after steps
    ((∃ final report, catalog.merge tags = (final, .ok report)) ↔
      ∃ final report, catalog.merge others = (final, .ok report)) ∧
    ∀ final report otherFinal otherReport, catalog.merge tags = (final, .ok report) →
      catalog.merge others = (otherFinal, .ok otherReport) →
      otherReport = report ∧
      ∃ inserted otherInserted, inserted.Perm otherInserted ∧
        inserted.length = report.added.length ∧
        final.entries = catalog.entries ++ report.added.zip inserted ∧
        otherFinal.entries = catalog.entries ++ report.added.zip otherInserted := by
  intro catalog
  have inStep : catalog.InStep := inStep_after steps
  have otherDistinct : Tag.Distinct others := distinct.perm perm
  constructor
  · rw [inStep.merge_completes_iff distinct, inStep.merge_completes_iff otherDistinct]
    exact forall_congr' fun tag => imp_congr_left perm.mem_iff
  · intro final report otherFinal otherReport completed otherCompleted
    obtain ⟨added, counted⟩ := inStep.report_of_merge completed
    obtain ⟨otherAdded, otherCounted⟩ := inStep.report_of_merge otherCompleted
    have inserted : (catalog.appended tags).Perm (catalog.appended others) := by
      rw [inStep.appended_of_distinct distinct completed,
        inStep.appended_of_distinct otherDistinct otherCompleted]
      exact perm.filter _
    have sameAdded : otherReport.added = report.added := by
      rw [added, otherAdded, inserted.length_eq]
    have samePresent : otherReport.present = report.present := by
      have sameLength := perm.length_eq
      rw [sameAdded] at otherCounted
      omega
    refine ⟨congrArg₂ MergeReport.mk sameAdded samePresent, _, _, inserted, by simp [added],
      inStep.entries_of_merge completed, ?_⟩
    rw [← sameAdded]
    exact inStep.entries_of_merge otherCompleted

/-- Three tags are merged forwards and backwards: one is there, the two others are inserted, in
another order each time. -/
theorem merge_perm_reversed :
    let catalog := after [.insert (propertyOf .readWrite "int" "count")]
    let tags := [propertyOf .readOnly "bool" "count", propertyOf .readWrite "int" "count",
      variableOf "int" none]
    Tag.Distinct tags ∧ tags.Perm tags.reverse ∧
      ∃ final otherFinal, catalog.merge tags = (final, .ok ⟨[1, 2], 1⟩) ∧
        catalog.merge tags.reverse = (otherFinal, .ok ⟨[1, 2], 1⟩) ∧
        ∃ inserted otherInserted, inserted.Perm otherInserted ∧ inserted.length = 2 ∧
          final.entries = catalog.entries ++ [1, 2].zip inserted ∧
          otherFinal.entries = catalog.entries ++ [1, 2].zip otherInserted := by
  intro catalog tags
  have distinct : Tag.Distinct tags := by decide
  have perm : tags.Perm tags.reverse := tags.reverse_perm.symm
  have completed : catalog.merge tags = ((catalog.merge tags).1, .ok ⟨[1, 2], 1⟩) :=
    Prod.ext rfl rfl
  have otherCompleted : catalog.merge tags.reverse =
      ((catalog.merge tags.reverse).1, .ok ⟨[1, 2], 1⟩) := Prod.ext rfl rfl
  exact ⟨distinct, perm, _, _, completed, otherCompleted,
    ((merge_perm distinct perm).2 _ _ _ _ completed otherCompleted).2⟩

end DocComment.Catalog
