import DocComment.Proofs.Catalog.Merging
import DocComment.Proofs.Tag.Matching

/-!
# Duplicates and ambiguity

A catalog holds a duplicate when two of its entries match. Tags may be inserted twice, so a
catalog can come by duplicates, but not through a merge: a tag is merged in only if no entry
matches it.

A merge calls a tag ambiguous if several entries match it. Mostly these match each other as
well, which makes them duplicates. Vague tags are the exception: all entries of their name
match them, whether these match each other or not. The main statements are that a merge neither
brings in nor removes a duplicate, and that in a catalog without duplicates a tag is ambiguous
exactly when it is vague and two entries or more bear its name.
-/
namespace DocComment.Catalog

/-- An accepted tag brings in no duplicate: if it is inserted, nothing was alike to it. -/
theorem InStep.distinct_of_offer {catalog reached : Catalog} (inStep : catalog.InStep)
    (distinct : Tag.Distinct catalog.tags) {tag : Tag} {given : Option Handle}
    (accepted : catalog.offer tag = .ok (reached, given)) : Tag.Distinct reached.tags := by
  rcases inStep.offer_eq_ok_iff.mp accepted with ⟨none, rfl, -⟩ | ⟨-, -, -, rfl, -⟩
  · rw [inStep.tags_insert, Tag.distinct_concat]
    exact ⟨distinct, alike_eq_nil_iff.mp none⟩
  · exact distinct

/-- A merge brings in no duplicate, wherever it stops. The incoming tags may match each other. -/
theorem InStep.distinct_merge {catalog : Catalog} (inStep : catalog.InStep)
    (distinct : Tag.Distinct catalog.tags) (tags : List Tag) :
    Tag.Distinct (catalog.merge tags).1.tags := by
  let holds (reached : Catalog) : Prop := reached.InStep ∧ Tag.Distinct reached.tags
  have kept : holds (catalog.merge tags).1 := by
    refine merge_invariant holds tags ?_ ⟨inStep, distinct⟩
    rintro tag - before reached given ⟨inStepThere, distinctThere⟩ accepted
    exact ⟨inStepThere.of_offer accepted, inStepThere.distinct_of_offer distinctThere accepted⟩
  exact kept.2

/-- After a merge, completed or refused, no two entries match exactly when none did before. Old
duplicates stay, since a merge erases nothing. -/
theorem distinct_merge_iff (steps : List Step) (tags : List Tag) :
    Tag.Distinct ((after steps).merge tags).1.tags ↔ Tag.Distinct (after steps).tags := by
  have inStep : (after steps).InStep := inStep_after steps
  constructor
  · intro distinct
    rw [inStep.tags_merge] at distinct
    exact (List.pairwise_append.mp distinct).1
  · intro distinct
    exact inStep.distinct_merge distinct tags

/-- The entries whose tags bear a name, as it is written, in the order of the sequence. -/
def bearing (catalog : Catalog) (name : TagName) : List Entry :=
  catalog.entries.filter fun entry => entry.2.name = name

/-- All entries of its name are alike to a vague tag. -/
theorem alike_of_isVague (catalog : Catalog) {tag : Tag} (isVague : tag.isVague) :
    catalog.alike tag = catalog.bearing tag.name := by
  refine List.filter_congr fun entry _ => ?_
  rw [Bool.eq_iff_iff, decide_eq_true_iff]
  exact Tag.isMatch_of_isVague isVague

/-- Without duplicates at most one entry is alike to a tag that is not vague. Two of them would
match each other through it. -/
theorem length_alike_le_one {catalog : Catalog} (distinct : Tag.Distinct catalog.tags) {tag : Tag}
    (precise : ¬ tag.isVague) : (catalog.alike tag).length ≤ 1 := by
  have distinctThere : Tag.Distinct ((catalog.alike tag).map (·.2)) :=
    distinct.sublist (List.filter_sublist.map _)
  have matching : ∀ other ∈ (catalog.alike tag).map (·.2), other.isMatch tag := by
    rw [List.forall_mem_map]
    exact fun _ => List.of_mem_filter
  have few := distinctThere.length_le_one precise matching
  rwa [List.length_map] at few

/-- Without duplicates a tag is ambiguous exactly when it is vague and several entries bear its
name. -/
theorem refuses_ambiguous_iff {catalog : Catalog} (distinct : Tag.Distinct catalog.tags)
    {tag : Tag} {name : Text} {count : Nat} :
    catalog.Refuses tag (.ambiguous name count) ↔
      tag.isVague ∧ 2 ≤ count ∧ name = tag.name.text ∧
        count = (catalog.bearing tag.name).length := by
  constructor
  · intro refused
    cases refused with
    | ambiguous several =>
      have isVague : tag.isVague := by
        refine Classical.byContradiction fun precise => ?_
        have few := length_alike_le_one distinct precise
        omega
      exact ⟨isVague, several, rfl, by rw [alike_of_isVague catalog isVague]⟩
  · rintro ⟨isVague, several, rfl, rfl⟩
    rw [← alike_of_isVague catalog isVague] at several ⊢
    exact .ambiguous several

/-- In a catalog without duplicates a merge ends in an ambiguity exactly when the tags before
some vague tag are merged and by then two entries or more bear the name of that tag. The number
of these is reported. Other tags are never ambiguous there. -/
theorem merge_ambiguous_iff {steps : List Step} (distinct : Tag.Distinct (after steps).tags)
    {tags : List Tag} {final : Catalog} {name : Text} {count : Nat} :
    (after steps).merge tags = (final, .error (.ambiguous name count)) ↔
      ∃ accepted vague rest report, tags = accepted ++ vague :: rest ∧
        (after steps).merge accepted = (final, .ok report) ∧ vague.isVague ∧ 2 ≤ count ∧
        name = vague.name.text ∧
        count = (final.entries.filter fun entry => entry.2.name = vague.name).length := by
  have inStep : (after steps).InStep := inStep_after steps
  rw [inStep.merge_eq_error_iff]
  refine exists_congr fun accepted => exists_congr fun refused => exists_congr fun rest =>
    exists_congr fun report => and_congr_right fun _ => and_congr_right fun completed => ?_
  have distinctThere : Tag.Distinct final.tags := by
    have kept := inStep.distinct_merge distinct accepted
    rwa [completed] at kept
  exact refuses_ambiguous_iff distinctThere

/-- A variable tag without a description or labels, with a name or without one. -/
def variableOf (type : String) (name : Option String) : Tag :=
  .unlabelled (.var ⟨.ofText type.toList, name.map String.toList, []⟩)

/-- A second variable is merged in, and then a tag that names none is ambiguous: each of the two
matches it. -/
theorem merge_ambiguous_iff_unnamed :
    let steps := [.insert (variableOf "int" (some "a"))]
    let tags := [variableOf "int" (some "b"), variableOf "int" none, variableOf "int" (some "c")]
    Tag.Distinct (after steps).tags ∧
      ∃ final, (after steps).merge tags = (final, .error (.ambiguous "var".toList 2)) ∧
        ∃ accepted vague rest report, tags = accepted ++ vague :: rest ∧
          (after steps).merge accepted = (final, .ok report) ∧ vague.isVague ∧ 2 ≤ 2 ∧
          "var".toList = vague.name.text ∧
          2 = (final.entries.filter fun entry => entry.2.name = vague.name).length := by
  intro steps tags
  have distinct : Tag.Distinct (after steps).tags := by decide
  have stopped : (after steps).merge tags =
      (((after steps).merge tags).1, .error (.ambiguous "var".toList 2)) := Prod.ext rfl rfl
  exact ⟨distinct, _, stopped, (merge_ambiguous_iff distinct).mp stopped⟩

/-- Two variables that do not match each other both match a variable tag that names none, and
two parameters both match a generic tag of their name. Merging these is ambiguous although there
are no duplicates. -/
theorem ambiguous_without_duplicates :
    let parameterOf (name : String) : Tag :=
      .unlabelled (.param ⟨.ofText "int".toList, name.toList, false, false, []⟩)
    let withVariables := after [.insert (variableOf "int" (some "a")),
      .insert (variableOf "int" (some "b"))]
    let withParameters := after [.insert (parameterOf "a"), .insert (parameterOf "b")]
    (Tag.Distinct withVariables.tags ∧
      (withVariables.merge [variableOf "int" none]).2 = .error (.ambiguous "var".toList 2)) ∧
    Tag.Distinct withParameters.tags ∧
      (withParameters.merge [.unlabelled (.generic (.ofBody .param "int".toList))]).2 =
        .error (.ambiguous "param".toList 2) := by
  decide

end DocComment.Catalog
