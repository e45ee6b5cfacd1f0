import DocComment.Proofs.Catalog.Groups
import DocComment.Proofs.Sorting
import DocComment.Proofs.Tag.Order

/-!
# Sorted views

The sequence can be viewed in the order of tags, as a whole and group by group. Each view is
sorted by itself. Where the order of tags is transitive on the sequence there is only one way
to sort it stably, so that the views agree: a sorted group is what the sorted sequence has of
it, under the same key as before. In the sorted sequence the tags of one aliased name stand
together, since that name is compared first.

The order is not transitive where a generic tag obscures the order of two methods or of two
properties, and nothing is said here about such a sequence. A view is computed from a catalog
and leaves it as it is.
-/
namespace DocComment.Catalog

/-- Entries compare as their tags do. Their handles have no part in it. -/
abbrev entryOrder (left right : Entry) : Ordering := left.2.order right.2

/-- No generic tag of the sequence obscures the order of two others. -/
def Clear (catalog : Catalog) : Prop :=
  ∀ generic ∈ catalog.tags, ∀ left ∈ catalog.tags, ∀ right ∈ catalog.tags,
    ¬ generic.Obscures left right

/-- The order of tags arranges a sequence in which none obscures the order of others. -/
theorem Clear.arranges {catalog : Catalog} (clear : catalog.Clear) :
    Arranges entryOrder catalog.entries where
  oriented left _ right _ := Tag.order_swap left.2 right.2
  transitive left inLeft middle inMiddle right inRight :=
    Tag.order_trans (clear middle.2 (List.mem_map_of_mem inMiddle) left.2
      (List.mem_map_of_mem inLeft) right.2 (List.mem_map_of_mem inRight))

/-- In a sorted sequence the tags of one aliased name stand together, since that name is compared
first. -/
theorem together_of_ascending {entries : List Entry}
    (ascending : entries.Pairwise fun left right => entryOrder left right ≠ .gt) (name : Text) :
    ∃ before group behind, entries = before ++ (group ++ behind) ∧
      (∀ entry ∈ group, entry.2.aliasedName = name) ∧
      ∀ entry ∈ before ++ behind, entry.2.aliasedName ≠ name := by
  have byName : entries.Pairwise fun left right =>
      compare left.2.aliasedName right.2.aliasedName ≠ .gt := by
    refine ascending.imp fun {left right} notGreater => ?_
    rw [entryOrder, Tag.order_eq] at notGreater
    intro greater
    simp [greater] at notGreater
  refine ⟨_, _, _, eq_append_of_ascending (fun entry => entry.2.aliasedName) name byName, ?_, ?_⟩
  · intro entry member
    simpa using (List.mem_filter.mp member).2
  · intro entry member same
    simp [same] at member

/-- A sorted group is what the sorted sequence has of the group. Sorting is stable, so tags that
compare equal stand in one order in both. -/
theorem Clear.sortEntries_filter {catalog : Catalog} (clear : catalog.Clear)
    (inStep : catalog.InStep) (keep : Entry → Bool) :
    sortEntries (catalog.entries.filter keep) =
      catalog.sorted.filter (· ∈ catalog.entries.filter keep) := by
  have sorted : sortEntries (catalog.entries.filter keep) = catalog.sorted.filter keep :=
    sortBy_filter clear.arranges inStep.nodup_entries keep
  rw [sorted]
  refine List.filter_congr fun entry member => ?_
  have present : entry ∈ catalog.entries :=
    (stablySorted_sortBy clear.arranges).rearranged.mem_iff.mp member
  simp [present]

/-- The sorted groups of an index are the groups, each as it stands in the sorted sequence. -/
theorem Clear.groups_sorted {Key : Type} {catalog : Catalog} (clear : catalog.Clear)
    (inStep : catalog.InStep) {index : Index Key} {files : Key → Tag → Bool}
    (filed : catalog.Files index files) :
    catalog.groups index true = (catalog.groups index false).map fun group =>
      (group.1, catalog.sorted.filter (· ∈ group.2)) := by
  rw [filed.groups_eq, filed.groups_eq, List.map_map]
  refine List.map_congr_left fun key _ => ?_
  simp [clear.sortEntries_filter inStep]

/-- After every run that leaves no generic tag beside two methods or two properties of its
aliased name with different names in lower case, the sorted views agree. The sorted sequence
is the one arrangement of the sequence in ascending order that leaves tags that compare equal
in order of insertion; the tags of one aliased name stand together in it; and both sorted
groupings have the keys of the unsorted ones in their order, each with what the sorted
sequence has of its group. -/
theorem sorted_views_agree {steps : List Step}
    (clear : ∀ generic ∈ (after steps).tags, ∀ left ∈ (after steps).tags,
      ∀ right ∈ (after steps).tags, ¬ generic.Obscures left right) :
    let catalog := after steps
    (∀ arrangement, StablySorted (fun left right : Entry => left.2.order right.2)
      catalog.entries arrangement ↔ arrangement = catalog.sorted) ∧
    (∀ name, ∃ before group behind, catalog.sorted = before ++ (group ++ behind) ∧
      (∀ entry ∈ group, entry.2.aliasedName = name) ∧
      ∀ entry ∈ before ++ behind, entry.2.aliasedName ≠ name) ∧
    catalog.groupsByName true = (catalog.groupsByName false).map (fun group =>
      (group.1, catalog.sorted.filter (· ∈ group.2))) ∧
    catalog.groupsByLabel true = (catalog.groupsByLabel false).map (fun group =>
      (group.1, catalog.sorted.filter (· ∈ group.2))) := by
  intro catalog
  have inStep : catalog.InStep := inStep_after steps
  have clearThere : catalog.Clear := clear
  refine ⟨?_, ?_, ?_, ?_⟩
  · intro arrangement
    exact stablySorted_iff clearThere.arranges inStep.nodup_entries
  · exact together_of_ascending (stablySorted_sortBy clearThere.arranges).ascending
  · exact clearThere.groups_sorted inStep inStep.files_byName
  · exact clearThere.groups_sorted inStep inStep.files_byLabel

/-- A generic tag stands between two properties whose names differ in case only, so that all
three compare equal; another property, which it would obscure, is erased. -/
theorem sorted_views_agree_generic :
    let property (access : Tag.Access) (name : String) : Tag :=
      .unlabelled (.property access ⟨.void, name.toList, []⟩)
    let steps : List Step := [.insert (property .readWrite "alpha"),
      .insertMany [property .readOnly "beta", .unlabelled (.generic (.ofBody .property [])),
        property .writeOnly "Beta"],
      .insert (Tag.addLabel (.unlabelled (.mixin .void)) "base".toList), .erase 0]
    (∀ generic ∈ (after steps).tags, ∀ left ∈ (after steps).tags,
      ∀ right ∈ (after steps).tags, ¬ generic.Obscures left right) ∧
    (after steps).sorted.map (·.1) = [4, 1, 2, 3] ∧
    (after steps).groupsByName true = ((after steps).groupsByName false).map (fun group =>
      (group.1, (after steps).sorted.filter (· ∈ group.2))) := by
  intro property steps
  have clear : ∀ generic ∈ (after steps).tags, ∀ left ∈ (after steps).tags,
      ∀ right ∈ (after steps).tags, ¬ generic.Obscures left right := by decide
  exact ⟨clear, by decide, (sorted_views_agree clear).2.2.1⟩

end DocComment.Catalog
