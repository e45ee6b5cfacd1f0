import DocComment.Proofs.Catalog.Runs
import Mathlib.Data.List.Basic

/-!
# Lookups are scans

A lookup reads one bucket of an index and never looks at the rest of the catalog. After
every run it nevertheless finds what a scan of the whole sequence finds, in the same order
and each tag once: by aliased name, by label, without a label, and by what a tag describes.
-/
namespace DocComment.Catalog

/-- Looking up what a scan finds gives the entries that fulfil the condition, in the order of the
sequence. -/
theorem resolve_scan (catalog : Catalog) (holds : Tag → Bool) :
    catalog.resolve (catalog.scan holds) = catalog.entries.filter fun entry => holds entry.2 := by
  simp only [resolve, scan, entries, List.filterMap_filter, List.filter_filterMap]
  congr 1
  funext handle
  cases found : catalog.get? handle with
  | none => rfl
  | some tag =>
    cases fulfilled : holds tag <;>
      simp only [Option.any_some, Option.map_some, Option.filter_some, fulfilled, if_true,
        Bool.false_eq_true, if_false]

/-- Looking up live handles keeps them all, in their order. Only handles without a tag would be
left out. -/
theorem map_fst_resolve (catalog : Catalog) (handles : List Handle)
    (live : ∀ handle ∈ handles, (catalog.get? handle).isSome) :
    (catalog.resolve handles).map (·.1) = handles := by
  induction handles with
  | nil => rfl
  | cons handle rest inductionHypothesis =>
    obtain ⟨tag, found⟩ := Option.isSome_iff_exists.mp (live handle List.mem_cons_self)
    have liveRest := fun other member => live other (List.mem_cons_of_mem handle member)
    have kept := inductionHypothesis liveRest
    simp only [resolve] at kept ⊢
    simp only [List.filterMap_cons, found, Option.map_some, List.map_cons, kept]

/-- The sequence of a catalog in step has each live tag exactly once, under its handle. -/
theorem InStep.mem_entries {catalog : Catalog} (inStep : catalog.InStep) (handle : Handle)
    (tag : Tag) : (handle, tag) ∈ catalog.entries ↔ catalog.get? handle = some tag := by
  simp only [entries, resolve, List.mem_filterMap]
  constructor
  · rintro ⟨other, _, resolved⟩
    obtain ⟨found, stored, same⟩ := Option.map_eq_some_iff.mp resolved
    obtain ⟨rfl, rfl⟩ := Prod.mk.inj same
    exact stored
  · intro stored
    exact ⟨handle, (inStep.live handle).mpr (by simp [stored]), by simp [stored]⟩

/-- The handles of the entries that fulfil a condition are those that a scan finds. -/
theorem InStep.map_fst_filter {catalog : Catalog} (inStep : catalog.InStep) (holds : Tag → Bool) :
    (catalog.entries.filter fun entry => holds entry.2).map (·.1) = catalog.scan holds := by
  rw [← resolve_scan, map_fst_resolve]
  intro handle found
  obtain ⟨tag, stored, _⟩ := (inStep.mem_scan holds handle).mp found
  simp [stored]

/-- The sequence has every handle once, and its handles ascend, which is the order of
insertion. -/
theorem InStep.entries_ascending {catalog : Catalog} (inStep : catalog.InStep) :
    (catalog.entries.map (·.1)).Pairwise (· < ·) := by
  rw [entries, map_fst_resolve _ _ fun handle => (inStep.live handle).mp]
  exact inStep.ascending

/-- No entry stands twice in the sequence, though equal tags may. -/
theorem InStep.nodup_entries {catalog : Catalog} (inStep : catalog.InStep) :
    catalog.entries.Nodup := by
  refine (List.pairwise_map.mp inStep.entries_ascending).imp ?_
  rintro earlier later ascending rfl
  exact Nat.lt_irrefl _ ascending

/-- The size of a catalog in step is the number of its entries, as none of its handles is without
a tag. -/
theorem InStep.size_eq {catalog : Catalog} (inStep : catalog.InStep) :
    catalog.size = catalog.entries.length := by
  have listed := catalog.map_fst_resolve catalog.order fun handle => (inStep.live handle).mp
  calc catalog.order.length = ((catalog.resolve catalog.order).map (·.1)).length := by rw [listed]
    _ = catalog.entries.length := List.length_map _

/-- An insertion puts the new tag behind the sequence, under the next handle. -/
theorem InStep.entries_insert {catalog : Catalog} (inStep : catalog.InStep) (tag : Tag) :
    (catalog.insert tag).entries = catalog.entries ++ [(catalog.next, tag)] := by
  change (catalog.order ++ [catalog.next]).filterMap _ = _
  rw [List.filterMap_append]
  congr 1
  · apply List.filterMap_congr
    intro handle member
    rw [inStep.get?_insert_of_mem tag member]
  · simp only [List.filterMap_cons, get?_insert_next, Option.map_some, List.filterMap_nil]

/-- An insertion puts the new tag behind the others, also if it equals one of them. -/
theorem InStep.tags_insert {catalog : Catalog} (inStep : catalog.InStep) (tag : Tag) :
    (catalog.insert tag).tags = catalog.tags ++ [tag] := by
  rw [tags, inStep.entries_insert, List.map_append]
  rfl

/-- An erasure takes the entry of one handle from the sequence and moves no other. -/
theorem InStep.entries_erase {catalog : Catalog} (inStep : catalog.InStep) (erased : Handle) :
    (catalog.erase erased).entries = catalog.entries.filter fun entry => entry.1 ≠ erased := by
  simp only [entries, resolve, inStep.order_erase erased, List.filterMap_filter,
    List.filter_filterMap]
  apply List.filterMap_congr
  intro handle _
  rw [get?_erase]
  by_cases same : handle = erased
  · cases catalog.get? handle <;> simp [same, Option.filter_some]
  · cases catalog.get? handle <;> simp [same, Option.filter_some]

/-- Tags that match have the same aliased name, since they have the same name. -/
theorem aliasedName_of_isMatch {left right : Tag} (isMatch : left.isMatch right) :
    left.aliasedName = right.aliasedName := by
  simp only [Tag.isMatch, Bool.and_eq_true, beq_iff_eq] at isMatch
  rw [Tag.aliasedName, Tag.aliasedName, isMatch.1]

/-- The matching tags are found in one bucket, since tags that match are filed together. What the
bucket has besides is filtered out. -/
theorem InStep.matchingHandles_eq_scan {catalog : Catalog} (inStep : catalog.InStep)
    (candidate : Tag) :
    catalog.matchingHandles candidate = catalog.scan fun tag => tag.isMatch candidate := by
  rw [matchingHandles, inStep.named, scan, scan, List.filter_filter]
  apply List.filter_congr
  intro handle _
  cases catalog.get? handle with
  | none => rfl
  | some tag =>
    cases isMatch : tag.isMatch candidate with
    | false => simp [isMatch]
    | true => simp [isMatch, aliasedName_of_isMatch isMatch]

/-- After every run each lookup finds exactly the entries that a scan of the sequence finds, in
the order of the sequence. The sequence itself has every live tag once, and its handles ascend,
so that no result repeats a tag even where a tag repeats a label. It is the order of insertion: a
new tag goes behind all others, and an erasure moves none. -/
theorem lookups_are_scans (steps : List Step) :
    let catalog := after steps
    (∀ name, catalog.named name = catalog.entries.filter fun entry =>
      entry.2.aliasedName = TagName.aliased name) ∧
    (∀ label, catalog.labelled label = catalog.entries.filter fun entry =>
      (∃ own ∈ entry.2.labels, LabelKey.ofLabel own = LabelKey.ofLabel label) ∨
        (entry.2.labels = [] ∧ label = ['0'])) ∧
    (catalog.unlabelled = catalog.entries.filter fun entry =>
      entry.2.labels = [] ∨ ['0'] ∈ entry.2.labels) ∧
    (∀ candidate, catalog.matchingHandles candidate =
      (catalog.entries.filter fun entry => entry.2.isMatch candidate).map (·.1)) ∧
    (∀ handle tag, (handle, tag) ∈ catalog.entries ↔ catalog.get? handle = some tag) ∧
    (catalog.entries.map (·.1)).Pairwise (· < ·) ∧
    (∀ tag, (catalog.insert tag).entries = catalog.entries ++ [(catalog.next, tag)]) ∧
    (∀ erased, (catalog.erase erased).entries =
      catalog.entries.filter fun entry => entry.1 ≠ erased) := by
  intro catalog
  have inStep : catalog.InStep := inStep_after steps
  have keyOfNone (label : Text) : LabelKey.ofLabel label = .unlabelled ↔ label = ['0'] := by
    by_cases zero : label = ['0'] <;> simp [LabelKey.ofLabel, zero]
  refine ⟨?_, ?_, ?_, ?_, inStep.mem_entries, ?_, inStep.entries_insert, inStep.entries_erase⟩
  · intro name
    rw [named, inStep.named, resolve_scan]
  · intro label
    rw [labelled, inStep.labelled, resolve_scan]
    simp only [LabelKey.mem_ofTag, keyOfNone]
  · rw [unlabelled, inStep.labelled, resolve_scan]
    refine List.filter_congr fun entry _ => decide_eq_decide.mpr ?_
    simp [LabelKey.mem_ofTag, keyOfNone, or_comm]
  · intro candidate
    rw [inStep.matchingHandles_eq_scan, ← resolve_scan catalog fun tag => tag.isMatch candidate,
      map_fst_resolve]
    intro handle found
    obtain ⟨tag, stored, _⟩ := (inStep.mem_scan _ handle).mp found
    simp [stored]
  · rw [entries, map_fst_resolve _ _ fun handle => (inStep.live handle).mp]
    exact inStep.ascending

end DocComment.Catalog
