import DocComment.Proofs.Catalog.FirstAppearance

/-!
# Erasing a tag

An erasure takes one entry out of a catalog and nothing else. The entries that remain keep their
handles, their tags and their order, and so do the groups; a group is gone exactly if it had no
other entry. The indexes go a longer way: a tag may be filed under several labels, each bucket
that it empties is dropped, and the buckets behind it are renumbered.

What a catalog tells is settled by its sequence and by the order of the keys in its two indexes.
So it is enough to follow these two. An erasure moves no key, and which keys have a group depends
on the sequence alone. It follows that an erasure undoes the insertion before it and that two
erasures may change places. Catalogs that tell the same need not be equal: an erased tag leaves
its empty slot behind, so that its handle is not given out again.
-/
namespace DocComment.Catalog

/-- Two catalogs give the same answer to every question: about their size and sequence, about a
handle, by name, by label and by what a tag describes, and in both groupings with their order. -/
structure TellsLike (catalog other : Catalog) : Prop where
  entries : catalog.entries = other.entries
  size : catalog.size = other.size
  get? : ∀ handle, catalog.get? handle = other.get? handle
  handleOf? : ∀ tag, catalog.handleOf? tag = other.handleOf? tag
  named : ∀ name, catalog.named name = other.named name
  labelled : ∀ label, catalog.labelled label = other.labelled label
  unlabelled : catalog.unlabelled = other.unlabelled
  matchingHandles : ∀ tag, catalog.matchingHandles tag = other.matchingHandles tag
  matching : ∀ tag, catalog.matching tag = other.matching tag
  sorted : catalog.sorted = other.sorted
  groupsByName : ∀ inTagOrder, catalog.groupsByName inTagOrder = other.groupsByName inTagOrder
  groupsByLabel : ∀ inTagOrder, catalog.groupsByLabel inTagOrder = other.groupsByLabel inTagOrder

/-- The erasure of a live handle takes one from the size. -/
theorem InStep.size_erase {catalog : Catalog} (inStep : catalog.InStep) {handle : Handle}
    (live : (catalog.get? handle).isSome) : (catalog.erase handle).size + 1 = catalog.size := by
  have once : catalog.order.Nodup := inStep.ascending.imp Nat.ne_of_lt
  have taken : (catalog.erase handle).order = catalog.order.erase handle := by
    rw [inStep.order_erase, once.erase_eq_filter]
    simp only [ne_eq, decide_not]
    rfl
  have member : handle ∈ catalog.order := (inStep.live handle).mpr live
  rw [size, taken, List.length_erase_of_mem member]
  exact Nat.sub_add_cancel (List.length_pos_of_mem member)

/-- A scan is settled by the sequence: catalogs that show the same entries find the same
handles. -/
theorem InStep.scan_eq {catalog other : Catalog} (inStep : catalog.InStep)
    (otherInStep : other.InStep) (same : catalog.entries = other.entries) (holds : Tag → Bool) :
    catalog.scan holds = other.scan holds := by
  rw [← inStep.map_fst_filter, ← otherInStep.map_fst_filter, same]

/-- The tag of a handle is settled by the sequence, as every live tag stands in it. -/
theorem InStep.get?_eq {catalog other : Catalog} (inStep : catalog.InStep)
    (otherInStep : other.InStep) (same : catalog.entries = other.entries) (handle : Handle) :
    catalog.get? handle = other.get? handle := by
  apply Option.ext
  intro tag
  rw [← inStep.mem_entries, ← otherInStep.mem_entries, same]

/-- What a catalog tells is settled by its sequence and by the order of its keys. The slots
behind erased handles and the number of the next one are not told. -/
theorem InStep.tellsLike {catalog other : Catalog} (inStep : catalog.InStep)
    (otherInStep : other.InStep) (same : catalog.entries = other.entries)
    (names : Index.keysOf catalog.byName.buckets = Index.keysOf other.byName.buckets)
    (labels : Index.keysOf catalog.byLabel.buckets = Index.keysOf other.byLabel.buckets) :
    catalog.TellsLike other := by
  have stored := inStep.get?_eq otherInStep same
  have resolved (handles : List Handle) : catalog.resolve handles = other.resolve handles := by
    simp only [resolve, stored]
  have scanned := inStep.scan_eq otherInStep same
  have matched (tag : Tag) : catalog.matchingHandles tag = other.matchingHandles tag := by
    rw [inStep.matchingHandles_eq_scan, otherInStep.matchingHandles_eq_scan, scanned]
  refine ⟨same, ?_, stored, ?_, ?_, ?_, ?_, matched, ?_, ?_, ?_, ?_⟩
  · rw [inStep.size_eq, otherInStep.size_eq, same]
  · intro tag
    rw [handleOf?, handleOf?, same]
  · intro name
    rw [Catalog.named, Catalog.named, inStep.named, otherInStep.named, scanned, resolved]
  · intro label
    rw [Catalog.labelled, Catalog.labelled, inStep.labelled, otherInStep.labelled, scanned,
      resolved]
  · rw [Catalog.unlabelled, Catalog.unlabelled, inStep.labelled, otherInStep.labelled, scanned,
      resolved]
  · intro tag
    rw [Catalog.matching, Catalog.matching, matched, resolved]
  · rw [Catalog.sorted, Catalog.sorted, same]
  · intro inTagOrder
    rw [Catalog.groupsByName, Catalog.groupsByName, inStep.files_byName.groups_eq,
      otherInStep.files_byName.groups_eq, names, same]
  · intro inTagOrder
    rw [Catalog.groupsByLabel, Catalog.groupsByLabel, inStep.files_byLabel.groups_eq,
      otherInStep.files_byLabel.groups_eq, labels, same]

section

variable {Key : Type} [DecidableEq Key] {index : Catalog → Index Key} {keys : Tag → List Key}
  {catalog other : Catalog}

/-- Catalogs of one sequence have their keys in one order if neither moved a key of a third. -/
theorem Follows.keysOf_eq (follows : Follows index keys) (inStep : catalog.InStep)
    (otherInStep : other.InStep) (same : catalog.entries = other.entries) {whole : List Key}
    (distinct : whole.Nodup) (part : (Index.keysOf (index catalog).buckets).Sublist whole)
    (otherPart : (Index.keysOf (index other).buckets).Sublist whole) :
    Index.keysOf (index catalog).buckets = Index.keysOf (index other).buckets := by
  refine eq_of_sublists distinct part otherPart fun key => ?_
  rw [(follows.filed _ inStep).mem_keysOf_iff inStep,
    (follows.filed _ otherInStep).mem_keysOf_iff otherInStep, same]

/-- The keys that an insertion added are gone with its tag, and those that were there stayed in
their order. -/
theorem Follows.keysOf_erase_insert (follows : Follows index keys) (inStep : catalog.InStep)
    (tag : Tag) (same : ((catalog.insert tag).erase catalog.next).entries = catalog.entries) :
    Index.keysOf (index ((catalog.insert tag).erase catalog.next)).buckets =
      Index.keysOf (index catalog).buckets := by
  have grown : Index.keysOf (index (catalog.insert tag)).buckets =
      Index.keysOf (index catalog).buckets ++
        (keys tag).filter (· ∉ Index.keysOf (index catalog).buckets) := by
    rw [follows.inserted]
    exact Index.keysOf_foldl_file _ _ _ (follows.distinct tag)
  refine follows.keysOf_eq ((inStep.insert tag).erase _) inStep same
    (index (catalog.insert tag)).nodup_keys (follows.keysOf_erase_sublist _ _) ?_
  rw [grown]
  exact List.sublist_append_left _ _

/-- Two erasures leave the same keys in the same order, whichever comes first. -/
theorem Follows.keysOf_erase_erase (follows : Follows index keys) (inStep : catalog.InStep)
    (one another : Handle)
    (same : ((catalog.erase one).erase another).entries =
      ((catalog.erase another).erase one).entries) :
    Index.keysOf (index ((catalog.erase one).erase another)).buckets =
      Index.keysOf (index ((catalog.erase another).erase one)).buckets := by
  have part (first second : Handle) :
      (Index.keysOf (index ((catalog.erase first).erase second)).buckets).Sublist
        (Index.keysOf (index catalog).buckets) :=
    (follows.keysOf_erase_sublist _ _).trans (follows.keysOf_erase_sublist _ _)
  exact follows.keysOf_eq ((inStep.erase one).erase another) ((inStep.erase another).erase one)
    same (index catalog).nodup_keys (part one another) (part another one)

/-- Groups without the entry of a handle; a group that has no other entry is left out. -/
def withoutEntry (handle : Handle) (groups : List (Key × List Entry)) : List (Key × List Entry) :=
  (groups.map fun group => (group.1, group.2.filter fun entry => entry.1 ≠ handle)).filter
    (·.2 ≠ [])

/-- An erasure takes its entry from every group and leaves out the groups that it empties. The
other groups stay in their order. -/
theorem Follows.groups_erase (follows : Follows index keys) (inStep : catalog.InStep)
    (erased : Handle) :
    (catalog.erase erased).groups (index (catalog.erase erased)) false =
      withoutEntry erased (catalog.groups (index catalog) false) := by
  have erasedInStep := inStep.erase erased
  have filed := follows.filed _ erasedInStep
  -- the keys that remain are those that still file an entry
  have remaining : Index.keysOf (index (catalog.erase erased)).buckets =
      (Index.keysOf (index catalog).buckets).filter fun key =>
        (catalog.erase erased).entries.filter (fun entry => key ∈ keys entry.2) ≠ [] := by
    rw [eq_filter_of_sublist (index catalog).nodup_keys (follows.keysOf_erase_sublist _ erased)]
    refine List.filter_congr fun key _ => decide_eq_decide.mpr ?_
    rw [filed.mem_keysOf_iff erasedInStep]
    simp
  rw [filed.groups_eq, (follows.filed _ inStep).groups_eq, withoutEntry, remaining, List.map_map,
    List.filter_map]
  simp only [inStep.entries_erase, List.filter_filter, Function.comp_def, Bool.false_eq_true,
    if_false, Bool.and_comm]

end

/-- An erasure undoes the insertion before it. Only the next handle is another one afterwards. -/
theorem InStep.tellsLike_erase_insert {catalog : Catalog} (inStep : catalog.InStep) (tag : Tag) :
    ((catalog.insert tag).erase catalog.next).TellsLike catalog := by
  have fresh : ∀ entry ∈ catalog.entries, entry.1 ≠ catalog.next := by
    rintro ⟨handle, stored⟩ member rfl
    have live := (inStep.mem_entries _ _).mp member
    exact Nat.lt_irrefl _ (catalog.lt_next (by simp [live]))
  have same : ((catalog.insert tag).erase catalog.next).entries = catalog.entries := by
    rw [(inStep.insert tag).entries_erase, inStep.entries_insert, List.filter_append,
      List.filter_eq_self.mpr (by simpa using fresh)]
    simp
  exact ((inStep.insert tag).erase _).tellsLike inStep same
    (follows_byName.keysOf_erase_insert inStep tag same)
    (follows_byLabel.keysOf_erase_insert inStep tag same)

/-- Two erasures may change places, also if they are of one handle or of none that is live. -/
theorem InStep.tellsLike_erase_erase {catalog : Catalog} (inStep : catalog.InStep)
    (one another : Handle) :
    ((catalog.erase one).erase another).TellsLike ((catalog.erase another).erase one) := by
  have same : ((catalog.erase one).erase another).entries =
      ((catalog.erase another).erase one).entries := by
    rw [(inStep.erase one).entries_erase, inStep.entries_erase,
      (inStep.erase another).entries_erase, inStep.entries_erase, List.filter_comm]
  exact ((inStep.erase one).erase another).tellsLike ((inStep.erase another).erase one) same
    (follows_byName.keysOf_erase_erase inStep one another same)
    (follows_byLabel.keysOf_erase_erase inStep one another same)

/-- Erasing is exact after every run. A tag that is inserted and erased again by the handle that
its insertion gave leaves every answer as it was. Two erasures lead to the same answers in either
order. The erasure of a live handle hands its tag back and takes its entry out of the sequence and
out of every group: the others keep their handles, tags and order, and of the groups only those
are gone that had no other entry, while the rest keep their order. -/
theorem erasing_is_exact (steps : List Step) :
    let catalog := after steps
    (∀ tag, catalog.answer (.insert tag) = .given catalog.next ∧
      ((catalog.insert tag).erase catalog.next).TellsLike catalog) ∧
    (∀ one another, ((catalog.erase one).erase another).TellsLike
      ((catalog.erase another).erase one)) ∧
    ∀ handle tag, catalog.get? handle = some tag →
      let rest := catalog.erase handle
      catalog.answer (.erase handle) = .erased (some tag) ∧
      rest.get? handle = none ∧
      (∀ other, other ≠ handle → rest.get? other = catalog.get? other) ∧
      rest.entries = (catalog.entries.filter fun entry => entry.1 ≠ handle) ∧
      rest.size + 1 = catalog.size ∧
      rest.groupsByName false = withoutEntry handle (catalog.groupsByName false) ∧
      rest.groupsByLabel false = withoutEntry handle (catalog.groupsByLabel false) := by
  intro catalog
  have inStep : catalog.InStep := inStep_after steps
  refine ⟨fun tag => ⟨rfl, inStep.tellsLike_erase_insert tag⟩, inStep.tellsLike_erase_erase, ?_⟩
  intro handle tag live rest
  refine ⟨congrArg Answer.erased live, ?_, ?_, inStep.entries_erase handle, ?_,
    follows_byName.groups_erase inStep handle, follows_byLabel.groups_erase inStep handle⟩
  · exact (catalog.get?_erase handle handle).trans (if_pos rfl)
  · intro other different
    exact (catalog.get?_erase handle other).trans (if_neg different)
  · exact inStep.size_erase (by simp [live])

/-- The first of three tags is erased. Two of its labels have no other tag, one of them between
labels that have, and their groups are gone; the others stand as they stood. -/
theorem erasing_is_exact_labelled :
    let labelled (name : String) (labels : List String) : Tag :=
      (propertyOf .readWrite "int" name).withLabels (labels.map String.toList)
    let first := labelled "x" ["a", "b", "c", "b"]
    let catalog := after [.insert first, .insert (labelled "y" ["c", "d"]),
      .insert (labelled "z" ["d", "a", "0"])]
    catalog.get? 0 = some first ∧
      ((catalog.groupsByLabel false).map fun group => (group.1.shown, group.2.map (·.1))) =
        [(['a'], [0, 2]), (['b'], [0]), (['c'], [0, 1]), (['d'], [1, 2]), (['0'], [2])] ∧
      (((catalog.erase 0).groupsByLabel false).map fun group =>
          (group.1.shown, group.2.map (·.1))) =
        [(['a'], [2]), (['c'], [1]), (['d'], [1, 2]), (['0'], [2])] := by
  intro labelled first catalog
  have live : catalog.get? 0 = some first := rfl
  have groups := ((erasing_is_exact _).2.2 0 first live).2.2.2.2.2.2
  refine ⟨live, by decide, ?_⟩
  rw [groups]
  decide

end DocComment.Catalog
