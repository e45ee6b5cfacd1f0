import DocComment.Proofs.Catalog.Handles
import DocComment.Proofs.Catalog.Openings

/-!
# Groups in the order of the sequence

A catalog that is filled anew from its sequence has the same groups as the catalog itself, tag
for tag. Only their order may differ: a new catalog has its keys in the order in which they
first appear in the sequence, while a group stays where it was opened. The two orders part when
the first tag of a group is erased and the group lives on, although another key now appears
before it.

Insertions and merges never part them, and neither does an erasure that leaves the keys of the
remaining tags in the order of their first appearance. The main statement says so for whole
runs, and that this condition on erasures is the exact one. A run that violates it follows.
-/
namespace DocComment.Catalog

variable {Key : Type} [DecidableEq Key]

/-- The keys of some tags, each where it first appears, and the keys of one tag in their order
there. -/
def firstSeen (keys : Tag → List Key) (tags : List Tag) : List Key := (tags.flatMap keys).eraseDups

/-- Groups as a reader sees them, without the handles of their tags. Two catalogs that give out
other handles can be compared by them. -/
def tagged (groups : List (Key × List Entry)) : List (Key × List Tag) :=
  groups.map fun group => (group.1, group.2.map (·.2))

/-- Distinct elements are no repetitions, so none of them is erased. -/
theorem eraseDups_of_nodup {elements : List Key} (distinct : elements.Nodup) :
    elements.eraseDups = elements := by
  induction elements with
  | nil => rfl
  | cons first rest inductionHypothesis =>
    obtain ⟨absent, distinctRest⟩ := List.nodup_cons.mp distinct
    have kept : (rest.filter fun other => !other == first) = rest := by
      refine List.filter_eq_self.mpr fun other member => ?_
      have different : other ≠ first := by
        rintro rfl
        exact absent member
      simp [different]
    rw [List.eraseDups_cons, kept, inductionHypothesis distinctRest]

/-- One tag more adds the keys that were not seen before, in their order and behind the
others. -/
theorem firstSeen_concat {keys : Tag → List Key} (tags : List Tag) {tag : Tag}
    (distinct : (keys tag).Nodup) :
    firstSeen keys (tags ++ [tag]) =
      firstSeen keys tags ++ (keys tag).filter (· ∉ firstSeen keys tags) := by
  have unseen : (keys tag).removeAll (tags.flatMap keys) =
      (keys tag).filter (· ∉ firstSeen keys tags) := by
    refine List.filter_congr fun key _ => ?_
    rw [firstSeen, List.elem_eq_mem, ← decide_not]
    simp only [List.mem_eraseDups]
  rw [firstSeen, List.flatMap_append, List.flatMap_singleton, List.eraseDups_append, unseen,
    eraseDups_of_nodup (distinct.sublist List.filter_sublist)]
  rfl

/-- A row that leaves out some of distinct keys is known by the keys that it has. -/
theorem eq_filter_of_sublist {row whole : List Key} (distinct : whole.Nodup)
    (part : row.Sublist whole) : row = whole.filter (· ∈ row) := by
  induction part with
  | slnil => rfl
  | @cons row whole key part inductionHypothesis =>
    obtain ⟨absent, distinctRest⟩ := List.nodup_cons.mp distinct
    have left : key ∉ row := fun member => absent (part.subset member)
    rw [List.filter_cons_of_neg (by simpa using left)]
    exact inductionHypothesis distinctRest
  | @cons_cons row whole key part inductionHypothesis =>
    obtain ⟨absent, distinctRest⟩ := List.nodup_cons.mp distinct
    have others : whole.filter (· ∈ key :: row) = whole.filter (· ∈ row) := by
      refine List.filter_congr fun other member => ?_
      have different : other ≠ key := by
        rintro rfl
        exact absent member
      simp [different]
    rw [List.filter_cons_of_pos (by simp), others, ← inductionHypothesis distinctRest]

/-- Two rows that leave out the same of distinct keys are one, since neither has moved a key. -/
theorem eq_of_sublists {row other whole : List Key} (distinct : whole.Nodup)
    (part : row.Sublist whole) (otherPart : other.Sublist whole)
    (same : ∀ key, key ∈ row ↔ key ∈ other) : row = other := by
  rw [eq_filter_of_sublist distinct part, eq_filter_of_sublist distinct otherPart]
  simp only [same]

section

variable {index : Catalog → Index Key} {keys : Tag → List Key} {catalog : Catalog}

/-- The keys of an index are those seen in the sequence, in some order. Which order it is depends
on the erasures. -/
theorem Follows.mem_keysOf_iff_seen (follows : Follows index keys) (inStep : catalog.InStep)
    (key : Key) :
    key ∈ Index.keysOf (index catalog).buckets ↔ key ∈ firstSeen keys catalog.tags := by
  rw [(follows.filed catalog inStep).mem_keysOf_iff inStep, firstSeen, List.mem_eraseDups,
    List.mem_flatMap, tags]
  simp only [decide_eq_true_eq, List.mem_map, exists_exists_and_eq_and]

/-- The keys of an index stand in the order in which they first appear in the sequence. -/
def InSequenceOrder (index : Catalog → Index Key) (keys : Tag → List Key)
    (catalog : Catalog) : Prop :=
  Index.keysOf (index catalog).buckets = firstSeen keys catalog.tags

/-- An insertion keeps the keys in the order of the sequence: both rows get the new keys at their
ends. -/
theorem InSequenceOrder.insert (ordered : InSequenceOrder index keys catalog)
    (follows : Follows index keys) (inStep : catalog.InStep) (tag : Tag) :
    InSequenceOrder index keys (catalog.insert tag) := by
  have distinct := follows.distinct tag
  rw [InSequenceOrder] at ordered ⊢
  rw [follows.inserted, Index.keysOf_foldl_file _ _ _ distinct, ordered, inStep.tags_insert,
    firstSeen_concat _ distinct]

/-- Several insertions keep it too, by induction on the tags. -/
theorem InSequenceOrder.insertMany (ordered : InSequenceOrder index keys catalog)
    (follows : Follows index keys) (inStep : catalog.InStep) (tags : List Tag) :
    InSequenceOrder index keys (catalog.insertMany tags) := by
  induction tags generalizing catalog with
  | nil => exact ordered
  | cons tag rest inductionHypothesis =>
    exact inductionHypothesis (ordered.insert follows inStep tag) (inStep.insert tag)

/-- An erasure moves no key of an index. It drops the keys whose only tag it erased. -/
theorem Follows.keysOf_erase_sublist (follows : Follows index keys) (catalog : Catalog)
    (handle : Handle) :
    (Index.keysOf (index (catalog.erase handle)).buckets).Sublist
      (Index.keysOf (index catalog).buckets) := by
  cases found : catalog.get? handle with
  | none =>
    have unchanged : catalog.erase handle = catalog := by simp only [Catalog.erase, found]
    rw [unchanged]
  | some tag =>
    rw [follows.erased _ _ _ found]
    exact Index.keysOf_foldl_strike_sublist _ _ _

/-- An erasure keeps the keys in the order of the sequence exactly when it brings no key of the
remaining tags behind another that it preceded. -/
theorem InSequenceOrder.erase_iff (ordered : InSequenceOrder index keys catalog)
    (follows : Follows index keys) (inStep : catalog.InStep) (handle : Handle) :
    InSequenceOrder index keys (catalog.erase handle) ↔
      (firstSeen keys (catalog.erase handle).tags).Sublist (firstSeen keys catalog.tags) := by
  have unmoved := follows.keysOf_erase_sublist catalog handle
  rw [InSequenceOrder] at ordered ⊢
  rw [ordered] at unmoved
  constructor
  · intro same
    rwa [← same]
  · intro undisturbed
    exact eq_of_sublists (LabelKey.nodup_eraseDups _) unmoved undisturbed
      (follows.mem_keysOf_iff_seen (inStep.erase handle))

/-- No erasure of a run brings a key of the remaining tags behind another that it preceded.
Erasures of a key's only tag never do. -/
def Undisturbed (keys : Tag → List Key) (steps : List Step) : Prop :=
  ∀ place handle, steps[place]? = some (.erase handle) →
    (firstSeen keys (after (steps.take (place + 1))).tags).Sublist
      (firstSeen keys (after (steps.take place)).tags)

/-- A run is undisturbed up to any place if it is as a whole. -/
theorem Undisturbed.of_concat {steps : List Step} {step : Step}
    (undisturbed : Undisturbed keys (steps ++ [step])) : Undisturbed keys steps := by
  intro place handle found
  have within : place < steps.length := (List.getElem?_eq_some_iff.mp found).1
  have kept := undisturbed place handle (by rw [List.getElem?_append_left within, found])
  rwa [List.take_append_of_le_length within, List.take_append_of_le_length (Nat.le_of_lt within)]
    at kept

/-- Undisturbed runs keep the keys in the order of the sequence. The induction is on the run, and
merges are insertions here. -/
theorem Follows.inSequenceOrder (follows : Follows index keys) {steps : List Step}
    (undisturbed : Undisturbed keys steps) : InSequenceOrder index keys (after steps) := by
  induction steps using List.reverseRecOn with
  | nil =>
    rw [InSequenceOrder, after, List.foldl_nil, follows.initial]
    rfl
  | append_singleton steps step inductionHypothesis =>
    have ordered := inductionHypothesis undisturbed.of_concat
    have inStep := inStep_after steps
    rw [after_concat]
    rcases inStep.apply_eq step with ⟨handle, rfl⟩ | ⟨tags, inserted⟩
    · refine (ordered.erase_iff follows inStep handle).mpr ?_
      have last := undisturbed steps.length handle (by simp)
      rwa [List.take_of_length_le (by simp), List.take_left, after_concat] at last
    · rw [inserted]
      exact ordered.insertMany follows inStep tags

/-! Groups without handles -/

/-- The groups of an index as a reader sees them: for each key the tags of the sequence that bear
it. -/
theorem Follows.tagged_groups (follows : Follows index keys) (inStep : catalog.InStep) :
    tagged (catalog.groups (index catalog) false) =
      (Index.keysOf (index catalog).buckets).map fun key =>
        (key, catalog.tags.filter fun tag => key ∈ keys tag) := by
  rw [tagged, (follows.filed catalog inStep).groups_eq, List.map_map]
  refine List.map_congr_left fun key _ => ?_
  simp only [Function.comp_apply, Bool.false_eq_true, if_false, tags, List.filter_map]
  rfl

/-- A new catalog has the tags that it was filled with, in the same order. -/
theorem tags_ofTags (tags : List Tag) : (ofTags tags).tags = tags := by
  rw [Catalog.tags, ofTags, inStep_empty.entries_insertMany]
  exact List.map_snd_zip (by simp)

/-- A new catalog has its keys in the order of the sequence, as nothing was ever erased from
it. -/
theorem Follows.inSequenceOrder_ofTags (follows : Follows index keys) (tags : List Tag) :
    InSequenceOrder index keys (ofTags tags) := by
  have undisturbed : Undisturbed keys [.insertMany tags] := by
    intro place handle found
    cases place <;> simp at found
  exact follows.inSequenceOrder undisturbed

end

/-- How the grouping of a catalog after a run stands to that of a new catalog of the same
sequence: the groups are the same up to their order, and the order is the same if the run was
undisturbed. Whether an erasure disturbs decides whether the order outlasts it. -/
structure FollowsSequence (grouping : Catalog → List (Key × List Entry))
    (keys : Tag → List Key) (steps : List Step) : Prop where
  regrouped : (tagged (grouping (after steps))).Perm
    (tagged (grouping (ofTags (after steps).tags)))
  renewed : (grouping (ofTags (after steps).tags)).map (·.1) = firstSeen keys (after steps).tags
  ordered : Undisturbed keys steps →
    (grouping (after steps)).map (·.1) = firstSeen keys (after steps).tags ∧
      tagged (grouping (after steps)) = tagged (grouping (ofTags (after steps).tags))
  exact : (grouping (after steps)).map (·.1) = firstSeen keys (after steps).tags →
    ∀ handle,
      (grouping ((after steps).erase handle)).map (·.1) =
          firstSeen keys ((after steps).erase handle).tags ↔
        (firstSeen keys ((after steps).erase handle).tags).Sublist
          (firstSeen keys (after steps).tags)

/-- The grouping by an index follows the sequence if the index follows the keys of the tags. Both
groupings are covered by this. -/
theorem Follows.followsSequence {index : Catalog → Index Key} {keys : Tag → List Key}
    (follows : Follows index keys) (steps : List Step) :
    FollowsSequence (fun catalog => catalog.groups (index catalog) false) keys steps := by
  have inStep := inStep_after steps
  have renewedInStep : (ofTags (after steps).tags).InStep := inStep_empty.insertMany _
  have renewed := follows.inSequenceOrder_ofTags (after steps).tags
  rw [InSequenceOrder, tags_ofTags] at renewed
  have keysOfGroups (catalog : Catalog) : (catalog.groups (index catalog) false).map (·.1) =
      Index.keysOf (index catalog).buckets := map_fst_groups catalog (index catalog) false
  refine ⟨?_, ?_, ?_, ?_⟩
  · rw [follows.tagged_groups inStep, follows.tagged_groups renewedInStep, renewed, tags_ofTags]
    refine List.Perm.map _ ((List.perm_ext_iff_of_nodup ?_ ?_).mpr ?_)
    · exact (index (after steps)).nodup_keys
    · exact LabelKey.nodup_eraseDups _
    · exact follows.mem_keysOf_iff_seen inStep
  · rw [keysOfGroups, renewed]
  · intro undisturbed
    have ordered := follows.inSequenceOrder undisturbed
    rw [InSequenceOrder] at ordered
    refine ⟨by rw [keysOfGroups, ordered], ?_⟩
    rw [follows.tagged_groups inStep, follows.tagged_groups renewedInStep, renewed, ordered,
      tags_ofTags]
  · intro ordered handle
    rw [keysOfGroups] at ordered ⊢
    exact InSequenceOrder.erase_iff ordered follows inStep handle

/-- After every run, both groupings have the groups of a new catalog of the same sequence, tag
for tag. They have them in the same order, that in which the keys first appear, if no erasure
brought a key behind another that it preceded, and an erasure that does so ends that order. -/
theorem groups_follow_sequence (steps : List Step) :
    FollowsSequence (·.groupsByName false) (fun tag => [tag.aliasedName]) steps ∧
      FollowsSequence (·.groupsByLabel false) LabelKey.ofTag steps :=
  ⟨follows_byName.followsSequence steps, follows_byLabel.followsSequence steps⟩

/-- A tag of any name without a body, with labels. It stands for tags of which only the keys
count. -/
def bareTag (name : TagName) (labels : List String) : Tag :=
  ⟨.generic (.ofBody name []), labels.map String.toList⟩

/-- A run in which a group is closed and opened again behind the others, and in which another
group loses its second tag. -/
theorem groups_follow_sequence_reopened :
    let steps := [.insert (bareTag .var ["a"]), .insertMany [bareTag .param ["b", "a"],
      bareTag .mixin []], .erase 1, .insert (bareTag .param ["b"])]
    let catalog := after steps
    Undisturbed LabelKey.ofTag steps ∧
      tagged (catalog.groupsByLabel false) =
        tagged ((ofTags catalog.tags).groupsByLabel false) := by
  intro steps catalog
  have undisturbed : Undisturbed LabelKey.ofTag steps := by
    intro place handle found
    match place with
    | 0 | 1 | 3 => simp [steps] at found
    | 2 =>
      obtain rfl : 1 = handle := by simpa [steps] using found
      decide
    | _ + 4 => simp [steps] at found
  exact ⟨undisturbed, ((groups_follow_sequence steps).2.ordered undisturbed).2⟩

/-- The first of two tags of a name is erased and a tag of another name stood between them: the
sequence begins with the other name now, the groups with the one that was opened first. -/
theorem group_stays_where_it_opened :
    let catalog := after [.insert (bareTag .var []), .insert (bareTag .mixin []),
      .insert (bareTag .var []), .erase 0]
    firstSeen (fun tag => [tag.aliasedName]) catalog.tags = ["mixin".toList, "var".toList] ∧
      (catalog.groupsByName false).map (·.1) = ["var".toList, "mixin".toList] ∧
      tagged (catalog.groupsByName false) ≠
        tagged ((ofTags catalog.tags).groupsByName false) := by
  decide

end DocComment.Catalog
