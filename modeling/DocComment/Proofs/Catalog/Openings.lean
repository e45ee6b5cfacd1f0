import DocComment.Proofs.Catalog.Groups
import DocComment.Proofs.Catalog.Merging
import Mathlib.Data.List.Induction
import Mathlib.Data.List.Nodup

/-!
# The order in which groups open

Every run is one of insertions and erasures of single tags. An insertion opens a group for
each key of its tag that had none, behind all other groups and in the order of the tag's
labels. An erasure may close groups and moves none. So the keys of a grouping stand in the
order in which their groups were last opened, and not in that in which the keys first appear
in the sequence: a group stays where it was opened when the tag that opened it goes.

The main statement adds to this that a grouping by name puts every tag in one group, and a
grouping by label puts it once in the group of each of its labels.
-/
namespace DocComment

namespace LabelKey

/-- The keys of a tag stand in the order of its labels. A key that several labels have stands
where the first of them does. -/
theorem pairwise_ofTag (tag : Tag) :
    (ofTag tag).Pairwise fun one other =>
      (tag.labels.map ofLabel).idxOf one < (tag.labels.map ofLabel).idxOf other := by
  rw [ofTag]
  split
  · simp
  · exact pairwise_eraseDups _

end LabelKey

namespace Catalog

/-- Whether a change is the insertion or the erasure of one tag, and so opens the groups of one
tag at most. -/
def Step.IsSingle : Step → Prop
  | .insert _ | .erase _ => True
  | .insertMany _ | .merge _ => False

/-- A change as insertions and erasures of single tags. A merge inserts the tags that it accepts
and that are not present. -/
def singly (catalog : Catalog) : Step → List Step
  | .insert tag => [.insert tag]
  | .insertMany tags => tags.map .insert
  | .erase handle => [.erase handle]
  | .merge tags => (catalog.appended tags).map .insert

/-- A run from some catalog on as insertions and erasures of single tags. What a merge inserts
depends on where the run stands. -/
def singlyFrom (catalog : Catalog) : List Step → List Step
  | [] => []
  | step :: rest => catalog.singly step ++ (catalog.apply step).singlyFrom rest

/-- A run as insertions and erasures of single tags, from the empty catalog on. -/
def singleSteps (steps : List Step) : List Step := empty.singlyFrom steps

/-- Inserting tags one by one is inserting them all. -/
theorem foldl_apply_insert (catalog : Catalog) (tags : List Tag) :
    (tags.map Step.insert).foldl apply catalog = catalog.insertMany tags := by
  rw [List.foldl_map]
  rfl

/-- A change comes to the same as its insertions and erasures, whatever kind of change it is. -/
theorem InStep.foldl_singly {catalog : Catalog} (inStep : catalog.InStep) (step : Step) :
    (catalog.singly step).foldl Catalog.apply catalog = catalog.apply step := by
  cases step with
  | insert tag => rfl
  | erase handle => rfl
  | insertMany tags => exact catalog.foldl_apply_insert tags
  | merge tags => exact (catalog.foldl_apply_insert _).trans (inStep.merge_eq_insertMany tags).symm

/-- A run comes to the same as its insertions and erasures, so nothing is lost by looking at
single ones. -/
theorem after_singleSteps (steps : List Step) : after (singleSteps steps) = after steps := by
  have same (catalog : Catalog) (inStep : catalog.InStep) :
      (catalog.singlyFrom steps).foldl Catalog.apply catalog =
        steps.foldl Catalog.apply catalog := by
    induction steps generalizing catalog with
    | nil => rfl
    | cons step rest inductionHypothesis =>
      rw [singlyFrom, List.foldl_append, inStep.foldl_singly, List.foldl_cons]
      exact inductionHypothesis (catalog.apply step) (inStep.apply step)
  exact same empty inStep_empty

/-- The insertions and erasures of a change are single. -/
theorem isSingle_of_mem_singly {catalog : Catalog} {step single : Step}
    (member : single ∈ catalog.singly step) : single.IsSingle := by
  cases step with
  | insert tag => simp_all [singly, Step.IsSingle]
  | erase handle => simp_all [singly, Step.IsSingle]
  | insertMany tags =>
    obtain ⟨tag, -, rfl⟩ := List.mem_map.mp member
    trivial
  | merge tags =>
    obtain ⟨tag, -, rfl⟩ := List.mem_map.mp member
    trivial

/-- The insertions and erasures of a run are single, wherever the run starts. -/
theorem isSingle_of_mem_singlyFrom {catalog : Catalog} {steps : List Step} {single : Step}
    (member : single ∈ catalog.singlyFrom steps) : single.IsSingle := by
  induction steps generalizing catalog with
  | nil => contradiction
  | cons step rest inductionHypothesis =>
    rcases List.mem_append.mp member with now | later
    · exact isSingle_of_mem_singly now
    · exact inductionHypothesis later

/-- The group of the tags that fulfil a condition was last opened by the change at a place of a
run: no tag of the sequence fulfilled it before that change, and some tag has ever since. -/
structure OpenedAt (steps : List Step) (holds : Tag → Bool) (place : Nat) : Prop where
  within : place < steps.length
  absent : ∀ entry ∈ (after (steps.take place)).entries, holds entry.2 = false
  lasting : ∀ count, place < count → count ≤ steps.length →
    ∃ entry ∈ (after (steps.take count)).entries, holds entry.2

/-- A run with one change more does that change to what the run has left. -/
theorem after_concat (steps : List Step) (step : Step) :
    after (steps ++ [step]) = (after steps).apply step := by
  rw [after, List.foldl_append]
  rfl

/-- A group that is open after one change more was opened when it was before. -/
theorem OpenedAt.concat {steps : List Step} {holds : Tag → Bool} {place : Nat}
    (opened : OpenedAt steps holds place) {step : Step}
    (isOpen : ∃ entry ∈ (after (steps ++ [step])).entries, holds entry.2) :
    OpenedAt (steps ++ [step]) holds place where
  within := by
    rw [List.length_append]
    exact Nat.lt_add_right _ opened.within
  absent := by
    rw [List.take_append_of_le_length (Nat.le_of_lt opened.within)]
    exact opened.absent
  lasting := by
    intro count later bounded
    by_cases last : count ≤ steps.length
    · rw [List.take_append_of_le_length last]
      exact opened.lasting count later last
    · rw [List.take_of_length_le (by rw [List.length_append, List.length_singleton]; omega)]
      exact isOpen

/-- A group that is open after a change and was not before is opened by that change, even if it
had been open earlier in the run. -/
theorem openedAt_last {steps : List Step} {holds : Tag → Bool} {step : Step}
    (absent : ∀ entry ∈ (after steps).entries, holds entry.2 = false)
    (isOpen : ∃ entry ∈ (after (steps ++ [step])).entries, holds entry.2) :
    OpenedAt (steps ++ [step]) holds steps.length where
  within := by simp
  absent := by simpa using absent
  lasting := by
    intro count later bounded
    rw [List.take_of_length_le (by rw [List.length_append, List.length_singleton]; omega)]
    exact isOpen

section

variable {Key : Type} [DecidableEq Key]

/-- An index of catalogs follows the keys of their tags: it files each tag that is inserted under
its keys, in their order, and strikes each tag that is erased from them. -/
structure Follows (index : Catalog → Index Key) (keys : Tag → List Key) : Prop where
  distinct : ∀ tag, (keys tag).Nodup
  initial : (index empty).buckets = []
  inserted : ∀ catalog tag, index (catalog.insert tag) =
    (keys tag).foldl (fun filed key => filed.file key catalog.next) (index catalog)
  erased : ∀ catalog handle tag, catalog.get? handle = some tag →
    index (catalog.erase handle) =
      (keys tag).foldl (fun struck key => struck.strike key handle) (index catalog)
  filed : ∀ catalog : Catalog, catalog.InStep →
    catalog.Files (index catalog) fun key tag => key ∈ keys tag

/-- The index by name follows the aliased names of the tags, one key for each tag. -/
theorem follows_byName : Follows byName fun tag => [tag.aliasedName] where
  distinct := by simp
  initial := rfl
  inserted _ _ := rfl
  erased catalog handle tag found := by simp only [erase, found, List.foldl_cons, List.foldl_nil]
  filed catalog inStep key := by
    rw [inStep.files_byName]
    congr 1
    funext tag
    simp [eq_comm]

/-- The index by label follows the keys of the tags' labels, with the key for having none where
there is no label. -/
theorem follows_byLabel : Follows byLabel LabelKey.ofTag where
  distinct := LabelKey.nodup_ofTag
  initial := rfl
  inserted _ _ := rfl
  erased catalog handle tag found := by simp only [erase, found]
  filed _ inStep := inStep.labelled

/-- A row of keys stands in the order in which their groups were last opened by a run. Keys that
one change opened are keys of the tag that it inserted, and stand in their order there. -/
def InOpeningOrder (steps : List Step) (keys : Tag → List Key) (row : List Key) : Prop :=
  ∃ opened : Key → Nat,
    (∀ key ∈ row, OpenedAt steps (fun tag => key ∈ keys tag) (opened key)) ∧
    row.Pairwise fun one other => opened one < opened other ∨
      (opened one = opened other ∧
        ∃ tag, steps[opened one]? = some (.insert tag) ∧ [one, other].Sublist (keys tag))

variable {index : Catalog → Index Key} {keys : Tag → List Key}

/-- An insertion opens the groups of those keys of its tag that had none. They stand behind the
groups that were open, which stay so. -/
theorem InOpeningOrder.insert {steps : List Step} {row : List Key} {tag : Tag}
    (ordered : InOpeningOrder steps keys row)
    (unopened : ∀ key ∉ row, ∀ entry ∈ (after steps).entries, key ∉ keys entry.2)
    (isOpen : ∀ key ∈ row ++ (keys tag).filter (· ∉ row),
      ∃ entry ∈ (after (steps ++ [.insert tag])).entries, key ∈ keys entry.2) :
    InOpeningOrder (steps ++ [.insert tag]) keys (row ++ (keys tag).filter (· ∉ row)) := by
  obtain ⟨opened, openings, pairwise⟩ := ordered
  refine ⟨fun key => if key ∈ row then opened key else steps.length, ?_, ?_⟩
  · intro key member
    have there : ∃ entry ∈ (after (steps ++ [.insert tag])).entries,
        decide (key ∈ keys entry.2) = true := by simpa using isOpen key member
    by_cases old : key ∈ row
    · simp only [if_pos old]
      exact (openings key old).concat there
    · simp only [if_neg old]
      exact openedAt_last (by simpa using unopened key old) there
  · refine List.pairwise_append.mpr ⟨?_, ?_, ?_⟩
    · refine pairwise.imp_of_mem ?_
      intro one other hasOne hasOther before
      simp only [if_pos hasOne, if_pos hasOther]
      rwa [List.getElem?_append_left (openings one hasOne).within]
    · refine List.pairwise_iff_forall_sublist.mpr ?_
      intro one other standing
      have fresh (key : Key) (member : key ∈ [one, other]) : key ∉ row := by
        simpa using (List.mem_filter.mp (standing.subset member)).2
      simp only [if_neg (fresh one (by simp)), if_neg (fresh other (by simp))]
      exact .inr ⟨trivial, tag, by simp, standing.trans List.filter_sublist⟩
    · intro one hasOne other hasOther
      have fresh : other ∉ row := by simpa using (List.mem_filter.mp hasOther).2
      simp only [if_pos hasOne, if_neg fresh]
      exact .inl (openings one hasOne).within

/-- An erasure opens no group and leaves the order of those that stay open. It may close some. -/
theorem InOpeningOrder.erase {steps : List Step} {row remaining : List Key} {handle : Handle}
    (ordered : InOpeningOrder steps keys row) (sublist : remaining.Sublist row)
    (isOpen : ∀ key ∈ remaining,
      ∃ entry ∈ (after (steps ++ [.erase handle])).entries, key ∈ keys entry.2) :
    InOpeningOrder (steps ++ [.erase handle]) keys remaining := by
  obtain ⟨opened, openings, pairwise⟩ := ordered
  refine ⟨opened, ?_, (pairwise.sublist sublist).imp_of_mem ?_⟩
  · intro key member
    exact (openings key (sublist.subset member)).concat (by simpa using isOpen key member)
  · intro one other hasOne _ before
    rwa [List.getElem?_append_left (openings one (sublist.subset hasOne)).within]

/-- After a run of single insertions and erasures, the keys of an index stand in the order in
which their groups were last opened. The induction takes changes off the end of the run. -/
theorem Follows.inOpeningOrder (follows : Follows index keys) {steps : List Step}
    (single : ∀ step ∈ steps, step.IsSingle) :
    InOpeningOrder steps keys (Index.keysOf (index (after steps)).buckets) := by
  induction steps using List.reverseRecOn with
  | nil =>
    have none : Index.keysOf (index (after [])).buckets = [] := by
      rw [Index.keysOf, after, List.foldl_nil, follows.initial, List.map_nil]
    rw [none]
    exact ⟨fun _ => 0, by simp, .nil⟩
  | append_singleton steps step inductionHypothesis =>
    have ordered := inductionHypothesis fun other member =>
      single other (List.mem_append_left _ member)
    have inStep := inStep_after steps
    have isOpen : ∀ key ∈ Index.keysOf (index (after (steps ++ [step]))).buckets,
        ∃ entry ∈ (after (steps ++ [step])).entries, key ∈ keys entry.2 := by
      have thereInStep := inStep_after (steps ++ [step])
      intro key member
      simpa using ((follows.filed _ thereInStep).mem_keysOf_iff thereInStep key).mp member
    cases step with
    | insert tag =>
      have row : Index.keysOf (index (after (steps ++ [.insert tag]))).buckets =
          Index.keysOf (index (after steps)).buckets ++
            (keys tag).filter (· ∉ Index.keysOf (index (after steps)).buckets) := by
        rw [after_concat, apply, follows.inserted]
        exact Index.keysOf_foldl_file _ _ _ (follows.distinct tag)
      rw [row] at isOpen ⊢
      refine ordered.insert ?_ isOpen
      intro key absent entry member filed
      refine absent (((follows.filed _ inStep).mem_keysOf_iff inStep key).mpr ⟨entry, member, ?_⟩)
      simpa using filed
    | erase handle =>
      refine ordered.erase ?_ isOpen
      rw [after_concat, apply]
      cases found : (after steps).get? handle with
      | none =>
        have unchanged : (after steps).erase handle = after steps := by
          simp only [Catalog.erase, found]
        rw [unchanged]
      | some tag =>
        rw [follows.erased _ _ _ found]
        exact Index.keysOf_foldl_strike_sublist _ _ _
    | insertMany tags => exact (single (.insertMany tags) (by simp)).elim
    | merge tags => exact (single (.merge tags) (by simp)).elim

end

/-- Where every tag has one key, every entry is in one group, and in no other. -/
theorem GroupedBy.existsUnique_group {Key : Type} [DecidableEq Key] {keyOf : Tag → Key}
    {entries : List Entry} {groups : List (Key × List Entry)}
    (grouped : GroupedBy (fun key tag => keyOf tag = key) entries groups) {entry : Entry}
    (present : entry ∈ entries) : ∃! group, group ∈ groups ∧ entry ∈ group.2 := by
  obtain ⟨group, member, key, inside⟩ := grouped.exists_group present (keyOf entry.2) (by simp)
  refine ⟨group, ⟨member, inside⟩, ?_⟩
  rintro other ⟨alsoMember, within⟩
  rw [grouped.exact other alsoMember] at within
  have alsoKey : keyOf entry.2 = other.1 := by simpa using (List.mem_filter.mp within).2
  exact List.inj_on_of_nodup_map grouped.distinct alsoMember member (alsoKey.symm.trans key.symm)

/-- After every run the groupings divide the sequence, and their keys stand in the order in
which the groups were last opened. By name every entry is in exactly one group, that of its
aliased name. By label every entry is once in the group of each key that files it and in no
other. No group is empty and no key stands twice; a group has its entries in the order of
insertion, for the handles of the sequence ascend. The run is taken apart into insertions and
erasures of single tags, and of two keys that one insertion opened the one that comes first
among the labels of its tag stands first. -/
theorem groups_in_opening_order (steps : List Step) :
    let catalog := after steps
    let run := singleSteps steps
    (after run = catalog ∧ ∀ step ∈ run, step.IsSingle) ∧
    (catalog.entries.map (·.1)).Pairwise (· < ·) ∧
    (GroupedBy (fun name tag => tag.aliasedName = name) catalog.entries
        (catalog.groupsByName false) ∧
      (∀ entry ∈ catalog.entries,
        ∃! group, group ∈ catalog.groupsByName false ∧ entry ∈ group.2) ∧
      ∃ opened : Text → Nat,
        (∀ group ∈ catalog.groupsByName false,
          OpenedAt run (fun tag => tag.aliasedName = group.1) (opened group.1)) ∧
        (catalog.groupsByName false).Pairwise fun one other =>
          opened one.1 < opened other.1) ∧
    (GroupedBy LabelKey.files catalog.entries (catalog.groupsByLabel false) ∧
      ∃ opened : LabelKey → Nat,
        (∀ group ∈ catalog.groupsByLabel false,
          OpenedAt run group.1.files (opened group.1)) ∧
        (catalog.groupsByLabel false).Pairwise fun one other =>
          opened one.1 < opened other.1 ∨
            (opened one.1 = opened other.1 ∧
              ∃ tag, run[opened one.1]? = some (.insert tag) ∧
                (tag.labels.map LabelKey.ofLabel).idxOf one.1 <
                  (tag.labels.map LabelKey.ofLabel).idxOf other.1)) := by
  intro catalog run
  have same : after run = catalog := after_singleSteps steps
  have inStep : catalog.InStep := inStep_after steps
  have single : ∀ step ∈ run, step.IsSingle := fun step => isSingle_of_mem_singlyFrom
  have byName : GroupedBy (fun name tag => tag.aliasedName = name) catalog.entries
      (catalog.groupsByName false) := inStep.files_byName.groupedBy inStep
  refine ⟨⟨same, single⟩, inStep.entries_ascending,
    ⟨byName, fun entry => byName.existsUnique_group, ?_⟩,
    ⟨inStep.files_byLabel.groupedBy inStep, ?_⟩⟩
  · obtain ⟨opened, openings, ordered⟩ := follows_byName.inOpeningOrder single
    rw [same, ← map_fst_groups catalog catalog.byName false] at openings ordered
    refine ⟨opened, ?_, (List.pairwise_map.mp ordered).imp ?_⟩
    · intro group member
      have opening := openings group.1 (List.mem_map_of_mem member)
      simpa [eq_comm] using opening
    · rintro one other (before | ⟨-, tag, -, both⟩)
      · exact before
      · simpa using both.length_le
  · obtain ⟨opened, openings, ordered⟩ := follows_byLabel.inOpeningOrder single
    rw [same, ← map_fst_groups catalog catalog.byLabel false] at openings ordered
    refine ⟨opened, ?_, (List.pairwise_map.mp ordered).imp ?_⟩
    · intro group member
      have opening := openings group.1 (List.mem_map_of_mem member)
      simpa [← LabelKey.files_iff_mem_ofTag] using opening
    · rintro one other (before | ⟨together, tag, inserted, both⟩)
      · exact .inl before
      · exact .inr ⟨together, tag, inserted,
          List.pairwise_iff_forall_sublist.mp (LabelKey.pairwise_ofTag tag) both⟩

end Catalog

end DocComment
