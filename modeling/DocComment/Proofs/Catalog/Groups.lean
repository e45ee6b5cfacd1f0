import DocComment.Proofs.Catalog.Lookup

/-!
# Groups are scans

A grouping has a group for each key of its index. After every run each group is what a scan
of the sequence for its key finds, whatever order the index came by its handles in, and the
keys are those that some tag of the sequence bears. So a grouping is determined by the
sequence up to the order of its keys.
-/
namespace DocComment

/-- Whether a key files a tag: a label of the tag has that key, or the tag has no label and the
key stands for having none. -/
def LabelKey.files (key : LabelKey) (tag : Tag) : Bool :=
  tag.labels.any (LabelKey.ofLabel · = key) || tag.labels.isEmpty && key = .unlabelled

/-- The keys of a tag are those that file it. -/
theorem LabelKey.files_iff_mem_ofTag (key : LabelKey) (tag : Tag) :
    key.files tag ↔ key ∈ LabelKey.ofTag tag := by
  simp [files, mem_ofTag]

namespace Catalog

variable {Key : Type}

/-- Entries grouped by keys: each key stands once and has what a scan for it finds, which is
something, and no key of any entry is left out. -/
structure GroupedBy (files : Key → Tag → Bool) (entries : List Entry)
    (groups : List (Key × List Entry)) : Prop where
  distinct : (groups.map (·.1)).Nodup
  filled : ∀ group ∈ groups, group.2 ≠ []
  exact : ∀ group ∈ groups, group.2 = entries.filter fun entry => files group.1 entry.2
  complete : ∀ entry ∈ entries, ∀ key, files key entry.2 → key ∈ groups.map (·.1)

/-- An entry is in the group of every key that files it, so no entry is lost by grouping. -/
theorem GroupedBy.exists_group {files : Key → Tag → Bool} {entries : List Entry}
    {groups : List (Key × List Entry)} (grouped : GroupedBy files entries groups) {entry : Entry}
    (present : entry ∈ entries) (key : Key) (holds : files key entry.2) :
    ∃ group ∈ groups, group.1 = key ∧ entry ∈ group.2 := by
  obtain ⟨group, member, rfl⟩ := List.mem_map.mp (grouped.complete entry present key holds)
  refine ⟨group, member, rfl, ?_⟩
  rw [grouped.exact group member]
  exact List.mem_filter.mpr ⟨present, holds⟩

/-- An index files what a scan finds when it has, under each key, the handles of the tags that
the key files. -/
def Files (catalog : Catalog) (index : Index Key) (files : Key → Tag → Bool) : Prop :=
  ∀ key, index.handles key = catalog.scan (files key)

/-- The names of a catalog in step file what a scan finds. Every tag has one aliased name. -/
theorem InStep.files_byName {catalog : Catalog} (inStep : catalog.InStep) :
    catalog.Files catalog.byName fun key tag => tag.aliasedName = key :=
  inStep.named

/-- The labels of a catalog in step file what a scan finds. A tag may have several keys here. -/
theorem InStep.files_byLabel {catalog : Catalog} (inStep : catalog.InStep) :
    catalog.Files catalog.byLabel LabelKey.files := by
  intro key
  rw [inStep.labelled]
  congr 1
  funext tag
  rw [Bool.eq_iff_iff, LabelKey.files_iff_mem_ofTag, decide_eq_true_iff]

section

variable {catalog : Catalog} {index : Index Key} {files : Key → Tag → Bool}

/-- A key has a bucket when it files a tag of the sequence; no bucket is empty. -/
theorem Files.mem_keysOf_iff (filed : catalog.Files index files) (inStep : catalog.InStep)
    (key : Key) :
    key ∈ Index.keysOf index.buckets ↔ ∃ entry ∈ catalog.entries, files key entry.2 := by
  rw [index.mem_keysOf_iff, filed, ← inStep.map_fst_filter]
  simp

/-- The groups of an index are scans of the sequence, one for each key in the order of the index,
and sorted if that is asked for. -/
theorem Files.groups_eq (filed : catalog.Files index files) (inTagOrder : Bool) :
    catalog.groups index inTagOrder = (Index.keysOf index.buckets).map fun key =>
      let group := catalog.entries.filter fun entry => files key entry.2
      (key, if inTagOrder then sortEntries group else group) := by
  rw [groups, Index.keysOf, List.map_map]
  refine List.map_congr_left ?_
  intro (key, handles) bucket
  have scanned : catalog.resolve handles =
      catalog.entries.filter fun entry => files key entry.2 := by
    rw [← index.handles_of_mem bucket, filed, resolve_scan]
  simp only [scanned, Function.comp_apply]

/-- The keys of the groups are those of the index, in its order. Sorting the groups moves no
key. -/
theorem map_fst_groups (catalog : Catalog) (index : Index Key) (inTagOrder : Bool) :
    (catalog.groups index inTagOrder).map (·.1) = Index.keysOf index.buckets := by
  rw [groups, List.map_map]
  rfl

/-- The groups of an index group the sequence by its keys. -/
theorem Files.groupedBy (filed : catalog.Files index files) (inStep : catalog.InStep) :
    GroupedBy files catalog.entries (catalog.groups index false) := by
  have exact : ∀ group ∈ catalog.groups index false, group.1 ∈ Index.keysOf index.buckets ∧
      group.2 = catalog.entries.filter fun entry => files group.1 entry.2 := by
    rw [filed.groups_eq]
    intro group member
    obtain ⟨key, opened, rfl⟩ := List.mem_map.mp member
    exact ⟨opened, rfl⟩
  refine ⟨?_, ?_, fun group member => (exact group member).2, ?_⟩
  · rw [map_fst_groups]
    exact index.nodup_keys
  · intro group member
    obtain ⟨opened, scanned⟩ := exact group member
    obtain ⟨entry, present, holds⟩ := (filed.mem_keysOf_iff inStep group.1).mp opened
    rw [scanned]
    exact List.ne_nil_of_mem (List.mem_filter.mpr ⟨present, holds⟩)
  · intro entry present key holds
    rw [map_fst_groups]
    exact (filed.mem_keysOf_iff inStep key).mpr ⟨entry, present, holds⟩

end

/-- Every entry of a catalog in step is in the group of its name and in those of its labels. -/
theorem InStep.exists_groups {catalog : Catalog} (inStep : catalog.InStep) {entry : Entry}
    (present : entry ∈ catalog.entries) :
    (∃ group ∈ catalog.groupsByName false,
      group.1 = entry.2.aliasedName ∧ entry ∈ group.2) ∧
    ∀ key, key.files entry.2 → ∃ group ∈ catalog.groupsByLabel false,
      group.1 = key ∧ entry ∈ group.2 :=
  ⟨(inStep.files_byName.groupedBy inStep).exists_group present _ (by simp),
    (inStep.files_byLabel.groupedBy inStep).exists_group present⟩

end Catalog

end DocComment
