import DocComment.Comment.Basic
import DocComment.Proofs.Catalog.Duplicates
import DocComment.Proofs.Catalog.Erasing

/-!
# Edits of a comment

A comment is put together from parts and then edited. Most edits of its tags go through the
comment, but the catalog may also be changed directly, or be replaced by another one. Whatever
the edits are, the catalog in the end is one that some run of a catalog leads to, so that slots,
sequence and indexes agree in it.

Two operations of a comment rest on that. An erasure names a tag and not a handle: it takes the
first equal tag out of the sequence, and this one entry out of the indexes, where equal tags may
stand beside it. And a comment finds tags by their own names in the sequence, while its catalog
finds them by aliased names in an index; the main statements say how both agree.
-/
namespace DocComment

/-- A name that is none of a property's stands for itself alone: no other name has the same
alias. -/
theorem TagName.aliased_eq_aliased_iff {name other : Text}
    (plain : ∀ access : Tag.Access, name ≠ access.tagName.text) :
    TagName.aliased other = TagName.aliased name ↔ other = name := by
  have notProperty := plain .readWrite
  have notReadOnly := plain .readOnly
  have notWriteOnly := plain .writeOnly
  simp only [Tag.Access.tagName] at notProperty notReadOnly notWriteOnly
  have itself : TagName.aliased name = name := by simp [TagName.aliased, notReadOnly, notWriteOnly]
  rw [itself, TagName.aliased]
  split
  · rename_i isAlias
    constructor
    · intro same
      exact absurd same.symm notProperty
    · rintro rfl
      exact absurd isAlias (not_or.mpr ⟨notReadOnly, notWriteOnly⟩)
  · rfl

namespace Catalog

/-- No handle is found for a tag that the catalog does not have. -/
theorem handleOf?_eq_none_iff {catalog : Catalog} {tag : Tag} :
    catalog.handleOf? tag = none ↔ tag ∉ catalog.tags := by
  simp only [handleOf?, Option.map_eq_none_iff, List.find?_eq_none, decide_eq_true_eq, tags,
    List.mem_map, not_exists, not_and]

/-- The handle that is found for a tag is that of the first entry equal to it. -/
theorem handleOf?_eq_some_iff {catalog : Catalog} {tag : Tag} {handle : Handle} :
    catalog.handleOf? tag = some handle ↔
      ∃ before behind, catalog.entries = before ++ (handle, tag) :: behind ∧
        tag ∉ before.map (·.2) := by
  simp only [handleOf?, Option.map_eq_some_iff, List.find?_eq_some_iff_append]
  constructor
  · rintro ⟨⟨found, equal⟩, ⟨same, before, behind, cut, others⟩, rfl⟩
    obtain rfl : equal = tag := by simpa using same
    refine ⟨before, behind, cut, fun member => ?_⟩
    obtain ⟨entry, earlier, also⟩ := List.mem_map.mp member
    simpa [also] using others entry earlier
  · rintro ⟨before, behind, cut, first⟩
    refine ⟨(handle, tag), ⟨by simp, before, behind, cut, fun entry earlier => ?_⟩, rfl⟩
    have different : entry.2 ≠ tag := fun same => first (same ▸ List.mem_map_of_mem earlier)
    simpa using different

/-- An erasure takes the entry of its handle out of the sequence, and joins what stood before it
and behind it. -/
theorem InStep.entries_erase_eq {catalog : Catalog} (inStep : catalog.InStep) {handle : Handle}
    {tag : Tag} {before behind : List Entry}
    (cut : catalog.entries = before ++ (handle, tag) :: behind) :
    (catalog.erase handle).entries = before ++ behind := by
  have once : (before.map (·.1) ++ handle :: behind.map (·.1)).Nodup := by
    have ascending := inStep.entries_ascending
    rw [cut, List.map_append, List.map_cons] at ascending
    exact ascending.imp Nat.ne_of_lt
  obtain ⟨notBefore, notBehind⟩ : handle ∉ before.map (·.1) ∧ handle ∉ behind.map (·.1) := by
    simpa [not_or] using (List.nodup_cons.mp (List.nodup_middle.mp once)).1
  have kept (others : List Entry) (absent : handle ∉ others.map (·.1)) :
      (others.filter fun entry => entry.1 ≠ handle) = others := by
    refine List.filter_eq_self.mpr fun entry member => ?_
    have different : entry.1 ≠ handle := fun same => absent (same ▸ List.mem_map_of_mem member)
    simpa using different
  rw [inStep.entries_erase, cut, List.filter_append, List.filter_cons_of_neg (by simp),
    kept before notBefore, kept behind notBehind]

/-- The erasure of the first entry of a tag takes this tag out of the sequence once. Equal tags
behind it stay. -/
theorem InStep.tags_erase_first {catalog : Catalog} (inStep : catalog.InStep) {handle : Handle}
    {tag : Tag} {before behind : List Entry}
    (cut : catalog.entries = before ++ (handle, tag) :: behind)
    (first : tag ∉ before.map (·.2)) : (catalog.erase handle).tags = catalog.tags.erase tag := by
  rw [tags, tags, inStep.entries_erase_eq cut, cut, List.map_append, List.map_append,
    List.map_cons, List.erase_append_right _ first, List.erase_cons_head]

/-- Some run leads to the catalog. What is proved of runs holds for it then. -/
def HasRun (catalog : Catalog) : Prop := ∃ steps, catalog = after steps

/-- A run may go on by one step. -/
theorem HasRun.apply {catalog : Catalog} (hasRun : catalog.HasRun) (step : Step) :
    (catalog.apply step).HasRun := by
  obtain ⟨steps, rfl⟩ := hasRun
  exact ⟨steps ++ [step], (after_append steps [step]).symm⟩

end Catalog

namespace Comment

/-- One edit of a comment. Its catalog may be changed directly, or be replaced by one that has a
run of its own behind it, as the catalog of every comment has. -/
inductive Edit
  | setSummary (summary : Option Text)
  | setDescription (description : Text)
  | appendLine (line : Text)
  | insertTag (tag : Tag)
  | eraseTag (tag : Tag)
  | merge (tags : List Tag)
  | changeCatalog (step : Catalog.Step)
  | replaceCatalog (steps : List Catalog.Step)

/-- The comment after one edit. A merge that is refused is an edit as well. -/
def apply (comment : Comment) : Edit → Comment
  | .setSummary summary => comment.withSummary summary
  | .setDescription description => comment.withDescription description
  | .appendLine line => comment.appendLine line
  | .insertTag tag => comment.insertTag tag
  | .eraseTag tag => (comment.eraseTag tag).2
  | .merge tags => (comment.merge tags).1
  | .changeCatalog step => { comment with catalog := comment.catalog.apply step }
  | .replaceCatalog steps => (comment.replaceCatalog (Catalog.after steps)).2

/-- The comment that some edits make of the one with the given parts, in the order of the
list. -/
def edited (summary : Option Text) (description : Text) (tags : List Tag) (edits : List Edit) :
    Comment :=
  edits.foldl apply (ofParts summary description tags)

/-- Every edit leads from a catalog that has a run behind it to another one. Edits of the texts
leave it where it is. -/
theorem hasRun_apply {comment : Comment} (hasRun : comment.catalog.HasRun) (edit : Edit) :
    (comment.apply edit).catalog.HasRun := by
  cases edit with
  | setSummary summary => exact hasRun
  | setDescription description => exact hasRun
  | appendLine line => exact hasRun
  | insertTag tag => exact hasRun.apply (.insert tag)
  | eraseTag tag =>
    rw [Comment.apply, eraseTag]
    cases comment.catalog.handleOf? tag with
    | none => exact hasRun
    | some handle => exact hasRun.apply (.erase handle)
  | merge tags => exact hasRun.apply (.merge tags)
  | changeCatalog step => exact hasRun.apply step
  | replaceCatalog steps => exact ⟨steps, rfl⟩

/-- The catalog of an edited comment has a run behind it, whatever the edits were. The induction
is on the edits. -/
theorem hasRun_edited (summary : Option Text) (description : Text) (tags : List Tag)
    (edits : List Edit) : (edited summary description tags edits).catalog.HasRun := by
  have kept (comment : Comment) (hasRun : comment.catalog.HasRun) :
      (edits.foldl apply comment).catalog.HasRun := by
    induction edits generalizing comment with
    | nil => exact hasRun
    | cons edit rest inductionHypothesis =>
      exact inductionHypothesis (comment.apply edit) (hasRun_apply hasRun edit)
  exact kept (ofParts summary description tags) ⟨[.insertMany tags], rfl⟩

/-- So it is in step, and its indexes can be trusted. -/
theorem inStep_edited (summary : Option Text) (description : Text) (tags : List Tag)
    (edits : List Edit) : (edited summary description tags edits).catalog.InStep := by
  obtain ⟨steps, reached⟩ := hasRun_edited summary description tags edits
  rw [reached]
  exact Catalog.inStep_after steps

/-! Erasing by value -/

open Catalog (withoutEntry)

/-- An erasure that finds no equal tag changes nothing, and says that it has found none. -/
theorem eraseTag_of_notMem {comment : Comment} {tag : Tag} (absent : tag ∉ comment.tags) :
    comment.eraseTag tag = (false, comment) := by
  rw [eraseTag, Catalog.handleOf?_eq_none_iff.mpr absent]

/-- An erasure that finds equal tags erases the handle of the first. -/
theorem exists_eraseTag_of_mem {comment : Comment} {tag : Tag} (present : tag ∈ comment.tags) :
    ∃ handle before behind, comment.catalog.entries = before ++ (handle, tag) :: behind ∧
      tag ∉ before.map (·.2) ∧
      comment.eraseTag tag = (true, { comment with catalog := comment.catalog.erase handle }) := by
  cases found : comment.catalog.handleOf? tag with
  | none => exact absurd present (Catalog.handleOf?_eq_none_iff.mp found)
  | some handle =>
    obtain ⟨before, behind, cut, first⟩ := Catalog.handleOf?_eq_some_iff.mp found
    exact ⟨handle, before, behind, cut, first, by rw [eraseTag, found]⟩

/-- An erasure by value takes the first equal tag of an edited comment, whatever the edits were.
It tells whether there is one, and without one nothing changes. Otherwise the entry of its handle
is gone from the sequence, from the group of its name and from those of its labels, and no other
entry is; an equal tag behind it stays in all groups that it was in. Summary and description are
kept. -/
theorem eraseTag_takes_first (summary : Option Text) (description : Text) (tags : List Tag)
    (edits : List Edit) (tag : Tag) :
    let comment := edited summary description tags edits
    let found := (comment.eraseTag tag).1
    let rest := (comment.eraseTag tag).2
    (found = true ↔ tag ∈ comment.tags) ∧
    rest.tags = comment.tags.erase tag ∧
    rest.summary = comment.summary ∧ rest.description = comment.description ∧
    (tag ∉ comment.tags → rest = comment) ∧
    (tag ∈ comment.tags → ∃ handle before behind,
      comment.catalog.entries = before ++ (handle, tag) :: behind ∧ tag ∉ before.map (·.2) ∧
      rest.catalog.entries = before ++ behind ∧
      rest.catalog.get? handle = none ∧
      rest.catalog.groupsByName false =
        withoutEntry handle (comment.catalog.groupsByName false) ∧
      rest.catalog.groupsByLabel false =
        withoutEntry handle (comment.catalog.groupsByLabel false) ∧
      ∀ later, (later, tag) ∈ behind →
        (∃ group ∈ rest.catalog.groupsByName false,
          group.1 = tag.aliasedName ∧ (later, tag) ∈ group.2) ∧
        ∀ key, key.files tag → ∃ group ∈ rest.catalog.groupsByLabel false,
          group.1 = key ∧ (later, tag) ∈ group.2) := by
  intro comment found rest
  have inStep : comment.catalog.InStep := inStep_edited summary description tags edits
  by_cases present : tag ∈ comment.tags
  · obtain ⟨handle, before, behind, cut, first, erased⟩ := exists_eraseTag_of_mem present
    have taken : found = true := congrArg Prod.fst erased
    have left : rest = { comment with catalog := comment.catalog.erase handle } :=
      congrArg Prod.snd erased
    have remaining : (comment.catalog.erase handle).entries = before ++ behind :=
      inStep.entries_erase_eq cut
    rw [left]
    refine ⟨by simp [taken, present], inStep.tags_erase_first cut first, rfl, rfl,
      fun absent => absurd present absent,
      fun _ => ⟨handle, before, behind, cut, first, remaining, ?_,
        Catalog.follows_byName.groups_erase inStep handle,
        Catalog.follows_byLabel.groups_erase inStep handle, fun later member => ?_⟩⟩
    · exact (comment.catalog.get?_erase handle handle).trans (if_pos rfl)
    · have stays : (later, tag) ∈ (comment.catalog.erase handle).entries := by
        rw [remaining]
        exact List.mem_append_right before member
      exact (inStep.erase handle).exists_groups stays
  · have missed := eraseTag_of_notMem present
    have untaken : found = false := congrArg Prod.fst missed
    have same : rest = comment := congrArg Prod.snd missed
    rw [same]
    exact ⟨by simp [untaken, present], (List.erase_of_not_mem present).symm, rfl, rfl,
      fun _ => rfl, fun member => absurd member present⟩

/-- Two equal tags are inserted, one of them directly into the catalog. Of their four places in
the groups of labels the two of the first are given up. A tag that differs in its labels alone is
not found. -/
theorem eraseTag_takes_first_labelled :
    let twice := (Catalog.propertyOf .readWrite "int" "x").withLabels [['a'], ['b']]
    let once := Catalog.propertyOf .readOnly "int" "y"
    let comment := edited none [] [once]
      [.insertTag twice, .merge [once], .changeCatalog (.insert twice), .appendLine ['z']]
    let rest := (comment.eraseTag twice).2
    (twice ∈ comment.tags ∧ ∃ handle before behind,
      comment.catalog.entries = before ++ (handle, twice) :: behind ∧
      rest.catalog.entries = before ++ behind ∧
      rest.catalog.groupsByLabel false =
        withoutEntry handle (comment.catalog.groupsByLabel false)) ∧
    ((comment.catalog.groupsByLabel false).map fun group =>
        (group.1.shown, group.2.map (·.1))) = [(['0'], [0]), (['a'], [1, 2]), (['b'], [1, 2])] ∧
    ((rest.catalog.groupsByLabel false).map fun group => (group.1.shown, group.2.map (·.1))) =
      [(['0'], [0]), (['a'], [2]), (['b'], [2])] ∧
    twice.withLabels [] ∉ comment.tags ∧ (comment.eraseTag (twice.withLabels [])).2 = comment := by
  intro twice once comment rest
  have present : twice ∈ comment.tags := by decide
  have absent : twice.withLabels [] ∉ comment.tags := by decide
  obtain ⟨handle, before, behind, cut, -, remaining, -, -, groups, -⟩ :=
    (eraseTag_takes_first _ _ _ _ twice).2.2.2.2.2 present
  have unchanged := (eraseTag_takes_first _ _ _ _ (twice.withLabels [])).2.2.2.2.1 absent
  exact ⟨⟨present, handle, before, behind, cut, remaining, groups⟩, by decide, by decide, absent,
    unchanged⟩

/-! Finding by name -/

/-- A comment and its catalog find tags by name in different ways, the one by their own names in
the sequence, the other by aliased names in an index. After all edits the comment finds those of
the tags in the catalog's answer that bear the name itself, in the same order, and it bears a name
exactly if that leaves any. For a name that no property has both answers are the same. -/
theorem tagsNamed_agrees (summary : Option Text) (description : Text) (tags : List Tag)
    (edits : List Edit) (name : Text) :
    let comment := edited summary description tags edits
    let filed := (comment.catalog.named name).map (·.2)
    comment.tagsNamed name = (filed.filter fun tag => tag.name.text = name) ∧
    (comment.bears name = true ↔ comment.tagsNamed name ≠ []) ∧
    ((∀ access : Tag.Access, name ≠ access.tagName.text) → comment.tagsNamed name = filed) := by
  intro comment filed
  have inStep : comment.catalog.InStep := inStep_edited summary description tags edits
  have scanned : filed = comment.tags.filter fun tag =>
      tag.aliasedName = TagName.aliased name := by
    change (comment.catalog.resolve (comment.catalog.byName.handles _)).map _ = _
    rw [inStep.named, Catalog.resolve_scan, Comment.tags, Catalog.tags, List.filter_map]
    rfl
  have byName : comment.tagsNamed name = comment.tags.filter fun tag => tag.name.text = name := by
    refine List.filter_congr fun tag _ => ?_
    rw [Bool.eq_iff_iff, beq_iff_eq, decide_eq_true_iff]
  refine ⟨?_, ?_, fun plain => ?_⟩
  · rw [byName, scanned, List.filter_filter]
    refine List.filter_congr fun tag _ => ?_
    by_cases own : tag.name.text = name
    · simp [own, Tag.aliasedName]
    · simp [own]
  · simp [bears, tagsNamed, List.filter_eq_nil_iff]
  · rw [byName, scanned]
    refine List.filter_congr fun tag _ => decide_eq_decide.mpr ?_
    exact (TagName.aliased_eq_aliased_iff plain).symm

/-- A comment whose first catalog was replaced. Its variable is found alike by both; of its two
properties that are filed under one name the comment finds by each name one. -/
theorem tagsNamed_agrees_replaced :
    let comment := edited none [] [Catalog.variableOf "int" none]
      [.replaceCatalog [.insert (Catalog.propertyOf .readOnly "int" "x"),
        .insert (Catalog.variableOf "int" (some "y")), .insert (Catalog.variableOf "int" none)],
        .eraseTag (Catalog.variableOf "int" none),
        .insertTag (Catalog.propertyOf .readWrite "int" "z")]
    ((∀ access : Tag.Access, "var".toList ≠ access.tagName.text) ∧
      comment.tagsNamed "var".toList = (comment.catalog.named "var".toList).map (·.2)) ∧
    (comment.catalog.named "var".toList).map (·.1) = [1] ∧
    comment.tagsNamed "property".toList = [Catalog.propertyOf .readWrite "int" "z"] ∧
    (comment.catalog.named "property".toList).map (·.1) = [0, 3] := by
  intro comment
  have plain : ∀ access : Tag.Access, "var".toList ≠ access.tagName.text := by
    intro access
    cases access <;> decide
  exact ⟨⟨plain, (tagsNamed_agrees _ _ _ _ "var".toList).2.2 plain⟩, by decide, by decide,
    by decide⟩

end Comment

end DocComment
