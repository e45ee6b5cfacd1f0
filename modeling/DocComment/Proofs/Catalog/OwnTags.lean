import DocComment.Proofs.Catalog.Remerging
import Mathlib.Data.List.Perm.Subperm

/-!
# Merging a catalog into itself

A tag of a catalog matches itself, so at least its own entry is alike to it. If no other entry is,
a merge finds that entry there and the two do not conflict; otherwise the tag is ambiguous. A tag
of the catalog is therefore never inserted again and never in conflict with what is there, and a
merge of such tags leaves the catalog as it is.

The main statement says what becomes of a merge of all tags of a catalog: it completes exactly
when different entries never match, and it is refused at the first tag that matches the tag of
another entry.
-/
namespace DocComment.Catalog

/-- The entries of a tag that the catalog has are alike to it, as every tag matches itself. -/
theorem exists_mem_alike {catalog : Catalog} {tag : Tag} (own : tag ∈ catalog.tags) :
    ∃ entry ∈ catalog.alike tag, entry.2 = tag := by
  obtain ⟨entry, member, rfl⟩ := List.mem_map.mp own
  exact ⟨entry, List.mem_filter.mpr ⟨member, entry.2.isMatch_self⟩, rfl⟩

/-- A catalog that is offered one of its own tags leaves it out, unless it is ambiguous. It
cannot conflict, for the one entry alike to it is its own. -/
theorem InStep.offer_own {catalog : Catalog} (inStep : catalog.InStep) {tag : Tag}
    (own : tag ∈ catalog.tags) :
    catalog.offer tag =
      if 2 ≤ (catalog.alike tag).length then
        .error (.ambiguous tag.name.text (catalog.alike tag).length)
      else .ok (catalog, none) := by
  by_cases several : 2 ≤ (catalog.alike tag).length
  · rw [if_pos several]
    exact inStep.offer_eq_error_iff.mpr (.ambiguous several)
  · rw [if_neg several]
    obtain ⟨entry, member, same⟩ := exists_mem_alike own
    have one : (catalog.alike tag).length = 1 := by
      have some : 0 < (catalog.alike tag).length := List.length_pos_of_mem member
      omega
    obtain ⟨only, alone⟩ := List.length_eq_one_iff.mp one
    have itself : entry = only := by simpa [alone] using member
    have harmless : only.2.conflict? tag = none := by
      rw [← itself, same]
      exact tag.conflict?_self
    exact inStep.offer_eq_ok_iff.mpr (.inr ⟨only, alone, harmless, rfl, rfl⟩)

/-- A merge of tags that the catalog has leaves it as it is. It is refused at the first tag that
is ambiguous there, and leaves all out if there is none. -/
theorem InStep.merge_own {catalog : Catalog} (inStep : catalog.InStep) {tags : List Tag}
    (own : ∀ tag ∈ tags, tag ∈ catalog.tags) :
    catalog.merge tags = (catalog,
      (tags.find? fun tag => 2 ≤ (catalog.alike tag).length).elim (.ok ⟨[], tags.length⟩)
        fun tag => .error (.ambiguous tag.name.text (catalog.alike tag).length)) := by
  induction tags with
  | nil => rfl
  | cons tag rest inductionHypothesis =>
    obtain ⟨ownFirst, ownRest⟩ := List.forall_mem_cons.mp own
    have offered := inStep.offer_own ownFirst
    by_cases several : 2 ≤ (catalog.alike tag).length
    · rw [if_pos several] at offered
      rw [List.find?_cons_of_pos (by simpa using several)]
      exact merge_cons_eq_error_iff.mpr (.inl ⟨offered, rfl⟩)
    · rw [if_neg several] at offered
      rw [List.find?_cons_of_neg (by simpa using several), Catalog.merge, offered]
      simp only [inductionHypothesis ownRest]
      cases rest.find? fun tag => 2 ≤ (catalog.alike tag).length with
      | none => rfl
      | some ambiguous => rfl

/-- No tag of a catalog is ambiguous there exactly when different entries never match. Entries
are different by their handles, even if they have equal tags. -/
theorem InStep.find?_ambiguous_eq_none_iff {catalog : Catalog} (inStep : catalog.InStep) :
    (catalog.tags.find? fun tag => 2 ≤ (catalog.alike tag).length) = none ↔
      ∀ one ∈ catalog.entries, ∀ other ∈ catalog.entries, one.2.isMatch other.2 → one = other := by
  simp only [List.find?_eq_none, tags, List.forall_mem_map, decide_eq_true_eq, Nat.not_le]
  constructor
  · intro few one member other also isMatch
    have found : one ∈ catalog.alike other.2 := List.mem_filter.mpr ⟨member, isMatch⟩
    have foundItself : other ∈ catalog.alike other.2 :=
      List.mem_filter.mpr ⟨also, other.2.isMatch_self⟩
    have single : (catalog.alike other.2).length = 1 := by
      have some := List.length_pos_of_mem found
      have atMost := few other also
      omega
    obtain ⟨only, alone⟩ := List.length_eq_one_iff.mp single
    rw [alone, List.mem_singleton] at found foundItself
    rw [found, foundItself]
  · intro apart entry member
    have once : (catalog.alike entry.2).Nodup := inStep.nodup_entries.sublist List.filter_sublist
    have itself : ∀ other ∈ catalog.alike entry.2, other = entry := by
      intro other found
      obtain ⟨also, isMatch⟩ := List.mem_filter.mp found
      exact apart other also entry member isMatch
    have part : (catalog.alike entry.2).Subperm [entry] := by
      refine once.subperm fun other found => ?_
      rw [itself other found]
      exact List.mem_singleton_self entry
    exact Nat.lt_succ_of_le part.length_le

/-- A catalog that its own tags are merged into stays as it is, after every run. The merge
completes exactly when different entries never match; it inserts nothing then and finds all tags
present. Otherwise it is refused as ambiguous at the first tag that several entries match, its own
among them, and reports how many these are. -/
theorem merge_own_tags (steps : List Step) :
    let catalog := after steps
    (catalog.merge catalog.tags).1 = catalog ∧
    ((catalog.merge catalog.tags).2 = .ok ⟨[], catalog.size⟩ ↔
      ∀ one ∈ catalog.entries, ∀ other ∈ catalog.entries, one.2.isMatch other.2 → one = other) ∧
    (catalog.merge catalog.tags).2 =
      (catalog.tags.find? fun tag => 2 ≤ (catalog.alike tag).length).elim
        (.ok ⟨[], catalog.size⟩)
        fun tag => .error (.ambiguous tag.name.text (catalog.alike tag).length) := by
  intro catalog
  have inStep : catalog.InStep := inStep_after steps
  have merged := inStep.merge_own fun tag (own : tag ∈ catalog.tags) => own
  have counted : catalog.tags.length = catalog.size := by
    rw [inStep.size_eq, tags, List.length_map]
  rw [counted] at merged
  refine ⟨congrArg Prod.fst merged, ?_, congrArg Prod.snd merged⟩
  rw [← inStep.find?_ambiguous_eq_none_iff, merged]
  cases catalog.tags.find? fun tag => 2 ≤ (catalog.alike tag).length with
  | none => simp
  | some ambiguous => simp

/-- The unnamed variable is alike to three entries, but the first named one, to which two are, is
refused before it. -/
example :
    let catalog := after [.insert (variableOf "int" (some "a")), .insert (variableOf "int" none),
      .insert (variableOf "int" (some "b"))]
    (catalog.merge catalog.tags).2 = .error (.ambiguous "var".toList 2) := by decide

end DocComment.Catalog
