import DocComment.Catalog.Merging
import DocComment.Proofs.Catalog.Filing
import Mathlib.Data.List.Basic

/-!
# Runs of a catalog

A catalog changes in four ways: a tag is inserted, several are, one is erased, or tags are
merged in. A run is any sequence of such changes from the empty catalog; a merge that is
refused half way is a change too, and so is an erasure that finds nothing.

The handles that a scan of the sequence finds are the measure for both indexes. The main
statement is that slots, sequence and indexes agree after every run. One step is enough:
insertion adds the newest handle to each scan that asks for the new tag, and erasure takes
one handle from all scans, whatever buckets open, close or move.
-/
namespace DocComment

namespace LabelKey

/-- What comes first among the elements that a condition selects comes first among all. The
elements left out may stand anywhere. -/
theorem idxOf_lt_of_filter {α : Type} [DecidableEq α] {elements : List α} {selects : α → Bool}
    {one other : α} (selected : selects one) (also : selects other)
    (earlier : (elements.filter selects).idxOf one < (elements.filter selects).idxOf other) :
    elements.idxOf one < elements.idxOf other := by
  induction elements with
  | nil => simp at earlier
  | cons first rest inductionHypothesis =>
    by_cases isOne : first = one
    · subst one
      have different : first ≠ other := by
        rintro rfl
        exact Nat.lt_irrefl _ earlier
      simp [List.idxOf_cons_ne _ different]
    · by_cases isOther : first = other
      · subst other
        simp [also] at earlier
      · rw [List.idxOf_cons_ne _ isOne, List.idxOf_cons_ne _ isOther]
        refine Nat.succ_lt_succ (inductionHypothesis ?_)
        cases kept : selects first <;>
          simpa [kept, List.idxOf_cons_ne _ isOne, List.idxOf_cons_ne _ isOther] using earlier

/-- Erasing repetitions leaves the elements in the order in which they first occur. -/
theorem pairwise_eraseDups {α : Type} [DecidableEq α] (elements : List α) :
    elements.eraseDups.Pairwise fun one other => elements.idxOf one < elements.idxOf other := by
  match elements with
  | [] => simp
  | first :: rest =>
    have others : ∀ other ∈ (rest.filter fun other => !other == first).eraseDups,
        other ≠ first := by
      intro other member
      rw [List.mem_eraseDups, List.mem_filter] at member
      simpa using member.2
    rw [List.eraseDups_cons, List.pairwise_cons]
    constructor
    · intro other member
      simp [(others other member).symm]
    · refine (pairwise_eraseDups _).imp_of_mem ?_
      intro one other hasOne hasOther earlier
      have differs := others one hasOne
      have alsoDiffers := others other hasOther
      have inRest : rest.idxOf one < rest.idxOf other :=
        idxOf_lt_of_filter (by simpa using differs) (by simpa using alsoDiffers) earlier
      simpa [List.idxOf_cons_ne _ differs.symm, List.idxOf_cons_ne _ alsoDiffers.symm] using inRest
termination_by elements.length
decreasing_by simpa using Nat.lt_succ_of_le (List.length_filter_le _ _)

/-- Erasing repetitions leaves no element twice; each that occurs is kept once. -/
theorem nodup_eraseDups {α : Type} [DecidableEq α] (elements : List α) :
    elements.eraseDups.Nodup := by
  refine (pairwise_eraseDups elements).imp ?_
  rintro one other earlier rfl
  exact Nat.lt_irrefl _ earlier

/-- The keys of a tag are distinct, also where a label is repeated or two labels have one key. -/
theorem nodup_ofTag (tag : Tag) : (ofTag tag).Nodup := by
  rw [ofTag]
  split
  · simp
  · exact nodup_eraseDups _

/-- A tag is filed under the key of a label when it bears a label of that key, or has no label
and the key stands for having none. -/
theorem mem_ofTag (tag : Tag) (key : LabelKey) :
    key ∈ ofTag tag ↔
      (∃ label ∈ tag.labels, ofLabel label = key) ∨ (tag.labels = [] ∧ key = unlabelled) := by
  rw [ofTag]
  split
  · rename_i bare
    simp [bare]
  · rename_i labelled
    simp [labelled, List.mem_eraseDups]

end LabelKey

namespace Catalog

/-- One change of a catalog. Every way in which tags come into a catalog or leave it is one of
these. -/
inductive Step
  | insert (tag : Tag)
  | insertMany (tags : List Tag)
  | erase (handle : Handle)
  | merge (tags : List Tag)

/-- The catalog after one change. A merge that is refused counts with what it inserted before the
refusal. -/
def apply (catalog : Catalog) : Step → Catalog
  | .insert tag => catalog.insert tag
  | .insertMany tags => catalog.insertMany tags
  | .erase handle => catalog.erase handle
  | .merge tags => (catalog.merge tags).1

/-- The catalog after a run, which starts from the empty one. -/
def after (steps : List Step) : Catalog := steps.foldl apply empty

/-- The handles of the live tags that fulfil a condition, found by going through the whole
sequence. This is what the indexes are to save. -/
def scan (catalog : Catalog) (holds : Tag → Bool) : List Handle :=
  catalog.order.filter fun handle => (catalog.get? handle).any holds

/-- Slots, sequence and indexes agree: the sequence is that of the live handles, and each index
files under a key what a scan for that key finds. -/
structure InStep (catalog : Catalog) : Prop where
  ascending : catalog.order.Pairwise (· < ·)
  live : ∀ handle, handle ∈ catalog.order ↔ (catalog.get? handle).isSome
  named : ∀ key, catalog.byName.handles key = catalog.scan fun tag => tag.aliasedName = key
  labelled : ∀ key,
    catalog.byLabel.handles key = catalog.scan fun tag => key ∈ LabelKey.ofTag tag

/-- Only the next handle gets a new tag by an insertion. All others, free ones included, stay as
they are. -/
theorem get?_insert (catalog : Catalog) (tag : Tag) (handle : Handle) :
    (catalog.insert tag).get? handle =
      if handle = catalog.next then some tag else catalog.get? handle := by
  have newest : catalog.next = catalog.slots.length := rfl
  by_cases same : handle = catalog.next
  · rw [if_pos same, same, newest]
    simp [get?, insert]
  · rw [if_neg same]
    simp only [get?, insert, List.getElem?_append]
    by_cases inside : handle < catalog.slots.length
    · rw [if_pos inside]
    · have behind : catalog.slots.length < handle :=
        Nat.lt_of_le_of_ne (Nat.le_of_not_lt inside) fun equal => same (newest ▸ equal.symm)
      have beyond : 1 ≤ handle - catalog.slots.length := Nat.sub_pos_of_lt behind
      rw [if_neg inside, List.getElem?_eq_none (l := [some tag]) beyond,
        List.getElem?_eq_none (l := catalog.slots) (Nat.le_of_not_lt inside)]

/-- Only the erased handle loses its tag, if it has one to lose. -/
theorem get?_erase (catalog : Catalog) (erased handle : Handle) :
    (catalog.erase erased).get? handle =
      if handle = erased then none else catalog.get? handle := by
  rw [erase]
  split
  · rename_i stale
    by_cases same : handle = erased
    · rw [if_pos same, same, stale]
    · rw [if_neg same]
  · by_cases same : handle = erased
    · subst handle
      simp only [get?, List.getElem?_set_self', if_true]
      cases catalog.slots[erased]? <;> rfl
    · have apart : erased ≠ handle := fun equal => same equal.symm
      simp only [get?, List.getElem?_set_ne apart, if_neg same]

/-- A handle with a tag numbers a slot, so it precedes the next one. -/
theorem lt_next (catalog : Catalog) {handle : Handle} (live : (catalog.get? handle).isSome) :
    handle < catalog.next := by
  refine Nat.lt_of_not_le fun beyond => ?_
  have missing : catalog.slots[handle]? = none :=
    List.getElem?_eq_none beyond
  simp [get?, missing] at live

/-- The handles of the live tags stand in the sequence; a scan finds those that fulfil its
condition and no others. -/
theorem InStep.mem_scan {catalog : Catalog} (inStep : catalog.InStep) (holds : Tag → Bool)
    (handle : Handle) :
    handle ∈ catalog.scan holds ↔ ∃ tag, catalog.get? handle = some tag ∧ holds tag := by
  simp only [scan, List.mem_filter, inStep.live, Option.any_eq_true, Option.isSome_iff_exists]
  constructor
  · exact And.right
  · rintro ⟨tag, found, fulfilled⟩
    exact ⟨⟨tag, found⟩, tag, found, fulfilled⟩

/-- An insertion leaves the tags of the sequence as they are, since none of their handles is the
next one. -/
theorem InStep.get?_insert_of_mem {catalog : Catalog} (inStep : catalog.InStep) (tag : Tag)
    {handle : Handle} (member : handle ∈ catalog.order) :
    (catalog.insert tag).get? handle = catalog.get? handle := by
  have before : handle < catalog.next := catalog.lt_next ((inStep.live handle).mp member)
  rw [get?_insert, if_neg (Nat.ne_of_lt before)]

/-- The next handle gets the new tag, whatever the catalog. -/
theorem get?_insert_next (catalog : Catalog) (tag : Tag) :
    (catalog.insert tag).get? catalog.next = some tag := by
  rw [get?_insert, if_pos rfl]

/-- A scan after an insertion finds what it found before, and behind that the new tag if it
fulfils the condition. -/
theorem InStep.scan_insert {catalog : Catalog} (inStep : catalog.InStep) (tag : Tag)
    (holds : Tag → Bool) :
    (catalog.insert tag).scan holds =
      catalog.scan holds ++ if holds tag then [catalog.next] else [] := by
  change (catalog.order ++ [catalog.next]).filter _ = _
  rw [List.filter_append]
  congr 1
  · apply List.filter_congr
    intro handle member
    rw [inStep.get?_insert_of_mem tag member]
  · simp only [List.filter_cons, get?_insert_next, Option.any_some, List.filter_nil]

/-- The sequence after an erasure misses the erased handle. For a handle without a tag it misses
nothing. -/
theorem InStep.order_erase {catalog : Catalog} (inStep : catalog.InStep) (erased : Handle) :
    (catalog.erase erased).order = catalog.order.filter (· ≠ erased) := by
  rw [erase]
  split
  · rename_i stale
    refine (List.filter_eq_self.mpr ?_).symm
    intro handle member
    have live := (inStep.live handle).mp member
    have different : handle ≠ erased := by
      rintro rfl
      simp [stale] at live
    simpa using different
  · rfl

/-- A scan after an erasure misses the erased handle, and moves none of the others. -/
theorem InStep.scan_erase {catalog : Catalog} (inStep : catalog.InStep) (erased : Handle)
    (holds : Tag → Bool) :
    (catalog.erase erased).scan holds = (catalog.scan holds).filter (· ≠ erased) := by
  simp only [scan, inStep.order_erase erased, List.filter_filter]
  apply List.filter_congr
  intro handle _
  by_cases same : handle = erased
  · simp [same, get?_erase]
  · simp [same, get?_erase]

/-- The empty catalog is in step: it has no handles to disagree about. -/
theorem inStep_empty : empty.InStep where
  ascending := List.Pairwise.nil
  live := by simp [empty, get?]
  named := by simp [empty, scan, Index.handles, Index.empty]
  labelled := by simp [empty, scan, Index.handles, Index.empty]

/-- An insertion keeps a catalog in step: sequence and indexes get the new handle at their ends,
as does every scan that finds it. -/
theorem InStep.insert {catalog : Catalog} (inStep : catalog.InStep) (tag : Tag) :
    (catalog.insert tag).InStep where
  ascending := by
    refine List.pairwise_append.mpr ⟨inStep.ascending, List.pairwise_singleton _ _, ?_⟩
    intro earlier member newest only
    rw [List.mem_singleton.mp only]
    exact catalog.lt_next ((inStep.live earlier).mp member)
  live := by
    intro handle
    rw [get?_insert]
    change handle ∈ catalog.order ++ [catalog.next] ↔ _
    by_cases newest : handle = catalog.next
    · simp [newest]
    · simp [newest, inStep.live]
  named := by
    intro key
    rw [inStep.scan_insert]
    change (catalog.byName.file tag.aliasedName catalog.next).handles key = _
    rw [Index.handles_file, inStep.named]
    by_cases same : key = tag.aliasedName
    · simp [same]
    · have apart : tag.aliasedName ≠ key := fun equal => same equal.symm
      simp [same, apart, inStep.named]
  labelled := by
    intro key
    rw [inStep.scan_insert]
    change ((LabelKey.ofTag tag).foldl (fun index key => index.file key catalog.next)
      catalog.byLabel).handles key = _
    rw [Index.handles_foldl_file _ _ _ (LabelKey.nodup_ofTag tag), inStep.labelled]
    by_cases bears : key ∈ LabelKey.ofTag tag
    · simp [bears]
    · simp [bears]

/-- A handle is in no scan for a condition that its tag fails, so taking it out changes
nothing. -/
theorem InStep.filter_scan_eq {catalog : Catalog} (inStep : catalog.InStep) {holds : Tag → Bool}
    {erased : Handle} (fails : ∀ tag, catalog.get? erased = some tag → holds tag = false) :
    (catalog.scan holds).filter (· ≠ erased) = catalog.scan holds := by
  refine List.filter_eq_self.mpr ?_
  intro handle member
  have different : handle ≠ erased := by
    rintro rfl
    obtain ⟨tag, found, fulfilled⟩ := (inStep.mem_scan holds handle).mp member
    simp [fails tag found] at fulfilled
  simpa using different

/-- An erasure keeps a catalog in step. The handle is struck from the buckets of its own keys
only, which is enough, since no other bucket has it. -/
theorem InStep.erase {catalog : Catalog} (inStep : catalog.InStep) (erased : Handle) :
    (catalog.erase erased).InStep := by
  refine ⟨?_, ?_, ?_, ?_⟩
  · rw [inStep.order_erase]
    exact inStep.ascending.filter _
  · intro handle
    rw [inStep.order_erase, get?_erase, List.mem_filter, inStep.live]
    by_cases same : handle = erased <;> simp [same]
  · intro key
    rw [inStep.scan_erase]
    cases found : catalog.get? erased with
    | none =>
      have unchanged : catalog.erase erased = catalog := by simp only [Catalog.erase, found]
      rw [unchanged, inStep.named, inStep.filter_scan_eq]
      simp [found]
    | some tag =>
      have struck : (catalog.erase erased).byName =
          catalog.byName.strike tag.aliasedName erased := by simp only [Catalog.erase, found]
      rw [struck, Index.handles_strike]
      by_cases same : key = tag.aliasedName
      · rw [if_pos same, inStep.named, same]
      · rw [if_neg same, inStep.named, inStep.filter_scan_eq]
        intro other also
        obtain rfl := Option.some.inj (found.symm.trans also)
        simpa using fun equal => same equal.symm
  · intro key
    rw [inStep.scan_erase]
    cases found : catalog.get? erased with
    | none =>
      have unchanged : catalog.erase erased = catalog := by simp only [Catalog.erase, found]
      rw [unchanged, inStep.labelled, inStep.filter_scan_eq]
      simp [found]
    | some tag =>
      have struck : (catalog.erase erased).byLabel = (LabelKey.ofTag tag).foldl
          (fun index key => index.strike key erased) catalog.byLabel := by
        simp only [Catalog.erase, found]
      rw [struck, Index.handles_foldl_strike, inStep.labelled]
      by_cases bears : key ∈ LabelKey.ofTag tag
      · rw [if_pos bears]
      · rw [if_neg bears, inStep.filter_scan_eq]
        intro other also
        obtain rfl := Option.some.inj (found.symm.trans also)
        simpa using bears

/-- Inserting several tags keeps a catalog in step. The induction is on the tags. -/
theorem InStep.insertMany {catalog : Catalog} (inStep : catalog.InStep) (tags : List Tag) :
    (catalog.insertMany tags).InStep := by
  induction tags generalizing catalog with
  | nil => exact inStep
  | cons tag rest inductionHypothesis => exact inductionHypothesis (inStep.insert tag)

/-- An accepted tag leaves the catalog as it was or inserts the tag. So whatever holds through
insertions holds through merges. -/
theorem catalog_of_offer {catalog next : Catalog} {tag : Tag} {inserted : Option Handle}
    (accepted : catalog.offer tag = .ok (next, inserted)) :
    next = catalog ∨ next = catalog.insert tag := by
  unfold offer at accepted
  split at accepted
  · cases accepted
    exact Or.inr rfl
  · split at accepted
    · cases accepted
      exact Or.inl rfl
    · contradiction
  · contradiction

/-- A merge keeps a catalog in step, wherever it stops. -/
theorem InStep.merge {catalog : Catalog} (inStep : catalog.InStep) (tags : List Tag) :
    (catalog.merge tags).1.InStep := by
  induction tags generalizing catalog with
  | nil => exact inStep
  | cons tag rest inductionHypothesis =>
    simp only [Catalog.merge]
    split
    · exact inStep
    · rename_i next inserted accepted
      rcases catalog_of_offer accepted with rfl | rfl
      · exact inductionHypothesis inStep
      · exact inductionHypothesis (inStep.insert tag)

/-- Every change keeps a catalog in step, with one case for each kind of change. -/
theorem InStep.apply {catalog : Catalog} (inStep : catalog.InStep) (step : Step) :
    (catalog.apply step).InStep := by
  cases step with
  | insert tag => exact inStep.insert tag
  | insertMany tags => exact inStep.insertMany tags
  | erase handle => exact inStep.erase handle
  | merge tags => exact inStep.merge tags

/-- After every run the catalog is in step. The induction goes along the run. -/
theorem inStep_after (steps : List Step) : (after steps).InStep := by
  have kept (catalog : Catalog) (inStep : catalog.InStep) :
      (steps.foldl Catalog.apply catalog).InStep := by
    induction steps generalizing catalog with
    | nil => exact inStep
    | cons step rest inductionHypothesis =>
      exact inductionHypothesis (catalog.apply step) (inStep.apply step)
  exact kept empty inStep_empty

end DocComment.Catalog
