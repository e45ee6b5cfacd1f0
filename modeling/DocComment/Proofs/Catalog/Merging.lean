import DocComment.Proofs.Catalog.Lookup

/-!
# Merging tag by tag

A merge offers its tags one after another to the catalog as it stands by then. What is
made of a tag depends on the entries alike to it: a tag without any is inserted, a tag
with one is left out unless both are properties of different types, and a tag with
several is refused. So a merge inserts some of its tags, in their order, behind the
sequence, and it stops at the first tag that is refused without a trace of that tag or
of those behind it.

The main statement says that a merge of two lists is the merge of the one followed by
that of the other, what a completed merge did to the sequence, and when and why a merge
is refused.
-/
namespace DocComment

/-- Two reports, the later one behind the earlier one: the handles in a row, the tags present in
a sum. -/
def MergeReport.followedBy (earlier later : MergeReport) : MergeReport :=
  ⟨earlier.added ++ later.added, earlier.present + later.present⟩

/-- Reports follow one another in the order of their tags, so a tag in front of both is in front
of the earlier one. -/
theorem MergeReport.followedBy_precededBy (earlier later : MergeReport)
    (given : Option Handle) :
    (earlier.followedBy later).precededBy given =
      (earlier.precededBy given).followedBy later := by
  cases given with
  | none => simp [precededBy, followedBy, Nat.add_right_comm]
  | some handle => rfl

/-- Types are equal when they are written alike. That their texts are trimmed is no part of the
comparison. -/
theorem TypeExpr.eq_iff_text {left right : TypeExpr} : left = right ↔ left.text = right.text := by
  cases left
  cases right
  simp

/-- A conflict is one between two properties whose types are written differently. It names the
incoming property and both types, the existing one first. -/
theorem Tag.conflict?_eq_some_iff {existing incoming : Tag} {conflict : MergeError} :
    existing.conflict? incoming = some conflict ↔
      ∃ had given, existing.property? = some had ∧ incoming.property? = some given ∧
        had.type.text ≠ given.type.text ∧
        conflict = .conflictingTypes given.name had.type.text given.type.text := by
  unfold Tag.conflict?
  split
  · rename_i had given existed came
    simp only [existed, came, Option.some.injEq, exists_and_left, exists_eq_left', ne_eq,
      ← TypeExpr.eq_iff_text]
    by_cases same : had.type = given.type
    · simp [same]
    · simp [same, eq_comm]
  · rename_i apart
    constructor
    · intro impossible
      contradiction
    · rintro ⟨had, given, existed, came, -⟩
      exact absurd came (apart had given existed)

namespace Catalog

/-- The entries of the whole sequence that describe the same thing as a tag. -/
def alike (catalog : Catalog) (tag : Tag) : List Entry :=
  catalog.entries.filter fun entry => entry.2.isMatch tag

/-- Nothing is alike to a tag that no tag of the sequence matches. -/
theorem alike_eq_nil_iff {catalog : Catalog} {tag : Tag} :
    catalog.alike tag = [] ↔ ∀ other ∈ catalog.tags, ¬ other.isMatch tag := by
  rw [alike, List.filter_eq_nil_iff, tags, List.forall_mem_map]

/-- An inserted tag is alike to the tags that it matches and to no others. It stands last among
what is alike to them. -/
theorem InStep.alike_insert {catalog : Catalog} (inStep : catalog.InStep) (tag other : Tag) :
    (catalog.insert tag).alike other =
      catalog.alike other ++ if tag.isMatch other then [(catalog.next, tag)] else [] := by
  rw [alike, inStep.entries_insert, List.filter_append, ← alike, List.filter_singleton]
  cases tag.isMatch other <;> rfl

/-- Why a catalog refuses a tag: several entries are alike to it, or the only one is a property
of another type. -/
inductive Refuses (catalog : Catalog) (tag : Tag) : MergeError → Prop
  | ambiguous (several : 2 ≤ (catalog.alike tag).length) :
      Refuses catalog tag (.ambiguous tag.name.text (catalog.alike tag).length)
  | conflicting {entry : Entry} {had given : Tag.Property} (only : catalog.alike tag = [entry])
      (existing : entry.2.property? = some had) (incoming : tag.property? = some given)
      (different : had.type.text ≠ given.type.text) :
      Refuses catalog tag (.conflictingTypes given.name had.type.text given.type.text)

/-- The bucket of a tag's name has the handles of all entries alike to it. -/
theorem InStep.matchingHandles_eq {catalog : Catalog} (inStep : catalog.InStep) (tag : Tag) :
    catalog.matchingHandles tag = (catalog.alike tag).map (·.1) := by
  rw [inStep.matchingHandles_eq_scan]
  exact (inStep.map_fst_filter fun existing => existing.isMatch tag).symm

/-- What is made of an incoming tag depends on the entries alike to it: on whether there is none,
one or more, and on the type of a single one. -/
theorem InStep.offer_eq {catalog : Catalog} (inStep : catalog.InStep) (tag : Tag) :
    catalog.offer tag =
      match catalog.alike tag with
      | [] => .ok (catalog.insert tag, some catalog.next)
      | [entry] =>
        match entry.2.conflict? tag with
        | none => .ok (catalog, none)
        | some conflict => .error conflict
      | several => .error (.ambiguous tag.name.text several.length) := by
  rw [offer, inStep.matchingHandles_eq]
  match found : catalog.alike tag with
  | [] => rfl
  | [entry] =>
    have member : entry ∈ catalog.entries := by
      have listed : entry ∈ catalog.alike tag := by simp [found]
      exact List.mem_of_mem_filter listed
    have stored : catalog.get? entry.1 = some entry.2 :=
      (inStep.mem_entries entry.1 entry.2).mp member
    cases conflict : entry.2.conflict? tag <;> simp [stored, conflict]
  | first :: second :: others => simp

/-- A tag is accepted in two cases: nothing is alike to it and it is inserted, or one entry is,
they do not conflict, and nothing changes. -/
theorem InStep.offer_eq_ok_iff {catalog reached : Catalog} (inStep : catalog.InStep) {tag : Tag}
    {given : Option Handle} :
    catalog.offer tag = .ok (reached, given) ↔
      (catalog.alike tag = [] ∧ reached = catalog.insert tag ∧ given = some catalog.next) ∨
        (∃ entry, catalog.alike tag = [entry] ∧ entry.2.conflict? tag = none ∧
          reached = catalog ∧ given = none) := by
  rw [inStep.offer_eq]
  match catalog.alike tag with
  | [] => simp [eq_comm]
  | [entry] => cases conflict : entry.2.conflict? tag <;> simp [conflict, eq_comm]
  | first :: second :: others => simp

/-- An accepted tag leaves a catalog in step. -/
theorem InStep.of_offer {catalog reached : Catalog} (inStep : catalog.InStep) {tag : Tag}
    {given : Option Handle} (accepted : catalog.offer tag = .ok (reached, given)) :
    reached.InStep := by
  rcases catalog_of_offer accepted with rfl | rfl
  · exact inStep
  · exact inStep.insert tag

/-- An accepted tag does not change what is alike to a tag that it does not match. -/
theorem InStep.alike_of_offer {catalog reached : Catalog} (inStep : catalog.InStep)
    {tag other : Tag} (apart : ¬ tag.isMatch other) {given : Option Handle}
    (accepted : catalog.offer tag = .ok (reached, given)) :
    reached.alike other = catalog.alike other := by
  rcases inStep.offer_eq_ok_iff.mp accepted with ⟨-, rfl, -⟩ | ⟨-, -, -, rfl, -⟩
  · rw [inStep.alike_insert, if_neg apart, List.append_nil]
  · rfl

/-- A tag is refused for the reasons that a catalog has to refuse it, and for no others. The
error says which reason it is. -/
theorem InStep.offer_eq_error_iff {catalog : Catalog} (inStep : catalog.InStep) {tag : Tag}
    {refusal : MergeError} :
    catalog.offer tag = .error refusal ↔ catalog.Refuses tag refusal := by
  rw [inStep.offer_eq]
  constructor
  · intro refused
    match found : catalog.alike tag with
    | [] => simp [found] at refused
    | [entry] =>
      cases conflict : entry.2.conflict? tag with
      | none => simp [found, conflict] at refused
      | some fault =>
        obtain rfl : fault = refusal := by simpa [found, conflict] using refused
        obtain ⟨had, given, existing, incoming, different, rfl⟩ :=
          Tag.conflict?_eq_some_iff.mp conflict
        exact .conflicting found existing incoming different
    | first :: second :: others =>
      have several : 2 ≤ (catalog.alike tag).length := by simp [found]
      obtain rfl : MergeError.ambiguous tag.name.text (catalog.alike tag).length = refusal := by
        simpa [found] using refused
      exact .ambiguous several
  · intro refused
    cases refused with
    | ambiguous several =>
      match found : catalog.alike tag with
      | [] => simp [found] at several
      | [entry] => simp [found] at several
      | first :: second :: others => rfl
    | conflicting only existing incoming different =>
      have conflict := Tag.conflict?_eq_some_iff.mpr
        ⟨_, _, existing, incoming, different, rfl⟩
      simp only [only, conflict]

/-- A merge completes when its first tag is accepted and the merge of the others, from there on,
completes. -/
theorem merge_cons_eq_ok_iff {catalog final : Catalog} {tag : Tag} {rest : List Tag}
    {report : MergeReport} :
    catalog.merge (tag :: rest) = (final, .ok report) ↔
      ∃ reached given later, catalog.offer tag = .ok (reached, given) ∧
        reached.merge rest = (final, .ok later) ∧ report = later.precededBy given := by
  rw [merge]
  cases catalog.offer tag with
  | error refusal => simp
  | ok accepted =>
    obtain ⟨reached, given⟩ := accepted
    cases merged : reached.merge rest with
    | mk stopped outcome => cases outcome <;> simp [merged, Except.map, eq_comm]

/-- What every accepted tag leaves true is true after a merge, wherever it stops. Nothing need be
known of refused tags, since they change nothing. -/
theorem merge_invariant (holds : Catalog → Prop) (tags : List Tag)
    (kept : ∀ tag ∈ tags, ∀ before reached given,
      holds before → before.offer tag = .ok (reached, given) → holds reached)
    {catalog : Catalog} (start : holds catalog) : holds (catalog.merge tags).1 := by
  induction tags generalizing catalog with
  | nil => exact start
  | cons tag rest inductionHypothesis =>
    rw [merge]
    cases offered : catalog.offer tag with
    | error refusal => exact start
    | ok accepted =>
      obtain ⟨reached, given⟩ := accepted
      have there : holds reached :=
        kept tag List.mem_cons_self catalog reached given start offered
      exact inductionHypothesis
        (fun other member => kept other (List.mem_cons_of_mem tag member)) there

/-- What a tag has once it is accepted, and keeps through the tags behind it, every tag of a
completed merge has in the end. `sound` is what the catalogs on the way have besides. -/
theorem forall_of_merge (sound : Catalog → Prop) (holds : Catalog → Tag → Prop) {tags : List Tag}
    (gained : ∀ tag ∈ tags, ∀ before reached given, sound before →
      before.offer tag = .ok (reached, given) → sound reached ∧ holds reached tag)
    (kept : ∀ tag ∈ tags, ∀ other ∈ tags, ∀ before reached given, sound before →
      holds before tag → before.offer other = .ok (reached, given) → holds reached tag)
    {catalog final : Catalog} (start : sound catalog) {report : MergeReport}
    (completed : catalog.merge tags = (final, .ok report)) : ∀ tag ∈ tags, holds final tag := by
  induction tags generalizing catalog report with
  | nil => simp
  | cons first rest inductionHypothesis =>
    obtain ⟨reached, given, later, offered, merged, rfl⟩ := merge_cons_eq_ok_iff.mp completed
    have behind {tag : Tag} (member : tag ∈ rest) : tag ∈ first :: rest :=
      List.mem_cons_of_mem first member
    obtain ⟨soundThere, holdsThere⟩ :=
      gained first List.mem_cons_self catalog reached given start offered
    have holdsFirst : sound final ∧ holds final first := by
      have through := merge_invariant (fun after => sound after ∧ holds after first) rest
        (fun other member before next inserted both accepted =>
          ⟨(gained other (behind member) before next inserted both.1 accepted).1,
            kept first List.mem_cons_self other (behind member) before next inserted both.1
              both.2 accepted⟩)
        ⟨soundThere, holdsThere⟩
      rwa [merged] at through
    have holdsRest : ∀ tag ∈ rest, holds final tag :=
      inductionHypothesis (fun tag member => gained tag (behind member))
        (fun tag member other also => kept tag (behind member) other (behind also))
        soundThere merged
    exact List.forall_mem_cons.mpr ⟨holdsFirst.2, holdsRest⟩

/-- A merge is refused at its first tag, or at one of the others from there on. -/
theorem merge_cons_eq_error_iff {catalog final : Catalog} {tag : Tag} {rest : List Tag}
    {refusal : MergeError} :
    catalog.merge (tag :: rest) = (final, .error refusal) ↔
      (catalog.offer tag = .error refusal ∧ final = catalog) ∨
        ∃ reached given, catalog.offer tag = .ok (reached, given) ∧
          reached.merge rest = (final, .error refusal) := by
  rw [merge]
  cases catalog.offer tag with
  | error refused => simp [eq_comm, and_comm]
  | ok accepted =>
    obtain ⟨reached, given⟩ := accepted
    cases merged : reached.merge rest with
    | mk stopped outcome => cases outcome <;> simp [merged, Except.map]

/-- A merge of two lists is the merge of the first and, unless that is refused, the merge of the
second into what it left. -/
theorem merge_append (catalog : Catalog) (earlier later : List Tag) :
    catalog.merge (earlier ++ later) =
      match catalog.merge earlier with
      | (stopped, .error refusal) => (stopped, .error refusal)
      | (reached, .ok report) =>
        ((reached.merge later).1, (reached.merge later).2.map report.followedBy) := by
  induction earlier generalizing catalog with
  | nil =>
    rw [List.nil_append, merge]
    cases merged : catalog.merge later with
    | mk final outcome => cases outcome <;> simp [merged, Except.map, MergeReport.followedBy]
  | cons tag rest inductionHypothesis =>
    rw [List.cons_append, merge, merge]
    cases catalog.offer tag with
    | error refusal => rfl
    | ok accepted =>
      obtain ⟨reached, given⟩ := accepted
      simp only [inductionHypothesis reached]
      cases merged : reached.merge rest with
      | mk middle outcome =>
        cases outcome with
        | error refusal => rfl
        | ok report =>
          cases ended : middle.merge later with
          | mk final last =>
            cases last <;> simp [Except.map, MergeReport.followedBy_precededBy, ended]

/-- The tags of a merge that it inserts, up to the first that is refused. -/
def appended (catalog : Catalog) : List Tag → List Tag
  | [] => []
  | tag :: rest =>
    match catalog.offer tag with
    | .error _ => []
    | .ok (reached, none) => reached.appended rest
    | .ok (reached, some _) => tag :: reached.appended rest

/-- A merge inserts some of its tags, in their order. -/
theorem appended_sublist (catalog : Catalog) (tags : List Tag) :
    (catalog.appended tags).Sublist tags := by
  induction tags generalizing catalog with
  | nil => exact List.Sublist.refl []
  | cons tag rest inductionHypothesis =>
    rw [appended]
    split
    · exact List.nil_sublist _
    · exact (inductionHypothesis _).cons tag
    · exact (inductionHypothesis _).cons_cons tag

/-- All that a merge does to a catalog is to insert the tags that it accepts, whether it
completes or not. -/
theorem InStep.merge_eq_insertMany {catalog : Catalog} (inStep : catalog.InStep)
    (tags : List Tag) :
    (catalog.merge tags).1 = catalog.insertMany (catalog.appended tags) := by
  induction tags generalizing catalog with
  | nil => rfl
  | cons tag rest inductionHypothesis =>
    rw [Catalog.merge, appended]
    cases offered : catalog.offer tag with
    | error refusal => rfl
    | ok accepted =>
      obtain ⟨reached, given⟩ := accepted
      rcases inStep.offer_eq_ok_iff.mp offered with
        ⟨-, rfl, rfl⟩ | ⟨entry, -, -, rfl, rfl⟩
      · exact inductionHypothesis (inStep.insert tag)
      · exact inductionHypothesis inStep

/-- Handles are given out one after another; an insertion takes one. -/
theorem next_insert (catalog : Catalog) (tag : Tag) :
    (catalog.insert tag).next = catalog.next + 1 := by
  simp [next, insert]

/-- Several insertions put the new tags behind the sequence, under consecutive handles. -/
theorem InStep.entries_insertMany {catalog : Catalog} (inStep : catalog.InStep)
    (tags : List Tag) :
    (catalog.insertMany tags).entries =
      catalog.entries ++ (List.range' catalog.next tags.length).zip tags := by
  induction tags generalizing catalog with
  | nil => simp [Catalog.insertMany]
  | cons tag rest inductionHypothesis =>
    have behind := inductionHypothesis (inStep.insert tag)
    rw [inStep.entries_insert, next_insert] at behind
    change ((catalog.insert tag).insertMany rest).entries = _
    rw [behind, List.length_cons, List.range'_succ, List.zip_cons_cons, List.append_assoc,
      List.singleton_append]

/-- The sequence after a merge has the inserted tags behind those that it had before. -/
theorem InStep.tags_merge {catalog : Catalog} (inStep : catalog.InStep) (tags : List Tag) :
    (catalog.merge tags).1.tags = catalog.tags ++ catalog.appended tags := by
  rw [inStep.merge_eq_insertMany, Catalog.tags, inStep.entries_insertMany, List.map_append,
    List.map_snd_zip (by simp)]
  rfl

/-- A completed merge reports the handles of the tags that it inserted, and that it left out the
others. The two numbers add up to that of the incoming tags. -/
theorem InStep.report_of_merge {catalog final : Catalog} (inStep : catalog.InStep)
    {tags : List Tag} {report : MergeReport}
    (completed : catalog.merge tags = (final, .ok report)) :
    report.added = List.range' catalog.next (catalog.appended tags).length ∧
      report.added.length + report.present = tags.length := by
  induction tags generalizing catalog report with
  | nil =>
    cases completed
    exact ⟨rfl, rfl⟩
  | cons tag rest inductionHypothesis =>
    obtain ⟨reached, given, later, offered, merged, rfl⟩ := merge_cons_eq_ok_iff.mp completed
    rw [appended]
    rcases inStep.offer_eq_ok_iff.mp offered with ⟨-, rfl, rfl⟩ | ⟨entry, -, -, rfl, rfl⟩
    · obtain ⟨added, counted⟩ := inductionHypothesis (inStep.insert tag) merged
      rw [next_insert] at added
      simp only [offered, MergeReport.precededBy, List.length_cons, List.range'_succ]
      exact ⟨by rw [added], by omega⟩
    · obtain ⟨added, counted⟩ := inductionHypothesis inStep merged
      simp only [offered, MergeReport.precededBy, List.length_cons]
      exact ⟨added, by omega⟩

/-- A merge is refused exactly when the catalog refuses a tag as it stands once those before it
are merged, and it stops there. -/
theorem InStep.merge_eq_error_iff {catalog final : Catalog} (inStep : catalog.InStep)
    {tags : List Tag} {refusal : MergeError} :
    catalog.merge tags = (final, .error refusal) ↔
      ∃ accepted refused rest report, tags = accepted ++ refused :: rest ∧
        catalog.merge accepted = (final, .ok report) ∧ final.Refuses refused refusal := by
  constructor
  · intro stopped
    induction tags generalizing catalog with
    | nil => cases stopped
    | cons tag rest inductionHypothesis =>
      rcases merge_cons_eq_error_iff.mp stopped with
        ⟨offered, rfl⟩ | ⟨reached, given, offered, merged⟩
      · exact ⟨[], tag, rest, ⟨[], 0⟩, rfl, rfl, inStep.offer_eq_error_iff.mp offered⟩
      · obtain ⟨accepted, refused, others, report, rfl, completed, reason⟩ :=
          inductionHypothesis (inStep.of_offer offered) merged
        exact ⟨tag :: accepted, refused, others, report.precededBy given, rfl,
          merge_cons_eq_ok_iff.mpr ⟨reached, given, report, offered, completed, rfl⟩, reason⟩
  · rintro ⟨accepted, refused, rest, report, rfl, completed, reason⟩
    have finalInStep : final.InStep := by
      have kept := inStep.merge accepted
      rwa [completed] at kept
    have ended : final.merge (refused :: rest) = (final, .error refusal) :=
      merge_cons_eq_error_iff.mpr (.inl ⟨finalInStep.offer_eq_error_iff.mpr reason, rfl⟩)
    rw [merge_append, completed]
    simp only [ended]
    rfl

/-- A merge of tags goes from left to right and stops cleanly, after every run. Merging two
lists is merging the one and then, if that completed, the other into the result. A completed
merge keeps all entries with their handles and puts some of its tags, in their order, behind
them; it counts the others. A merge is refused exactly when some tag is refused by the catalog
that the completed merge of the tags before it leaves, and that catalog is the result. -/
theorem merge_is_fold (steps : List Step) :
    let catalog := after steps
    (∀ earlier later, catalog.merge (earlier ++ later) =
      match catalog.merge earlier with
      | (stopped, .error refusal) => (stopped, .error refusal)
      | (reached, .ok report) =>
        ((reached.merge later).1, (reached.merge later).2.map report.followedBy)) ∧
    (∀ tags final report, catalog.merge tags = (final, .ok report) →
      (∃ appended, appended.Sublist tags ∧ appended.length = report.added.length ∧
        final.entries = catalog.entries ++ report.added.zip appended) ∧
      report.added.length + report.present = tags.length) ∧
    (∀ tags final refusal, catalog.merge tags = (final, .error refusal) ↔
      ∃ accepted refused rest report, tags = accepted ++ refused :: rest ∧
        catalog.merge accepted = (final, .ok report) ∧ final.Refuses refused refusal) := by
  intro catalog
  have inStep : catalog.InStep := inStep_after steps
  refine ⟨catalog.merge_append, ?_, fun tags final refusal => inStep.merge_eq_error_iff⟩
  intro tags final report completed
  obtain ⟨added, counted⟩ := inStep.report_of_merge completed
  refine ⟨⟨catalog.appended tags, catalog.appended_sublist tags, by simp [added], ?_⟩, counted⟩
  have inserted : final = catalog.insertMany (catalog.appended tags) := by
    rw [← inStep.merge_eq_insertMany tags, completed]
  rw [inserted, inStep.entries_insertMany, added]

/-- A property without a description or labels, whose type and name are given as strings. -/
def propertyOf (access : Tag.Access) (type name : String) : Tag :=
  .unlabelled (.property access ⟨.ofText type.toList, name.toList, []⟩)

/-- A merge that is refused half way: the first tag is inserted, the second conflicts with
what was there, and the third is not looked at. The merge of the first tag alone completes. -/
theorem merge_is_fold_half_way :
    let catalog := after [.insert (propertyOf .readWrite "string" "x")]
    let tags := [propertyOf .readWrite "int" "y", propertyOf .readWrite "int" "x",
      propertyOf .readWrite "int" "z"]
    let refusal := .conflictingTypes "x".toList "string".toList "int".toList
    (∃ final, catalog.merge tags = (final, .error refusal) ∧
      ∃ accepted refused rest report, tags = accepted ++ refused :: rest ∧
        catalog.merge accepted = (final, .ok report) ∧ final.Refuses refused refusal) ∧
    ∃ final, catalog.merge (tags.take 1) = (final, .ok ⟨[1], 0⟩) ∧
      ∃ appended, appended.Sublist (tags.take 1) ∧ appended.length = 1 ∧
        final.entries = catalog.entries ++ [1].zip appended := by
  intro catalog tags refusal
  have stopped : catalog.merge tags = ((catalog.merge tags).1, .error refusal) :=
    Prod.ext rfl rfl
  have completed :
      catalog.merge (tags.take 1) = ((catalog.merge (tags.take 1)).1, .ok ⟨[1], 0⟩) :=
    Prod.ext rfl rfl
  exact ⟨⟨_, stopped, ((merge_is_fold _).2.2 _ _ _).mp stopped⟩,
    _, completed, ((merge_is_fold _).2.1 _ _ _ completed).1⟩

end DocComment.Catalog
