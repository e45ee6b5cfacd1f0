import DocComment.Proofs.Catalog.Merging

/-!
# Declarations after a merge

Tags for parameters, methods and properties declare something that has a name: their
subject. Two tags of these forms match exactly when their subjects are the same, so a
catalog cannot take in a subject that it has, and a merge that would leave two types for
one property is refused. The main statement says that after a completed merge each
incoming subject is declared once, for a property with the type that came in.

A generic tag may bear the name of a declaring form without being of that form. It matches
every tag of its name, and what is said here does not hold where there are such tags.
-/
namespace DocComment

namespace Tag

/-- What a tag declares: a parameter, a method, or a property of some access. Properties of
different access are different subjects. -/
inductive Subject
  | parameter (name : Text)
  | method (name : Text)
  | property (access : Access) (name : Text)
  deriving DecidableEq

/-- Whether a subject is a property, of whatever access. -/
def Subject.isProperty : Subject → Bool
  | .property _ _ => true
  | .parameter _ | .method _ => false

/-- The subject of a tag, for the forms that have one. A variable tag has none, since it need not
name its variable. -/
def subject? (tag : Tag) : Option Subject :=
  match tag.content with
  | .param param => some (.parameter param.name)
  | .method method => some (.method method.name)
  | .property access property => some (.property access property.name)
  | .generic _ | .returns _ | .var _ | .mixin _ => none

/-- The names of the forms that have a subject. -/
def declaringNames : List TagName :=
  [.param, .method, .property, .readOnlyProperty, .writeOnlyProperty]

/-- A tag is structured unless it is a generic one under the name of a declaring form. Such a tag
bears the name but declares nothing. -/
def Structured (tag : Tag) : Bool :=
  match tag.content with
  | .generic generic => generic.name ∉ declaringNames
  | _ => true

/-- Each access has a name of its own, so the name of a property's tag tells its access. -/
theorem Access.tagName_injective {one other : Access} :
    one.tagName = other.tagName ↔ one = other := by
  cases one <;> cases other <;> decide

/-- A structured tag has a subject exactly when it bears the name of a form that has one. -/
theorem isSome_subject?_iff {tag : Tag} (structured : tag.Structured) :
    tag.subject?.isSome ↔ tag.name ∈ declaringNames := by
  cases form : tag.content with
  | generic generic => simpa [subject?, name, form, Structured] using structured
  | param _ => simp [subject?, name, form, declaringNames]
  | method _ => simp [subject?, name, form, declaringNames]
  | property access _ =>
    cases access <;> simp [subject?, name, form, declaringNames, Access.tagName]
  | returns _ => simp only [subject?, name, form]; decide
  | var _ => simp only [subject?, name, form]; decide
  | mixin _ => simp only [subject?, name, form]; decide

/-- A tag that has a subject is structured, as it is no generic one. -/
theorem structured_of_subject? {tag : Tag} {subject : Subject}
    (declared : tag.subject? = some subject) : tag.Structured := by
  cases form : tag.content <;> simp_all [subject?, Structured]

/-- Two tags that have subjects match exactly when these are the same. -/
theorem isMatch_iff_eq {left right : Tag} {one other : Subject}
    (declares : left.subject? = some one) (also : right.subject? = some other) :
    left.isMatch right ↔ one = other := by
  have parameterIsNoMethod : TagName.param ≠ TagName.method := by decide
  have parameterIsNoProperty (access : Access) : TagName.param ≠ access.tagName := by
    cases access <;> decide
  have methodIsNoProperty (access : Access) : TagName.method ≠ access.tagName := by
    cases access <;> decide
  rw [isMatch, Bool.and_eq_true, beq_iff_eq]
  -- the forms without a subject drop out at once, which leaves three on either side
  cases leftForm : left.content <;> simp only [subject?, leftForm, reduceCtorEq] at declares <;>
    cases rightForm : right.content <;> simp only [subject?, rightForm, reduceCtorEq] at also <;>
    rw [← Option.some.inj declares, ← Option.some.inj also] <;>
    simp [name, leftForm, rightForm, Content.agrees, Access.tagName_injective,
      parameterIsNoMethod, parameterIsNoMethod.symm, parameterIsNoProperty, methodIsNoProperty,
      (parameterIsNoProperty _).symm, (methodIsNoProperty _).symm]

/-- A structured tag matches a tag with a subject exactly when it has that subject. A generic tag
of the name would match it too. -/
theorem isMatch_iff_subject? {existing incoming : Tag} {subject : Subject}
    (structured : existing.Structured) (declared : incoming.subject? = some subject) :
    existing.isMatch incoming ↔ existing.subject? = some subject := by
  cases had : existing.subject? with
  | some other => rw [isMatch_iff_eq had declared, Option.some.injEq]
  | none =>
    have unnamed : existing.name ∉ declaringNames := by
      simp [← isSome_subject?_iff structured, had]
    have named : incoming.name ∈ declaringNames := by
      simp [← isSome_subject?_iff (structured_of_subject? declared), declared]
    have apart : existing.name ≠ incoming.name := fun same => unnamed (same ▸ named)
    simp [isMatch, apart]

/-- A tag is a property exactly when its subject is one. -/
theorem isSome_property? {tag : Tag} {subject : Subject}
    (declared : tag.subject? = some subject) : tag.property?.isSome = subject.isProperty := by
  cases form : tag.content <;> simp only [subject?, form, reduceCtorEq] at declared <;>
    rw [← Option.some.inj declared] <;> simp [property?, form, Subject.isProperty]

end Tag

namespace Catalog

/-- The entries that declare a subject, in the order of the sequence. -/
def declaring (catalog : Catalog) (subject : Tag.Subject) : List Entry :=
  catalog.entries.filter fun entry => entry.2.subject? = some subject

/-- A catalog holds structured tags only. Insertions of other tags are what this excludes. -/
def Structured (catalog : Catalog) : Prop := ∀ entry ∈ catalog.entries, entry.2.Structured

/-- A tag's subject is declared once, for a property with the type of the tag. The entry may be
the tag itself or one that was there before. -/
def Settled (catalog : Catalog) (tag : Tag) (subject : Tag.Subject) : Prop :=
  ∃ entry, catalog.declaring subject = [entry] ∧
    ∀ property, tag.property? = some property →
      ∃ declared, entry.2.property? = some declared ∧ declared.type.text = property.type.text

/-- Where all tags are structured, the entries alike to a tag declare its subject, and no other
entry is alike to it. -/
theorem Structured.alike_eq {catalog : Catalog} (structured : catalog.Structured) {tag : Tag}
    {subject : Tag.Subject} (declared : tag.subject? = some subject) :
    catalog.alike tag = catalog.declaring subject := by
  refine List.filter_congr fun entry member => ?_
  rw [Bool.eq_iff_iff, decide_eq_true_iff]
  exact Tag.isMatch_iff_subject? (structured entry member) declared

/-- An accepted tag that is structured leaves only structured tags. -/
theorem Structured.of_offer {catalog reached : Catalog} (structured : catalog.Structured)
    (inStep : catalog.InStep) {tag : Tag} (also : tag.Structured) {given : Option Handle}
    (accepted : catalog.offer tag = .ok (reached, given)) : reached.Structured := by
  rcases inStep.offer_eq_ok_iff.mp accepted with ⟨-, rfl, -⟩ | ⟨-, -, -, rfl, -⟩
  · intro entry member
    rw [inStep.entries_insert] at member
    rcases List.mem_append.mp member with old | new
    · exact structured entry old
    · rw [List.mem_singleton.mp new]
      exact also
  · exact structured

/-- An accepted tag is settled: either it is the only entry for its subject, or the only entry
there was agrees with it. -/
theorem settled_of_offer {catalog reached : Catalog} (structured : catalog.Structured)
    (inStep : catalog.InStep) {tag : Tag} {subject : Tag.Subject}
    (declared : tag.subject? = some subject) {given : Option Handle}
    (accepted : catalog.offer tag = .ok (reached, given)) : reached.Settled tag subject := by
  rcases inStep.offer_eq_ok_iff.mp accepted with
    ⟨none, rfl, -⟩ | ⟨entry, only, harmless, rfl, -⟩
  · rw [structured.alike_eq declared] at none
    refine ⟨(catalog.next, tag), ?_, fun property found => ⟨property, found, rfl⟩⟩
    rw [declaring] at none ⊢
    rw [inStep.entries_insert, List.filter_append, none]
    simp [declared]
  · rw [structured.alike_eq declared] at only
    refine ⟨entry, only, fun property found => ?_⟩
    have also : entry.2.subject? = some subject := by
      have member : entry ∈ reached.declaring subject := by simp [only]
      simpa using List.of_mem_filter member
    have isProperty : entry.2.property?.isSome := by
      rw [Tag.isSome_property? also, ← Tag.isSome_property? declared, found]
      rfl
    obtain ⟨had, existing⟩ := Option.isSome_iff_exists.mp isProperty
    refine ⟨had, existing, Classical.byContradiction fun different => ?_⟩
    have conflict := Tag.conflict?_eq_some_iff.mpr ⟨had, property, existing, found, different, rfl⟩
    rw [harmless] at conflict
    contradiction

/-- A settled subject stays settled: no further tag for it is inserted. -/
theorem Settled.of_offer {catalog reached : Catalog} {tag : Tag} {subject : Tag.Subject}
    (settled : catalog.Settled tag subject) (structured : catalog.Structured)
    (inStep : catalog.InStep) {other : Tag} {given : Option Handle}
    (accepted : catalog.offer other = .ok (reached, given)) : reached.Settled tag subject := by
  rcases inStep.offer_eq_ok_iff.mp accepted with ⟨none, rfl, -⟩ | ⟨-, -, -, rfl, -⟩
  · obtain ⟨entry, only, agreed⟩ := settled
    refine ⟨entry, ?_, agreed⟩
    have different : other.subject? ≠ some subject := by
      intro same
      rw [structured.alike_eq same, only] at none
      contradiction
    rw [declaring] at only ⊢
    rw [inStep.entries_insert, List.filter_append, only]
    simp [different]
  · exact settled

/-- Every tag of a completed merge is settled: it is when it is accepted, and the tags behind it
leave it so. -/
theorem Structured.settled_of_merge {catalog final : Catalog} (structured : catalog.Structured)
    (inStep : catalog.InStep) {tags : List Tag} (also : ∀ tag ∈ tags, tag.Structured)
    {report : MergeReport} (completed : catalog.merge tags = (final, .ok report)) {tag : Tag}
    (member : tag ∈ tags) {subject : Tag.Subject} (declared : tag.subject? = some subject) :
    final.Settled tag subject := by
  let sound (reached : Catalog) : Prop := reached.InStep ∧ reached.Structured
  let holds (reached : Catalog) (tag : Tag) : Prop :=
    ∀ subject, tag.subject? = some subject → reached.Settled tag subject
  refine forall_of_merge sound holds ?_ ?_ ⟨inStep, structured⟩ completed tag member subject
    declared
  · rintro first came before reached given ⟨inStepThere, structuredThere⟩ accepted
    exact ⟨⟨inStepThere.of_offer accepted,
      structuredThere.of_offer inStepThere (also first came) accepted⟩,
      fun _ declares => settled_of_offer structuredThere inStepThere declares accepted⟩
  · rintro first - other - before reached given ⟨inStepThere, structuredThere⟩ settled accepted
    exact fun _ declares =>
      (settled _ declares).of_offer structuredThere inStepThere accepted

/-- After a completed merge every incoming parameter, method and property is declared exactly
once, and a property with the type that came in. This needs that neither the catalog nor the
incoming tags have a generic tag under the name of one of these forms. -/
theorem declared_once_of_merge {steps : List Step} {tags : List Tag} {final : Catalog}
    {report : MergeReport}
    (structured : ∀ tag ∈ (after steps).tags ++ tags, tag.Structured)
    (completed : (after steps).merge tags = (final, .ok report)) :
    ∀ tag ∈ tags, ∀ subject, tag.subject? = some subject →
      ∃ entry, (final.entries.filter fun other => other.2.subject? = some subject) = [entry] ∧
        ∀ property, tag.property? = some property →
          ∃ declared, entry.2.property? = some declared ∧
            declared.type.text = property.type.text := by
  intro tag member subject declared
  have structuredThere : (after steps).Structured := fun entry present =>
    structured entry.2 (List.mem_append_left _ (List.mem_map_of_mem present))
  exact structuredThere.settled_of_merge (inStep_after steps)
    (fun other came => structured other (List.mem_append_right _ came)) completed member declared

/-- A plain property comes in beside one that is only read and one that is only written, and
the read-only one comes in again: each of the three is declared once. -/
theorem declared_once_of_merge_count :
    let steps : List Step := [.insert (propertyOf .readOnly "int" "count"),
      .insert (propertyOf .writeOnly "int" "count")]
    let tags := [propertyOf .readWrite "bool" "count", propertyOf .readOnly "int" "count"]
    (∀ tag ∈ (after steps).tags ++ tags, tag.Structured) ∧
      ∃ final, (after steps).merge tags = (final, .ok ⟨[2], 1⟩) ∧
        ∀ tag ∈ tags, ∀ subject, tag.subject? = some subject →
          ∃ entry, (final.entries.filter fun other => other.2.subject? = some subject) = [entry] ∧
            ∀ property, tag.property? = some property →
              ∃ declared, entry.2.property? = some declared ∧
                declared.type.text = property.type.text := by
  intro steps tags
  have structured : ∀ tag ∈ (after steps).tags ++ tags, tag.Structured := by decide
  have completed : (after steps).merge tags = (((after steps).merge tags).1, .ok ⟨[2], 1⟩) :=
    Prod.ext rfl rfl
  exact ⟨structured, _, completed, declared_once_of_merge structured completed⟩

end Catalog

end DocComment
