import DocComment.Tag.Order
import Mathlib.Data.Set.Insert

/-!
# Matching tags

A tag is designated by the variable or the method that it is for. Two tags match when they
bear the same name and are not designated differently, so a tag without a designation matches
every tag of its name. That is harmless where all tags of the name are without one. A tag is
vague when others of its name are designated and it is not: it then matches tags that do not
match each other.

Every tag matches itself, and it does not matter which of two tags comes first. Main statement:
vague tags are all that keeps matching from being transitive, for two tags that match a third
one match each other unless the third is vague. Among tags none of which is vague, matching is
therefore an equivalence. Its classes are the tags of one name with one designation, or with none,
and all tags of a class are filed under one aliased name.
-/
namespace DocComment.Tag

/-- What tells a tag from the others of its name: its variable or its method. Tags of other forms
have none, and so has a variable tag that names no variable. -/
def designation? (tag : Tag) : Option Text :=
  tag.documentedVariable.or (tag.method?.map (·.name))

/-- The names of the forms that have a designation. Returns, mixins and all tags of other names
are told apart by nothing but their name. -/
def designatedNames : List TagName :=
  [.param, .var, .method, .property, .readOnlyProperty, .writeOnlyProperty]

/-- A tag is vague when its name is one of these and it has no designation: a variable tag that
names no variable, or a generic tag under such a name. -/
def isVague (tag : Tag) : Bool :=
  match tag.content with
  | .var var => var.name.isNone
  | .generic generic => generic.name ∈ designatedNames
  | .param _ | .returns _ | .method _ | .mixin _ | .property _ _ => false

/-- Only tags of these names have a designation. The converse fails for vague tags and no
others. -/
theorem mem_designatedNames {tag : Tag} {text : Text} (designated : tag.designation? = some text) :
    tag.name ∈ designatedNames := by
  cases form : tag.content with
  | param _ => simp only [name, form]; decide
  | var _ => simp only [name, form]; decide
  | method _ => simp only [name, form]; decide
  | property access _ => cases access <;> simp only [name, form, Access.tagName] <;> decide
  | generic _ => simp [designation?, documentedVariable, method?, form] at designated
  | returns _ => simp [designation?, documentedVariable, method?, form] at designated
  | mixin _ => simp [designation?, documentedVariable, method?, form] at designated

/-- A vague tag lacks the designation that its name calls for. This is the definition without the
forms of content. -/
theorem isVague_iff {tag : Tag} :
    tag.isVague ↔ tag.designation? = none ∧ tag.name ∈ designatedNames := by
  have returns : TagName.returns ∉ designatedNames := by decide
  have mixin : TagName.mixin ∉ designatedNames := by decide
  have var : TagName.var ∈ designatedNames := by decide
  cases form : tag.content <;>
    simp [isVague, designation?, documentedVariable, method?, name, form, returns, mixin, var]

/-- Variables agree unless both are named and the names differ; a variable without a name agrees
with all of them. -/
theorem Content.agrees_var {one other : Var} :
    (Content.var one).agrees (.var other) ↔
      ∀ name, one.name = some name → ∀ given, other.name = some given → name = given := by
  cases named : one.name <;> cases alsoNamed : other.name <;>
    simp [Content.agrees, named, alsoNamed]

/-- Tags match when they bear one name and are not designated differently. It does not matter
whether they are of one form. -/
theorem isMatch_iff {left right : Tag} :
    left.isMatch right ↔ left.name = right.name ∧
      ∀ one, left.designation? = some one → ∀ other, right.designation? = some other →
        one = other := by
  have paramIsNoVar : TagName.param ≠ TagName.var := by decide
  have paramIsNoMethod : TagName.param ≠ TagName.method := by decide
  have varIsNoMethod : TagName.var ≠ TagName.method := by decide
  have paramIsNoAccess (access : Access) : TagName.param ≠ access.tagName := by
    cases access <;> decide
  have varIsNoAccess (access : Access) : TagName.var ≠ access.tagName := by
    cases access <;> decide
  have methodIsNoAccess (access : Access) : TagName.method ≠ access.tagName := by
    cases access <;> decide
  rw [isMatch, Bool.and_eq_true, beq_iff_eq]
  refine and_congr_right fun same => ?_
  -- two forms that both have a designation never share a name
  cases leftForm : left.content <;> cases rightForm : right.content <;>
    simp only [name, leftForm, rightForm, paramIsNoVar, paramIsNoVar.symm, paramIsNoMethod,
      paramIsNoMethod.symm, varIsNoMethod, varIsNoMethod.symm, paramIsNoAccess,
      (paramIsNoAccess _).symm, varIsNoAccess, (varIsNoAccess _).symm, methodIsNoAccess,
      (methodIsNoAccess _).symm] at same <;>
    simp [leftForm, rightForm, designation?, documentedVariable, method?, Content.agrees_var] <;>
    simp [Content.agrees]

/-- Every tag matches itself, vague or not. -/
theorem isMatch_self (tag : Tag) : tag.isMatch tag := by
  refine isMatch_iff.mpr ⟨rfl, fun one designated other also => ?_⟩
  exact Option.some.inj (designated.symm.trans also)

/-- Matching does not depend on which of two tags comes first, so it may be asked either way
round. -/
theorem isMatch_comm (left right : Tag) : left.isMatch right = right.isMatch left := by
  rw [Bool.eq_iff_iff, isMatch_iff, isMatch_iff]
  constructor
  · rintro ⟨same, agree⟩
    exact ⟨same.symm, fun one designated other also => (agree other also one designated).symm⟩
  · rintro ⟨same, agree⟩
    exact ⟨same.symm, fun one designated other also => (agree other also one designated).symm⟩

/-- A vague tag matches every tag of its name: it has no designation that could differ. -/
theorem isMatch_of_isVague {vague tag : Tag} (isVague : vague.isVague) :
    tag.isMatch vague ↔ tag.name = vague.name := by
  have undesignated := (isVague_iff.mp isVague).1
  rw [isMatch_iff]
  constructor
  · exact And.left
  · intro same
    refine ⟨same, fun _ _ other designated => ?_⟩
    rw [undesignated] at designated
    contradiction

/-- Two tags match each other if they match a tag that is not vague. With a vague tag in the
middle the designations of the outer ones may differ. -/
theorem isMatch_trans {left middle right : Tag} (precise : ¬ middle.isVague)
    (matchesLeft : left.isMatch middle) (matchesRight : middle.isMatch right) :
    left.isMatch right := by
  obtain ⟨sameLeft, agreeLeft⟩ := isMatch_iff.mp matchesLeft
  obtain ⟨sameRight, agreeRight⟩ := isMatch_iff.mp matchesRight
  refine isMatch_iff.mpr ⟨sameLeft.trans sameRight, fun one designated other also => ?_⟩
  cases between : middle.designation? with
  | some text =>
    have first : one = text := agreeLeft one designated text between
    have second : text = other := agreeRight text between other also
    exact first.trans second
  | none =>
    -- the name of the three calls for a designation, and the middle one has none
    have named : middle.name ∈ designatedNames := sameLeft ▸ mem_designatedNames designated
    exact absurd (isVague_iff.mpr ⟨between, named⟩) precise

/-- Tags that are not vague match exactly when they have the name and the designation in common;
where the one has no designation, neither has the other. -/
theorem isMatch_iff_of_precise {left right : Tag} (precise : ¬ left.isVague)
    (alsoPrecise : ¬ right.isVague) :
    left.isMatch right ↔ left.name = right.name ∧ left.designation? = right.designation? := by
  rw [isMatch_iff]
  refine and_congr_right fun same => ?_
  -- where one of two precise tags of a name is designated, so is the other
  cases one : left.designation? with
  | none =>
    cases other : right.designation? with
    | none => simp
    | some text =>
      have named : left.name ∈ designatedNames := same ▸ mem_designatedNames other
      exact absurd (isVague_iff.mpr ⟨one, named⟩) precise
  | some text =>
    cases other : right.designation? with
    | none =>
      have named : right.name ∈ designatedNames := same ▸ mem_designatedNames one
      exact absurd (isVague_iff.mpr ⟨other, named⟩) alsoPrecise
    | some given => simp

/-- Matching is reflexive and symmetric, and it does not cross aliased names. Among any tags none
of which is vague it is an equivalence: two of them match exactly when they have one name and one
designation. -/
theorem isMatch_equivalence :
    (∀ tag : Tag, tag.isMatch tag) ∧
      (∀ left right : Tag, left.isMatch right = right.isMatch left) ∧
      (∀ left right : Tag, left.isMatch right → left.aliasedName = right.aliasedName) ∧
      ∀ tags : Set Tag, (∀ tag ∈ tags, ¬ tag.isVague) →
        (Equivalence fun left right : tags => left.val.isMatch right.val) ∧
          ∀ left ∈ tags, ∀ right ∈ tags, left.isMatch right ↔
            left.name = right.name ∧ left.designation? = right.designation? := by
  refine ⟨isMatch_self, isMatch_comm, fun left right same => ?_, fun tags precise => ⟨?_, ?_⟩⟩
  · rw [aliasedName, aliasedName, (isMatch_iff.mp same).1]
  · constructor
    · intro tag
      exact isMatch_self tag
    · intro left right same
      rwa [isMatch_comm]
    · intro left middle right first second
      exact isMatch_trans (precise middle middle.property) first second
  · intro left member right alsoMember
    exact isMatch_iff_of_precise (precise left member) (precise right alsoMember)

/-- Three declarations of one property that is only read, beside a tag of another form without a
designation: the declarations are one class, whatever their types. -/
theorem isMatch_equivalence_declarations :
    let declaration (type : String) : Tag :=
      unlabelled (.property .readOnly ⟨.ofText type.toList, "count".toList, []⟩)
    let returns : Tag := unlabelled (.returns ⟨.ofText "int".toList, []⟩)
    let tags : Set Tag := {declaration "int", declaration "?int", declaration "bool", returns}
    (∀ tag ∈ tags, ¬ tag.isVague) ∧
      (declaration "int").isMatch (declaration "?int") ∧
      (declaration "?int").isMatch (declaration "bool") ∧
      (declaration "int").isMatch (declaration "bool") ∧
      (declaration "int").aliasedName = (declaration "bool").aliasedName ∧
      Equivalence fun left right : tags => left.val.isMatch right.val := by
  intro declaration returns tags
  have precise : ∀ tag ∈ tags, ¬ tag.isVague := by
    simp only [tags, Set.mem_insert_iff, Set.mem_singleton_iff]
    rintro tag (rfl | rfl | rfl | rfl) <;> decide
  obtain ⟨-, -, filed, among⟩ := isMatch_equivalence
  have equivalence := (among tags precise).1
  have first : (declaration "int").isMatch (declaration "?int") := by decide
  have second : (declaration "?int").isMatch (declaration "bool") := by decide
  have int : declaration "int" ∈ tags := .inl rfl
  have nullable : declaration "?int" ∈ tags := .inr (.inl rfl)
  have bool : declaration "bool" ∈ tags := .inr (.inr (.inl rfl))
  have third : (declaration "int").isMatch (declaration "bool") :=
    @Equivalence.trans tags _ equivalence ⟨_, int⟩ ⟨_, nullable⟩ ⟨_, bool⟩ first second
  exact ⟨precise, first, second, third, filed _ _ third, equivalence⟩

/-- No two tags of a list, at whatever positions, match each other. Since matching is symmetric
it is enough to compare each tag with those behind it. -/
def Distinct (tags : List Tag) : Prop := tags.Pairwise fun one other => ¬ one.isMatch other

/-- Matching is decided for any two tags, and a list has finitely many pairs. -/
instance (tags : List Tag) : Decidable (Distinct tags) :=
  inferInstanceAs (Decidable (tags.Pairwise _))

/-- The order of distinct tags is of no account, since matching is symmetric. -/
theorem Distinct.perm {tags others : List Tag} (distinct : Distinct tags)
    (perm : tags.Perm others) : Distinct others := by
  refine (perm.pairwise_iff ?_).mp distinct
  intro one other apart
  rwa [isMatch_comm]

/-- One more tag is distinct from the others if none of them matches it. This is the step from
the tags added so far to those with the next one. -/
theorem distinct_concat {tags : List Tag} {tag : Tag} :
    Distinct (tags ++ [tag]) ↔ Distinct tags ∧ ∀ other ∈ tags, ¬ other.isMatch tag := by
  simp [Distinct, List.pairwise_append]

/-- At most one of several distinct tags matches a tag that is not vague: two of them that did
would match each other. -/
theorem Distinct.length_le_one {tags : List Tag} (distinct : Distinct tags) {tag : Tag}
    (precise : ¬ tag.isVague) (matching : ∀ other ∈ tags, other.isMatch tag) :
    tags.length ≤ 1 := by
  match tags with
  | [] | [_] => simp
  | one :: other :: _ =>
    have different : ¬ one.isMatch other := (List.pairwise_cons.mp distinct).1 other (by simp)
    have second : tag.isMatch other := by
      rw [isMatch_comm]
      exact matching other (by simp)
    exact absurd (isMatch_trans precise (matching one (by simp)) second) different

end DocComment.Tag
