import DocComment.Tag.Order
import Mathlib.Data.Set.Defs

/-!
# The order of tags

Tags are ordered by their aliased names, and among properties and among methods of one
aliased name by the lower case of what they are named for. Reversing two tags reverses how
they compare. The order is not transitive as it stands: a generic tag under the name of a
method or a property compares equal to all methods or properties, whatever these are named
for. Main statement: this is the only obstacle, so that the order is transitive exactly where
no generic tag obscures the order of two structured ones.
-/
namespace DocComment.Tag

/-- The text that orders a tag among those of its aliased name, if it has one: the lower case of
the name of its property or method. -/
def tieBreaker? (tag : Tag) : Option Text :=
  match tag.content with
  | .property _ property => some (Text.lower property.name)
  | .method method => some (Text.lower method.name)
  | .generic _ | .param _ | .returns _ | .var _ | .mixin _ => none

/-- Whether a tag has no structure of its own. A generic tag may stand under any name, also under
one whose tags have a form. -/
def isGeneric (tag : Tag) : Bool :=
  match tag.content with
  | .generic _ => true
  | _ => false

/-- A generic tag obscures the order of two tags of its aliased name that are named differently:
it compares equal to both. -/
def Obscures (generic left right : Tag) : Prop :=
  generic.isGeneric ∧ left.aliasedName = generic.aliasedName ∧
    right.aliasedName = generic.aliasedName ∧
    ∃ one ∈ left.tieBreaker?, ∃ other ∈ right.tieBreaker?, one ≠ other

/-- The names and the tie breakers of the three tags decide it. -/
instance (generic left right : Tag) : Decidable (Obscures generic left right) :=
  inferInstanceAs (Decidable (_ ∧ _ ∧ _ ∧ _))

/-- Properties of every access are filed under one name. -/
theorem aliasedName_property {tag : Tag} {access : Access} {property : Property}
    (form : tag.content = .property access property) :
    tag.aliasedName = TagName.property.text := by
  simp only [aliasedName, name, form]
  cases access <;> decide

/-- Methods are filed under their own name, which is an alias of no other. -/
theorem aliasedName_method {tag : Tag} {method : Method} (form : tag.content = .method method) :
    tag.aliasedName = TagName.method.text := by
  simp only [aliasedName, name, form]
  decide

/-- The aliased names of the forms that have a tie breaker are two: that of properties and that
of methods. -/
theorem aliasedName_of_tieBreaker? {tag : Tag} {text : Text}
    (named : tag.tieBreaker? = some text) :
    tag.aliasedName = TagName.property.text ∨ tag.aliasedName = TagName.method.text := by
  cases form : tag.content with
  | property _ _ => exact .inl (aliasedName_property form)
  | method _ => exact .inr (aliasedName_method form)
  | generic _ => simp [tieBreaker?, form] at named
  | param _ => simp [tieBreaker?, form] at named
  | returns _ => simp [tieBreaker?, form] at named
  | var _ => simp [tieBreaker?, form] at named
  | mixin _ => simp [tieBreaker?, form] at named

/-- Under the aliased name of a form with a tie breaker, only a generic tag has none. -/
theorem isGeneric_of_tieBreaker?_eq_none {tag named : Tag} {text : Text}
    (has : named.tieBreaker? = some text) (alike : named.aliasedName = tag.aliasedName)
    (unnamed : tag.tieBreaker? = none) : tag.isGeneric := by
  have structured (keyword : TagName) (same : tag.name = keyword)
      (apart : TagName.aliased keyword.text ≠ TagName.property.text ∧
        TagName.aliased keyword.text ≠ TagName.method.text) : tag.isGeneric := by
    rcases aliasedName_of_tieBreaker? has with filed | filed
    · exact absurd (by rw [← same, ← filed, alike]; rfl) apart.1
    · exact absurd (by rw [← same, ← filed, alike]; rfl) apart.2
  cases form : tag.content with
  | generic _ => simp [isGeneric, form]
  | param _ => exact structured .param (by simp [name, form]) (by decide)
  | returns _ => exact structured .returns (by simp [name, form]) (by decide)
  | var _ => exact structured .var (by simp [name, form]) (by decide)
  | mixin _ => exact structured .mixin (by simp [name, form]) (by decide)
  | method _ => simp [tieBreaker?, form] at unnamed
  | property _ _ => simp [tieBreaker?, form] at unnamed

/-- How two tags of one aliased name compare. Without a tie breaker on either side they compare
equal. -/
def tie (left right : Tag) : Ordering :=
  match left.tieBreaker?, right.tieBreaker? with
  | some one, some other => compare one other
  | _, _ => .eq

/-- Tags are ordered by aliased name and then by their tie breakers, where both have one. -/
theorem order_eq (left right : Tag) :
    left.order right = (compare left.aliasedName right.aliasedName).then (left.tie right) := by
  unfold order tie
  cases leftForm : left.content <;> cases rightForm : right.content <;>
    simp only [tieBreaker?, leftForm, rightForm, Text.compareIgnoringCase]
  -- a property and a method have a tie breaker each, but their aliased names differ
  case method.property =>
    rw [aliasedName_method leftForm, aliasedName_property rightForm]
    rfl
  case property.method =>
    rw [aliasedName_property leftForm, aliasedName_method rightForm]
    rfl

/-- Reversing two tags reverses their tie, as it does the comparison of two texts. -/
theorem tie_swap (left right : Tag) : right.tie left = (left.tie right).swap := by
  unfold tie
  cases left.tieBreaker? <;> cases right.tieBreaker? <;>
    first | rfl | exact Std.OrientedCmp.eq_swap

/-- Reversing two tags reverses how they compare: of two tags at most one comes first. -/
theorem order_swap (left right : Tag) : right.order left = (left.order right).swap := by
  have names : compare right.aliasedName left.aliasedName =
      (compare left.aliasedName right.aliasedName).swap := Std.OrientedCmp.eq_swap
  rw [order_eq, order_eq, Ordering.swap_then, tie_swap left right, names]

/-- A tag compares equal to itself, with a tie breaker and without one. -/
theorem order_self (tag : Tag) : tag.order tag = .eq := by
  have reversed := order_swap tag tag
  cases compared : tag.order tag <;> simp [compared] at reversed ⊢

/-- Among tags of one aliased name, ties are transitive unless the middle one obscures the order
of the others. -/
theorem isLE_tie_trans {left middle right : Tag} (clear : ¬ middle.Obscures left right)
    (alike : left.aliasedName = middle.aliasedName)
    (also : middle.aliasedName = right.aliasedName) (first : (left.tie middle).isLE)
    (second : (middle.tie right).isLE) : (left.tie right).isLE := by
  cases hasLeft : left.tieBreaker? with
  | none => simp [tie, hasLeft]
  | some one =>
    cases hasRight : right.tieBreaker? with
    | none => simp [tie, hasRight]
    | some other =>
      cases hasMiddle : middle.tieBreaker? with
      | none =>
        have generic := isGeneric_of_tieBreaker?_eq_none hasLeft alike hasMiddle
        have same : one = other := Classical.byContradiction fun different =>
          clear ⟨generic, alike, also.symm, one, hasLeft, other, hasRight, different⟩
        simp [tie, hasLeft, hasRight, same]
      | some between =>
        simp only [tie, hasLeft, hasRight, hasMiddle] at first second ⊢
        exact Std.TransCmp.isLE_trans first second

/-- The order of tags is transitive unless the middle one obscures the order of the others. Where
the aliased names differ anywhere, they decide it alone. -/
theorem order_trans {left middle right : Tag} (clear : ¬ middle.Obscures left right)
    (first : left.order middle ≠ .gt) (second : middle.order right ≠ .gt) :
    left.order right ≠ .gt := by
  rw [ne_eq, ← Ordering.isLE_iff_ne_gt, order_eq, Ordering.isLE_then_iff_or] at first second ⊢
  rcases first with less | ⟨alike, firstTie⟩
  · left
    rcases second with alsoLess | ⟨also, -⟩
    · exact Std.TransCmp.lt_trans less alsoLess
    · rwa [← Std.LawfulEqCmp.compare_eq_iff_eq.mp also]
  · have same := Std.LawfulEqCmp.compare_eq_iff_eq.mp alike
    rw [same]
    refine second.imp id fun ⟨also, secondTie⟩ => ⟨also, ?_⟩
    exact isLE_tie_trans clear same (Std.LawfulEqCmp.compare_eq_iff_eq.mp also) firstTie secondTie

/-! Obscured orders -/

variable {generic left right : Tag}

/-- A generic tag has nothing that orders it among those of its aliased name. -/
theorem tieBreaker?_eq_none_of_isGeneric (unstructured : generic.isGeneric) :
    generic.tieBreaker? = none := by
  cases form : generic.content with
  | generic _ => simp [tieBreaker?, form]
  | param _ | returns _ | var _ | method _ | mixin _ | property _ _ =>
    simp [isGeneric, form] at unstructured

/-- Of two tags whose order is obscured, neither comes first more than the other. -/
theorem Obscures.symm (obscures : generic.Obscures left right) : generic.Obscures right left := by
  obtain ⟨unstructured, alike, also, one, hasLeft, other, hasRight, different⟩ := obscures
  exact ⟨unstructured, also, alike, other, hasRight, one, hasLeft, different.symm⟩

/-- A generic tag compares equal to the tags whose order it obscures. Stated for the left one;
the other follows by symmetry. -/
theorem Obscures.order_eq (obscures : generic.Obscures left right) :
    left.order generic = .eq := by
  obtain ⟨unstructured, alike, -⟩ := obscures
  have names : compare left.aliasedName generic.aliasedName = .eq :=
    Std.LawfulEqCmp.compare_eq_iff_eq.mpr alike
  simp [Tag.order_eq, tie, tieBreaker?_eq_none_of_isGeneric unstructured, names]

/-- Tags whose order is obscured do not compare equal: they have one aliased name and two tie
breakers. -/
theorem Obscures.order_ne (obscures : generic.Obscures left right) : left.order right ≠ .eq := by
  obtain ⟨-, alike, also, one, hasLeft, other, hasRight, different⟩ := obscures
  have names : compare left.aliasedName right.aliasedName = .eq :=
    Std.LawfulEqCmp.compare_eq_iff_eq.mpr (alike.trans also.symm)
  rw [Tag.order_eq, names, Ordering.eq_then, tie, Option.mem_def.mp hasLeft,
    Option.mem_def.mp hasRight]
  exact mt Std.LawfulEqCmp.compare_eq_iff_eq.mp different

/-- Among the tags of a set, what does not come behind another tag does not come behind any that
the other one does not come behind. -/
def OrdersTransitively (tags : Set Tag) : Prop :=
  ∀ left ∈ tags, ∀ middle ∈ tags, ∀ right ∈ tags,
    left.order middle ≠ .gt → middle.order right ≠ .gt → left.order right ≠ .gt

/-- Where the order is transitive, no tag obscures it: the generic tag in the middle would make
two tags compare equal that do not. -/
theorem OrdersTransitively.not_obscures {tags : Set Tag} (transitive : OrdersTransitively tags)
    (hasGeneric : generic ∈ tags) (hasLeft : left ∈ tags) (hasRight : right ∈ tags) :
    ¬ generic.Obscures left right := by
  intro obscures
  have before := obscures.order_eq
  have behind := obscures.symm.order_eq
  have leftFirst : left.order right ≠ .gt :=
    transitive left hasLeft generic hasGeneric right hasRight (by simp [before])
      (by simp [order_swap right generic, behind])
  have rightFirst : right.order left ≠ .gt :=
    transitive right hasRight generic hasGeneric left hasLeft (by simp [behind])
      (by simp [order_swap left generic, before])
  rw [order_swap left right] at rightFirst
  have unequal := obscures.order_ne
  cases compared : left.order right <;> simp_all

/-- Reversing two tags reverses how they compare, a tag compares equal to itself, and on a set of
tags the order is transitive exactly if the set has no generic tag together with two methods or
two properties of its aliased name that are named differently in lower case. -/
theorem order_transitive_iff :
    (∀ left right : Tag, right.order left = (left.order right).swap) ∧
      (∀ tag : Tag, tag.order tag = .eq) ∧
      ∀ tags : Set Tag, OrdersTransitively tags ↔
        ∀ generic ∈ tags, ∀ left ∈ tags, ∀ right ∈ tags, ¬ generic.Obscures left right := by
  refine ⟨order_swap, order_self, fun tags => ⟨?_, ?_⟩⟩
  · intro transitive generic hasGeneric left hasLeft right hasRight
    exact transitive.not_obscures hasGeneric hasLeft hasRight
  · intro clear left hasLeft middle hasMiddle right hasRight
    exact order_trans (clear middle hasMiddle left hasLeft right hasRight)

end DocComment.Tag
