/-!
# Sorting by a comparison

Elements are placed one after another, each behind those before it that do not
compare greater, seen from the end. Elements that compare equal therefore keep
their order. The result is kept reversed while it grows, so that the end is met
first.
-/
namespace DocComment

/-- A reversed sequence with one more element: it passes those it is less than, and stops at the
first one that it is not less than. -/
def placeReversed (order : α → α → Ordering) (element : α) : List α → List α
  | [] => [element]
  | last :: others =>
    if order element last = .lt then last :: placeReversed order element others
    else element :: last :: others

/-- The elements in the order of the comparison, equal ones in their own order. The comparison
may be any function here: for one that is no total order the result is what placing the elements
one after another gives. A sort that notices the contradictions of such a comparison may panic
instead; that is left out, and wherever the order of a result matters, the comparison is assumed
to arrange the elements. -/
def sortBy (order : α → α → Ordering) (elements : List α) : List α :=
  (elements.foldl (fun placed element => placeReversed order element placed) []).reverse

/-- Placing an element loses none of the others, and the element is there once. -/
theorem placeReversed_perm (order : α → α → Ordering) (element : α) (placed : List α) :
    (placeReversed order element placed).Perm (element :: placed) := by
  induction placed with
  | nil => rfl
  | cons last others inductionHypothesis =>
    simp only [placeReversed]
    split
    · exact (inductionHypothesis.cons last).trans (.swap element last others)
    · rfl

/-- Sorting loses and adds no element. Nothing is assumed of the comparison for that. -/
theorem sortBy_perm (order : α → α → Ordering) (elements : List α) :
    (sortBy order elements).Perm elements := by
  have placed (start : List α) :
      (elements.foldl (fun placed element => placeReversed order element placed) start).Perm
        (elements.reverse ++ start) := by
    induction elements generalizing start with
    | nil => rfl
    | cons element rest inductionHypothesis =>
      simp only [List.foldl_cons, List.reverse_cons, List.append_assoc, List.singleton_append]
      exact (inductionHypothesis _).trans
        ((placeReversed_perm order element start).append_left rest.reverse)
  have gathered := placed []
  rw [List.append_nil] at gathered
  exact (List.reverse_perm _).trans (gathered.trans (List.reverse_perm elements))

end DocComment
