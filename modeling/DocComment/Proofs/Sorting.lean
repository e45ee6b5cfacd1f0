import DocComment.Sorting

/-!
# Stable arrangements

A stable arrangement of some elements has them in an order in which none compares greater
than a later one, and leaves those that compare equal as they stood. Where the comparison is
oriented and transitive on the elements, sorting gives a stable arrangement; where no element
is repeated, there is only one. A stable arrangement of some of the elements is therefore
what remains of the arrangement of all, whichever sort is used for either.
-/
namespace DocComment

section

variable {α : Type} {order : α → α → Ordering} {elements sorted : List α}

/-- A comparison puts some elements in an order: it is oriented and transitive on them. Elsewhere
it may be neither, and on these elements different ones may compare equal. -/
structure Arranges (order : α → α → Ordering) (elements : List α) : Prop where
  oriented : ∀ left ∈ elements, ∀ right ∈ elements, order right left = (order left right).swap
  transitive : ∀ left ∈ elements, ∀ middle ∈ elements, ∀ right ∈ elements,
    order left middle ≠ .gt → order middle right ≠ .gt → order left right ≠ .gt

/-- The elements in ascending order, equal ones in the order in which they stood. Nothing in it
mentions how the arrangement is found. -/
structure StablySorted (order : α → α → Ordering) (elements sorted : List α) : Prop where
  rearranged : sorted.Perm elements
  ascending : sorted.Pairwise fun left right => order left right ≠ .gt
  stable : ∀ left right, [left, right].Sublist elements → order left right = .eq →
    [left, right].Sublist sorted

/-- A comparison that arranges some elements arranges any of them. Elements that are sorted thus
bring the assumption along for their parts. -/
theorem Arranges.mono {some : List α} (arranges : Arranges order elements)
    (within : ∀ element ∈ some, element ∈ elements) : Arranges order some where
  oriented left inLeft right inRight :=
    arranges.oriented left (within left inLeft) right (within right inRight)
  transitive left inLeft middle inMiddle right inRight :=
    arranges.transitive left (within left inLeft) middle (within middle inMiddle)
      right (within right inRight)

/-- An element is placed between two parts of the reversed sequence: it is less than all that it
passed, and not less than the one at which it stopped. The comparison is not assumed to be an
order here. -/
theorem exists_placeReversed (order : α → α → Ordering) (element : α) (placed : List α) :
    ∃ passed kept, placed = passed ++ kept ∧
      placeReversed order element placed = passed ++ element :: kept ∧
      (∀ other ∈ passed, order element other = .lt) ∧
      ∀ last ∈ kept.head?, order element last ≠ .lt := by
  induction placed with
  | nil => exact ⟨[], [], rfl, rfl, by simp, by simp⟩
  | cons last others inductionHypothesis =>
    rw [placeReversed]
    by_cases less : order element last = .lt
    · obtain ⟨passed, kept, rfl, placed, lessThanPassed, stopped⟩ := inductionHypothesis
      refine ⟨last :: passed, kept, rfl, by rw [if_pos less, placed, List.cons_append], ?_, stopped⟩
      intro other member
      rcases List.mem_cons.mp member with rfl | later
      · exact less
      · exact lessThanPassed other later
    · refine ⟨[], last :: others, rfl, if_neg less, by simp, ?_⟩
      intro other first
      obtain rfl : last = other := by simpa using first
      exact less

/-- Two elements in the order in which they stand in a sequence with one more at its end: they
stood so before, or the second is the one at the end. Stability is a statement about such
pairs. -/
theorem pair_sublist_concat {front : List α} {element left right : α} :
    [left, right].Sublist (front ++ [element]) ↔
      [left, right].Sublist front ∨ (left ∈ front ∧ right = element) := by
  rw [← List.reverse_sublist, List.reverse_append, List.reverse_singleton,
    List.singleton_append, List.sublist_cons_iff]
  constructor
  · rintro (both | ⟨others, same, within⟩)
    · exact .inl (List.reverse_sublist.mp both)
    · obtain ⟨rfl, rfl⟩ : right = element ∧ [left] = others := by simpa using same
      exact .inr ⟨by simpa using within, rfl⟩
  · rintro (both | ⟨member, rfl⟩)
    · exact .inl (List.reverse_sublist.mpr both)
    · exact .inr ⟨[left], rfl, by simpa using member⟩

/-- An arrangement stays stable with one more element, if that is put behind all that compare at
most equal to it and in front of all that compare greater. The element comes last in the
sequence, so those equal to it stood before it. -/
theorem StablySorted.insert {front kept passed : List α} {element : α}
    (arranged : StablySorted order front (kept ++ passed))
    (atMost : ∀ other ∈ kept, order other element ≠ .gt)
    (less : ∀ other ∈ passed, order element other = .lt)
    (greater : ∀ other ∈ passed, order other element = .gt) :
    StablySorted order (front ++ [element]) (kept ++ element :: passed) := by
  obtain ⟨rearranged, ascending, stable⟩ := arranged
  refine ⟨?_, ?_, ?_⟩
  · exact List.perm_middle.trans ((rearranged.cons element).trans
      (List.perm_append_singleton element front).symm)
  · obtain ⟨keptAscending, passedAscending, across⟩ := List.pairwise_append.mp ascending
    refine List.pairwise_append.mpr
      ⟨keptAscending, List.pairwise_cons.mpr ⟨?_, passedAscending⟩, ?_⟩
    · intro other member
      simp [less other member]
    · intro earlier inKept later member
      rcases List.mem_cons.mp member with rfl | inPassed
      · exact atMost earlier inKept
      · exact across earlier inKept later inPassed
  · intro left right standing equal
    have widened : (kept ++ passed).Sublist (kept ++ element :: passed) :=
      (List.Sublist.refl kept).append (List.sublist_cons_self element passed)
    rcases pair_sublist_concat.mp standing with both | ⟨member, rfl⟩
    · exact (stable left right both equal).trans widened
    · have inKept : left ∈ kept := by
        rcases List.mem_append.mp (rearranged.mem_iff.mpr member) with inKept | inPassed
        · exact inKept
        · simp [greater left inPassed] at equal
      exact (List.singleton_sublist.mpr inKept).append
        ((List.nil_sublist passed).cons_cons right)

/-- Placing one more element keeps an arrangement stable. Here the comparison has to be
transitive, since the element is compared with few of the others only. -/
theorem StablySorted.place {front placed : List α} {element : α}
    (arranged : StablySorted order front placed.reverse)
    (arranges : Arranges order (front ++ [element])) :
    StablySorted order (front ++ [element]) (placeReversed order element placed).reverse := by
  obtain ⟨passed, kept, rfl, placing, less, stopped⟩ := exists_placeReversed order element placed
  rw [List.reverse_append] at arranged
  rw [placing, List.reverse_append, List.reverse_cons, List.append_assoc, List.singleton_append]
  have among (other : α) (member : other ∈ kept.reverse ++ passed.reverse) :
      other ∈ front ++ [element] :=
    List.mem_append_left _ (arranged.rearranged.mem_iff.mp member)
  have itself : element ∈ front ++ [element] := by simp
  refine arranged.insert ?_ (fun other member => less other (by simpa using member)) ?_
  · -- the last of those kept compares at most equal, and all before it at most equal to that
    cases kept with
    | nil => simp
    | cons last others =>
      have lastAtMost : order last element ≠ .gt := by
        rw [arranges.oriented element itself last (among last (by simp))]
        have notLess := stopped last rfl
        cases compared : order element last <;> simp_all
      have ascending := (List.pairwise_append.mp arranged.ascending).1
      rw [List.reverse_cons] at ascending ⊢
      intro other member
      rcases List.mem_append.mp member with earlier | final
      · exact arranges.transitive other (among other (by simp [List.mem_reverse.mp earlier]))
          last (among last (by simp)) element itself
          ((List.pairwise_append.mp ascending).2.2 other earlier last (by simp)) lastAtMost
      · rw [List.mem_singleton.mp final]
        exact lastAtMost
  · intro other member
    rw [arranges.oriented element itself other (among other (by simp [member]))]
    simp [less other (by simpa using member)]

/-- Sorting gives a stable arrangement, where the comparison arranges the elements. The induction
is on the elements from the last one back, as they are placed. -/
theorem stablySorted_sortBy (arranges : Arranges order elements) :
    StablySorted order elements (sortBy order elements) := by
  have placed (front rest start : List α) (arranged : StablySorted order front start.reverse)
      (also : Arranges order (front ++ rest)) :
      StablySorted order (front ++ rest)
        (rest.foldl (fun placed element => placeReversed order element placed) start).reverse := by
    induction rest generalizing front start with
    | nil => simpa using arranged
    | cons element rest inductionHypothesis =>
      have whole : front ++ element :: rest = (front ++ [element]) ++ rest := by simp
      rw [whole] at also ⊢
      exact inductionHypothesis (front ++ [element]) _
        (arranged.place (also.mono fun other member => List.mem_append_left rest member)) also
  exact placed [] elements [] ⟨.refl [], .nil, by simp⟩ arranges

/-- Two elements of a sequence stand in it in one order or in the other; with repetition they may
stand in both. -/
theorem pair_sublist_or {left right : α} (hasLeft : left ∈ elements) (hasRight : right ∈ elements)
    (different : left ≠ right) :
    [left, right].Sublist elements ∨ [right, left].Sublist elements := by
  induction elements with
  | nil => contradiction
  | cons first rest inductionHypothesis =>
    rcases List.mem_cons.mp hasLeft with rfl | leftLater <;>
      rcases List.mem_cons.mp hasRight with rfl | rightLater
    · contradiction
    · exact .inl ((List.singleton_sublist.mpr rightLater).cons_cons left)
    · exact .inr ((List.singleton_sublist.mpr leftLater).cons_cons right)
    · exact (inductionHypothesis leftLater rightLater).imp (.cons first) (.cons first)

/-- In a sequence without repetition two elements stand in one order only. -/
theorem not_pair_sublist {left right : α} (distinct : elements.Nodup)
    (standing : [left, right].Sublist elements) : ¬ [right, left].Sublist elements := by
  induction elements with
  | nil => cases standing
  | cons first rest inductionHypothesis =>
    obtain ⟨absent, distinctRest⟩ := List.nodup_cons.mp distinct
    intro reversed
    cases standing with
    | cons _ later =>
      cases reversed with
      | cons _ alsoLater => exact inductionHypothesis distinctRest later alsoLater
      | cons_cons _ _ => exact absent (later.subset (by simp))
    | cons_cons _ behind =>
      cases reversed with
      | cons _ alsoLater => exact absent (alsoLater.subset (by simp))
      | cons_cons _ _ => exact absent (List.singleton_sublist.mp behind)

/-- Without repetition, an earlier element of a stable arrangement is less than a later one, or
equal to it and stood before it. This tells the whole order of the arrangement. -/
theorem StablySorted.pairwise (arranged : StablySorted order elements sorted)
    (arranges : Arranges order elements) (distinct : elements.Nodup) :
    sorted.Pairwise fun left right => order left right = .lt ∨
      (order left right = .eq ∧ [left, right].Sublist elements) := by
  have distinctSorted : sorted.Nodup := arranged.rearranged.nodup_iff.mpr distinct
  refine List.pairwise_iff_forall_sublist.mpr ?_
  intro left right standing
  have hasLeft := arranged.rearranged.mem_iff.mp (standing.subset (by simp : left ∈ [left, right]))
  have hasRight :=
    arranged.rearranged.mem_iff.mp (standing.subset (by simp : right ∈ [left, right]))
  have different : left ≠ right := by
    rintro rfl
    simpa using standing.nodup distinctSorted
  cases compared : order left right with
  | lt => exact .inl rfl
  | gt => exact absurd compared (List.pairwise_iff_forall_sublist.mp arranged.ascending standing)
  | eq =>
    refine .inr ⟨rfl, (pair_sublist_or hasLeft hasRight different).resolve_right ?_⟩
    intro reversed
    have equal : order right left = .eq := by
      rw [arranges.oriented left hasLeft right hasRight, compared]
      rfl
    exact not_pair_sublist distinctSorted standing (arranged.stable right left reversed equal)

/-- Without repetition there is one stable arrangement, that of the sort. So whatever way of
sorting is used, if it is stable it has this result. -/
theorem stablySorted_iff (arranges : Arranges order elements) (distinct : elements.Nodup) :
    StablySorted order elements sorted ↔ sorted = sortBy order elements := by
  constructor
  · intro arranged
    have bySort := stablySorted_sortBy arranges
    refine List.Perm.eq_of_pairwise ?_ (arranged.pairwise arranges distinct)
      (bySort.pairwise arranges distinct) (arranged.rearranged.trans bySort.rearranged.symm)
    intro left right hasLeft hasRight forth back
    have oriented := arranges.oriented left (arranged.rearranged.mem_iff.mp hasLeft) right
      (bySort.rearranged.mem_iff.mp hasRight)
    rcases forth with less | ⟨equal, standing⟩
    · rcases back with alsoLess | ⟨alsoEqual, -⟩ <;> simp_all
    · rcases back with alsoLess | ⟨-, reversed⟩
      · simp_all
      · exact absurd reversed (not_pair_sublist distinct standing)
  · rintro rfl
    exact stablySorted_sortBy arranges

/-- What remains of a stable arrangement arranges what remains of the elements, whichever are
kept. -/
theorem StablySorted.filter (arranged : StablySorted order elements sorted) (keep : α → Bool) :
    StablySorted order (elements.filter keep) (sorted.filter keep) where
  rearranged := arranged.rearranged.filter keep
  ascending := arranged.ascending.filter keep
  stable left right standing equal := by
    have both := arranged.stable left right (standing.trans List.filter_sublist) equal
    have kept : [left, right].filter keep = [left, right] :=
      List.filter_eq_self.mpr fun other member =>
        (List.mem_filter.mp (standing.subset member)).2
    rw [← kept]
    exact both.filter keep

/-- Sorting some of the elements gives what remains of them when all are sorted. It follows from
there being one stable arrangement, not from how the sort goes about it. -/
theorem sortBy_filter (arranges : Arranges order elements) (distinct : elements.Nodup)
    (keep : α → Bool) :
    sortBy order (elements.filter keep) = (sortBy order elements).filter keep := by
  have arrangesKept : Arranges order (elements.filter keep) :=
    arranges.mono fun _ member => (List.mem_filter.mp member).1
  exact ((stablySorted_iff arrangesKept (distinct.filter keep)).mp
    ((stablySorted_sortBy arranges).filter keep)).symm

/-- In a sequence that ascends by a key, the elements of one key stand together: those of lesser
keys precede them and those of greater keys follow. The elements of that key may be none. -/
theorem eq_append_of_ascending {Key : Type} [Ord Key] [Std.TransOrd Key] (key : α → Key)
    (sought : Key)
    (ascending : elements.Pairwise fun left right => compare (key left) (key right) ≠ .gt) :
    elements = elements.filter (fun element => compare (key element) sought = .lt) ++
      (elements.filter (fun element => compare (key element) sought = .eq) ++
        elements.filter (fun element => compare (key element) sought = .gt)) := by
  induction elements with
  | nil => rfl
  | cons first rest inductionHypothesis =>
    obtain ⟨leastFirst, ascendingRest⟩ := List.pairwise_cons.mp ascending
    have whole := inductionHypothesis ascendingRest
    have behind {element : α} (member : element ∈ rest) :
        (compare (key first) (key element)).isLE :=
      Ordering.isLE_iff_ne_gt.mpr (leastFirst element member)
    cases compared : compare (key first) sought with
    | lt => simpa [compared] using whole
    | eq =>
      have none : rest.filter (fun element => compare (key element) sought = .lt) = [] := by
        refine List.filter_eq_nil_iff.mpr fun element member => ?_
        intro less
        have firstLess := Std.TransCmp.lt_of_isLE_of_lt (behind member) (of_decide_eq_true less)
        simp [compared] at firstLess
      rw [none] at whole
      simpa [compared, none] using whole
    | gt =>
      have above {element : α} (member : element ∈ rest) :
          compare (key element) sought = .gt :=
        Std.OrientedCmp.gt_iff_lt.mpr (Std.TransCmp.lt_of_lt_of_isLE
          (Std.OrientedCmp.gt_iff_lt.mp compared) (behind member))
      have none (other : Ordering) (different : other ≠ .gt) :
          rest.filter (fun element => compare (key element) sought = other) = [] :=
        List.filter_eq_nil_iff.mpr fun element member => by
          simp [above member, different.symm]
      have all : rest.filter (fun element => compare (key element) sought = .gt) = rest :=
        List.filter_eq_self.mpr fun element member => by simp [above member]
      simp [compared, none .lt (by decide), none .eq (by decide), all]

end

end DocComment
