import DocComment.Catalog.Index

/-!
# Filing and striking handles

What an index holds is the list of handles under each key. Filing puts a handle
behind those of one key, striking takes it from them, and no other key notices,
whether or not a bucket opens, is dropped or moves to another place meanwhile.
-/
namespace DocComment.Index

variable {Key : Type}

/-- A bucket holds all handles of its key. There is no second bucket of that key which could hold
more. -/
theorem handles_of_mem (index : Index Key) {key : Key} {filed : List Handle}
    (bucket : (key, filed) ∈ index.buckets) : index.handles key = filed := by
  obtain ⟨place, stood⟩ := List.mem_iff_getElem?.mp bucket
  have standing : (keysOf index.buckets)[place]? = some key := by
    rw [keysOf, List.getElem?_map, stood]
    rfl
  have same := (index.bucket_at ((index.located key place).mpr standing)).symm.trans stood
  exact (Prod.mk.inj (Option.some.inj same)).2

/-- A key without a bucket has no handles. -/
theorem handles_of_absent (index : Index Key) {key : Key}
    (absent : key ∉ keysOf index.buckets) : index.handles key = [] := by
  cases found : index.places key with
  | none => simp only [handles, found]
  | some place =>
    exact absurd (List.mem_of_getElem? ((index.located key place).mp found)) absent

/-- A key without a place has no bucket: the table names the places of all keys that have one. -/
theorem absent_of_missing (index : Index Key) {key : Key} (missing : index.places key = none) :
    key ∉ keysOf index.buckets := by
  intro member
  obtain ⟨place, standing⟩ := List.mem_iff_getElem?.mp member
  rw [← index.located key place, missing] at standing
  contradiction

/-- Two indexes agree on a key when each bucket of that key in the one is in the other and the
one has no bucket where the other has none. The places of the buckets may differ. -/
theorem handles_congr (index changed : Index Key) {key : Key}
    (kept : ∀ place, index.places key = some place → (key, index.handles key) ∈ changed.buckets)
    (unopened : key ∉ keysOf index.buckets → key ∉ keysOf changed.buckets) :
    changed.handles key = index.handles key := by
  cases located : index.places key with
  | none =>
    have absent := index.absent_of_missing located
    rw [handles_of_absent index absent, handles_of_absent changed (unopened absent)]
  | some place => exact changed.handles_of_mem (kept place located)

/-- Changing the handles of one key leaves the buckets of the others. -/
theorem mem_changeAt (index : Index Key) {key other : Key} {place position : Nat}
    (found : index.places key = some place) (located : index.places other = some position)
    (different : other ≠ key) (change : List Handle → List Handle) :
    (other, index.handles other) ∈ changeAt index.buckets place change := by
  have apart : place ≠ position := by
    rintro rfl
    exact different (index.key_unique located found)
  refine List.mem_iff_getElem?.mpr ⟨position, ?_⟩
  rw [getElem?_changeAt, index.bucket_at located, Option.map_some, if_neg apart]

/-- A changed bucket holds the changed handles, under the key that it had. -/
theorem mem_changeAt_self (index : Index Key) {key : Key} {place : Nat}
    (found : index.places key = some place) (change : List Handle → List Handle) :
    (key, change (index.handles key)) ∈ changeAt index.buckets place change := by
  refine List.mem_iff_getElem?.mpr ⟨place, ?_⟩
  rw [getElem?_changeAt, index.bucket_at found, Option.map_some, if_pos rfl]

/-- A dropped bucket was the only one of its key, so the key is gone with it. -/
theorem absent_of_eraseIdx (index : Index Key) {key : Key} {place : Nat}
    (found : index.places key = some place) : key ∉ keysOf (index.buckets.eraseIdx place) := by
  intro member
  obtain ⟨⟨opened, filed⟩, retained, rfl⟩ := List.mem_map.mp member
  obtain ⟨position, apart, stood⟩ := List.mem_eraseIdx_iff_getElem?.mp retained
  have located : index.places opened = some position :=
    (index.located opened position).mpr (by simp [keysOf, stood])
  exact apart (Option.some.inj (located.symm.trans found))

/-- Dropping a bucket keeps those of the other keys, although some of them move. -/
theorem mem_eraseIdx (index : Index Key) {key other : Key} {place position : Nat}
    (found : index.places key = some place) (located : index.places other = some position)
    (different : other ≠ key) :
    (other, index.handles other) ∈ index.buckets.eraseIdx place := by
  refine List.mem_eraseIdx_iff_getElem?.mpr ⟨position, ?_, index.bucket_at located⟩
  rintro rfl
  exact different (index.key_unique located found)

variable [DecidableEq Key]

/-- Filing adds the handle behind those of its key and changes no other key. It makes no
difference whether the key had a bucket before. -/
theorem handles_file (index : Index Key) (key other : Key) (handle : Handle) :
    (index.file key handle).handles other =
      if other = key then index.handles key ++ [handle] else index.handles other := by
  by_cases same : other = key
  · subst other
    rw [if_pos rfl]
    unfold file
    split
    · rename_i place found
      exact handles_of_mem _ (index.mem_changeAt_self found (· ++ [handle]))
    · rename_i missing
      apply handles_of_mem
      simp [handles_of_absent index (index.absent_of_missing missing)]
  · rw [if_neg same]
    unfold file
    split
    · rename_i place found
      apply handles_congr
      · exact fun position located =>
          index.mem_changeAt found located same (· ++ [handle])
      · simp only [keysOf_changeAt]
        exact id
    · rename_i missing
      apply handles_congr
      · intro position located
        exact List.mem_append_left _ (List.mem_of_getElem? (index.bucket_at located))
      · intro absent
        simpa [keysOf, same] using absent

/-- Striking takes the handle from those of its key and changes no other key. If nothing is left,
the bucket is dropped, and the others move without a change. -/
theorem handles_strike (index : Index Key) (key other : Key) (handle : Handle) :
    (index.strike key handle).handles other =
      if other = key then (index.handles key).filter (· ≠ handle) else index.handles other := by
  by_cases same : other = key
  · subst other
    rw [if_pos rfl]
    unfold strike
    split
    · rename_i missing
      simp [handles_of_absent index (index.absent_of_missing missing)]
    · rename_i place found
      split
      · exact handles_of_mem _ (index.mem_changeAt_self found (·.filter (· ≠ handle)))
      · rename_i emptied
        rw [Classical.not_not.mp emptied]
        exact handles_of_absent _ (index.absent_of_eraseIdx found)
  · rw [if_neg same]
    unfold strike
    split
    · rfl
    · rename_i place found
      split
      · apply handles_congr
        · exact fun position located =>
            index.mem_changeAt found located same (·.filter (· ≠ handle))
        · simp only [keysOf_changeAt]
          exact id
      · apply handles_congr
        · exact fun position located => index.mem_eraseIdx found located same
        · intro absent member
          obtain ⟨bucket, retained, opened⟩ := List.mem_map.mp member
          exact absent (List.mem_map.mpr ⟨bucket, List.mem_of_mem_eraseIdx retained, opened⟩)

/-- Filing under several distinct keys adds the handle once under each of them. The induction is
on the keys. -/
theorem handles_foldl_file (index : Index Key) (keys : List Key) (handle : Handle)
    (distinct : keys.Nodup) (other : Key) :
    (keys.foldl (fun filed key => filed.file key handle) index).handles other =
      index.handles other ++ if other ∈ keys then [handle] else [] := by
  induction keys generalizing index with
  | nil => simp
  | cons key rest inductionHypothesis =>
    obtain ⟨absent, distinctRest⟩ := List.nodup_cons.mp distinct
    rw [List.foldl_cons, inductionHypothesis _ distinctRest, handles_file]
    by_cases same : other = key
    · subst other
      simp [absent]
    · simp [same]

/-- Striking under several keys takes the handle from each of them. The keys need not be
distinct, as a second strike finds nothing. -/
theorem handles_foldl_strike (index : Index Key) (keys : List Key) (handle : Handle)
    (other : Key) :
    (keys.foldl (fun struck key => struck.strike key handle) index).handles other =
      if other ∈ keys then (index.handles other).filter (· ≠ handle)
      else index.handles other := by
  induction keys generalizing index with
  | nil => simp
  | cons key rest inductionHypothesis =>
    rw [List.foldl_cons, inductionHypothesis, handles_strike]
    by_cases same : other = key
    · subst other
      simp [List.filter_filter]
    · simp [same]

/-! The keys themselves come and go with their handles: a key has a bucket as long as it has
handles, a new key stands behind all others, and those that remain keep their order. -/

omit [DecidableEq Key] in
/-- The keys that have a bucket are those that have handles. -/
theorem mem_keysOf_iff (index : Index Key) (key : Key) :
    key ∈ keysOf index.buckets ↔ index.handles key ≠ [] := by
  constructor
  · intro member
    obtain ⟨⟨opened, filed⟩, bucket, rfl⟩ := List.mem_map.mp member
    rw [index.handles_of_mem bucket]
    exact index.filled _ bucket
  · intro filed
    exact Classical.byContradiction fun absent => filed (index.handles_of_absent absent)

/-- Filing under a new key puts it behind the others, and moves none of them; filing under an old
one leaves the row of keys as it is. -/
theorem keysOf_file (index : Index Key) (key : Key) (handle : Handle) :
    keysOf (index.file key handle).buckets =
      keysOf index.buckets ++ if key ∈ keysOf index.buckets then [] else [key] := by
  unfold file
  split
  · rename_i place found
    have present : key ∈ keysOf index.buckets :=
      List.mem_of_getElem? ((index.located key place).mp found)
    simp only [keysOf_changeAt, if_pos present, List.append_nil]
  · rename_i missing
    rw [if_neg (index.absent_of_missing missing)]
    exact List.map_append

/-- Filing under several distinct keys puts the new ones behind the others, in their order. -/
theorem keysOf_foldl_file (index : Index Key) (keys : List Key) (handle : Handle)
    (distinct : keys.Nodup) :
    keysOf (keys.foldl (fun filed key => filed.file key handle) index).buckets =
      keysOf index.buckets ++ keys.filter (· ∉ keysOf index.buckets) := by
  induction keys generalizing index with
  | nil => simp
  | cons key rest inductionHypothesis =>
    obtain ⟨absent, distinctRest⟩ := List.nodup_cons.mp distinct
    rw [List.foldl_cons, inductionHypothesis _ distinctRest, keysOf_file]
    by_cases present : key ∈ keysOf index.buckets
    · simp [present]
    · have others : rest.filter (· ∉ keysOf index.buckets ++ [key]) =
          rest.filter (· ∉ keysOf index.buckets) := by
        refine List.filter_congr fun other member => ?_
        have different : other ≠ key := by
          rintro rfl
          exact absent member
        simp [different]
      rw [if_neg present, others, List.append_assoc]
      simp [present]

/-- Striking moves no key; at most the one whose bucket it empties is gone. -/
theorem keysOf_strike_sublist (index : Index Key) (key : Key) (handle : Handle) :
    (keysOf (index.strike key handle).buckets).Sublist (keysOf index.buckets) := by
  unfold strike
  split
  · exact List.Sublist.refl _
  · split
    · simp only [keysOf_changeAt, List.Sublist.refl]
    · exact (List.eraseIdx_sublist _ _).map _

/-- Striking under several keys moves no key either, and drops some of them at most. -/
theorem keysOf_foldl_strike_sublist (index : Index Key) (keys : List Key) (handle : Handle) :
    (keysOf (keys.foldl (fun struck key => struck.strike key handle) index).buckets).Sublist
      (keysOf index.buckets) := by
  induction keys generalizing index with
  | nil => exact List.Sublist.refl _
  | cons key rest inductionHypothesis =>
    exact (inductionHypothesis _).trans (index.keysOf_strike_sublist key handle)

end DocComment.Index
