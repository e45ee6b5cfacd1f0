/-!
# Indexes of handles

An index files handles under keys. Its buckets stand in the order in which they
were opened. The bucket of a key opens with the first handle filed under it, and
is dropped with the last one struck out; a key that is filed again later opens a
new bucket behind all others.

No bucket is searched for: a table gives the place of each key among the buckets.
Dropping a bucket moves those behind it forward, and their places are written anew.
That the table is true to the buckets is part of every index.
-/
namespace DocComment

/-- The number of a tag in its catalog, counted from zero in order of insertion. -/
abbrev Handle := Nat

namespace Index

variable {Key : Type}

/-- The keys of some buckets, in their order. -/
def keysOf (buckets : List (Key × List Handle)) : List Key := buckets.map (·.1)

/-- A table is true to buckets when it names the places at which their keys stand. No key can
then stand at two places. -/
def Located (places : Key → Option Nat) (buckets : List (Key × List Handle)) : Prop :=
  ∀ key place, places key = some place ↔ (keysOf buckets)[place]? = some key

end Index

/-- Buckets of handles, none of them empty, and the places of their keys. That the table is true
to the buckets is a part of every index. -/
structure Index (Key : Type) where
  buckets : List (Key × List Handle)
  places : Key → Option Nat
  located : Index.Located places buckets
  filled : ∀ bucket ∈ buckets, bucket.2 ≠ []

namespace Index

variable {Key : Type}

/-- The index without any key. -/
def empty : Index Key := ⟨[], fun _ => none, by simp [Located, keysOf], by simp⟩

/-- The handles filed under a key, in the order of filing. A key without a place has none. -/
def handles (index : Index Key) (key : Key) : List Handle :=
  match index.places key with
  | none => []
  | some place => (index.buckets[place]?).elim [] (·.2)

/-- The buckets with the handles at one place changed, and all keys where they were. -/
def changeAt (buckets : List (Key × List Handle)) (place : Nat)
    (change : List Handle → List Handle) : List (Key × List Handle) :=
  buckets.modify place fun bucket => (bucket.1, change bucket.2)

/-- A change reaches the handles at its place and no others. -/
theorem getElem?_changeAt (buckets : List (Key × List Handle)) (place other : Nat)
    (change : List Handle → List Handle) :
    (changeAt buckets place change)[other]? = buckets[other]?.map fun bucket =>
      (bucket.1, if place = other then change bucket.2 else bucket.2) := by
  by_cases here : place = other
  · subst other
    simp only [changeAt, List.getElem?_modify_eq, if_true]
    rfl
  · simp [changeAt, List.getElem?_modify_ne _ _ here, here]

/-- A change of handles moves no key, so the table stays true. -/
theorem keysOf_changeAt (buckets : List (Key × List Handle)) (place : Nat)
    (change : List Handle → List Handle) :
    keysOf (changeAt buckets place change) = keysOf buckets := by
  apply List.ext_getElem?
  intro other
  simp only [keysOf, List.getElem?_map, getElem?_changeAt, Option.map_map]
  rfl

/-- A bucket that is dropped takes its key along and leaves the other keys in their order. -/
theorem keysOf_eraseIdx (buckets : List (Key × List Handle)) (place : Nat) :
    keysOf (buckets.eraseIdx place) = (keysOf buckets).eraseIdx place := by
  simp only [keysOf, List.eraseIdx_eq_take_drop_succ, List.map_append, List.map_take,
    List.map_drop]

/-- Behind the place of a dropped bucket stand the keys that stood behind that bucket. -/
theorem keysOf_drop_eraseIdx (buckets : List (Key × List Handle)) {place : Nat}
    (inside : place < buckets.length) :
    keysOf ((buckets.eraseIdx place).drop place) = (keysOf buckets).drop (place + 1) := by
  have front : (buckets.take place).length = place := by
    simp only [List.length_take]
    omega
  rw [List.eraseIdx_eq_take_drop_succ, List.drop_left' front]
  exact List.map_drop

/-- A key with a place has a bucket there, and it holds the handles of the key. -/
theorem bucket_at (index : Index Key) {key : Key} {place : Nat}
    (found : index.places key = some place) :
    index.buckets[place]? = some (key, index.handles key) := by
  have standing := (index.located key place).mp found
  simp only [keysOf, List.getElem?_map] at standing
  obtain ⟨⟨opened, filed⟩, bucket, rfl⟩ := Option.map_eq_some_iff.mp standing
  simp only [handles, found, bucket, Option.elim_some]

/-- Two keys at one place are one key, as a place has one bucket. -/
theorem key_unique (index : Index Key) {key other : Key} {place : Nat}
    (found : index.places key = some place) (also : index.places other = some place) :
    key = other :=
  Option.some.inj (((index.located key place).mp found).symm.trans
    ((index.located other place).mp also))

/-- A change that leaves handles under the key at its place leaves no bucket empty. -/
theorem filled_changeAt (index : Index Key) {key : Key} {place : Nat}
    (found : index.places key = some place) (change : List Handle → List Handle)
    (kept : change (index.handles key) ≠ []) :
    ∀ bucket ∈ changeAt index.buckets place change, bucket.2 ≠ [] := by
  intro bucket member
  obtain ⟨other, standing⟩ := List.mem_iff_getElem?.mp member
  rw [getElem?_changeAt] at standing
  obtain ⟨before, stood, rfl⟩ := Option.map_eq_some_iff.mp standing
  by_cases here : place = other
  · subst other
    rw [index.bucket_at found] at stood
    obtain rfl := Option.some.inj stood
    simpa using kept
  · simpa [here] using index.filled before (List.mem_of_getElem? stood)

/-- In an index no key stands at two places, since its table names one place for each. -/
theorem nodup_keys (index : Index Key) : (keysOf index.buckets).Nodup := by
  refine List.pairwise_iff_getElem.mpr ?_
  intro first second inside bounded before same
  have atFirst := (index.located _ first).mpr (List.getElem?_eq_getElem inside)
  have atSecond := (index.located _ second).mpr (List.getElem?_eq_getElem bounded)
  rw [same, atSecond] at atFirst
  have equal : second = first := Option.some.inj atFirst
  omega

variable [DecidableEq Key]

/-- The table with a key at a place. Where the key was before is forgotten. -/
def put (places : Key → Option Nat) (key : Key) (place : Nat) : Key → Option Nat :=
  fun other => if other = key then some place else places other

/-- The table without a key. -/
def forget (places : Key → Option Nat) (key : Key) : Key → Option Nat :=
  fun other => if other = key then none else places other

/-- The table with the keys of some buckets one behind the other from a place on. -/
def putAll (places : Key → Option Nat) (first : Nat) :
    List (Key × List Handle) → Key → Option Nat
  | [] => places
  | bucket :: others => putAll (put places bucket.1 first) (first + 1) others

/-- Writing a row of distinct keys into a table names their places and leaves the places of all
other keys. -/
theorem putAll_eq_some (places : Key → Option Nat) (first : Nat)
    (row : List (Key × List Handle)) (distinct : (keysOf row).Nodup) (key : Key) (place : Nat) :
    putAll places first row key = some place ↔
      (first ≤ place ∧ (keysOf row)[place - first]? = some key) ∨
        (key ∉ keysOf row ∧ places key = some place) := by
  induction row generalizing places first with
  | nil => simp [putAll, keysOf]
  | cons bucket others inductionHypothesis =>
    obtain ⟨absent, distinctOthers⟩ : bucket.1 ∉ keysOf others ∧ (keysOf others).Nodup :=
      List.nodup_cons.mp distinct
    rw [putAll, inductionHypothesis _ _ distinctOthers]
    change _ ↔ (first ≤ place ∧ (bucket.1 :: keysOf others)[place - first]? = some key) ∨
      (key ∉ bucket.1 :: keysOf others ∧ places key = some place)
    by_cases same : key = bucket.1
    · subst key
      have elsewhere (position : Nat) : (keysOf others)[position]? ≠ some bucket.1 :=
        fun standing => absent (List.mem_of_getElem? standing)
      cases ahead : place - first with
      | zero =>
        simp [put, elsewhere, absent]
        omega
      | succ behind =>
        simp [put, elsewhere, absent]
        omega
    · have unwritten : put places bucket.1 first key = places key := if_neg same
      rw [unwritten, List.mem_cons, not_or]
      cases ahead : place - first with
      | zero =>
        have apart : bucket.1 ≠ key := fun equal => same equal.symm
        simp [same, apart]
        omega
      | succ behind =>
        have reached : place - (first + 1) = behind := by omega
        have later : first + 1 ≤ place ∧ first ≤ place := by omega
        simp [same, reached, later]

/-- A key without a bucket may open one behind all others. No other key moves. -/
theorem located_append (index : Index Key) {key : Key} (missing : index.places key = none)
    (filed : List Handle) :
    Located (put index.places key index.buckets.length) (index.buckets ++ [(key, filed)]) := by
  intro other place
  have width : (keysOf index.buckets).length = index.buckets.length := List.length_map _
  have keys : keysOf (index.buckets ++ [(key, filed)]) = keysOf index.buckets ++ [key] :=
    List.map_append
  rw [keys, List.getElem?_append, width]
  by_cases inside : place < index.buckets.length
  · rw [if_pos inside, ← index.located other place]
    by_cases same : other = key
    · subst other
      have elsewhere : index.buckets.length ≠ place := Nat.ne_of_gt inside
      simp [put, missing, elsewhere]
    · simp [put, same]
  · rw [if_neg inside]
    have outside : index.places other ≠ some place := by
      intro found
      have standing := (index.located other place).mp found
      rw [List.getElem?_eq_none (by omega)] at standing
      contradiction
    by_cases same : other = key
    · subst other
      cases behind : place - index.buckets.length with
      | zero =>
        have last : index.buckets.length = place := by omega
        simp [put, last]
      | succ beyond =>
        have apart : index.buckets.length ≠ place := by omega
        simp [put, apart]
    · have apart : key ≠ other := fun equal => same equal.symm
      cases behind : place - index.buckets.length <;> simp [put, same, apart, outside]

/-- When a bucket is dropped, its key is forgotten and the buckets behind it are written at the
places they move to. Those in front of it stay. -/
theorem located_eraseIdx (index : Index Key) {key : Key} {place : Nat}
    (found : index.places key = some place) :
    Located
      (putAll (forget index.places key) place ((index.buckets.eraseIdx place).drop place))
      (index.buckets.eraseIdx place) := by
  intro other position
  have behind := keysOf_drop_eraseIdx index.buckets
    (List.getElem?_eq_some_iff.mp (index.bucket_at found)).1
  have distinct : ((keysOf index.buckets).drop (place + 1)).Nodup :=
    index.nodup_keys.sublist (List.drop_sublist _ _)
  rw [putAll_eq_some _ _ _ (behind ▸ distinct), behind, keysOf_eraseIdx, List.getElem?_drop,
    List.getElem?_eraseIdx]
  by_cases before : position < place
  · have apart : ¬ place ≤ position := by omega
    simp only [apart, before, false_and, false_or, if_true, ← index.located other position]
    constructor
    · rintro ⟨-, unforgotten⟩
      by_cases same : other = key
      · simp [forget, same] at unforgotten
      · simpa [forget, same] using unforgotten
    · intro located
      have different : other ≠ key := by
        rintro rfl
        have equal : place = position := Option.some.inj (found.symm.trans located)
        omega
      refine ⟨?_, by simpa [forget, different] using located⟩
      intro member
      obtain ⟨offset, atOffset⟩ := List.mem_iff_getElem?.mp member
      rw [List.getElem?_drop, ← index.located other _, located] at atOffset
      have equal : position = place + 1 + offset := Option.some.inj atOffset
      omega
  · have reached : place + 1 + (position - place) = position + 1 := by omega
    have notBefore : place ≤ position := by omega
    simp only [notBefore, before, true_and, reached, if_false]
    constructor
    · rintro (moved | ⟨notBehind, unforgotten⟩)
      · exact moved
      · exfalso
        have different : other ≠ key := by
          rintro rfl
          simp [forget] at unforgotten
        have located : index.places other = some position := by
          simpa [forget, different] using unforgotten
        have ahead : position ≠ place := by
          rintro rfl
          exact different (index.key_unique located found)
        apply notBehind
        refine List.mem_iff_getElem?.mpr ⟨position - (place + 1), ?_⟩
        have same : place + 1 + (position - (place + 1)) = position := by omega
        rw [List.getElem?_drop, same]
        exact (index.located other position).mp located
    · exact Or.inl

/-- The index with one more handle under a key, whose bucket is opened behind the others if it
has none. -/
def file (index : Index Key) (key : Key) (handle : Handle) : Index Key :=
  match found : index.places key with
  | some place => {
      buckets := changeAt index.buckets place (· ++ [handle])
      places := index.places
      located := by simpa only [Located, keysOf_changeAt] using index.located
      filled := index.filled_changeAt found _ (by simp) }
  | none => {
      buckets := index.buckets ++ [(key, [handle])]
      places := put index.places key index.buckets.length
      located := index.located_append found [handle]
      filled := by
        intro bucket member
        rcases List.mem_append.mp member with old | new
        · exact index.filled bucket old
        · simp [List.mem_singleton.mp new] }

/-- The index without a handle under a key. A bucket that has no other handle is dropped; the
buckets behind it move up. -/
def strike (index : Index Key) (key : Key) (handle : Handle) : Index Key :=
  match found : index.places key with
  | none => index
  | some place =>
    if kept : (index.handles key).filter (· ≠ handle) ≠ [] then {
      buckets := changeAt index.buckets place (·.filter (· ≠ handle))
      places := index.places
      located := by simpa only [Located, keysOf_changeAt] using index.located
      filled := index.filled_changeAt found _ kept }
    else {
      buckets := index.buckets.eraseIdx place
      places :=
        putAll (forget index.places key) place ((index.buckets.eraseIdx place).drop place)
      located := index.located_eraseIdx found
      filled := fun bucket member => index.filled bucket (List.mem_of_mem_eraseIdx member) }

end DocComment.Index
