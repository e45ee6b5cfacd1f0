import DocComment.Proofs.Settings.Paths
import DocComment.Settings.FileTree

/-!
# The places that paths lead to in a tree of files

A path without double dots leads from the root of a tree to the place of its names and nowhere
else, and it does so exactly if everything above that place is a directory. Segments that stay
in the directory at hand may stand anywhere in it, but they need a directory as well.

So a name in a directory is found exactly where the tree has a file of these names. What is
listed below a file is out of reach, for such a file stands where a directory is needed.
-/
namespace DocComment

namespace FileTree

/-- A place has a file exactly if the tree lists one under its names. Directories are asked for
only after files. -/
theorem nodeAt_eq_file_iff {tree : FileTree} {names : List Text} {content : ByteArray} :
    tree.nodeAt (.within names) = some (.file content) ↔
      tree.files.lookup names = some content := by
  rw [nodeAt]
  cases tree.files.lookup names with
  | some stored => simp
  | none => simp

/-- All places above the one of some names are directories. Of the place itself nothing is
said. -/
def Accessible (tree : FileTree) (names : List Text) : Prop :=
  ∀ above, above <+: names → above ≠ names → tree.nodeAt (.within above) = some .directory

/-- Above a name are the directory that it is in and what is above that. -/
theorem accessible_concat_iff {tree : FileTree} {names : List Text} {name : Text} :
    tree.Accessible (names ++ [name]) ↔
      ∀ above, above <+: names → tree.nodeAt (.within above) = some .directory := by
  constructor
  · intro accessible above part
    refine accessible above (part.trans (List.prefix_append names [name])) ?_
    rintro rfl
    have shorter := part.length_le
    rw [List.length_append, List.length_singleton] at shorter
    omega
  · intro directories above part different
    rcases List.prefix_concat_iff.mp part with whole | inside
    · exact absurd whole different
    · exact directories above inside

/-- A walk takes a segment that is no double dot if it stands in a directory, and goes on from
the place of its name there. -/
theorem walk_cons_eq_ok_iff {tree : FileTree} {segment : Text} (plain : segment ≠ ['.', '.'])
    (here : List Text) (rest : Path) {place : Place} :
    tree.walk (.within here) (segment :: rest) = .ok place ↔
      tree.nodeAt (.within here) = some .directory ∧
        tree.walk (.within (here ++ Path.names [segment])) rest = .ok place := by
  rw [walk]
  cases tree.nodeAt (.within here) with
  | none => simp
  | some node =>
    cases node with
    | file content => simp
    | directory =>
      cases stays : Path.staysHere segment with
      | true => simp [Path.names, stays]
      | false => simp [Path.names, stays, plain, Place.child]

/-- A walk along a path without double dots that ends with a name leads to the place of its
names if all places above it are directories, and nowhere otherwise. -/
theorem walk_concat_eq_ok_iff {tree : FileTree} {name : Text}
    (moves : Path.staysHere name = false) {path : Path} (plain : ['.', '.'] ∉ path ++ [name])
    (here : List Text) {place : Place} :
    tree.walk (.within here) (path ++ [name]) = .ok place ↔
      place = .within (here ++ path.names ++ [name]) ∧
        ∀ above, above <+: path.names →
          tree.nodeAt (.within (here ++ above)) = some .directory := by
  induction path generalizing here with
  | nil =>
    have different : name ≠ ['.', '.'] := fun same => plain (by simp [same])
    have named : Path.names [name] = [name] := by simp [Path.names, moves]
    rw [List.nil_append, walk_cons_eq_ok_iff different, named, walk]
    simp [Path.names, eq_comm, and_comm]
  | cons segment rest inductionHypothesis =>
    have different : segment ≠ ['.', '.'] := fun same => plain (by simp [same])
    have plainRest : ['.', '.'] ∉ rest ++ [name] :=
      fun member => plain (List.mem_cons_of_mem segment member)
    have parted : Path.names (segment :: rest) = Path.names [segment] ++ Path.names rest :=
      List.filter_append [segment] rest
    rw [List.cons_append, walk_cons_eq_ok_iff different, inductionHypothesis plainRest, parted]
    cases stays : Path.staysHere segment with
    | true =>
      have unnamed : Path.names [segment] = [] := by simp [Path.names, stays]
      simp only [unnamed, List.append_nil, List.nil_append]
      constructor
      · exact And.right
      · rintro ⟨ends, directories⟩
        exact ⟨by simpa using directories [] (List.nil_prefix), ends, directories⟩
    | false =>
      have named : Path.names [segment] = [segment] := by simp [Path.names, stays]
      simp only [named, List.singleton_append, List.prefix_cons_iff, List.append_assoc]
      constructor
      · rintro ⟨first, ends, directories⟩
        refine ⟨ends, ?_⟩
        rintro above (rfl | ⟨behind, rfl, part⟩)
        · simpa using first
        · exact directories behind part
      · rintro ⟨ends, directories⟩
        exact ⟨by simpa using directories [] (.inl rfl), ends,
          fun behind part => directories _ (.inr ⟨behind, rfl, part⟩)⟩

/-- What a path leads to stands at the place where the walk along it ends. -/
theorem find_eq_ok_iff {tree : FileTree} {path : Path} {node : Node} :
    tree.find path = .ok node ↔
      ∃ place, tree.walk (.within []) path = .ok place ∧ tree.nodeAt place = some node := by
  rw [find]
  cases tree.walk (.within []) path with
  | error fault => simp [bind, Except.bind]
  | ok place =>
    cases standing : tree.nodeAt place with
    | none => simp [bind, Except.bind, standing]
    | some found => simp [bind, Except.bind, pure, Except.pure, standing]

/-- Without double dots a name in a directory leads to exactly the file that the tree has under
their names, if that is accessible. -/
theorem find_child_eq_file_iff {tree : FileTree} {directory : Path} {name : Text}
    (moves : Path.staysHere name = false) (plain : ['.', '.'] ∉ directory.child name)
    {content : ByteArray} :
    tree.find (directory.child name) = .ok (.file content) ↔
      tree.files.lookup (directory.child name).names = some content ∧
        tree.Accessible (directory.child name).names := by
  obtain ⟨front, ends, same, -⟩ := Path.exists_child_eq directory moves
  rw [Path.names_child directory moves, accessible_concat_iff, ← same]
  rw [ends] at plain ⊢
  simp only [find_eq_ok_iff, walk_concat_eq_ok_iff moves plain, List.nil_append]
  constructor
  · rintro ⟨place, ⟨rfl, directories⟩, standing⟩
    exact ⟨nodeAt_eq_file_iff.mp standing, directories⟩
  · rintro ⟨listed, directories⟩
    exact ⟨_, ⟨rfl, directories⟩, nodeAt_eq_file_iff.mpr listed⟩

/-- A path is that of a file if it leads to one, whatever the file holds. -/
theorem isFile_iff {tree : FileTree} {path : Path} :
    tree.isFile path ↔ ∃ content, tree.find path = .ok (.file content) := by
  rw [isFile]
  cases tree.find path with
  | error fault => simp
  | ok node => cases node <;> simp

/-- Without double dots a name in a directory is that of a file exactly if the tree has an
accessible one under their names. -/
theorem isFile_child_iff {tree : FileTree} {directory : Path} {name : Text}
    (moves : Path.staysHere name = false) (plain : ['.', '.'] ∉ directory.child name) :
    tree.isFile (directory.child name) ↔
      tree.Accessible (directory.child name).names ∧
        ∃ content, tree.files.lookup (directory.child name).names = some content := by
  simp only [isFile_iff, find_child_eq_file_iff moves plain, exists_and_right]
  exact And.comm

end FileTree

end DocComment
