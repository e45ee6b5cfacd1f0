import DocComment.Proofs.Settings.FileTree
import DocComment.Settings.Nearest

/-!
# The nearest configuration decides

Which configuration applies in a directory is settled by one file: the first of the candidates
that is a file at all. What this file yields is the answer. A file that cannot be read, that
describes no style or that gives no width is a fault, and not a reason to look farther; the
standard style applies only where there is no file.

So the answer cannot depend on what stands behind that file, and the main statement says so of
any change there. It speaks of every file system, whatever leads to its files and for whatever
reasons it refuses their texts, as long as its answers stay the same meanwhile. It speaks of
every decoder as well, and takes no more of it than that it is a function of the text, and of
every directory that a user may have. It also says where the candidates lie, as paths and by
their names, which of them are files in a tree, and that a style that is found has a width.
-/
namespace DocComment.Settings

variable {Refusal Invalid : Type}

/-- What a file says, by the answer to the question for its text: the text is refused, it is
invalid, the style that it describes has no width, or the style is usable. Each fault is that of
this file, with the reason that the file system or the decoder gave. -/
inductive Yields (decode : Decoder Invalid) (path : Path) :
    Except Refusal Text → Except (FaultOf Refusal Invalid) Style → Prop
  | unreadable (refusal : Refusal) :
      Yields decode path (.error refusal) (.error (.unreadable path refusal))
  | malformed {text : Text} {reason : Invalid} (invalid : decode text = .error reason) :
      Yields decode path (.ok text) (.error (.malformed path reason))
  | zeroWidth {text : Text} {style : Style} (described : decode text = .ok style)
      (narrow : style.width = 0) : Yields decode path (.ok text) (.error .zeroWidth)
  | usable {text : Text} {style : Style} (described : decode text = .ok style)
      (wide : 1 ≤ style.width) : Yields decode path (.ok text) (.ok style)

/-- A file yields what its text says. The cases are the outcomes of reading, of decoding and of
the check of the width, one after another. -/
theorem yields_styleIn (system : FileSystem Refusal) (decode : Decoder Invalid) (path : Path) :
    Yields decode path (system.readText path) (system.styleIn decode path) := by
  cases read : system.readText path with
  | error refusal =>
    have result : system.styleIn decode path = .error (.unreadable path refusal) := by
      simp [FileSystem.styleIn, read, bind, Except.bind, Except.mapError]
    exact result ▸ .unreadable refusal
  | ok text =>
    cases described : decode text with
    | error reason =>
      have result : system.styleIn decode path = .error (.malformed path reason) := by
        simp [FileSystem.styleIn, read, described, bind, Except.bind, Except.mapError]
      exact result ▸ .malformed described
    | ok style =>
      by_cases narrow : style.width = 0
      · have result : system.styleIn decode path = .error .zeroWidth := by
          simp [FileSystem.styleIn, read, described, checkWidth, narrow, bind, Except.bind,
            Except.mapError]
        exact result ▸ .zeroWidth described narrow
      · have wide : 1 ≤ style.width := Nat.one_le_iff_ne_zero.mpr narrow
        have result : system.styleIn decode path = .ok style := by
          simp [FileSystem.styleIn, read, described, checkWidth, narrow, bind, Except.bind,
            Except.mapError, pure, Except.pure]
        exact result ▸ .usable described wide

/-- A style that is found in a file has a width, whatever the decoder makes of its text. -/
theorem one_le_width_of_styleIn {system : FileSystem Refusal} {decode : Decoder Invalid}
    {path : Path} {style : Style} (read : system.styleIn decode path = .ok style) :
    1 ≤ style.width := by
  have yields := yields_styleIn system decode path
  rw [read] at yields
  generalize system.readText path = answer at yields
  cases yields with
  | usable _ wide => exact wide

/-- What is found in a file depends on nothing but its text. Two systems that differ elsewhere
agree on it. -/
theorem styleIn_congr {system other : FileSystem Refusal} {decode : Decoder Invalid} {path : Path}
    (same : other.readText path = system.readText path) :
    other.styleIn decode path = system.styleIn decode path := by
  rw [FileSystem.styleIn, FileSystem.styleIn, same]

/-! Where the candidates lie -/

/-- A project's file bears a name that is none of the segments that stay. -/
theorem projectFile_moves : Path.staysHere projectFile = false := by decide

/-- The user's file bears such a name as well, so both stand at the end of their paths. -/
theorem userFile_moves : Path.staysHere userFile = false := by decide

/-- The candidates in their reduced forms: the project's file in the start directory and in all
those above it, the nearest first, and behind these the user's file. -/
def reducedCandidates (start : Path) (user : Option Path) : List Path :=
  start.upwards projectFile ++ (user.map fun folder => folder.reduced ++ [userFile]).toList

/-- The candidates lie there, up to segments that change nothing, for every start directory and
every user. -/
theorem map_reduced_candidates (start : Path) (user : Option Path) :
    (candidates start user).map Path.reduced = reducedCandidates start user := by
  rw [candidates, List.map_append, Path.map_reduced_child_ancestors start projectFile_moves,
    reducedCandidates]
  cases user with
  | none => rfl
  | some folder => simp [Path.reduced_child folder userFile_moves]

/-- Where the paths of the start directory and of the user's have no superfluous segments, the
candidates are exactly these. -/
theorem candidates_of_clean {start : Path} {user : Option Path} (clean : start.Clean)
    (cleanUser : ∀ folder ∈ user, folder.Clean) :
    candidates start user = reducedCandidates start user := by
  have kept : ∀ path ∈ candidates start user, path.reduced = path := by
    intro path candidate
    rcases List.mem_append.mp candidate with above | own
    · obtain ⟨directory, member, rfl⟩ := List.mem_map.mp above
      exact Path.reduced_child_of_clean (Path.clean_of_mem_ancestors clean member)
        projectFile_moves
    · obtain ⟨folder, given, rfl⟩ := Option.map_eq_some_iff.mp (Option.mem_toList.mp own)
      exact Path.reduced_child_of_clean (cleanUser folder given) userFile_moves
  have unchanged := List.map_congr_left kept
  rw [map_reduced_candidates, List.map_id'] at unchanged
  exact unchanged.symm

/-- A project's file is sought in directories whose paths are first parts of the text of the
start directory's. -/
theorem exists_isPrefix_of_mem_candidates {start path : Path}
    (candidate : path ∈ candidates start none) :
    ∃ directory : Path, path = directory.child projectFile ∧ directory.text <+: start.text := by
  rw [candidates, Option.map_none, Option.toList_none, List.append_nil] at candidate
  obtain ⟨directory, member, rfl⟩ := List.mem_map.mp candidate
  exact ⟨directory, rfl, Path.text_isPrefix_of_mem_ancestors member⟩

/-- Every candidate is a name in a directory, and that name is none of the segments that stay. -/
theorem exists_child_of_mem_candidates {start : Path} {user : Option Path} {path : Path}
    (candidate : path ∈ candidates start user) :
    ∃ directory name, path = Path.child directory name ∧ Path.staysHere name = false := by
  rcases List.mem_append.mp candidate with above | own
  · obtain ⟨directory, -, rfl⟩ := List.mem_map.mp above
    exact ⟨directory, projectFile, rfl, projectFile_moves⟩
  · obtain ⟨folder, -, rfl⟩ := Option.map_eq_some_iff.mp (Option.mem_toList.mp own)
    exact ⟨folder, userFile, rfl, userFile_moves⟩

/-! Which of them decides -/

/-- The first candidate that is a file decides, and what stands behind it is not read. -/
theorem nearest_of_first {system : FileSystem Refusal} {decode : Decoder Invalid} {start : Path}
    {user : Option Path} {nearer farther : List Path} {path : Path}
    (cut : candidates start user = nearer ++ path :: farther)
    (missing : ∀ other ∈ nearer, system.isFile other = false) (isFile : system.isFile path) :
    system.nearest decode start user = system.styleIn decode path := by
  have first : (candidates start user).find? system.isFile = some path :=
    List.find?_eq_some_iff_append.mpr ⟨isFile, nearer, farther, cut, by simpa using missing⟩
  rw [FileSystem.nearest, first]

/-- The nearest file decides what applies in a directory, and it decides alone, in every file
system, with every decoder and for every user.

The candidates are the project's file in the start directory and in those above it, up to the
root for an absolute start, and behind these the user's file; their paths are told exactly where
the given ones have no superfluous segments, and else up to such segments. In a tree a candidate
without double dots leads to a file exactly if the tree has one under its names that is
accessible.

If no candidate is a file, the standard style applies. If one is, the first of them is read, and
what it yields is the answer, be it a style or the fault of this very file. Nothing that stands
behind it has any influence: the answer is the same in every file system that tells the same of
the candidates up to this one and has the same text there, and for every user if it is a
project's file. In any case a style that is found has a width. -/
theorem nearest_file_decides (system : FileSystem Refusal) (decode : Decoder Invalid)
    (start : Path) (user : Option Path) :
    (((candidates start user).map Path.reduced = reducedCandidates start user) ∧
      (start.Clean → (∀ folder ∈ user, folder.Clean) →
        candidates start user = reducedCandidates start user) ∧
      ∀ path ∈ candidates start none,
        ∃ directory : Path, path = directory.child projectFile ∧ directory.text <+: start.text) ∧
    (∀ tree : FileTree, ∀ path ∈ candidates start user, ['.', '.'] ∉ path →
      (tree.system.isFile path ↔
        tree.Accessible path.names ∧ ∃ content, tree.files.lookup path.names = some content)) ∧
    ((∀ path ∈ candidates start user, system.isFile path = false) ∧
        system.nearest decode start user = .ok .standard ∨
      ∃ nearer path farther, candidates start user = nearer ++ path :: farther ∧
        (∀ other ∈ nearer, system.isFile other = false) ∧ system.isFile path ∧
        system.nearest decode start user = system.styleIn decode path ∧
        Yields decode path (system.readText path) (system.styleIn decode path) ∧
        ∀ (otherSystem : FileSystem Refusal) otherUser rest,
          candidates start otherUser = nearer ++ path :: rest →
          (∀ other ∈ nearer ++ [path], otherSystem.isFile other = system.isFile other) →
          otherSystem.readText path = system.readText path →
          otherSystem.nearest decode start otherUser = system.styleIn decode path) ∧
    (∀ path style, system.styleIn decode path = .ok style → 1 ≤ style.width) ∧
    ∀ style, system.nearest decode start user = .ok style → 1 ≤ style.width := by
  have wide : ∀ path style, system.styleIn decode path = .ok style → 1 ≤ style.width :=
    fun path style read => one_le_width_of_styleIn read
  refine ⟨⟨map_reduced_candidates start user, candidates_of_clean,
    fun path candidate => exists_isPrefix_of_mem_candidates candidate⟩, ?_, ?_, wide, ?_⟩
  · intro tree path candidate plain
    obtain ⟨directory, name, rfl, moves⟩ := exists_child_of_mem_candidates candidate
    exact FileTree.isFile_child_iff moves plain
  · cases first : (candidates start user).find? system.isFile with
    | none =>
      refine .inl ⟨fun path candidate => ?_, by rw [FileSystem.nearest, first]⟩
      simpa using List.find?_eq_none.mp first path candidate
    | some path =>
      obtain ⟨isFile, nearer, farther, cut, missing⟩ := List.find?_eq_some_iff_append.mp first
      have missed : ∀ other ∈ nearer, system.isFile other = false := by simpa using missing
      refine .inr ⟨nearer, path, farther, cut, missed, isFile, nearest_of_first cut missed isFile,
        yields_styleIn system decode path, ?_⟩
      intro otherSystem otherUser rest otherCut same sameText
      have alsoMissed : ∀ other ∈ nearer, otherSystem.isFile other = false := fun other member =>
        (same other (List.mem_append_left [path] member)).trans (missed other member)
      have alsoFile : otherSystem.isFile path := (same path (by simp)).trans isFile
      rw [nearest_of_first otherCut alsoMissed alsoFile, styleIn_congr sameText]
  · intro style applies
    rw [FileSystem.nearest] at applies
    split at applies
    · exact wide _ style applies
    · cases applies
      decide

/-- The search from an absolute path ends at the root. A directory bears the name of a project's
file in the start directory and is passed over. The file above it has no width, and the usable
one above that, in the root, is not read, nor is the user's. The decoder knows no more than the
three texts. -/
theorem nearest_file_decides_zero :
    let tree : FileTree := ⟨[["a".toList, "b".toList, projectFile]],
      [(["a".toList, projectFile], "[render]\nwrap_width = 0".toUTF8),
        ([projectFile], "[render]\nsort_tags = true".toUTF8),
        (["home".toList, userFile], "".toUTF8)]⟩
    let documents : List (Text × Style) :=
      [("[render]\nwrap_width = 0".toList, ⟨0, false, true⟩),
        ("[render]\nsort_tags = true".toList, ⟨67, true, true⟩), ([], ⟨67, false, true⟩)]
    let decode : Decoder Unit := fun text => (documents.lookup text).elim (.error ()) .ok
    let start := Path.ofText "/a/b".toList
    let user := some (Path.ofText "/home".toList)
    tree.system.nearest decode start user = .error .zeroWidth ∧
    (start.Clean ∧ (∀ folder ∈ user, folder.Clean) ∧
      candidates start user = reducedCandidates start user ∧
      (reducedCandidates start user).map Path.text =
        ["/a/b/.phpdoc-generator.toml".toList, "/a/.phpdoc-generator.toml".toList,
          "/.phpdoc-generator.toml".toList, "/home/config.toml".toList]) ∧
    (start.child projectFile ∈ candidates start none ∧
      ∃ directory : Path, start.child projectFile = directory.child projectFile ∧
        directory.text <+: start.text) ∧
    (start.child projectFile ∈ candidates start user ∧ ['.', '.'] ∉ start.child projectFile ∧
      (tree.system.isFile (start.child projectFile) ↔
        tree.Accessible (start.child projectFile).names ∧
          ∃ content, tree.files.lookup (start.child projectFile).names = some content)) ∧
    (∃ nearer path farther, candidates start user = nearer ++ path :: farther ∧
      (∀ other ∈ nearer, tree.system.isFile other = false) ∧ tree.system.isFile path ∧
      tree.system.nearest decode start user = tree.system.styleIn decode path ∧
      Yields decode path (tree.system.readText path) (tree.system.styleIn decode path)) ∧
    (tree.system.styleIn decode [[], projectFile] = .ok ⟨67, true, true⟩ ∧ 1 ≤ 67) ∧
    tree.system.nearest decode Path.root user = .ok ⟨67, true, true⟩ ∧ 1 ≤ 67 := by
  intro tree documents decode start user
  have zero : tree.system.nearest decode start user = .error .zeroWidth := by decide +kernel
  have clean : start.Clean := by decide
  have cleanUser : ∀ folder ∈ user, folder.Clean := by decide
  have nearby : start.child projectFile ∈ candidates start none := by decide
  have candidate : start.child projectFile ∈ candidates start user := by decide
  have plain : ['.', '.'] ∉ start.child projectFile := by decide
  have read : tree.system.styleIn decode [[], projectFile] = .ok ⟨67, true, true⟩ := by
    decide +kernel
  have applies : tree.system.nearest decode Path.root user = .ok ⟨67, true, true⟩ := by
    decide +kernel
  obtain ⟨⟨-, exactly, written⟩, places, decides, wide, -⟩ :=
    nearest_file_decides tree.system decode start user
  have inRoot := (nearest_file_decides tree.system decode Path.root user).2.2.2.2
  refine ⟨zero, ⟨clean, cleanUser, exactly clean cleanUser, by decide⟩,
    ⟨nearby, written _ nearby⟩, ⟨candidate, plain, places tree _ candidate plain⟩, ?_,
    ⟨read, wide _ _ read⟩, applies, inRoot _ applies⟩
  rcases decides with ⟨-, standard⟩ | ⟨nearer, path, farther, cut, missed, isFile, same, yields, -⟩
  · rw [zero] at standard
    cases standard
  · exact ⟨nearer, path, farther, cut, missed, isFile, same, yields⟩

/-- A file whose text is refused is found like any other, and the refusal is the answer. -/
example :
    let locked : FileSystem String :=
      ⟨fun path => path = ["a".toList, projectFile] ∨ path = [projectFile],
        fun path => if path = [projectFile] then .ok [] else .error "no permission"⟩
    let decode : Decoder String := fun _ => .ok .standard
    locked.nearest decode ["a".toList, "b".toList] none =
      .error (.unreadable ["a".toList, projectFile] "no permission") := by decide

end DocComment.Settings
