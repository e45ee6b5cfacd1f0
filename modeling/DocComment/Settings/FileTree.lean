import DocComment.Settings.Path

/-!
# A tree of files

A tree of files has one root, where every path starts, absolute or not. Above the root nothing
is known: a path may go there and come to nothing.

A tree answers what is asked of a file system, and it answers as a system without links and
permissions would. A file may lack a text here too, since its content need not be UTF-8.
-/
namespace DocComment

/-- Why a file cannot be read. There may be nothing at its path, or a directory, or a file where
its path needs a directory. -/
inductive ReadFault
  | notFound
  | isDirectory
  | notDirectory
  /-- The content is not valid UTF-8. -/
  | invalidText
  deriving DecidableEq

/-- How a fault of a file is put into words. Other file systems have words of their own. -/
def ReadFault.reason : ReadFault → String
  | .notFound => "there is no such file"
  | .isDirectory => "it is a directory"
  | .notDirectory => "a file stands where a directory is needed"
  | .invalidText => "it is not valid UTF-8"

/-- Directories and files below a root. Directories on the way to either exist. -/
structure FileTree where
  directories : List (List Text)
  files : List (List Text × ByteArray)

namespace FileTree

/-- What may stand at a place: a directory, or a file with the octets that it holds. -/
inductive Node
  | directory
  | file (content : ByteArray)

/-- A place: the names from the root down, or somewhere above the root. -/
inductive Place
  | within (names : List Text)
  | above

/-- The node at a place, if there is one. Where a file and a directory are listed under the same
names, it is the file. -/
def nodeAt (tree : FileTree) : Place → Option Node
  | .above => some .directory
  | .within names =>
    match tree.files.lookup names with
    | some content => some (.file content)
    | none =>
      if names = [] ∨ tree.directories.any names.isPrefixOf ∨
          tree.files.any fun file => names.isPrefixOf file.1 then
        some .directory
      else none

/-- The place that a name leads to. Nothing above the root is found by name. -/
def Place.child : Place → Text → Option Place
  | .within names, name => some (.within (names ++ [name]))
  | .above, _ => none

/-- The place one directory up. Above the root it stays above the root. -/
def Place.parent : Place → Place
  | .within [] => .above
  | .within names => .within names.dropLast
  | .above => .above

/-- The place that a path leads to. Each segment needs a directory to start from, also one that
stays where it is. -/
def walk (tree : FileTree) : Place → Path → Except ReadFault Place
  | place, [] => .ok place
  | place, segment :: rest =>
    match tree.nodeAt place with
    | none => .error .notFound
    | some (.file _) => .error .notDirectory
    | some .directory =>
      if Path.staysHere segment then walk tree place rest
      else if segment = ['.', '.'] then walk tree place.parent rest
      else match place.child segment with
        | some inner => walk tree inner rest
        | none => .error .notFound

/-- The node that a path leads to from the root. -/
def find (tree : FileTree) (path : Path) : Except ReadFault Node := do
  match tree.nodeAt (← tree.walk (.within []) path) with
  | some node => return node
  | none => throw .notFound

/-- Whether a path leads to a file. A directory of the same name does not count. -/
def isFile (tree : FileTree) (path : Path) : Bool :=
  match tree.find path with
  | .ok (.file _) => true
  | _ => false

/-- The text of the file that a path leads to, if its octets are those of a text. -/
def readText (tree : FileTree) (path : Path) : Except ReadFault Text := do
  match ← tree.find path with
  | .directory => throw .isDirectory
  | .file content =>
    match String.fromUTF8? content with
    | some text => return text.toList
    | none => throw .invalidText

end FileTree

/-- A tree as a file system: it answers the two questions that the search asks. -/
def FileTree.system (tree : FileTree) : FileSystem ReadFault := ⟨tree.isFile, tree.readText⟩

end DocComment
