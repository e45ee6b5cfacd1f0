import DocComment.Settings.Document
import DocComment.Settings.FileTree
import DocComment.Settings.Nearest

/-!
# Finding the configuration in a tree of files

The parameters of the search are filled in here, so that it can be run: a tree of files answers
for its files, the reader of configuration documents decodes their texts, and the directory for
configurations is the one that the variables of an environment tell. These are only one choice
for each. What is known of the search is known for every file system, every decoder and every
directory, and rests on nothing in this module.
-/
namespace DocComment

/-- The reader of configuration documents as a decoder. It gives no reason where it rejects a
text. -/
def Style.decode : Decoder Unit := fun text => (ofDocument? text).elim (.error ()) .ok

namespace Settings

/-- Why there is no style in a tree of files. The reasons for unreadable files are those of the
tree. -/
abbrev Fault := FaultOf ReadFault Unit

/-- A text in a tree of files that is no configuration document. -/
@[match_pattern]
def Fault.malformed (path : Path) : Fault := FaultOf.malformed path ()

/-- The message for the user, with the words of the tree for a file that cannot be read. -/
def Fault.message : Fault → Text :=
  FaultOf.message (fun fault => fault.reason.toList) fun _ => "no configuration".toList

/-- The style in a file of a tree, as the reader of configuration documents takes it. -/
def styleIn (tree : FileTree) (path : Path) : Except Fault Style :=
  tree.system.styleIn Style.decode path

/-- The style that applies in a directory of a tree, with the user's directory given. -/
def nearest (tree : FileTree) (start : Path) (user : Option Path) : Except Fault Style :=
  tree.system.nearest Style.decode start user

/-- What an environment says about the directory for configurations. -/
inductive ConfigHome
  | unset
  /-- A directory in the tree, given by its absolute path. -/
  | within (path : Path)
  /-- Any other value. -/
  | other (text : Text)

/-- The directory for configurations. A relative path is ignored, and an absolute one that is
not in the tree shows nothing there. -/
def ConfigHome.directory (home : Path) : ConfigHome → Option Path
  | .within path => some path
  | .other ('/' :: _) => none
  | .unset | .other _ => some (home.child ".config".toList)

/-- The style that applies in a directory of a tree, in an environment with a home. The user's
directory is the one for this program in that for all configurations. -/
def nearestInEnvironment (tree : FileTree) (start home : Path) (configHome : ConfigHome) :
    Except Fault Style :=
  tree.system.nearestFor Style.decode start (configHome.directory home)

end Settings

end DocComment
