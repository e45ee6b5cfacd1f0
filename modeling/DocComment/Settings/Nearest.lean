import DocComment.Layout.Style
import DocComment.Settings.Path

/-!
# The nearest configuration

The configuration that applies in a directory is the nearest one: a project file in the
directory or one above it, otherwise the user's own file. The file that is found decides alone.
If it cannot be read or is invalid, that is the answer, and no farther file is consulted; if
there is none, the standard style applies.

Three things come from elsewhere and are parameters here. The file system answers for its files,
a decoder turns the text of a file into a style or says what is wrong with it, and the
environment may know a directory for the user's configurations. The decoder is a function of
the text; nothing else is assumed about any of the three.
-/
namespace DocComment

/-- How the text of a configuration is read: it describes a style, or it is invalid for a
reason that is the decoder's own. The same text is always read in the same way. -/
abbrev Decoder (Invalid : Type) := Text → Except Invalid Style

namespace Settings

/-- Why there is no style: a file cannot be read, its text is invalid, or the style that it
describes has no width. The first two name the file, and the reason as the file system or the
decoder gave it. -/
inductive FaultOf (Refusal Invalid : Type)
  | unreadable (path : Path) (refusal : Refusal)
  | malformed (path : Path) (reason : Invalid)
  | zeroWidth
  deriving DecidableEq

variable {Refusal Invalid : Type}

/-- The message for the user. A path is told as it is written, and the reasons in the words of
the file system and of the decoder. -/
def FaultOf.message (refused : Refusal → Text) (invalid : Invalid → Text) :
    FaultOf Refusal Invalid → Text
  | .unreadable path refusal =>
    "failed to read ".toList ++ path.text ++ ": ".toList ++ refused refusal
  | .malformed path reason =>
    "invalid config ".toList ++ path.text ++ ": ".toList ++ invalid reason
  | .zeroWidth => "invalid config value: render.wrap_width must be positive".toList

/-- A style is usable unless its width is zero. The message for this fault names the setting and
no file. -/
def checkWidth (style : Style) : Except (FaultOf Refusal Invalid) Unit :=
  if style.width = 0 then .error .zeroWidth else .ok ()

/-- The name of a project's file, which is hidden by the dot in front. -/
def projectFile : Text := ".phpdoc-generator.toml".toList

/-- The name of the user's file, in a directory that is the program's own. -/
def userFile : Text := "config.toml".toList

/-- The directory for the user's file below the one for all configurations. -/
def userFolder : Text := "phpdoc-generator".toList

/-- The files that may apply, the nearest first and the user's last. Which of them exist is not
asked here. -/
def candidates (start : Path) (user : Option Path) : List Path :=
  start.ancestors.map (·.child projectFile) ++ (user.map (·.child userFile)).toList

end Settings

namespace FileSystem

open Settings

variable {Refusal Invalid : Type}

/-- The style in a file: its text as the decoder reads it, if it has a width. The first step that
fails gives the fault. -/
def styleIn (system : FileSystem Refusal) (decode : Decoder Invalid) (path : Path) :
    Except (FaultOf Refusal Invalid) Style := do
  let text ← (system.readText path).mapError (.unreadable path)
  let style ← (decode text).mapError (.malformed path)
  checkWidth style
  return style

/-- The style of the first candidate that is a file, or the standard one. The user's directory
is given as it is, and there may be none. -/
def nearest (system : FileSystem Refusal) (decode : Decoder Invalid) (start : Path)
    (user : Option Path) : Except (FaultOf Refusal Invalid) Style :=
  match (candidates start user).find? system.isFile with
  | some path => system.styleIn decode path
  | none => .ok .standard

/-- The nearest style where the user's directory is a folder of its own in the one that the
environment keeps for all configurations. An environment without such a directory shows no
user's file. -/
def nearestFor (system : FileSystem Refusal) (decode : Decoder Invalid) (start : Path)
    (configurations : Option Path) : Except (FaultOf Refusal Invalid) Style :=
  system.nearest decode start (configurations.map (·.child userFolder))

end FileSystem

end DocComment
