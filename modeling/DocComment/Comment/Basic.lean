import DocComment.Catalog.Merging

/-!
# Comments

The content of a documentation comment is a summary that may be missing, a
description and a catalog of tags. Its parts change independently of each other.
Tags are found here by their own names; the catalog also finds them by aliased name
and by label.
-/
namespace DocComment

/-- What one comment says: a summary if there is one, a description that may be empty, and
tags. -/
structure Comment where
  summary : Option Text
  description : Text
  catalog : Catalog

namespace Comment

/-- The comment that says nothing, with a catalog that never held a tag. -/
def empty : Comment := ⟨none, [], .empty⟩

/-- A comment of the given parts, with the tags in the given order. The texts are kept as they
are. -/
def ofParts (summary : Option Text) (description : Text) (tags : List Tag) : Comment :=
  ⟨summary, description, .ofTags tags⟩

/-- The comment with another summary, or without one. -/
def withSummary (comment : Comment) (summary : Option Text) : Comment :=
  { comment with summary }

/-- The comment with another description, in the place of the one that it had. -/
def withDescription (comment : Comment) (description : Text) : Comment :=
  { comment with description }

/-- A line is added behind a line feed, even to an empty description. -/
def appendLine (comment : Comment) (line : Text) : Comment :=
  { comment with description := comment.description ++ '\n' :: line }

/-- The comment with one more tag, behind those that it has. -/
def insertTag (comment : Comment) (tag : Tag) : Comment :=
  { comment with catalog := comment.catalog.insert tag }

/-- Whether there is a tag equal to the given one, and the comment without the first such tag.
Other equal tags stay. -/
def eraseTag (comment : Comment) (tag : Tag) : Bool × Comment :=
  match comment.catalog.handleOf? tag with
  | none => (false, comment)
  | some handle => (true, { comment with catalog := comment.catalog.erase handle })

/-- The tags in order of insertion, as the catalog has them. -/
def tags (comment : Comment) : List Tag := comment.catalog.tags

/-- The tags of exactly this name; aliases are not followed. The sequence is gone through, and no
index is asked. -/
def tagsNamed (comment : Comment) (name : Text) : List Tag :=
  comment.tags.filter fun tag => tag.name.text == name

/-- Whether some tag has exactly this name. -/
def bears (comment : Comment) (name : Text) : Bool :=
  comment.tags.any fun tag => tag.name.text == name

/-- The comment with further tags merged into its own. A merge that is refused leaves what it
inserted before. -/
def merge (comment : Comment) (tags : List Tag) : Comment × Except MergeError MergeReport :=
  let (catalog, report) := comment.catalog.merge tags
  ({ comment with catalog }, report)

/-- The catalog so far, and the comment with another one. -/
def replaceCatalog (comment : Comment) (catalog : Catalog) : Catalog × Comment :=
  (comment.catalog, { comment with catalog })

end DocComment.Comment
