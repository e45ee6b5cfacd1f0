import DocComment.Catalog.Index
import DocComment.Sorting
import DocComment.Tag.Order

/-!
# Catalogs of tags

A catalog holds tags in the order in which they were inserted. Each tag has a handle,
which counts the tags inserted before it and is never given out again: it numbers the
slot of the tag, and a slot is emptied when its tag is erased but never filled anew.
The handles of the live tags stand in order of insertion. Two indexes file them: one
by aliased name, one by label. Lookups and groupings read the indexes, which every
change keeps in step with the sequence.
-/
namespace DocComment

/-- The key under which a label files a tag. Having no label is a key of its own. -/
inductive LabelKey
  | unlabelled
  | label (text : Text)
  deriving DecidableEq

namespace LabelKey

/-- The label `0` is the same as having no label; every other text is a key of its own. -/
def ofLabel (label : Text) : LabelKey := if label = ['0'] then .unlabelled else .label label

/-- The label of the key, unless it stands for having none. -/
def label? : LabelKey → Option Text
  | .unlabelled => none
  | .label text => some text

/-- The key as shown to a reader, where having no label is shown as `0`. -/
def shown : LabelKey → Text
  | .unlabelled => ['0']
  | .label text => text

/-- The keys of a tag, each once, in the order of its labels. A tag without labels has the one
key for that. -/
def ofTag (tag : Tag) : List LabelKey :=
  if tag.labels = [] then [.unlabelled] else (tag.labels.map ofLabel).eraseDups

end LabelKey

/-- A tag with its handle, as the sequence and every lookup show it. -/
abbrev Entry := Handle × Tag

/-- A slot for each tag ever inserted, the handles of the live tags in order of insertion, and
two indexes of these handles. -/
structure Catalog where
  slots : List (Option Tag)
  order : List Handle
  byName : Index Text
  byLabel : Index LabelKey

namespace Catalog

/-- The catalog that never held a tag. -/
def empty : Catalog := ⟨[], [], .empty, .empty⟩

/-- The handle of the next tag: the number of slots, since slots are never given up. -/
def next (catalog : Catalog) : Handle := catalog.slots.length

/-- The catalog with one more tag at the end. The tag's handle is the old `next`. -/
def insert (catalog : Catalog) (tag : Tag) : Catalog where
  slots := catalog.slots ++ [some tag]
  order := catalog.order ++ [catalog.next]
  byName := catalog.byName.file tag.aliasedName catalog.next
  byLabel := (LabelKey.ofTag tag).foldl (fun index key => index.file key catalog.next)
    catalog.byLabel

/-- The catalog with more tags at the end, in the given order. -/
def insertMany (catalog : Catalog) (tags : List Tag) : Catalog := tags.foldl insert catalog

/-- A new catalog of the given tags, which get the handles from zero on. -/
def ofTags (tags : List Tag) : Catalog := empty.insertMany tags

/-- The tag of a live handle. An erased handle has none, and neither has one that is not given
out yet. -/
def get? (catalog : Catalog) (handle : Handle) : Option Tag := catalog.slots[handle]?.join

/-- The catalog without the tag of a handle. Nothing changes for a handle that is not live. -/
def erase (catalog : Catalog) (handle : Handle) : Catalog :=
  match catalog.get? handle with
  | none => catalog
  | some tag => {
      slots := catalog.slots.set handle none
      order := catalog.order.filter (· ≠ handle)
      byName := catalog.byName.strike tag.aliasedName handle
      byLabel := (LabelKey.ofTag tag).foldl (fun index key => index.strike key handle)
        catalog.byLabel }

/-- The number of live tags, which is that of the handles in the sequence. -/
def size (catalog : Catalog) : Nat := catalog.order.length

/-- The entries of the live ones among some handles, in the order of the handles. -/
def resolve (catalog : Catalog) (handles : List Handle) : List Entry :=
  handles.filterMap fun handle => (catalog.get? handle).map fun tag => (handle, tag)

/-- The live tags with their handles in order of insertion. -/
def entries (catalog : Catalog) : List Entry := catalog.resolve catalog.order

/-- The live tags in order of insertion, without their handles. -/
def tags (catalog : Catalog) : List Tag := catalog.entries.map (·.2)

/-- The handle of the first tag equal to the given one, labels included. The whole sequence is
gone through, since no index files whole tags. -/
def handleOf? (catalog : Catalog) (tag : Tag) : Option Handle :=
  (catalog.entries.find? (·.2 = tag)).map (·.1)

/-- The tags whose aliased name is that of `name`, so that properties of every access are found
by the name of each. -/
def named (catalog : Catalog) (name : Text) : List Entry :=
  catalog.resolve (catalog.byName.handles (TagName.aliased name))

/-- The tags that bear a label. The label `0` finds the tags without one as well. -/
def labelled (catalog : Catalog) (label : Text) : List Entry :=
  catalog.resolve (catalog.byLabel.handles (.ofLabel label))

/-- The tags that bear no label, or the label `0`. -/
def unlabelled (catalog : Catalog) : List Entry :=
  catalog.resolve (catalog.byLabel.handles .unlabelled)

/-- The handles of the tags that describe the same thing as a given one. They are looked for in
the bucket of its aliased name only. -/
def matchingHandles (catalog : Catalog) (tag : Tag) : List Handle :=
  (catalog.byName.handles tag.aliasedName).filter fun handle =>
    (catalog.get? handle).any fun existing => existing.isMatch tag

/-- The tags that describe the same thing as a given one, with their handles. -/
def matching (catalog : Catalog) (tag : Tag) : List Entry :=
  catalog.resolve (catalog.matchingHandles tag)

/-- Entries in the order of their tags; entries that compare equal stay in the order in which
they come. -/
def sortEntries (entries : List Entry) : List Entry :=
  sortBy (fun left right => left.2.order right.2) entries

/-- All live tags in the order of tags. The sequence itself stays in order of insertion. -/
def sorted (catalog : Catalog) : List Entry := sortEntries catalog.entries

/-- The buckets of an index with their tags, each bucket in the order of insertion or in the
order of tags. The buckets themselves stand in the order of the index either way. -/
def groups (catalog : Catalog) (index : Index Key) (inTagOrder : Bool) :
    List (Key × List Entry) :=
  index.buckets.map fun (key, handles) =>
    let group := catalog.resolve handles
    (key, if inTagOrder then sortEntries group else group)

/-- The tags grouped by aliased name, each in one group. -/
def groupsByName (catalog : Catalog) (inTagOrder : Bool) : List (Text × List Entry) :=
  catalog.groups catalog.byName inTagOrder

/-- The tags grouped by label; a tag is in the group of each of its labels. -/
def groupsByLabel (catalog : Catalog) (inTagOrder : Bool) : List (LabelKey × List Entry) :=
  catalog.groups catalog.byLabel inTagOrder

end DocComment.Catalog
