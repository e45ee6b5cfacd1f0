import DocComment.Catalog.Basic

/-!
# Merging tags into a catalog

Documentation that is inherited or mixed in is merged tag by tag. A tag that
matches nothing is inserted. A tag that matches one entry is already present and is
left out; if both are properties they must agree on the type. A tag that matches
several entries is refused, since nothing tells which of them it repeats.

The first refusal ends the merge. Tags inserted before it stay, which is why merging
returns the catalog in every case.
-/
namespace DocComment

/-- Why a tag is refused by a merge. Each of the two carries what its message shows. -/
inductive MergeError
  | conflictingTypes (name existing incoming : Text)
  | ambiguous (name : Text) (candidates : Nat)
  deriving DecidableEq

/-- The message for a reader of the comment. It shows the name of a variable with its sign, and
the number of candidates in digits. -/
def MergeError.message : MergeError → Text
  | .conflictingTypes name existing incoming =>
    "mismatched types for $".toList ++ name ++ ": already had ".toList ++ existing ++
      " and was given ".toList ++ incoming
  | .ambiguous name candidates =>
    "multiple matching tags found that matched ".toList ++ name ++ " (".toList ++
      Nat.toDigits 10 candidates ++ " candidates)".toList

/-- What a completed merge did: the handles it gave out, and how many of the incoming tags were
present before. -/
structure MergeReport where
  added : List Handle
  present : Nat
  deriving DecidableEq

/-- A report preceded by one more incoming tag, which was inserted if it has a handle and was
present otherwise. -/
def MergeReport.precededBy (later : MergeReport) : Option Handle → MergeReport
  | some handle => { later with added := handle :: later.added }
  | none => { later with present := later.present + 1 }

/-- Two properties that describe the same variable conflict when their types differ; no other
tags do. Their descriptions may differ. -/
def Tag.conflict? (existing incoming : Tag) : Option MergeError :=
  match existing.property?, incoming.property? with
  | some had, some given =>
    if had.type = given.type then none
    else some (.conflictingTypes given.name had.type.text given.type.text)
  | _, _ => none

namespace Catalog

/-- The catalog after one incoming tag, and the tag's handle if it was inserted. Without a handle
the catalog is the old one. -/
def offer (catalog : Catalog) (tag : Tag) : Except MergeError (Catalog × Option Handle) :=
  match catalog.matchingHandles tag with
  | [] => .ok (catalog.insert tag, some catalog.next)
  | [handle] =>
    match (catalog.get? handle).bind fun existing => existing.conflict? tag with
    | none => .ok (catalog, none)
    | some conflict => .error conflict
  | several => .error (.ambiguous tag.name.text several.length)

/-- The catalog after the incoming tags up to the first that is refused, and the report or that
refusal. -/
def merge (catalog : Catalog) : List Tag → Catalog × Except MergeError MergeReport
  | [] => (catalog, .ok ⟨[], 0⟩)
  | tag :: rest =>
    match catalog.offer tag with
    | .error refusal => (catalog, .error refusal)
    | .ok (next, inserted) =>
      let (final, report) := merge next rest
      (final, report.map fun later => later.precededBy inserted)

end DocComment.Catalog
