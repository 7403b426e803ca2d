import VersionAudit.Sorting
import VersionAudit.Text.LowerCase
import VersionAudit.Version.Items

/-!
# Versions

A version is the text it was written as. Two questions are asked of it, and they use different relations:
*equality* holds of versions with the same canonical text, and the *order* compares their items.
-/

namespace VersionAudit

/-- A version as written. -/
structure Version where
  text : String
deriving Repr, Inhabited

namespace Version

/-- The normal items of a version. -/
def items (v : Version) : Items :=
  (Items.read (Text.lowerFrom [] v.text.toList)).normal

/-- The canonical text of a version. -/
def canonical (v : Version) : String :=
  v.items.canonical

/-- The order of versions. -/
protected def compare (a b : Version) : Ordering :=
  a.items.compare b.items

instance : Ord Version := ⟨Version.compare⟩

/-- Equality of versions: the same canonical text. -/
instance : BEq Version := ⟨fun a b => a.canonical == b.canonical⟩

/-- Whether a version comes before another. -/
def before (a b : Version) : Bool :=
  a.compare b == .lt

/-- The versions in ascending order. -/
def sort (vs : List Version) : List Version :=
  Sorting.sortBy before vs

/-- The first version of each group of equal ones. -/
def distinct (vs : List Version) : List Version :=
  vs.foldl (fun kept v => if kept.any (· == v) then kept else kept ++ [v]) []

end Version

end VersionAudit
