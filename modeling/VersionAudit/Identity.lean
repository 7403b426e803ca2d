import VersionAudit.Artifact

/-!
# Identities

An identity says which artifact is meant whatever its version: group and name, and possibly a kind and a
classifier. A missing kind means a jar and a missing classifier the empty one. The tests of an artifact have
two spellings, the kind `test-jar` and a jar with the classifier `tests`; both mean the same artifact.

Maps find an identity by its `key`. Comparisons use `isSame`, which reads kind and classifier separately.
-/

namespace VersionAudit

/-- The identity of an artifact. A classifier needs a kind. -/
structure Identity where
  group : String
  name : String
  variant : Option (String × Option String) := none
deriving Repr, DecidableEq, Inhabited

/-- The faults of an identity. -/
inductive IdentityFault
  | noGroup
  | noName
  | classifierWithoutKind
deriving Repr, DecidableEq

/-- The message of a fault. -/
def IdentityFault.message : IdentityFault → String
  | .noGroup => "group_id is None"
  | .noName => "artifact_id is None"
  | .classifierWithoutKind => "Classifier must be None if type is None"

namespace Identity

/-- The identity of the given parts. -/
def make (group name kind classifier : Option String) : Except IdentityFault Identity :=
  match group, name, kind, classifier with
  | none, _, _, _ => .error .noGroup
  | _, none, _, _ => .error .noName
  | _, _, none, some _ => .error .classifierWithoutKind
  | some group, some name, none, none => .ok ⟨group, name, none⟩
  | some group, some name, some kind, classifier => .ok ⟨group, name, some (kind, classifier)⟩

/-- The identity of an artifact; its empty classifier is a missing one. -/
def ofArtifact (a : Artifact) : Identity :=
  ⟨a.group, a.name, some (a.kind, if a.classifier = "" then none else some a.classifier)⟩

/-- The identity of a project. -/
def ofProject (p : Project) : Identity :=
  ⟨p.group, p.name, none⟩

/-- The kind, if one is given. -/
def kind? (n : Identity) : Option String :=
  n.variant.map (·.1)

/-- The classifier, if one is given. -/
def classifier? (n : Identity) : Option String :=
  n.variant.bind (·.2)

/-- The kind, a jar if none or an empty one is given. -/
def kind (n : Identity) : String :=
  match n.kind? with
  | some kind => if kind = "" then "jar" else kind
  | none => "jar"

/-- The classifier, empty if none is given. -/
def classifier (n : Identity) : String :=
  n.classifier?.getD ""

/-- Whether the identity is that of the tests of an artifact, in either spelling. -/
def isTests (n : Identity) : Bool :=
  n.kind? == some "test-jar" || (n.classifier? == some "tests" && n.kind? == some "jar")

/-! ## Names -/

/-- Group and name. -/
def minimalName (n : Identity) : String :=
  n.group ++ ":" ++ n.name

/-- All given parts. -/
def fullName (n : Identity) : String :=
  String.intercalate ":"
    ([n.group, n.name] ++ n.kind?.toList ++ n.classifier?.toList)

/-- Group and name, and the classifier in parentheses if there is one. -/
def shortName (n : Identity) : String :=
  let classifier := if n.isTests then "tests" else n.classifier
  if classifier = "" then n.minimalName else n.minimalName ++ " (" ++ classifier ++ ")"

/-- The number of characters of the short name. -/
def width (n : Identity) : Nat :=
  n.shortName.length

/-! ## Equality and order -/

/-- What maps find an identity by: group, name, kind and classifier, with one spelling for tests. -/
structure Key where
  group : String
  name : String
  kind : String
  classifier : String
deriving Repr, DecidableEq

/-- The key of an identity. -/
def key (n : Identity) : Key :=
  if n.isTests then ⟨n.group, n.name, "test-jar", "tests"⟩
  else ⟨n.group, n.name, n.kind, n.classifier⟩

instance : BEq Identity := ⟨fun x y => x.key == y.key⟩

instance : EquivBEq Identity where
  rfl := by simp [BEq.beq]
  symm := by
    intro a b h
    simp only [BEq.beq, decide_eq_true_eq] at h ⊢
    exact h.symm
  trans := by
    intro a b c h g
    simp only [BEq.beq, decide_eq_true_eq] at h g ⊢
    exact h.trans g

/-- Whether two identities mean the same artifact. -/
def isSame (x y : Identity) : Bool :=
  x.group == y.group && x.name == y.name &&
    ((x.isTests && y.isTests) || (x.kind == y.kind && x.classifier == y.classifier))

/-- The order of identities: by group and name. -/
protected def compare (x y : Identity) : Ordering :=
  if x.isSame y then .eq else Ord.compare x.minimalName y.minimalName

/-- Whether an identity comes before another. -/
def before (x y : Identity) : Bool :=
  x.compare y == .lt

end Identity

end VersionAudit
