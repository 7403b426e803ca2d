import Mathlib.Data.List.Find
import VersionAudit.Pom.Model
import VersionAudit.Proofs.OrderedMap
import VersionAudit.Proofs.Step
import VersionAudit.Proofs.Text.Split
import VersionAudit.Xml.Encoding

/-!
# A repository that does not change its models

1. `Repository.Offers`: the models that the repository has under their coordinates, whenever it is asked for them. How
   models are read is not looked into: documents of whatever encoding or type are those that reading accepts.
2. `Memory.Faithful`: what was downloaded before is what the repository offers.
3. `Gives`: on such a memory a step gives the same whatever was downloaded before, and imports nothing. There is one rule
   for each way of building a step.
4. `gives_modelOf`: a model is the one that the repository offers, wherever it comes from.
5. `Coordinates.IsPlain`: no other model has the address of one with plain coordinates.
6. `Repository.holding`: the repository of a table. `offers_held`: it offers the models of the table.
-/

namespace VersionAudit.Pom

open Xml (Element)

variable {σ α β : Type}

/-- The models of a repository: under some coordinates is a model, or none, or one that reading breaks off at. -/
abbrev Models := Coordinates → Except String (Option Element)

/-- The model under some coordinates, or the failure to read it. -/
def Models.root? (models : Models) (c : Coordinates) : Except Failure (Option Element) :=
  (models c).mapError .undecodable

/-- The model in what comes back for an address. -/
def Repository.modelIn (r : Repository σ) : Download → Except String (Option Element)
  | .answer status content => if 400 ≤ status then .ok none else r.read content
  | .failed _ => .ok none

/-- The repository has these models, and no others, whatever it was asked before. -/
def Repository.Offers (r : Repository σ) (models : Models) : Prop :=
  ∀ c s, r.modelIn (r.fetch c.address s).1 = models c

/-- All that was downloaded is what is offered, also that there is no model. -/
def Memory.Faithful (models : Models) (m : Memory σ) : Prop :=
  ∀ c model?, m.downloads.find? c = some model? → models c = .ok model?

/-- A memory without downloads is faithful. -/
theorem faithful_fresh (models : Models) (s : σ) : ({ repository := s } : Memory σ).Faithful models :=
  fun _ _ h => by cases h

/-! ## Steps that show nothing of the memory -/

/-- From a faithful memory the step ends in the given way and leaves one with the same imports. Notes are only added. -/
def Gives (models : Models) (step : Step (Memory σ) α) (x : Except Failure α) : Prop :=
  ∀ l, l.state.Faithful models →
    (step.run l).1 = x ∧ (step.run l).2.state.Faithful models ∧
      (step.run l).2.state.imported = l.state.imported ∧ l.notes <+: (step.run l).2.notes

variable {models : Models}

namespace Gives

theorem pure (a : α) : Gives models (Pure.pure a : Step (Memory σ) α) (.ok a) :=
  fun l hl => ⟨rfl, hl, rfl, List.prefix_refl l.notes⟩

theorem fail (failure : Failure) : Gives models (Step.fail failure : Step (Memory σ) α) (.error failure) :=
  fun l hl => ⟨rfl, hl, rfl, List.prefix_refl l.notes⟩

theorem warn (text : String) : Gives models (Step.warn text : Step (Memory σ) Unit) (.ok ()) :=
  fun l hl => ⟨rfl, hl, rfl, List.prefix_append l.notes _⟩

theorem ofExcept (x : Except Failure α) : Gives models (Step.ofExcept x : Step (Memory σ) α) x := by
  intro l hl
  rw [Step.run_ofExcept]
  exact ⟨rfl, hl, rfl, List.prefix_refl l.notes⟩

/-- A composed step gives what its parts give. -/
theorem bind {step : Step (Memory σ) α} {f : α → Step (Memory σ) β} {x : Except Failure α} {g : α → Except Failure β}
    (h : Gives models step x) (hf : ∀ a, x = .ok a → Gives models (f a) (g a)) : Gives models (step >>= f) (x >>= g) := by
  intro l hl
  obtain ⟨hx, hfaithful, himported, hnotes⟩ := h l hl
  rw [Step.run_bind]
  rcases hrun : step.run l with ⟨r, m⟩
  rw [hrun] at hx hfaithful himported hnotes
  obtain rfl : r = x := hx
  cases r with
  | ok a =>
    obtain ⟨hg, hfaithful', himported', hnotes'⟩ := hf a rfl m hfaithful
    exact ⟨hg, hfaithful', himported'.trans himported, hnotes.trans hnotes'⟩
  | error e => exact ⟨rfl, hfaithful, himported, hnotes⟩

/-- What follows changes the value. -/
theorem bind_map {step : Step (Memory σ) α} {f : α → Step (Memory σ) β} {x : Except Failure α} {g : α → β}
    (h : Gives models step x) (hf : ∀ a, x = .ok a → Gives models (f a) (.ok (g a))) :
    Gives models (step >>= f) (x.map g) := by
  have hbind := h.bind (g := fun a => .ok (g a)) hf
  cases x <;> exact hbind

/-- What follows a step that cannot fail. -/
theorem bind_ok {step : Step (Memory σ) α} {f : α → Step (Memory σ) β} {a : α} {y : Except Failure β}
    (h : Gives models step (.ok a)) (hf : Gives models (f a) y) : Gives models (step >>= f) y :=
  h.bind (g := fun _ => y) fun b hb => by
    obtain rfl := Except.ok.inj hb
    exact hf

/-- Nothing follows a step that fails. -/
theorem bind_error {step : Step (Memory σ) α} {e : Failure} (h : Gives models step (.error e)) (f : α → Step (Memory σ) β) :
    Gives models (step >>= f) (.error e) :=
  h.bind (g := fun _ => .error e) fun _ hok => by cases hok

/-- If a step gives the same for an element in any memory, a list of them gives the same, too. -/
theorem filterMapM {f : α → Step (Memory σ) (Option β)} {g : α → Option β}
    (h : ∀ x, Gives models (f x) (.ok (g x))) (xs : List α) :
    Gives models (xs.filterMapM f) (.ok (xs.filterMap g)) := by
  induction xs with
  | nil => exact .pure []
  | cons x xs ih =>
    rw [List.filterMapM_cons, List.filterMap_cons]
    refine (h x).bind_ok ?_
    cases g x with
    | none => exact ih
    | some y => exact ih.bind_ok (.pure _)

end Gives

/-! ## Models -/

/-- A download gives the model in what comes back, or breaks off at it. Notes are only added. -/
theorem run_download (r : Repository σ) (c : Coordinates) (l : Ledger σ) :
    ((download r c).run l).1 = (r.modelIn (r.fetch c.address l.state).1).mapError .undecodable ∧
      l.notes <+: ((download r c).run l).2.notes := by
  unfold download Repository.modelIn
  rw [Step.run_bind, Step.run_read]
  dsimp only
  rw [Step.run_bind, Step.run_write]
  dsimp only
  -- no answer, one with an error status, or a document, which may be unreadable or not well-formed
  cases (r.fetch c.address l.state).1 with
  | failed reason => exact ⟨rfl, List.prefix_append l.notes _⟩
  | answer status content =>
    dsimp only
    split
    · exact ⟨rfl, List.prefix_append l.notes _⟩
    · unfold Repository.root?
      rw [Step.run_bind, Step.run_ofExcept]
      rcases r.read content with reason | (_ | root)
      · exact ⟨rfl, List.prefix_refl l.notes⟩
      · exact ⟨rfl, List.prefix_append l.notes _⟩
      · exact ⟨rfl, List.prefix_refl l.notes⟩

/-- A model that was not downloaded before is downloaded, and kept if it can be read. -/
theorem gives_modelOf {r : Repository σ} (hr : r.Offers models) (c : Coordinates) :
    Gives models (modelOf r c) (models.root? c) := by
  intro l hl
  unfold modelOf Models.root?
  simp only [Step.run_bind, Step.run_read]
  cases hkept : l.state.downloads.find? c with
  | some model? =>
    rw [hl c model? hkept]
    exact ⟨rfl, hl, rfl, List.prefix_refl l.notes⟩
  -- what is downloaded now is what the repository offers, and it is kept only if it was read
  | none =>
    obtain ⟨hdownload, hnotes⟩ := run_download r c ⟨l.state.repository, l.notes⟩
    rw [hr c] at hdownload
    simp only [Step.run_bind, Step.run_within, hdownload]
    cases hmodel : models c with
    | error reason => exact ⟨rfl, hl, rfl, hnotes⟩
    | ok model? =>
      refine ⟨rfl, fun c' model?' hfind => ?_, rfl, hnotes⟩
      simp only [Except.mapError, Step.run_read, Step.run_write, Step.run_pure] at hfind
      rw [OrderedMap.find?_insert] at hfind
      split at hfind
      · rename_i hsame
        rw [← eq_of_beq hsame, hmodel, Option.some_inj.1 hfind]
      · exact hl c' model?' hfind

/-! ## Addresses -/

namespace Coordinates

/-- The group in the address of a model. -/
def directory (c : Coordinates) : List Char :=
  (String.intercalate "/" (Text.split '.' c.group)).toList

/-- What follows the group in the address of a model. -/
def place (c : Coordinates) : List Char :=
  c.name.toList ++ '/' :: (c.version.toList ++ '/' :: (c.name.toList ++ '-' :: (c.version.toList ++ ".pom".toList)))

/-- The address of a model is that of the repository with the directory and the place behind it. -/
theorem toList_address (c : Coordinates) :
    c.address.toList = "https://repo1.maven.org/maven2/".toList ++ (c.directory ++ '/' :: c.place) := by
  unfold address directory place
  have hslash : "/".toList = ['/'] := rfl
  have hhyphen : "-".toList = ['-'] := rfl
  simp only [String.toList_append, hslash, hhyphen, List.append_assoc, List.cons_append, List.nil_append]

/-- A group without dots, or one whose directory has no slashes, is its own directory. -/
theorem directory_eq {c : Coordinates} (h : '.' ∉ c.group.toList ∨ '/' ∉ c.directory) : c.directory = c.group.toList := by
  obtain ⟨first, more, hsplit, hjoined, -⟩ := Text.joined_splitChars '.' c.group.toList
  have hdirectory : c.directory = first ++ more.flatMap ('/' :: ·) := by
    unfold directory Text.split
    rw [hsplit, List.map_cons]
    refine (Text.toList_intercalate_cons '/' _ _).trans ?_
    simp only [String.toList_ofList, List.flatMap_map]
  rw [hdirectory] at h ⊢
  rw [← hjoined] at h ⊢
  cases more with
  | nil => rfl
  | cons second more => simp at h

/-- Coordinates that add no slashes to the address. -/
structure IsPlain (c : Coordinates) : Prop where
  group : '.' ∉ c.group.toList ∧ '/' ∉ c.group.toList
  name : '/' ∉ c.name.toList
  version : '/' ∉ c.version.toList

instance (c : Coordinates) : Decidable c.IsPlain :=
  decidable_of_iff (('.' ∉ c.group.toList ∧ '/' ∉ c.group.toList) ∧ '/' ∉ c.name.toList ∧ '/' ∉ c.version.toList)
    ⟨fun h => ⟨h.1, h.2.1, h.2.2⟩, fun h => ⟨h.group, h.name, h.version⟩⟩

/-- No other model has the address of one with plain coordinates. -/
theorem IsPlain.eq_of_address_eq {c c' : Coordinates} (hplain : c.IsPlain) (h : c'.address = c.address) : c' = c := by
  obtain ⟨⟨hdot, hgroup⟩, hname, hversion⟩ := hplain
  have hdirectory := directory_eq (.inl hdot)
  have hchars : c'.directory ++ '/' :: c'.place = c.directory ++ '/' :: c.place := by
    have haddress := congrArg String.toList h
    rw [toList_address, toList_address] at haddress
    exact List.append_cancel_left haddress
  -- the other model has no more slashes than this one, and this one has only those of every address
  have hcount := congrArg (List.count '/') hchars
  unfold place at hcount
  rw [hdirectory] at hcount
  simp only [List.count_append, List.count_cons, List.count_eq_zero.2 hgroup, List.count_eq_zero.2 hname,
    List.count_eq_zero.2 hversion] at hcount
  have hdirectory' : '/' ∉ c'.directory := List.count_eq_zero.1 (by omega)
  have hname' : '/' ∉ c'.name.toList := List.count_eq_zero.1 (by omega)
  have hversion' : '/' ∉ c'.version.toList := List.count_eq_zero.1 (by omega)
  -- so the parts are those before the first slashes
  obtain ⟨hsame, hplace⟩ := Text.parts_eq_of_joined_eq hdirectory' (hdirectory ▸ hgroup) hchars
  obtain ⟨hsame', hrest⟩ := Text.parts_eq_of_joined_eq hname' hname hplace
  obtain ⟨hsame'', -⟩ := Text.parts_eq_of_joined_eq hversion' hversion hrest
  rw [hdirectory, directory_eq (.inr hdirectory')] at hsame
  rcases c with ⟨group, name, version⟩
  rcases c' with ⟨group', name', version'⟩
  rw [Coordinates.mk.injEq]
  exact ⟨String.toList_inj.1 hsame, String.toList_inj.1 hsame', String.toList_inj.1 hsame''⟩

end Coordinates

/-! ## A table of models -/

/-- The repository that has the models of a table, whose texts are written out. -/
def Repository.holding (table : List (Coordinates × String)) : Repository σ where
  fetch address s :=
    (match table.find? (·.1.address == address) with
      | some (_, text) => .answer 200 text.toUTF8
      | none => .answer 404 .empty, s)
  read := Element.ofBytes

/-- The models of a table. -/
def held (table : List (Coordinates × String)) : Models := fun c =>
  match table.find? (·.1 == c) with
  | some (_, text) => Element.ofBytes text.toUTF8
  | none => .ok none

/-- The repository of a table offers its models, if their coordinates have no slash. -/
theorem offers_held {table : List (Coordinates × String)} (h : ∀ entry ∈ table, entry.1.IsPlain) :
    (Repository.holding table : Repository σ).Offers (held table) := by
  intro c s
  have hfind : table.find? (·.1.address == c.address) = table.find? (·.1 == c) := by
    refine List.find?_congr fun entry hentry => ?_
    rw [Bool.eq_iff_iff, beq_iff_eq, beq_iff_eq]
    exact ⟨fun hsame => ((h entry hentry).eq_of_address_eq hsame.symm).symm, congrArg _⟩
  unfold Repository.holding held
  dsimp only
  rw [hfind]
  cases table.find? (·.1 == c) <;> rfl

end VersionAudit.Pom
