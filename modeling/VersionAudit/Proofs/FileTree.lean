import VersionAudit.FileTree
import VersionAudit.Proofs.Text.Split

/-!
# What is in a file tree

1. `Location.IsProper`: a place whose names could be those of files. Such places are told apart by their paths
   (`IsProper.eq_of_text_eq`), and paths lead from such places to such places (`IsProper.join`).
2. `FileTree.mem_nodes_of_content?`: a file stands where its content is found.
-/

namespace VersionAudit

namespace Location

/-- No name on the way is empty or has a slash. -/
def IsProper (l : Location) : Prop :=
  ∀ name ∈ l.segments, name ≠ "" ∧ '/' ∉ name.toList

namespace IsProper

variable {l l' : Location}

theorem parent (h : l.IsProper) : l.parent.IsProper :=
  fun name hname => h name (List.dropLast_subset _ hname)

/-- A child with a proper name of a proper place is proper. -/
theorem child (h : l.IsProper) {name : String} (hname : name ≠ "") (hslash : '/' ∉ name.toList) : (l.child name).IsProper := by
  intro name' hmem
  rcases List.mem_append.1 hmem with hmem | hmem
  · exact h name' hmem
  · obtain rfl := List.mem_singleton.1 hmem
    exact ⟨hname, hslash⟩

/-- Going one step, up or down, stays proper. -/
theorem step (h : l.IsProper) {name : String} (hslash : '/' ∉ name.toList) : (l.step name).IsProper := by
  unfold Location.step
  split
  · exact h
  · split
    · exact h.parent
    · rename_i hname _
      exact h.child (fun hempty => hname (.inl hempty)) hslash

/-- A path leads from a proper place to a proper place. -/
theorem join (h : l.IsProper) (path : String) : (l.join path).IsProper := by
  have hstart : (l.start path).IsProper := by
    unfold start
    split
    · exact fun name hname => absurd hname List.not_mem_nil
    · exact h
  have hnames : ∀ name ∈ Text.split '/' path, '/' ∉ name.toList := by
    obtain ⟨first, more, hsplit, -, hpieces⟩ := Text.joined_splitChars '/' path.toList
    unfold Text.split
    rw [hsplit]
    intro name hname
    obtain ⟨piece, hpiece, rfl⟩ := List.mem_map.1 hname
    rw [String.toList_ofList]
    exact hpieces piece hpiece
  unfold Location.join
  generalize l.start path = start at hstart
  generalize Text.split '/' path = names at hnames
  -- step by step along the path
  induction names generalizing start with
  | nil => exact hstart
  | cons name names ih =>
    rw [List.forall_mem_cons] at hnames
    exact ih (start.step name) (hstart.step hnames.1) hnames.2

/-- The names on the way are the pieces of the path. -/
theorem splitChars_text (h : l.IsProper) {first : String} {more : List String} (hl : l.segments = first :: more) :
    Text.splitChars '/' (String.intercalate "/" l.segments).toList = (first :: more).map String.toList := by
  rw [hl]
  exact Text.splitChars_intercalate fun name hname => (h name (hl ▸ hname)).2

/-- Proper places with the same path are the same. -/
theorem eq_of_text_eq (h : l.IsProper) (h' : l'.IsProper) (htext : l.text = l'.text) : l = l' := by
  have hchars : (String.intercalate "/" l.segments).toList = (String.intercalate "/" l'.segments).toList := by
    have hall := congrArg String.toList htext
    unfold text at hall
    rw [String.toList_append, String.toList_append] at hall
    exact List.append_cancel_left hall
  have hpieces := congrArg (Text.splitChars '/') hchars
  rcases l with ⟨segments⟩
  rcases l' with ⟨segments'⟩
  refine congrArg Location.mk ?_
  -- the path of the top has one empty piece, and no other proper place has it
  cases segments with
  | nil =>
    cases segments' with
    | nil => rfl
    | cons first more =>
      rw [h'.splitChars_text rfl] at hpieces
      exact absurd (String.toList_eq_nil_iff.1 (List.cons.inj hpieces).1.symm) (h' first (List.mem_cons_self ..)).1
  | cons first more =>
    rw [h.splitChars_text rfl] at hpieces
    cases segments' with
    | nil => exact absurd (String.toList_eq_nil_iff.1 (List.cons.inj hpieces).1) (h first (List.mem_cons_self ..)).1
    | cons first' more' =>
      rw [h'.splitChars_text rfl] at hpieces
      exact (List.map_inj_right fun _ _ hsame => String.toList_inj.1 hsame).1 hpieces

end IsProper

end Location

namespace FileTree

/-- A file stands where its content is found. -/
theorem mem_nodes_of_content? {t : FileTree} {l : Location} {content : ByteArray} (h : t.content? l = some content) :
    (l, .file content) ∈ t.nodes := by
  unfold content? at h
  split at h
  · rename_i found
    obtain rfl := Option.some_inj.1 h
    obtain ⟨before, after, hnodes, -⟩ := List.lookup_eq_some_iff.1 found
    rw [hnodes]
    exact List.mem_append_right _ (List.mem_cons_self ..)
  · cases h

/-- The model at a proper place is at a proper place. -/
theorem isProper_modelAt (t : FileTree) {l : Location} (h : l.IsProper) : (t.modelAt l).IsProper := by
  unfold modelAt
  split
  · exact h.child (by decide) (by decide)
  · exact h

end FileTree

end VersionAudit
