import Mathlib.Data.List.TakeWhile
import VersionAudit.Version.Basic

/-!
# What the canonical text shows

The canonical text writes a point or a hyphen only where something is written already. So a release at the beginning
of a level leaves no trace, and a level at the beginning of another one is written as if it were the outer one.
Everything else can be read off the text.

1. `Spelled`: words are written in letters only. `spelled_items`: those of a version are.
2. `chars`: the characters of the canonical text, item by item.
3. `shown`: a row of items without what leaves no trace.
4. `canonical_eq_iff`: two rows have the same canonical text if and only if they show the same.
-/

namespace VersionAudit

namespace Items

/-! ## Words -/

/-- Whether a character can be part of a word. -/
def isLetter (c : Char) : Bool :=
  c != '.' && c != '-' && !isDigit c

/-- The words of a row are written in letters only. -/
def Spelled : Items → Prop
  | .done => True
  | .number _ rest => rest.Spelled
  | .word text rest => (∀ c ∈ text.toList, isLetter c = true) ∧ rest.Spelled
  | .nested inner => inner.Spelled

/-- The known words are written in letters. -/
theorem isLetter_knownWords {text : String} (h : text ∈ knownWords) : ∀ c ∈ text.toList, isLetter c = true := by
  have hall : knownWords.all (fun known => known.toList.all isLetter) = true := by decide +kernel
  rw [List.all_eq_true] at hall
  exact List.all_eq_true.1 (hall text h)

/-- The usual name of a word is made of letters. -/
theorem isLetter_usualWord {text : String} (h : ∀ c ∈ text.toList, isLetter c = true) :
    ∀ c ∈ (usualWord text).toList, isLetter c = true := by
  unfold usualWord
  split
  · exact isLetter_knownWords (by decide)
  · split
    · exact isLetter_knownWords (by decide)
    · exact h

/-- So is the word that a letter before a digit stands for. -/
theorem isLetter_wordBeforeDigit {text : String} (h : ∀ c ∈ text.toList, isLetter c = true) :
    ∀ c ∈ (wordBeforeDigit text).toList, isLetter c = true := by
  unfold wordBeforeDigit
  split
  · exact isLetter_knownWords (by decide)
  · split
    · exact isLetter_knownWords (by decide)
    · split
      · exact isLetter_knownWords (by decide)
      · exact isLetter_usualWord h

/-- The letters of a run. -/
def Run.Lettered : Run → Prop
  | .letters rev => ∀ c ∈ rev, isLetter c = true
  | _ => True

/-- A pending run of letters becomes a word of letters. -/
theorem Run.Lettered.spelled_item {run : Run} (h : run.Lettered) {rest : Items} (hrest : rest.Spelled) :
    (run.item rest).Spelled := by
  cases run with
  | empty => exact hrest
  | digits rev => exact hrest
  | letters rev =>
    refine ⟨isLetter_usualWord ?_, hrest⟩
    intro c hc
    rw [String.toList_ofList, List.mem_reverse] at hc
    exact h c hc

/-- Reading collects nothing but letters in words. -/
theorem spelled_readFrom {run : Run} (h : run.Lettered) (cs : List Char) : (readFrom run cs).Spelled := by
  induction cs generalizing run with
  | nil =>
    cases run with
    | empty => trivial
    | digits rev => exact h.spelled_item trivial
    | letters rev => exact h.spelled_item trivial
  | cons c cs ih =>
    have hstart : Run.empty.Lettered := trivial
    have hdigits : (Run.digits [c]).Lettered := trivial
    unfold readFrom
    -- separator, digit or letter: the branches of the reader
    by_cases hpoint : (c == '.') = true
    · rw [if_pos hpoint]
      exact h.spelled_item (ih hstart)
    rw [if_neg hpoint]
    by_cases hhyphen : (c == '-') = true
    · rw [if_pos hhyphen]
      exact h.spelled_item (ih hstart)
    rw [if_neg hhyphen]
    by_cases hdigit : isDigit c = true
    · rw [if_pos hdigit]
      cases run with
      | empty => exact ih hdigits
      | digits rev => exact ih trivial
      | letters rev =>
        refine ⟨isLetter_wordBeforeDigit ?_, ih hdigits⟩
        intro d hd
        rw [String.toList_ofList, List.mem_reverse] at hd
        exact h d hd
    -- a letter goes into the run of letters, or begins one
    · rw [if_neg hdigit]
      have hletter : isLetter c = true := by
        unfold isLetter
        simp only [bne, hpoint, hhyphen, hdigit, Bool.not_false, Bool.and_self]
      have hone : (Run.letters [c]).Lettered := by
        intro d hd
        rwa [List.mem_singleton.1 hd]
      cases run with
      | empty => exact ih hone
      | digits rev => exact ih hone
      | letters rev =>
        have hmore : (Run.letters (c :: rev)).Lettered := List.forall_mem_cons.2 ⟨hletter, h⟩
        exact ih hmore

/-- Normalising keeps the words that stay. -/
theorem Spelled.normal {x : Items} (h : x.Spelled) : x.normal.Spelled := by
  induction x with
  | done => trivial
  | number value rest ih =>
    unfold Items.normal consNumber
    split
    · exact ih h
    · exact ih h
  | word text rest ih =>
    unfold Items.normal consWord
    split
    · exact ih h.2
    · exact ⟨h.1, ih h.2⟩
  | nested inner ih =>
    unfold Items.normal nest
    split
    · trivial
    · exact ih h

end Items

theorem Version.spelled_items (v : Version) : v.items.Spelled := by
  have hstart : Items.Run.empty.Lettered := trivial
  exact (Items.spelled_readFrom hstart _).normal

namespace Items

/-! ## The text, character by character -/

/-- The characters written for a row, where `begun` says that something is written for its level already. -/
def chars (begun : Bool) : Items → List Char
  | .done => []
  | .number value rest => (if begun then ['.'] else []) ++ (Nat.toDigits 10 value ++ rest.chars true)
  | .word text rest => (if begun then ['.'] else []) ++ (text.toList ++ rest.chars (begun || text != ""))
  | .nested inner => (if begun then ['-'] else []) ++ inner.chars false

/-- Behind a point something is written. -/
theorem append_point_ne_empty (written text : String) : (written ++ "." ++ text != "") = true := by
  rw [bne_iff_ne]
  intro h
  have hchars := congrArg String.toList h
  simp at hchars

/-- Writing a row behind a text appends the characters of the row, which depend on whether the text is empty. -/
theorem toList_writeAfter (x : Items) (written : String) :
    (x.writeAfter written).toList = written.toList ++ x.chars (written != "") := by
  -- what is written grows, so the induction is for any text written before
  induction x generalizing written with
  | done => simp [writeAfter, chars]
  | number value rest ih =>
    unfold writeAfter chars
    rw [ih]
    have hdigits : (toString value).toList = Nat.toDigits 10 value := by
      rw [Nat.toString_eq_ofList_toDigits, String.toList_ofList]
    by_cases hw : written = ""
    · have hvalue : (toString value != "") = true := by
        rw [bne_iff_ne]
        exact Nat.repr_ne_empty
      rw [if_pos hw, hvalue, hdigits, hw]
      rfl
    · rw [if_neg hw, append_point_ne_empty]
      simp only [String.toList_append, hdigits, bne_iff_ne.2 hw, if_true, List.append_assoc]
      rfl
  | word text rest ih =>
    unfold writeAfter chars
    rw [ih]
    by_cases hw : written = ""
    · simp [hw]
    · rw [if_neg hw, append_point_ne_empty, bne_iff_ne.2 hw]
      simp only [String.toList_append, Bool.true_or, if_true, List.append_assoc]
      rfl
  | nested inner ih =>
    unfold writeAfter chars
    by_cases hw : written = ""
    · simp [hw, ih]
    · simp [hw, ih]

theorem toList_canonical (x : Items) : x.canonical.toList = x.chars false := by
  unfold canonical
  rw [toList_writeAfter]
  rfl

/-! ## What leaves a trace -/

/-- A row without releases and levels at the beginning of a level, where `begun` says that the row goes on with a
level begun before. -/
def shown (begun : Bool) : Items → Items
  | .done => .done
  | .number value rest => .number value (rest.shown true)
  | .word text rest => if begun || text != "" then .word text (rest.shown true) else rest.shown false
  | .nested inner => if begun then .nested (inner.shown false) else inner.shown false

/-- No level of the row begins with a release or with another level. -/
def Bare (begun : Bool) : Items → Prop
  | .done => True
  | .number _ rest => rest.Bare true
  | .word text rest => (begun || text != "") = true ∧ rest.Bare true
  | .nested inner => begun = true ∧ inner.Bare false

/-- What is shown shows all it has. -/
theorem bare_shown (x : Items) (begun : Bool) : (x.shown begun).Bare begun := by
  induction x generalizing begun with
  | done => trivial
  | number value rest ih => exact ih true
  | word text rest ih =>
    unfold shown
    split
    · rename_i hwritten
      exact ⟨hwritten, ih true⟩
    -- an empty word behind nothing writes nothing, and is left out
    · rename_i hnothing
      have hbegun : begun = false := by
        cases begun with
        | false => rfl
        | true => simp at hnothing
      rw [hbegun]
      exact ih false
  | nested inner ih =>
    unfold shown
    split
    · rename_i hbegun
      exact ⟨hbegun, ih false⟩
    · rename_i hnothing
      rw [Bool.not_eq_true] at hnothing
      rw [hnothing]
      exact ih false

/-- What is shown has the words of the row. -/
theorem Spelled.shown {x : Items} (h : x.Spelled) (begun : Bool) : (x.shown begun).Spelled := by
  induction x generalizing begun with
  | done => trivial
  | number value rest ih => exact ih h true
  | word text rest ih =>
    unfold Items.shown
    split
    · exact ⟨h.1, ih h.2 true⟩
    · exact ih h.2 false
  | nested inner ih =>
    unfold Items.shown
    split
    · exact ih h false
    · exact ih h false

/-- What is not shown is not written. -/
theorem chars_shown (x : Items) (begun : Bool) : (x.shown begun).chars begun = x.chars begun := by
  induction x generalizing begun with
  | done => rfl
  | number value rest ih =>
    unfold shown chars
    rw [ih]
  | word text rest ih =>
    unfold shown
    split
    · rename_i hwritten
      unfold chars
      rw [hwritten, ih]
    -- left out: an empty word at the start, which writes nothing
    · rename_i hnothing
      simp only [Bool.or_eq_true, bne_iff_ne, not_or, Bool.not_eq_true, not_not] at hnothing
      rcases hnothing with ⟨rfl, rfl⟩
      rw [ih]
      rfl
  | nested inner ih =>
    unfold shown
    split
    · unfold chars
      rw [ih]
    · rename_i hnothing
      rw [Bool.not_eq_true] at hnothing
      subst hnothing
      rw [ih]
      rfl

/-! ## Reading the text back -/

/-- Whether a character separates items. -/
def isSeparator (c : Char) : Bool :=
  c == '.' || c == '-'

/-- Behind something written, a row goes on with a separator. -/
theorem isSeparator_of_chars {x : Items} {c : Char} {cs : List Char} (h : x.chars true = c :: cs) :
    isSeparator c = true := by
  cases x with
  | done => cases h
  | number value rest =>
    obtain ⟨rfl, -⟩ := List.cons.inj h
    rfl
  | word text rest =>
    obtain ⟨rfl, -⟩ := List.cons.inj h
    rfl
  | nested inner =>
    obtain ⟨rfl, -⟩ := List.cons.inj h
    rfl

/-- A segment ends at the first separator. -/
theorem segment_eq {s s' : List Char} {x x' : Items} (hs : ∀ c ∈ s, isSeparator c = false)
    (hs' : ∀ c ∈ s', isSeparator c = false) (h : s ++ x.chars true = s' ++ x'.chars true) :
    s = s' ∧ x.chars true = x'.chars true := by
  -- behind the segment there is a separator, or nothing
  have hend : ∀ y : Items, (y.chars true).takeWhile (fun c => !isSeparator c) = [] := by
    intro y
    cases hy : y.chars true with
    | nil => rfl
    | cons c cs => simp [isSeparator_of_chars hy]
  have htake : ∀ (t : List Char) (y : Items), (∀ c ∈ t, isSeparator c = false) →
      (t ++ y.chars true).takeWhile (fun c => !isSeparator c) = t := by
    intro t y ht
    rw [List.takeWhile_append_of_pos, hend, List.append_nil]
    intro c hc
    simp [ht c hc]
  have hsegment : s = s' := by
    rw [← htake s x hs, h, htake s' x' hs']
  rw [hsegment] at h
  exact ⟨hsegment, List.append_cancel_left h⟩

theorem not_isSeparator_of_isLetter {c : Char} (h : isLetter c = true) : isSeparator c = false := by
  unfold isLetter at h
  unfold isSeparator
  simp only [Bool.and_eq_true, bne_iff_ne] at h
  simp [h.1.1, h.1.2]

theorem isDigit_of_isLetter {c : Char} (h : isLetter c = true) : isDigit c = false := by
  unfold isLetter at h
  simp only [Bool.and_eq_true] at h
  simpa using h.2

theorem isDigit_eq (c : Char) : isDigit c = c.isDigit := by
  unfold isDigit Char.isDigit
  simp [Char.le_def]

theorem isDigit_of_mem_toDigits {value : Nat} {c : Char} (h : c ∈ Nat.toDigits 10 value) : isDigit c = true := by
  rw [isDigit_eq]
  exact Nat.isDigit_of_mem_toDigits (by decide) (by decide) h

theorem not_isSeparator_of_isDigit {c : Char} (h : isDigit c = true) : isSeparator c = false := by
  unfold isSeparator
  rw [Bool.or_eq_false_iff]
  constructor
  · by_contra hc
    obtain rfl : c = '.' := by simpa using hc
    exact absurd h (by decide)
  · by_contra hc
    obtain rfl : c = '-' := by simpa using hc
    exact absurd h (by decide)

/-- Different numbers are written differently. -/
theorem toDigits_injective {m n : Nat} (h : Nat.toDigits 10 m = Nat.toDigits 10 n) : m = n := by
  rw [← Nat.ofDigitChars_ten_toDigits (n := m), h, Nat.ofDigitChars_ten_toDigits]

/-- The digits of a number are no word. -/
theorem toDigits_ne_letters {value : Nat} {cs : List Char} (h : ∀ c ∈ cs, isLetter c = true) :
    Nat.toDigits 10 value ≠ cs := by
  rintro rfl
  obtain ⟨c, hc⟩ := List.exists_mem_of_ne_nil _ (Nat.toDigits_ne_nil (n := value) (b := 10))
  have hletter := isDigit_of_isLetter (h c hc)
  rw [isDigit_of_mem_toDigits hc] at hletter
  cases hletter

/-- A row that shows all it has is written as something, unless it has ended. -/
theorem Bare.chars_ne_nil {x : Items} {begun : Bool} (h : x.Bare begun) (hx : x ≠ .done) : x.chars begun ≠ [] := by
  cases x with
  | done => exact absurd rfl hx
  | number value rest => simp [chars, Nat.toDigits_ne_nil]
  | word text rest =>
    have hwritten := h.1
    cases begun with
    | true => simp [chars]
    | false =>
      have htext : text ≠ "" := by simpa using hwritten
      simp [chars, htext]
  | nested inner =>
    obtain rfl := h.1
    simp [chars]

/-- Rows that show all they have can be read off their text. -/
theorem Bare.eq_of_chars {x y : Items} {begun : Bool} (hx : x.Bare begun) (hy : y.Bare begun) (hxs : x.Spelled)
    (hys : y.Spelled) (h : x.chars begun = y.chars begun) : x = y := by
  -- item by item: a segment of digits is a number, one of letters is a word, and a hyphen begins a list
  induction x generalizing begun y with
  | done =>
    by_contra hne
    exact hy.chars_ne_nil (Ne.symm hne) h.symm
  | number value rest ih =>
    have hdigits : ∀ (n : Nat), ∀ c ∈ Nat.toDigits 10 n, isSeparator c = false :=
      fun n c hc => not_isSeparator_of_isDigit (isDigit_of_mem_toDigits hc)
    cases y with
    | done => exact absurd h (hx.chars_ne_nil (by simp))
    | number value' rest' =>
      unfold chars at h
      rcases segment_eq (hdigits value) (hdigits value') (List.append_cancel_left h) with ⟨hvalue, hrest⟩
      rw [toDigits_injective hvalue, ih hx hy hxs hys hrest]
    | word text rest' =>
      unfold chars at h
      rw [hy.1] at h
      have hletters := segment_eq (hdigits value) (fun c hc => not_isSeparator_of_isLetter (hys.1 c hc))
        (List.append_cancel_left h)
      exact absurd hletters.1 (toDigits_ne_letters hys.1)
    | nested inner =>
      obtain rfl := hy.1
      cases h
  | word text rest ih =>
    have hletters : ∀ c ∈ text.toList, isSeparator c = false :=
      fun c hc => not_isSeparator_of_isLetter (hxs.1 c hc)
    cases y with
    | done => exact absurd h (hx.chars_ne_nil (by simp))
    | number value rest' =>
      unfold chars at h
      rw [hx.1] at h
      have hdigits := segment_eq hletters (fun c hc => not_isSeparator_of_isDigit (isDigit_of_mem_toDigits hc))
        (List.append_cancel_left h)
      exact absurd hdigits.1.symm (toDigits_ne_letters hxs.1)
    | word text' rest' =>
      unfold chars at h
      rw [hx.1, hy.1] at h
      rcases segment_eq hletters (fun c hc => not_isSeparator_of_isLetter (hys.1 c hc))
        (List.append_cancel_left h) with ⟨htext, hrest⟩
      rw [String.toList_injective htext, ih hx.2 hy.2 hxs.2 hys.2 hrest]
    | nested inner =>
      obtain rfl := hy.1
      cases h
  | nested inner ih =>
    obtain rfl := hx.1
    cases y with
    | done => cases h
    | number value rest => cases h
    | word text rest => cases h
    | nested inner' =>
      have hinner : inner.chars false = inner'.chars false := List.append_cancel_left h
      rw [ih hx.2 hy.2 hxs hys hinner]

/-- Rows of spelled words have the same canonical text if and only if they show the same. -/
theorem canonical_eq_iff {x y : Items} (hx : x.Spelled) (hy : y.Spelled) :
    x.canonical = y.canonical ↔ x.shown false = y.shown false := by
  constructor
  · intro h
    refine (bare_shown x false).eq_of_chars (bare_shown y false) (hx.shown false) (hy.shown false) ?_
    rw [chars_shown, chars_shown, ← toList_canonical, ← toList_canonical, h]
  · intro h
    apply String.toList_injective
    rw [toList_canonical, toList_canonical, ← chars_shown, h, chars_shown]

end Items

end VersionAudit
