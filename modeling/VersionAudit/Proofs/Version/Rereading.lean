import Mathlib.Data.List.Infix
import VersionAudit.Proofs.Version.Agreement
import VersionAudit.Proofs.Version.Reading

/-!
# Reading a canonical text again

A canonical text is a version itself. Read as one, it has the items that it shows but for the releases in the middle of
a level: these are written as nothing, and where nothing stands between two points a zero is read.

1. `words_readFrom`: words are read under their usual names, so they stay as they are when they are read again.
2. `Items.filled`: a row with zeros for its releases. `Bare.readFrom_chars`: what a row that shows all it has is read as.
3. `Items.fillGaps`: a text with zeros between points that stand side by side. `chars_filled`: this is how the filled
   row is written.
4. `Version.canonical_canonical`: the canonical text of a canonical text, and when it is the same.
-/

namespace VersionAudit

namespace Items

/-! ## Words -/

/-- The words of a row. -/
def words : Items → List String
  | .done => []
  | .number _ rest => rest.words
  | .word text rest => text :: rest.words
  | .nested inner => inner.words

/-- Normalising drops words and makes none. -/
theorem words_normal_subset (x : Items) : x.normal.words ⊆ x.words := by
  induction x with
  | done => exact List.Subset.refl _
  | number value rest ih =>
    unfold normal consNumber
    split
    · exact ih
    · exact ih
  | word text rest ih =>
    unfold normal consWord
    split
    · exact List.subset_cons_of_subset text ih
    · exact List.cons_subset_cons text ih
  | nested inner ih =>
    -- a list is dropped only if it is empty, and then it has no words
    have hnest : (nest inner.normal).words = inner.normal.words := by
      unfold nest
      split
      · rename_i hdone
        rw [hdone]
      · rfl
    unfold normal
    rw [hnest]
    exact ih

/-- What is shown has no other words. -/
theorem words_shown_subset (x : Items) (begun : Bool) : (x.shown begun).words ⊆ x.words := by
  induction x generalizing begun with
  | done => exact List.Subset.refl _
  | number value rest ih => exact ih true
  | word text rest ih =>
    unfold shown
    split
    · exact List.cons_subset_cons text (ih true)
    · exact List.subset_cons_of_subset text (ih false)
  | nested inner ih =>
    unfold shown
    split
    · exact ih false
    · exact ih false

/-- A character of ASCII that is no capital letter. -/
def IsSmall (c : Char) : Prop :=
  c.toNat < 128 ∧ c.toLower = c

instance : DecidablePred IsSmall := fun c => inferInstanceAs (Decidable (c.toNat < 128 ∧ c.toLower = c))

/-- A word in small letters under its usual name. -/
structure UsualWord (text : String) : Prop where
  small : ∀ c ∈ text.toList, IsSmall c
  usual : usualWord text = text

/-- The words known to the order are usual ones. -/
theorem usual_of_known {text : String} (h : text ∈ knownWords) : UsualWord text := by
  have hsmall : knownWords.all (fun known => known.toList.all fun c => decide (IsSmall c)) = true := by decide +kernel
  have husual : ∀ known ∈ knownWords, usualWord known = known := by decide +kernel
  rw [List.all_eq_true] at hsmall
  constructor
  · intro c hc
    exact of_decide_eq_true (List.all_eq_true.1 (hsmall text h) c hc)
  · exact husual text h

/-- A word is usual once it goes by its usual name. -/
theorem usual_usualWord {text : String} (h : ∀ c ∈ text.toList, IsSmall c) : UsualWord (usualWord text) := by
  unfold usualWord
  split
  · exact usual_of_known (by decide)
  · rename_i hrelease
    split
    · exact usual_of_known (by decide)
    · rename_i hcandidate
      refine ⟨h, ?_⟩
      unfold usualWord
      rw [if_neg hrelease, if_neg hcandidate]

/-- So is a word before a digit, where one letter may stand for a whole word. -/
theorem usual_wordBeforeDigit {text : String} (h : ∀ c ∈ text.toList, IsSmall c) :
    UsualWord (wordBeforeDigit text) := by
  unfold wordBeforeDigit
  split_ifs
  · exact usual_of_known (by decide)
  · exact usual_of_known (by decide)
  · exact usual_of_known (by decide)
  · exact usual_usualWord h

/-- The letters of a run are small. -/
def Run.Small : Run → Prop
  | .letters rev => ∀ c ∈ rev, IsSmall c
  | _ => True

theorem Run.Small.small_text {rev : List Char} (h : ∀ c ∈ rev, IsSmall c) :
    ∀ c ∈ (String.ofList rev.reverse).toList, IsSmall c := by
  intro c hc
  rw [String.toList_ofList, List.mem_reverse] at hc
  exact h c hc

/-- The word of a pending run of small letters is usual. -/
theorem Run.Small.words_item {run : Run} (h : run.Small) {rest : Items} (hrest : ∀ w ∈ rest.words, UsualWord w) :
    ∀ w ∈ (run.item rest).words, UsualWord w := by
  cases run with
  | empty => exact hrest
  | digits rev => exact hrest
  | letters rev => exact List.forall_mem_cons.2 ⟨usual_usualWord (Run.Small.small_text h), hrest⟩

/-- Words are read under their usual names. -/
theorem words_readFrom {cs : List Char} (hcs : ∀ c ∈ cs, IsSmall c) {run : Run} (h : run.Small) :
    ∀ w ∈ (readFrom run cs).words, UsualWord w := by
  -- the letters of a run become a word later on, so they have to be small as well
  induction cs generalizing run with
  | nil =>
    have hnone : ∀ w ∈ Items.done.words, UsualWord w := by
      intro w hw
      cases hw
    cases run with
    | empty => exact hnone
    | digits rev => exact h.words_item hnone
    | letters rev => exact h.words_item hnone
  | cons c cs ih =>
    rw [List.forall_mem_cons] at hcs
    rcases hcs with ⟨hc, hcs⟩
    have hnothing : Run.empty.Small := trivial
    have hstart : ∀ w ∈ (readFrom .empty cs).words, UsualWord w := ih hcs hnothing
    rcases char_cases c with rfl | rfl | hdigit | hletter
    · rw [readFrom_point]
      exact h.words_item hstart
    · rw [readFrom_hyphen]
      exact h.words_item hstart
    · rw [readFrom_digit hdigit]
      have hdigits : ∀ rev, (Run.digits rev).Small := fun _ => trivial
      have hone : ∀ w ∈ (readFrom (.digits [c]) cs).words, UsualWord w := ih hcs (hdigits [c])
      cases run with
      | empty => exact hone
      | digits rev => exact ih hcs (hdigits (c :: rev))
      | letters rev =>
        exact List.forall_mem_cons.2 ⟨usual_wordBeforeDigit (Run.Small.small_text h), hone⟩
    · rw [readFrom_letter hletter]
      have hsingle : (Run.letters [c]).Small := List.forall_mem_singleton.2 hc
      have hone : ∀ w ∈ (readFrom (.letters [c]) cs).words, UsualWord w := ih hcs hsingle
      cases run with
      | empty => exact hone
      | digits rev => exact hone
      | letters rev =>
        have hmore : (Run.letters (c :: rev)).Small := List.forall_mem_cons.2 ⟨hc, h⟩
        exact ih hcs hmore

/-! ## Rows without releases -/

/-- The row with zeros in the place of releases. -/
def filled : Items → Items
  | .done => .done
  | .number value rest => .number value rest.filled
  | .word text rest => if text = "" then .number 0 rest.filled else .word text rest.filled
  | .nested inner => .nested inner.filled

/-- Whether a level ends does not depend on how its releases are shown. -/
theorem atEnd_filled (x : Items) : x.filled.atEnd = x.atEnd := by
  cases x with
  | done => rfl
  | number value rest => rfl
  | word text rest =>
    unfold filled
    split
    · rfl
    · rfl
  | nested inner => rfl

/-- Whether a level ends does not depend on what of it is shown. -/
theorem atEnd_shown (x : Items) : (x.shown true).atEnd = x.atEnd := by
  cases x with
  | done => rfl
  | number value rest => rfl
  | word text rest => rfl
  | nested inner => rfl

/-- A zero is trimmed at the end of a level like the release it stands for. -/
theorem Trimmed.filled {x : Items} (h : x.Trimmed) : x.filled.Trimmed := by
  induction x with
  | done => trivial
  | number value rest ih =>
    refine ⟨?_, ih h.2⟩
    rw [atEnd_filled]
    exact h.1
  | word text rest ih =>
    unfold Items.filled
    split
    · rename_i hrelease
      refine ⟨?_, ih h.2⟩
      rw [atEnd_filled]
      intro _
      exact h.1 hrelease
    · rename_i hword
      exact ⟨fun hrelease => absurd hrelease hword, ih h.2⟩
  -- a list is filled item by item, so that it becomes no empty one
  | nested inner ih =>
    refine ⟨?_, ih h.2⟩
    intro hdone
    apply h.1
    cases inner with
    | done => rfl
    | number value rest => cases hdone
    | word text rest =>
      have hend := atEnd_filled (.word text rest)
      rw [hdone] at hend
      cases hend
    | nested inner => cases hdone

/-- There is nothing to normalise in a trimmed row. -/
theorem Trimmed.normal_eq {x : Items} (h : x.Trimmed) : x.normal = x := by
  induction x with
  | done => rfl
  | number value rest ih =>
    have hcounts : ¬ (value = 0 ∧ rest.atEnd = true) := by
      rintro ⟨hzero, hend⟩
      rw [h.1 hzero] at hend
      cases hend
    unfold normal consNumber
    rw [ih h.2, if_neg hcounts]
  | word text rest ih =>
    have hcounts : ¬ (text = "" ∧ rest.atEnd = true) := by
      rintro ⟨hrelease, hend⟩
      rw [h.1 hrelease] at hend
      cases hend
    unfold normal consWord
    rw [ih h.2, if_neg hcounts]
  | nested inner ih =>
    unfold normal
    rw [ih h.2, nest]
    exact h.1

/-- A trimmed row shows something, unless it has ended. -/
theorem Trimmed.shown_ne_done {x : Items} (h : x.Trimmed) (hne : x ≠ .done) (begun : Bool) :
    x.shown begun ≠ .done := by
  induction x generalizing begun with
  | done => exact absurd rfl hne
  | number value rest ih => simp [Items.shown]
  | word text rest ih =>
    unfold Items.shown
    split
    · simp
    -- a release behind nothing is not shown, but more must follow on a trimmed level
    · rename_i hnothing
      have hrelease : text = "" := by
        simp only [Bool.or_eq_true, bne_iff_ne, not_or, not_not] at hnothing
        exact hnothing.2
      have hrest : rest ≠ .done := by
        rintro rfl
        have hend := h.1 hrelease
        cases hend
      exact ih h.2 hrest false
  | nested inner ih =>
    unfold Items.shown
    split
    · simp
    · exact ih h.2 h.1 false

/-- What is shown of a trimmed row is trimmed. -/
theorem Trimmed.shown {x : Items} (h : x.Trimmed) (begun : Bool) : (x.shown begun).Trimmed := by
  induction x generalizing begun with
  | done => trivial
  | number value rest ih =>
    refine ⟨?_, ih h.2 true⟩
    rw [atEnd_shown]
    exact h.1
  | word text rest ih =>
    unfold Items.shown
    split
    · refine ⟨?_, ih h.2 true⟩
      rw [atEnd_shown]
      exact h.1
    · exact ih h.2 false
  -- what is left of a list that is not empty is not empty
  | nested inner ih =>
    unfold Items.shown
    split
    · exact ⟨h.2.shown_ne_done h.1 false, ih h.2 false⟩
    · exact ih h.2 false

/-! ## Reading what is shown -/

/-- The numeral that writes a number. -/
def numeralOf (n : Nat) : Numeral where
  chars := Nat.toDigits 10 n
  nonempty := Nat.toDigits_ne_nil
  digits := fun _ hc => Nat.isDigit_of_mem_toDigits (by decide) (by decide) hc

/-- At the beginning of an item, the digits of a number are read as a run that ends in this number. -/
theorem exists_run_toDigits (n : Nat) : ∃ run : Run, run ≠ .empty ∧ (∀ rest, run.item rest = .number n rest) ∧
    ∀ cs, readFrom .empty (Nat.toDigits 10 n ++ cs) = readFrom run cs := by
  refine ⟨.digits (Nat.toDigits 10 n).reverse, by simp, ?_, readFrom_numeral (numeralOf n)⟩
  intro rest
  have hvalue : Text.numeralValue (Nat.toDigits 10 n) = n := by
    rw [show Nat.toDigits 10 n = (numeralOf n).chars from rfl, numeralValue_chars]
    exact Nat.ofDigitChars_ten_toDigits
  show Items.number (Text.numeralValue (Nat.toDigits 10 n).reverse.reverse) rest = _
  rw [List.reverse_reverse, hvalue]

/-- A usual word is read as a run that ends in this word. -/
theorem exists_run_word {text : String} (hne : text ≠ "") (hletters : ∀ c ∈ text.toList, isLetter c = true)
    (husual : usualWord text = text) : ∃ run : Run, run ≠ .empty ∧ (∀ rest, run.item rest = .word text rest) ∧
      ∀ cs, readFrom .empty (text.toList ++ cs) = readFrom run cs := by
  have hchars : text.toList ≠ [] := by
    rw [Ne, String.toList_eq_nil_iff]
    exact hne
  refine ⟨.letters text.toList.reverse, by simp, ?_, readFrom_word hchars hletters⟩
  intro rest
  show Items.word (usualWord (String.ofList text.toList.reverse.reverse)) rest = _
  rw [List.reverse_reverse, String.ofList_toList, husual]

/-- Behind a release in the middle of a level the next item has a point in front. -/
theorem exists_chars_eq_point {x : Items} (h : x.atEnd = false) : ∃ cs, x.chars true = '.' :: cs ∧ x ≠ .done := by
  cases x with
  | done => cases h
  | number value rest => exact ⟨_, rfl, by simp⟩
  | word text rest => exact ⟨_, rfl, by simp⟩
  | nested inner => cases h

/-- What a trimmed row that shows all it has is read as: the row itself, with zeros in the place of releases. Behind a run
the row goes on in the level of the run. -/
theorem Bare.readFrom_chars {x : Items} (hx : x.Trimmed) (hletters : x.Spelled)
    (husual : ∀ w ∈ x.words, usualWord w = w) :
    (x.Bare true → ∀ run, run ≠ .empty ∨ x ≠ .done → readFrom run (x.chars true) = run.item x.filled) ∧
      (x.Bare false → readFrom .empty (x.chars false) = x.filled) := by
  -- both ways to begin at once: a level behind a hyphen begins anew, the items behind a run do not
  induction x with
  | done =>
    constructor
    · intro _ run hrun
      cases run with
      | empty => simp at hrun
      | digits rev => rfl
      | letters rev => rfl
    · intro _
      rfl
  | number value rest ih =>
    rcases exists_run_toDigits value with ⟨run, hne, hitem, hread⟩
    have hrest := (ih hx.2 hletters husual).1
    have hnumber : ∀ begun, (number value rest).Bare begun →
        readFrom .empty (Nat.toDigits 10 value ++ rest.chars true) = .number value rest.filled := by
      intro begun hbare
      rw [hread, hrest hbare run (.inl hne), hitem]
    constructor
    · intro hbare outer _
      show readFrom outer ('.' :: (Nat.toDigits 10 value ++ rest.chars true)) = _
      rw [readFrom_point, hnumber true hbare]
      rfl
    · intro hbare
      exact hnumber false hbare
  | word text rest ih =>
    rw [words, List.forall_mem_cons] at husual
    have hrest := (ih hx.2 hletters.2 husual.2).1
    by_cases hrelease : text = ""
    · -- nothing is written for a release, and a zero is read before the next point
      subst hrelease
      obtain ⟨cs, -, hgoes⟩ := exists_chars_eq_point (hx.1 rfl)
      constructor
      · intro hbare outer _
        show readFrom outer ('.' :: rest.chars true) = _
        rw [readFrom_point, hrest hbare.2 .empty (.inr hgoes)]
        rfl
      · intro hbare
        cases hbare.1
    · rcases exists_run_word hrelease hletters.1 husual.1 with ⟨run, hne, hitem, hread⟩
      have hfilled : (word text rest).filled = .word text rest.filled := by
        rw [filled, if_neg hrelease]
      have hwritten : (begun : Bool) → (begun || text != "") = true := by
        intro begun
        simp [hrelease]
      have hword : ∀ begun, (word text rest).Bare begun →
          readFrom .empty (text.toList ++ rest.chars true) = (word text rest).filled := by
        intro begun hbare
        rw [hread, hrest hbare.2 run (.inl hne), hitem, hfilled]
      constructor
      · intro hbare outer _
        show readFrom outer ('.' :: (text.toList ++ rest.chars true)) = _
        rw [readFrom_point, hword true hbare]
      · intro hbare
        show readFrom .empty (text.toList ++ rest.chars (text != "")) = _
        have hbegun : (text != "") = true := hwritten false
        rw [hbegun]
        exact hword false hbare
  | nested inner ih =>
    have hinner := (ih hx.2 hletters husual).2
    constructor
    · intro hbare outer _
      show readFrom outer ('-' :: inner.chars false) = _
      rw [readFrom_hyphen, hinner hbare.2]
      rfl
    · intro hbare
      cases hbare.1

/-! ## Gaps -/

/-- The text with a zero between points that stand side by side. -/
def fillGaps : List Char → List Char
  | [] => []
  | c :: cs => if c = '.' ∧ cs.head? = some '.' then '.' :: '0' :: fillGaps cs else c :: fillGaps cs

theorem fillGaps_cons_of_ne {c : Char} (h : c ≠ '.') (cs : List Char) : fillGaps (c :: cs) = c :: fillGaps cs := by
  rw [fillGaps, if_neg (fun hgap => h hgap.1)]

/-- Nothing is filled in before the first separator. -/
theorem fillGaps_append {segment : List Char} (h : ∀ c ∈ segment, isSeparator c = false) (cs : List Char) :
    fillGaps (segment ++ cs) = segment ++ fillGaps cs := by
  induction segment with
  | nil => rfl
  | cons c segment ih =>
    rw [List.forall_mem_cons] at h
    have hpoint : c ≠ '.' := by
      rintro rfl
      exact absurd h.1 (by decide)
    rw [List.cons_append, fillGaps_cons_of_ne hpoint, ih h.2, List.cons_append]

/-- Nothing is filled in between a point and a segment. -/
theorem fillGaps_point_append {segment : List Char} (hne : segment ≠ [])
    (h : ∀ c ∈ segment, isSeparator c = false) (cs : List Char) :
    fillGaps ('.' :: (segment ++ cs)) = '.' :: (segment ++ fillGaps cs) := by
  have hnext : ¬ ('.' = '.' ∧ (segment ++ cs).head? = some '.') := by
    obtain ⟨c, segment, rfl⟩ := List.exists_cons_of_ne_nil hne
    rintro ⟨-, hpoint⟩
    obtain rfl := Option.some.inj hpoint
    exact absurd (h '.' List.mem_cons_self) (by decide)
  rw [fillGaps, if_neg hnext, fillGaps_append h]

/-- A text has no gaps if no two points stand side by side. -/
theorem fillGaps_eq_self_iff {cs : List Char} : fillGaps cs = cs ↔ ¬ ['.', '.'] <:+: cs := by
  induction cs with
  | nil => simp [fillGaps]
  | cons c cs ih =>
    have hprefix : ['.', '.'] <+: c :: cs ↔ c = '.' ∧ cs.head? = some '.' := by
      rw [List.cons_prefix_cons, List.singleton_prefix_iff_head?_eq_some]
      tauto
    rw [List.infix_cons_iff, hprefix, not_or, ← ih, fillGaps]
    split
    · rename_i hgap
      constructor
      · intro heq
        -- a zero stands where the second point was
        have hzero : cs.head? = some '0' := by
          rw [← List.tail_eq_of_cons_eq heq]
          rfl
        rw [hgap.2] at hzero
        exact absurd hzero (by decide)
      · rintro ⟨hnot, -⟩
        exact absurd hgap hnot
    · rename_i hnot
      simp [hnot]

/-- The canonical text of the row with zeros for releases. -/
theorem chars_filled {x : Items} (hx : x.Trimmed) (hletters : x.Spelled) {begun : Bool} (hbare : x.Bare begun) :
    x.filled.chars begun = fillGaps (x.chars begun) := by
  induction x generalizing begun with
  | done => rfl
  | number value rest ih =>
    have hdigits : ∀ c ∈ Nat.toDigits 10 value, isSeparator c = false :=
      fun c hc => not_isSeparator_of_isDigit (isDigit_of_mem_toDigits hc)
    unfold filled chars
    rw [ih hx.2 hletters hbare]
    cases begun with
    | false => exact (fillGaps_append hdigits _).symm
    | true => exact (fillGaps_point_append Nat.toDigits_ne_nil hdigits _).symm
  | word text rest ih =>
    have hrest := ih hx.2 hletters.2 hbare.2
    unfold filled
    split
    · rename_i hrelease
      subst hrelease
      obtain rfl : begun = true := by simpa using hbare.1
      -- the gap that the release leaves: a point stands behind it
      obtain ⟨cs, hcs, -⟩ := exists_chars_eq_point (hx.1 rfl)
      show '.' :: '0' :: rest.filled.chars true = fillGaps ('.' :: rest.chars true)
      rw [fillGaps, if_pos ⟨rfl, by rw [hcs]; rfl⟩, hrest]
    · rename_i hword
      have hsegment : ∀ c ∈ text.toList, isSeparator c = false :=
        fun c hc => not_isSeparator_of_isLetter (hletters.1 c hc)
      have hne : text.toList ≠ [] := by
        rw [Ne, String.toList_eq_nil_iff]
        exact hword
      unfold chars
      rw [hbare.1, hrest]
      cases begun with
      | false => exact (fillGaps_append hsegment _).symm
      | true => exact (fillGaps_point_append hne hsegment _).symm
  | nested inner ih =>
    obtain rfl := hbare.1
    show '-' :: inner.filled.chars false = fillGaps ('-' :: inner.chars false)
    rw [fillGaps_cons_of_ne (by decide), ih hx.2 hletters hbare.2]

/-! ## The canonical text in small letters -/

theorem isSmall_of_isDigit {c : Char} (h : isDigit c = true) : IsSmall c := by
  rw [isDigit_eq] at h
  have hlt : c.toNat < 128 := toNat_lt_of_isDigit h
  have hall : ∀ n ∈ List.range 128, (Char.ofNat n).isDigit = true → IsSmall (Char.ofNat n) := by decide +kernel
  exact Text.forall_ascii (P := fun c => c.isDigit = true → IsSmall c) hall hlt h

theorem isSmall_toLower {c : Char} (h : c.toNat < 128) : IsSmall c.toLower := by
  have hall : ∀ n ∈ List.range 128, IsSmall (Char.ofNat n).toLower := by decide +kernel
  exact Text.forall_ascii (P := fun c => IsSmall c.toLower) hall h

/-- A row of usual words is written in small characters only. -/
theorem isSmall_chars {x : Items} (hwords : ∀ w ∈ x.words, UsualWord w) (begun : Bool) :
    ∀ c ∈ x.chars begun, IsSmall c := by
  -- a separator may stand before each item
  have hbefore : ∀ {begun : Bool} {separator : Char}, IsSmall separator →
      ∀ c ∈ (if begun then [separator] else []), IsSmall c := by
    intro begun separator hseparator c hc
    split at hc
    · rwa [List.mem_singleton.1 hc]
    · cases hc
  induction x generalizing begun with
  | done =>
    intro c hc
    cases hc
  | number value rest ih =>
    unfold chars
    rw [List.forall_mem_append, List.forall_mem_append]
    exact ⟨hbefore (by decide), fun c hc => isSmall_of_isDigit (isDigit_of_mem_toDigits hc), ih hwords true⟩
  | word text rest ih =>
    rw [words, List.forall_mem_cons] at hwords
    unfold chars
    rw [List.forall_mem_append, List.forall_mem_append]
    exact ⟨hbefore (by decide), hwords.1.small, ih hwords.2 _⟩
  | nested inner ih =>
    unfold chars
    rw [List.forall_mem_append]
    exact ⟨hbefore (by decide), ih hwords false⟩

theorem lowerFrom_of_isSmall {cs : List Char} (h : ∀ c ∈ cs, IsSmall c) : Text.lowerFrom [] cs = cs := by
  rw [Text.lowerFrom_ascii fun c hc => (h c hc).1]
  conv_rhs => rw [← List.map_id cs]
  exact List.map_congr_left fun c hc => (h c hc).2

end Items

/-! ## Versions -/

namespace Version

/-- The words of a version of ASCII characters are usual, since the text is lowered before it is read. -/
theorem words_items {v : Version} (hascii : ∀ c ∈ v.text.toList, c.toNat < 128) :
    ∀ w ∈ v.items.words, Items.UsualWord w := by
  have hsmall : ∀ c ∈ Text.lowerFrom [] v.text.toList, Items.IsSmall c := by
    intro c hc
    rw [Text.lowerFrom_ascii hascii] at hc
    rcases List.mem_map.1 hc with ⟨d, hd, rfl⟩
    exact Items.isSmall_toLower (hascii d hd)
  have hempty : Items.Run.empty.Small := trivial
  intro w hw
  exact Items.words_readFrom hsmall hempty w (Items.words_normal_subset _ hw)

/-- The characters of the canonical text. -/
theorem toList_canonical (v : Version) : v.canonical.toList = (v.items.shown false).chars false := by
  rw [Items.chars_shown]
  exact Items.toList_canonical _

/-- What the canonical text is read as: what it shows, with zeros in the place of releases. -/
theorem items_canonical {v : Version} (hascii : ∀ c ∈ v.text.toList, c.toNat < 128) :
    (⟨v.canonical⟩ : Version).items = (v.items.shown false).filled := by
  have hwords : ∀ w ∈ (v.items.shown false).words, Items.UsualWord w :=
    fun w hw => words_items hascii w (Items.words_shown_subset _ _ hw)
  have htrimmed : (v.items.shown false).Trimmed := v.trimmed_items.shown false
  have hread := (Items.Bare.readFrom_chars htrimmed (v.spelled_items.shown false)
    fun w hw => (hwords w hw).usual).2 (Items.bare_shown _ _)
  show (Items.readFrom .empty (Text.lowerFrom [] v.canonical.toList)).normal = _
  rw [toList_canonical, Items.lowerFrom_of_isSmall (Items.isSmall_chars hwords false), hread,
    htrimmed.filled.normal_eq]

/-- The canonical text of the canonical text is the same with a zero between points that stand side by side. So it is
the same text if and only if no two points do. -/
theorem canonical_canonical {v : Version} (hascii : ∀ c ∈ v.text.toList, c.toNat < 128) :
    (⟨v.canonical⟩ : Version).canonical = String.ofList (Items.fillGaps v.canonical.toList) ∧
      ((⟨v.canonical⟩ : Version).canonical = v.canonical ↔ ¬ ['.', '.'] <:+: v.canonical.toList) := by
  have hfilled : (⟨v.canonical⟩ : Version).canonical.toList = Items.fillGaps v.canonical.toList := by
    have hagain : (⟨v.canonical⟩ : Version).canonical.toList = (⟨v.canonical⟩ : Version).items.chars false :=
      Items.toList_canonical _
    rw [hagain, items_canonical hascii, toList_canonical v]
    exact Items.chars_filled (v.trimmed_items.shown false) (v.spelled_items.shown false) (Items.bare_shown _ _)
  constructor
  · rw [← hfilled, String.ofList_toList]
  · rw [← Items.fillGaps_eq_self_iff, ← hfilled, String.toList_inj]

/-- Whether a text is in ASCII can be computed. -/
theorem forall_toNat_lt {text : String} (h : (text.toList.all fun c => decide (c.toNat < 128)) = true) :
    ∀ c ∈ text.toList, c.toNat < 128 :=
  fun c hc => of_decide_eq_true (List.all_eq_true.1 h c hc)

/-- A release in the middle of a level is written as nothing, and read as a zero again. -/
theorem canonical_canonical_gap :
    (∀ c ∈ (⟨"1.0.GA.1-RC1"⟩ : Version).text.toList, c.toNat < 128) ∧
      (⟨(⟨"1.0.GA.1-RC1"⟩ : Version).canonical⟩ : Version).canonical = "1.0.0.1-rc-1" := by
  have hascii : ∀ c ∈ (⟨"1.0.GA.1-RC1"⟩ : Version).text.toList, c.toNat < 128 := forall_toNat_lt (by decide +kernel)
  refine ⟨hascii, ?_⟩
  rw [(canonical_canonical hascii).1]
  decide +kernel

/-- The canonical form of a canonical form need not be the same. -/
theorem not_canonical_canonical :
    ¬ ∀ v : Version, (∀ c ∈ v.text.toList, c.toNat < 128) → (⟨v.canonical⟩ : Version).canonical = v.canonical := by
  intro h
  have hgap := h ⟨"1.ga.1"⟩ (forall_toNat_lt (by decide +kernel))
  exact absurd hgap (by decide +kernel)

end Version

end VersionAudit
