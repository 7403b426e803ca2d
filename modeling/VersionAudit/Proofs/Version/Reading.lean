import VersionAudit.Proofs.Text.LowerCase
import VersionAudit.Proofs.Version.Canonical
import VersionAudit.Proofs.Version.Conventional

/-!
# Reading a conventional version

The items of a conventional version are its normal form, written as a row: the numbers first, and behind them a level
with the word, below which there is one with the number of the word.

1. `Conventional.lowerFrom_chars`: a conventional version in small letters.
2. `readFrom_point`, `readFrom_hyphen`, `readFrom_digit`, `readFrom_letter`: what one character adds. There are no other
   characters (`char_cases`). `readFrom_numeral`, `readFrom_word`: reading collects the characters of a numeral and of a
   word.
3. `readFrom_chars`: the items of a conventional version as they are read.
4. `items_version`: its normal items, without the zeros behind the last number that counts.
-/

namespace VersionAudit

/-! ## Small letters -/

theorem toNat_lt_of_isDigit {c : Char} (h : c.isDigit = true) : c.toNat < 128 := by
  rw [Char.isDigit_iff_toNat] at h
  have hnine : '9'.toNat = 57 := rfl
  omega

theorem toNat_lt_of_isAlpha {c : Char} (h : c.isAlpha = true) : c.toNat < 128 := by
  unfold Char.isAlpha Char.isUpper Char.isLower at h
  simp only [Bool.or_eq_true, Bool.and_eq_true, decide_eq_true_eq, ge_iff_le, UInt32.le_iff_toNat_le] at h
  have hsmall : 'z'.val.toNat = 122 := rfl
  have hcapital : 'Z'.val.toNat = 90 := rfl
  unfold Char.toNat
  omega

theorem toLower_of_isDigit {c : Char} (h : c.isDigit = true) : c.toLower = c := by
  have hall : ∀ n ∈ List.range 128, (Char.ofNat n).isDigit = true → (Char.ofNat n).toLower = Char.ofNat n := by
    decide +kernel
  exact Text.forall_ascii (P := fun c => c.isDigit = true → c.toLower = c) hall (toNat_lt_of_isDigit h) h

theorem isLetter_toLower {c : Char} (h : c.isAlpha = true) : Items.isLetter c.toLower = true := by
  have hall : ∀ n ∈ List.range 128, (Char.ofNat n).isAlpha = true → Items.isLetter (Char.ofNat n).toLower = true := by
    decide +kernel
  exact Text.forall_ascii (P := fun c => c.isAlpha = true → Items.isLetter c.toLower = true) hall
    (toNat_lt_of_isAlpha h) h

/-- A numeral has no capital letters. -/
theorem Numeral.map_toLower (n : Numeral) : n.chars.map Char.toLower = n.chars := by
  have hmap : n.chars.map Char.toLower = n.chars.map id :=
    List.map_congr_left fun c hc => toLower_of_isDigit (n.digits c hc)
  rw [hmap, List.map_id]

/-- The characters of a suffix in small letters. -/
def Suffix.smallChars (s : Suffix) : List Char :=
  s.word.chars.map Char.toLower ++ (s.numeral.map Numeral.chars).getD []

/-- Lowering a suffix lowers its word, and its digits stay. -/
theorem Suffix.map_toLower (s : Suffix) : s.chars.map Char.toLower = s.smallChars := by
  unfold chars smallChars
  rw [List.map_append]
  cases s.numeral with
  | none => rfl
  | some n =>
    show _ ++ n.chars.map Char.toLower = _ ++ n.chars
    rw [n.map_toLower]

/-- A suffix is written in ASCII. -/
theorem Suffix.toNat_lt {s : Suffix} {c : Char} (h : c ∈ s.chars) : c.toNat < 128 := by
  unfold chars at h
  rcases List.mem_append.1 h with h | h
  · exact toNat_lt_of_isAlpha (s.word.letters c h)
  · cases hn : s.numeral with
    | none =>
      rw [hn] at h
      cases h
    | some n =>
      rw [hn] at h
      exact toNat_lt_of_isDigit (n.digits c h)

namespace Conventional

/-- A conventional version is written in ASCII. -/
theorem toNat_lt {c : Conventional} {d : Char} (h : d ∈ c.chars) : d.toNat < 128 := by
  unfold chars at h
  -- the first number, the further ones with their points, and the suffix with its hyphen
  rcases List.mem_append.1 h with h | h
  · rcases List.mem_append.1 h with h | h
    · exact toNat_lt_of_isDigit (c.first.digits d h)
    · rcases List.mem_flatMap.1 h with ⟨n, -, h⟩
      rcases List.mem_cons.1 h with rfl | h
      · decide
      · exact toNat_lt_of_isDigit (n.digits d h)
  · cases hs : c.suffix with
    | none =>
      rw [hs] at h
      cases h
    | some s =>
      rw [hs] at h
      rcases List.mem_cons.1 h with rfl | h
      · decide
      · exact Suffix.toNat_lt h

/-- In small letters only the word of a version changes. -/
theorem lowerFrom_chars (c : Conventional) : Text.lowerFrom [] c.chars =
    c.first.chars ++ c.more.flatMap ('.' :: ·.chars) ++ (c.suffix.map ('-' :: ·.smallChars)).getD [] := by
  rw [Text.lowerFrom_ascii (fun d hd => toNat_lt hd)]
  unfold chars
  rw [List.map_append, List.map_append, c.first.map_toLower]
  -- the numbers and separators have no capitals
  congr 1
  · congr 1
    rw [List.map_flatMap]
    congr 1
    funext n
    show '.' :: n.chars.map Char.toLower = '.' :: n.chars
    rw [n.map_toLower]
  · cases c.suffix with
    | none => rfl
    | some s =>
      show '-' :: s.chars.map Char.toLower = '-' :: s.smallChars
      rw [s.map_toLower]

end Conventional

namespace Items

/-! ## Numerals and words -/

theorem isSeparator_eq_false {c : Char} (h : isSeparator c = false) : (c == '.') = false ∧ (c == '-') = false := by
  unfold isSeparator at h
  rwa [Bool.or_eq_false_iff] at h

/-- A character separates items, or it is part of a number or a word. -/
theorem char_cases (c : Char) : c = '.' ∨ c = '-' ∨ isDigit c = true ∨ isLetter c = true := by
  unfold isLetter
  simp only [Bool.and_eq_true, bne_iff_ne, ne_eq, Bool.not_eq_true']
  cases isDigit c <;> tauto

theorem readFrom_point (run : Run) (cs : List Char) : readFrom run ('.' :: cs) = run.item (readFrom .empty cs) := rfl

theorem readFrom_hyphen (run : Run) (cs : List Char) :
    readFrom run ('-' :: cs) = run.item (.nested (readFrom .empty cs)) := rfl

/-- What a digit does to a run. -/
theorem readFrom_digit {d : Char} (h : isDigit d = true) (run : Run) (cs : List Char) :
    readFrom run (d :: cs) =
      match run with
      | .empty => readFrom (.digits [d]) cs
      | .digits rev => readFrom (.digits (d :: rev)) cs
      | .letters rev => .word (wordBeforeDigit (String.ofList rev.reverse)) (.nested (readFrom (.digits [d]) cs)) := by
  rcases isSeparator_eq_false (not_isSeparator_of_isDigit h) with ⟨hpoint, hhyphen⟩
  cases run with
  | empty => simp only [readFrom, hpoint, hhyphen, h, Bool.false_eq_true, if_false, if_true]
  | digits rev => simp only [readFrom, hpoint, hhyphen, h, Bool.false_eq_true, if_false, if_true]
  | letters rev => simp only [readFrom, hpoint, hhyphen, h, Bool.false_eq_true, if_false, if_true]

/-- What a letter does to a run. -/
theorem readFrom_letter {l : Char} (h : isLetter l = true) (run : Run) (cs : List Char) :
    readFrom run (l :: cs) =
      match run with
      | .empty => readFrom (.letters [l]) cs
      | .letters rev => readFrom (.letters (l :: rev)) cs
      | .digits rev => .number (Text.numeralValue rev.reverse) (.nested (readFrom (.letters [l]) cs)) := by
  rcases isSeparator_eq_false (not_isSeparator_of_isLetter h) with ⟨hpoint, hhyphen⟩
  have hdigit : isDigit l = false := isDigit_of_isLetter h
  cases run with
  | empty => simp only [readFrom, hpoint, hhyphen, hdigit, Bool.false_eq_true, if_false]
  | digits rev => simp only [readFrom, hpoint, hhyphen, hdigit, Bool.false_eq_true, if_false]
  | letters rev => simp only [readFrom, hpoint, hhyphen, hdigit, Bool.false_eq_true, if_false]

/-- Digits are collected in the run of digits that is being read. -/
theorem readFrom_digits {ds : List Char} (h : ∀ c ∈ ds, isDigit c = true) (rev cs : List Char) :
    readFrom (.digits rev) (ds ++ cs) = readFrom (.digits (ds.reverse ++ rev)) cs := by
  induction ds generalizing rev with
  | nil => rfl
  | cons d ds ih =>
    rw [List.forall_mem_cons] at h
    rw [List.cons_append, readFrom_digit h.1, List.reverse_cons, List.append_assoc]
    exact ih h.2 (d :: rev)

/-- Letters are collected in the run of letters that is being read. -/
theorem readFrom_letters {ls : List Char} (h : ∀ c ∈ ls, isLetter c = true) (rev cs : List Char) :
    readFrom (.letters rev) (ls ++ cs) = readFrom (.letters (ls.reverse ++ rev)) cs := by
  induction ls generalizing rev with
  | nil => rfl
  | cons l ls ih =>
    rw [List.forall_mem_cons] at h
    rw [List.cons_append, readFrom_letter h.1, List.reverse_cons, List.append_assoc]
    exact ih h.2 (l :: rev)

/-- A numeral begins with a digit, and digits follow. -/
theorem exists_chars_eq_cons (n : Numeral) :
    ∃ d ds, n.chars = d :: ds ∧ isDigit d = true ∧ ∀ c ∈ ds, isDigit c = true := by
  have hdigits : ∀ c ∈ n.chars, isDigit c = true := by
    intro c hc
    rw [isDigit_eq]
    exact n.digits c hc
  obtain ⟨d, ds, hchars⟩ := List.exists_cons_of_ne_nil n.nonempty
  rw [hchars, List.forall_mem_cons] at hdigits
  exact ⟨d, ds, hchars, hdigits⟩

/-- At the beginning of an item a numeral is read as a run of digits. -/
theorem readFrom_numeral (n : Numeral) (cs : List Char) :
    readFrom .empty (n.chars ++ cs) = readFrom (.digits n.chars.reverse) cs := by
  obtain ⟨d, ds, hchars, hdigit, hdigits⟩ := exists_chars_eq_cons n
  rw [hchars, List.reverse_cons, ← readFrom_digits hdigits, List.cons_append, readFrom_digit hdigit]

/-- At the beginning of an item letters are read as a run of letters. -/
theorem readFrom_word {ls : List Char} (hne : ls ≠ []) (h : ∀ c ∈ ls, isLetter c = true) (cs : List Char) :
    readFrom .empty (ls ++ cs) = readFrom (.letters ls.reverse) cs := by
  obtain ⟨l, ls, rfl⟩ := List.exists_cons_of_ne_nil hne
  rw [List.forall_mem_cons] at h
  rw [List.reverse_cons, ← readFrom_letters h.2, List.cons_append, readFrom_letter h.1]

theorem numeralValue_chars (n : Numeral) : Text.numeralValue n.chars = n.value := by
  unfold Text.numeralValue Numeral.value Nat.ofDigitChars
  congr 1
  funext sofar c
  rw [Nat.mul_comm]

/-! ## The items of a version -/

/-- A row of numbers, and what follows behind the last one. -/
def numbered (numbers : List Nat) (rest : Items) : Items :=
  numbers.foldr .number rest

/-- The items that a suffix is read as. -/
def ofSuffix (s : Suffix) : Items :=
  match s.numeral with
  | none => .word (usualWord s.word.small) .done
  | some n => .word (wordBeforeDigit s.word.small) (.nested (.number n.value .done))

/-- The characters of a suffix are read as its items. -/
theorem readFrom_smallChars (s : Suffix) : readFrom .empty s.smallChars = ofSuffix s := by
  have hletters : ∀ c ∈ s.word.chars.map Char.toLower, isLetter c = true := by
    intro c hc
    rcases List.mem_map.1 hc with ⟨d, hd, rfl⟩
    exact isLetter_toLower (s.word.letters d hd)
  have hne : s.word.chars.map Char.toLower ≠ [] := by simp [s.word.nonempty]
  unfold Suffix.smallChars ofSuffix
  rw [readFrom_word hne hletters]
  cases s.numeral with
  | none =>
    show Items.word (usualWord (String.ofList (s.word.chars.map Char.toLower).reverse.reverse)) .done = _
    rw [List.reverse_reverse]
    rfl
  | some n =>
    -- the first digit ends the word and begins a level below it
    obtain ⟨d, ds, hchars, hdigit, hdigits⟩ := exists_chars_eq_cons n
    have hrun : readFrom (.digits [d]) ds = .number n.value .done := by
      have hall := readFrom_digits hdigits [d] []
      rw [List.append_nil] at hall
      rw [hall, ← List.reverse_cons, ← hchars]
      show Items.number (Text.numeralValue n.chars.reverse.reverse) .done = _
      rw [List.reverse_reverse, numeralValue_chars]
    show readFrom _ n.chars = _
    rw [hchars, readFrom_digit hdigit]
    dsimp only
    rw [hrun, List.reverse_reverse]
    rfl

/-- The items of a version as they are read. -/
theorem readFrom_chars (first : Numeral) (more : List Numeral) (suffix : Option Suffix) :
    readFrom .empty (first.chars ++ more.flatMap ('.' :: ·.chars) ++ (suffix.map ('-' :: ·.smallChars)).getD []) =
      numbered ((first :: more).map Numeral.value) ((suffix.map fun s => .nested (ofSuffix s)).getD .done) := by
  have hvalue : ∀ (n : Numeral), Text.numeralValue n.chars.reverse.reverse = n.value := by
    intro n
    rw [List.reverse_reverse, numeralValue_chars]
  -- each number ends at the point before the next one
  induction more generalizing first with
  | nil =>
    rw [List.flatMap_nil, List.append_nil, readFrom_numeral]
    cases suffix with
    | none =>
      show Items.number (Text.numeralValue first.chars.reverse.reverse) .done = _
      rw [hvalue]
      rfl
    | some s =>
      show Items.number (Text.numeralValue first.chars.reverse.reverse) (.nested (readFrom .empty s.smallChars)) = _
      rw [hvalue, readFrom_smallChars]
      rfl
  | cons n more ih =>
    rw [List.flatMap_cons, List.append_assoc, readFrom_numeral]
    show Items.number (Text.numeralValue first.chars.reverse.reverse)
      (readFrom .empty (n.chars ++ more.flatMap ('.' :: ·.chars) ++ _)) = _
    rw [hvalue, ih]
    rfl

/-! ## Normal items -/

/-- Dropping from the end of a list, its head goes only if all behind it went. -/
theorem rdropWhile_cons (p : Nat → Bool) (v : Nat) (vs : List Nat) :
    (v :: vs).rdropWhile p = if vs.rdropWhile p = [] ∧ p v = true then [] else v :: vs.rdropWhile p := by
  unfold List.rdropWhile
  rw [List.reverse_cons, List.dropWhile_append]
  by_cases hrest : vs.reverse.dropWhile p = []
  · by_cases hp : p v = true
    · simp [hrest, hp]
    · simp [hrest, hp]
  · simp [hrest]

/-- The zeros behind the last number that counts fall away, if no item of the level follows. -/
theorem normal_numbered {numbers : List Nat} {rest : Items} (h : rest.normal.atEnd = true) :
    (numbered numbers rest).normal = numbered (numbers.rdropWhile (· == 0)) rest.normal := by
  induction numbers with
  | nil => rfl
  | cons v vs ih =>
    show consNumber v (numbered vs rest).normal = _
    rw [ih, rdropWhile_cons]
    unfold consNumber
    -- a number goes only if all numbers behind it have gone
    by_cases hrest : vs.rdropWhile (· == 0) = []
    · have hend : (numbered [] rest.normal).atEnd = true := h
      rw [hrest]
      simp only [hend, and_true, true_and, beq_iff_eq]
      split
      · rfl
      · rfl
    · obtain ⟨w, ws, hws⟩ := List.exists_cons_of_ne_nil hrest
      have hgoes : ¬ (v = 0 ∧ (numbered (w :: ws) rest.normal).atEnd = true) := fun h => Bool.noConfusion h.2
      have hkept : ¬ (w :: ws = [] ∧ (v == 0) = true) := fun h => List.cons_ne_nil w ws h.1
      rw [hws, if_neg hgoes, if_neg hkept]
      rfl

/-- The level of the number behind a word. A zero has none. -/
def ofNumber (m : Nat) : Items :=
  if m = 0 then .done else .nested (.number m .done)

/-- The row of a word and its number. -/
def ofTail : Option (String × Nat) → Items
  | none => .done
  | some (q, m) => .nested (.word q (ofNumber m))

/-- The row of a normal form. -/
def ofNormalForm (x : NormalForm) : Items :=
  numbered x.numbers (ofTail x.tail)

/-- A word for a release is read as no word at all. -/
theorem word_of_release {text : String} (h : text ∈ Word.releases) :
    usualWord text = "" ∧ wordBeforeDigit text = "" := by
  unfold Word.releases at h
  simp only [List.mem_cons, List.not_mem_nil, or_false] at h
  rcases h with h | h | h
  · rw [h]
    decide
  · rw [h]
    decide
  · rw [h]
    decide

theorem normal_number (m : Nat) : (nested (number m done)).normal = ofNumber m := by
  show nest (consNumber m done) = _
  unfold consNumber ofNumber
  by_cases hzero : m = 0
  · simp [hzero, atEnd, nest]
  · simp [hzero, nest]

/-- A suffix that is not a release is read as its name, with its number below. -/
theorem exists_ofSuffix_eq {s : Suffix} (h : s.word.small ∉ Word.releases) :
    ∃ rest, ofSuffix s = .word s.name rest ∧ rest.normal = ofNumber s.number := by
  have hnot : ¬ (s.word.small = "ga" ∨ s.word.small = "final" ∨ s.word.small = "release") := by
    simpa [Word.releases] using h
  have husual : usualWord s.word.small = if s.word.small = "cr" then "rc" else s.word.small := by
    unfold usualWord
    rw [if_neg hnot]
  unfold ofSuffix Suffix.name Suffix.number
  cases s.numeral with
  | none =>
    refine ⟨.done, ?_, rfl⟩
    dsimp only
    rw [husual]
    simp
  | some n =>
    refine ⟨.nested (.number n.value .done), ?_, normal_number n.value⟩
    dsimp only
    unfold wordBeforeDigit
    rw [husual]
    simp only [Option.isSome_some, true_and]
    split_ifs <;> simp_all

/-- The list of a suffix becomes the tail of the normal form, and a release vanishes. -/
theorem normal_ofSuffix (s : Suffix) : (nested (ofSuffix s)).normal =
    ofTail (if s.word.small ∈ Word.releases then none else some (s.name, s.number)) := by
  -- a release is read as an empty word, and normalising trims it
  by_cases hrelease : s.word.small ∈ Word.releases
  · rcases word_of_release hrelease with ⟨husual, hbefore⟩
    rw [if_pos hrelease]
    unfold ofSuffix
    cases hn : s.numeral with
    | none =>
      rw [husual]
      rfl
    | some n =>
      dsimp only
      rw [hbefore, s.release hrelease n hn]
      rfl
  · rcases exists_ofSuffix_eq hrelease with ⟨rest, heq, hrest⟩
    have hname : ¬ (s.name = "" ∧ rest.normal.atEnd = true) := fun h => s.name_ne h.1
    rw [if_neg hrelease, heq]
    show nest (consWord s.name rest.normal) = .nested (.word s.name (ofNumber s.number))
    unfold consWord
    rw [if_neg hname, hrest]
    rfl

theorem normal_ofTail_atEnd (t : Option (String × Nat)) : (ofTail t).atEnd = true := by
  cases t with
  | none => rfl
  | some t => rfl

end Items

/-- The items of a conventional version are those of its normal form. -/
theorem Conventional.items_version (c : Conventional) : c.version.items = Items.ofNormalForm c.normal := by
  have hsuffix : ((c.suffix.map fun s => Items.nested (Items.ofSuffix s)).getD .done).normal =
      Items.ofTail c.normal.tail := by
    have htail : c.normal.tail =
        (c.suffix.filter fun s => s.word.small ∉ Word.releases).map fun s => (s.name, s.number) := rfl
    rw [htail]
    cases c.suffix with
    | none => rfl
    | some s =>
      show (Items.nested (Items.ofSuffix s)).normal = _
      rw [Items.normal_ofSuffix, Option.filter_some]
      by_cases hrelease : s.word.small ∈ Word.releases
      · simp [hrelease]
      · simp [hrelease]
  -- the zeros may be trimmed, since what follows them ends the level
  have hend : ((c.suffix.map fun s => Items.nested (Items.ofSuffix s)).getD .done).normal.atEnd = true := by
    rw [hsuffix]
    exact Items.normal_ofTail_atEnd _
  unfold Version.items Conventional.version Items.read
  rw [String.toList_ofList, c.lowerFrom_chars, Items.readFrom_chars, Items.normal_numbered hend, hsuffix]
  rfl

end VersionAudit
