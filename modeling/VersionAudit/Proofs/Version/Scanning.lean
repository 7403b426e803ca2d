import Mathlib.Data.List.TakeWhile
import VersionAudit.Proofs.Except
import VersionAudit.Proofs.Text.Blank
import VersionAudit.Proofs.Version.Components
import VersionAudit.Proofs.Version.Nesting

/-!
# The pass over a version

Making a number can fail, and nothing in the pass itself keeps a list from taking any members. But the pass makes numbers of
runs of digits only, so there is one way for it to fail: a run of more digits than numbers are read from. Where it does not
fail it comes to the items of the version, and its lists are as tidy as the items are.

1. `Scan.Short`: a text without a run of so many digits.
2. `Scan.Sound`: the characters of the pending item are all of the kind that is remembered. So a piece that is made a
   number is a numeral (`Scan.Sound.exists_numeral`), which has a value unless it is too long (`Numeral.integer_eq`,
   `Numeral.integer_eq_error`).
3. `Scan.outlook`: what the lists come to if the rest of the text is read as items. `Scan.Sound.advances`: a character
   changes nothing about that, or the pass ends at it. `Scan.run_cases`: what the pass over a whole text comes to.
4. `Version.tidy_scan`: the pass converts numerals only, fails for one that is too long and for nothing else, comes to the
   items of the version, and leaves its lists tidy.
-/

namespace VersionAudit

/-! ## Numerals -/

/-- There is nothing to trim around a numeral. -/
theorem Numeral.trimChars_eq (n : Numeral) : Text.trimChars n.chars = n.chars := by
  have hblank : ∀ c ∈ n.chars, Text.isBlank c = false := by
    intro c hc
    have hall : ∀ k ∈ List.range 128, (Char.ofNat k).isDigit = true → Text.isBlank (Char.ofNat k) = false := by
      decide +kernel
    exact Text.forall_ascii (P := fun c => c.isDigit = true → Text.isBlank c = false) hall
      (toNat_lt_of_isDigit (n.digits c hc)) (n.digits c hc)
  rw [Text.trimChars_eq_self_iff]
  constructor
  · intro c hc
    exact hblank c (List.mem_of_head? hc)
  · intro c hc
    exact hblank c (List.mem_of_getLast? hc)

/-- The digits of a numeral are counted, and its number is read if they are not too many. -/
theorem Numeral.integer_eq (n : Numeral) : Text.integer (String.ofList n.chars) =
    if Text.digitLimit < n.chars.length then .error (.tooLong n.chars.length) else .ok (n.value : Int) := by
  have hnone : ∀ c : Char, c.isDigit = false → c ∉ n.chars := by
    intro c hc hmem
    rw [n.digits c hmem] at hc
    cases hc
  -- no underline parts the digits into groups, and no sign stands before them
  have hgroups : Text.splitChars '_' n.chars = [n.chars] := by
    have hpiece : ∀ piece ∈ [n.chars], '_' ∉ piece := by
      intro piece hpiece
      rw [List.mem_singleton.1 hpiece]
      exact hnone '_' (by decide)
    have hjoined := Text.splitChars_joined hpiece
    rwa [List.flatMap_nil, List.append_nil] at hjoined
  have hnumeric : ∀ c ∈ n.chars, Text.isNumeric c = true := by
    intro c hc
    unfold Text.isNumeric
    rw [Text.digitValue?_of_isDigit (n.digits c hc), Option.isSome_some, Bool.or_true]
  have hdecimal : Text.decimal? n.chars = some n.value := Text.decimal?_of_isDigit n.nonempty n.digits
  have hmagnitude : Text.magnitude (String.ofList n.chars) n.chars =
      if Text.digitLimit < n.chars.length then .error (.tooLong n.chars.length) else .ok n.value := by
    unfold Text.magnitude
    rw [List.takeWhile_eq_self_iff.2 hnumeric, List.dropWhile_eq_nil_iff.2 hnumeric, hgroups]
    simp [hdecimal, n.nonempty]
  unfold Text.integer
  rw [String.toList_ofList, n.trimChars_eq]
  split
  · rename_i cs hchars
    exact absurd (by rw [hchars]; exact List.mem_cons_self ..) (hnone '-' (by decide))
  · rename_i cs hchars
    exact absurd (by rw [hchars]; exact List.mem_cons_self ..) (hnone '+' (by decide))
  · rw [hmagnitude]
    split <;> rfl

/-! ## Kinds of characters -/

namespace Items

/-- A run of digits or of letters. -/
def Run.ofKind (digit : Bool) (rev : List Char) : Run :=
  if digit then .digits rev else .letters rev

theorem Run.ofKind_true (rev : List Char) : Run.ofKind true rev = .digits rev :=
  rfl

theorem Run.ofKind_false (rev : List Char) : Run.ofKind false rev = .letters rev :=
  rfl

theorem isLetter_of_isDigit_eq_false {c : Char} (h : isSeparator c = false) (hdigit : isDigit c = false) :
    isLetter c = true := by
  obtain ⟨hpoint, hhyphen⟩ := isSeparator_eq_false h
  simp [isLetter, bne, hpoint, hhyphen, hdigit]

/-- The first character of an item decides of which kind it is. -/
theorem readFrom_empty {c : Char} (h : isSeparator c = false) (cs : List Char) :
    readFrom .empty (c :: cs) = readFrom (.ofKind (isDigit c) [c]) cs := by
  cases hdigit : isDigit c with
  | true => exact readFrom_digit hdigit .empty cs
  | false => exact readFrom_letter (isLetter_of_isDigit_eq_false h hdigit) .empty cs

/-- A character goes into a run of its kind. -/
theorem readFrom_ofKind {c : Char} (h : isSeparator c = false) (rev cs : List Char) :
    readFrom (.ofKind (isDigit c) rev) (c :: cs) = readFrom (.ofKind (isDigit c) (c :: rev)) cs := by
  cases hdigit : isDigit c with
  | true => exact readFrom_digit hdigit (.digits rev) cs
  | false => exact readFrom_letter (isLetter_of_isDigit_eq_false h hdigit) (.letters rev) cs

end Items

namespace Scan

/-! ## Runs of digits -/

/-- No more digits stand in a row than numbers are read from. -/
def Short (text : List Char) : Prop :=
  ∀ digits, digits <:+: text → (∀ c ∈ digits, Items.isDigit c = true) → digits.length ≤ Text.digitLimit

/-- No digits stand at the end of a text. -/
def EndsApart (text : List Char) : Prop :=
  ∀ c ∈ text.getLast?, Items.isDigit c = false

/-- A short text has no long run of digits. -/
theorem short_of_length_le {text : List Char} (h : text.length ≤ Text.digitLimit) : Short text :=
  fun _ hwithin _ => Nat.le_trans hwithin.length_le h

/-- A text without digits has no run of them. -/
theorem short_of_not_isDigit {text : List Char} (h : ∀ c ∈ text, Items.isDigit c = false) : Short text := by
  intro digits hwithin hdigits
  cases digits with
  | nil => exact Nat.zero_le _
  | cons c digits =>
    have hletter := h c (hwithin.subset (List.mem_cons_self ..))
    rw [hdigits c (List.mem_cons_self ..)] at hletter
    cases hletter

/-- A run of digits does not go on behind a text that ends in none. -/
theorem Short.append {front back : List Char} (hfront : Short front) (hback : Short back)
    (hbreak : EndsApart front ∨ ∀ c ∈ back.head?, Items.isDigit c = false) : Short (front ++ back) := by
  intro digits hwithin hdigits
  rcases List.infix_append_iff.1 hwithin with hwithin | hwithin | ⟨first, second, rfl, hfirst, hsecond⟩
  · exact hfront digits hwithin hdigits
  · exact hback digits hwithin hdigits
  · rw [List.forall_mem_append] at hdigits
    -- a run across the border has a digit on each side of it, or it is on one side only
    rcases hbreak with hbreak | hbreak
    · rcases List.eq_nil_or_concat first with rfl | ⟨first, c, rfl⟩
      · exact hback second hsecond.isInfix hdigits.2
      · obtain ⟨before, rfl⟩ := hfirst
        have hlast := hbreak c (by simp)
        rw [hdigits.1 c (by simp)] at hlast
        cases hlast
    · cases second with
      | nil =>
        rw [List.append_nil]
        exact hfront first hfirst.isInfix hdigits.1
      | cons c second =>
        obtain ⟨behind, rfl⟩ := hsecond
        have hhead := hbreak c (by simp)
        rw [hdigits.2 c (List.mem_cons_self ..)] at hhead
        cases hhead

/-- No run of digits gets longer by a character that is no digit. -/
theorem Short.concat {text : List Char} (h : Short text) {c : Char} (hc : Items.isDigit c = false) : Short (text ++ [c]) := by
  refine h.append (short_of_not_isDigit ?_) (.inr ?_)
  · intro d hd
    rwa [List.mem_singleton.1 hd]
  · intro d hd
    obtain rfl := Option.some_inj.1 hd
    exact hc

theorem endsApart_concat (text : List Char) {c : Char} (hc : Items.isDigit c = false) : EndsApart (text ++ [c]) := by
  intro d hd
  rw [List.getLast?_concat, Option.mem_some_iff] at hd
  rwa [← hd]

/-! ## Steps -/

theorem piece_append (s : Scan) (front rest : List Char) :
    s.piece (front ++ rest) front.length = front.drop s.start := by
  unfold piece
  rw [List.take_left]

/-- The step at a character that is no separator: on a change of kind the pending piece ends there. -/
theorem step_of_not_isSeparator {c : Char} (h : Items.isSeparator c = false) (text : List Char) (s : Scan) (i : Nat) :
    s.step text c i =
      if Items.isDigit c then
        if s.inDigits = false ∧ s.start < i then
          let word := Items.wordBeforeDigit (String.ofList (s.piece text i))
          .ok (((s.append (.word word)).descend.beginAt i).mark true)
        else .ok (s.mark true)
      else
        if s.inDigits = true ∧ s.start < i then
          (s.convert (s.piece text i)).map fun s => (s.descend.beginAt i).mark false
        else .ok (s.mark false) := by
  obtain ⟨hpoint, hhyphen⟩ := Items.isSeparator_eq_false h
  unfold step
  rw [if_neg (ne_of_beq_false hpoint), if_neg (ne_of_beq_false hhyphen)]

/-! ## What holds between two characters -/

/-- Nothing but numerals was converted. -/
def ConvertsNumerals (s : Scan) : Prop :=
  ∀ piece ∈ s.converted, ∃ n : Numeral, piece = n.chars

/-- What holds behind the characters in `front`: those of the pending item are all of the kind that is remembered. In front
of it no run of digits is too long, and none ends there if the pending item can be one. -/
structure Sound (front : List Char) (s : Scan) : Prop where
  start_le : s.start ≤ front.length
  kind : ∀ c ∈ front.drop s.start, Items.isDigit c = s.inDigits
  converts : s.ConvertsNumerals
  short : Short (front.take s.start)
  apart : s.inDigits = true ∨ s.start = front.length → EndsApart (front.take s.start)

/-- The pass has ended at a run of digits of the text, which is too long to be converted. -/
structure Ended (text : List Char) (f : Fault) : Prop where
  numeral : ∃ n : Numeral, f.piece = n.chars
  isInfix : f.piece <:+: text
  tooLong : Text.digitLimit < f.piece.length
  reason : f.reason = .tooLong f.piece.length
  converts : f.before.ConvertsNumerals

theorem Ended.mono {text text' : List Char} {f : Fault} (h : Ended text f) (hwithin : text <:+: text') : Ended text' f :=
  { h with isInfix := h.isInfix.trans hwithin }

/-- A text at which the pass has ended has a run of too many digits. -/
theorem Ended.not_short {text : List Char} {f : Fault} (h : Ended text f) : ¬ Short text := by
  intro hshort
  obtain ⟨n, hn⟩ := h.numeral
  have hlength := hshort f.piece h.isInfix fun c hc => by
    rw [Items.isDigit_eq]
    exact n.digits c (hn ▸ hc)
  exact absurd h.tooLong (Nat.not_lt.2 hlength)

/-- The pass begins soundly. -/
theorem sound_initial : Sound [] initial where
  start_le := Nat.le_refl 0
  kind := by
    intro c hc
    cases hc
  converts := by
    intro piece hpiece
    cases hpiece
  short := short_of_length_le (Nat.zero_le _)
  apart := by
    intro _ c hc
    cases hc

/-- The pending item as a run of characters. -/
def pending (s : Scan) (front : List Char) : Items.Run :=
  if front.drop s.start = [] then .empty else .ofKind s.inDigits (front.drop s.start).reverse

theorem pending_of_le {s : Scan} {front : List Char} (h : front.length ≤ s.start) : s.pending front = .empty := by
  unfold pending
  rw [List.drop_eq_nil_iff.2 h, if_pos rfl]

theorem drop_ne_nil {s : Scan} {front : List Char} (h : s.start < front.length) : front.drop s.start ≠ [] := by
  rw [Ne, List.drop_eq_nil_iff]
  omega

/-- What is pending is a run of the kind that is remembered. -/
theorem pending_of_lt {s : Scan} {front : List Char} (h : s.start < front.length) :
    s.pending front = .ofKind s.inDigits (front.drop s.start).reverse := by
  unfold pending
  rw [if_neg (drop_ne_nil h)]

/-- The next character is the last one of the pending item. -/
theorem pending_concat {s : Scan} {front : List Char} (h : s.start ≤ front.length) (c : Char) :
    s.pending (front ++ [c]) = .ofKind s.inDigits (c :: (front.drop s.start).reverse) := by
  have hlt : s.start < (front ++ [c]).length := by
    rw [List.length_append, List.length_singleton]
    omega
  rw [pending_of_lt hlt, List.drop_append_of_le_length h, List.reverse_concat]

/-- The next character begins an item. -/
theorem pending_begun {s : Scan} {front : List Char} (h : s.start = front.length) (c : Char) :
    s.pending (front ++ [c]) = .ofKind s.inDigits [c] := by
  rw [pending_concat h.le, h, List.drop_length]
  rfl

/-- A pending item of digits is a numeral. -/
theorem Sound.exists_numeral {front : List Char} {s : Scan} (h : Sound front s) (hlt : s.start < front.length)
    (hkind : s.inDigits = true) : ∃ n : Numeral, front.drop s.start = n.chars := by
  have hdigits : ∀ c ∈ front.drop s.start, c.isDigit = true := by
    intro c hc
    rw [← Items.isDigit_eq, h.kind c hc, hkind]
  exact ⟨⟨front.drop s.start, drop_ne_nil hlt, hdigits⟩, rfl⟩

/-- With the pending item, too, no run of digits is too long, unless the item is one itself. -/
theorem Sound.short_front {front : List Char} {s : Scan} (h : Sound front s)
    (hpending : s.inDigits = true → (front.drop s.start).length ≤ Text.digitLimit) : Short front := by
  rw [← List.take_append_drop s.start front]
  cases hkind : s.inDigits with
  | true => exact h.short.append (short_of_length_le (hpending hkind)) (.inl (h.apart (.inl hkind)))
  | false =>
    have hletters : ∀ c ∈ front.drop s.start, Items.isDigit c = false := fun c hc => (h.kind c hc).trans hkind
    exact h.short.append (short_of_not_isDigit hletters) (.inr fun c hc => hletters c (List.mem_of_head? hc))

/-! ## One more member -/

/-- What the lists come to in the end if the rest of the text is read as items. -/
def outlook (s : Scan) (front rest : List Char) : List Member :=
  Member.close s.outer (s.current ++ (Items.readFrom (s.pending front) rest).unsettled)

/-- A scan with one more member in its current list. At most a numeral was converted for it. -/
structure Grows (s t : Scan) (m : Member) : Prop where
  outer_eq : t.outer = s.outer
  current_eq : t.current = s.current ++ [m]
  converts : s.ConvertsNumerals → t.ConvertsNumerals

/-- A member may be appended without any conversion. -/
theorem grows_append (s : Scan) (m : Member) : s.Grows (s.append m) m where
  outer_eq := rfl
  current_eq := rfl
  converts := by
    intro hconverts
    exact hconverts

/-- A numeral is converted if it is not too long. -/
theorem exists_convert (s : Scan) {n : Numeral} (h : n.chars.length ≤ Text.digitLimit) :
    ∃ t, s.convert n.chars = .ok t ∧ s.Grows t (.number n.value) := by
  refine ⟨{ s.append (.number n.value) with converted := s.converted ++ [n.chars] }, ?_, rfl, rfl, ?_⟩
  · unfold convert
    rw [n.integer_eq, if_neg (Nat.not_lt.2 h)]
  · intro hconverts piece hpiece
    rcases List.mem_append.1 hpiece with hpiece | hpiece
    · exact hconverts piece hpiece
    · exact ⟨n, List.mem_singleton.1 hpiece⟩

/-- A numeral that is too long ends the pass. -/
theorem exists_convert_error {s : Scan} (hs : s.ConvertsNumerals) {n : Numeral} (h : Text.digitLimit < n.chars.length) :
    ∃ f, s.convert n.chars = .error f ∧ Ended n.chars f := by
  refine ⟨⟨s, n.chars, .tooLong n.chars.length⟩, ?_, ⟨n, rfl⟩, List.infix_rfl, h, rfl, hs⟩
  unfold convert
  rw [n.integer_eq, if_pos h]

namespace Grows

variable {s t u : Scan} {m : Member} (hgrows : s.Grows t m)

include hgrows

/-- No item is pending behind a separator. -/
theorem sound_separated {front : List Char} (h : Sound front s) (hshort : Short front) {c : Char}
    (hc : Items.isDigit c = false) (hconverted : u.converted = t.converted) (hstart : u.start = (front ++ [c]).length) :
    Sound (front ++ [c]) u where
  -- the next item begins behind the separator, so that nothing is pending
  start_le := hstart.le
  kind := by
    intro d hd
    rw [hstart, List.drop_length] at hd
    cases hd
  converts := by
    unfold ConvertsNumerals
    rw [hconverted]
    exact hgrows.converts h.converts
  short := by
    rw [hstart, List.take_length]
    exact hshort.concat hc
  apart := by
    intro _
    rw [hstart, List.take_length]
    exact endsApart_concat front hc

/-- An item of one character is pending, which is of another kind than the one before it. -/
theorem sound_begun {front : List Char} (h : Sound front s) (hshort : Short front)
    (hconverted : u.converted = t.converted) (hstart : u.start = front.length) {c : Char}
    (hkind : Items.isDigit c = u.inDigits) (hapart : u.inDigits = true → EndsApart front) : Sound (front ++ [c]) u where
  -- the next item begins at the character, which is all that is pending
  start_le := by
    rw [hstart, List.length_append]
    omega
  kind := by
    intro d hd
    rw [hstart, List.drop_left] at hd
    rw [List.mem_singleton.1 hd, hkind]
  converts := by
    unfold ConvertsNumerals
    rw [hconverted]
    exact hgrows.converts h.converts
  short := by
    rw [hstart, List.take_left]
    exact hshort
  apart := by
    rw [hstart, List.take_left, List.length_append, List.length_singleton]
    rintro (hdigits | hend)
    · exact hapart hdigits
    · omega

/-- What all comes to after one more member: the member, followed by what is read from the pending item on. -/
theorem outlook_eq (houter : u.outer = t.outer) (hcurrent : u.current = t.current) (front rest : List Char) :
    u.outlook front rest =
      Member.close s.outer (s.current ++ m :: (Items.readFrom (u.pending front) rest).unsettled) := by
  unfold outlook
  rw [houter, hcurrent, hgrows.outer_eq, hgrows.current_eq, List.append_assoc]
  rfl

/-- What is read into a list that was opened is a level of the list around it. -/
theorem outlook_descend (houter : u.outer = t.current :: t.outer) (hcurrent : u.current = [])
    (front rest : List Char) :
    u.outlook front rest =
      Member.close s.outer (s.current ++ m :: (Items.nested (Items.readFrom (u.pending front) rest)).unsettled) := by
  unfold outlook
  rw [houter, hcurrent, Member.close, hgrows.outer_eq, hgrows.current_eq, List.append_assoc]
  rfl

end Grows

/-! ## One character -/

/-- The scan goes over the next character, it stays sound, and what all comes to stays the same. Or it ends there. -/
def Advances (front : List Char) (s : Scan) (c : Char) (rest : List Char) : Prop :=
  (∃ t, s.step (front ++ c :: rest) c front.length = .ok t ∧ Sound (front ++ [c]) t ∧
    t.outlook (front ++ [c]) rest = s.outlook front (c :: rest)) ∨
  ∃ f, s.step (front ++ c :: rest) c front.length = .error f ∧ Ended (front ++ c :: rest) f

namespace Sound

variable {front : List Char} {s : Scan} (h : Sound front s)

include h

/-- The pending item is appended as it is read, unless it is a run of too many digits. -/
theorem appendItem_cases (hlt : s.start < front.length) :
    (∃ t m, s.appendItem (front.drop s.start) = .ok t ∧ s.Grows t m ∧ Short front ∧
      ∀ rest, ((s.pending front).item rest).unsettled = m :: rest.unsettled) ∨
    ∃ f, s.appendItem (front.drop s.start) = .error f ∧ Ended front f := by
  rw [pending_of_lt hlt]
  unfold appendItem
  cases hkind : s.inDigits with
  | true =>
    obtain ⟨n, hpiece⟩ := h.exists_numeral hlt hkind
    rw [if_pos rfl, hpiece]
    -- digits are pending: they are converted, or they are too many
    rcases Nat.lt_or_ge Text.digitLimit n.chars.length with hlong | hle
    · obtain ⟨f, hconvert, hended⟩ := exists_convert_error h.converts hlong
      exact .inr ⟨f, hconvert, hended.mono (hpiece ▸ (List.drop_suffix _ _).isInfix)⟩
    · obtain ⟨t, hconvert, hgrows⟩ := s.exists_convert hle
      refine .inl ⟨t, _, hconvert, hgrows, h.short_front fun _ => hpiece ▸ hle, ?_⟩
      intro rest
      rw [Items.Run.ofKind_true, Items.Run.item, List.reverse_reverse, Items.numeralValue_chars]
      rfl
  | false =>
    rw [if_neg Bool.false_ne_true]
    refine .inl ⟨_, _, rfl, s.grows_append _, h.short_front fun hdigits => ?_, ?_⟩
    · rw [hkind] at hdigits
      cases hdigits
    · intro rest
      rw [Items.Run.ofKind_false, Items.Run.item, List.reverse_reverse]
      rfl

/-- A separator ends the pending item. If there is none, a zero or an empty word stands for it. -/
theorem separate_cases (rest : List Char) :
    (∃ t m, s.separate (front ++ rest) front.length = .ok t ∧ s.Grows t m ∧ Short front ∧
      ∀ rest, ((s.pending front).item rest).unsettled = m :: rest.unsettled) ∨
    ∃ f, s.separate (front ++ rest) front.length = .error f ∧ Ended front f := by
  unfold separate
  rw [piece_append]
  rcases Nat.eq_or_lt_of_le h.start_le with hend | hlt
  -- nothing is pending between two separators
  · have hshort : Short front := by
      have hfront := h.short
      rwa [hend, List.take_length] at hfront
    rw [if_pos hend.symm, pending_of_le hend.ge]
    refine .inl ⟨_, _, rfl, s.grows_append _, hshort, ?_⟩
    intro rest
    rfl
  · rw [if_neg (by omega)]
    exact h.appendItem_cases hlt

/-- A point ends the pending item. -/
theorem advances_point (rest : List Char) : Advances front s '.' rest := by
  rcases h.separate_cases ('.' :: rest) with ⟨t, m, hseparate, hgrows, hshort, hitem⟩ | ⟨f, hseparate, hended⟩
  · have hend : (t.beginAt (front.length + 1)).start = (front ++ ['.']).length := by simp [beginAt]
    refine .inl ⟨t.beginAt (front.length + 1), ?_, hgrows.sound_separated h hshort (by decide) rfl hend, ?_⟩
    · unfold step
      rw [if_pos rfl, hseparate]
      rfl
    · rw [hgrows.outlook_eq (u := t.beginAt (front.length + 1)) rfl rfl, pending_of_le hend.ge, outlook,
        Items.readFrom_point, hitem]
  · refine .inr ⟨f, ?_, hended.mono (List.prefix_append front _).isInfix⟩
    unfold step
    rw [if_pos rfl, hseparate]
    rfl

/-- A hyphen ends the pending item and opens a list. -/
theorem advances_hyphen (rest : List Char) : Advances front s '-' rest := by
  rcases h.separate_cases ('-' :: rest) with ⟨t, m, hseparate, hgrows, hshort, hitem⟩ | ⟨f, hseparate, hended⟩
  · have hend : (t.descend.beginAt (front.length + 1)).start = (front ++ ['-']).length := by simp [beginAt]
    refine .inl ⟨t.descend.beginAt (front.length + 1), ?_, hgrows.sound_separated h hshort (by decide) rfl hend, ?_⟩
    · unfold step
      rw [if_neg (by decide), if_pos rfl, hseparate]
      rfl
    · -- the rest is read into the list that the hyphen opens
      rw [hgrows.outlook_descend (u := t.descend.beginAt (front.length + 1)) rfl rfl, pending_of_le hend.ge, outlook,
        Items.readFrom_hyphen, hitem]
  · refine .inr ⟨f, ?_, hended.mono (List.prefix_append front _).isInfix⟩
    unfold step
    rw [if_neg (by decide), if_pos rfl, hseparate]
    rfl

/-- A digit behind letters ends a word and opens a list. -/
theorem advances_digit {c : Char} (hdigit : Items.isDigit c = true) (hlt : s.start < front.length)
    (hkind : s.inDigits = false) (rest : List Char) : Advances front s c rest := by
  obtain ⟨word, hword⟩ : ∃ word, word = Items.wordBeforeDigit (String.ofList (front.drop s.start)) := ⟨_, rfl⟩
  have hgrows := s.grows_append (.word word)
  have hshort : Short front := h.short_front fun hdigits => by
    rw [hkind] at hdigits
    cases hdigits
  -- the last character in front is one of the pending letters
  have hapart : EndsApart front := by
    intro d hd
    rw [← hkind]
    apply h.kind d
    apply List.mem_of_getLast?
    rwa [List.getLast?_drop, if_neg (Nat.not_le.2 hlt)]
  refine .inl ⟨((s.append (.word word)).descend.beginAt front.length).mark true, ?_, ?_, ?_⟩
  · rw [step_of_not_isSeparator (Items.not_isSeparator_of_isDigit hdigit), if_pos hdigit, if_pos ⟨hkind, hlt⟩,
      piece_append, hword]
  · apply hgrows.sound_begun h hshort
    · rfl
    · rfl
    · exact hdigit
    · exact fun _ => hapart
  · rw [hgrows.outlook_descend rfl rfl, pending_begun rfl, outlook, Items.readFrom_digit hdigit, pending_of_lt hlt,
      hkind, Items.Run.ofKind_false, hword]
    simp only [List.reverse_reverse]
    rfl

/-- A letter behind digits ends a numeral and opens a list. -/
theorem advances_letter {c : Char} (hletter : Items.isLetter c = true) (hlt : s.start < front.length)
    (hkind : s.inDigits = true) (rest : List Char) : Advances front s c rest := by
  have hdigit : Items.isDigit c = false := Items.isDigit_of_isLetter hletter
  have hstep : s.step (front ++ c :: rest) c front.length =
      (s.convert (front.drop s.start)).map fun s => (s.descend.beginAt front.length).mark false := by
    rw [step_of_not_isSeparator (Items.not_isSeparator_of_isLetter hletter), if_neg (by simp [hdigit]),
      if_pos ⟨hkind, hlt⟩, piece_append]
  obtain ⟨n, hpiece⟩ := h.exists_numeral hlt hkind
  unfold Advances
  rw [hstep, hpiece]
  -- the digits in front of the letter are converted, or they are too many
  rcases Nat.lt_or_ge Text.digitLimit n.chars.length with hlong | hle
  · obtain ⟨f, hconvert, hended⟩ := exists_convert_error h.converts hlong
    have hwithin : n.chars <:+: front ++ c :: rest :=
      hpiece ▸ (List.drop_suffix _ _).isInfix.trans (List.prefix_append front _).isInfix
    refine .inr ⟨f, ?_, hended.mono hwithin⟩
    rw [hconvert]
    rfl
  · obtain ⟨t, hconvert, hgrows⟩ := s.exists_convert hle
    refine .inl ⟨(t.descend.beginAt front.length).mark false, ?_, ?_, ?_⟩
    · rw [hconvert]
      rfl
    · apply hgrows.sound_begun h (h.short_front fun _ => hpiece ▸ hle)
      · rfl
      · rfl
      · exact hdigit
      · intro hdigits
        cases hdigits
    · rw [hgrows.outlook_descend rfl rfl, pending_begun rfl, outlook, Items.readFrom_letter hletter, pending_of_lt hlt,
        hkind, hpiece, Items.Run.ofKind_true]
      simp only [List.reverse_reverse, Items.numeralValue_chars]
      rfl

/-- A character goes into the pending item if that is of its kind, or if there is none. -/
theorem readFrom_same {c : Char} (hseparator : Items.isSeparator c = false)
    (hsame : s.start < front.length → s.inDigits = Items.isDigit c) (rest : List Char) :
    Items.readFrom (s.pending front) (c :: rest) =
      Items.readFrom ((s.mark (Items.isDigit c)).pending (front ++ [c])) rest := by
  rw [pending_concat (s := s.mark (Items.isDigit c)) h.start_le]
  rcases Nat.eq_or_lt_of_le h.start_le with hend | hlt
  · have hdrop : front.drop (s.mark (Items.isDigit c)).start = [] := List.drop_eq_nil_iff.2 hend.ge
    rw [pending_of_le hend.ge, hdrop, Items.readFrom_empty hseparator]
    rfl
  · rw [pending_of_lt hlt, hsame hlt, Items.readFrom_ofKind hseparator]
    rfl

/-- A character of the kind of the pending item becomes part of it. -/
theorem advances_same {c : Char} (hseparator : Items.isSeparator c = false)
    (hsame : s.start < front.length → s.inDigits = Items.isDigit c) (rest : List Char) : Advances front s c rest := by
  have hdrop : (front ++ [c]).drop s.start = front.drop s.start ++ [c] := List.drop_append_of_le_length h.start_le
  have htake : (front ++ [c]).take s.start = front.take s.start := List.take_append_of_le_length h.start_le
  have hle : s.start ≤ (front ++ [c]).length := by
    have hstart := h.start_le
    rw [List.length_append]
    omega
  have hsound : Sound (front ++ [c]) (s.mark (Items.isDigit c)) := by
    refine ⟨hle, ?_, h.converts, ?_, ?_⟩
    · intro d hd
      change d ∈ (front ++ [c]).drop s.start at hd
      rw [hdrop] at hd
      rcases List.mem_append.1 hd with hd | hd
      · -- an item with a character is pending, so the new one is of its kind
        have hlt : s.start < front.length := by
          have hpos := List.length_pos_of_mem hd
          rw [List.length_drop] at hpos
          omega
        rw [h.kind d hd]
        exact hsame hlt
      · rw [List.mem_singleton.1 hd]
        rfl
    · show Short ((front ++ [c]).take s.start)
      rw [htake]
      exact h.short
    · show Items.isDigit c = true ∨ s.start = (front ++ [c]).length → EndsApart ((front ++ [c]).take s.start)
      rw [htake, List.length_append, List.length_singleton]
      -- the pending item was one of digits before, or there was none
      rintro (hdigits | hend)
      · rcases Nat.eq_or_lt_of_le h.start_le with hnone | hlt
        · exact h.apart (.inr hnone)
        · exact h.apart (.inl ((hsame hlt).trans hdigits))
      · have hstart := h.start_le
        omega
  refine .inl ⟨s.mark (Items.isDigit c), ?_, hsound, ?_⟩
  · have hstays : ∀ digit, Items.isDigit c ≠ digit → ¬ (s.inDigits = digit ∧ s.start < front.length) := by
      rintro digit hne ⟨hkind, hlt⟩
      exact hne ((hsame hlt).symm.trans hkind)
    rw [step_of_not_isSeparator hseparator]
    cases hdigit : Items.isDigit c with
    | true => rw [if_pos rfl, if_neg (hstays false (by simp [hdigit]))]
    | false => rw [if_neg Bool.false_ne_true, if_neg (hstays true (by simp [hdigit]))]
  · rw [outlook, outlook, h.readFrom_same hseparator hsame rest]
    rfl

/-- One step of the pass. -/
theorem advances (c : Char) (rest : List Char) : Advances front s c rest := by
  rcases Items.char_cases c with rfl | rfl | hdigit | hletter
  · exact h.advances_point rest
  · exact h.advances_hyphen rest
  -- a digit: it ends a pending word, and else it is part of the pending item
  · by_cases hother : s.start < front.length ∧ s.inDigits = false
    · exact h.advances_digit hdigit hother.1 hother.2 rest
    · apply h.advances_same (Items.not_isSeparator_of_isDigit hdigit)
      intro hlt
      rw [hdigit]
      simpa [hlt] using hother
  -- a letter, in the same way behind digits
  · by_cases hother : s.start < front.length ∧ s.inDigits = true
    · exact h.advances_letter hletter hother.1 hother.2 rest
    · apply h.advances_same (Items.not_isSeparator_of_isLetter hletter)
      intro hlt
      rw [Items.isDigit_of_isLetter hletter]
      simpa [hlt] using hother

/-- The steps over all that is left of a text, character by character, up to its end or to a run of too many digits. -/
theorem steps_cases (rest : List Char) :
    (∃ t, (rest.zipIdx front.length).foldlM (fun s place => s.step (front ++ rest) place.1 place.2) s = .ok t ∧
      Sound (front ++ rest) t ∧ t.outlook (front ++ rest) [] = s.outlook front rest) ∨
    ∃ f, (rest.zipIdx front.length).foldlM (fun s place => s.step (front ++ rest) place.1 place.2) s = .error f ∧
      Ended (front ++ rest) f := by
  -- the passed part grows at its end by what the rest loses at its front
  induction rest generalizing front s with
  | nil =>
    rw [List.append_nil]
    exact .inl ⟨s, rfl, h, rfl⟩
  | cons c rest ih =>
    have hfront : front ++ c :: rest = front ++ [c] ++ rest := by simp
    have hnext : front.length + 1 = (front ++ [c]).length := by simp
    rw [List.zipIdx_cons, List.foldlM_cons]
    rcases h.advances c rest with ⟨t, hstep, hsound, houtlook⟩ | ⟨f, hstep, hended⟩
    · rw [hstep, hnext, hfront, ← houtlook]
      exact ih hsound
    · rw [hstep]
      exact .inr ⟨f, rfl, hended⟩

/-- Behind the last character the pending item is appended, and nothing more is to come. -/
theorem finish_cases :
    (∃ t, s.finish front = .ok t ∧ t.ConvertsNumerals ∧ Short front ∧ t.result = s.outlook front []) ∨
    ∃ f, s.finish front = .error f ∧ Ended front f := by
  unfold finish outlook
  rcases Nat.eq_or_lt_of_le h.start_le with hend | hlt
  · -- the text ends in a separator, or it is empty
    have hshort : Short front := by
      have hfront := h.short
      rwa [hend, List.take_length] at hfront
    rw [if_neg (by omega), pending_of_le hend.ge]
    refine .inl ⟨s, rfl, h.converts, hshort, ?_⟩
    show Member.close s.outer s.current = Member.close s.outer (s.current ++ [])
    rw [List.append_nil]
  · rw [if_pos hlt]
    -- an item is pending at the end of the text
    rcases h.appendItem_cases hlt with ⟨t, m, happend, hgrows, hshort, hitem⟩ | hended
    · have hlast : Items.readFrom (s.pending front) [] = (s.pending front).item .done := by
        rw [pending_of_lt hlt]
        cases s.inDigits with
        | true => rfl
        | false => rfl
      rw [hlast, hitem]
      refine .inl ⟨t, happend, hgrows.converts h.converts, hshort, ?_⟩
      unfold result
      rw [hgrows.outer_eq, hgrows.current_eq]
      rfl
    · exact .inr hended

end Sound

/-- The pass over a text comes to the normal items of the text, or it ends at a run of too many digits. -/
theorem run_cases (text : List Char) :
    (∃ s, run text = .ok s ∧ s.ConvertsNumerals ∧ Short text ∧ s.result = (Items.read text).normal.members) ∨
      ∃ f, run text = .error f ∧ Ended text f := by
  have hstart : initial.outlook [] text = Member.normalize (Items.read text).unsettled := rfl
  unfold run
  rcases sound_initial.steps_cases text with ⟨s, hsteps, hsound, houtlook⟩ | ⟨f, hsteps, hended⟩
  · rw [List.nil_append] at hsteps hsound houtlook
    refine (Sound.finish_cases hsound).imp ?_ ?_
    · rintro ⟨t, hfinish, hconverts, hshort, hresult⟩
      refine ⟨t, Except.bind_ok_iff.2 ⟨s, hsteps, hfinish⟩, hconverts, hshort, ?_⟩
      rw [hresult, houtlook, hstart, Items.normalize_unsettled]
    · rintro ⟨f, hfinish, hended⟩
      exact ⟨f, Except.bind_error_iff.2 (.inr ⟨s, hsteps, hfinish⟩), hended⟩
  · exact .inr ⟨f, Except.bind_error_iff.2 (.inl hsteps), hended⟩

/-- The pass over a text reaches its end just if no run of digits in it is too long. -/
theorem exists_run_iff {text : List Char} : (∃ s, run text = .ok s) ↔ Short text := by
  rcases run_cases text with ⟨s, hrun, -, hshort, -⟩ | ⟨f, hrun, hended⟩
  · exact ⟨fun _ => hshort, fun _ => ⟨s, hrun⟩⟩
  · refine ⟨?_, fun hshort => absurd hshort hended.not_short⟩
    rintro ⟨s, hs⟩
    cases hrun.symm.trans hs

end Scan

/-- A version can be read in one pass just if no more digits stand in a row in it than numbers are read from. The pass
converts nothing to a number but runs of the digits `0` to `9` that are not empty. If it fails, it does so at a run that is
too long, and says how long it is. Otherwise it comes to the items of the version. Each of its lists, at any depth, is a row
of numbers and words, the last of which is neither a zero nor a release, and at most one list behind it, which is not
empty. -/
theorem Version.tidy_scan (v : Version) :
    ((∃ s, v.scan = .ok s) ↔ ∀ digits, digits <:+: Text.lowerFrom [] v.text.toList →
      (∀ c ∈ digits, Items.isDigit c = true) → digits.length ≤ Text.digitLimit) ∧
    (∀ f, v.scan = .error f →
      (∀ piece ∈ f.before.converted ++ [f.piece], piece ≠ [] ∧ ∀ c ∈ piece, Items.isDigit c = true) ∧
      f.piece <:+: Text.lowerFrom [] v.text.toList ∧ Text.digitLimit < f.piece.length ∧
      f.reason = .tooLong f.piece.length) ∧
    ∀ s, v.scan = .ok s →
      (∀ piece ∈ s.converted, piece ≠ [] ∧ ∀ c ∈ piece, Items.isDigit c = true) ∧
      s.result = v.items.members ∧
      ∀ ms, Member.Within s.result ms → Member.IsTidy ms := by
  have hnumeral : ∀ n : Numeral, n.chars ≠ [] ∧ ∀ c ∈ n.chars, Items.isDigit c = true := by
    intro n
    refine ⟨n.nonempty, fun c hc => ?_⟩
    rw [Items.isDigit_eq]
    exact n.digits c hc
  refine ⟨Scan.exists_run_iff, ?_, ?_⟩
  -- the pass ends at a run that is too long, which was about to be converted
  · intro f hf
    rcases Scan.run_cases (Text.lowerFrom [] v.text.toList) with ⟨s, hrun, -⟩ | ⟨f', hrun, hended⟩
    · cases hrun.symm.trans hf
    · obtain rfl := Except.error.inj (hrun.symm.trans hf)
      refine ⟨?_, hended.isInfix, hended.tooLong, hended.reason⟩
      intro piece hpiece
      obtain ⟨n, rfl⟩ : ∃ n : Numeral, piece = n.chars := by
        rcases List.mem_append.1 hpiece with hpiece | hpiece
        · exact hended.converts piece hpiece
        · rw [List.mem_singleton.1 hpiece]
          exact hended.numeral
      exact hnumeral n
  · intro s hs
    rcases Scan.run_cases (Text.lowerFrom [] v.text.toList) with ⟨s', hrun, hconverts, -, hresult⟩ | ⟨f, hrun, -⟩
    · obtain rfl := Except.ok.inj (hrun.symm.trans hs)
      have hitems : s'.result = v.items.members := hresult
      refine ⟨?_, hitems, ?_⟩
      · intro piece hpiece
        obtain ⟨n, rfl⟩ := hconverts piece hpiece
        exact hnumeral n
      · intro ms hms
        rw [hitems] at hms
        -- the lists are the levels of the items, which were trimmed as they were closed
        obtain ⟨level, htrimmed, rfl⟩ := v.trimmed_items.exists_of_within hms
        exact htrimmed.isTidy
    · cases hrun.symm.trans hs

/-- A number of one digit more than numbers are read from. -/
def Version.ones : Version :=
  ⟨String.ofList (List.replicate (Text.digitLimit + 1) '1')⟩

/-- Not every version can be read. -/
theorem Version.not_exists_scan : ¬ ∀ v : Version, ∃ s, v.scan = .ok s := by
  intro hall
  have hascii : ∀ c ∈ List.replicate (Text.digitLimit + 1) '1', c.toNat < 128 := by
    intro c hc
    rw [List.eq_of_mem_replicate hc]
    decide
  have hshort := Scan.exists_run_iff.1 (hall ones)
  unfold ones at hshort
  rw [String.toList_ofList, Text.lowerFrom_ascii hascii, List.map_replicate] at hshort
  have hlength := hshort _ List.infix_rfl fun c hc => by
    rw [List.eq_of_mem_replicate hc]
    decide
  rw [List.length_replicate] at hlength
  omega

/-- Zeros and releases go in front of lists too, and lists of nothing but them. -/
example : ((Scan.run "1.0.0-rc2.0-ga".toList).toOption).map Scan.result =
    some [.number 1, .list [.word "rc", .list [.number 2]]] := by rfl

end VersionAudit
