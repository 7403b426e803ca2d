import Mathlib.Data.List.TakeDrop
import VersionAudit.Artifact
import VersionAudit.Proofs.Version.Equality
import VersionAudit.Proofs.Version.Reading
import VersionAudit.Proofs.Version.Specification

/-!
# Versions with a time stamp

A published snapshot has a time stamp in the place of the word for a snapshot. The two are different versions: a word
leaves its letters in the canonical text, and a time stamp has none.

1. `Artifact.IsStamped`: the version ends in a time stamp. `IsStamped.exists_parts` takes it apart.
2. `Items.occurrences`: how often a letter occurs in the words of a row. The canonical text shows it
   (`count_canonical`), and behind a hyphen the words are counted on their own (`occurrences_readFrom_append`).
3. `IsStamped.beq_baseVersion`: a version with a time stamp and its base version are different.
-/

namespace VersionAudit

/-! ## Time stamps -/

/-- A character of a time stamp. -/
def isStampChar (c : Char) : Bool :=
  Items.isDigit c || Items.isSeparator c

/-- A text that ends with a digit and has no letters in it. -/
structure IsStamp (cs : List Char) : Prop where
  last : ∃ rest d, cs = rest ++ [d] ∧ Items.isDigit d = true
  chars : ∀ c ∈ cs, isStampChar c = true

namespace Artifact

/-- The version ends in a time stamp. -/
def IsStamped (a : Artifact) : Prop :=
  (beforeTimestamp? [] a.version.toList).isSome = true

/-- The digits at the front are taken off. -/
theorem takeDigits_eq {cs digits rest : List Char} (h : takeDigits cs = (digits, rest)) :
    cs = digits ++ rest ∧ ∀ c ∈ digits, Items.isDigit c = true := by
  unfold takeDigits at h
  rw [List.span_eq_takeWhile_dropWhile] at h
  obtain ⟨rfl, rfl⟩ := Prod.mk.inj h
  exact ⟨List.takeWhile_append_dropWhile.symm, fun c hc => List.mem_takeWhile_imp hc⟩

/-- A time stamp may be followed by the end of a line. -/
theorem isStamp_of_isTimestamp {cs : List Char} (h : isTimestamp cs = true) :
    ∃ stamp, IsStamp stamp ∧ (cs = stamp ∨ cs = stamp ++ ['\n']) := by
  unfold isTimestamp at h
  split at h
  · rename_i day afterDay hday
    split at h
    · rename_i time afterTime htime
      rcases hbuild : takeDigits afterTime with ⟨build, rest⟩
      rw [hbuild] at h
      obtain ⟨rfl, hdayDigits⟩ := takeDigits_eq hday
      obtain ⟨rfl, htimeDigits⟩ := takeDigits_eq htime
      obtain ⟨rfl, hbuildDigits⟩ := takeDigits_eq hbuild
      simp only [Bool.and_eq_true, beq_iff_eq, Bool.not_eq_true', List.isEmpty_eq_false_iff, Bool.or_eq_true] at h
      obtain ⟨⟨-, hne⟩, hrest⟩ := h
      -- the day, a point, the time, a hyphen and the number of the build
      refine ⟨day ++ '.' :: (time ++ '-' :: build), ⟨?_, ?_⟩, ?_⟩
      · obtain ⟨build, d, rfl⟩ := (List.eq_nil_or_concat' build).resolve_left hne
        exact ⟨day ++ '.' :: (time ++ '-' :: build), d, by simp, hbuildDigits d (by simp)⟩
      · intro c hc
        have hdigit : Items.isDigit c = true → isStampChar c = true := by
          intro hdigit
          unfold isStampChar
          rw [hdigit, Bool.true_or]
        rcases List.mem_append.1 hc with hc | hc
        · exact hdigit (hdayDigits c hc)
        rcases List.mem_cons.1 hc with rfl | hc
        · rfl
        rcases List.mem_append.1 hc with hc | hc
        · exact hdigit (htimeDigits c hc)
        rcases List.mem_cons.1 hc with rfl | hc
        · rfl
        · exact hdigit (hbuildDigits c hc)
      · rcases hrest with rfl | rfl
        · exact .inl (by simp)
        · exact .inr (by simp)
    · cases h
  · cases h

/-- What stands in front of a time stamp is empty or ends in a hyphen. -/
theorem beforeTimestamp?_eq_some {before cs front : List Char} (h : beforeTimestamp? before cs = some front) :
    ∃ stamp, before.reverse ++ cs = front ++ stamp ∧ isTimestamp stamp = true ∧
      (front = [] ∨ ∃ base, front = base ++ ['-']) := by
  induction cs generalizing before with
  | nil => cases h
  | cons c rest ih =>
    unfold beforeTimestamp? at h
    -- the last place is tried first
    rcases Option.or_eq_some_iff.1 h with h | ⟨-, h⟩
    · obtain ⟨stamp, heq, hstamp, hfront⟩ := ih h
      refine ⟨stamp, ?_, hstamp, hfront⟩
      rw [← heq, List.reverse_cons, List.append_assoc]
      rfl
    · split at h
      · rename_i hhere
        obtain rfl := Option.some.inj h
        simp only [Bool.and_eq_true, Bool.or_eq_true, beq_iff_eq] at hhere
        obtain ⟨⟨hbefore, -⟩, hstamp⟩ := hhere
        refine ⟨c :: rest, rfl, hstamp, ?_⟩
        rcases hbefore with hempty | hhyphen
        · exact .inl (by rw [List.isEmpty_iff.1 hempty]; rfl)
        · obtain ⟨before, rfl⟩ := List.head?_eq_some_iff.1 hhyphen
          exact .inr ⟨before.reverse, List.reverse_cons ..⟩
      · cases h

end Artifact

namespace Items

/-! ## Letters -/

/-- How often a letter occurs in the words of a row. -/
def occurrences (letter : Char) : Items → Nat
  | .done => 0
  | .number _ rest => rest.occurrences letter
  | .word text rest => text.toList.count letter + rest.occurrences letter
  | .nested inner => inner.occurrences letter

section Occurrences

variable {letter : Char}

theorem occurrences_nested (inner : Items) : (nested inner).occurrences letter = inner.occurrences letter := rfl

/-- Normalising keeps all letters, since only empty words are dropped. -/
theorem occurrences_normal (x : Items) : x.normal.occurrences letter = x.occurrences letter := by
  induction x with
  | done => rfl
  | number value rest ih =>
    unfold normal consNumber
    split
    · exact ih
    · exact ih
  | word text rest ih =>
    unfold normal consWord
    split
    · rename_i hleft
      rw [ih, hleft.1]
      exact (Nat.zero_add _).symm
    · exact congrArg (text.toList.count letter + ·) ih
  | nested inner ih =>
    unfold normal nest
    split
    · rename_i hdone
      rw [hdone] at ih
      exact ih
    · exact ih

/-- Digits and separators are no letters, so all letters of the text are those of the words. -/
theorem count_chars (hletter : isLetter letter = true) (x : Items) (begun : Bool) :
    (x.chars begun).count letter = x.occurrences letter := by
  have hseparator : ∀ (c : Char) (begun : Bool), isSeparator c = true →
      (if begun then [c] else []).count letter = 0 := by
    intro c begun hc
    cases begun with
    | false => rfl
    | true =>
      refine List.count_eq_zero.2 fun hmem => ?_
      obtain rfl := List.mem_singleton.1 hmem
      rw [not_isSeparator_of_isLetter hletter] at hc
      cases hc
  have hdigits : ∀ value, (Nat.toDigits 10 value).count letter = 0 := by
    intro value
    refine List.count_eq_zero.2 fun hmem => ?_
    have hdigit := isDigit_of_mem_toDigits hmem
    rw [isDigit_of_isLetter hletter] at hdigit
    cases hdigit
  -- item by item: only words have letters
  induction x generalizing begun with
  | done => rfl
  | number value rest ih =>
    unfold chars occurrences
    rw [List.count_append, List.count_append, hseparator _ _ rfl, hdigits, ih, Nat.zero_add, Nat.zero_add]
  | word text rest ih =>
    unfold chars occurrences
    rw [List.count_append, List.count_append, hseparator _ _ rfl, ih, Nat.zero_add]
  | nested inner ih =>
    unfold chars occurrences
    rw [List.count_append, hseparator _ _ rfl, ih, Nat.zero_add]

/-- The letters of a pending run are counted apart from those behind it. -/
theorem occurrences_item (run : Run) (rest : Items) :
    (run.item rest).occurrences letter = (readFrom run []).occurrences letter + rest.occurrences letter := by
  cases run with
  | empty => exact (Nat.zero_add _).symm
  | digits rev => exact (Nat.zero_add _).symm
  | letters rev => rfl

/-- Behind a hyphen reading begins anew. -/
theorem occurrences_readFrom_append (run : Run) (cs rest : List Char) :
    (readFrom run (cs ++ '-' :: rest)).occurrences letter =
      (readFrom run cs).occurrences letter + (readFrom .empty rest).occurrences letter := by
  induction cs generalizing run with
  | nil => exact occurrences_item run (.nested (readFrom .empty rest))
  | cons c cs ih =>
    rw [List.cons_append]
    -- the character behind decides how the run goes on, up to the hyphen
    rcases char_cases c with rfl | rfl | hdigit | hletter
    · rw [readFrom_point, readFrom_point, occurrences_item, occurrences_item, ih, Nat.add_assoc]
    · rw [readFrom_hyphen, readFrom_hyphen, occurrences_item, occurrences_item, occurrences_nested, occurrences_nested,
        ih, Nat.add_assoc]
    · rw [readFrom_digit hdigit, readFrom_digit hdigit]
      cases run with
      | empty => exact ih _
      | digits rev => exact ih _
      | letters rev =>
        show _ + (readFrom _ (cs ++ '-' :: rest)).occurrences letter = _ + (readFrom _ cs).occurrences letter + _
        rw [ih, Nat.add_assoc]
    · rw [readFrom_letter hletter, readFrom_letter hletter]
      cases run with
      | empty => exact ih _
      | digits rev => exact ih _
      | letters rev => exact ih _

/-- No letter is read from digits and separators. -/
theorem occurrences_readFrom_eq_zero {run : Run} (hrun : ∀ rev, run ≠ .letters rev) {cs : List Char}
    (h : ∀ c ∈ cs, isStampChar c = true) : (readFrom run cs).occurrences letter = 0 := by
  have hend : ∀ run : Run, (∀ rev, run ≠ .letters rev) → (readFrom run []).occurrences letter = 0 := by
    intro run hrun
    cases run with
    | empty => rfl
    | digits rev => rfl
    | letters rev => exact absurd rfl (hrun rev)
  induction cs generalizing run with
  | nil => exact hend run hrun
  | cons c cs ih =>
    rw [List.forall_mem_cons] at h
    have hnext : ∀ run : Run, (∀ rev, run ≠ .letters rev) → (readFrom run cs).occurrences letter = 0 :=
      fun _ hrun => ih hrun h.2
    rcases char_cases c with rfl | rfl | hdigit | hletter
    · rw [readFrom_point, occurrences_item, hend run hrun, hnext .empty (by simp)]
    · rw [readFrom_hyphen, occurrences_item, hend run hrun, occurrences_nested, hnext .empty (by simp)]
    · rw [readFrom_digit hdigit]
      cases run with
      | empty => exact hnext _ (by simp)
      | digits rev => exact hnext _ (by simp)
      | letters rev => exact absurd rfl (hrun rev)
    -- a letter does not occur
    · have hc := h.1
      unfold isStampChar at hc
      rw [isDigit_of_isLetter hletter, not_isSeparator_of_isLetter hletter] at hc
      cases hc

end Occurrences

end Items

/-- The letters of the canonical text are those of the words. -/
theorem Version.count_canonical {letter : Char} (hletter : Items.isLetter letter = true) (v : Version) :
    v.canonical.toList.count letter = (Items.read (Text.lowerFrom [] v.text.toList)).occurrences letter := by
  unfold Version.canonical
  rw [Items.toList_canonical, Items.count_chars hletter]
  exact Items.occurrences_normal _

/-! ## The base version -/

/-- A line ends in a blank. -/
theorem getLast?_ne_newline {s : String} (h : Text.trim s = s) : s.toList.getLast? ≠ some '\n' := by
  intro hlast
  have hblank := (Text.trimChars_eq_self_iff.1 (Text.trim_eq_self_iff.1 h)).2 '\n' hlast
  exact absurd hblank (by decide)

namespace Artifact.IsStamped

variable {a : Artifact}

/-- A version without blanks at its end is a front and a time stamp. The base version has the word for a snapshot in
the place of the time stamp. -/
theorem exists_parts (h : a.IsStamped) (hend : a.version.toList.getLast? ≠ some '\n') :
    ∃ front stamp, a.version.toList = front ++ stamp ∧ IsStamp stamp ∧ (front = [] ∨ ∃ base, front = base ++ ['-']) ∧
      a.baseVersion.toList = front ++ "SNAPSHOT".toList := by
  unfold IsStamped at h
  obtain ⟨front, hfront⟩ := Option.isSome_iff_exists.1 h
  obtain ⟨text, heq, htimestamp, hhyphen⟩ := beforeTimestamp?_eq_some hfront
  have htext : a.version.toList = front ++ text := heq
  obtain ⟨stamp, hstamp, rfl | rfl⟩ := isStamp_of_isTimestamp htimestamp
  · refine ⟨front, text, htext, hstamp, hhyphen, ?_⟩
    unfold baseVersion
    rw [hfront, String.toList_append, String.toList_ofList]
  · rw [htext, ← List.append_assoc, List.getLast?_concat] at hend
    exact absurd rfl hend

/-- The version is another one than the base version. -/
theorem beq_baseVersion (h : a.IsStamped) (hend : a.version.toList.getLast? ≠ some '\n') :
    ((⟨a.baseVersion⟩ : Version) == ⟨a.version⟩) = false := by
  obtain ⟨front, stamp, hversion, hstamp, hfront, hbase⟩ := h.exists_parts hend
  -- what stands in front of the hyphen has the same letters in both
  obtain ⟨k, hk⟩ : ∃ k, ∀ tail : List Char, (∀ c ∈ tail, c.toNat < 128) →
      (Items.read (Text.lowerFrom [] (front ++ tail))).occurrences 'h' =
        k + (Items.read (tail.map Char.toLower)).occurrences 'h' := by
    rcases hfront with rfl | ⟨base, rfl⟩
    · refine ⟨0, fun tail htail => ?_⟩
      rw [List.nil_append, Text.lowerFrom_ascii htail, Nat.zero_add]
    · refine ⟨(Items.read (Text.lowerFrom [] base)).occurrences 'h', fun tail htail => ?_⟩
      rw [List.append_assoc, List.singleton_append, Text.lowerFrom_append, Text.lowerFrom_ascii htail]
      exact Items.occurrences_readFrom_append _ _ _
  have hascii : ∀ c ∈ stamp, c.toNat < 128 ∧ c.toLower = c := by
    intro c hc
    have hchar := hstamp.chars c hc
    unfold isStampChar Items.isSeparator at hchar
    simp only [Bool.or_eq_true, beq_iff_eq] at hchar
    rcases hchar with hdigit | rfl | rfl
    · rw [Items.isDigit_eq] at hdigit
      exact ⟨toNat_lt_of_isDigit hdigit, toLower_of_isDigit hdigit⟩
    · decide
    · decide
  have hsmall : stamp.map Char.toLower = stamp := by
    rw [List.map_congr_left fun c hc => (hascii c hc).2, List.map_id']
  have hletter : Items.isLetter 'h' = true := by decide
  have hsnapshot : ∀ c ∈ "SNAPSHOT".toList, c.toNat < 128 := by simp
  have hword : (Items.read ("SNAPSHOT".toList.map Char.toLower)).occurrences 'h' = 1 := by decide +kernel
  have hnumbers : (Items.read stamp).occurrences 'h' = 0 :=
    Items.occurrences_readFrom_eq_zero (by simp) hstamp.chars
  by_contra hequal
  rw [Bool.not_eq_false, Version.beq_iff] at hequal
  have hcount := congrArg (fun s => s.toList.count 'h') hequal
  rw [Version.count_canonical hletter, Version.count_canonical hletter, hbase, hversion,
    hk _ hsnapshot, hk _ (fun c hc => (hascii c hc).1), hsmall, hword, hnumbers] at hcount
  omega

/-! ## The specification -/

/-- A specification that ends in a time stamp is no set of intervals. -/
theorem plain (h : a.IsStamped) (htrim : Text.trim a.version = a.version) {range : VersionRange}
    (hread : VersionRange.read a.version = .ok range) : VersionRange.Plain a.version := by
  obtain ⟨front, stamp, hversion, hstamp, -, -⟩ := h.exists_parts (getLast?_ne_newline htrim)
  obtain ⟨rest, d, rfl, hdigit⟩ := hstamp.last
  have hlast : a.version.toList.getLast? = some d := by
    rw [hversion, ← List.append_assoc, List.getLast?_concat]
  have hblank : Text.isBlank d = false := (Text.trimChars_eq_self_iff.1 (Text.trim_eq_self_iff.1 htrim)).2 d hlast
  have hne : ∀ c, Items.isDigit c = false → d ≠ c := by
    rintro c hc rfl
    rw [hc] at hdigit
    cases hdigit
  obtain ⟨v, hv⟩ := VersionRange.recommended_of_getLast? hblank (hne _ (by decide)) (hne _ (by decide))
    (hne _ (by decide)) hread hlast
  exact VersionRange.plain_of_recommended hread hv

/-- If the version is a plain specification without blanks around it, so is the base version. -/
theorem plain_baseVersion (h : a.IsStamped) (htrim : Text.trim a.version = a.version)
    (hplain : VersionRange.Plain a.version) :
    VersionRange.Plain a.baseVersion ∧ Text.trim a.baseVersion = a.baseVersion := by
  obtain ⟨front, stamp, hversion, -, -, hbase⟩ := h.exists_parts (getLast?_ne_newline htrim)
  have hchars := Text.trim_eq_self_iff.1 htrim
  obtain ⟨c, cs, hc, hsquare, hround⟩ := hplain
  rw [hchars] at hc
  -- both begin with the same character, unless nothing stands in front of the time stamp
  obtain ⟨d, ds, hd, hdsquare, hdround, hdblank⟩ : ∃ d ds, front ++ "SNAPSHOT".toList = d :: ds ∧ d ≠ '[' ∧ d ≠ '(' ∧
      Text.isBlank d = false := by
    cases front with
    | nil => exact ⟨'S', _, rfl, by decide, by decide, by decide⟩
    | cons f front =>
      rw [hversion] at hc
      obtain ⟨rfl, -⟩ := List.cons.inj hc
      refine ⟨f, _, rfl, hsquare, hround, (Text.trimChars_eq_self_iff.1 hchars).1 f ?_⟩
      rw [hversion]
      rfl
  have htrimmed : Text.trimChars a.baseVersion.toList = a.baseVersion.toList := by
    rw [Text.trimChars_eq_self_iff, hbase]
    constructor
    · intro c hc
      rw [hd] at hc
      obtain rfl := Option.some.inj hc
      exact hdblank
    · intro c hc
      rw [List.getLast?_append_of_ne_nil _ (by decide)] at hc
      obtain rfl := Option.some.inj hc
      decide
  exact ⟨⟨d, ds, by rw [htrimmed, hbase, hd], hdsquare, hdround⟩, Text.trim_eq_self_iff.2 htrimmed⟩

end Artifact.IsStamped

end VersionAudit
