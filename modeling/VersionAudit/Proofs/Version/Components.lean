import VersionAudit.Proofs.Text.Split
import VersionAudit.Proofs.Version.Reading
import VersionAudit.Version.Components

/-!
# The components of a canonical text

A canonical text is written by one set of rules and taken apart by another one. For a text of numbers with points between
them, and possibly a hyphen and a word behind them, the components are these numbers and the word.

1. `Text.decimal?_toDigits`: a number is read back from its digits, which have no zero in front (`toDigits_eq_cons`).
2. `ofChars_of_pieces`: the components of a text are read from the pieces between its points. `ofChars_numbers`: those of
   a text that begins with numbers, and `ofChars_word`: of one that does not.
-/

namespace VersionAudit

namespace Text

/-! ## Numbers -/

theorem digitValue?_of_isDigit {c : Char} (h : c.isDigit = true) : digitValue? c = some (c.toNat - '0'.toNat) := by
  have hall : ∀ n ∈ List.range 128, (Char.ofNat n).isDigit = true →
      digitValue? (Char.ofNat n) = some ((Char.ofNat n).toNat - '0'.toNat) := by
    decide +kernel
  exact forall_ascii (P := fun c => c.isDigit = true → digitValue? c = some (c.toNat - '0'.toNat)) hall
    (toNat_lt_of_isDigit h) h

theorem digitValue?_of_isAlpha {c : Char} (h : c.isAlpha = true) : digitValue? c = none := by
  have hall : ∀ n ∈ List.range 128, (Char.ofNat n).isAlpha = true → digitValue? (Char.ofNat n) = none := by
    decide +kernel
  exact forall_ascii (P := fun c => c.isAlpha = true → digitValue? c = none) hall (toNat_lt_of_isAlpha h) h

/-- A text in the digits `0` to `9` is the number that it writes. -/
theorem decimal?_of_isDigit {cs : List Char} (hne : cs ≠ []) (h : ∀ c ∈ cs, c.isDigit = true) :
    decimal? cs = some (Nat.ofDigitChars 10 cs 0) := by
  have hdigits : ∀ cs : List Char, (∀ c ∈ cs, c.isDigit = true) → ∀ sofar,
      cs.foldlM (fun n c => (digitValue? c).map (n * 10 + ·)) sofar = some (Nat.ofDigitChars 10 cs sofar) := by
    intro cs hcs
    induction cs with
    | nil => exact fun _ => rfl
    | cons c cs ih =>
      intro sofar
      rw [List.forall_mem_cons] at hcs
      rw [List.foldlM_cons, digitValue?_of_isDigit hcs.1]
      refine (ih hcs.2 _).trans ?_
      rw [Nat.mul_comm]
      rfl
  unfold decimal?
  rw [List.isEmpty_eq_false_iff.2 hne, if_neg Bool.false_ne_true, hdigits cs h]

/-- A number is read back from its digits. -/
theorem decimal?_toDigits (n : Nat) : decimal? (Nat.toDigits 10 n) = some n := by
  rw [decimal?_of_isDigit Nat.toDigits_ne_nil fun c hc => Nat.isDigit_of_mem_toDigits (by decide) (by decide) hc,
    Nat.ofDigitChars_ten_toDigits]

/-- A text with a character that is no digit is no number. -/
theorem decimal?_of_mem {c : Char} (hc : digitValue? c = none) {cs : List Char} (h : c ∈ cs) : decimal? cs = none := by
  obtain ⟨front, back, rfl⟩ := List.append_of_mem h
  have hne : (front ++ c :: back).isEmpty = false := by simp
  unfold decimal?
  rw [hne, if_neg Bool.false_ne_true, List.foldlM_append]
  cases front.foldlM (fun n c => (digitValue? c).map (n * 10 + ·)) 0 with
  | none => rfl
  | some n =>
    rw [Option.bind_eq_bind, Option.bind_some, List.foldlM_cons, hc]
    rfl

/-- The digits of a number other than zero do not begin with a zero. -/
theorem toDigits_eq_cons {n : Nat} (h : n ≠ 0) : ∃ d ds, Nat.toDigits 10 n = d :: ds ∧ d ≠ '0' := by
  induction n using Nat.strongRecOn with
  | ind n ih =>
    by_cases hsmall : n < 10
    · refine ⟨n.digitChar, [], Nat.toDigits_of_lt_base hsmall, fun hzero => h ?_⟩
      have hvalue := Nat.toNat_digitChar_of_lt_ten hsmall
      rw [hzero] at hvalue
      have hcode : '0'.toNat = 48 := rfl
      omega
    · -- the last digit is written behind those of the tenth part, which is not zero
      obtain ⟨d, ds, hds, hd⟩ := ih (n / 10) (by omega) (by omega)
      refine ⟨d, ds ++ [(n % 10).digitChar], ?_, hd⟩
      rw [Nat.toDigits_of_base_le (by decide) (by omega), hds]
      rfl

end Text

namespace Components

/-! ## Texts that begin with numbers -/

theorem number?_toDigits {n : Nat} (h : n ≤ limit) : number? (Nat.toDigits 10 n) = some n := by
  unfold number?
  rw [Text.decimal?_toDigits, Option.filter_some, if_pos (decide_eq_true h)]

/-- A written number has no leading zero, so that it is read where those are not allowed. -/
theorem plainNumber?_toDigits {n : Nat} (h : n ≤ limit) : plainNumber? (Nat.toDigits 10 n) = some n := by
  by_cases hzero : n = 0
  · subst hzero
    decide
  · obtain ⟨d, ds, hds, hd⟩ := Text.toDigits_eq_cons hzero
    have hplain : plainNumber? (Nat.toDigits 10 n) = number? (Nat.toDigits 10 n) := by
      rw [hds]
      unfold plainNumber?
      split
      · rename_i heq
        exact absurd (List.cons.inj heq).1 hd
      · rfl
    rw [hplain, number?_toDigits h]

/-- Up to three numbers are read as the first three components. -/
theorem front?_toDigits {n : Nat} {ns : List Nat} (hlength : ns.length ≤ 2) (h : ∀ m ∈ n :: ns, m ≤ limit) :
    front? ((n :: ns).map (Nat.toDigits 10)) =
      some { major := n, minor := ns.getD 0 0, incremental := ns.getD 1 0 } := by
  have hread : ∀ m ∈ n :: ns, plainNumber? (Nat.toDigits 10 m) = some m := fun m hm => plainNumber?_toDigits (h m hm)
  match ns, hlength with
  | [], _ =>
    simp only [List.mem_cons, List.not_mem_nil, or_false, forall_eq] at hread
    simp only [List.map_cons, List.map_nil, front?, hread]
    rfl
  | [b], _ =>
    simp only [List.mem_cons, List.not_mem_nil, or_false, forall_eq_or_imp, forall_eq] at hread
    simp only [List.map_cons, List.map_nil, front?, hread]
    rfl
  | [b, c], _ =>
    simp only [List.mem_cons, List.not_mem_nil, or_false, forall_eq_or_imp, forall_eq] at hread
    simp only [List.map_cons, List.map_nil, front?, hread]
    rfl

/-- The characters of numbers with points between them. -/
def numberChars (n : Nat) (ns : List Nat) : List Char :=
  Nat.toDigits 10 n ++ (ns.map (Nat.toDigits 10)).flatMap ('.' :: ·)

theorem not_mem_toDigits {c : Char} (h : c.isDigit = false) (n : Nat) : c ∉ Nat.toDigits 10 n := by
  intro hc
  rw [Nat.isDigit_of_mem_toDigits (by decide) (by decide) hc] at h
  cases h

/-- Numbers and points have no hyphen among them. -/
theorem hyphen_not_mem_numberChars (n : Nat) (ns : List Nat) : '-' ∉ numberChars n ns := by
  unfold numberChars
  rw [List.mem_append, not_or]
  refine ⟨not_mem_toDigits rfl n, ?_⟩
  simp only [List.mem_flatMap, List.mem_map, List.mem_cons, not_exists, not_and]
  rintro _ ⟨m, -, rfl⟩ (hpoint | hdigit)
  · cases hpoint
  · exact not_mem_toDigits rfl m hdigit

/-- The pieces between the points are the digits of the numbers. -/
theorem splitChars_numberChars (n : Nat) (ns : List Nat) :
    Text.splitChars '.' (numberChars n ns) = (n :: ns).map (Nat.toDigits 10) := by
  refine Text.splitChars_joined ?_
  rw [← List.map_cons, List.forall_mem_map]
  exact fun m _ => not_mem_toDigits rfl m

/-- None of them is empty. -/
theorem ne_nil_of_mem_pieces {n : Nat} {ns : List Nat} {piece : List Char}
    (h : piece ∈ (n :: ns).map (Nat.toDigits 10)) : piece ≠ [] := by
  obtain ⟨m, -, rfl⟩ := List.mem_map.1 h
  exact Nat.toDigits_ne_nil

/-- What begins with a letter is no build number. -/
theorem build?_of_isAlpha {c : Char} (h : c.isAlpha = true) (cs : List Char) : build? (c :: cs) = none := by
  unfold build?
  split
  · rename_i heq
    obtain ⟨rfl, -⟩ := List.cons.inj heq
    exact absurd h (by decide)
  · unfold number?
    rw [Text.decimal?_of_mem (Text.digitValue?_of_isAlpha h) (List.mem_cons_self ..)]
    rfl

/-- Pieces that are not empty are all kept. -/
theorem filter_pieces {pieces : List (List Char)} (h : ∀ piece ∈ pieces, piece ≠ []) :
    pieces.filter (!·.isEmpty) = pieces := by
  rw [List.filter_eq_self]
  intro piece hpiece
  rw [List.isEmpty_eq_false_iff.2 (h piece hpiece)]
  rfl

/-- If no piece between the points is empty, no point is stray. -/
theorem hasStrayPoint_of_pieces {cs : List Char} (h : ∀ piece ∈ Text.splitChars '.' cs, piece ≠ []) :
    hasStrayPoint cs = false := by
  have hany : (Text.splitChars '.' cs).any List.isEmpty = false := by
    rw [List.any_eq_false]
    intro piece hpiece
    rw [List.isEmpty_eq_false_iff.2 (h piece hpiece)]
    exact Bool.false_ne_true
  unfold hasStrayPoint
  rw [hany, Bool.false_and]

/-- The components of a text with points in front of its first hyphen, none of them stray, are read from the pieces
between them. -/
theorem ofChars_of_pieces {cs front : List Char} {back : Option (List Char)} {found : Front}
    (hcut : Text.cut '-' cs = (front, back)) (hpoint : '.' ∈ front)
    (hpieces : ∀ piece ∈ Text.splitChars '.' front, piece ≠ [])
    (hfound : front? (Text.splitChars '.' front) = some found) :
    ofChars cs =
      { major := found.major, minor := found.minor, incremental := found.incremental,
        build := (back.bind build?).getD 0,
        qualifier := (found.fourth.map String.ofList).or
          (back.bind fun cs => if (build? cs).isSome then none else some (String.ofList cs)) } := by
  have hcontains : front.contains '.' = true := List.contains_iff_mem.2 hpoint
  unfold ofChars
  rw [hcut]
  dsimp only
  rw [hcontains, filter_pieces hpieces, hfound, hasStrayPoint_of_pieces hpieces]
  rfl

/-- The components of a text that begins with numbers, where a letter follows the hyphen. -/
theorem ofChars_numbers {n : Nat} {ns : List Nat} (hlength : ns.length ≤ 2) (hlimit : ∀ m ∈ n :: ns, m ≤ limit)
    (htrimmed : (n :: ns).getLast? ≠ some 0) {back : Option (List Char)}
    (hback : ∀ cs, back = some cs → ∃ c rest, cs = c :: rest ∧ c.isAlpha = true) :
    ofChars (numberChars n ns ++ (back.map ('-' :: ·)).getD []) =
      { major := n, minor := ns.getD 0 0, incremental := ns.getD 1 0, qualifier := back.map String.ofList } := by
  have hbuild : ∀ cs, back = some cs → build? cs = none := by
    intro cs hcs
    obtain ⟨c, rest, rfl, hc⟩ := hback cs hcs
    exact build?_of_isAlpha hc rest
  have hnumber : back.bind build? = none := Option.bind_eq_none_iff.2 fun cs hcs => hbuild cs hcs
  have hqualifier : (back.bind fun cs => if (build? cs).isSome then none else some (String.ofList cs)) =
      back.map String.ofList := by
    cases back with
    | none => rfl
    | some cs =>
      rw [Option.bind_some, hbuild cs rfl]
      rfl
  cases ns with
  | nil =>
    -- a number without points is read at once, as it has no zero in front
    have hn : n ≠ 0 := fun hzero => htrimmed (congrArg some hzero)
    obtain ⟨d, ds, hds, hd⟩ := Text.toDigits_eq_cons hn
    have hfront : numberChars n [] = Nat.toDigits 10 n := List.append_nil _
    have hpoint : (numberChars n []).contains '.' = false := by
      rw [hfront]
      simpa using not_mem_toDigits rfl n
    have hhead : ((numberChars n []).head? == some '0') = false := by
      rw [hfront, hds]
      simpa using hd
    unfold ofChars
    rw [Text.cut_joined (hyphen_not_mem_numberChars n [])]
    dsimp only
    rw [hnumber, hqualifier, hpoint, hhead, hfront, number?_toDigits (hlimit n (List.mem_cons_self ..))]
    rfl
  | cons m ns =>
    -- the pieces between the points are numbers, none of them empty
    have hpoint : '.' ∈ numberChars n (m :: ns) := by
      unfold numberChars
      simp
    have hpieces : ∀ piece ∈ Text.splitChars '.' (numberChars n (m :: ns)), piece ≠ [] := by
      intro piece hpiece
      rw [splitChars_numberChars] at hpiece
      exact ne_nil_of_mem_pieces hpiece
    have hfound := front?_toDigits hlength hlimit
    rw [← splitChars_numberChars] at hfound
    rw [ofChars_of_pieces (Text.cut_joined (hyphen_not_mem_numberChars n (m :: ns)) back) hpoint hpieces hfound, hnumber,
      hqualifier]
    rfl

/-- A text that begins with a letter, without a point before its first hyphen, is nothing but a qualifier. -/
theorem ofChars_word {c : Char} {cs : List Char} (hc : c.isAlpha = true) (hpoint : '.' ∉ (Text.cut '-' (c :: cs)).1) :
    ofChars (c :: cs) = { qualifier := some (String.ofList (c :: cs)) } := by
  have hhyphen : (c == '-') = false := by
    refine beq_false_of_ne ?_
    rintro rfl
    exact absurd hc (by decide)
  have hcut : Text.cut '-' (c :: cs) = (c :: (Text.cut '-' cs).1, (Text.cut '-' cs).2) := by
    rw [Text.cut, hhyphen]
    rfl
  have hhead : ((c :: (Text.cut '-' cs).1).head? == some '0') = false := by
    refine beq_false_of_ne ?_
    rintro heq
    obtain rfl := Option.some.inj heq
    exact absurd hc (by decide)
  -- a letter is no digit, so that no number is read in front of the qualifier
  have hnumber : number? (c :: (Text.cut '-' cs).1) = none := by
    unfold number?
    rw [Text.decimal?_of_mem (Text.digitValue?_of_isAlpha hc) (List.mem_cons_self ..)]
    rfl
  rw [hcut] at hpoint
  have hcontains : (c :: (Text.cut '-' cs).1).contains '.' = false := by simpa using hpoint
  unfold ofChars
  rw [hcut]
  dsimp only
  rw [hcontains, hhead, hnumber]
  rfl

end Components

end VersionAudit
