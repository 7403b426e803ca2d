import VersionAudit.Proofs.Version.Components
import VersionAudit.Proofs.Version.Intervals

/-!
# Reading a set of intervals back

A set of intervals is written with brackets and commas, and with blanks wherever one likes between them. What is written
so is read as the same intervals, if they are in order and their bounds can be told from the text around them.

1. `Written`, `WrittenSet`: the texts of an interval and of a set of intervals. `Version.Writable`: what can be a bound.
2. `readInterval_of_written`: an interval is read back. `readIntervals_append`: an interval in front of others is read
   first.
3. `VersionRange.read_of_written`: a set of intervals is read back.
-/

namespace VersionAudit

open Text

/-! ## Texts of intervals -/

/-- A version that can be told from the text around it: it is not empty, has no blanks at its ends, and no brackets and
commas. -/
structure Version.Writable (v : Version) : Prop where
  nonempty : v.text ≠ ""
  trimmed : trim v.text = v.text
  plain : ∀ c ∈ ['[', ']', '(', ')', ','], c ∉ v.text.toList

instance (v : Version) : Decidable v.Writable :=
  decidable_of_iff (v.text ≠ "" ∧ trim v.text = v.text ∧
      (['[', ']', '(', ')', ','].all fun c => decide (c ∉ v.text.toList)) = true)
    ⟨fun h => ⟨h.1, h.2.1, fun c hc => of_decide_eq_true (List.all_eq_true.1 h.2.2 c hc)⟩,
      fun h => ⟨h.1, h.2, List.all_eq_true.2 fun c hc => decide_eq_true (h.3 c hc)⟩⟩

namespace Interval

/-- The text of a bound: a version, or nothing. -/
def boundChars (bound : Option Version) : List Char :=
  (bound.map (·.text.toList)).getD []

/-- The bracket before the lower bound. -/
def opening (inclusive : Bool) : Char :=
  if inclusive then '[' else '('

/-- The bracket behind the upper bound. -/
def closing (inclusive : Bool) : Char :=
  if inclusive then ']' else ')'

/-- The texts of an interval: two bounds with a comma between them, or one version that is both bounds. -/
inductive Written : Interval → List Char → Prop
  | single {v : Version} {inside : List Char} (hinside : Spaced v.text.toList inside) :
      Written ⟨some v, true, some v, true⟩ ('[' :: (inside ++ [']']))
  | pair {i : Interval} {low high : List Char} (hlow : Spaced (boundChars i.lower) low)
      (hhigh : Spaced (boundChars i.upper) high) :
      Written i (opening i.lowerInclusive :: (low ++ ',' :: high ++ [closing i.upperInclusive]))

/-- The texts of a set of intervals: those of the intervals with commas between them. -/
inductive WrittenSet : List Interval → List Char → Prop
  | last {i : Interval} {text cs : List Char} (hi : i.Written text) (hcs : Spaced text cs) : WrittenSet [i] cs
  | more {i : Interval} {parts : List Interval} {text cs rest : List Char} (hi : i.Written text)
      (hcs : Spaced text cs) (hrest : WrittenSet parts rest) : WrittenSet (i :: parts) (cs ++ ',' :: rest)

theorem trimChars_boundChars {bound : Option Version} (h : ∀ v, bound = some v → v.Writable) :
    trimChars (boundChars bound) = boundChars bound := by
  cases bound with
  | none => rfl
  | some v => exact trim_eq_self_iff.1 (h v rfl).trimmed

/-- A bound has none of the signs that intervals are written with. -/
theorem not_mem_boundChars {bound : Option Version} (h : ∀ v, bound = some v → v.Writable) {c : Char}
    (hc : c ∈ ['[', ']', '(', ')', ',']) : c ∉ boundChars bound := by
  cases bound with
  | none => exact List.not_mem_nil
  | some v => exact (h v rfl).plain c hc

/-- A text of an interval stands between brackets, and no bracket closes before its end. -/
theorem Written.exists_eq {i : Interval} {text : List Char} (h : i.Written text) (hi : ∀ v ∈ i.bounds, v.Writable) :
    ∃ o inside c, text = o :: (inside ++ [c]) ∧ (o = '[' ∨ o = '(') ∧ (c = ')' ∨ c = ']') ∧
      ')' ∉ inside ∧ ']' ∉ inside := by
  have hlower : ∀ v, i.lower = some v → v.Writable := fun v hv => hi v (mem_bounds_of_lower hv)
  have hupper : ∀ v, i.upper = some v → v.Writable := fun v hv => hi v (mem_bounds_of_upper hv)
  cases h with
  -- one version between square brackets
  | @single v inside hinside =>
    refine ⟨'[', inside, ']', rfl, .inl rfl, .inr rfl, ?_, ?_⟩
    · exact hinside.not_mem (by decide) ((hlower v rfl).plain _ (by decide))
    · exact hinside.not_mem (by decide) ((hlower v rfl).plain _ (by decide))
  -- two bounds with a comma, each between blanks
  | @pair _ low high hlow hhigh =>
    have hinside : ∀ c ∈ ['[', ']', '(', ')', ','], isBlank c = false → c ≠ ',' → c ∉ low ++ ',' :: high := by
      intro c hc hblank hcomma hmem
      rw [List.mem_append, List.mem_cons] at hmem
      rcases hmem with hmem | rfl | hmem
      · exact hlow.not_mem hblank (not_mem_boundChars hlower hc) hmem
      · exact hcomma rfl
      · exact hhigh.not_mem hblank (not_mem_boundChars hupper hc) hmem
    refine ⟨_, low ++ ',' :: high, _, rfl, ?_, ?_, ?_, ?_⟩
    · cases i.lowerInclusive with
      | true => exact .inl rfl
      | false => exact .inr rfl
    · cases i.upperInclusive with
      | true => exact .inr rfl
      | false => exact .inl rfl
    · exact hinside _ (by decide) (by decide) (by decide)
    · exact hinside _ (by decide) (by decide) (by decide)

theorem isBlank_opening {o : Char} (h : o = '[' ∨ o = '(') : isBlank o = false := by
  rcases h with rfl | rfl
  · decide
  · decide

theorem isBlank_closing {c : Char} (h : c = ')' ∨ c = ']') : isBlank c = false := by
  rcases h with rfl | rfl
  · decide
  · decide

end Interval

open VersionAudit.Interval

namespace VersionRange

/-! ## One interval -/

/-- A bound is read from its characters, with whatever blanks around them. -/
theorem bound?_of_trimChars {cs : List Char} {bound : Option Version} (h : trimChars cs = boundChars bound)
    (hbound : ∀ v, bound = some v → v.Writable) : bound? cs = bound := by
  unfold bound?
  rw [h]
  cases bound with
  | none => rfl
  | some v =>
    have hne : v.text.toList ≠ [] := by
      rw [Ne, String.toList_eq_nil_iff]
      exact (hbound v rfl).nonempty
    have hchars : boundChars (some v) = v.text.toList := rfl
    rw [hchars]
    split
    · rename_i hnil
      exact absurd hnil hne
    · rw [String.ofList_toList]

/-- The text between the brackets of an interval. -/
theorem dropLast_drop_brackets (o : Char) (inside : List Char) (c : Char) :
    ((o :: (inside ++ [c])).drop 1).dropLast = inside ∧ (o :: (inside ++ [c])).getLast? = some c := by
  constructor
  · rw [List.drop_one, List.tail_cons, List.dropLast_concat]
  · rw [← List.cons_append, List.getLast?_concat]

/-- A written interval is read as it is, unless its bounds are the wrong way round. -/
theorem readInterval_of_written {i : Interval} {text : List Char} (h : i.Written text)
    (hi : ∀ v ∈ i.bounds, v.Writable) (hupright : i.Upright) : readInterval text = .ok i := by
  have hlower : ∀ v, i.lower = some v → v.Writable := fun v hv => hi v (mem_bounds_of_lower hv)
  have hupper : ∀ v, i.upper = some v → v.Writable := fun v hv => hi v (mem_bounds_of_upper hv)
  cases h with
  | @single v inside hinside =>
    have hwritable := hlower v rfl
    have htrim : trimChars inside = v.text.toList := by
      rw [hinside.trimChars_eq]
      exact trim_eq_self_iff.1 hwritable.trimmed
    have hcut : cut ',' v.text.toList = (v.text.toList, none) := by
      have hjoined := cut_joined (hwritable.plain ',' (by decide)) none
      rwa [Option.map_none, Option.getD_none, List.append_nil] at hjoined
    rcases dropLast_drop_brackets '[' inside ']' with ⟨hdrop, hlast⟩
    unfold readInterval
    dsimp only
    rw [hdrop, hlast, htrim, hcut]
    dsimp only
    rw [String.ofList_toList]
    rfl
  | @pair _ low high hlow hhigh =>
    have hcomma : ',' ∉ trimFront low := by
      intro hmem
      exact hlow.not_mem (by decide) (not_mem_boundChars hlower (by decide)) ((List.dropWhile_sublist _).mem hmem)
    -- the blanks inside stay with the bounds, and are removed there
    have hcut : cut ',' (trimChars (low ++ ',' :: high)) = (trimFront low, some (trimBack high)) := by
      rw [trimChars_append_cons (by decide)]
      exact cut_joined hcomma (some (trimBack high))
    have hlow : bound? (trimFront low) = i.lower := by
      refine bound?_of_trimChars ?_ hlower
      rw [trimChars_trimFront, hlow.trimChars_eq, trimChars_boundChars hlower]
    have hhigh : bound? (trimBack high) = i.upper := by
      refine bound?_of_trimChars ?_ hupper
      rw [trimChars_trimBack, hhigh.trimChars_eq, trimChars_boundChars hupper]
    have hopening : (some (opening i.lowerInclusive) == some '[') = i.lowerInclusive := by
      cases i.lowerInclusive <;> rfl
    have hclosing : (some (closing i.upperInclusive) == some ']') = i.upperInclusive := by
      cases i.upperInclusive <;> rfl
    rcases dropLast_drop_brackets (opening i.lowerInclusive) (low ++ ',' :: high) (closing i.upperInclusive) with
      ⟨hdrop, hlast⟩
    unfold readInterval
    dsimp only
    rw [hdrop, hlast, hcut, List.head?_cons, hopening, hclosing]
    dsimp only
    rw [hlow, hhigh]
    split
    · rename_i l u hl hu
      rw [hupright l u hl hu]
      rfl
    · rfl

/-! ## All intervals -/

/-- An interval is cut off behind its first closing bracket. -/
theorem cutInterval_append {front : List Char} (hround : ')' ∉ front) (hsquare : ']' ∉ front) {c : Char}
    (hc : c = ')' ∨ c = ']') (rest : List Char) : cutInterval (front ++ c :: rest) = some (front ++ [c], rest) := by
  induction front with
  | nil =>
    have hclose : (c == ')' || c == ']') = true := by simpa using hc
    rw [List.nil_append, cutInterval, if_pos hclose, List.nil_append]
  | cons d front ih =>
    rw [List.mem_cons, not_or] at hround hsquare
    have hinside : ¬ (d == ')' || d == ']') = true := by
      simp only [Bool.or_eq_true, beq_iff_eq, not_or]
      exact ⟨Ne.symm hround.1, Ne.symm hsquare.1⟩
    rw [List.cons_append, cutInterval, if_neg hinside, ih hround.2 hsquare.2]
    rfl

section Step

variable {i : Interval} {text : List Char} (h : i.Written text) (hi : ∀ v ∈ i.bounds, v.Writable)

include h hi

/-- There is nothing to trim around a written interval. -/
theorem trimChars_of_written : trimChars text = text := by
  obtain ⟨o, inside, c, rfl, ho, hc, -, -⟩ := h.exists_eq hi
  rw [trimChars_eq_self_iff]
  constructor
  · intro d hd
    obtain rfl := Option.some.inj hd
    exact isBlank_opening ho
  · intro d hd
    rw [(dropLast_drop_brackets o inside c).2] at hd
    obtain rfl := Option.some.inj hd
    exact isBlank_closing hc

/-- The text of an interval in front of others is read as this interval and the others. -/
theorem readIntervals_append (hupright : i.Upright) {previous : Option Version}
    (hprevious : overlaps previous i = false) {spec : String} {fuel : Nat} {rest left : List Char}
    {more : List Interval} (hmore : readIntervals spec fuel i.upper (afterInterval rest) = .ok (more, left)) :
    readIntervals spec (fuel + 1) previous (text ++ rest) = .ok (i :: more, left) := by
  have hread := readInterval_of_written h hi hupright
  obtain ⟨o, inside, c, rfl, ho, hc, hround, hsquare⟩ := h.exists_eq hi
  have hopen : ((o :: (inside ++ [c]) ++ rest).head? == some '[' ||
      (o :: (inside ++ [c]) ++ rest).head? == some '(') = true := by
    simpa using ho
  -- no bracket closes inside, so that the interval is cut off where it ends
  have hcut : cutInterval (o :: (inside ++ [c]) ++ rest) = some (o :: (inside ++ [c]), rest) := by
    have hfront : ∀ d, d = ')' ∨ d = ']' → d ∉ inside → d ∉ o :: inside := by
      intro d hd hinside hmem
      rcases List.mem_cons.1 hmem with rfl | hmem
      · rcases ho with rfl | rfl
        · exact absurd hd (by decide)
        · exact absurd hd (by decide)
      · exact hinside hmem
    have happend := cutInterval_append (hfront ')' (.inl rfl) hround) (hfront ']' (.inr rfl) hsquare) hc rest
    simpa using happend
  unfold readIntervals
  rw [if_pos hopen, hcut]
  dsimp only
  rw [hread]
  show (if overlaps previous i = true then _ else _) = _
  rw [hprevious, if_neg Bool.false_ne_true, hmore]
  rfl

end Step

theorem readIntervals_nil (spec : String) (fuel : Nat) (previous : Option Version) :
    readIntervals spec fuel previous [] = .ok ([], []) := by
  cases fuel with
  | zero => rfl
  | succ fuel => rfl

/-- Behind an interval the comma is passed over, with the blanks around it. -/
theorem afterInterval_comma {after : List Char} (hafter : ∀ c ∈ after, isBlank c = true) (rest : List Char) :
    afterInterval (after ++ ',' :: trimBack rest) = trimChars rest := by
  have hnone : trimFront after = [] := List.dropWhile_eq_nil_iff.2 hafter
  have htrim : trimChars (after ++ ',' :: trimBack rest) = ',' :: trimBack (trimBack rest) := by
    rw [trimChars_append_cons (by decide), hnone, List.nil_append]
  unfold afterInterval
  rw [htrim]
  show trimChars (trimBack (trimBack rest)) = trimChars rest
  rw [trimChars_trimBack, trimChars_trimBack]

/-- The written intervals of an ordered set are read one after the other. -/
theorem readIntervals_of_written {parts : List Interval} {cs : List Char} (h : WrittenSet parts cs)
    (hwritable : ∀ i ∈ parts, ∀ v ∈ i.bounds, v.Writable) (hordered : WellOrdered parts) {previous : Option Version}
    (hprevious : ∀ i, parts.head? = some i → overlaps previous i = false) (spec : String) {fuel : Nat}
    (hfuel : (trimChars cs).length ≤ fuel) :
    readIntervals spec fuel previous (trimChars cs) = .ok (parts, []) := by
  -- by the way the set is written; each interval takes one unit of fuel and at least one character
  induction h generalizing previous fuel with
  | @last i text cs hi hcs =>
    have hbounds := hwritable i List.mem_cons_self
    have htrim : trimChars cs = text := by
      rw [hcs.trimChars_eq, trimChars_of_written hi hbounds]
    obtain ⟨o, inside, c, htext, -⟩ := hi.exists_eq hbounds
    rw [htrim, htext, List.length_cons] at hfuel
    obtain ⟨fuel, rfl⟩ : ∃ n, fuel = n + 1 := Nat.exists_eq_add_of_le' (by omega)
    have hnil : readIntervals spec fuel i.upper (afterInterval []) = .ok ([], []) := readIntervals_nil spec fuel i.upper
    have hstep := readIntervals_append hi hbounds (hordered.upright i List.mem_cons_self) (hprevious i rfl) hnil
    rw [List.append_nil] at hstep
    rw [htrim, hstep]
  | @more i parts text cs rest hi hcs hrest ih =>
    have hbounds := hwritable i List.mem_cons_self
    obtain ⟨before, after, hbefore, hafter, rfl⟩ := hcs
    obtain ⟨o, inside, c, htext, ho, -⟩ := hi.exists_eq hbounds
    -- the text without the blanks in front and at the end of the whole: the interval, and what follows up to there
    have htrim : trimChars (before ++ text ++ after ++ ',' :: rest) = text ++ (after ++ ',' :: trimBack rest) := by
      have hfront : trimFront (before ++ text ++ after) = text ++ after := by
        have hnone : trimFront before = [] := List.dropWhile_eq_nil_iff.2 hbefore
        rw [htext, List.append_assoc, List.cons_append, trimFront_append_cons (isBlank_opening ho), hnone,
          List.nil_append]
      rw [trimChars_append_cons (by decide), hfront, List.append_assoc]
    have hlength : (trimChars rest).length ≤ (trimBack rest).length := by
      rw [← trimChars_trimBack]
      exact length_trimChars_le (trimBack rest)
    rw [htrim] at hfuel ⊢
    rw [htext] at hfuel
    simp only [List.length_append, List.length_cons] at hfuel
    obtain ⟨fuel, rfl⟩ : ∃ n, fuel = n + 1 := Nat.exists_eq_add_of_le' (by omega)
    have hnext : ∀ j, parts.head? = some j → overlaps i.upper j = false := by
      intro j hj
      cases parts with
      | nil => cases hj
      | cons k parts =>
        obtain rfl := Option.some.inj hj
        exact overlaps_eq_false_iff.2 hordered.precedes
    have hless : (trimChars rest).length ≤ fuel := by omega
    have hmore := ih (fun j hj => hwritable j (List.mem_cons_of_mem i hj)) hordered.tail hnext hless
    rw [← afterInterval_comma hafter] at hmore
    exact readIntervals_append hi hbounds (hordered.upright i List.mem_cons_self) (hprevious i rfl) hmore

/-- A set of intervals in order is read back from each of its texts. -/
theorem read_of_written {spec : String} {parts : List Interval} (h : WrittenSet parts spec.toList)
    (hwritable : ∀ i ∈ parts, ∀ v ∈ i.bounds, v.Writable) (hordered : WellOrdered parts) :
    read spec = .ok ⟨spec, .intervals parts⟩ := by
  have hnothing : ∀ i, parts.head? = some i → overlaps none i = false := fun _ _ => rfl
  have hparts := readIntervals_of_written h hwritable hordered hnothing spec (Nat.le_succ _)
  have hne : (trimChars spec.toList).isEmpty = false := by
    rw [List.isEmpty_eq_false_iff]
    intro hnil
    rw [hnil, readIntervals_nil] at hparts
    obtain ⟨rfl, -⟩ := Prod.mk.inj (Except.ok.inj hparts)
    cases h
  unfold read
  dsimp only
  rw [hne, if_neg Bool.false_ne_true, hparts]
  rfl

/-- Three intervals, with blanks around some of the tokens. -/
theorem read_of_written_blanks :
    ∃ parts, WrittenSet parts " [ 1.0 , 2.0 ) ,[2.0], (3,)".toList ∧ WellOrdered parts ∧
      (∀ i ∈ parts, ∀ v ∈ i.bounds, v.Writable) ∧
      read " [ 1.0 , 2.0 ) ,[2.0], (3,)" = .ok ⟨" [ 1.0 , 2.0 ) ,[2.0], (3,)", .intervals parts⟩ := by
  have hblank : ∀ c ∈ [' '], isBlank c = true := List.forall_mem_singleton.2 rfl
  have hspaced : ∀ text : List Char, Spaced text text := fun text => ⟨[], [], by simp⟩
  have hblanks : ∀ text : List Char, Spaced text (' ' :: (text ++ [' '])) :=
    fun text => ⟨[' '], [' '], hblank, hblank, rfl⟩
  have hfirst : Written ⟨some ⟨"1.0"⟩, true, some ⟨"2.0"⟩, false⟩ "[ 1.0 , 2.0 )".toList :=
    .pair (hblanks _) (hblanks _)
  have hsecond : Written ⟨some ⟨"2.0"⟩, true, some ⟨"2.0"⟩, true⟩ "[2.0]".toList := .single (hspaced _)
  have hthird : Written ⟨some ⟨"3"⟩, false, none, false⟩ "(3,)".toList := .pair (hspaced _) (hspaced _)
  have hset := WrittenSet.more hfirst (hblanks _)
    (.more hsecond (hspaced _) (.last hthird ⟨[' '], [], hblank, List.forall_mem_nil _, rfl⟩))
  refine ⟨_, hset, by decide +kernel, by decide +kernel, ?_⟩
  exact read_of_written hset (by decide +kernel) (by decide +kernel)

end VersionRange

end VersionAudit
