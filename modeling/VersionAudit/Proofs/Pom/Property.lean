import VersionAudit.Pom.Property
import VersionAudit.Proofs.OrderedMap
import VersionAudit.Proofs.Text.Split

/-!
# The meaning of a value

References are replaced in a flat text, the first one first, and what stands for a reference is looked through from its
beginning. What a value means is a matter of its parts: text stands for itself, and a reference for the meaning of the
property of that name.

1. `Piece`: a part of a value. `written`: the value of some parts.
2. `Expands`: the meaning of some parts, with the number of references that are replaced on the way, also inside of
   the values of properties. `expands_reference_iff`: a reference is as good as what stands for it.
3. `Reference.first_writtenChars`: where the first reference stands in a value.
4. `expand_writtenChars`: replacing references gives the meaning, unless it takes more of them than allowed.
   `first_of_expand`: no reference begins in what is left.
5. `resolve_eq_meaning`: what a value is resolved to.
-/

namespace VersionAudit.Pom

/-! ## Parts of a value -/

/-- A character that neither begins nor ends a reference. -/
def isPlain (c : Char) : Bool :=
  c != '$' && c != openingBrace && c != closingBrace

/-- A text without references and without parts of them. -/
structure PlainText where
  chars : List Char
  plain : ∀ c ∈ chars, isPlain c = true

/-- A part of a value: a text, or a reference to a property. -/
inductive Piece
  | literal (text : PlainText)
  | reference (name : PlainText)

/-- How a part is written. -/
def Piece.chars : Piece → List Char
  | .literal text => text.chars
  | .reference name => '$' :: openingBrace :: (name.chars ++ [closingBrace])

/-- The characters of a value of some parts. -/
def writtenChars (pieces : List Piece) : List Char :=
  pieces.flatMap Piece.chars

/-- The value of some parts. -/
def written (pieces : List Piece) : String :=
  String.ofList (writtenChars pieces)

/-- Every property is set to a value of such parts. -/
def Properties.WellFormed (properties : Properties) : Prop :=
  ∀ name value, properties.find? name = some value → ∃ pieces, value = written pieces

/-- The meaning of some parts, with the number of references that are replaced to get it. A property that is not set, or
one whose value leads back to it, has no meaning. -/
inductive Expands (properties : Properties) : List Piece → Nat → List Char → Prop
  | done : Expands properties [] 0 []
  | literal {pieces : List Piece} {n : Nat} {out : List Char} (text : PlainText) (rest : Expands properties pieces n out) :
    Expands properties (.literal text :: pieces) n (text.chars ++ out)
  | reference {name : PlainText} {value pieces : List Piece} {m n : Nat} {inner out : List Char}
    (set : properties.find? (String.ofList name.chars) = some (written value)) (within : Expands properties value m inner)
    (rest : Expands properties pieces n out) :
    Expands properties (.reference name :: pieces) (m + n + 1) (inner ++ out)

variable {properties : Properties}

/-- A row of pieces is expanded part by part, with as many replacements as both parts take. -/
theorem expands_append_iff {front back : List Piece} {n : Nat} {out : List Char} :
    Expands properties (front ++ back) n out ↔
      ∃ m k a b, Expands properties front m a ∧ Expands properties back k b ∧ n = m + k ∧ out = a ++ b := by
  constructor
  · intro h
    -- piece by piece of the first part
    induction front generalizing n out with
    | nil => exact ⟨0, n, [], out, .done, h, (Nat.zero_add n).symm, rfl⟩
    | cons piece front ih =>
      rw [List.cons_append] at h
      cases h with
      | literal text rest =>
        obtain ⟨m, k, a, b, ha, hb, rfl, rfl⟩ := ih rest
        exact ⟨m, k, _, b, .literal text ha, hb, rfl, (List.append_assoc ..).symm⟩
      | reference set within rest =>
        obtain ⟨m, k, a, b, ha, hb, rfl, rfl⟩ := ih rest
        exact ⟨_, k, _, b, .reference set within ha, hb, by omega, (List.append_assoc ..).symm⟩
  · rintro ⟨m, k, a, b, ha, hb, rfl, rfl⟩
    induction ha with
    | done => simpa using hb
    | literal text _ ih =>
      rw [List.append_assoc]
      exact .literal text ih
    | reference set within _ _ ih =>
      rw [List.append_assoc, show ∀ i j : Nat, i + j + 1 + k = i + (j + k) + 1 by omega]
      exact .reference set within ih

/-- The meaning of a reference and of what is behind it is that of the value and of what is behind it. -/
theorem expands_reference_iff {name : PlainText} {value : String} {pieces : List Piece} {k : Nat} {out : List Char}
    (hvalue : properties.find? (String.ofList name.chars) = some value) :
    Expands properties (.reference name :: pieces) k out ↔
      ∃ inner n, value = written inner ∧ k = n + 1 ∧ Expands properties (inner ++ pieces) n out := by
  constructor
  · intro h
    cases h with
    | reference set within rest =>
      exact ⟨_, _, Option.some_inj.1 (hvalue.symm.trans set), rfl,
        expands_append_iff.2 ⟨_, _, _, _, within, rest, rfl, rfl⟩⟩
  · rintro ⟨inner, n, rfl, rfl, h⟩
    obtain ⟨m, k, a, b, ha, hb, rfl, rfl⟩ := expands_append_iff.1 h
    exact .reference hvalue ha hb

theorem writtenChars_append (front back : List Piece) :
    writtenChars (front ++ back) = (written front).toList ++ writtenChars back := by
  unfold written writtenChars
  rw [String.toList_ofList, List.flatMap_append]

/-! ## The first reference -/

/-- A plain text says nothing about the references behind it. -/
theorem Reference.first_plain_append {front : List Char} (h : ∀ c ∈ front, isPlain c = true) (cs : List Char) :
    Reference.first (front ++ cs) =
      match Reference.first cs with
      | .found before name back => .found (front ++ before) name back
      | other => other := by
  induction front with
  | nil => cases hfirst : Reference.first cs <;> simp [hfirst]
  | cons c front ih =>
    rw [List.forall_mem_cons] at h
    have hc : (c == '$') = false := by
      have hplain := h.1
      unfold isPlain at hplain
      simp only [Bool.and_eq_true, bne_iff_ne] at hplain
      exact beq_false_of_ne hplain.1.1
    rw [List.cons_append, Reference.first, hc, ih h.2]
    cases Reference.first cs <;> rfl

/-- No reference begins in plain characters. -/
theorem Reference.first_plain {cs : List Char} (h : ∀ c ∈ cs, isPlain c = true) : Reference.first cs = .absent := by
  have hfirst := Reference.first_plain_append h []
  rwa [List.append_nil] at hfirst

/-- A reference ends where its name ends. -/
theorem Reference.first_chars (name : PlainText) (back : List Char) :
    Reference.first ((Piece.reference name).chars ++ back) = .found [] name.chars back := by
  have hclosing : closingBrace ∉ name.chars := fun hmem => absurd (name.plain _ hmem) (by decide)
  have hcut : Text.cut closingBrace (name.chars ++ closingBrace :: back) = (name.chars, some back) :=
    Text.cut_joined hclosing (some back)
  have hchars : (Piece.reference name).chars ++ back =
      '$' :: openingBrace :: (name.chars ++ closingBrace :: back) := by
    simp [Piece.chars]
  rw [hchars, Reference.first, List.head?_cons, beq_self_eq_true, beq_self_eq_true, List.tail_cons, hcut]
  rfl

/-- Where no reference is found, none begins. -/
theorem not_infix_of_first {cs : List Char} (h : Reference.first cs = .absent) : ¬ ['$', openingBrace] <:+: cs := by
  -- a reference that begins later is found later
  induction cs with
  | nil => simp
  | cons c cs ih =>
    unfold Reference.first at h
    split at h
    · split at h <;> cases h
    · rename_i hopens
      have hrest : Reference.first cs = .absent := by
        cases hfirst : Reference.first cs with
        | absent => rfl
        | unfinished =>
          rw [hfirst] at h
          cases h
        | found front name back =>
          rw [hfirst] at h
          cases h
      rw [List.infix_cons_iff]
      rintro (hbegins | hinner)
      · obtain ⟨back, hback⟩ := hbegins
        obtain ⟨rfl, rfl⟩ := List.cons.inj hback
        exact hopens rfl
      · exact ih hrest hinner

/-! ## Replacing references -/

/-- A plain text is left as it is. -/
theorem expand_plain {cs : List Char} (h : ∀ c ∈ cs, isPlain c = true) (limit : Nat) :
    expand properties limit cs = some cs := by
  have hfirst := Reference.first_plain h
  cases limit with
  | zero => rw [expand, hfirst]
  | succ limit => rw [expand, hfirst]

/-- Where the first reference of a value of some parts stands. -/
theorem Reference.first_writtenChars {front : List Char} (h : ∀ c ∈ front, isPlain c = true) (name : PlainText)
    (pieces : List Piece) :
    Reference.first (front ++ writtenChars (.reference name :: pieces)) = .found front name.chars (writtenChars pieces) := by
  have hwritten : writtenChars (.reference name :: pieces) = (Piece.reference name).chars ++ writtenChars pieces :=
    List.flatMap_cons ..
  rw [Reference.first_plain_append h, hwritten, Reference.first_chars]
  dsimp only
  rw [List.append_nil]

/-- Replacing references in some parts behind a plain text gives their meaning, if that does not take too many of
them. -/
theorem expand_writtenChars (h : properties.WellFormed) : ∀ (limit : Nat) (pieces : List Piece) {front : List Char}
    (_ : ∀ c ∈ front, isPlain c = true) (out : List Char),
    expand properties limit (front ++ writtenChars pieces) = some out ↔
      ∃ n ≤ limit, ∃ meaning, Expands properties pieces n meaning ∧ out = front ++ meaning
  | limit, [], front, hfront, out => by
    have hwritten : front ++ writtenChars [] = front := List.append_nil front
    rw [hwritten, expand_plain hfront, Option.some_inj]
    constructor
    · rintro rfl
      exact ⟨0, Nat.zero_le limit, [], .done, (List.append_nil _).symm⟩
    · rintro ⟨n, -, meaning, hmeaning, rfl⟩
      cases hmeaning
      exact (List.append_nil front).symm
  | limit, .literal text :: pieces, front, hfront, out => by
    -- the text is plain, so it goes to the front
    have hwritten : front ++ writtenChars (.literal text :: pieces) = front ++ text.chars ++ writtenChars pieces := by
      rw [List.append_assoc]
      rfl
    rw [hwritten, expand_writtenChars h limit pieces (List.forall_mem_append.2 ⟨hfront, text.plain⟩) out]
    constructor
    · rintro ⟨n, hn, meaning, hmeaning, rfl⟩
      exact ⟨n, hn, _, .literal text hmeaning, List.append_assoc ..⟩
    · rintro ⟨n, hn, meaning, hmeaning, rfl⟩
      cases hmeaning with
      | literal _ rest => exact ⟨n, hn, _, rest, (List.append_assoc ..).symm⟩
  | 0, .reference name :: pieces, front, hfront, out => by
    rw [expand, Reference.first_writtenChars hfront]
    constructor
    · intro hnone
      cases hnone
    · rintro ⟨n, hn, meaning, hmeaning, -⟩
      cases hmeaning
      omega
  | limit + 1, .reference name :: pieces, front, hfront, out => by
    rw [expand, Reference.first_writtenChars hfront]
    dsimp only
    cases hvalue : properties.find? (String.ofList name.chars) with
    | none =>
      constructor
      · intro hnone
        cases hnone
      · rintro ⟨n, hn, meaning, hmeaning, -⟩
        cases hmeaning with
        | reference set _ _ => cases hvalue.symm.trans set
    | some value =>
      dsimp only
      -- the value is looked through together with what is behind the reference, whatever parts it is taken for
      have hstep : ∀ inner, value = written inner →
          (expand properties limit (front ++ value.toList ++ writtenChars pieces) = some out ↔
            ∃ n ≤ limit, ∃ meaning, Expands properties (inner ++ pieces) n meaning ∧ out = front ++ meaning) := by
        rintro inner rfl
        rw [List.append_assoc, ← writtenChars_append]
        exact expand_writtenChars h limit (inner ++ pieces) hfront out
      constructor
      · intro hexpand
        obtain ⟨inner, rfl⟩ := h _ _ hvalue
        obtain ⟨n, hn, meaning, hmeaning, rfl⟩ := (hstep inner rfl).1 hexpand
        exact ⟨n + 1, Nat.succ_le_succ hn, meaning, (expands_reference_iff hvalue).2 ⟨inner, n, rfl, rfl, hmeaning⟩, rfl⟩
      · rintro ⟨_, hn, meaning, hmeaning, rfl⟩
        obtain ⟨inner, n, hinner, rfl, hwithin⟩ := (expands_reference_iff hvalue).1 hmeaning
        exact (hstep inner hinner).2 ⟨n, Nat.le_of_succ_le_succ hn, meaning, hwithin, rfl⟩
termination_by limit pieces => (limit, pieces.length)

/-- In what is left no reference begins. -/
theorem first_of_expand {limit : Nat} {cs out : List Char} (h : expand properties limit cs = some out) :
    Reference.first out = .absent := by
  -- each round replaces one reference, and the last one finds none
  induction limit generalizing cs with
  | zero =>
    rw [expand] at h
    split at h
    · rename_i habsent
      rwa [← Option.some_inj.1 h]
    · cases h
  | succ limit ih =>
    rw [expand] at h
    split at h
    · rename_i habsent
      rwa [← Option.some_inj.1 h]
    · cases h
    · split at h
      · cases h
      · exact ih h

/-- In a table of values made of text and references, a value made of these has its meaning, if all that it leads to is
set and at most ten references are replaced on the way, and else none. Whatever the table and the value are, no
reference begins in a meaning. -/
theorem resolve_eq_meaning :
    (∀ properties : Properties, properties.WellFormed → ∀ pieces,
      (∀ out, resolve properties (written pieces) = some out ↔ ∃ n ≤ 10, Expands properties pieces n out.toList) ∧
      (resolve properties (written pieces) = none ↔ ∀ n out, Expands properties pieces n out → 10 < n)) ∧
    ∀ (properties : Properties) (value out : String), resolve properties value = some out →
      ¬ ['$', openingBrace] <:+: out.toList := by
  refine ⟨fun properties h pieces => ?_, fun properties value out hout => ?_⟩
  -- ten rounds replace up to ten references, in whatever order they are met
  · have hexpand : ∀ cs, expand properties 10 (written pieces).toList = some cs ↔
        ∃ n ≤ 10, Expands properties pieces n cs := by
      intro cs
      have hstart := expand_writtenChars h 10 pieces (List.forall_mem_nil _) cs
      unfold written
      rw [String.toList_ofList]
      simpa using hstart
    have hmeaning : ∀ out, resolve properties (written pieces) = some out ↔
        ∃ n ≤ 10, Expands properties pieces n out.toList := by
      intro out
      rw [← hexpand]
      unfold resolve usualLimit
      rw [Option.map_eq_some_iff]
      constructor
      · rintro ⟨cs, hcs, rfl⟩
        rwa [String.toList_ofList]
      · exact fun hcs => ⟨_, hcs, String.ofList_toList⟩
    refine ⟨hmeaning, ?_⟩
    rw [Option.eq_none_iff_forall_ne_some]
    constructor
    · intro hnone n out hout
      by_contra hle
      refine hnone (String.ofList out) ((hmeaning _).2 ⟨n, Nat.le_of_not_lt hle, ?_⟩)
      rwa [String.toList_ofList]
    · intro hmany out hout
      obtain ⟨n, hn, hexpands⟩ := (hmeaning out).1 hout
      exact absurd (hmany n _ hexpands) (Nat.not_lt.2 hn)
  · obtain ⟨cs, hcs, rfl⟩ := Option.map_eq_some_iff.1 hout
    rw [String.toList_ofList]
    exact not_infix_of_first (first_of_expand hcs)

/-! ## A version put together -/

namespace Assembled

def major : PlainText := ⟨['m', 'a', 'j', 'o', 'r'], List.all_eq_true.1 rfl⟩

def version : PlainText := ⟨['v', 'e', 'r', 's', 'i', 'o', 'n'], List.all_eq_true.1 rfl⟩

def loop : PlainText := ⟨['l', 'o', 'o', 'p'], List.all_eq_true.1 rfl⟩

def final : PlainText := ⟨['-', 'f', 'i', 'n', 'a', 'l'], List.all_eq_true.1 rfl⟩

def two : PlainText := ⟨['2'], List.all_eq_true.1 rfl⟩

def minor : PlainText := ⟨['.', '1'], List.all_eq_true.1 rfl⟩

/-- The version refers to its first number, and the last property to itself. -/
def table : Properties :=
  .ofList [("major", written [.literal two]), ("version", written [.reference major, .literal minor]),
    ("loop", written [.reference loop])]

/-- The values of the table are made of text and references. -/
theorem wellFormed_table : table.WellFormed := by
  intro name value hvalue
  obtain ⟨key, hmem, -⟩ := OrderedMap.exists_mem_of_find? hvalue
  have hentries : table.entries = [("major", written [.literal two]),
      ("version", written [.reference major, .literal minor]), ("loop", written [.reference loop])] := by
    decide +kernel
  rw [hentries] at hmem
  simp only [List.mem_cons, Prod.mk.injEq, List.not_mem_nil, or_false] at hmem
  rcases hmem with ⟨-, rfl⟩ | ⟨-, rfl⟩ | ⟨-, rfl⟩
  · exact ⟨_, rfl⟩
  · exact ⟨_, rfl⟩
  · exact ⟨_, rfl⟩

/-- A reference inside of a value is replaced as well, and a property that leads back to itself has no meaning. -/
theorem resolve_eq_meaning_assembled :
    table.WellFormed ∧
      (∃ n ≤ 10, Expands table [.reference version, .literal final] n "2.1-final".toList) ∧
      ∀ n out, Expands table [.reference loop] n out → 10 < n := by
  obtain ⟨hsome, -⟩ := resolve_eq_meaning.1 table wellFormed_table [.reference version, .literal final]
  obtain ⟨-, hnone⟩ := resolve_eq_meaning.1 table wellFormed_table [.reference loop]
  exact ⟨wellFormed_table, (hsome "2.1-final").1 (by decide +kernel), hnone.1 (by decide +kernel)⟩

end Assembled

end VersionAudit.Pom
