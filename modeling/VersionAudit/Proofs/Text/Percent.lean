import Mathlib.Data.List.Basic
import VersionAudit.Text.Percent

/-!
# Reading percent encoding

1. `percentBytes_percentChar_append`: the encoding of a character stands for the bytes of the character.
   `percentDecode?_percentEncode`: so an encoded text is decoded to the text. `percentEncode_injective`: no two texts have
   the same encoding.
2. `Escaped`: a text of escapes and of characters that need none. `escaped_percentEncode`: encoded texts are of this form.
-/

namespace VersionAudit.Text

variable {exempt : List Char}

/-! ## Decoding -/

theorem hexValue?_upperHexDigit {n : Nat} (h : n < 16) : hexValue? (upperHexDigit n) = some n := by
  revert n
  decide

/-- An escaped byte is decoded to itself, whatever follows. -/
theorem percentBytes_escapeByte_append (b : UInt8) (rest : List Char) :
    percentBytes (escapeByte b ++ rest) = b :: percentBytes rest := by
  have hsize : b.toNat < 256 := b.toNat_lt
  have hhigh : b.toNat / 16 < 16 := by omega
  have hlow : b.toNat % 16 < 16 := by omega
  have hjoin : b.toNat / 16 * 16 + b.toNat % 16 = b.toNat := by omega
  unfold escapeByte
  rw [List.cons_append, List.cons_append, List.cons_append, List.nil_append, percentBytes,
    hexValue?_upperHexDigit hhigh, hexValue?_upperHexDigit hlow]
  dsimp only
  rw [hjoin, UInt8.ofNat_toNat]

/-- So are several escaped bytes. -/
theorem percentBytes_flatMap_escapeByte_append (bytes : List UInt8) (rest : List Char) :
    percentBytes (bytes.flatMap escapeByte ++ rest) = bytes ++ percentBytes rest := by
  induction bytes with
  | nil => rfl
  | cons b bytes ih =>
    rw [List.flatMap_cons, List.append_assoc, percentBytes_escapeByte_append, ih, List.cons_append]

/-- Outside escapes a character stands for itself. -/
theorem percentBytes_cons_of_ne {c : Char} (h : c ≠ '%') (rest : List Char) :
    percentBytes (c :: rest) = String.utf8EncodeChar c ++ percentBytes rest := by
  rw [percentBytes]
  rintro _ _ _ rfl
  exact absurd rfl h

theorem ne_percent_of_isUnreserved {c : Char} (h : isUnreserved c = true) : c ≠ '%' := by
  rintro rfl
  revert h
  decide

/-- An encoded character is decoded to its bytes, whatever follows. -/
theorem percentBytes_percentChar_append (h : '%' ∉ exempt) (c : Char) (rest : List Char) :
    percentBytes (percentChar exempt c ++ rest) = String.utf8EncodeChar c ++ percentBytes rest := by
  unfold percentChar
  split
  · rename_i hplain
    rw [Bool.or_eq_true, List.contains_iff_mem] at hplain
    -- a character that is left as it is must not be the sign of escapes
    have hne : c ≠ '%' := by
      rcases hplain with hunreserved | hexempt
      · exact ne_percent_of_isUnreserved hunreserved
      · rintro rfl
        exact h hexempt
    exact percentBytes_cons_of_ne hne rest
  · exact percentBytes_flatMap_escapeByte_append _ rest

theorem percentBytes_flatMap_percentChar (h : '%' ∉ exempt) (cs : List Char) :
    percentBytes (cs.flatMap (percentChar exempt)) = cs.flatMap String.utf8EncodeChar := by
  induction cs with
  | nil => rfl
  | cons c cs ih => rw [List.flatMap_cons, percentBytes_percentChar_append h, ih, List.flatMap_cons]

/-- An encoded text is decoded to the text. -/
theorem percentDecode?_percentEncode (h : '%' ∉ exempt) (s : String) :
    percentDecode? (percentEncode exempt s) = some s := by
  have hbytes : (⟨(s.toList.flatMap String.utf8EncodeChar).toArray⟩ : ByteArray) = s.toByteArray := by
    rw [← String.utf8Encode_toList]
    apply ByteArray.ext
    exact List.data_toByteArray.symm
  unfold percentDecode? percentEncode
  rw [String.toList_ofList, percentBytes_flatMap_percentChar h, hbytes]
  unfold String.fromUTF8?
  rw [dif_pos s.isValidUTF8]
  rfl

/-- Different texts are encoded differently, unless the sign of escapes is exempt from them. -/
theorem percentEncode_injective (h : '%' ∉ exempt) : Function.Injective (percentEncode exempt) := by
  intro s t hst
  apply Option.some_inj.1
  rw [← percentDecode?_percentEncode h s, hst, percentDecode?_percentEncode h t]

/-! ## Form -/

/-- Escapes, and characters that need none. -/
inductive Escaped (exempt : List Char) : List Char → Prop
  | nil : Escaped exempt []
  | plain {c : Char} {rest : List Char} (hc : isUnreserved c = true ∨ c ∈ exempt) (hrest : Escaped exempt rest) :
      Escaped exempt (c :: rest)
  | escape {high low : Char} {rest : List Char} (hhigh : (hexValue? high).isSome) (hlow : (hexValue? low).isSome)
      (hrest : Escaped exempt rest) : Escaped exempt ('%' :: high :: low :: rest)

/-- Escaped texts may be put together. -/
theorem Escaped.append {front back : List Char} (hfront : Escaped exempt front) (hback : Escaped exempt back) :
    Escaped exempt (front ++ back) := by
  induction hfront with
  | nil => exact hback
  | plain hc _ ih => exact .plain hc ih
  | escape hhigh hlow _ ih => exact .escape hhigh hlow ih

/-- An escaped byte is an escaped text. -/
theorem escaped_escapeByte (b : UInt8) : Escaped exempt (escapeByte b) := by
  have hsize : b.toNat < 256 := b.toNat_lt
  refine .escape ?_ ?_ .nil
  · rw [hexValue?_upperHexDigit (by omega)]
    rfl
  · rw [hexValue?_upperHexDigit (by omega)]
    rfl

theorem Escaped.flatMap {α : Type} {f : α → List Char} {xs : List α} (h : ∀ x ∈ xs, Escaped exempt (f x)) :
    Escaped exempt (xs.flatMap f) := by
  induction xs with
  | nil => exact .nil
  | cons x xs ih =>
    rw [List.forall_mem_cons] at h
    rw [List.flatMap_cons]
    exact h.1.append (ih h.2)

/-- An encoded character is escaped, unless it may be left as it is. -/
theorem escaped_percentChar (exempt : List Char) (c : Char) : Escaped exempt (percentChar exempt c) := by
  unfold percentChar
  split
  · rename_i hplain
    rw [Bool.or_eq_true, List.contains_iff_mem] at hplain
    exact .plain hplain .nil
  · exact .flatMap fun b _ => escaped_escapeByte b

/-- An encoded text is escaped. -/
theorem escaped_percentEncode (exempt : List Char) (s : String) : Escaped exempt (percentEncode exempt s).toList := by
  unfold percentEncode
  rw [String.toList_ofList]
  exact .flatMap fun c _ => escaped_percentChar exempt c

/-- Hexadecimal digits need no escape. -/
theorem isUnreserved_of_hexValue? {c : Char} (h : (hexValue? c).isSome) : isUnreserved c = true := by
  unfold hexValue? at h
  unfold isUnreserved
  simp only [Bool.and_eq_true, decide_eq_true_eq] at h
  -- digits, and the letters of both cases that stand for digits
  split at h
  · rename_i hdigit
    simp [hdigit]
  · split at h
    · rename_i hupper
      have hZ : c ≤ 'Z' := Char.le_trans hupper.2 (by decide)
      simp [hupper.1, hZ]
    · split at h
      · rename_i hlower
        have hz : c ≤ 'z' := Char.le_trans hlower.2 (by decide)
        simp [hlower.1, hz]
      · cases h

/-- A character that needs an escape does not occur in an escaped text, but for the sign of escapes. -/
theorem Escaped.not_mem {cs : List Char} (h : Escaped exempt cs) {c : Char} (hc : isUnreserved c = false)
    (hexempt : c ∉ exempt) (hsign : c ≠ '%') : c ∉ cs := by
  have hne : ∀ d, isUnreserved d = true → c ≠ d := by
    rintro d hd rfl
    rw [hc] at hd
    cases hd
  -- an escaped text is made of plain characters and of escapes, whose digits need none
  induction h with
  | nil => exact List.not_mem_nil
  | plain hd _ ih =>
    rw [List.mem_cons, not_or]
    refine ⟨?_, ih⟩
    rcases hd with hd | hd
    · exact hne _ hd
    · rintro rfl
      exact hexempt hd
  | escape hhigh hlow _ ih =>
    simp only [List.mem_cons, not_or]
    exact ⟨hsign, hne _ (isUnreserved_of_hexValue? hhigh), hne _ (isUnreserved_of_hexValue? hlow), ih⟩

end VersionAudit.Text
