import Kanat.PlainTexts

/-! # Percent-encoded texts

A text's UTF-8, each byte outside the unreserved ASCII characters as a percent sign and two hexadecimal digits. -/
namespace Kanat.PercentTexts
open PlainTexts

def unreserved (c : Char) : Bool := c.isAlphanum || c = '_' || c = '.' || c = '-' || c = '~'

def hexDigit (n : ℕ) : Char := Char.ofNat (if n < 10 then 48 + n else 55 + n)

def hexValue (c : Char) : Option ℕ :=
  if 48 ≤ c.toNat ∧ c.toNat ≤ 57 then some (c.toNat - 48)
  else if 65 ≤ c.toNat ∧ c.toNat ≤ 70 then some (c.toNat - 55)
  else if 97 ≤ c.toNat ∧ c.toNat ≤ 102 then some (c.toNat - 87)
  else none

def quoteByte (b : UInt8) : List Char :=
  if unreserved (Char.ofNat b.toNat) then [Char.ofNat b.toNat]
  else ['%', hexDigit (b.toNat / 16), hexDigit (b.toNat % 16)]

def utf8 (text : List Char) : List UInt8 := text.flatMap String.utf8EncodeChar

def quote (text : List Char) : List Char := (utf8 text).flatMap quoteByte

/-- A percent sign that no two digits follow stands for itself. -/
@[grind =] def unquoteToBytes : List Char → List UInt8
  | [] => []
  | '%' :: a :: b :: rest =>
    match hexValue a, hexValue b with
    | some m, some n => UInt8.ofNat (16 * m + n) :: unquoteToBytes rest
    | _, _ => String.utf8EncodeChar '%' ++ unquoteToBytes (a :: b :: rest)
  | c :: rest => String.utf8EncodeChar c ++ unquoteToBytes rest

def unquote (text : List Char) : Option (List Char) :=
  (unquoteToBytes text).toByteArray.utf8Decode?.map Array.toList

/-- The bytes of a text in which every percent sign has two digits. -/
def decodeToBytes : List Char → Option (List UInt8)
  | [] => some []
  | '%' :: a :: b :: rest =>
    match hexValue a, hexValue b with
    | some m, some n => (decodeToBytes rest).map (UInt8.ofNat (16 * m + n) :: ·)
    | _, _ => none
  | c :: rest => if c = '%' then none else (decodeToBytes rest).map (String.utf8EncodeChar c ++ ·)

def decode (text : List Char) : Option (List Char) :=
  (decodeToBytes text).bind fun bytes => bytes.toByteArray.utf8Decode?.map Array.toList

variable {b : UInt8} {c : Char} {n : ℕ}

theorem hexValue_hexDigit (h : n < 16) : hexValue (hexDigit n) = some n := by
  interval_cases n <;> rfl

theorem unreserved_range (h : unreserved c) : c.toNat < 127 := by
  simp only [unreserved, Bool.or_eq_true, decide_eq_true_eq] at h
  rcases h with (((h | rfl) | rfl) | rfl) | rfl
  · have hrange := isAlphanum_range h
    omega
  all_goals decide

private theorem toNat_ofNat_byte (b : UInt8) : (Char.ofNat b.toNat).toNat = b.toNat := by
  have hb : b.toNat < 256 := b.toNat_lt
  have hvalid : b.toNat.isValidChar := .inl (by omega)
  rw [Char.ofNat, dif_pos hvalid]
  rfl

theorem utf8EncodeChar_byte (h : unreserved (Char.ofNat b.toNat)) :
    String.utf8EncodeChar (Char.ofNat b.toNat) = [b] := by
  have hrange := unreserved_range h
  have htoNat := toNat_ofNat_byte b
  have hsize : (Char.ofNat b.toNat).utf8Size = 1 := by
    have hascii : (Char.ofNat b.toNat).val.toNat ≤ 127 := Nat.le_of_lt_succ (hrange.trans (by decide))
    rw [Char.utf8Size, if_pos (UInt32.le_iff_toNat_le.mpr hascii)]
  rw [String.utf8EncodeChar_eq_singleton hsize, List.cons.injEq, and_iff_left rfl, ← UInt8.toNat_inj]
  change (Char.ofNat b.toNat).toNat % 256 = b.toNat
  omega

private theorem unquoteToBytes_of_ne (h : c ≠ '%') (rest : List Char) :
    unquoteToBytes (c :: rest) = String.utf8EncodeChar c ++ unquoteToBytes rest := by
  rw [unquoteToBytes]
  exact fun _ _ _ hc => absurd hc h

theorem ofNat_hexDigits (b : UInt8) : UInt8.ofNat (16 * (b.toNat / 16) + b.toNat % 16) = b := by
  rw [Nat.div_add_mod, UInt8.ofNat_toNat]

theorem ne_percent (h : unreserved c) : c ≠ '%' := by
  rintro rfl
  exact absurd h (by decide)

private theorem unquoteToBytes_quoteByte (b : UInt8) (rest : List Char) :
    unquoteToBytes (quoteByte b ++ rest) = b :: unquoteToBytes rest := by
  unfold quoteByte
  split_ifs with h
  · rw [List.singleton_append, unquoteToBytes_of_ne (ne_percent h), utf8EncodeChar_byte h, List.singleton_append]
  · have hb : b.toNat < 256 := b.toNat_lt
    rw [List.cons_append, List.cons_append, List.cons_append, List.nil_append, unquoteToBytes,
      hexValue_hexDigit (by omega), hexValue_hexDigit (by omega)]
    exact congrArg (· :: unquoteToBytes rest) (ofNat_hexDigits b)

private theorem unquoteToBytes_quote (bytes : List UInt8) : unquoteToBytes (bytes.flatMap quoteByte) = bytes := by
  induction bytes with
  | nil => rfl
  | cons b bytes ih => rw [List.flatMap_cons, unquoteToBytes_quoteByte, ih]

theorem utf8Decode_utf8 (text : List Char) : (utf8 text).toByteArray.utf8Decode?.map Array.toList = some text := by
  change text.utf8Encode.utf8Decode?.map Array.toList = some text
  rw [List.utf8Decode?_utf8Encode, Option.map_some, List.toList_toArray]

/-- A quoted text is read back, by either reader. -/
theorem unquote_quote (text : List Char) : unquote (quote text) = some text := by
  rw [unquote, quote, unquoteToBytes_quote, utf8Decode_utf8]

theorem decodeToBytes_of_ne (h : c ≠ '%') (rest : List Char) :
    decodeToBytes (c :: rest) = (decodeToBytes rest).map (String.utf8EncodeChar c ++ ·) := by
  rw [decodeToBytes, if_neg h]
  exact fun _ _ _ hc => absurd hc h

private theorem decodeToBytes_quoteByte (b : UInt8) (rest : List Char) :
    decodeToBytes (quoteByte b ++ rest) = (decodeToBytes rest).map (b :: ·) := by
  unfold quoteByte
  split_ifs with h
  · rw [List.singleton_append, decodeToBytes_of_ne (ne_percent h), utf8EncodeChar_byte h]
    rfl
  · have hb : b.toNat < 256 := b.toNat_lt
    rw [List.cons_append, List.cons_append, List.cons_append, List.nil_append, decodeToBytes,
      hexValue_hexDigit (by omega), hexValue_hexDigit (by omega)]
    exact congrArg (fun byte => (decodeToBytes rest).map (byte :: ·)) (ofNat_hexDigits b)

theorem decodeToBytes_quote (text rest : List Char) :
    decodeToBytes (quote text ++ rest) = (decodeToBytes rest).map (utf8 text ++ ·) := by
  rw [quote]
  induction utf8 text with
  | nil => simp
  | cons b bytes ih =>
    rw [List.flatMap_cons, List.append_assoc, decodeToBytes_quoteByte, ih, Option.map_map]
    rfl

theorem hexDigit_range (h : n < 16) : unreserved (hexDigit n) := by
  interval_cases n <;> rfl

theorem mem_quote {text : List Char} (h : c ∈ quote text) : unreserved c ∨ c = '%' := by
  obtain ⟨b, -, hc⟩ := List.mem_flatMap.mp h
  have hb : b.toNat < 256 := b.toNat_lt
  unfold quoteByte at hc
  split_ifs at hc with hunreserved
  · rw [List.mem_singleton.mp hc]
    exact .inl hunreserved
  · simp only [List.mem_cons, List.not_mem_nil, or_false] at hc
    rcases hc with rfl | rfl | rfl
    · exact .inr rfl
    · exact .inl (hexDigit_range (by omega))
    · exact .inl (hexDigit_range (by omega))

end Kanat.PercentTexts
