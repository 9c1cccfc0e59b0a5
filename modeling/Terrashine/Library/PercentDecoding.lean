import Terrashine.Library.UrlPath

/-!
# Percent-decoding

The reading of a percent-encoded text: an escape stands for a byte, every other character for
its bytes in UTF-8, and the bytes must be the UTF-8 of a text.  An encoder that escapes the
percent sign loses nothing: `percentDecode_percentEncode`.
-/

set_option autoImplicit false

namespace Terrashine.Library

namespace Url

/-- The value of a hexadecimal digit of either case. -/
def hexValue (c : Char) : Option ℕ :=
  if '0' ≤ c ∧ c ≤ '9' then some (c.toNat - '0'.toNat)
  else if 'A' ≤ c ∧ c ≤ 'F' then some (c.toNat - 'A'.toNat + 10)
  else if 'a' ≤ c ∧ c ≤ 'f' then some (c.toNat - 'a'.toNat + 10)
  else none

/-- The bytes of a text, escapes resolved; a percent sign that begins no escape stays. -/
def percentDecodeBytes : Text → List UInt8
  | '%' :: a :: b :: rest => match hexValue a, hexValue b with
    | some x, some y => UInt8.ofNat (16 * x + y) :: percentDecodeBytes rest
    | _, _ => String.utf8EncodeChar '%' ++ percentDecodeBytes (a :: b :: rest)
  | c :: rest => String.utf8EncodeChar c ++ percentDecodeBytes rest
  | [] => []

/-- The text whose UTF-8 a list of bytes is. -/
def decodeUtf8 (bytes : List UInt8) : Option Text :=
  bytes.toByteArray.utf8Decode?.map Array.toList

def percentDecode (t : Text) : Option Text := decodeUtf8 (percentDecodeBytes t)

/-- A text is read back from its bytes. -/
theorem decodeUtf8_encode (t : Text) :
    decodeUtf8 (t.flatMap String.utf8EncodeChar) = some t := by
  have hdecode := List.utf8Decode?_utf8Encode (l := t)
  unfold List.utf8Encode at hdecode
  unfold decodeUtf8
  rw [hdecode]
  rfl

/-- A character other than the percent sign stands for its own bytes. -/
theorem percentDecodeBytes_cons {c : Char} (hc : c ≠ '%') (rest : Text) :
    percentDecodeBytes (c :: rest) = String.utf8EncodeChar c ++ percentDecodeBytes rest := by
  rw [percentDecodeBytes]
  rintro a b rest' rfl -
  exact hc rfl

/-- A hexadecimal digit is read back. -/
theorem hexValue_hexDigit : ∀ n < 16, hexValue (hexDigit n) = some n := by decide

/-- **An escaped byte is read back.** -/
theorem percentDecodeBytes_encodeByte (b : UInt8) (rest : Text) :
    percentDecodeBytes (percentEncodeByte b ++ rest) = b :: percentDecodeBytes rest := by
  have hb : b.toNat < 256 := b.toNat_lt
  have hhigh := hexValue_hexDigit (b.toNat / 16) (by omega)
  have hlow := hexValue_hexDigit (b.toNat % 16) (by omega)
  have hvalue : 16 * (b.toNat / 16) + b.toNat % 16 = b.toNat := Nat.div_add_mod b.toNat 16
  show percentDecodeBytes ('%' :: hexDigit (b.toNat / 16) :: hexDigit (b.toNat % 16) :: rest) = _
  rw [percentDecodeBytes, hhigh, hlow]
  dsimp only
  rw [hvalue, UInt8.ofNat_toNat]

/-- Escaped bytes are read back in front of any rest. -/
theorem percentDecodeBytes_encodeBytes (bytes : List UInt8) (rest : Text) :
    percentDecodeBytes (bytes.flatMap percentEncodeByte ++ rest) =
      bytes ++ percentDecodeBytes rest := by
  induction bytes with
  | nil => rfl
  | cons b bytes ih =>
    rw [List.flatMap_cons, List.append_assoc, percentDecodeBytes_encodeByte, ih, List.cons_append]

/-- Where the percent sign is escaped, an encoded text decodes to its bytes. -/
theorem percentDecodeBytes_percentEncode {set : Char → Bool} (hset : set '%' = true) (t : Text) :
    percentDecodeBytes (percentEncode set t) = t.flatMap String.utf8EncodeChar := by
  induction t with
  | nil => rfl
  | cons c t ih =>
    rw [percentEncode_cons, List.flatMap_cons, ← ih]
    by_cases hc : set c = true
    · rw [if_pos hc, percentDecodeBytes_encodeBytes]
    · have hne : c ≠ '%' := by
        rintro rfl
        exact hc hset
      rw [if_neg hc, List.singleton_append, percentDecodeBytes_cons hne]

/-- **An encoder that escapes the percent sign loses nothing.** -/
theorem percentDecode_percentEncode {set : Char → Bool} (hset : set '%' = true) (t : Text) :
    percentDecode (percentEncode set t) = some t := by
  unfold percentDecode
  rw [percentDecodeBytes_percentEncode hset, decodeUtf8_encode]

/-- A text without escapes is read as it stands. -/
theorem percentDecode_of_not_mem {t : Text} (h : '%' ∉ t) : percentDecode t = some t := by
  have hbytes : percentDecodeBytes t = t.flatMap String.utf8EncodeChar := by
    induction t with
    | nil => rfl
    | cons c t ih =>
      rw [List.mem_cons, not_or] at h
      rw [percentDecodeBytes_cons (Ne.symm h.1), ih h.2, List.flatMap_cons]
  unfold percentDecode
  rw [hbytes, decodeUtf8_encode]

end Url

end Terrashine.Library
