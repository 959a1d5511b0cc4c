import RasterFallback.Text.Base64
import RasterFallback.Text.Percent

/-!
Bytes and texts are read back as they were written: from UTF-8, from base 64, and from percent
encoding with digits of either case.
-/
namespace RasterFallback.Text

/-- The bytes of a text are well formed and spell it. -/
theorem ofUtf8?_utf8Bytes (s : String) : ofUtf8? (utf8Bytes s.toList) = some s := by
  have hbytes : (⟨(utf8Bytes s.toList).toArray⟩ : ByteArray) = s.toByteArray := by
    rw [← String.utf8Encode_toList]
    exact ByteArray.ext List.data_toByteArray.symm
  rw [ofUtf8?, hbytes, String.fromUTF8?, dif_pos s.isValidUTF8]
  rfl

namespace Base64

theorem bits?_letter {n : Nat} (h : n < 64) : bits? (letter n) = some n := by
  have hall : ∀ n < 64, bits? (letter n) = some n := by decide
  exact hall n h

theorem letter_ne_pad {n : Nat} (h : n < 64) : letter n ≠ '=' := by
  have hall : ∀ n < 64, letter n ≠ '=' := by decide
  exact hall n h

/-- The first byte of a group from its six bits in one letter and its two in the next. -/
theorem first_byte (a : UInt8) {y : Nat} (h : y < 16) :
    UInt8.ofNat (a.toNat / 4 * 4 + (a.toNat % 4 * 16 + y) / 16) = a := by
  have hsum : a.toNat / 4 * 4 + (a.toNat % 4 * 16 + y) / 16 = a.toNat := by omega
  rw [hsum, UInt8.ofNat_toNat]

theorem second_byte (b : UInt8) (x : Nat) {z : Nat} (h : z < 4) :
    UInt8.ofNat ((x * 16 + b.toNat / 16) % 16 * 16 + (b.toNat % 16 * 4 + z) / 4) = b := by
  have hb := b.toNat_lt
  have hsum : (x * 16 + b.toNat / 16) % 16 * 16 + (b.toNat % 16 * 4 + z) / 4 = b.toNat := by omega
  rw [hsum, UInt8.ofNat_toNat]

theorem third_byte (c : UInt8) (y : Nat) :
    UInt8.ofNat ((y * 4 + c.toNat / 64) % 4 * 64 + c.toNat % 64) = c := by
  have hc := c.toNat_lt
  have hsum : (y * 4 + c.toNat / 64) % 4 * 64 + c.toNat % 64 = c.toNat := by omega
  rw [hsum, UInt8.ofNat_toNat]

variable {p q r s : Char} {x y z w : Nat}

theorem decode?_one (hx : bits? p = some x) (hy : bits? q = some y) (hpad : y % 16 = 0) :
    decode? [p, q, '=', '='] = some [UInt8.ofNat (x * 4 + y / 16)] := by
  simp [decode?, hx, hy, hpad]

theorem decode?_two (hr : r ≠ '=') (hx : bits? p = some x) (hy : bits? q = some y)
    (hz : bits? r = some z) (hpad : z % 4 = 0) :
    decode? [p, q, r, '='] =
      some [UInt8.ofNat (x * 4 + y / 16), UInt8.ofNat (y % 16 * 16 + z / 4)] := by
  rw [decode?]
  · simp [hx, hy, hz, hpad]
  · simpa using hr

theorem decode?_three (hs : s ≠ '=') (hx : bits? p = some x) (hy : bits? q = some y)
    (hz : bits? r = some z) (hw : bits? s = some w) {rest : List Char} {bytes : List UInt8}
    (hrest : decode? rest = some bytes) :
    decode? (p :: q :: r :: s :: rest) =
      some (UInt8.ofNat (x * 4 + y / 16) :: UInt8.ofNat (y % 16 * 16 + z / 4) ::
        UInt8.ofNat (z % 4 * 64 + w) :: bytes) := by
  rw [decode?]
  · simp [hx, hy, hz, hw, hrest]
  · simp_all
  · simp_all

/-- Bytes are read back from the letters that are written for them. -/
theorem decode?_encode (bytes : List UInt8) : decode? (encode bytes) = some bytes := by
  fun_induction encode bytes with
  | case1 => rfl
  | case2 a =>
    have ha := a.toNat_lt
    rw [decode?_one (bits?_letter (by omega)) (bits?_letter (by omega)) (by omega)]
    exact congrArg (fun a => some [a]) (first_byte a (y := 0) (by omega))
  | case3 a b =>
    have ha := a.toNat_lt
    have hb := b.toNat_lt
    rw [decode?_two (letter_ne_pad (by omega)) (bits?_letter (by omega)) (bits?_letter (by omega))
      (bits?_letter (by omega)) (by omega), first_byte a (by omega)]
    exact congrArg (fun b => some [a, b]) (second_byte b (a.toNat % 4) (z := 0) (by omega))
  | case4 a b c rest ih =>
    have ha := a.toNat_lt
    have hb := b.toNat_lt
    have hc := c.toNat_lt
    rw [decode?_three (letter_ne_pad (by omega)) (bits?_letter (by omega)) (bits?_letter (by omega))
      (bits?_letter (by omega)) (bits?_letter (by omega)) ih, first_byte a (by omega),
      second_byte b _ (by omega), third_byte]

/-- What is written holds letters and the pad only. -/
theorem forall_mem_encode {P : Char → Prop} (hpad : P '=') (hletter : ∀ n < 64, P (letter n))
    (bytes : List UInt8) : ∀ c ∈ encode bytes, P c := by
  fun_induction encode bytes with
  | case1 => exact List.forall_mem_nil _
  | case2 a =>
    have ha := a.toNat_lt
    simp only [List.forall_mem_cons]
    exact ⟨hletter _ (by omega), hletter _ (by omega), hpad, hpad, List.forall_mem_nil _⟩
  | case3 a b =>
    have ha := a.toNat_lt
    have hb := b.toNat_lt
    simp only [List.forall_mem_cons]
    exact ⟨hletter _ (by omega), hletter _ (by omega), hletter _ (by omega), hpad,
      List.forall_mem_nil _⟩
  | case4 a b c rest ih =>
    have ha := a.toNat_lt
    have hb := b.toNat_lt
    have hc := c.toNat_lt
    simp only [List.forall_mem_cons]
    exact ⟨hletter _ (by omega), hletter _ (by omega), hletter _ (by omega), hletter _ (by omega),
      ih⟩

end Base64

section Percent

/-- A hexadecimal digit, a letter among them as a capital if asked for. -/
def hexDigitIn (capital : Bool) (n : Nat) : Char :=
  if capital then (hexDigit n).toUpper else hexDigit n

/-- ASCII letters and digits stand for themselves, every other byte is written as a percent sign
and two hexadecimal digits. -/
def percentCode (capital : Bool) (b : UInt8) : List Char :=
  let c := Char.ofNat b.toNat
  if c.isAlphanum then [c]
  else ['%', hexDigitIn capital (b.toNat / 16), hexDigitIn capital (b.toNat % 16)]

def percentEncode (capital : Bool) (bytes : List UInt8) : List Char :=
  bytes.flatMap (percentCode capital)

theorem hexValue?_hexDigitIn (capital : Bool) {n : Nat} (h : n < 16) :
    hexValue? (hexDigitIn capital n) = some n := by
  have hall : ∀ capital, ∀ n < 16, hexValue? (hexDigitIn capital n) = some n := by decide
  exact hall capital n h

/-- A letter or digit is one byte, and no percent sign. -/
theorem utf8EncodeChar_of_isAlphanum {b : UInt8} (h : (Char.ofNat b.toNat).isAlphanum = true) :
    Char.ofNat b.toNat ≠ '%' ∧ String.utf8EncodeChar (Char.ofNat b.toNat) = [b] := by
  have hall : ∀ n < 256, (Char.ofNat n).isAlphanum = true → Char.ofNat n ≠ '%' ∧
      String.utf8EncodeChar (Char.ofNat n) = [UInt8.ofNat n] := by decide +kernel
  have hbyte := hall b.toNat b.toNat_lt h
  rwa [UInt8.ofNat_toNat] at hbyte

theorem percentDecode_percentCode (capital : Bool) (b : UInt8) (s : List Char) :
    percentDecode (percentCode capital b ++ s) = b :: percentDecode s := by
  unfold percentCode
  dsimp only
  split
  · rename_i hletter
    obtain ⟨hpercent, hbytes⟩ := utf8EncodeChar_of_isAlphanum hletter
    rw [List.singleton_append, percentDecode, if_neg hpercent, hbytes]
    rfl
  · have hb := b.toNat_lt
    have hhigh := hexValue?_hexDigitIn capital (n := b.toNat / 16) (by omega)
    have hlow := hexValue?_hexDigitIn capital (n := b.toNat % 16) (by omega)
    have hsum : b.toNat / 16 * 16 + b.toNat % 16 = b.toNat := by omega
    have hbyte : escapedByte? (hexDigitIn capital (b.toNat / 16) ::
        hexDigitIn capital (b.toNat % 16) :: s) = some b := by
      rw [escapedByte?, hhigh, hlow]
      show some (UInt8.ofNat (b.toNat / 16 * 16 + b.toNat % 16)) = some b
      rw [hsum, UInt8.ofNat_toNat]
    rw [List.cons_append, List.cons_append, List.cons_append, List.nil_append, percentDecode,
      if_pos rfl, hbyte]
    rfl

/-- Bytes are read back from their percent encoding. -/
theorem percentDecode_percentEncode (capital : Bool) (bytes : List UInt8) :
    percentDecode (percentEncode capital bytes) = bytes := by
  induction bytes with
  | nil => simp [percentEncode, percentDecode]
  | cons b bytes ih =>
    rw [percentEncode, List.flatMap_cons, percentDecode_percentCode]
    exact congrArg (b :: ·) ih

/-- What is percent-encoded holds percent signs, hexadecimal digits and the letters and digits
among the bytes. -/
theorem forall_mem_percentEncode {P : Char → Prop} {capital : Bool} (hpercent : P '%')
    (hdigit : ∀ n < 16, P (hexDigitIn capital n))
    (hletter : ∀ n < 256, (Char.ofNat n).isAlphanum = true → P (Char.ofNat n))
    (bytes : List UInt8) : ∀ c ∈ percentEncode capital bytes, P c := by
  intro c hc
  obtain ⟨b, -, hb⟩ := List.mem_flatMap.1 hc
  have hlt := b.toNat_lt
  unfold percentCode at hb
  dsimp only at hb
  split at hb
  · rename_i halnum
    obtain rfl := List.mem_singleton.1 hb
    exact hletter b.toNat hlt halnum
  · simp only [List.mem_cons, List.not_mem_nil, or_false] at hb
    rcases hb with rfl | rfl | rfl
    · exact hpercent
    · exact hdigit _ (by omega)
    · exact hdigit _ (by omega)

end Percent

end RasterFallback.Text
