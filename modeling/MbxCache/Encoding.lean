import Mathlib.Data.List.Induction
import Mathlib.Tactic.Ring
import Mathlib.Tactic.IntervalCases

namespace MbxCache

abbrev Bytes := List UInt8

namespace Hex

def digits : List Char :=
  ['0', '1', '2', '3', '4', '5', '6', '7', '8', '9', 'a', 'b', 'c', 'd', 'e', 'f']

def digit (value : Nat) : Char := digits.getD value '0'

def isLower (c : Char) : Bool :=
  ('0' ≤ c && c ≤ '9') || ('a' ≤ c && c ≤ 'f')

def value (c : Char) : Option Nat :=
  if '0' ≤ c && c ≤ '9' then some (c.toNat - 48)
  else if 'a' ≤ c && c ≤ 'f' then some (c.toNat - 87)
  else if 'A' ≤ c && c ≤ 'F' then some (c.toNat - 55)
  else none

def chars (bytes : Bytes) : List Char :=
  bytes.flatMap fun byte => [digit (byte.toNat / 16), digit (byte.toNat % 16)]

def encode (bytes : Bytes) : String := String.ofList (chars bytes)

def decodeChars : List Char → Option Bytes
  | [] => some []
  | [_] => none
  | high :: low :: rest => do
      let h ← value high
      let l ← value low
      let tail ← decodeChars rest
      return UInt8.ofNat (16 * h + l) :: tail

def decode (text : String) : Option Bytes := decodeChars text.toList

theorem value_digit {n : Nat} (small : n < 16) : value (digit n) = some n := by
  interval_cases n <;> decide

theorem lower_digit {n : Nat} (small : n < 16) : isLower (digit n) = true := by
  interval_cases n <;> decide

theorem digit_of_lower {c : Char} (lower : isLower c = true) :
    ∃ n, n < 16 ∧ value c = some n ∧ digit n = c := by
  have range : (48 ≤ c.toNat ∧ c.toNat ≤ 57) ∨ (97 ≤ c.toNat ∧ c.toNat ≤ 102) := by
    simpa [isLower, Char.le_def, UInt32.le_iff_toNat_le] using lower
  rw [← Char.ofNat_toNat c]
  generalize c.toNat = code at range
  rcases range with ⟨low, high⟩ | ⟨low, high⟩
  · refine ⟨code - 48, by omega, ?_⟩
    interval_cases code <;> decide
  · refine ⟨code - 87, by omega, ?_⟩
    interval_cases code <;> decide

theorem chars_length (bytes : Bytes) : (chars bytes).length = 2 * bytes.length := by
  induction bytes with
  | nil => rfl
  | cons byte rest ih =>
      simp only [chars, List.flatMap_cons, List.length_append, List.length_cons,
        List.length_nil] at ih ⊢
      omega

theorem chars_lower (bytes : Bytes) : ∀ c ∈ chars bytes, isLower c = true := by
  intro c member
  simp only [chars, List.mem_flatMap, List.mem_cons, List.not_mem_nil, or_false] at member
  obtain ⟨byte, _, rfl | rfl⟩ := member
  · exact lower_digit (by have := byte.toNat_lt; omega)
  · exact lower_digit (by omega)

theorem decodeChars_chars (bytes : Bytes) : decodeChars (chars bytes) = some bytes := by
  induction bytes with
  | nil => rfl
  | cons byte rest ih =>
      have high : value (digit (byte.toNat / 16)) = some (byte.toNat / 16) :=
        value_digit (by have := byte.toNat_lt; omega)
      have low : value (digit (byte.toNat % 16)) = some (byte.toNat % 16) :=
        value_digit (by omega)
      have whole : 16 * (byte.toNat / 16) + byte.toNat % 16 = byte.toNat := by omega
      change decodeChars (digit _ :: digit _ :: chars rest) = _
      simp only [decodeChars, high, low, ih, Option.bind_eq_bind, Option.bind_some, whole,
        UInt8.ofNat_toNat]
      rfl

theorem chars_decodeChars : ∀ {text : List Char} {bytes : Bytes},
    (∀ c ∈ text, isLower c = true) → decodeChars text = some bytes → chars bytes = text
  | [], bytes, _, decoded => by
      cases decoded
      rfl
  | [_], _, _, decoded => by simp [decodeChars] at decoded
  | high :: low :: rest, bytes, lower, decoded => by
      obtain ⟨h, smallHigh, valueHigh, digitHigh⟩ := digit_of_lower (lower high (by simp))
      obtain ⟨l, smallLow, valueLow, digitLow⟩ := digit_of_lower (lower low (by simp))
      cases tail : decodeChars rest with
      | none => simp [decodeChars, valueHigh, valueLow, tail] at decoded
      | some others =>
          simp only [decodeChars, valueHigh, valueLow, tail, Option.bind_eq_bind,
            Option.bind_some] at decoded
          cases decoded
          have ih := chars_decodeChars
            (fun c member => lower c (by simp [member])) tail
          have byte : (UInt8.ofNat (16 * h + l)).toNat = 16 * h + l := by
            simp only [UInt8.toNat_ofNat']
            omega
          have first : (16 * h + l) / 16 = h := by omega
          have second : (16 * h + l) % 16 = l := by omega
          change digit _ :: digit _ :: chars others = _
          rw [byte, first, second, digitHigh, digitLow, ih]

theorem decodeChars_lower : ∀ {text : List Char} {count : Nat},
    (∀ c ∈ text, isLower c = true) → text.length = 2 * count →
    ∃ bytes, decodeChars text = some bytes ∧ bytes.length = count
  | [], count, _, length => ⟨[], rfl, by simp only [List.length_nil] at length ⊢; omega⟩
  | [_], count, _, length => by simp at length; omega
  | high :: low :: rest, count, lower, length => by
      obtain ⟨h, _, valueHigh, _⟩ := digit_of_lower (lower high (by simp))
      obtain ⟨l, _, valueLow, _⟩ := digit_of_lower (lower low (by simp))
      simp only [List.length_cons] at length
      obtain ⟨tail, decoded, tailLength⟩ :=
        @decodeChars_lower rest (count - 1) (fun c member => lower c (by simp [member]))
          (by omega)
      refine ⟨UInt8.ofNat (16 * h + l) :: tail, ?_, by simp only [List.length_cons]; omega⟩
      simp [decodeChars, valueHigh, valueLow, decoded]

/-- Text a writer produced reads back as the bytes it was written from. -/
theorem decode_encode (bytes : Bytes) : decode (encode bytes) = some bytes := by
  simp [decode, encode, decodeChars_chars]

theorem encode_decode {text : String} {bytes : Bytes}
    (lower : ∀ c ∈ text.toList, isLower c = true) (decoded : decode text = some bytes) :
    encode bytes = text := by
  rw [encode, chars_decodeChars lower decoded, String.ofList_toList]

theorem decode_lower {text : String} {count : Nat}
    (lower : ∀ c ∈ text.toList, isLower c = true) (length : text.toList.length = 2 * count) :
    ∃ bytes, decode text = some bytes ∧ bytes.length = count ∧ encode bytes = text := by
  obtain ⟨bytes, decoded, bytesLength⟩ := decodeChars_lower lower length
  exact ⟨bytes, decoded, bytesLength, encode_decode lower decoded⟩

theorem encode_injective : Function.Injective encode := by
  intro first second same
  have read := congrArg decode same
  rw [decode_encode, decode_encode] at read
  exact Option.some.inj read

end Hex

namespace BigEndian

def decode (bytes : Bytes) : Nat :=
  bytes.foldl (fun total byte => 256 * total + byte.toNat) 0

/-- Exactly `width` bytes, dropping what lies above them. -/
def encode : Nat → Nat → Bytes
  | 0, _ => []
  | width + 1, n => encode width (n / 256) ++ [UInt8.ofNat n]

@[simp] theorem encode_length (width n : Nat) : (encode width n).length = width := by
  induction width generalizing n with
  | zero => rfl
  | succ width ih => simp [encode, ih]

theorem decode_append (bytes : Bytes) (byte : UInt8) :
    decode (bytes ++ [byte]) = 256 * decode bytes + byte.toNat := by
  simp [decode]

theorem decode_lt (bytes : Bytes) : decode bytes < 256 ^ bytes.length := by
  induction bytes using List.reverseRecOn with
  | nil => simp [decode]
  | append_singleton front byte ih =>
      have small := byte.toNat_lt
      rw [decode_append, List.length_append, List.length_singleton, pow_succ]
      omega

theorem decode_encode (width n : Nat) (fits : n < 256 ^ width) :
    decode (encode width n) = n := by
  induction width generalizing n with
  | zero =>
      have zero : n = 0 := by simpa using fits
      subst n
      rfl
  | succ width ih =>
      have upper : n / 256 < 256 ^ width := by
        rw [pow_succ] at fits
        omega
      rw [encode, decode_append, ih _ upper, UInt8.toNat_ofNat']
      omega

theorem encode_decode (bytes : Bytes) : encode bytes.length (decode bytes) = bytes := by
  induction bytes using List.reverseRecOn with
  | nil => rfl
  | append_singleton front byte ih =>
      have small := byte.toNat_lt
      have upper : (256 * decode front + byte.toNat) / 256 = decode front := by omega
      have low : UInt8.ofNat (256 * decode front + byte.toNat) = byte := by
        apply UInt8.toNat_inj.mp
        rw [UInt8.toNat_ofNat']
        omega
      rw [List.length_append, List.length_singleton, decode_append, encode, upper, ih, low]

end BigEndian

/-- A number is known from its decimal digits. -/
theorem toString_inj {one other : Nat} : toString one = toString other ↔ one = other := by
  constructor
  · intro same
    have digits := congrArg String.toList same
    simp only [Nat.toString_eq_repr, Nat.toList_repr] at digits
    have value := congrArg (Nat.ofDigitChars 10 · 0) digits
    simpa only [Nat.ofDigitChars_ten_toDigits] using value
  · rintro rfl
    rfl

def asBytes (text : String) : Bytes := text.toByteArray.data.toList

theorem asBytes_injective {left right : String} (same : asBytes left = asBytes right) :
    left = right :=
  String.toByteArray_inj.mp (ByteArray.ext (Array.toList_inj.mp same))

theorem asBytes_eq (text : String) : asBytes text = text.toList.flatMap String.utf8EncodeChar := by
  unfold asBytes
  rw [← String.utf8Encode_toList, List.utf8Encode, List.data_toByteArray]

theorem utf8EncodeChar_ascii {c : Char} (ascii : c.val ≤ 127) :
    String.utf8EncodeChar c = [c.val.toUInt8] :=
  String.utf8EncodeChar_eq_singleton (Char.utf8Size_eq_one_iff.mpr ascii)

theorem utf8EncodeChar_high {c : Char} (high : 127 < c.val) {byte : UInt8}
    (member : byte ∈ String.utf8EncodeChar c) : 128 ≤ byte := by
  have above : ¬ c.val.toNat ≤ 127 := Nat.not_le.mpr (UInt32.lt_iff_toNat_lt.mp high)
  have lead (low : Nat) (less : 128 ≤ low ∧ low < 256) : 128 ≤ UInt8.ofNat low := by
    rw [UInt8.le_iff_toNat_le, UInt8.toNat_ofNat_of_lt' less.2]
    exact less.1
  unfold String.utf8EncodeChar at member
  rw [if_neg above] at member
  split at member
  · simp only [List.mem_cons, List.not_mem_nil, or_false] at member
    rcases member with rfl | rfl <;> exact lead _ (by omega)
  · split at member
    · simp only [List.mem_cons, List.not_mem_nil, or_false] at member
      rcases member with rfl | rfl | rfl <;> exact lead _ (by omega)
    · simp only [List.mem_cons, List.not_mem_nil, or_false] at member
      rcases member with rfl | rfl | rfl | rfl <;> exact lead _ (by omega)

theorem asBytes_ascii {text : String} (ascii : ∀ c ∈ text.toList, c.val ≤ 127) :
    asBytes text = text.toList.map fun c => c.val.toUInt8 := by
  rw [asBytes_eq, List.map_eq_flatMap]
  exact congrArg List.flatten
    (List.map_congr_left fun c member => utf8EncodeChar_ascii (ascii c member))

theorem isAlphanum_ascii {c : Char} (word : c.isAlphanum = true) : c.val ≤ 127 := by
  rcases (Bool.or_eq_true _ _).mp word with letter | digit
  · rcases (Bool.or_eq_true _ _).mp letter with upper | lower
    · have range : 'A'.val ≤ c.val ∧ c.val ≤ 'Z'.val := of_decide_eq_true upper
      exact UInt32.le_trans range.2 (by decide)
    · have range := of_decide_eq_true ((Bool.and_eq_true _ _).mp lower).2
      exact UInt32.le_trans range (by decide)
  · have range := of_decide_eq_true ((Bool.and_eq_true _ _).mp digit).2
    exact UInt32.le_trans range (by decide)

theorem mem_asBytes {text : String} {c : Char} (ascii : c.val ≤ 127)
    (member : c.val.toUInt8 ∈ asBytes text) : c ∈ text.toList := by
  rw [asBytes_eq] at member
  obtain ⟨d, present, byte⟩ := List.mem_flatMap.mp member
  have small : c.val.toNat ≤ 127 := UInt32.le_iff_toNat_le.mp ascii
  by_cases low : d.val ≤ 127
  · rw [utf8EncodeChar_ascii low, List.mem_singleton] at byte
    have small' : d.val.toNat ≤ 127 := UInt32.le_iff_toNat_le.mp low
    have same : c.val.toNat = d.val.toNat := by
      have values := congrArg UInt8.toNat byte
      simp only [UInt32.toNat_toUInt8] at values
      omega
    rwa [show c = d from Char.ext (UInt32.toNat_inj.mp same)]
  · have high := UInt8.le_iff_toNat_le.mp (utf8EncodeChar_high (UInt32.not_le.mp low) byte)
    simp only [UInt32.toNat_toUInt8] at high
    have bound : (128 : UInt8).toNat = 128 := rfl
    omega

end MbxCache
