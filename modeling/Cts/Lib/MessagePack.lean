import Mathlib.Data.Nat.Notation
import Mathlib.Tactic.Linarith

/-!
# MessagePack

The values that a serializer writes, their bytes, and how many these are. A number takes the shortest
form, and so does the header of bytes, of a string and of an array.
-/

namespace Lib.MessagePack

inductive Value
  | nil
  | uint (n : Nat)
  | bin (bytes : List UInt8)
  | str (utf8 : List UInt8)
  | array (items : List Value)
  /-- A map with one entry. -/
  | single (key value : Value)

/-! ## Bytes -/

def bigEndian (len n : Nat) : List UInt8 :=
  (List.range len).reverse.map (fun i => UInt8.ofNat (n / 256 ^ i))

@[simp]
theorem bigEndian_length (len n : Nat) : (bigEndian len n).length = len := by simp [bigEndian]

def encodeUint (n : Nat) : List UInt8 :=
  if n < 2 ^ 7 then [UInt8.ofNat n]
  else if n < 2 ^ 8 then 0xcc :: bigEndian 1 n
  else if n < 2 ^ 16 then 0xcd :: bigEndian 2 n
  else if n < 2 ^ 32 then 0xce :: bigEndian 4 n
  else 0xcf :: bigEndian 8 n

def binHeader (len : Nat) : List UInt8 :=
  if len < 2 ^ 8 then 0xc4 :: bigEndian 1 len
  else if len < 2 ^ 16 then 0xc5 :: bigEndian 2 len
  else 0xc6 :: bigEndian 4 len

def strHeader (len : Nat) : List UInt8 :=
  if len < 32 then [UInt8.ofNat (0xa0 + len)]
  else if len < 2 ^ 8 then 0xd9 :: bigEndian 1 len
  else if len < 2 ^ 16 then 0xda :: bigEndian 2 len
  else 0xdb :: bigEndian 4 len

def arrayHeader (len : Nat) : List UInt8 :=
  if len < 16 then [UInt8.ofNat (0x90 + len)]
  else if len < 2 ^ 16 then 0xdc :: bigEndian 2 len
  else 0xdd :: bigEndian 4 len

mutual

def encode : Value → List UInt8
  | .nil => [0xc0]
  | .uint n => encodeUint n
  | .bin bytes => binHeader bytes.length ++ bytes
  | .str utf8 => strHeader utf8.length ++ utf8
  | .array items => arrayHeader items.length ++ encodeAll items
  | .single key value => 0x81 :: (encode key ++ encode value)

def encodeAll : List Value → List UInt8
  | [] => []
  | item :: items => encode item ++ encodeAll items

end

/-! ## Sizes -/

def uintSize (n : Nat) : Nat :=
  if n < 2 ^ 7 then 1 else if n < 2 ^ 8 then 2 else if n < 2 ^ 16 then 3 else if n < 2 ^ 32 then 5 else 9

def binHeaderSize (len : Nat) : Nat := if len < 2 ^ 8 then 2 else if len < 2 ^ 16 then 3 else 5

def strHeaderSize (len : Nat) : Nat :=
  if len < 32 then 1 else if len < 2 ^ 8 then 2 else if len < 2 ^ 16 then 3 else 5

def arrayHeaderSize (len : Nat) : Nat := if len < 16 then 1 else if len < 2 ^ 16 then 3 else 5

mutual

def Value.size : Value → Nat
  | .nil => 1
  | .uint n => uintSize n
  | .bin bytes => binHeaderSize bytes.length + bytes.length
  | .str utf8 => strHeaderSize utf8.length + utf8.length
  | .array items => arrayHeaderSize items.length + sizeAll items
  | .single key value => 1 + (key.size + value.size)

def sizeAll : List Value → Nat
  | [] => 0
  | item :: items => item.size + sizeAll items

end

theorem encodeUint_length (n : Nat) : (encodeUint n).length = uintSize n := by
  unfold encodeUint uintSize
  split_ifs <;> simp

theorem binHeader_length (len : Nat) : (binHeader len).length = binHeaderSize len := by
  unfold binHeader binHeaderSize
  split_ifs <;> simp

theorem strHeader_length (len : Nat) : (strHeader len).length = strHeaderSize len := by
  unfold strHeader strHeaderSize
  split_ifs <;> simp

theorem arrayHeader_length (len : Nat) : (arrayHeader len).length = arrayHeaderSize len := by
  unfold arrayHeader arrayHeaderSize
  split_ifs <;> simp

mutual

theorem encode_length : ∀ v : Value, (encode v).length = v.size
  | .nil => rfl
  | .uint n => encodeUint_length n
  | .bin bytes => by simp [encode, Value.size, binHeader_length]
  | .str utf8 => by simp [encode, Value.size, strHeader_length]
  | .array items => by
    simp [encode, Value.size, arrayHeader_length, encodeAll_length items]
  | .single key value => by
    simp [encode, Value.size, encode_length key, encode_length value, Nat.add_comm]

theorem encodeAll_length : ∀ vs : List Value, (encodeAll vs).length = sizeAll vs
  | [] => rfl
  | item :: items => by
    simp [encodeAll, sizeAll, encode_length item, encodeAll_length items]

end

theorem sizeAll_bytes (bytes : List UInt8) :
    sizeAll (bytes.map fun b => .uint b.toNat) = bytes.length + bytes.countP (fun b => 128 ≤ b) := by
  induction bytes with
  | nil => rfl
  | cons b bs ih =>
    have hlt : b.toNat < 2 ^ 8 := b.toNat_lt
    have hiff : 128 ≤ b ↔ 2 ^ 7 ≤ b.toNat := UInt8.le_iff_toNat_le
    rw [List.map_cons, sizeAll, ih, Value.size, uintSize, List.countP_cons, List.length_cons]
    by_cases h : b.toNat < 2 ^ 7
    · rw [if_pos h, if_neg (by simpa [hiff] using h)]
      omega
    · rw [if_neg h, if_pos hlt, if_pos (by simpa [hiff] using h)]
      omega

end Lib.MessagePack
