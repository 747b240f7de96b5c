import Mathlib.Data.Nat.Init

/-!
# LEB128

A number as bytes of seven bits each, the lowest first. Every byte but the last has its high bit set,
so the end of a number is told from its bytes.
-/

namespace Lib.Leb128

def encode (n : Nat) : List UInt8 :=
  if n < 128 then [UInt8.ofNat n] else UInt8.ofNat (n % 128 + 128) :: encode (n / 128)
termination_by n
decreasing_by omega

/-- The number at the start of some bytes, and the bytes after it. -/
def decode : List UInt8 → Option (Nat × List UInt8)
  | [] => none
  | b :: rest =>
    if b.toNat < 128 then some (b.toNat, rest)
    else (decode rest).map fun e => (b.toNat - 128 + 128 * e.1, e.2)

theorem encode_of_lt {n : Nat} (h : n < 128) : encode n = [UInt8.ofNat n] := by
  rw [encode, if_pos h]

theorem encode_of_le {n : Nat} (h : 128 ≤ n) :
    encode n = UInt8.ofNat (n % 128 + 128) :: encode (n / 128) := by
  rw [encode, if_neg (by omega)]

theorem decode_encode (n : Nat) (rest : List UInt8) :
    decode (encode n ++ rest) = some (n, rest) := by
  induction n using Nat.strong_induction_on with
  | _ n ih =>
    by_cases h : n < 128
    · have hbyte : (UInt8.ofNat n).toNat = n := Nat.mod_eq_of_lt (by omega)
      rw [encode_of_lt h, List.singleton_append, decode, hbyte, if_pos h]
    · have hbyte : (UInt8.ofNat (n % 128 + 128)).toNat = n % 128 + 128 :=
        Nat.mod_eq_of_lt (by omega)
      rw [encode_of_le (by omega), List.cons_append, decode, hbyte, if_neg (by omega),
        ih (n / 128) (by omega), Option.map_some]
      have hsplit : n % 128 + 128 - 128 + 128 * (n / 128) = n := by omega
      rw [hsplit]

end Lib.Leb128
