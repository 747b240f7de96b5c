import Mathlib.Data.List.Lex
import Mathlib.Data.Prod.Lex
import Cts.Lib.Word

/-!
# Principals, ledger accounts and ledger transfers

`cts_lib/src/icrc.rs` and the byte encodings of a principal in `cts_lib/src/tools.rs`. Two
spellings of an account, with and without the default subaccount, are one `Account`.
-/

namespace Cts

open Lib

abbrev Byte := UInt8

/-- What `u128::saturating_add` gives. -/
abbrev saturating_add (a b : Nat) : Nat := Word.saturatingAdd 128 a b

abbrev saturating_sub (a b : Nat) : Nat := Word.saturatingSub a b

/-- A rejection code and a reject message. -/
abbrev CallError := Nat × String

/-! ## Principals -/

structure Principal where
  bytes : List Byte
  length_le : bytes.length ≤ 29
  deriving DecidableEq

def Principal.of_byte (b : Byte) : Principal := ⟨[b], by simp⟩

theorem Principal.ext_bytes {p q : Principal} (h : p.bytes = q.bytes) : p = q := by
  cases p; cases q; simp_all

theorem map_toNat_injective : Function.Injective (List.map UInt8.toNat) :=
  List.map_injective_iff.mpr (fun _ _ h => UInt8.toNat_inj.mp h)

def Principal.ordKey (p : Principal) : List Nat := p.bytes.map UInt8.toNat

theorem Principal.ordKey_injective : Function.Injective Principal.ordKey :=
  fun _ _ h => Principal.ext_bytes (map_toNat_injective h)

/-- Principals are ordered by their bytes. -/
instance : LinearOrder Principal := LinearOrder.lift' Principal.ordKey Principal.ordKey_injective

def principal_as_thirty_bytes (p : Principal) : List Byte :=
  UInt8.ofNat p.bytes.length :: p.bytes ++ List.replicate (29 - p.bytes.length) 0

@[simp]
theorem principal_as_thirty_bytes_length (p : Principal) :
    (principal_as_thirty_bytes p).length = 30 := by
  have := p.length_le
  simp [principal_as_thirty_bytes]
  omega

/-- `Principal::from_slice` traps on more than 29 bytes. -/
def thirty_bytes_as_principal (bytes : List Byte) : Option Principal :=
  let len := (bytes.headD 0).toNat
  if h : len ≤ 29 then some ⟨(bytes.drop 1).take len, (List.length_take_le _ _).trans h⟩ else none

theorem thirty_bytes_principal (p : Principal) :
    thirty_bytes_as_principal (principal_as_thirty_bytes p) = some p := by
  have hlen : p.bytes.length < 256 := lt_of_le_of_lt p.length_le (by decide)
  have hhead : ((principal_as_thirty_bytes p).headD 0).toNat = p.bytes.length :=
    Nat.mod_eq_of_lt hlen
  unfold thirty_bytes_as_principal
  simp only [hhead]
  rw [dif_pos p.length_le]
  refine congrArg some (Principal.ext_bytes ?_)
  change (p.bytes ++ _).take p.bytes.length = p.bytes
  exact List.take_left

/-! ## Subaccounts and accounts -/

structure IcrcSubaccount where
  bytes : List Byte
  length_eq : bytes.length = 32
  deriving DecidableEq

theorem IcrcSubaccount.ext_bytes {a b : IcrcSubaccount} (h : a.bytes = b.bytes) : a = b := by
  cases a; cases b; simp_all

def ICRC_DEFAULT_SUBACCOUNT : IcrcSubaccount := ⟨List.replicate 32 0, by simp⟩

/-- `POSITIONS_SUBACCOUNT` of the trade contract: 31 zeros and a five. -/
def POSITIONS_SUBACCOUNT : IcrcSubaccount := ⟨List.replicate 31 0 ++ [5], by simp⟩

/-- A user's deposit subaccount at the trade contract. -/
def principal_token_subaccount (p : Principal) : IcrcSubaccount :=
  ⟨principal_as_thirty_bytes p ++ [0, 0], by simp⟩

/-- The same bytes, as a subaccount of the ICP ledger. -/
def principal_icp_subaccount (p : Principal) : IcrcSubaccount :=
  ⟨principal_as_thirty_bytes p ++ [0, 0], by simp⟩

theorem principal_token_subaccount_ne (p : Principal) :
    principal_token_subaccount p ≠ POSITIONS_SUBACCOUNT := by
  intro h
  have h := congrArg (fun s : IcrcSubaccount => s.bytes.getLast?) h
  simp [principal_token_subaccount, POSITIONS_SUBACCOUNT] at h

structure IcrcId where
  owner : Principal
  subaccount : Option IcrcSubaccount
  deriving DecidableEq

def IcrcId.effective_subaccount (id : IcrcId) : IcrcSubaccount :=
  id.subaccount.getD ICRC_DEFAULT_SUBACCOUNT

/-- What an `IcrcId` names. Equality, order and hash of `IcrcId` look at this alone. -/
structure Account where
  owner : Principal
  subaccount : IcrcSubaccount
  deriving DecidableEq

def IcrcId.account (id : IcrcId) : Account := ⟨id.owner, id.effective_subaccount⟩

def Account.ordKey (a : Account) : List Nat ×ₗ List Nat :=
  toLex (a.owner.ordKey, a.subaccount.bytes.map UInt8.toNat)

theorem Account.ordKey_injective : Function.Injective Account.ordKey := by
  rintro ⟨p, s⟩ ⟨q, t⟩ h
  obtain ⟨h1, h2⟩ := Prod.mk.inj (toLex.injective h)
  obtain rfl : p = q := Principal.ordKey_injective h1
  obtain rfl : s = t := IcrcSubaccount.ext_bytes (map_toNat_injective h2)
  rfl

/-- By owner, then by effective subaccount. -/
instance : LinearOrder Account := LinearOrder.lift' Account.ordKey Account.ordKey_injective

/-! ## Transfers -/

structure Icrc1TransferQuest where
  «to» : IcrcId
  fee : Option Nat
  memo : Option (List Byte)
  from_subaccount : Option IcrcSubaccount
  created_at_time : Option Nat
  amount : Nat
  deriving DecidableEq

/-- What a transfer takes out of the account that sends it. -/
def Icrc1TransferQuest.debit (q : Icrc1TransferQuest) : Nat := q.amount + q.fee.getD 0

inductive Icrc1TransferError
  | BadFee (expected_fee : Nat)
  | BadBurn (min_burn_amount : Nat)
  | InsufficientFunds (balance : Nat)
  | TooOld
  | CreatedInFuture (ledger_time : Nat)
  | TemporarilyUnavailable
  | Duplicate (duplicate_of : Nat)
  | GenericError (error_code : Nat) (message : String)
  deriving DecidableEq

end Cts
