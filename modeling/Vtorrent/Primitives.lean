import Vtorrent.PrefixCodes

/-!
# Machine integers, fixed-size arrays and cryptographic primitives

The hash functions and the elliptic-curve operations come from third-party
crates, so they are collected in one record of functions.  Nothing is assumed
about them here: a theorem that needs collision freedom or a property of key
parsing says so about the inputs it concerns.
-/

namespace Vtorrent

open Std

/-- `u64::saturating_add`. -/
def saturatingAdd (first second : UInt64) : UInt64 :=
  UInt64.ofNat (min (first.toNat + second.toNat) (2 ^ 64 - 1))

/-- `u64::saturating_sub`. -/
def saturatingSub (first second : UInt64) : UInt64 :=
  UInt64.ofNat (first.toNat - second.toNat)

@[simp]
theorem toNat_saturatingAdd (first second : UInt64) :
    (saturatingAdd first second).toNat =
      min (first.toNat + second.toNat) (2 ^ 64 - 1) := by
  simp [saturatingAdd]

@[simp]
theorem toNat_saturatingSub (first second : UInt64) :
    (saturatingSub first second).toNat = first.toNat - second.toNat := by
  have small : first.toNat - second.toNat < 2 ^ 64 := by
    have := first.toNat_lt
    omega
  simpa [saturatingSub] using Nat.mod_eq_of_lt small

/-- The `i64` results of checked arithmetic. -/
def checkedI64 (number : Int) : Option Int :=
  if -(2 ^ 63) ≤ number ∧ number < 2 ^ 63 then some number else none

/-- `as i64` on a `u64`. -/
def asI64 (value : UInt64) : Int :=
  if value.toNat < 2 ^ 63 then value.toNat else value.toNat - 2 ^ 64

/-- A saturating sum, as the folds over transaction outputs compute it. -/
def saturatingSum (values : List UInt64) : UInt64 :=
  values.foldl saturatingAdd 0

theorem toNat_foldl_saturatingAdd (values : List UInt64) (start : UInt64) :
    (values.foldl saturatingAdd start).toNat =
      min (start.toNat + (values.map UInt64.toNat).sum) (2 ^ 64 - 1) := by
  induction values generalizing start with
  | nil =>
      have := start.toNat_lt
      simp
      omega
  | cons value values ih =>
      rw [List.foldl_cons, ih, toNat_saturatingAdd]
      simp only [List.map_cons, List.sum_cons]
      omega

@[simp]
theorem toNat_saturatingSum (values : List UInt64) :
    (saturatingSum values).toNat =
      min (values.map UInt64.toNat).sum (2 ^ 64 - 1) := by
  simpa [saturatingSum] using toNat_foldl_saturatingAdd values 0

/-- `[u8; n]`. -/
abbrev ByteVector (n : Nat) := List.Vector UInt8 n

/-- `[u8; 32]`, the type of transaction ids, block hashes and digests. -/
abbrev Hash := ByteVector 32

/-- `[0u8; 32]`. -/
def zeroHash : Hash := List.Vector.replicate 32 0

instance (n : Nat) : Ord (ByteVector n) :=
  ⟨compareOn List.Vector.toList⟩

instance (n : Nat) : TransOrd (ByteVector n) :=
  inferInstanceAs (TransCmp (compareOn (List.Vector.toList : ByteVector n → Bytes)))

instance instTransOrdHash : TransOrd Hash := inferInstance

instance instTransOrdBytes8 : TransOrd (ByteVector 8) := inferInstance

instance instTransOrdBytes20 : TransOrd (ByteVector 20) := inferInstance

instance (n : Nat) : LawfulEqOrd (ByteVector n) where
  eq_of_compare equal := Subtype.ext (LawfulEqOrd.eq_of_compare equal)

instance instLawfulEqOrdHash : LawfulEqOrd Hash := inferInstance

instance instLawfulBEqHash : LawfulBEq Hash := inferInstance

/-- A public key recovered from a signature, in both serialized forms. -/
structure RecoveredKey where
  serialize : Bytes
  serializeUncompressed : Bytes

/-- The third-party functions the node calls. -/
structure Crypto where
  /-- `Sha256::digest` -/
  sha256 : Bytes → Hash
  /-- `Sha1::digest` -/
  sha1 : Bytes → ByteVector 20
  /-- `Ripemd160::digest` -/
  ripemd160 : Bytes → ByteVector 20
  /-- Whether `ecdsa::Signature::from_der` succeeds. -/
  signatureFromDer : Bytes → Bool
  /-- Whether `PublicKey::from_slice` succeeds. -/
  publicKeyFromSlice : Bytes → Bool
  /-- `verify_ecdsa` of a digest, a DER signature and a serialized key. -/
  verifyEcdsa : Hash → Bytes → Bytes → Bool
  /-- `RecoverableSignature::from_compact`, with the text of its error. -/
  recoverableFromCompact : Bytes → Except String Unit
  /-- `recover_ecdsa` of a digest, a compact signature and a recovery id. -/
  recoverEcdsa : Hash → Bytes → Nat → Except String RecoveredKey
  /-- `bs58::encode` -/
  base58 : Bytes → String

namespace Crypto

def sha256d (crypto : Crypto) (data : Bytes) : Hash :=
  crypto.sha256 (crypto.sha256 data).toList

def hash160 (crypto : Crypto) (data : Bytes) : ByteVector 20 :=
  crypto.ripemd160 (crypto.sha256 data).toList

def checksum (crypto : Crypto) (data : Bytes) : Bytes :=
  (crypto.sha256d data).toList.take 4

def signatureValid (crypto : Crypto) (digest : Hash) (sig pubkey : Bytes) : Bool :=
  sig.getLast? == some 0x01 && crypto.signatureFromDer sig.dropLast &&
    crypto.publicKeyFromSlice pubkey && crypto.verifyEcdsa digest sig.dropLast pubkey

def addressString (crypto : Crypto) (hash : ByteVector 20) (version : UInt8) :
    String :=
  let payload := version :: hash.toList
  crypto.base58 (payload ++ crypto.checksum payload)

end Crypto

def hexDigit (digit : Nat) : Char :=
  if digit < 10 then Char.ofNat (48 + digit) else Char.ofNat (87 + digit)

/-- `hex::encode`. -/
def hexEncode (bytes : Bytes) : String :=
  String.ofList (bytes.flatMap fun byte =>
    [hexDigit (byte.toNat / 16), hexDigit (byte.toNat % 16)])

theorem hexDigit_inj {first second : Nat} (small : first < 16) (small' : second < 16)
    (same : hexDigit first = hexDigit second) : first = second := by
  have all : ∀ first second : Fin 16, hexDigit first = hexDigit second → first = second := by
    decide
  exact congrArg Fin.val (all ⟨first, small⟩ ⟨second, small'⟩ same)

theorem hexEncode_injective : Function.Injective hexEncode := by
  intro first second same
  replace same := String.ofList_inj.mp same
  induction first generalizing second with
  | nil => cases second with
    | nil => rfl
    | cons byte bytes => simp at same
  | cons byte bytes ih => cases second with
    | nil => simp at same
    | cons byte' bytes' =>
        simp only [List.flatMap_cons, List.cons_append, List.nil_append, List.cons.injEq] at same
        obtain ⟨high, low, rest⟩ := same
        have upper := hexDigit_inj (by have := byte.toNat_lt; omega)
          (by have := byte'.toNat_lt; omega) high
        have lower := hexDigit_inj (Nat.mod_lt _ (by decide)) (Nat.mod_lt _ (by decide)) low
        rw [ih rest, UInt8.toNat.inj (a := byte) (b := byte') (by omega)]

end Vtorrent
