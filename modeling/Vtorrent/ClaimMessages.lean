import Vtorrent.BodyCommitment
import Vtorrent.DecimalText

/-!
# What a claim signature commits to

The message of a legacy claim is its address followed by a bar, the value, a colon and the
script for each output.  An address without a bar can be read back from it, and so can the
outputs.
-/

namespace Vtorrent

open DecimalText

def messageVarint (length : Nat) : Bytes :=
  if length < 0xfd then leBytes 1 length
  else if length ≤ 0xffff then 0xfd :: leBytes 2 length
  else 0xfe :: leBytes 4 length

def signedMessageBytes (magic message : String) : Bytes :=
  leBytes 1 (stringBytes (magic ++ "\n")).length ++ stringBytes (magic ++ "\n") ++
    messageVarint (stringBytes message).length ++ stringBytes message

/-- An output as a claim message describes it, without the bar. -/
def describeOutput (output : TxOutput) : String :=
  toString output.value ++ ":" ++ hexEncode output.scriptPubkey

def claimMessage (claimAddress : String) (outputs : List TxOutput) : String :=
  (outputs.map fun output => "|" ++ describeOutput output).foldl (· ++ ·) claimAddress

def claimMessageBytes (claimAddress : String) (outputs : List TxOutput) : Bytes :=
  signedMessageBytes "vTorrent Signed Message v2" (claimMessage claimAddress outputs)

theorem claimMessageHashV2_eq (crypto : Crypto) (claimAddress : String)
    (outputs : List TxOutput) :
    claimMessageHashV2 crypto claimAddress outputs =
      crypto.sha256d (claimMessageBytes claimAddress outputs) := by
  simp only [claimMessageHashV2, bitcoinSignedMessageHash, claimMessageBytes,
    signedMessageBytes, messageVarint, claimMessage, describeOutput, String.append_assoc]

theorem length_messageVarint (length : Nat) :
    (messageVarint length).length =
      if length < 0xfd then 1 else if length ≤ 0xffff then 3 else 5 := by
  rw [messageVarint]
  split
  · rw [leBytes_length]
  · split <;> rw [List.length_cons, leBytes_length]

/-- The whole grows with the message, so its length determines the length of the message. -/
theorem signedMessageBytes_injective {magic first second : String}
    (same : signedMessageBytes magic first = signedMessageBytes magic second) :
    first = second := by
  simp only [signedMessageBytes, List.append_assoc] at same
  replace same := List.append_cancel_left (List.append_cancel_left same)
  have total := congrArg List.length same
  simp only [List.length_append, length_messageVarint] at total
  have lengths : (stringBytes first).length = (stringBytes second).length := by
    split_ifs at total <;> omega
  rw [lengths] at same
  exact stringBytes_injective (List.append_cancel_left same)

theorem describeOutput_toList (output : TxOutput) :
    (describeOutput output).toList =
      Nat.toDigits 10 output.value.toNat ++ ':' :: (hexEncode output.scriptPubkey).toList := by
  have value : toString output.value = String.ofList (Nat.toDigits 10 output.value.toNat) :=
    Nat.toString_eq_ofList_toDigits
  simp [describeOutput, value]

theorem hexDigit_ne_bar {digit : Nat} (small : digit < 16) : hexDigit digit ≠ '|' := by
  have all : ∀ digit : Fin 16, hexDigit digit ≠ '|' := by decide
  exact all ⟨digit, small⟩

theorem bar_not_mem_hexEncode (bytes : Bytes) : '|' ∉ (hexEncode bytes).toList := by
  rw [hexEncode, String.toList_ofList]
  intro member
  obtain ⟨byte, _, digit⟩ := List.mem_flatMap.mp member
  have small := byte.toNat_lt
  simp only [List.mem_cons, List.not_mem_nil, or_false] at digit
  rcases digit with high | low
  · exact hexDigit_ne_bar (by omega) high.symm
  · exact hexDigit_ne_bar (by omega) low.symm

theorem bar_not_mem_describeOutput (output : TxOutput) :
    '|' ∉ (describeOutput output).toList := by
  rw [describeOutput_toList]
  simp [not_mem_toDigits (show '|'.isDigit = false by decide), bar_not_mem_hexEncode]

theorem describeOutput_injective : Function.Injective describeOutput := by
  intro first second same
  have split := congrArg (fun text : String => splitOnce ':' text.toList) same
  simp only [describeOutput_toList,
    splitOnce_append (not_mem_toDigits (show ':'.isDigit = false by decide) _),
    Option.some.injEq, Prod.mk.injEq] at split
  obtain ⟨digits, script⟩ := split
  have value : first.value.toNat = second.value.toNat := by
    rw [← @Nat.ofDigitChars_ten_toDigits first.value.toNat, digits,
      Nat.ofDigitChars_ten_toDigits]
  have scripts := hexEncode_injective (String.toList_inj.mp script)
  cases first
  cases second
  simp only [TxOutput.mk.injEq]
  exact ⟨UInt64.toNat_inj.mp value, scripts⟩

theorem claimMessage_toList (claimAddress : String) (outputs : List TxOutput) :
    (claimMessage claimAddress outputs).toList =
      ['|'].intercalate (claimAddress.toList ::
        outputs.map fun output => (describeOutput output).toList) := by
  rw [claimMessage]
  induction outputs generalizing claimAddress with
  | nil => simp
  | cons output outputs ih =>
      rw [List.map_cons, List.foldl_cons, ih]
      cases outputs with
      | nil => simp [List.intercalate]
      | cons next outputs => simp [List.intercalate]

/-- Equal hashes commit to the same address and outputs, when the addresses have no bar and
the hash function tells the two messages apart. -/
theorem claim_message_commits {crypto : Crypto} {address other : String}
    {outputs others : List TxOutput} (plain : '|' ∉ address.toList)
    (otherPlain : '|' ∉ other.toList)
    (apart : HashedApart crypto [claimMessageBytes address outputs,
      claimMessageBytes other others])
    (equal : claimMessageHashV2 crypto address outputs =
      claimMessageHashV2 crypto other others) :
    address = other ∧ outputs = others := by
  rw [claimMessageHashV2_eq, claimMessageHashV2_eq] at equal
  have hashed : claimMessageBytes address outputs = claimMessageBytes other others :=
    apart _ (by simp) _ (by simp) equal
  have messages := signedMessageBytes_injective hashed
  have pieces := congrArg (fun text : String => text.toList.splitOn '|') messages
  have unbarred : ∀ {address : String} (outputs : List TxOutput), '|' ∉ address.toList →
      ∀ piece ∈ address.toList :: outputs.map fun output => (describeOutput output).toList,
        '|' ∉ piece := by
    intro address outputs plain piece member
    rcases List.mem_cons.mp member with rfl | member
    · exact plain
    · obtain ⟨output, _, rfl⟩ := List.mem_map.mp member
      exact bar_not_mem_describeOutput output
  simp only [claimMessage_toList] at pieces
  rw [List.splitOn_intercalate _ (unbarred outputs plain) (by simp),
    List.splitOn_intercalate _ (unbarred others otherPlain) (by simp)] at pieces
  obtain ⟨addresses, described⟩ := List.cons.inj pieces
  refine ⟨String.toList_inj.mp addresses, ?_⟩
  exact List.map_injective_iff.mpr
    (fun _ _ same => describeOutput_injective (String.toList_inj.mp same)) described

open Regtest in
/-- A claim that pays one output. -/
theorem claim_message_commits_one :
    "VTR" = "VTR" ∧ [(⟨5, [0x51]⟩ : TxOutput)] = [⟨5, [0x51]⟩] :=
  @claim_message_commits crypto _ _ _ _ (by decide) (by decide) (by decide +kernel) rfl

end Vtorrent
