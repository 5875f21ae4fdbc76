import Vtorrent.InfoSpans

/-!
# What an accepted torrent file says

The info hash of an accepted file is the hash of the bytes from which its fields were taken.
The number of pieces fits the total size, and the total size is the sum of the lengths of
the files unless that sum exceeds a machine word.
-/

namespace Vtorrent

open Bencode

def lengthSum (files : List TorrentFile) : Nat :=
  (files.map fun file => file.length.toNat).sum

theorem readFiles_total {items : List Value} {total final : UInt64} {files : List TorrentFile}
    (read : readFiles total items = .ok (files, final)) :
    final.toNat = min (total.toNat + lengthSum files) (2 ^ 64 - 1) := by
  induction items generalizing total final files with
  | nil =>
      cases read
      have bound := total.toNat_lt
      simp only [lengthSum, List.map_nil, List.sum_nil]
      omega
  | cons item items ih =>
      cases item with
      | dict entries =>
          obtain ⟨length, -, read⟩ := Checked.bind_eq_ok.mp read
          obtain ⟨path, -, read⟩ := Checked.bind_eq_ok.mp read
          obtain ⟨⟨others, last⟩, rest, read⟩ := Checked.bind_eq_ok.mp read
          cases read
          rw [ih rest, toNat_saturatingAdd]
          simp only [lengthSum, List.map_cons, List.sum_cons]
          omega
      | bytes | int | list => exact ih read

theorem filesOf_total {info : BencodeDict} {name : String} {files : List TorrentFile}
    {total : UInt64} (read : filesOf info name = .ok (files, total)) :
    total.toNat = min (lengthSum files) (2 ^ 64 - 1) := by
  unfold filesOf at read
  split at read
  · have sum := readFiles_total read
    rwa [UInt64.toNat_zero, Nat.zero_add] at sum
  · cases read
  · obtain ⟨length, -, read⟩ := Checked.bind_eq_ok.mp read
    cases read
    have bound := total.toNat_lt
    simp only [lengthSum, List.map_cons, List.map_nil, List.sum_cons, List.sum_nil]
    omega

theorem infoFields_sizes {info : BencodeDict} {fields : InfoFields}
    (read : infoFields info = .ok fields) :
    fields.totalSize.toNat = min (lengthSum fields.files) (2 ^ 64 - 1) ∧
      fields.pieceCount.toNat = fields.pieces.length ∧
      fields.pieceCount.toNat = fields.totalSize.toNat ⌈/⌉ fields.pieceLength.toNat := by
  unfold infoFields at read
  obtain ⟨name, -, read⟩ := Checked.bind_eq_ok.mp read
  obtain ⟨pieceLength, -, read⟩ := Checked.bind_eq_ok.mp read
  obtain ⟨_, -, read⟩ := Checked.bind_eq_ok.mp read
  obtain ⟨⟨files, total⟩, listed, read⟩ := Checked.bind_eq_ok.mp read
  obtain ⟨_, small, read⟩ := Checked.bind_eq_ok.mp read
  obtain ⟨pieces, -, read⟩ := Checked.bind_eq_ok.mp read
  obtain ⟨_, counted, read⟩ := Checked.bind_eq_ok.mp read
  cases read
  rw [Checked.rejectIf_eq_ok, decide_eq_false_iff_not, Nat.not_le] at small
  have count : pieces.length = (UInt32.ofNat (divCeil total pieceLength)).toNat := by
    simpa using Checked.rejectIf_eq_ok.mp counted
  refine ⟨filesOf_total listed, count.symm, ?_⟩
  dsimp only
  rw [UInt32.toNat_ofNat_of_lt' small, divCeil, Nat.ceilDiv_eq_add_pred_div]

namespace Metainfo

section Accepted

variable {sha1 : Bytes → ByteVector 20} {decode : Bytes → Except String Value} {data : Bytes}
  {torrent : Metainfo}

/-- The fields of a torrent that its info dictionary determines are those that were read. -/
structure TakenFrom (torrent : Metainfo) (fields : InfoFields) : Prop where
  name : torrent.name = fields.name
  files : torrent.files = fields.files
  pieceLength : torrent.pieceLength = fields.pieceLength
  pieces : torrent.pieces = fields.pieces
  totalSize : torrent.totalSize = fields.totalSize
  pieceCount : torrent.pieceCount = fields.pieceCount

theorem rootDict_eq_ok {dict : BencodeDict} (read : rootDict decode data = .ok dict) :
    decode data = .ok (.dict dict) := by
  unfold rootDict parseUntrusted at read
  split at read
  · cases read
  · cases read
  · rename_i entries parsed
    cases read
    split at parsed
    · cases parsed
    · exact Option.some.inj parsed
  · cases read

theorem fromBytes_eq_ok (accepted : fromBytes sha1 decode data = .ok torrent) :
    ∃ dict value span fields, decode data = .ok (.dict dict) ∧ get dict infoKey = some value ∧
      findInfoSpan data = .ok span ∧ fieldsOf value = .ok fields ∧
      torrent.infoHash = sha1 (byteSpan data span.1 span.2) ∧ torrent.TakenFrom fields := by
  obtain ⟨dict, root, accepted⟩ := Checked.bind_eq_ok.mp accepted
  split at accepted
  · cases accepted
  · rename_i value known
    obtain ⟨span, found, accepted⟩ := Checked.bind_eq_ok.mp accepted
    obtain ⟨fields, read, accepted⟩ := Checked.bind_eq_ok.mp accepted
    cases accepted
    exact ⟨dict, value, span, fields, rootDict_eq_ok root, known, found, read, rfl,
      ⟨rfl, rfl, rfl, rfl, rfl, rfl⟩⟩

/-- The info hash is the hash of the bytes of the only info entry of the top-level dictionary,
and the fields were taken from the value of that entry. -/
def Identified (sha1 : Bytes → ByteVector 20) (decode : Bytes → Except String Value)
    (data : Bytes) (torrent : Metainfo) : Prop :=
  ∃ inner rest entries info value fields,
    data = (100 :: inner ++ [101]) ++ rest ∧ decode data = .ok (.dict entries) ∧
    Reads inner (.entries entries) ∧ SoleEntry infoKey inner entries info value ∧
    torrent.infoHash = sha1 info ∧ fieldsOf value = .ok fields ∧ torrent.TakenFrom fields

theorem identified (sound : Sound decode)
    (accepted : fromBytes sha1 decode data = .ok torrent) :
    Identified sha1 decode data torrent := by
  obtain ⟨dict, value, span, fields, decoded, known, found, read, hash, taken⟩ :=
    fromBytes_eq_ok accepted
  obtain ⟨bytes, rest, rfl, encodes⟩ := sound _ _ decoded
  cases encodes with
  | dict reads =>
      obtain ⟨stored, sole⟩ := findInfoSpan_sole reads found
      obtain rfl : stored = value := by simpa [sole.get_eq] using known
      exact ⟨_, rest, dict, _, stored, fields, rfl, decoded, reads, sole, hash, read, taken⟩

theorem sizes (accepted : fromBytes sha1 decode data = .ok torrent) :
    torrent.totalSize.toNat = min (lengthSum torrent.files) (2 ^ 64 - 1) ∧
      torrent.pieceCount.toNat = torrent.pieces.length ∧
      torrent.pieceCount.toNat = torrent.totalSize.toNat ⌈/⌉ torrent.pieceLength.toNat := by
  obtain ⟨-, value, -, fields, -, -, -, read, -, taken⟩ := fromBytes_eq_ok accepted
  rw [taken.totalSize, taken.files, taken.pieceCount, taken.pieces, taken.pieceLength]
  cases value with
  | dict info => exact infoFields_sizes read
  | bytes | int | list => cases read

end Accepted

/-- An accepted file is identified by the bytes its fields were taken from, and its sizes are
those of its files and pieces, exactly when the lengths of the files add up to less than
`2 ^ 64`. -/
theorem accepted_iff_lengthSum_lt {sha1 : Bytes → ByteVector 20}
    {decode : Bytes → Except String Value} (sound : Sound decode) {data : Bytes}
    {torrent : Metainfo} (accepted : fromBytes sha1 decode data = .ok torrent) :
    (Identified sha1 decode data torrent ∧
      torrent.totalSize.toNat = lengthSum torrent.files ∧
      torrent.pieceCount.toNat = torrent.pieces.length ∧
      torrent.pieceCount.toNat = torrent.totalSize.toNat ⌈/⌉ torrent.pieceLength.toNat) ↔
    lengthSum torrent.files < 2 ^ 64 := by
  obtain ⟨total, count, pieces⟩ := sizes accepted
  constructor
  · rintro ⟨-, exact, -, -⟩
    have bound := torrent.totalSize.toNat_lt
    omega
  · intro small
    exact ⟨identified sound accepted, by omega, count, pieces⟩

namespace Sample

/-- A stand-in for the hash function. -/
def digest (bytes : Bytes) : ByteVector 20 := ⟨leBytes 20 bytes.length, by simp⟩

def oneFile : Bytes :=
  keyBytes ("d4:infod6:lengthi5e4:name1:a12:piece lengthi3e6:pieces40:" ++
    "aaaaaaaaaaaaaaaaaaaaaaaaaaaaaaaaaaaaaaaaee")

def threeFiles : Bytes :=
  keyBytes ("d4:infod5:filesl" ++
    "d6:lengthi9223372036854775807e4:pathl1:aee" ++
    "d6:lengthi9223372036854775807e4:pathl1:bee" ++
    "d6:lengthi9223372036854775807e4:pathl1:cee" ++
    "e4:name1:t12:piece lengthi9223372036854775807e6:pieces60:" ++
    "aaaaaaaaaaaaaaaaaaaaaaaaaaaaaaaaaaaaaaaaaaaaaaaaaaaaaaaaaaaaee")

def totals (data : Bytes) : Option (Nat × Nat) :=
  (fromBytes digest Bencode.read data).toOption.map fun torrent =>
    (torrent.totalSize.toNat, lengthSum torrent.files)

end Sample

theorem oneFile_accepted : ∃ torrent,
    fromBytes Sample.digest Bencode.read Sample.oneFile = .ok torrent ∧
    Identified Sample.digest Bencode.read Sample.oneFile torrent ∧
    torrent.totalSize.toNat = lengthSum torrent.files := by
  have shown : Sample.totals Sample.oneFile = some (5, 5) := by decide +kernel
  unfold Sample.totals at shown
  cases accepted : fromBytes Sample.digest Bencode.read Sample.oneFile with
  | error error =>
      rw [accepted] at shown
      cases shown
  | ok torrent =>
      have small : lengthSum torrent.files < 2 ^ 64 := by
        rw [accepted] at shown
        have sum : lengthSum torrent.files = 5 := congrArg Prod.snd (Option.some.inj shown)
        omega
      obtain ⟨same, total, -⟩ := (accepted_iff_lengthSum_lt sound_read accepted).mpr small
      exact ⟨torrent, rfl, same, total⟩

/-- The total size of three huge files stops at the largest word. -/
theorem threeFiles_total :
    Sample.totals Sample.threeFiles = some (18446744073709551615, 27670116110564327421) := by
  decide +kernel

end Metainfo

end Vtorrent
