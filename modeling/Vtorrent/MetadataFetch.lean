import Vtorrent.PeerWire
import Vtorrent.TorrentFiles

/-!
# Metadata from a peer

For a magnet link, the info dictionary is fetched from a peer in pieces and checked against
the info hash of the link.  It is then put into a file of its own and read as any torrent
file is.
-/

namespace Vtorrent

open Std Bencode ChunkedReads

/-! ## Data messages -/

/-- The loop of `find_dict_end`; it moves forward each time. -/
def dictEndFrom (bytes : Bytes) : Nat → Nat → Int → Option Nat
  | 0, _, _ => none
  | fuel + 1, pos, depth =>
      match bytes[pos]? with
      | none => none
      | some first =>
          if first == 100 || first == 108 then dictEndFrom bytes fuel (pos + 1) (depth + 1)
          else if first == 101 then
            if depth - 1 = 0 then some (pos + 1)
            else dictEndFrom bytes fuel (pos + 1) (depth - 1)
          else if first == 105 then
            let text := (bytes.drop (pos + 1)).takeWhile (· != 101)
            dictEndFrom bytes fuel (pos + 1 + text.length + 1) depth
          else if isDigit first then
            let digits := (bytes.drop pos).takeWhile isDigit
            let colon := pos + digits.length
            if bytes[colon]? != some 58 then none
            else
              match parseUsize digits with
              | none => none
              | some length =>
                  if 2 ^ 64 ≤ colon + 1 + length ∨ bytes.length < colon + 1 + length then none
                  else dictEndFrom bytes fuel (colon + 1 + length) depth
          else none

/-- `find_dict_end`. -/
def findDictEnd (bytes : Bytes) : Option Nat := dictEndFrom bytes (bytes.length + 1) 0 0

def boundedField (dict : BencodeDict) (key : String) (bound : Nat) (error : TorrentError) :
    Except TorrentError Nat :=
  match get dict (keyBytes key) with
  | some (.int number) =>
      if 0 ≤ number.toInt ∧ number.toInt ≤ bound then .ok number.toInt.toNat else .error error
  | _ => .error error

def dataDict (decode : Bytes → Except String Value) (bytes : Bytes) :
    Except TorrentError BencodeDict :=
  match parseUntrusted decode bytes with
  | none => .error (.peerWireError "bencode nesting too deep")
  | some (.error reason) => .error (.peerWireError reason)
  | some (.ok (.dict entries)) => .ok entries
  | some (.ok _) => .error (.peerWireError "ut_metadata not a dict")

/-- `parse_data`: the index of a piece, the total size and the bytes. -/
def parseData (decode : Bytes → Except String Value) (payload : Bytes) :
    Except TorrentError (UInt32 × UInt64 × Bytes) :=
  match findDictEnd payload with
  | none => .error (.peerWireError "malformed ut_metadata")
  | some dictEnd => do
      let dict ← dataDict decode (payload.take dictEnd)
      let piece ← boundedField dict "piece" (2 ^ 32 - 1) (.peerWireError "missing piece")
      let totalSize ← boundedField dict "total_size" (2 ^ 63 - 1)
        (.peerWireError "missing total_size")
      pure (UInt32.ofNat piece, UInt64.ofNat totalSize, payload.drop dictEnd)

def maxMetadataSize : Nat := 64 * 1024 * 1024

/-- `reassemble_metadata`: the pieces in the order of their indices. -/
def reassembleMetadata (pieces : ExtTreeMap UInt32 Bytes) (totalSize : Nat) :
    Except TorrentError Bytes := do
  rejectIf (decide (maxMetadataSize < totalSize))
    (TorrentError.peerWireError ("metadata size too large: " ++ toString totalSize))
  let bytes := (pieces.toList.map Prod.snd).flatten
  rejectIf (bytes.length != totalSize)
    (TorrentError.peerWireError ("metadata size mismatch: expected " ++ toString totalSize ++
      " got " ++ toString bytes.length))
  pure bytes

/-! ## Fetching -/

section Fetch

variable (decode : Bytes → Except String Value)

def handshakeFields (payload : Bytes) : Option UInt8 × UInt64 :=
  match parseUntrusted decode payload with
  | some (.ok (.dict dict)) =>
      (match get dict (keyBytes "m") with
        | some (.dict extensions) =>
            match get extensions (keyBytes "ut_metadata") with
            | some (.int id) => some id.toUInt64.toUInt8
            | _ => none
        | _ => none,
      match get dict (keyBytes "metadata_size") with
        | some (.int size) => size.toUInt64
        | _ => 0)
  | _ => (none, 0)

def awaitHandshake : Nat → Stream UInt8 → Option ((Option UInt8 × UInt64) × Stream UInt8)
  | 0, stream => some ((none, 0), stream)
  | count + 1, stream =>
      match PeerConnection.recv stream with
      | .error _ _ => none
      | .ok (.extended 0 payload) stream => some (handshakeFields decode payload, stream)
      | .ok _ stream => awaitHandshake count stream

def pieceLen : Nat := 16 * 1024

structure FetchedPieces where
  pieces : ExtTreeMap UInt32 Bytes
  receivedBytes : Nat

section Pieces

variable (id : UInt8) (pieceCount metadataSize : Nat)

/-- Wait for a data message for a number of messages. -/
def awaitData : Nat → FetchedPieces → Stream UInt8 → Option (FetchedPieces × Stream UInt8)
  | 0, fetched, stream => some (fetched, stream)
  | count + 1, fetched, stream =>
      match PeerConnection.recv stream with
      | .error _ _ => none
      | .ok (.extended sent payload) stream =>
          if sent == id then
            match parseData decode payload with
            | .error _ => some (fetched, stream)
            | .ok (piece, _, data) =>
                if piece.toNat < pieceCount ∧ data.length ≤ pieceLen ∧
                    fetched.receivedBytes + data.length ≤ metadataSize then
                  some (⟨fetched.pieces.insert piece data,
                    fetched.receivedBytes + data.length⟩, stream)
                else none
          else awaitData count fetched stream
      | .ok _ stream => awaitData count fetched stream

def fetchPieces : Nat → FetchedPieces → Stream UInt8 → Option FetchedPieces
  | 0, fetched, _ => some fetched
  | count + 1, fetched, stream =>
      (awaitData decode id pieceCount metadataSize 20 fetched stream).bind fun next =>
        fetchPieces count next.1 next.2

end Pieces

def fetchInfoDict (stream : Stream UInt8) : Option Bytes := do
  let ((extension, size), stream) ← awaitHandshake decode 10 stream
  let id ← extension
  let metadataSize := size.toNat
  if metadataSize = 0 ∨ maxMetadataSize < metadataSize then none
  else
    let pieceCount := (metadataSize + pieceLen - 1) / pieceLen
    let fetched ← fetchPieces decode id pieceCount metadataSize pieceCount ⟨∅, 0⟩ stream
    (reassembleMetadata fetched.pieces metadataSize).toOption

/-- The metadata as the only entry of a torrent file. -/
def wrapInfo (infoDict : Bytes) : Bytes := keyBytes "d4:info" ++ infoDict ++ keyBytes "e"

/-- `fetch_metadata_from_peer`; what is sent to the peer does not limit what it may send. -/
def fetchMetadataFromPeer (sha1 : Bytes → ByteVector 20) (expectedInfoHash : ByteVector 20)
    (stream : Stream UInt8) : Option Metainfo := do
  let infoDict ← fetchInfoDict decode stream
  if sha1 infoDict ≠ expectedInfoHash then none
  else (Metainfo.fromBytes sha1 decode (wrapInfo infoDict)).toOption

end Fetch

/-! ## Identity -/

section Identity

variable {decode : Bytes → Except String Value} {sha1 : Bytes → ByteVector 20}
  {torrent : Metainfo}

theorem infoKey_eq : infoKey = [105, 110, 102, 111] := by decide +kernel

theorem wrapInfo_eq (infoDict : Bytes) :
    wrapInfo infoDict = 100 :: (([52] ++ 58 :: infoKey) ++ (infoDict ++ [101])) := by
  have opening : keyBytes "d4:info" = 100 :: ([52] ++ 58 :: infoKey) := by decide +kernel
  have closing : keyBytes "e" = [101] := by decide +kernel
  rw [wrapInfo, opening, closing, List.cons_append, List.cons_append, List.append_assoc]

theorem numeral_infoKey : Numeral [52] infoKey.length := by
  rw [infoKey_eq]
  exact ⟨by simp, by simp [isDigit], rfl⟩

theorem infoHash_wrapInfo {infoDict : Bytes} {value : Value} (encodes : Encodes infoDict value)
    (accepted : Metainfo.fromBytes sha1 decode (wrapInfo infoDict) = .ok torrent) :
    torrent.infoHash = sha1 infoDict := by
  obtain ⟨-, -, span, -, -, -, found, -, hash, -⟩ := Metainfo.fromBytes_eq_ok accepted
  obtain ⟨_, -, found⟩ := Checked.bind_eq_ok.mp found
  obtain ⟨last, walked, found⟩ := Checked.bind_eq_ok.mp found
  have here : (wrapInfo infoDict).drop 1 = ([52] ++ 58 :: infoKey) ++ (infoDict ++ [101]) := by
    rw [wrapInfo_eq]
    rfl
  have entry := infoSpanFrom_entry numeral_infoKey encodes here walked
  dsimp only at entry
  rw [if_pos rfl] at entry
  have stop := drop_add_length (drop_add_length here)
  obtain rfl := infoSpanFrom_end (getElem?_of_drop stop) entry.2
  cases found
  rw [hash, byteSpan_of_drop (drop_add_length here)]

theorem fetchMetadataFromPeer_eq_some {expected : ByteVector 20} {stream : Stream UInt8}
    (fetched : fetchMetadataFromPeer decode sha1 expected stream = some torrent) :
    ∃ infoDict, sha1 infoDict = expected ∧
      Metainfo.fromBytes sha1 decode (wrapInfo infoDict) = .ok torrent := by
  obtain ⟨infoDict, -, checked⟩ := Option.bind_eq_some_iff.mp fetched
  split at checked
  · cases checked
  · rename_i same
    refine ⟨infoDict, not_not.mp same, ?_⟩
    cases read : Metainfo.fromBytes sha1 decode (wrapInfo infoDict) with
    | error error =>
        rw [read] at checked
        cases checked
    | ok found =>
        rw [read] at checked
        cases checked
        rfl

/-- Whatever a peer sends, a torrent that is returned has the expected info hash exactly when
that is the hash of one encoded value. -/
theorem fetched_infoHash_iff {expected : ByteVector 20} {stream : Stream UInt8}
    (sound : Sound decode)
    (collisionFree : ∀ first second, sha1 first = expected → sha1 second = expected →
      first = second)
    (fetched : fetchMetadataFromPeer decode sha1 expected stream = some torrent) :
    torrent.infoHash = expected ↔
      ∃ bytes value, Encodes bytes value ∧ sha1 bytes = expected := by
  obtain ⟨infoDict, same, accepted⟩ := fetchMetadataFromPeer_eq_some fetched
  constructor
  · intro hash
    obtain ⟨_, _, _, info, value, _, _, _, _, sole, identity, _, _⟩ :=
      Metainfo.identified sound accepted
    obtain ⟨_, _, _, _, _, _, _, _, encodes, _⟩ := sole
    exact ⟨info, value, encodes, identity ▸ hash⟩
  · rintro ⟨bytes, value, encodes, hash⟩
    obtain rfl := collisionFree bytes infoDict hash same
    rw [infoHash_wrapInfo encodes accepted, hash]

end Identity

namespace MetadataSample

def single : Bytes :=
  keyBytes "d6:lengthi1e4:name1:a12:piece lengthi1e6:pieces20:aaaaaaaaaaaaaaaaaaaae"

/-- The same with a further entry behind it, for the file it will be put into. -/
def extended : Bytes := single ++ keyBytes "1:x0:"

def marked : ByteVector 20 := List.Vector.replicate 20 1

/-- A hash function that tells one byte string from all others. -/
def sha1 (chosen bytes : Bytes) : ByteVector 20 :=
  if bytes = chosen then marked else List.Vector.replicate 20 0

def peer (infoDict : Bytes) : Stream UInt8 :=
  let size := toString infoDict.length
  [PeerMessage.encode (.extended 0 (keyBytes
      ("d1:md11:ut_metadatai1ee13:metadata_sizei" ++ size ++ "ee"))),
    PeerMessage.encode (.extended 1 (keyBytes
      ("d8:msg_typei1e5:piecei0e10:total_sizei" ++ size ++ "ee") ++ infoDict))]

theorem collisionFree (chosen : Bytes) (first second : Bytes)
    (hash : sha1 chosen first = marked) (hash' : sha1 chosen second = marked) :
    first = second := by
  have only : ∀ bytes, sha1 chosen bytes = marked → bytes = chosen := by
    intro bytes same
    by_contra other
    rw [sha1, if_neg other] at same
    exact absurd same (by decide)
  rw [only first hash, only second hash']

theorem encodes_single : ∃ value, Encodes single value := by
  have shown : (readValue 200 single).map Prod.snd = some [] := by decide +kernel
  obtain ⟨⟨value, rest⟩, whole, same⟩ := Option.map_eq_some_iff.mp shown
  obtain rfl : rest = [] := same
  obtain ⟨bytes, eq, reads⟩ := (read_sound 200).1 single value [] whole
  rw [List.append_nil] at eq
  exact ⟨value, eq ▸ reads⟩

end MetadataSample

theorem fetched_infoHash_of_single : ∃ torrent,
    fetchMetadataFromPeer Bencode.read (MetadataSample.sha1 MetadataSample.single)
      MetadataSample.marked (MetadataSample.peer MetadataSample.single) = some torrent ∧
    torrent.infoHash = MetadataSample.marked := by
  have shown : (fetchMetadataFromPeer Bencode.read (MetadataSample.sha1 MetadataSample.single)
      MetadataSample.marked (MetadataSample.peer MetadataSample.single)).isSome = true := by
    decide +kernel
  obtain ⟨torrent, fetched⟩ := Option.isSome_iff_exists.mp shown
  obtain ⟨value, encodes⟩ := MetadataSample.encodes_single
  exact ⟨torrent, fetched, (fetched_infoHash_iff sound_read (MetadataSample.collisionFree _)
    fetched).mpr ⟨MetadataSample.single, value, encodes, if_pos rfl⟩⟩

/-- The metadata has the expected hash, but the torrent that is read from it has another. -/
theorem fetched_other_infoHash :
    (∀ first second,
      MetadataSample.sha1 MetadataSample.extended first = MetadataSample.marked →
      MetadataSample.sha1 MetadataSample.extended second = MetadataSample.marked →
      first = second) ∧
    (fetchMetadataFromPeer Bencode.read (MetadataSample.sha1 MetadataSample.extended)
      MetadataSample.marked (MetadataSample.peer MetadataSample.extended)).map
        Metainfo.infoHash = some (List.Vector.replicate 20 0) ∧
    MetadataSample.marked ≠ List.Vector.replicate 20 0 := by
  refine ⟨MetadataSample.collisionFree _, ?_, by decide⟩
  decide +kernel

end Vtorrent
