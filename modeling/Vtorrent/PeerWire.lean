import Vtorrent.ChunkedReads
import Vtorrent.Primitives

/-!
# The peer wire protocol

Peers exchange length-prefixed messages.  A connection decodes the first message of a
buffer that it fills from the socket, and it starts each message with an empty buffer.  A
read from the socket that holds the end of one message and the beginning of the next
therefore costs the next message.
-/

namespace Vtorrent

open ChunkedReads

/-- The error of the torrent engine that the wire protocol returns. -/
inductive TorrentError where
  | peerWireError (reason : String)
deriving DecidableEq

/-- Big-endian bytes of a number, truncated to `width` bytes. -/
def beBytes (width number : Nat) : Bytes := (leBytes width number).reverse

/-- The number a big-endian byte string stands for. -/
def beValue (bytes : Bytes) : Nat := leValue bytes.reverse

@[simp]
theorem length_beBytes (width number : Nat) : (beBytes width number).length = width := by
  simp [beBytes]

theorem beValue_beBytes (width number : Nat) :
    beValue (beBytes width number) = number % 256 ^ width := by
  rw [beValue, beBytes, List.reverse_reverse, leValue_leBytes]

inductive PeerMessage where
  | handshake (infoHash peerId : ByteVector 20) (reserved : ByteVector 8)
  | keepAlive
  | choke
  | unchoke
  | interested
  | notInterested
  | havePiece (index : UInt32)
  | bitfield (bits : Bytes)
  | request (index start length : UInt32)
  | piece (index start : UInt32) (data : Bytes)
  | cancel (index start length : UInt32)
  | port (number : UInt16)
  | extended (id : UInt8) (payload : Bytes)
deriving DecidableEq

namespace PeerMessage

def encodeSimple (id : UInt8) : Bytes := [0, 0, 0, 1, id]

def encodeBlock (id : UInt8) (index start length : UInt32) : Bytes :=
  [0, 0, 0, 13, id] ++ beBytes 4 index.toNat ++ beBytes 4 start.toNat ++
    beBytes 4 length.toNat

def encode : PeerMessage → Bytes
  | handshake infoHash peerId reserved =>
      [19] ++ "BitTorrent protocol".toUTF8.toList ++ reserved.toList ++ infoHash.toList ++
        peerId.toList
  | keepAlive => [0, 0, 0, 0]
  | choke => encodeSimple 0
  | unchoke => encodeSimple 1
  | interested => encodeSimple 2
  | notInterested => encodeSimple 3
  | havePiece index => [0, 0, 0, 5, 4] ++ beBytes 4 index.toNat
  | bitfield bits => beBytes 4 (1 + bits.length) ++ [5] ++ bits
  | request index start length => encodeBlock 6 index start length
  | piece index start data =>
      beBytes 4 (9 + data.length) ++ [7] ++ beBytes 4 index.toNat ++
        beBytes 4 start.toNat ++ data
  | cancel index start length => encodeBlock 8 index start length
  | port number => [0, 0, 0, 3, 9] ++ beBytes 2 number.toNat
  | extended id payload => beBytes 4 (2 + payload.length) ++ [20] ++ [id] ++ payload

def maxMessageLength : Nat := 16 * 1024 * 1024

/-- `u32::from_be_bytes` of four bytes at an offset. -/
def u32At (payload : Bytes) (offset : Nat) : UInt32 :=
  UInt32.ofNat (beValue ((payload.drop offset).take 4))

def atLeast (count : Nat) (name : String) (payload : Bytes) (message : PeerMessage) :
    Except TorrentError PeerMessage :=
  if payload.length < count then .error (.peerWireError (name ++ ": payload too short"))
  else .ok message

/-- The message with the given id and payload; unknown ids are skipped as keep-alives. -/
def decodePayload (id : UInt8) (payload : Bytes) : Except TorrentError PeerMessage :=
  match id.toNat with
  | 0 => .ok choke
  | 1 => .ok unchoke
  | 2 => .ok interested
  | 3 => .ok notInterested
  | 4 => atLeast 4 "Have" payload (havePiece (u32At payload 0))
  | 5 => .ok (bitfield payload)
  | 6 => atLeast 12 "Request" payload
      (request (u32At payload 0) (u32At payload 4) (u32At payload 8))
  | 7 => atLeast 8 "Piece" payload
      (piece (u32At payload 0) (u32At payload 4) (payload.drop 8))
  | 8 => atLeast 12 "Cancel" payload
      (cancel (u32At payload 0) (u32At payload 4) (u32At payload 8))
  | 9 => atLeast 2 "Port" payload (port (UInt16.ofNat (beValue (payload.take 2))))
  | 20 => atLeast 1 "Extended" payload (extended (payload.headD 0) (payload.drop 1))
  | _ => .ok keepAlive

/-- Decode the message a buffer begins with, with the number of bytes consumed. -/
def decode (buf : Bytes) : Except TorrentError (Option (PeerMessage × Nat)) :=
  if buf.length < 4 then .ok none
  else
    let length := beValue (buf.take 4)
    if length > maxMessageLength then
      .error (.peerWireError ("message length " ++ toString length ++ " exceeds maximum " ++
        toString maxMessageLength))
    else if length = 0 then .ok (some (keepAlive, 4))
    else if buf.length < 4 + length then .ok none
    else
      match decodePayload (buf.getD 4 0) ((buf.take (4 + length)).drop 5) with
      | .error error => .error error
      | .ok message => .ok (some (message, 4 + length))

end PeerMessage

/-- `PeerConnection::recv`: receive one message from the reads still to come. -/
def PeerConnection.recv : EStateM TorrentError (Stream UInt8) PeerMessage :=
  receive PeerMessage.decode (.peerWireError "connection closed")

/-- Successive calls of `recv`. -/
def PeerConnection.recvMany : Nat → EStateM TorrentError (Stream UInt8) (List PeerMessage) :=
  receiveMany PeerMessage.decode (.peerWireError "connection closed")

namespace PeerMessage

def isHandshake : PeerMessage → Bool
  | handshake .. => true
  | _ => false

/-- A message other than a handshake whose encoding has at most 16 MiB. -/
def Sendable (message : PeerMessage) : Prop :=
  message.isHandshake = false ∧ message.encode.length ≤ maxMessageLength

/-! ## Frames -/

def body : PeerMessage → Bytes
  | handshake .. => []
  | keepAlive => []
  | choke => [0]
  | unchoke => [1]
  | interested => [2]
  | notInterested => [3]
  | havePiece index => 4 :: beBytes 4 index.toNat
  | bitfield bits => 5 :: bits
  | request index start length =>
      6 :: (beBytes 4 index.toNat ++ beBytes 4 start.toNat ++ beBytes 4 length.toNat)
  | piece index start data =>
      7 :: (beBytes 4 index.toNat ++ beBytes 4 start.toNat ++ data)
  | cancel index start length =>
      8 :: (beBytes 4 index.toNat ++ beBytes 4 start.toNat ++ beBytes 4 length.toNat)
  | port number => 9 :: beBytes 2 number.toNat
  | extended id payload => 20 :: id :: payload

theorem encode_eq_frame {message : PeerMessage} (plain : message.isHandshake = false) :
    message.encode = beBytes 4 message.body.length ++ message.body := by
  cases message with
  | handshake => simp [isHandshake] at plain
  | keepAlive => rfl
  | choke => rfl
  | unchoke => rfl
  | interested => rfl
  | notInterested => rfl
  | havePiece index => simp [encode, body]; rfl
  | bitfield bits => simp [encode, body, Nat.add_comm]
  | request index start length => simp [encode, encodeBlock, body]; rfl
  | piece index start data => simp [encode, body]; congr 1; omega
  | cancel index start length => simp [encode, encodeBlock, body]; rfl
  | port number => simp [encode, body]; rfl
  | extended id payload => simp [encode, body]; congr 1; omega

theorem u32At_field {before rest : Bytes} (value : UInt32) {offset : Nat}
    (placed : before.length = offset) :
    u32At (before ++ (beBytes 4 value.toNat ++ rest)) offset = value := by
  have field : ((before ++ (beBytes 4 value.toNat ++ rest)).drop offset).take 4 =
      beBytes 4 value.toNat := by
    rw [← placed, List.drop_left, List.take_left' (length_beBytes 4 _)]
  have small : value.toNat < 256 ^ 4 := value.toNat_lt
  rw [u32At, field, beValue_beBytes, Nat.mod_eq_of_lt small, UInt32.ofNat_toNat]

theorem u32At_first (first : UInt32) (rest : Bytes) :
    u32At (beBytes 4 first.toNat ++ rest) 0 = first :=
  @u32At_field [] rest first 0 rfl

theorem atLeast_enough {count : Nat} {name : String} {payload : Bytes}
    {message : PeerMessage} (enough : count ≤ payload.length) :
    atLeast count name payload message = .ok message := by
  rw [atLeast, if_neg (Nat.not_lt.mpr enough)]

theorem blockFields (index start length : UInt32) :
    u32At (beBytes 4 index.toNat ++ beBytes 4 start.toNat ++ beBytes 4 length.toNat) 0 =
        index ∧
      u32At (beBytes 4 index.toNat ++ beBytes 4 start.toNat ++ beBytes 4 length.toNat) 4 =
        start ∧
      u32At (beBytes 4 index.toNat ++ beBytes 4 start.toNat ++ beBytes 4 length.toNat) 8 =
        length := by
  refine ⟨?_, ?_, ?_⟩
  · rw [List.append_assoc]
    exact u32At_first index _
  · rw [List.append_assoc]
    exact u32At_field start (by simp)
  · rw [← List.append_nil (beBytes 4 length.toNat)]
    exact u32At_field length (by simp)

theorem decodePayload_body {message : PeerMessage} {id : UInt8} {payload : Bytes}
    (split : message.body = id :: payload) : decodePayload id payload = .ok message := by
  cases message with
  | handshake => cases split
  | keepAlive => cases split
  | choke => cases split; rfl
  | unchoke => cases split; rfl
  | interested => cases split; rfl
  | notInterested => cases split; rfl
  | havePiece index =>
      cases split
      have field := u32At_first index []
      rw [List.append_nil] at field
      exact (atLeast_enough (by simp)).trans (by rw [field])
  | bitfield bits => cases split; rfl
  | request index start length =>
      cases split
      obtain ⟨first, second, third⟩ := blockFields index start length
      exact (atLeast_enough (by simp)).trans (by rw [first, second, third])
  | piece index start data =>
      cases split
      have first := u32At_first index (beBytes 4 start.toNat ++ data)
      have second := @u32At_field (beBytes 4 index.toNat) data start 4 (by simp)
      have third : (beBytes 4 index.toNat ++ (beBytes 4 start.toNat ++ data)).drop 8 = data := by
        rw [← List.append_assoc]
        exact List.drop_left' (by simp)
      rw [List.append_assoc]
      exact (atLeast_enough (by simp; omega)).trans (by rw [first, second, third])
  | cancel index start length =>
      cases split
      obtain ⟨first, second, third⟩ := blockFields index start length
      exact (atLeast_enough (by simp)).trans (by rw [first, second, third])
  | port number =>
      cases split
      have small : number.toNat < 256 ^ 2 := number.toNat_lt
      have field : (beBytes 2 number.toNat).take 2 = beBytes 2 number.toNat :=
        List.take_of_length_le (by simp)
      refine (atLeast_enough (by simp)).trans ?_
      rw [field, beValue_beBytes, Nat.mod_eq_of_lt small, UInt16.ofNat_toNat]
  | extended id payload =>
      cases split
      exact atLeast_enough (by simp)

theorem length_encode_of_decodePayload {message : PeerMessage} {id : UInt8}
    {payload : Bytes} (decoded : decodePayload id payload = .ok message) :
    message.encode.length ≤ 5 + payload.length := by
  have enough : ∀ {count name candidate}, atLeast count name payload candidate = .ok message →
      count ≤ payload.length ∧ candidate = message := by
    intro count name candidate taken
    rw [atLeast] at taken
    split at taken
    · cases taken
    · exact ⟨by omega, Except.ok.inj taken⟩
  rw [decodePayload] at decoded
  split at decoded
  case h_5 | h_7 | h_8 | h_9 | h_10 | h_11 =>
    obtain ⟨longer, rfl⟩ := enough decoded
    simp only [encode, encodeBlock, List.length_append, List.length_cons, List.length_nil,
      List.length_drop, length_beBytes]
    omega
  all_goals
    obtain rfl := Except.ok.inj decoded
    simp only [encode, encodeSimple, List.length_append, List.length_cons, List.length_nil,
      length_beBytes]
    omega

theorem decode_encode {message : PeerMessage} (sendable : message.Sendable) :
    decode message.encode = .ok (some (message, message.encode.length)) := by
  obtain ⟨plain, small⟩ := sendable
  rw [encode_eq_frame plain] at small ⊢
  have bodySmall : message.body.length ≤ maxMessageLength := by
    simp only [List.length_append] at small
    omega
  have lengthField : beValue ((beBytes 4 message.body.length ++ message.body).take 4) =
      message.body.length := by
    rw [List.take_left' (length_beBytes 4 _), beValue_beBytes]
    apply Nat.mod_eq_of_lt
    simp only [maxMessageLength] at bodySmall
    omega
  have long : ¬ (beBytes 4 message.body.length ++ message.body).length < 4 := by simp
  rw [decode, if_neg long, lengthField, if_neg (by omega)]
  cases split : message.body with
  | nil =>
      have quiet : message = keepAlive := by
        cases message <;> simp_all [body, isHandshake]
      rw [if_pos List.length_nil, quiet]
      simp
  | cons id payload =>
      have whole : ¬ (beBytes 4 (id :: payload).length ++ id :: payload).length <
          4 + (id :: payload).length := by simp
      have first : (beBytes 4 (id :: payload).length ++ id :: payload).getD 4 0 = id := by
        simp [List.getD_eq_getElem?_getD]
      have rest : ((beBytes 4 (id :: payload).length ++ id :: payload).take
          (4 + (id :: payload).length)).drop 5 = payload := by
        rw [List.take_of_length_le (by simp), List.drop_append]
        simp
      rw [if_neg (by simp), if_neg whole, first, rest, decodePayload_body split]
      simp

theorem decode_part {message : PeerMessage} (sendable : message.Sendable) {buffer : Bytes}
    (begins : buffer <+: message.encode) (part : buffer ≠ message.encode) :
    decode buffer = .ok none := by
  obtain ⟨plain, small⟩ := sendable
  rw [encode_eq_frame plain] at small begins part
  have shorter : buffer.length < 4 + message.body.length := by
    have := begins.length_le
    have differ : buffer.length ≠ (beBytes 4 message.body.length ++ message.body).length :=
      fun same => part (begins.eq_of_length same)
    simp only [List.length_append, length_beBytes] at this differ
    omega
  by_cases few : buffer.length < 4
  · rw [decode, if_pos few]
  · have lengthField : beValue (buffer.take 4) = message.body.length := by
      obtain ⟨missing, completes⟩ := begins
      have taken := congrArg (List.take 4) completes
      rw [List.take_append_of_le_length (by omega),
        List.take_left' (length_beBytes 4 _)] at taken
      rw [taken, beValue_beBytes]
      apply Nat.mod_eq_of_lt
      simp only [List.length_append, maxMessageLength] at small
      omega
    simp only [List.length_append, length_beBytes] at small
    rw [decode, if_neg few, lengthField, if_neg (by omega), if_neg (by omega),
      if_pos shorter]

theorem length_encode_of_decode {buffer : Bytes} {message : PeerMessage} {used : Nat}
    (decoded : decode buffer = .ok (some (message, used))) :
    message.encode.length ≤ buffer.length := by
  rw [decode] at decoded
  by_cases few : buffer.length < 4
  · rw [if_pos few] at decoded
    cases decoded
  · rw [if_neg few] at decoded
    dsimp only at decoded
    split at decoded
    · cases decoded
    split at decoded
    · obtain ⟨rfl, rfl⟩ : keepAlive = message ∧ 4 = used := by simpa using decoded
      simp only [encode, List.length_cons, List.length_nil]
      omega
    split at decoded
    · cases decoded
    · cases taken : decodePayload (buffer.getD 4 0)
          ((buffer.take (4 + beValue (buffer.take 4))).drop 5) with
      | error error =>
          rw [taken] at decoded
          cases decoded
      | ok found =>
          simp only [taken, Except.ok.injEq, Option.some.injEq, Prod.mk.injEq] at decoded
          obtain ⟨rfl, -⟩ := decoded
          have bound := length_encode_of_decodePayload taken
          simp only [List.length_drop, List.length_take] at bound
          omega

theorem readsFrames : ReadsFrames decode encode Sendable where
  whole _ sendable := decode_encode sendable
  part _ sendable _ := decode_part sendable
  fits _ _ _ := length_encode_of_decode

end PeerMessage

/-! ## Receiving what was sent -/

/-- Successive calls of `recv` return the messages that were sent exactly when no read from
the socket holds bytes of two messages. -/
theorem recvMany_returns_iff_aligned {messages : List PeerMessage}
    (sendable : ∀ message ∈ messages, message.Sendable) {reads : Stream UInt8}
    (full : ∀ read ∈ reads, read ≠ [])
    (sent : reads.flatten = (messages.map PeerMessage.encode).flatten) :
    (∃ rest, PeerConnection.recvMany messages.length reads = .ok messages rest) ↔
      Aligned (messages.map PeerMessage.encode) reads :=
  PeerMessage.readsFrames.receiveMany_iff_aligned sendable full sent

/-- A choke in two reads and an unchoke in one. -/
theorem recvMany_returns_choke_unchoke :
    (∀ message ∈ [PeerMessage.choke, .unchoke], message.Sendable) ∧
      (∀ read ∈ ([[0, 0], [0, 1, 0], [0, 0, 0, 1, 1]] : Stream UInt8), read ≠ []) ∧
      (∃ rest, PeerConnection.recvMany 2 [[0, 0], [0, 1, 0], [0, 0, 0, 1, 1]] =
        .ok [.choke, .unchoke] rest) := by
  have sendable : ∀ message ∈ [PeerMessage.choke, .unchoke], message.Sendable := by
    simp [PeerMessage.Sendable, PeerMessage.isHandshake, PeerMessage.encode,
      PeerMessage.encodeSimple, PeerMessage.maxMessageLength]
  have full : ∀ read ∈ ([[0, 0], [0, 1, 0], [0, 0, 0, 1, 1]] : Stream UInt8), read ≠ [] := by
    simp
  exact ⟨sendable, full, (recvMany_returns_iff_aligned sendable full rfl).mpr
    ⟨[[[0, 0], [0, 1, 0]], [[0, 0, 0, 1, 1]]], rfl, rfl⟩⟩

/-- An unchoke that arrives in one read with a choke is lost: the second call finds the
connection closed. -/
theorem recvMany_loses_unchoke :
    (∀ message ∈ [PeerMessage.choke, .unchoke], message.Sendable) ∧
      ([[0, 0, 0, 1, 0, 0, 0, 0, 1, 1]] : Stream UInt8).flatten =
        ([PeerMessage.choke, .unchoke].map PeerMessage.encode).flatten ∧
      PeerConnection.recvMany 2 [[0, 0, 0, 1, 0, 0, 0, 0, 1, 1]] =
        .error (.peerWireError "connection closed") [] := by
  refine ⟨?_, rfl, rfl⟩
  simp [PeerMessage.Sendable, PeerMessage.isHandshake, PeerMessage.encode,
    PeerMessage.encodeSimple, PeerMessage.maxMessageLength]

end Vtorrent
