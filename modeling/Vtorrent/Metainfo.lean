import Vtorrent.Bencode
import Vtorrent.RetainedState
import Vtorrent.Primitives

/-!
# Torrent files

A torrent is identified by the hash of its info dictionary, as the bytes stand in the file.
A walker over the bytes finds that span, a library decodes the file into a value, and the
fields of the torrent are taken from the value.
-/

namespace Vtorrent

open Bencode

/-- The errors of the torrent engine that reading a torrent file returns. -/
inductive MetainfoError where
  | invalidMetainfo (reason : String)
  | bencodeError (reason : String)
deriving DecidableEq

/-! ## Nesting depth -/

/-- `str::parse` of a `usize`. -/
def parseUsize (text : Bytes) : Option Nat :=
  let digits := if text.head? == some 43 then text.tail else text
  if digits ≠ [] ∧ digits.all isDigit ∧ decimal digits < 2 ^ 64 then some (decimal digits)
  else none

def maxBencodeDepth : Nat := 32

/-- The loop of `bencode_depth_ok`; it consumes a byte each time. -/
def depthOkFrom (maxDepth : Nat) : Nat → Nat → Bytes → Bool
  | 0, _, _ => false
  | fuel + 1, depth, data =>
      match data with
      | [] => depth == 0
      | first :: rest =>
          if first == 100 || first == 108 then
            if maxDepth < depth + 1 then false else depthOkFrom maxDepth fuel (depth + 1) rest
          else if first == 101 then
            if depth = 0 then false else depthOkFrom maxDepth fuel (depth - 1) rest
          else if first == 105 then
            match rest.dropWhile (· != 101) with
            | [] => false
            | _ :: after => depthOkFrom maxDepth fuel depth after
          else if isDigit first then
            match data.dropWhile isDigit with
            | 58 :: after =>
                match parseUsize (data.takeWhile isDigit) with
                | none => false
                | some length =>
                    if after.length < length then false
                    else depthOkFrom maxDepth fuel depth (after.drop length)
            | _ => false
          else false

/-- `bencode_depth_ok`. -/
def bencodeDepthOk (data : Bytes) (maxDepth : Nat) : Bool :=
  depthOkFrom maxDepth (data.length + 1) 0 data

/-- `parse_untrusted`; `decode` is `serde_bencode::from_bytes`. -/
def parseUntrusted (decode : Bytes → Except String Value) (data : Bytes) :
    Option (Except String Value) :=
  if !bencodeDepthOk data maxBencodeDepth then none else some (decode data)

/-! ## The bytes of the info dictionary -/

/-- `skip_string`, from one position to the next. -/
def skipString (data : Bytes) (pos : Nat) : Except MetainfoError Nat := do
  let text := (data.drop pos).takeWhile (· != 58)
  rejectIf ((data.drop pos).all (· != 58))
    (MetainfoError.invalidMetainfo "Unterminated string length")
  match parseUsize text with
  | none => .error (.invalidMetainfo "Invalid string length")
  | some length =>
      let pos := pos + text.length + 1
      rejectIf (decide (2 ^ 64 ≤ pos + length))
        (MetainfoError.invalidMetainfo "String length overflow")
      rejectIf (decide (data.length < pos + length))
        (MetainfoError.invalidMetainfo "String exceeds input length")
      pure (pos + length)

mutual

/-- `skip_value`. -/
def skipValue (data : Bytes) : Nat → Nat → Except MetainfoError Nat
  | 0, _ => .error (.invalidMetainfo "Truncated value")
  | fuel + 1, pos =>
      match data[pos]? with
      | none => .error (.invalidMetainfo "Truncated value")
      | some first =>
          if first == 105 then do
            rejectIf ((data.drop pos).all (· != 101))
              (MetainfoError.invalidMetainfo "Unterminated integer")
            pure (pos + ((data.drop pos).takeWhile (· != 101)).length + 1)
          else if first == 108 || first == 100 then
            skipItems data (first == 100) fuel (pos + 1)
          else if isDigit first then skipString data pos
          else .error (.invalidMetainfo "Invalid bencode value")

/-- The loop of `skip_value` over the inside of a list or dictionary. -/
def skipItems (data : Bytes) (keyed : Bool) : Nat → Nat → Except MetainfoError Nat
  | 0, _ => .error (.invalidMetainfo "Truncated list or dict")
  | fuel + 1, pos =>
      match data[pos]? with
      | none => .error (.invalidMetainfo "Truncated list or dict")
      | some first =>
          if first == 101 then .ok (pos + 1)
          else do
            let pos ← if keyed then skipString data pos else pure pos
            let pos ← skipValue data fuel pos
            skipItems data keyed fuel pos

end

/-- The steps that skipping a value of the data can take. -/
def skipFuel (data : Bytes) : Nat := 2 * data.length + 2

def byteSpan (data : Bytes) (start stop : Nat) : Bytes := (data.take stop).drop start

def infoKey : Bytes := "info".toUTF8.toList

/-- The loop of `find_info_span` over the entries of the top-level dictionary. -/
def infoSpanFrom (data : Bytes) : Nat → Nat → Option (Nat × Nat) →
    Except MetainfoError (Option (Nat × Nat))
  | 0, _, _ => .error (.invalidMetainfo "Truncated top-level dict")
  | fuel + 1, pos, span =>
      match data[pos]? with
      | none => .error (.invalidMetainfo "Truncated top-level dict")
      | some first =>
          if first == 101 then .ok span
          else do
            let valStart ← skipString data pos
            let stop ← skipValue data (skipFuel data) valStart
            let key := byteSpan data pos valStart
            rejectIf (key.all (· != 58)) (MetainfoError.invalidMetainfo "Invalid dict key")
            if (key.dropWhile (· != 58)).tail == infoKey then do
              rejectIf span.isSome (MetainfoError.invalidMetainfo "duplicate 'info' key")
              infoSpanFrom data fuel stop (some (valStart, stop))
            else infoSpanFrom data fuel stop span

/-- `find_info_span`. -/
def findInfoSpan (data : Bytes) : Except MetainfoError (Nat × Nat) := do
  rejectIf (data[0]? != some 100) (MetainfoError.invalidMetainfo "Root is not a dict")
  let span ← infoSpanFrom data (data.length + 1) 1 none
  match span with
  | none => .error (.invalidMetainfo "Missing 'info' key")
  | some span => pure span

/-! ## Fields -/

abbrev BencodeDict := List (Bytes × Value)

/-- The `Debug` text of a byte slice. -/
def debugBytes (bytes : Bytes) : String :=
  "[" ++ ", ".intercalate (bytes.map fun byte => toString byte.toNat) ++ "]"

/-- `String::from_utf8`. -/
def fromUtf8 (bytes : Bytes) : Option String := String.fromUTF8? ⟨bytes.toArray⟩

def keyBytes (key : String) : Bytes := key.toUTF8.toList

def getString (dict : BencodeDict) (key : Bytes) : Except MetainfoError String :=
  match get dict key with
  | some (.bytes content) =>
      match fromUtf8 content with
      | some text => .ok text
      | none => .error (.invalidMetainfo ("Non-UTF8 value for key " ++ debugBytes key))
  | _ => .error (.invalidMetainfo ("Missing or invalid key " ++ debugBytes key))

def getInteger (dict : BencodeDict) (key : Bytes) : Except MetainfoError Int64 :=
  match get dict key with
  | some (.int number) => .ok number
  | _ => .error (.invalidMetainfo ("Missing or invalid integer key " ++ debugBytes key))

/-- `get_u64`. -/
def getU64 (dict : BencodeDict) (key : Bytes) : Except MetainfoError UInt64 := do
  let number ← getInteger dict key
  rejectIf (decide (number < 0))
    (MetainfoError.invalidMetainfo ("Integer key " ++ debugBytes key ++ " must be non-negative"))
  pure number.toUInt64

def pathComponent : Value → Except MetainfoError String
  | .bytes content =>
      match fromUtf8 content with
      | some text => .ok text
      | none => .error (.invalidMetainfo "Non-UTF8 path component")
  | _ => .error (.invalidMetainfo "Path component is not bytes")

def getStringList (dict : BencodeDict) (key : Bytes) : Except MetainfoError (List String) :=
  match get dict key with
  | some (.list items) => items.mapM pathComponent
  | _ => .error (.invalidMetainfo ("Missing or invalid list key " ++ debugBytes key))

def optionalText (dict : BencodeDict) (key : Bytes) : Option String :=
  match get dict key with
  | some (.bytes content) => fromUtf8 content
  | _ => none

def tierUrls : Value → List String
  | .list urls => urls.filterMap fun url =>
      match url with
      | .bytes content => fromUtf8 content
      | _ => none
  | _ => []

def parseAnnounceList (dict : BencodeDict) : List (List String) :=
  match get dict (keyBytes "announce-list") with
  | some (.list tiers) => (tiers.map tierUrls).filter fun urls => !urls.isEmpty
  | _ => []

structure TorrentFile where
  path : List String
  length : UInt64
  md5sum : Option String
deriving DecidableEq

structure Metainfo where
  infoHash : ByteVector 20
  name : String
  totalSize : UInt64
  pieceLength : UInt64
  pieceCount : UInt32
  pieces : List (ByteVector 20)
  announce : Option String
  announceList : List (List String)
  files : List TorrentFile
  createdAt : Option UInt64
  comment : Option String
  isPrivate : Bool
deriving DecidableEq

/-- The files that a list names, with their total length so far; what is not a dictionary is
passed over. -/
def readFiles (total : UInt64) : List Value → Except MetainfoError (List TorrentFile × UInt64)
  | [] => .ok ([], total)
  | .dict entries :: items => do
      let length ← getU64 entries (keyBytes "length")
      let path ← getStringList entries (keyBytes "path")
      let (files, total) ← readFiles (saturatingAdd total length) items
      pure ({ path, length, md5sum := none } :: files, total)
  | _ :: items => readFiles total items

def filesOf (info : BencodeDict) (name : String) :
    Except MetainfoError (List TorrentFile × UInt64) :=
  match get info (keyBytes "files") with
  | some (.list items) => readFiles 0 items
  | some _ => .error (.invalidMetainfo "'files' is not a list")
  | none => do
      let length ← getU64 info (keyBytes "length")
      pure ([{ path := [name], length, md5sum := none }], length)

def pieceHashes (content : Bytes) : List (ByteVector 20) :=
  (List.range (content.length / 20)).map fun index =>
    List.Vector.ofFn fun place => content.getD (20 * index + place.val) 0

def piecesOf (info : BencodeDict) : Except MetainfoError (List (ByteVector 20)) :=
  match get info (keyBytes "pieces") with
  | some (.bytes content) =>
      if content.length % 20 ≠ 0 then
        .error (.invalidMetainfo "pieces string length is not a multiple of 20")
      else .ok (pieceHashes content)
  | _ => .error (.invalidMetainfo "missing 'pieces' key")

/-- `u64::div_ceil`. -/
def divCeil (total length : UInt64) : Nat := (total.toNat + length.toNat - 1) / length.toNat

/-- The part of a torrent that its info dictionary determines. -/
structure InfoFields where
  name : String
  totalSize : UInt64
  pieceLength : UInt64
  pieceCount : UInt32
  pieces : List (ByteVector 20)
  files : List TorrentFile
  isPrivate : Bool

def infoFields (info : BencodeDict) : Except MetainfoError InfoFields := do
  let name ← getString info (keyBytes "name")
  let pieceLength ← getU64 info (keyBytes "piece length")
  rejectIf (pieceLength == 0) (MetainfoError.invalidMetainfo "'piece length' cannot be zero")
  let (files, totalSize) ← filesOf info name
  rejectIf (decide (2 ^ 32 ≤ divCeil totalSize pieceLength))
    (MetainfoError.invalidMetainfo "piece count exceeds u32 range")
  let pieceCount := UInt32.ofNat (divCeil totalSize pieceLength)
  let pieces ← piecesOf info
  rejectIf (pieces.length != pieceCount.toNat)
    (MetainfoError.invalidMetainfo ("piece count " ++ toString pieceCount ++
      " does not match pieces hash count " ++ toString pieces.length))
  let isPrivate := match get info (keyBytes "private") with
    | some (.int number) => number == 1
    | _ => false
  pure { name, totalSize, pieceLength, pieceCount, pieces, files, isPrivate }

namespace Metainfo

section Parse

variable (sha1 : Bytes → ByteVector 20) (decode : Bytes → Except String Value)

def rootDict (data : Bytes) : Except MetainfoError BencodeDict :=
  match parseUntrusted decode data with
  | none => .error (.bencodeError "bencode nesting too deep")
  | some (.error reason) => .error (.bencodeError reason)
  | some (.ok (.dict entries)) => .ok entries
  | some (.ok _) => .error (.invalidMetainfo "Root is not a dict")

/-- The fields of the value under `info`. -/
def fieldsOf : Value → Except MetainfoError InfoFields
  | .dict info => infoFields info
  | _ => .error (.invalidMetainfo "'info' is not a dict")

/-- `from_bytes`. -/
def fromBytes (data : Bytes) : Except MetainfoError Metainfo := do
  let dict ← rootDict decode data
  match get dict infoKey with
  | none => .error (.invalidMetainfo "Missing 'info' key")
  | some value => do
      let span ← findInfoSpan data
      let fields ← fieldsOf value
      pure {
        infoHash := sha1 (byteSpan data span.1 span.2)
        name := fields.name
        totalSize := fields.totalSize
        pieceLength := fields.pieceLength
        pieceCount := fields.pieceCount
        pieces := fields.pieces
        announce := optionalText dict (keyBytes "announce")
        announceList := parseAnnounceList dict
        files := fields.files
        createdAt := match get dict (keyBytes "creation date") with
          | some (.int number) => some number.toUInt64
          | _ => none
        comment := optionalText dict (keyBytes "comment")
        isPrivate := fields.isPrivate }

end Parse

end Metainfo

end Vtorrent
