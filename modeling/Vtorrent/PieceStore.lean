import Vtorrent.FileLayouts
import Vtorrent.FiniteMapTotals

/-!
# Pieces on disk

A piece is written to the files it meets, under paths that come from the torrent, and read back
from them.  The download directory is the root of the tree of files.  A file system call either
does what it says or fails, and nobody else changes the tree.
-/

/-! ## Trees of files -/

namespace FileTree

open Std

/-- A path from the root, component by component. -/
abbrev Path := List String

inductive Node
  | directory
  | file (content : List UInt8)
  | symlink
  deriving DecidableEq

abbrev Tree := ExtTreeMap Path Node

/-- A file after some bytes were written from an offset on; a gap is filled with zeros. -/
def overwrite (content data : List UInt8) (offset : Nat) : List UInt8 :=
  if data.isEmpty then content
  else (content.take offset ++ List.replicate (offset - content.length) 0) ++
    (data ++ content.drop (offset + data.length))

/-- Exactly `count` bytes from an offset on. -/
def readExact (content : List UInt8) (offset count : Nat) : Option (List UInt8) :=
  if count = 0 ∨ offset + count ≤ content.length then some ((content.drop offset).take count)
  else none

/-- `create_dir`. -/
def createDirectory (tree : Tree) (path : Path) : Option Tree :=
  if tree[path.dropLast]? = some .directory ∧ tree[path]? = none then
    some (tree.insert path .directory)
  else none

def writeFile (tree : Tree) (path : Path) (offset : Nat) (data : List UInt8) : Option Tree :=
  match tree[path]? with
  | some (.file content) => some (tree.insert path (.file (overwrite content data offset)))
  | none =>
      if tree[path.dropLast]? = some .directory then
        some (tree.insert path (.file (overwrite [] data offset)))
      else none
  | some _ => none

/-- Read exactly `count` bytes of a file from an offset on. -/
def readFile (tree : Tree) (path : Path) (offset count : Nat) : Option (List UInt8) :=
  match tree[path]? with
  | some (.file content) => readExact content offset count
  | _ => none

end FileTree

/-! ## Pieces in such a tree -/

namespace Vtorrent

open FileTree ListWindow Std

/-- `valid_component`; an absolute path starts with a separator. -/
def validComponent (component : String) : Bool :=
  !component.isEmpty && component != "." && component != ".." &&
    component.toList.all fun character =>
      character != '/' && character != '\\' && character != ':'

def markerName : String := ".vtorrent-torrent"

def markerValue (infoHash : ByteVector 20) : Bytes :=
  keyBytes ("v1:" ++ hexEncode infoHash.toList ++ "\n")

def enterDirectories (create : Bool) : Tree → Path → List String → Option Path × Tree
  | tree, current, [] => (some current, tree)
  | tree, current, component :: components =>
      if !validComponent component then (none, tree)
      else
        let next := current ++ [component]
        match tree[next]? with
        | some .directory => enterDirectories create tree next components
        | some _ => (none, tree)
        | none =>
            if create then
              match createDirectory tree next with
              | some tree => enterDirectories create tree next components
              | none => (none, tree)
            else (none, tree)

/-- `safe_directory`; the base is a path without links. -/
def safeDirectory (tree : Tree) (base : Path) (components : List String) (create : Bool) :
    Option Path × Tree :=
  if tree[base]? = some .directory then enterDirectories create tree base components
  else (none, tree)

/-- `safe_file_path`. -/
def safeFilePath (tree : Tree) (base : Path) (components : List String) (create : Bool) :
    Option Path × Tree :=
  match components.getLast? with
  | none => (none, tree)
  | some name =>
      if !validComponent name || name == markerName then (none, tree)
      else
        match safeDirectory tree base components.dropLast create with
        | (none, tree) => (none, tree)
        | (some parent, tree) =>
            let path := parent ++ [name]
            match tree[path]? with
            | some .symlink | some .directory => (none, tree)
            | _ => (some path, tree)

/-- `ensure_torrent_marker`: the directory is new, or was made for the same torrent. -/
def ensureTorrentMarker (tree : Tree) (base : Path) (infoHash : ByteVector 20) : Bool × Tree :=
  let path := base ++ [markerName]
  match tree[path]? with
  | some (.file content) =>
      (decide (content.length ≤ 128) && content == markerValue infoHash, tree)
  | some _ => (false, tree)
  | none =>
      if tree.keys.any fun entry => !entry.isEmpty && entry.dropLast == base then (false, tree)
      else
        match writeFile tree path 0 (markerValue infoHash) with
        | some tree => (true, tree)
        | none => (false, tree)

def writeSegments (files : List TorrentFile) (base : Path) :
    Tree → List Segment → Except Abort (Bool × Tree)
  | tree, [] => .ok (true, tree)
  | tree, segment :: segments =>
      match files[segment.fileIndex]? with
      | none => .error .outOfBounds
      | some file =>
          match safeFilePath tree base file.path true with
          | (none, tree) => do
              let (_, tree) ← writeSegments files base tree segments
              pure (false, tree)
          | (some path, tree) =>
              match writeFile tree path segment.fileOffset segment.bytes with
              | none => do
                  let (_, tree) ← writeSegments files base tree segments
                  pure (false, tree)
              | some tree => writeSegments files base tree segments

/-- `write_piece_to_disk`. -/
def writePieceToDisk (metainfo : Metainfo) (tree : Tree) (pieceIndex : UInt32)
    (pieceData : Bytes) : Except Abort (Bool × Tree) :=
  let layout := FileLayout.new metainfo.files metainfo.pieceLength
  match safeDirectory tree [] [metainfo.name] true with
  | (none, tree) => .ok (false, tree)
  | (some base, tree) =>
      match ensureTorrentMarker tree base metainfo.infoHash with
      | (false, tree) => .ok (false, tree)
      | (true, tree) => do
          let segments ← layout.pieceSegments pieceIndex pieceData
          writeSegments metainfo.files base tree segments

def readSegments (files : List TorrentFile) (base : Path) (tree : Tree) :
    List SegmentRange → Except Abort (Option Bytes)
  | [] => .ok (some [])
  | segment :: segments =>
      match files[segment.fileIndex]? with
      | none => .error .outOfBounds
      | some file =>
          match (safeFilePath tree base file.path false).1 with
          | none => .ok none
          | some path =>
              match readFile tree path segment.fileOffset segment.byteCount with
              | none => .ok none
              | some bytes => do
                  let rest ← readSegments files base tree segments
                  pure (rest.map (bytes ++ ·))

/-- `read_piece_from_disk`. -/
def readPieceFromDisk (metainfo : Metainfo) (tree : Tree) (pieceIndex : UInt32) :
    Except Abort (Option Bytes) :=
  let layout := FileLayout.new metainfo.files metainfo.pieceLength
  match (safeDirectory tree [] [metainfo.name] false).1 with
  | none => .ok none
  | some base => do
      let segments ← layout.pieceSegmentRanges pieceIndex (metainfo.pieceLengthAt pieceIndex)
      readSegments metainfo.files base tree segments

end Vtorrent
