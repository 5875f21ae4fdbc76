import Vtorrent.ListWindows
import Vtorrent.TorrentFiles

/-!
# Where the bytes of a piece lie

A torrent is one sequence of bytes, the bytes of its files one after the other, cut into
pieces of one length.  A piece is written and read in segments, one for each file it meets.
The segments of all pieces are the bytes of all files, each once and in order.
-/

namespace Vtorrent

open ListWindow

/-- Why a call is aborted: arithmetic beyond 64 bits, or a slice that does not exist. -/
inductive Abort
  | overflow
  | outOfBounds
  deriving DecidableEq

/-- Arithmetic in `u64` with overflow checks. -/
def checked64 (number : Nat) : Except Abort Nat :=
  if number < 2 ^ 64 then .ok number else .error .overflow

/-- Saturating arithmetic in `u64`. -/
def saturating64 (number : Nat) : Nat := min number (2 ^ 64 - 1)

theorem checked64_of_lt {number : Nat} (small : number < 2 ^ 64) :
    checked64 number = .ok number :=
  if_pos small

theorem saturating64_of_lt {number : Nat} (small : number < 2 ^ 64) :
    saturating64 number = number := by
  unfold saturating64
  omega

/-- `piece_data[offset..offset + len]`. -/
def sliceAt (data : Bytes) (offset len : Nat) : Except Abort Bytes :=
  if offset + len ≤ data.length then .ok ((data.drop offset).take len)
  else .error .outOfBounds

/-- A file of a layout: its number, where it starts and how long it is. -/
structure FileRange where
  fileIndex : Nat
  fileStart : Nat
  fileLen : Nat

structure FileLayout where
  ranges : List FileRange
  pieceLength : Nat

/-- A part of a piece: the file, the place in it and the number of bytes. -/
structure SegmentRange where
  fileIndex : Nat
  fileOffset : Nat
  byteCount : Nat
  deriving DecidableEq

structure Segment where
  fileIndex : Nat
  fileOffset : Nat
  bytes : Bytes
  deriving DecidableEq

def Segment.range (segment : Segment) : SegmentRange :=
  ⟨segment.fileIndex, segment.fileOffset, segment.bytes.length⟩

def fileRanges : Nat → Nat → List TorrentFile → List FileRange
  | _, _, [] => []
  | index, offset, file :: files =>
      ⟨index, offset, file.length.toNat⟩ ::
        fileRanges (index + 1) (saturating64 (offset + file.length.toNat)) files

section Segments

variable (pieceStart pieceEnd : Nat)

/-- The segments with their bytes, `dataOffset` bytes of the piece being placed already. -/
def segmentsFrom (pieceData : Bytes) : Nat → List FileRange → Except Abort (List Segment)
  | _, [] => .ok []
  | dataOffset, range :: ranges =>
      let fileEnd := saturating64 (range.fileStart + range.fileLen)
      if fileEnd ≤ pieceStart then segmentsFrom pieceData dataOffset ranges
      else if pieceEnd ≤ range.fileStart then .ok []
      else
        let segStart := max pieceStart range.fileStart
        let segEnd := min pieceEnd fileEnd
        if segEnd ≤ segStart then segmentsFrom pieceData dataOffset ranges
        else do
          let len := segEnd - segStart
          let bytes ← sliceAt pieceData dataOffset len
          let segments ← segmentsFrom pieceData (dataOffset + len) ranges
          pure (⟨range.fileIndex, segStart - range.fileStart, bytes⟩ :: segments)

def segmentRangesFrom : List FileRange → Except Abort (List SegmentRange)
  | [] => .ok []
  | range :: ranges => do
      let fileEnd ← checked64 (range.fileStart + range.fileLen)
      if fileEnd ≤ pieceStart then segmentRangesFrom ranges
      else if pieceEnd ≤ range.fileStart then .ok []
      else
        let segStart := max pieceStart range.fileStart
        let segEnd := min pieceEnd fileEnd
        if segEnd ≤ segStart then segmentRangesFrom ranges
        else do
          let segments ← segmentRangesFrom ranges
          pure (⟨range.fileIndex, segStart - range.fileStart, segEnd - segStart⟩ :: segments)

end Segments

namespace FileLayout

def new (files : List TorrentFile) (pieceLength : UInt64) : FileLayout :=
  ⟨fileRanges 0 0 files, pieceLength.toNat⟩

/-- `piece_segments`. -/
def pieceSegments (layout : FileLayout) (pieceIndex : UInt32) (pieceData : Bytes) :
    Except Abort (List Segment) :=
  let pieceStart := saturating64 (pieceIndex.toNat * layout.pieceLength)
  let pieceEnd := saturating64 (pieceStart + pieceData.length)
  segmentsFrom pieceStart pieceEnd pieceData 0 layout.ranges

/-- `piece_segment_ranges`. -/
def pieceSegmentRanges (layout : FileLayout) (pieceIndex : UInt32) (pieceLen : Nat) :
    Except Abort (List SegmentRange) := do
  let pieceStart ← checked64 (pieceIndex.toNat * layout.pieceLength)
  let pieceEnd ← checked64 (pieceStart + pieceLen)
  segmentRangesFrom pieceStart pieceEnd layout.ranges

end FileLayout

/-- The length of a piece: zero behind the end, and the last piece may be shorter. -/
def Metainfo.pieceLengthAt (metainfo : Metainfo) (index : UInt32) : Nat :=
  match checked64 (index.toNat * metainfo.pieceLength.toNat) with
  | .error _ => 0
  | .ok start =>
      if metainfo.totalSize.toNat ≤ start then 0
      else min (metainfo.totalSize.toNat - start) metainfo.pieceLength.toNat

/-- The bytes of a segment: the file and the place of each. -/
def SegmentRange.places (segment : SegmentRange) : List (Nat × Nat) :=
  (List.range' segment.fileOffset segment.byteCount).map (Prod.mk segment.fileIndex)

/-- The bytes of files that follow each other, the first having the given number. -/
def filePlaces : Nat → List TorrentFile → List (Nat × Nat)
  | _, [] => []
  | index, file :: files =>
      (List.range' 0 file.length.toNat).map (Prod.mk index) ++ filePlaces (index + 1) files

theorem length_filePlaces (index : Nat) (files : List TorrentFile) :
    (filePlaces index files).length = lengthSum files := by
  induction files generalizing index with
  | nil => rfl
  | cons file files ih =>
      simp only [filePlaces, List.length_append, List.length_map, List.length_range', ih,
        lengthSum, List.map_cons, List.sum_cons]

theorem lengthSum_cons (file : TorrentFile) (files : List TorrentFile) :
    lengthSum (file :: files) = file.length.toNat + lengthSum files := by
  simp only [lengthSum, List.map_cons, List.sum_cons]

section Windows

variable {pieceStart pieceEnd : Nat}

theorem places_segment (index start len : Nat) :
    (⟨index, max pieceStart start - start,
        min pieceEnd (start + len) - max pieceStart start⟩ : SegmentRange).places =
      window (pieceStart - start) (pieceEnd - start)
        ((List.range' 0 len).map (Prod.mk index)) := by
  have offset : max pieceStart start - start = pieceStart - start := by omega
  have count : min pieceEnd (start + len) - max pieceStart start =
      min (pieceEnd - start) len - (pieceStart - start) := by omega
  rw [window_map, window_range', SegmentRange.places, offset, count]

theorem segmentRangesFrom_places {files : List TorrentFile} {index start : Nat}
    (small : start + lengthSum files < 2 ^ 64) :
    ∃ segments, segmentRangesFrom pieceStart pieceEnd (fileRanges index start files) =
        .ok segments ∧
      segments.flatMap SegmentRange.places =
        window (pieceStart - start) (pieceEnd - start) (filePlaces index files) := by
  induction files generalizing index start with
  | nil => exact ⟨[], rfl, by simp [filePlaces]⟩
  | cons file files ih =>
      rw [lengthSum_cons] at small
      have fits : start + file.length.toNat < 2 ^ 64 := by omega
      have places : window (pieceStart - start) (pieceEnd - start)
          (filePlaces index (file :: files)) =
          window (pieceStart - start) (pieceEnd - start)
            ((List.range' 0 file.length.toNat).map (Prod.mk index)) ++
          window (pieceStart - (start + file.length.toNat))
            (pieceEnd - (start + file.length.toNat)) (filePlaces (index + 1) files) := by
        rw [filePlaces, window_append, List.length_map, List.length_range', Nat.sub_sub,
          Nat.sub_sub]
      obtain ⟨segments, rest, later⟩ := @ih (index + 1) (start + file.length.toNat) (by omega)
      rw [places, ← later, fileRanges, segmentRangesFrom, saturating64_of_lt fits]
      simp only [checked64_of_lt fits, Checked.ok_bind]
      split
      · refine ⟨segments, rest, ?_⟩
        rw [window_of_length_le, List.nil_append]
        simp only [List.length_map, List.length_range']
        omega
      · split
        · refine ⟨[], rfl, ?_⟩
          rw [later, window_of_le (by omega), window_of_le (by omega)]
          rfl
        · split
          · rename_i empty
            have nothing : min pieceEnd (start + file.length.toNat) - max pieceStart start = 0 :=
              Nat.sub_eq_zero_of_le empty
            refine ⟨segments, rest, ?_⟩
            rw [← places_segment, nothing]
            rfl
          · refine ⟨_ :: segments, by rw [rest]; rfl, ?_⟩
            rw [List.flatMap_cons, places_segment]

theorem segmentsFrom_slices {files : List TorrentFile} {index start dataOffset : Nat}
    {data : Bytes} (small : start + lengthSum files < 2 ^ 64)
    (length : pieceEnd = pieceStart + data.length) (inside : pieceEnd ≤ start + lengthSum files)
    (placed : dataOffset = min start pieceEnd - pieceStart) :
    ∃ segments, segmentsFrom pieceStart pieceEnd data dataOffset
        (fileRanges index start files) = .ok segments ∧
      segmentRangesFrom pieceStart pieceEnd (fileRanges index start files) =
        .ok (segments.map Segment.range) ∧
      segments.flatMap Segment.bytes = data.drop dataOffset := by
  induction files generalizing index start dataOffset with
  | nil =>
      refine ⟨[], rfl, rfl, ?_⟩
      simp only [lengthSum, List.map_nil, List.sum_nil] at inside
      rw [List.drop_of_length_le (by omega)]
      rfl
  | cons file files ih =>
      rw [lengthSum_cons] at small inside
      have fits : start + file.length.toNat < 2 ^ 64 := by omega
      have next := fun {offset : Nat} => @ih (index + 1) (start + file.length.toNat) offset
        (by omega) (by omega)
      rw [fileRanges, segmentsFrom, segmentRangesFrom]
      simp only [checked64_of_lt fits, saturating64_of_lt fits, Checked.ok_bind]
      by_cases before : start + file.length.toNat ≤ pieceStart
      · simp only [if_pos before]
        exact next (by omega)
      · simp only [if_neg before]
        by_cases behind : pieceEnd ≤ start
        · simp only [if_pos behind]
          exact ⟨[], rfl, rfl, by rw [List.drop_of_length_le (by omega)]; rfl⟩
        · simp only [if_neg behind]
          by_cases empty : min pieceEnd (start + file.length.toNat) ≤ max pieceStart start
          · simp only [if_pos empty]
            exact next (by omega)
          · simp only [if_neg empty]
            have slice : dataOffset + (min pieceEnd (start + file.length.toNat) -
                max pieceStart start) ≤ data.length := by omega
            obtain ⟨segments, written, ranges, bytes⟩ := @next (dataOffset +
              (min pieceEnd (start + file.length.toNat) - max pieceStart start)) (by omega)
            refine ⟨_, by rw [sliceAt, if_pos slice, written]; rfl, ?_, ?_⟩
            · rw [ranges]
              have count : ((data.drop dataOffset).take (min pieceEnd
                  (start + file.length.toNat) - max pieceStart start)).length =
                  min pieceEnd (start + file.length.toNat) - max pieceStart start := by
                rw [List.length_take, List.length_drop]
                omega
              simp only [Checked.ok_bind, List.map_cons, Segment.range, count]
              rfl
            · rw [List.flatMap_cons, bytes, ← List.drop_drop, List.take_append_drop]

end Windows

theorem mul_lt_of_lt_ceilDiv {index total size : Nat} (below : index < total ⌈/⌉ size) :
    index * size < total := by
  rcases Nat.eq_zero_or_pos size with rfl | positive
  · simp at below
  · by_contra beyond
    have least : total ⌈/⌉ size ≤ index :=
      (ceilDiv_le_iff_le_smul positive).mpr (by
        rw [smul_eq_mul, Nat.mul_comm]
        exact Nat.not_lt.mp beyond)
    omega

section Pieces

variable {metainfo : Metainfo}

theorem Metainfo.pieceLengthAt_of_lt {index : UInt32}
    (inside : index.toNat * metainfo.pieceLength.toNat < metainfo.totalSize.toNat) :
    metainfo.pieceLengthAt index =
      min (metainfo.totalSize.toNat - index.toNat * metainfo.pieceLength.toNat)
        metainfo.pieceLength.toNat := by
  have small := metainfo.totalSize.toNat_lt
  rw [pieceLengthAt, checked64_of_lt (by omega)]
  exact if_neg (by omega)

theorem FileLayout.pieceSegmentRanges_places
    (total : metainfo.totalSize.toNat = lengthSum metainfo.files) {index : UInt32}
    (inside : index.toNat * metainfo.pieceLength.toNat < metainfo.totalSize.toNat) :
    ∃ segments, (FileLayout.new metainfo.files metainfo.pieceLength).pieceSegmentRanges index
        (metainfo.pieceLengthAt index) = .ok segments ∧
      segments.flatMap SegmentRange.places =
        window (index.toNat * metainfo.pieceLength.toNat)
          ((index.toNat + 1) * metainfo.pieceLength.toNat) (filePlaces 0 metainfo.files) := by
  have small := metainfo.totalSize.toNat_lt
  have length := Metainfo.pieceLengthAt_of_lt inside
  obtain ⟨segments, ranges, places⟩ := @segmentRangesFrom_places
    (index.toNat * metainfo.pieceLength.toNat)
    (index.toNat * metainfo.pieceLength.toNat + metainfo.pieceLengthAt index)
    metainfo.files 0 0 (by omega)
  refine ⟨segments, ?_, ?_⟩
  · simp only [pieceSegmentRanges, new]
    rw [checked64_of_lt (by omega), Checked.ok_bind, checked64_of_lt (by omega), Checked.ok_bind]
    exact ranges
  · rw [places, Nat.sub_zero, Nat.sub_zero]
    apply window_congr
    rw [length_filePlaces, Nat.add_mul, length]
    omega

theorem FileLayout.pieceSegments_slices
    (total : metainfo.totalSize.toNat = lengthSum metainfo.files) {index : UInt32}
    (inside : index.toNat * metainfo.pieceLength.toNat < metainfo.totalSize.toNat) {data : Bytes}
    (length : data.length = metainfo.pieceLengthAt index) :
    ∃ segments, (FileLayout.new metainfo.files metainfo.pieceLength).pieceSegments index data =
        .ok segments ∧
      (FileLayout.new metainfo.files metainfo.pieceLength).pieceSegmentRanges index
        (metainfo.pieceLengthAt index) = .ok (segments.map Segment.range) ∧
      segments.flatMap Segment.bytes = data := by
  have small := metainfo.totalSize.toNat_lt
  have bound := Metainfo.pieceLengthAt_of_lt inside
  obtain ⟨segments, written, ranges, bytes⟩ := @segmentsFrom_slices
    (index.toNat * metainfo.pieceLength.toNat)
    (index.toNat * metainfo.pieceLength.toNat + data.length) metainfo.files 0 0 0 data
    (by omega) rfl (by omega) (by omega)
  refine ⟨segments, ?_, ?_, bytes⟩
  · simp only [pieceSegments, new]
    rw [@saturating64_of_lt (index.toNat * metainfo.pieceLength.toNat) (by omega),
      saturating64_of_lt (by omega)]
    exact written
  · simp only [pieceSegmentRanges, new]
    rw [checked64_of_lt (by omega), Checked.ok_bind, checked64_of_lt (by omega), Checked.ok_bind,
      ← length]
    exact ranges

end Pieces

/-- The pieces of a torrent of the given number whose segments the layout computes. -/
def FileLayout.allSegmentRanges (metainfo : Metainfo) (count : Nat) :
    Except Abort (List (List SegmentRange)) :=
  (List.range count).mapM fun index =>
    (FileLayout.new metainfo.files metainfo.pieceLength).pieceSegmentRanges
      (UInt32.ofNat index) (metainfo.pieceLengthAt (UInt32.ofNat index))

/-- The segments of the pieces of a torrent cover every byte of every file once and in order,
as long as the pieces can be numbered, and the bytes of a piece are cut into the consecutive
slices that its segments hold. -/
theorem FileLayout.pieces_cover_files {metainfo : Metainfo}
    (total : metainfo.totalSize.toNat = lengthSum metainfo.files)
    (positive : 0 < metainfo.pieceLength.toNat)
    (numbered : metainfo.totalSize.toNat ≤ 2 ^ 32 * metainfo.pieceLength.toNat) :
    (∃ pieces, allSegmentRanges metainfo
        (metainfo.totalSize.toNat ⌈/⌉ metainfo.pieceLength.toNat) = .ok pieces ∧
      pieces.flatten.flatMap SegmentRange.places = filePlaces 0 metainfo.files) ∧
    ∀ index : UInt32, index.toNat < metainfo.totalSize.toNat ⌈/⌉ metainfo.pieceLength.toNat →
      ∀ data : Bytes, data.length = metainfo.pieceLengthAt index →
        ∃ segments,
          (FileLayout.new metainfo.files metainfo.pieceLength).pieceSegments index data =
            .ok segments ∧
          (FileLayout.new metainfo.files metainfo.pieceLength).pieceSegmentRanges index
            (metainfo.pieceLengthAt index) = .ok (segments.map Segment.range) ∧
          segments.flatMap Segment.bytes = data := by
  set count := metainfo.totalSize.toNat ⌈/⌉ metainfo.pieceLength.toNat with counted
  have bounded : ∀ index, count ≤ index ↔
      metainfo.totalSize.toNat ≤ metainfo.pieceLength.toNat * index := fun index =>
    ceilDiv_le_iff_le_smul positive
  have numbers : count ≤ 2 ^ 32 := (bounded _).mpr (by rwa [Nat.mul_comm])
  refine ⟨?_, fun index below data length =>
    pieceSegments_slices total (mul_lt_of_lt_ceilDiv below) length⟩
  have single : ∀ index ∈ List.range count, ∃ segments,
      (FileLayout.new metainfo.files metainfo.pieceLength).pieceSegmentRanges
        (UInt32.ofNat index) (metainfo.pieceLengthAt (UInt32.ofNat index)) = .ok segments ∧
      segments.flatMap SegmentRange.places =
        window (index * metainfo.pieceLength.toNat)
          ((index + 1) * metainfo.pieceLength.toNat) (filePlaces 0 metainfo.files) := by
    intro index member
    have below := List.mem_range.mp member
    have same : (UInt32.ofNat index).toNat = index :=
      UInt32.toNat_ofNat_of_lt' (below.trans_le numbers)
    obtain ⟨segments, ranges, places⟩ := pieceSegmentRanges_places total
      (show (UInt32.ofNat index).toNat * _ < _ by rw [same]; exact mul_lt_of_lt_ceilDiv below)
    rw [same] at places
    exact ⟨segments, ranges, places⟩
  choose! segments computed places using single
  refine ⟨(List.range count).map segments, ?_, ?_⟩
  · exact Checked.mapM_eq_ok.mpr (List.forall₂_map_right_iff.mpr
      (List.forall₂_same.mpr computed))
  · calc ((List.range count).map segments).flatten.flatMap SegmentRange.places
        = (List.range count).flatMap fun index =>
            (segments index).flatMap SegmentRange.places := by
          rw [← List.flatMap_def, List.flatMap_assoc]
      _ = (List.range count).flatMap fun index =>
            window (index * metainfo.pieceLength.toNat)
              ((index + 1) * metainfo.pieceLength.toNat) (filePlaces 0 metainfo.files) :=
          List.flatMap_congr places
      _ = filePlaces 0 metainfo.files := by
          rw [flatMap_window, window_zero]
          rw [length_filePlaces, ← total, Nat.mul_comm]
          exact (bounded count).mp le_rfl

namespace FileLayout

namespace Sample

def torrent (lengths : List UInt64) (pieceLength : UInt64) : Metainfo where
  infoHash := List.Vector.replicate 20 0
  name := "torrent"
  totalSize := lengths.sum
  pieceLength := pieceLength
  pieceCount := 0
  pieces := []
  announce := none
  announceList := []
  files := lengths.map fun length => ⟨[toString length], length, none⟩
  createdAt := none
  comment := none
  isPrivate := false

end Sample

/-- Three files, one of them empty, in pieces of two bytes. -/
theorem pieces_cover_three_files : ∃ pieces,
    allSegmentRanges (Sample.torrent [3, 0, 4] 2) 4 = .ok pieces ∧
      pieces.flatten.flatMap SegmentRange.places =
        filePlaces 0 (Sample.torrent [3, 0, 4] 2).files :=
  (@pieces_cover_files (Sample.torrent [3, 0, 4] 2) (by decide) (by decide) (by decide)).1

theorem places_of_single_bytes {length : UInt64} {index : UInt32}
    {segments : List SegmentRange}
    (inside : index.toNat < length.toNat)
    (computed : (FileLayout.new (Sample.torrent [length] 1).files 1).pieceSegmentRanges index
      ((Sample.torrent [length] 1).pieceLengthAt index) = .ok segments) :
    segments.flatMap SegmentRange.places = [(0, index.toNat)] := by
  have total : (Sample.torrent [length] 1).totalSize.toNat =
      lengthSum (Sample.torrent [length] 1).files := by
    simp [Sample.torrent, lengthSum]
  obtain ⟨segments', computed', places⟩ := @pieceSegmentRanges_places
    (Sample.torrent [length] 1) total index (by simpa [Sample.torrent] using inside)
  obtain rfl : segments = segments' := Except.ok.inj (computed.symm.trans computed')
  have count : min (index.toNat + 1) length.toNat - index.toNat = 1 := by omega
  rw [places]
  simp only [Sample.torrent, filePlaces, List.map_cons, List.map_nil, List.append_nil,
    window_map, window_range', UInt64.toNat_one, Nat.mul_one, count]
  rfl

/-- With more than `2 ^ 32` pieces a byte lies in no piece that has a number. -/
theorem byte_beyond_numbered_pieces :
    (Sample.torrent [8589934592] 1).totalSize.toNat =
        lengthSum (Sample.torrent [8589934592] 1).files ∧
      (0, 4294967296) ∈ filePlaces 0 (Sample.torrent [8589934592] 1).files ∧
      ∀ (index : UInt32) (segments : List SegmentRange),
        (FileLayout.new (Sample.torrent [8589934592] 1).files 1).pieceSegmentRanges index
          ((Sample.torrent [8589934592] 1).pieceLengthAt index) = .ok segments →
        (0, 4294967296) ∉ segments.flatMap SegmentRange.places := by
  refine ⟨by simp [Sample.torrent, lengthSum], ?_, ?_⟩
  · simp [Sample.torrent, filePlaces]
  · intro index segments computed
    have bound := index.toNat_lt
    have length : (8589934592 : UInt64).toNat = 8589934592 := rfl
    rw [places_of_single_bytes (by omega) computed, List.mem_singleton, Prod.mk.injEq]
    omega

end FileLayout

end Vtorrent
