import Mathlib.Algebra.Order.BigOperators.Group.List
import FuseTransport.Foundation.Bitmap
import FuseTransport.Foundation.Splice
import FuseTransport.Proto.Handshake
import FuseTransport.Transfer.Chunks

/-!
# The part file

A file sink keeps the blocks of an unfinished transfer in a part file.  Behind the data it
saves a trailer: one bit for every chunk that is fully written, and a footer that says what
the bits are about.  A later session that opens the file reads the trailer back.
-/

namespace FuseTransport.Transfer

open Proto Foundation Foundation.BigEndian Foundation.Splice

def kFooterLen : Nat := 48

def kMagic : List UInt8 := [70, 85, 83, 69, 82, 83, 77, 49]

structure Trailer where
  fileId : Nat
  total : Nat
  chunk : Nat
  nchunks : Nat
  bitmap : List UInt8
  deriving DecidableEq, Repr

/-- The sums of the geometry are made in machine words. -/
def chunkCount (total chunk : Nat) : Nat := u64Sub (u64 (total + chunk)) 1 / chunk

def bitmapLen (nchunks : Nat) : Nat := u64 (nchunks + 7) / 8

def footerFields (fileId total chunk nchunks : Nat) : List UInt8 :=
  putAll 8 [fileId, total, chunk, nchunks]

def loadTrailer (part : List UInt8) : Option Trailer :=
  let size := part.length
  let f := part.drop (size - kFooterLen)
  let fileId := getAt 8 0 f
  let total := getAt 8 8 f
  let chunk := getAt 8 16 f
  let nchunks := getAt 8 24 f
  let sum := getAt 8 32 f
  let bitmap := (part.drop total).take (bitmapLen nchunks)
  if size < kFooterLen ∨ f.drop 40 ≠ kMagic then none
  else if chunk = 0 ∨ total > size ∨ nchunks ≠ chunkCount total chunk then none
  else if size ≠ u64 (u64 (total + bitmapLen nchunks) + kFooterLen) then none
  else if bitmap.length ≠ bitmapLen nchunks then none
  else if hash64 (bitmap ++ f.take 32) ≠ sum then none
  else some { fileId := fileId, total := total, chunk := chunk, nchunks := nchunks, bitmap := bitmap }

/-- `adopted` marks the chunks taken over from an earlier session; the code does not keep
it. -/
structure FileSink where
  part : List UInt8 := []
  prior : Option Trailer := none
  prepared : Bool := false
  resumed : Bool := false
  resumedBytes : Nat := 0
  fileId : Nat := 0
  total : Nat := 0
  chunk : Nat := 1
  nchunks : Nat := 0
  counters : Nat → Nat := fun _ => 0
  adopted : Nat → Bool := fun _ => false

/-- The loop that takes over the marked chunks, with the counters and the bytes taken over;
`none` when it reads past the end of the bitmap. -/
def adopt (bitmap : List UInt8) (chunk total : Nat) :
    List Nat → (Nat → Nat) → Nat → Option ((Nat → Nat) × Nat)
  | [], counters, resumedBytes => some (counters, resumedBytes)
  | i :: rest, counters, resumedBytes =>
    bitmap[i / 8]?.bind fun byte =>
      if Bitmap.hasBit byte i then
        adopt bitmap chunk total rest (Function.update counters i (chunkLen i chunk total))
          (u64 (resumedBytes + chunkLen i chunk total))
      else adopt bitmap chunk total rest counters resumedBytes

inductive Prepared where
  | pastBitmap
  | refused
  | ready (s : FileSink)

namespace FileSink

/-- Open the part file, which may be there already.  `reads` tells whether its trailer could
be read. -/
def openPart (existing : Option (List UInt8)) (reads : Bool) : FileSink :=
  match existing with
  | none => {}
  | some part => { part := part, prior := if reads then loadTrailer part else none }

def sameFile (prior : Trailer) (fileId totalBytes chunk nchunks : Nat) : Bool :=
  fileId ≠ 0 && prior.fileId = fileId && prior.total = totalBytes && prior.chunk = chunk &&
    prior.nchunks = nchunks

variable (s : FileSink)

/-- The sink with the geometry of a file and no bytes counted. -/
def sized (totalBytes fileId : Nat) : FileSink :=
  { s with
    prior := s.prior.map fun prior => { prior with bitmap := [] }
    prepared := true
    fileId := fileId
    total := totalBytes
    chunk := chunkFor totalBytes
    nchunks := chunkCount totalBytes (chunkFor totalBytes)
    counters := fun _ => 0 }

/-- The earlier session's trailer, when it is of this very file. -/
def takenOver (totalBytes fileId : Nat) : Option Trailer :=
  s.prior.filter fun prior =>
    sameFile prior fileId totalBytes (chunkFor totalBytes)
      (chunkCount totalBytes (chunkFor totalBytes))

def takeOver (prior : Trailer) (totalBytes fileId : Nat) : Prepared :=
  (adopt prior.bitmap (chunkFor totalBytes) totalBytes
    (List.range (chunkCount totalBytes (chunkFor totalBytes))) (fun _ => 0) s.resumedBytes).elim
    .pastBitmap fun found =>
      .ready { s.sized totalBytes fileId with
        resumed := true
        resumedBytes := found.2
        counters := found.1
        adopted := fun i => decide (i < chunkCount totalBytes (chunkFor totalBytes)) &&
          Bitmap.marked prior.bitmap i }

/-- Start with an empty file.  `truncates` is the outcome of setting the file's size. -/
def startOver (truncates : Bool) (totalBytes fileId : Nat) : Prepared :=
  if truncates then .ready { s.sized totalBytes fileId with part := List.replicate totalBytes 0 }
  else .refused

/-- Take over the earlier session's chunks, or start with an empty file.  `allocates` is the
outcome of the allocation of the counters. -/
def prepare (allocates truncates : Bool) (totalBytes fileId : Nat) : Prepared :=
  if totalBytes > kMaxSize ∨ allocates = false then .refused
  else match s.takenOver totalBytes fileId with
    | some prior => s.takeOver prior totalBytes fileId
    | none => s.startOver truncates totalBytes fileId

/-- One turn of the snapshot's loop, which has read `seen` in the counter of chunk `i`. -/
def look (bitmap : List UInt8) (i seen : Nat) : List UInt8 :=
  if seen ≥ chunkLen i s.chunk s.total then Bitmap.mark bitmap i else bitmap

/-- The trailer's bitmap when the snapshot reads `seen i` in the counter of chunk `i`. -/
def snapshot (seen : Nat → Nat) : List UInt8 :=
  (List.range s.nchunks).foldl (fun bitmap i => s.look bitmap i (seen i))
    (List.replicate (bitmapLen s.nchunks) 0)

def trailer (bitmap : List UInt8) : List UInt8 :=
  let fields := footerFields s.fileId s.total s.chunk s.nchunks
  bitmap ++ fields ++ put 8 (hash64 (bitmap ++ fields)) ++ kMagic

/-- Write a trailer behind the data.  `placed` is how much of it is written when a sync or a
write fails. -/
def saveTrailer (bitmap : List UInt8) (placed : Option Nat) : FileSink :=
  let written := match placed with
    | none => s.trailer bitmap
    | some count => (s.trailer bitmap).take count
  { s with part := splice 0 s.part s.total written }

/-- Save which chunks are complete, all counters being read as `seen` has them. -/
def checkpoint (seen : Nat → Nat) (placed : Option Nat) : FileSink :=
  if s.prepared = false ∨ s.fileId = 0 then s else s.saveTrailer (s.snapshot seen) placed

end FileSink

theorem growChunk_le (fuel totalBytes chunk : Nat) :
    growChunk fuel totalBytes chunk ≤ max chunk totalBytes := by
  induction fuel generalizing chunk with
  | zero => exact Nat.le_max_left _ _
  | succ fuel ih =>
    rw [growChunk]
    split
    · rename_i hmany
      have hroom : chunk * (8 * 2 ^ 20) ≤ totalBytes := by
        have hdiv := Nat.div_mul_le_self totalBytes chunk
        have hmul := Nat.mul_le_mul_right chunk (Nat.le_of_lt hmany)
        rw [Nat.mul_comm chunk]
        exact Nat.le_trans hmul hdiv
      have := ih (chunk * 2)
      omega
    · exact Nat.le_max_left _ _

variable {totalBytes : Nat}

/-- The geometry of a file of a possible size fits a machine word. -/
theorem chunkFor_lt (small : totalBytes ≤ kMaxSize) :
    totalBytes + chunkFor totalBytes < 2 ^ 64 := by
  have hle : chunkFor totalBytes ≤ max (64 * 1024) totalBytes := growChunk_le 64 totalBytes _
  unfold kMaxSize at small
  omega

theorem chunkCount_eq {chunk : Nat} (positive : 0 < chunk) (fits : totalBytes + chunk < 2 ^ 64) :
    chunkCount totalBytes chunk = (totalBytes + chunk - 1) / chunk := by
  rw [chunkCount, u64_of_lt fits, u64Sub_of_le (by omega) fits]

theorem chunkCount_le {chunk : Nat} (positive : 0 < chunk) (fits : totalBytes + chunk < 2 ^ 64) :
    chunkCount totalBytes chunk ≤ totalBytes := by
  rw [chunkCount_eq positive fits]
  refine Nat.le_of_lt_succ ((Nat.div_lt_iff_lt_mul positive).mpr ?_)
  have : totalBytes ≤ totalBytes * chunk := Nat.le_mul_of_pos_right _ positive
  rw [Nat.succ_mul]
  omega

theorem bitmapLen_eq {nchunks : Nat} (fits : nchunks + 7 < 2 ^ 64) :
    bitmapLen nchunks = (nchunks + 7) / 8 := by
  rw [bitmapLen, u64_of_lt fits]

/-! ## Reading a trailer -/

variable {t : Trailer}

/-- A trailer that is accepted is as long as it says, and so is the file. -/
theorem loadTrailer_some {part : List UInt8} (loads : loadTrailer part = some t) :
    t.bitmap.length = bitmapLen t.nchunks ∧
      part.length = u64 (u64 (t.total + bitmapLen t.nchunks) + kFooterLen) := by
  unfold loadTrailer at loads
  dsimp only at loads
  split at loads
  · cases loads
  split at loads
  · cases loads
  split at loads
  · cases loads
  rename_i hsize
  split at loads
  · cases loads
  rename_i hbitmap
  split at loads
  · cases loads
  cases loads
  exact ⟨not_not.mp hbitmap, not_not.mp hsize⟩

namespace FileSink

variable {s : FileSink}

/-- The shape of a sink that has been prepared: the file holds the data, and behind it no
more than a trailer. -/
structure Shaped (s : FileSink) : Prop where
  prepared : s.prepared = true
  small : s.total ≤ kMaxSize
  chunk : s.chunk = chunkFor s.total
  nchunks : s.nchunks = chunkCount s.total s.chunk
  fileId : s.fileId < 2 ^ 64
  data : s.total ≤ s.part.length
  behind : s.part.length ≤ s.total + bitmapLen s.nchunks + kFooterLen

namespace Shaped

theorem chunk_pos (shaped : s.Shaped) : 0 < s.chunk := by
  rw [shaped.chunk]
  exact chunkFor_pos _

theorem fits (shaped : s.Shaped) : s.total + s.chunk < 2 ^ 64 := by
  rw [shaped.chunk]
  exact chunkFor_lt shaped.small

theorem nchunks_le (shaped : s.Shaped) : s.nchunks ≤ s.total := by
  rw [shaped.nchunks]
  exact chunkCount_le shaped.chunk_pos shaped.fits

theorem bitmapLen (shaped : s.Shaped) : Transfer.bitmapLen s.nchunks = (s.nchunks + 7) / 8 := by
  have := shaped.nchunks_le
  have := shaped.small
  unfold kMaxSize at this
  exact bitmapLen_eq (by omega)

end Shaped

theorem length_trailer (s : FileSink) (bitmap : List UInt8) :
    (s.trailer bitmap).length = bitmap.length + kFooterLen := by
  simp only [trailer, List.length_append]
  rfl

theorem snapshot_eq_fill (s : FileSink) (seen : Nat → Nat) :
    s.snapshot seen = Bitmap.fill (fun i => decide (chunkLen i s.chunk s.total ≤ seen i)) s.nchunks
      (List.replicate (Transfer.bitmapLen s.nchunks) 0) := by
  simp only [snapshot, Bitmap.fill, look, decide_eq_true_eq]

/-- The snapshot marks exactly the chunks whose counters it read as complete. -/
theorem marked_snapshot (shaped : s.Shaped) (seen : Nat → Nat) (i : Nat) :
    Bitmap.marked (s.snapshot seen) i =
      (decide (i < s.nchunks) && decide (chunkLen i s.chunk s.total ≤ seen i)) := by
  have hroom : (s.nchunks + 7) / 8 ≤
      (List.replicate (Transfer.bitmapLen s.nchunks) (0 : UInt8)).length := by
    rw [List.length_replicate, shaped.bitmapLen]
  rw [snapshot_eq_fill, Bitmap.marked_fill _ hroom, Bitmap.marked_replicate, Bool.false_or]

theorem length_snapshot (s : FileSink) (seen : Nat → Nat) :
    (s.snapshot seen).length = Transfer.bitmapLen s.nchunks := by
  rw [snapshot_eq_fill, Bitmap.length_fill, List.length_replicate]

/-- A trailer that was saved behind the data is read back. -/
theorem loadTrailer_trailer (shaped : s.Shaped) (small : s.total ≤ 2 ^ 62) {data bitmap : List UInt8}
    (whole : data.length = s.total) (sized : bitmap.length = Transfer.bitmapLen s.nchunks) :
    loadTrailer (data ++ s.trailer bitmap) =
      some ⟨s.fileId, s.total, s.chunk, s.nchunks, bitmap⟩ := by
  have hpos := shaped.chunk_pos
  have hfits := shaped.fits
  have hcount := shaped.nchunks_le
  have hlen := shaped.bitmapLen
  have hsize : (data ++ s.trailer bitmap).length =
      s.total + Transfer.bitmapLen s.nchunks + kFooterLen := by
    rw [List.length_append, length_trailer, whole, sized, Nat.add_assoc]
  have hkept : kFooterLen = 48 := rfl
  obtain ⟨sum, hsum⟩ : ∃ sum, sum = hash64 (bitmap ++ footerFields s.fileId s.total s.chunk s.nchunks) :=
    ⟨_, rfl⟩
  have hfooter : (data ++ s.trailer bitmap).drop
      ((data ++ s.trailer bitmap).length - kFooterLen) =
        putAll 8 [s.fileId, s.total, s.chunk, s.nchunks, sum] ++ kMagic := by
    have hsplit : data ++ s.trailer bitmap = (data ++ bitmap) ++
        (putAll 8 [s.fileId, s.total, s.chunk, s.nchunks, sum] ++ kMagic) := by
      rw [trailer, ← hsum]
      simp [footerFields, putAll]
    rw [hsize, hsplit]
    exact List.drop_left' (by rw [List.length_append]; omega)
  have hbounded : ∀ value ∈ [s.fileId, s.total, s.chunk, s.nchunks, sum], value < 256 ^ 8 := by
    have hhash : sum < 2 ^ 64 := hsum ▸ hash64_lt _
    have hid := shaped.fileId
    intro value member
    simp only [List.mem_cons, List.not_mem_nil, or_false] at member
    rcases member with rfl | rfl | rfl | rfl | rfl <;> omega
  have hread := getAt_putAll [s.fileId, s.total, s.chunk, s.nchunks, sum] kMagic hbounded
  have hfileId := hread 0 (by simp)
  have htotal := hread 1 (by simp)
  have hchunk := hread 2 (by simp)
  have hnchunks := hread 3 (by simp)
  have hchecksum := hread 4 (by simp)
  have hbitmap : ((data ++ s.trailer bitmap).drop s.total).take (Transfer.bitmapLen s.nchunks) =
      bitmap := by
    rw [List.drop_left' whole, trailer, List.append_assoc, List.append_assoc]
    exact List.take_left' sized
  have hmagic : (putAll 8 [s.fileId, s.total, s.chunk, s.nchunks, sum] ++ kMagic).drop 40 = kMagic :=
    List.drop_left' (length_putAll 8 _)
  have hfields : (putAll 8 [s.fileId, s.total, s.chunk, s.nchunks, sum] ++ kMagic).take 32 =
      footerFields s.fileId s.total s.chunk s.nchunks := by
    have hsplit : putAll 8 [s.fileId, s.total, s.chunk, s.nchunks, sum] ++ kMagic =
        footerFields s.fileId s.total s.chunk s.nchunks ++ (put 8 sum ++ kMagic) := by
      simp [footerFields, putAll]
    rw [hsplit]
    exact List.take_left' (length_putAll 8 _)
  unfold loadTrailer
  dsimp only
  rw [hfooter, show getAt 8 0 _ = s.fileId from hfileId, show getAt 8 8 _ = s.total from htotal,
    show getAt 8 16 _ = s.chunk from hchunk, show getAt 8 24 _ = s.nchunks from hnchunks,
    show getAt 8 32 _ = sum from hchecksum, hbitmap, hfields, if_neg ?_,
    if_neg ?_, if_neg ?_, if_neg (not_not.mpr sized), if_neg (not_not.mpr hsum.symm)]
  · have hinner : u64 (s.total + Transfer.bitmapLen s.nchunks) =
        s.total + Transfer.bitmapLen s.nchunks := u64_of_lt (by omega)
    rw [hinner, u64_of_lt (by omega)]
    exact not_not.mpr hsize
  · rintro (hzero | hlarge | hcounts)
    · omega
    · omega
    · exact hcounts shaped.nchunks
  · rintro (hshort | hother)
    · omega
    · exact hother rfl

/-! ## Taking over an earlier session -/

theorem marked_of_byte {bitmap : List UInt8} {i : Nat} {byte : UInt8}
    (present : bitmap[i / 8]? = some byte) : Bitmap.marked bitmap i = Bitmap.hasBit byte i := by
  rw [Bitmap.marked, present]

def markedBytes (bitmap : List UInt8) (chunk total : Nat) (chunks : List Nat) : Nat :=
  ((chunks.filter (Bitmap.marked bitmap)).map fun i => chunkLen i chunk total).sum

/-- The loop takes over exactly the marked chunks; it reads inside the bitmap when the
bitmap has a byte for every chunk. -/
theorem adopt_spec {bitmap : List UInt8} (chunk total : Nat) {chunks : List Nat}
    (inside : ∀ i ∈ chunks, i / 8 < bitmap.length) (counters : Nat → Nat) {resumedBytes : Nat}
    (fits : resumedBytes < 2 ^ 64) :
    adopt bitmap chunk total chunks counters resumedBytes =
      some (fun i => if i ∈ chunks ∧ Bitmap.marked bitmap i = true then chunkLen i chunk total
          else counters i,
        u64 (resumedBytes + markedBytes bitmap chunk total chunks)) := by
  induction chunks generalizing counters resumedBytes with
  | nil => simp [adopt, markedBytes, u64_of_lt fits]
  | cons first rest ih =>
    have hbyte := List.getElem?_eq_getElem (inside first List.mem_cons_self)
    have hmarked := marked_of_byte hbyte
    have hrest := fun i member => inside i (List.mem_cons_of_mem first member)
    rw [adopt, hbyte, Option.bind_some, ← hmarked]
    cases hbit : Bitmap.marked bitmap first with
    | false =>
      rw [if_neg (by decide), ih hrest counters fits]
      have hsum : markedBytes bitmap chunk total (first :: rest) =
          markedBytes bitmap chunk total rest := by
        simp [markedBytes, hbit]
      rw [hsum]
      congr 2
      funext i
      by_cases hi : i = first
      · simp [hi, hbit]
      · simp [hi]
    | true =>
      rw [if_pos rfl, ih hrest _ (u64_lt _), u64_add]
      have hsum : markedBytes bitmap chunk total (first :: rest) =
          chunkLen first chunk total + markedBytes bitmap chunk total rest := by
        simp [markedBytes, hbit]
      rw [hsum, Nat.add_assoc]
      congr 2
      funext i
      by_cases hi : i = first
      · simp [hi, hbit]
      · simp [hi]

/-- All chunks of a file together are no longer than the file. -/
theorem sum_chunkLen_le (chunk total count : Nat) :
    ((List.range count).map fun i => chunkLen i chunk total).sum ≤ min total (count * chunk) := by
  induction count with
  | zero => simp
  | succ count ih =>
    rw [List.range_succ, List.map_append, List.sum_append, List.map_singleton, List.sum_singleton,
      Nat.succ_mul]
    unfold chunkLen at ih ⊢
    omega

theorem markedBytes_le (bitmap : List UInt8) (chunk total count : Nat) :
    markedBytes bitmap chunk total (List.range count) ≤ total := by
  have hsub : List.Sublist
      (((List.range count).filter (Bitmap.marked bitmap)).map fun i => chunkLen i chunk total)
      ((List.range count).map fun i => chunkLen i chunk total) :=
    List.filter_sublist.map _
  exact Nat.le_trans (hsub.sum_le_sum fun _ _ => Nat.zero_le _)
    (Nat.le_trans (sum_chunkLen_le chunk total count) (Nat.min_le_left _ _))

structure For (totalBytes fileId : Nat) (s : FileSink) : Prop where
  small : totalBytes ≤ kMaxSize
  prepared : s.prepared = true
  fileId : s.fileId = fileId
  total : s.total = totalBytes
  chunk : s.chunk = chunkFor totalBytes
  nchunks : s.nchunks = chunkCount totalBytes (chunkFor totalBytes)

/-- A sink that has taken over the chunks a trailer marks, and its file as it is. -/
structure Adopts (before : FileSink) (t : Trailer) (after : FileSink) : Prop where
  part : after.part = before.part
  resumed : after.resumed = true
  counters : ∀ i, after.counters i = if i < after.nchunks ∧ Bitmap.marked t.bitmap i = true
    then chunkLen i after.chunk after.total else 0
  adopted : ∀ i, after.adopted i = (decide (i < after.nchunks) && Bitmap.marked t.bitmap i)
  resumedBytes : after.resumedBytes =
    markedBytes t.bitmap after.chunk after.total (List.range after.nchunks)

/-- A sink that has taken over nothing, with an empty file of the right size. -/
structure Fresh (after : FileSink) : Prop where
  part : after.part = List.replicate after.total 0
  resumed : after.resumed = false
  counters : ∀ i, after.counters i = 0
  adopted : ∀ i, after.adopted i = false
  resumedBytes : after.resumedBytes = 0

/-- A sink as it is opened: what it says about an earlier session it has read in the file. -/
structure Opened (s : FileSink) : Prop where
  prior : ∀ t, s.prior = some t → loadTrailer s.part = some t
  resumed : s.resumed = false
  adopted : ∀ i, s.adopted i = false
  resumedBytes : s.resumedBytes = 0

theorem openPart_opened (existing : Option (List UInt8)) (reads : Bool) :
    (openPart existing reads).Opened := by
  cases existing with
  | none => exact ⟨fun t impossible => (Option.some_ne_none t impossible.symm).elim, rfl,
      fun _ => rfl, rfl⟩
  | some part =>
    refine ⟨fun t hprior => ?_, rfl, fun _ => rfl, rfl⟩
    change (if reads then loadTrailer part else none) = some t at hprior
    split at hprior
    · exact hprior
    · cases hprior

theorem sameFile_iff {fileId chunk nchunks : Nat} :
    sameFile t fileId totalBytes chunk nchunks = true ↔
      fileId ≠ 0 ∧ t.fileId = fileId ∧ t.total = totalBytes ∧ t.chunk = chunk ∧
        t.nchunks = nchunks := by
  simp [sameFile, and_assoc]

/-- A file that has this trailer is taken over. -/
theorem prepare_same (opened : s.Opened) (prior : s.prior = some t) {fileId : Nat}
    (small : totalBytes ≤ kMaxSize) (same : sameFile t fileId totalBytes (chunkFor totalBytes)
      (chunkCount totalBytes (chunkFor totalBytes)) = true) (truncates : Bool) :
    ∃ r, s.prepare true truncates totalBytes fileId = .ready r ∧ r.For totalBytes fileId ∧
      s.Adopts t r := by
  obtain ⟨hnonzero, hid, htotal, hchunk, hcount⟩ := sameFile_iff.mp same
  have hpos := chunkFor_pos totalBytes
  have hfits := chunkFor_lt small
  have hfew := chunkCount_le hpos hfits
  have hlength := (loadTrailer_some (opened.prior t prior)).1
  have hinside : ∀ i ∈ List.range (chunkCount totalBytes (chunkFor totalBytes)),
      i / 8 < t.bitmap.length := by
    intro i member
    rw [hlength, bitmapLen_eq (by unfold kMaxSize at small; omega)]
    have := List.mem_range.mp member
    omega
  have hbytes := markedBytes_le t.bitmap (chunkFor totalBytes) totalBytes
    (chunkCount totalBytes (chunkFor totalBytes))
  have hadopt := adopt_spec (chunkFor totalBytes) totalBytes hinside (fun _ => 0)
    (Nat.two_pow_pos 64)
  simp only [List.mem_range, Nat.zero_add, u64_of_lt (Nat.lt_of_le_of_lt hbytes (by omega))]
    at hadopt
  have htaken : s.takenOver totalBytes fileId = some t := by
    rw [takenOver, prior, Option.filter_some, if_pos same]
  have hruns : ¬ (totalBytes > kMaxSize ∨ true = false) := by
    rintro (hlarge | hfails)
    · exact Nat.not_lt.mpr small hlarge
    · cases hfails
  rw [prepare, if_neg hruns, htaken]
  change ∃ r, s.takeOver t totalBytes fileId = .ready r ∧ _
  rw [takeOver, opened.resumedBytes, hadopt]
  exact ⟨_, rfl, ⟨small, rfl, rfl, rfl, rfl, rfl⟩, rfl, rfl, fun _ => rfl, fun _ => rfl, rfl⟩

theorem takenOver_other {fileId : Nat}
    (other : ∀ t, s.prior = some t → sameFile t fileId totalBytes (chunkFor totalBytes)
      (chunkCount totalBytes (chunkFor totalBytes)) = false) :
    s.takenOver totalBytes fileId = none := by
  rw [takenOver]
  cases hprior : s.prior with
  | none => rfl
  | some t => rw [Option.filter_some, if_neg (Bool.eq_false_iff.mp (other t hprior))]

/-- Without a trailer of this file the sink starts over. -/
theorem prepare_fresh (opened : s.Opened) {fileId : Nat}
    (other : ∀ t, s.prior = some t → sameFile t fileId totalBytes (chunkFor totalBytes)
      (chunkCount totalBytes (chunkFor totalBytes)) = false) (small : totalBytes ≤ kMaxSize) :
    ∃ r, s.prepare true true totalBytes fileId = .ready r ∧ r.For totalBytes fileId ∧ r.Fresh := by
  have hruns : ¬ (totalBytes > kMaxSize ∨ true = false) := by
    rintro (hlarge | hfails)
    · exact Nat.not_lt.mpr small hlarge
    · cases hfails
  rw [prepare, if_neg hruns, takenOver_other other]
  exact ⟨_, rfl, ⟨small, rfl, rfl, rfl, rfl, rfl⟩, rfl, opened.resumed, fun _ => rfl,
    opened.adopted, opened.resumedBytes⟩

/-- It refuses a file that is too large, and when a call of the system fails. -/
theorem prepare_other (opened : s.Opened) {fileId : Nat}
    (other : ∀ t, s.prior = some t → sameFile t fileId totalBytes (chunkFor totalBytes)
      (chunkCount totalBytes (chunkFor totalBytes)) = false) (allocates truncates : Bool) :
    s.prepare allocates truncates totalBytes fileId = .refused ∨
      ∃ r, s.prepare allocates truncates totalBytes fileId = .ready r ∧ r.For totalBytes fileId ∧
        r.Fresh := by
  by_cases hruns : totalBytes > kMaxSize ∨ allocates = false
  · exact Or.inl (if_pos hruns)
  rw [not_or, Bool.not_eq_false] at hruns
  obtain ⟨hsmall, rfl⟩ := hruns
  cases truncates with
  | true => exact Or.inr (prepare_fresh opened other (Nat.not_lt.mp hsmall))
  | false =>
    refine Or.inl ?_
    rw [prepare, takenOver_other other]
    exact ite_id _

/-- What preparing a sink can come to; it never reads past the end of the bitmap. -/
theorem prepare_cases (opened : s.Opened) (allocates truncates : Bool) (totalBytes fileId : Nat) :
    s.prepare allocates truncates totalBytes fileId = .refused ∨
      ∃ r, s.prepare allocates truncates totalBytes fileId = .ready r ∧ r.For totalBytes fileId ∧
        (r.Fresh ∨ ∃ t, s.prior = some t ∧ t.total = totalBytes ∧ t.nchunks = r.nchunks ∧
          s.Adopts t r) := by
  by_cases hsame : ∃ t, s.prior = some t ∧ sameFile t fileId totalBytes (chunkFor totalBytes)
      (chunkCount totalBytes (chunkFor totalBytes)) = true
  · obtain ⟨t, hprior, hsame⟩ := hsame
    by_cases hworks : totalBytes > kMaxSize ∨ allocates = false
    · exact Or.inl (by rw [prepare]; exact if_pos hworks)
    rw [not_or, Bool.not_eq_false] at hworks
    obtain ⟨hsmall, rfl⟩ := hworks
    obtain ⟨r, hready, hfor, hadopts⟩ :=
      prepare_same opened hprior (Nat.le_of_not_lt hsmall) hsame truncates
    obtain ⟨_, _, htotal, _, hcount⟩ := sameFile_iff.mp hsame
    exact Or.inr ⟨r, hready, hfor,
      Or.inr ⟨t, hprior, htotal, hcount.trans hfor.nchunks.symm, hadopts⟩⟩
  · rcases prepare_other opened (fun t hprior => Bool.eq_false_iff.mpr fun h => hsame ⟨t, hprior, h⟩)
      allocates truncates with hrefused | ⟨r, hready, hfor, hfresh⟩
    · exact Or.inl hrefused
    · exact Or.inr ⟨r, hready, hfor, Or.inl hfresh⟩

/-- A sink that has been prepared has the shape of its file. -/
theorem prepare_shaped (opened : s.Opened) {allocates truncates : Bool} {fileId : Nat}
    {r : FileSink} (ready : s.prepare allocates truncates totalBytes fileId = .ready r)
    (word : fileId < 2 ^ 64) : r.Shaped := by
  rcases prepare_cases opened allocates truncates totalBytes fileId with
    hrefused | ⟨r', hready, hfor, hkind⟩
  · rw [hrefused] at ready
    cases ready
  obtain rfl : r' = r := Prepared.ready.inj (hready.symm.trans ready)
  obtain ⟨hsmall, hprepared, hid, htotal, hchunk, hcount⟩ := hfor
  have hlength : r'.part.length = r'.total ∨
      r'.part.length = r'.total + Transfer.bitmapLen r'.nchunks + kFooterLen := by
    rcases hkind with hfresh | ⟨t, hprior, htrailer, hchunks, hadopts⟩
    · exact Or.inl (by rw [hfresh.part, List.length_replicate])
    · refine Or.inr ?_
      have hfew := chunkCount_le (chunkFor_pos totalBytes) (chunkFor_lt hsmall)
      have hsize := (loadTrailer_some (opened.prior t hprior)).2
      have hbitmap : Transfer.bitmapLen r'.nchunks = (r'.nchunks + 7) / 8 :=
        bitmapLen_eq (by unfold kMaxSize at hsmall; omega)
      unfold kMaxSize at hsmall
      rw [hadopts.part, hsize, hchunks, htrailer, htotal]
      have hinner : u64 (totalBytes + Transfer.bitmapLen r'.nchunks) =
          totalBytes + Transfer.bitmapLen r'.nchunks := u64_of_lt (by omega)
      rw [hinner, u64_of_lt (by unfold kFooterLen; omega)]
  refine ⟨hprepared, htotal ▸ hsmall, htotal ▸ hchunk, ?_, hid ▸ word, ?_, ?_⟩
  · rw [hcount, htotal, hchunk]
  · omega
  · omega

end FileSink

end FuseTransport.Transfer
