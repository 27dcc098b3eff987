import FuseTransport.Transfer.ChunkBits

/-!
# Checkpoints and the sessions after them

A file sink is prepared, written to and checkpointed; the part file is then opened by a
later session.  What that session takes over is what the checkpoint saw complete, and that
is what had been written.
-/

namespace FuseTransport.Transfer

open Proto Foundation Foundation.Runs Foundation.Spans Foundation.Splice

variable {s : FileSink}

/-- A prepared sink of a known file takes checkpoints. -/
theorem FileSink.saves (prepared : s.prepared = true) (known : s.fileId ≠ 0) :
    ¬ (s.prepared = false ∨ s.fileId = 0) := by
  rintro (hnot | hzero)
  · exact Bool.false_ne_true (hnot.symm.trans prepared)
  · exact known hzero

variable {allocates truncates : Bool} {totalBytes : Nat} {r : FileSink} {fileId : Nat}

namespace SinkUse

variable {st next : SinkUse}

theorem start_kept (opened : s.Opened)
    (ready : s.prepare allocates truncates totalBytes fileId = .ready r) (word : fileId < 2 ^ 64) :
    (start r).Kept := by
  have hshaped := FileSink.prepare_shaped opened ready word
  refine ⟨hshaped, ⟨?_, ?_, ?_, List.Pairwise.nil⟩, ?_, ?_⟩
  · intro k w impossible
    cases impossible
  · intro k l w v p _ impossible
    cases impossible
  · intro u impossible
    cases impossible
  · intro c hc
    have hlen : chunkLen c r.chunk r.total ≤ r.chunk := Nat.min_le_left _ _
    have hfits := hshaped.fits
    have hcounter : r.counters c = r.layout.base c := by
      rcases FileSink.prepare_cases opened allocates truncates totalBytes fileId with
        hrefused | ⟨r', hready, _, hkind⟩
      · rw [hrefused] at ready
        cases ready
      obtain rfl : r' = r := Prepared.ready.inj (hready.symm.trans ready)
      change r'.counters c = if r'.adopted c then chunkLen c r'.chunk r'.total else 0
      rcases hkind with hfresh | ⟨t, _, _, _, hadopts⟩
      · rw [hfresh.counters, hfresh.adopted, if_neg (by decide)]
      · rw [hadopts.counters, hadopts.adopted]
        simp
    change r.counters c = u64 (r.layout.base c + 0)
    have hbase : r.layout.base c ≤ chunkLen c r.chunk r.total := by
      unfold Layout.base
      split
      · exact Nat.le_refl _
      · exact Nat.zero_le _
    rw [hcounter, Nat.add_zero, u64_of_lt (by omega)]
  · intro snap impossible
    cases impossible

/-- What `prepare` has set stays. -/
theorem step_frame {event : SinkEvent} (steps : st.step event = some next) :
    next.sink.layout = st.sink.layout ∧ next.sink.fileId = st.sink.fileId ∧
      next.sink.prepared = st.sink.prepared := by
  cases event with
  | write offset iov =>
    simp only [step, beginWrite] at steps
    split at steps <;> cases steps
    exact ⟨rfl, rfl, rfl⟩
  | pwritev k n | fails k =>
    obtain ⟨w, _, hw⟩ := Option.bind_eq_some_iff.mp steps
    split at hw <;> cases hw
    exact ⟨rfl, rfl, rfl⟩
  | count k =>
    obtain ⟨w, _, hw⟩ := Option.bind_eq_some_iff.mp steps
    split at hw <;> cases hw
    unfold counted
    dsimp only
    split <;> exact ⟨rfl, rfl, rfl⟩
  | checkpoint =>
    cases steps
    unfold beginCheckpoint
    split <;> exact ⟨rfl, rfl, rfl⟩
  | look j | save j placed =>
    obtain ⟨snap, _, hsnap⟩ := Option.bind_eq_some_iff.mp steps
    split at hsnap <;> cases hsnap
    exact ⟨rfl, rfl, rfl⟩
  | missing first last =>
    cases steps
    exact ⟨rfl, rfl, rfl⟩

theorem reachable_frame (reached : Reachable step (start r) st) :
    st.sink.layout = r.layout ∧ st.sink.fileId = r.fileId ∧ st.sink.prepared = r.prepared := by
  have hstep : ∀ (st : SinkUse) (event : SinkEvent) (next : SinkUse),
      (st.sink.layout = r.layout ∧ st.sink.fileId = r.fileId ∧ st.sink.prepared = r.prepared) →
        st.step event = some next →
        next.sink.layout = r.layout ∧ next.sink.fileId = r.fileId ∧
          next.sink.prepared = r.prepared := by
    rintro st event next ⟨hlayout, hid, hprepared⟩ steps
    obtain ⟨hlayout', hid', hprepared'⟩ := step_frame steps
    exact ⟨hlayout'.trans hlayout, hid'.trans hid, hprepared'.trans hprepared⟩
  exact reached.invariant hstep ⟨rfl, rfl, rfl⟩

theorem reachable_kept (opened : s.Opened)
    (ready : s.prepare allocates truncates totalBytes fileId = .ready r) (word : fileId < 2 ^ 64)
    (reached : Reachable step (start r) st) : st.Kept :=
  reached.invariant (fun _ _ _ kept steps => kept.step steps) (start_kept opened ready word)

theorem reachable_for (opened : s.Opened)
    (ready : s.prepare allocates truncates totalBytes fileId = .ready r)
    (reached : Reachable step (start r) st) : st.sink.For totalBytes fileId := by
  rcases FileSink.prepare_cases opened allocates truncates totalBytes fileId with
    hrefused | ⟨r', hready, hfor, _⟩
  · rw [hrefused] at ready
    cases ready
  obtain rfl : r' = r := Prepared.ready.inj (hready.symm.trans ready)
  obtain ⟨hlayout, hid, hprepared⟩ := reachable_frame reached
  exact ⟨hfor.small, hprepared.trans hfor.prepared, hid.trans hfor.fileId,
    (congrArg Layout.total hlayout).trans hfor.total,
    (congrArg Layout.chunk hlayout).trans hfor.chunk,
    (congrArg Layout.nchunks hlayout).trans hfor.nchunks⟩

/-- A checkpoint that has read every counter saves what it would have saved if it had read
them all at once. -/
theorem Kept.save_checkpoint (kept : st.Kept) {snap : Snapshot} (taken : snap ∈ st.checks)
    (finished : snap.next = st.sink.nchunks) (known : st.sink.fileId ≠ 0) (placed : Option Nat) :
    st.sink.saveTrailer snap.bitmap placed = st.sink.checkpoint snap.seen placed := by
  rw [FileSink.checkpoint, if_neg (FileSink.saves kept.shaped.prepared known), FileSink.snapshot_eq_fill,
    (kept.checks snap taken).bitmap, finished]
  rfl

end SinkUse

/-! ## The next session -/

namespace FileSink

variable {s : FileSink}

/-- A checkpoint that succeeds leaves the data and a whole trailer. -/
theorem checkpoint_part (shaped : s.Shaped) (known : s.fileId ≠ 0) (seen : Nat → Nat) :
    (s.checkpoint seen none).part = s.part.take s.total ++ s.trailer (s.snapshot seen) := by
  rw [checkpoint, if_neg (saves shaped.prepared known)]
  refine splice_behind shaped.data ?_
  rw [length_trailer, length_snapshot]
  exact shaped.behind

/-- What a later session reads in the part file after a checkpoint. -/
theorem openPart_checkpoint (shaped : s.Shaped) (small : s.total ≤ 2 ^ 62) (known : s.fileId ≠ 0)
    (seen : Nat → Nat) :
    (openPart (some (s.checkpoint seen none).part) true).prior =
      some ⟨s.fileId, s.total, s.chunk, s.nchunks, s.snapshot seen⟩ := by
  have hdata : (s.part.take s.total).length = s.total := by
    rw [List.length_take]
    exact Nat.min_eq_left shaped.data
  rw [checkpoint_part shaped known seen]
  exact loadTrailer_trailer shaped small hdata (length_snapshot s seen)

/-- The lengths of the chunks whose counters are read as complete, together. -/
def completeBytes (s : FileSink) (seen : Nat → Nat) : Nat :=
  (((List.range s.nchunks).filter fun i => decide (chunkLen i s.chunk s.total ≤ seen i)).map
    fun i => chunkLen i s.chunk s.total).sum

theorem markedBytes_snapshot (shaped : s.Shaped) (seen : Nat → Nat) :
    markedBytes (s.snapshot seen) s.chunk s.total (List.range s.nchunks) = s.completeBytes seen := by
  have hsame : ∀ i ∈ List.range s.nchunks, Bitmap.marked (s.snapshot seen) i =
      decide (chunkLen i s.chunk s.total ≤ seen i) := by
    intro i member
    rw [marked_snapshot shaped, decide_eq_true (List.mem_range.mp member), Bool.true_and]
  rw [markedBytes, completeBytes, List.filter_congr hsame]

/-- Preparing the part file is, for the lanes, preparing a sink that knows its trailer. -/
theorem prepare_refines (opened : s.Opened)
    (ready : s.prepare allocates truncates totalBytes fileId = .ready r)
    (bytes : Nat → Option UInt8) :
    (s.view bytes).prepare true totalBytes fileId = some (r.view bytes) := by
  have hready := ready
  unfold prepare at ready
  split at ready
  · cases ready
  rename_i hruns
  rw [not_or, Bool.not_eq_false, Nat.not_lt] at hruns
  obtain ⟨hsmall, rfl⟩ := hruns
  have hcount := chunkCount_eq (chunkFor_pos totalBytes) (chunkFor_lt hsmall)
  have hlane : ¬ (totalBytes > kMaxSize ∨ true = false) := by
    rintro (hlarge | hfails)
    · exact Nat.not_lt.mpr hsmall hlarge
    · cases hfails
  rw [Sink.prepare, if_neg hlane]
  dsimp only [view]
  rw [← hcount]
  cases htaken : s.takenOver totalBytes fileId with
  | none =>
    rw [htaken] at ready
    change s.startOver truncates totalBytes fileId = .ready r at ready
    rw [startOver] at ready
    split at ready <;> cases ready
    cases hprior : s.prior with
    | none => simp [sized, hprior]
    | some t =>
      have hother : sameFile t fileId totalBytes (chunkFor totalBytes)
          (chunkCount totalBytes (chunkFor totalBytes)) = false := by
        rw [takenOver, hprior, Option.filter_some] at htaken
        split at htaken
        · cases htaken
        · rename_i hother
          exact Bool.eq_false_iff.mpr hother
      change (if sameFile t _ _ _ _ = true then _ else _) = _
      rw [hother]
      simp only [sized, hprior]
      rfl
  | some t =>
    rw [htaken] at ready
    obtain ⟨hprior, hsame⟩ := Option.filter_eq_some_iff.mp htaken
    obtain ⟨r', hready', _, hadopts⟩ := prepare_same opened hprior hsmall hsame truncates
    obtain rfl : r' = r := Prepared.ready.inj (hready'.symm.trans hready)
    change s.takeOver t totalBytes fileId = .ready r' at ready
    rw [takeOver] at ready
    cases hadopt : adopt t.bitmap (chunkFor totalBytes) totalBytes
        (List.range (chunkCount totalBytes (chunkFor totalBytes))) (fun _ => 0) s.resumedBytes with
    | none =>
      rw [hadopt] at ready
      cases ready
    | some found =>
      rw [hadopt] at ready
      cases ready
      have hcounters : found.1 = fun i =>
          if i < chunkCount totalBytes (chunkFor totalBytes) ∧ Bitmap.marked t.bitmap i = true
          then chunkLen i (chunkFor totalBytes) totalBytes else 0 :=
        funext hadopts.counters
      rw [hprior]
      change (if sameFile t _ _ _ _ = true then _ else _) = _
      rw [hsame]
      simp only [sized, hprior, hcounters, Bool.and_eq_true, decide_eq_true_eq]
      rfl

end FileSink

/-- A checkpoint of a sink in use, whatever its counters, is taken over by the next session
for the same file, chunk by chunk as the counters were read; they may be read one by one
while the sink is used.  Any other file starts over.  No part file, whatever it holds,
makes the sink read past the end of the bitmap. -/
theorem trailer_round_trip {existing : Option (List UInt8)} {reads allocates truncates : Bool}
    {totalBytes fileId : Nat} {r : FileSink} {st : SinkUse}
    (ready : (FileSink.openPart existing reads).prepare allocates truncates totalBytes fileId =
      .ready r)
    (small : totalBytes ≤ 2 ^ 62) (known : fileId ≠ 0) (word : fileId < 2 ^ 64)
    (reached : Reachable SinkUse.step (.start r) st) (seen : Nat → Nat) :
    (∀ snap ∈ st.checks, snap.next = st.sink.nchunks → ∀ placed,
      st.sink.saveTrailer snap.bitmap placed = st.sink.checkpoint snap.seen placed) ∧
    (∀ truncates, ∃ after,
      (FileSink.openPart (some (st.sink.checkpoint seen none).part) true).prepare true truncates
        totalBytes fileId = .ready after ∧
      after.part = (st.sink.checkpoint seen none).part ∧ after.resumed = true ∧
      (∀ i, i < after.nchunks → after.counters i =
        if chunkLen i after.chunk totalBytes ≤ seen i then chunkLen i after.chunk totalBytes else 0) ∧
      after.resumedBytes = st.sink.completeBytes seen) ∧
    (∀ otherBytes otherId, (otherId, otherBytes) ≠ (fileId, totalBytes) ∨ otherId = 0 →
      otherBytes ≤ kMaxSize → ∃ after,
        (FileSink.openPart (some (st.sink.checkpoint seen none).part) true).prepare true true
          otherBytes otherId = .ready after ∧ after.Fresh) ∧
    (∀ contents reads allocates truncates anyBytes anyId,
      (FileSink.openPart contents reads).prepare allocates truncates anyBytes anyId ≠ .pastBitmap) := by
  have hkept := SinkUse.reachable_kept (FileSink.openPart_opened existing reads) ready word reached
  have hfor := SinkUse.reachable_for (FileSink.openPart_opened existing reads) ready reached
  have hopened := FileSink.openPart_opened (some (st.sink.checkpoint seen none).part) true
  have hid : st.sink.fileId ≠ 0 := hfor.fileId ▸ known
  have htotal : st.sink.total ≤ 2 ^ 62 := hfor.total ▸ small
  have hprior := FileSink.openPart_checkpoint hkept.shaped htotal hid seen
  refine ⟨fun snap taken finished placed => hkept.save_checkpoint taken finished hid placed,
    fun truncates => ?_, fun otherBytes otherId hother hsmall => ?_, ?_⟩
  · have hsame : FileSink.sameFile
        ⟨st.sink.fileId, st.sink.total, st.sink.chunk, st.sink.nchunks, st.sink.snapshot seen⟩
        fileId totalBytes (chunkFor totalBytes) (chunkCount totalBytes (chunkFor totalBytes)) = true :=
      FileSink.sameFile_iff.mpr ⟨known, hfor.fileId, hfor.total, hfor.chunk, hfor.nchunks⟩
    obtain ⟨after, hready, hafter, hadopts⟩ :=
      FileSink.prepare_same hopened hprior hfor.small hsame truncates
    have hchunk : after.chunk = st.sink.chunk := hafter.chunk.trans hfor.chunk.symm
    have hcount : after.nchunks = st.sink.nchunks := hafter.nchunks.trans hfor.nchunks.symm
    have hsize : after.total = st.sink.total := hafter.total.trans hfor.total.symm
    refine ⟨after, hready, hadopts.part, hadopts.resumed, ?_, ?_⟩
    · intro i hi
      rw [hadopts.counters, FileSink.marked_snapshot hkept.shaped, hchunk, hcount, hsize, hfor.total]
      rw [hcount] at hi
      simp [hi]
    · rw [hadopts.resumedBytes, hchunk, hcount, hsize, FileSink.markedBytes_snapshot hkept.shaped]
  · refine (FileSink.prepare_fresh hopened (fun t ht => ?_) hsmall).imp fun _ hafter =>
      ⟨hafter.1, hafter.2.2⟩
    obtain rfl := Option.some.inj (hprior.symm.trans ht)
    refine Bool.eq_false_iff.mpr fun hsame => ?_
    obtain ⟨hnonzero, hsameId, hsameTotal, _⟩ := FileSink.sameFile_iff.mp hsame
    rcases hother with hdiffer | hzero
    · exact hdiffer (Prod.ext (hsameId.symm.trans hfor.fileId) (hsameTotal.symm.trans hfor.total))
    · exact hnonzero hzero
  · intro contents reads allocates truncates anyBytes anyId
    rcases FileSink.prepare_cases (FileSink.openPart_opened contents reads) allocates truncates
      anyBytes anyId with hrefused | ⟨after, hready, _⟩
    · rw [hrefused]
      exact Prepared.noConfusion
    · rw [hready]
      exact Prepared.noConfusion

/-- A file of a full chunk and one byte. -/
theorem twoChunks_fresh : ∃ r,
    (FileSink.openPart none true).prepare true true 65537 7 = .ready r ∧ r.For 65537 7 ∧ r.Fresh :=
  FileSink.prepare_fresh (FileSink.openPart_opened none true)
    (fun t impossible => by cases impossible) (by decide)

/-- The second of two chunks is complete. -/
theorem trailer_round_trip_twoChunks : ∃ r after,
    (FileSink.openPart none true).prepare true true 65537 7 = .ready r ∧
      (FileSink.openPart (some (r.checkpoint (fun _ => 1) none).part) true).prepare true true
        65537 7 = .ready after ∧
      after.resumed = true ∧ after.counters 0 = 0 ∧ after.counters 1 = 1 := by
  obtain ⟨r, hready, _, _⟩ := twoChunks_fresh
  have hround := (trailer_round_trip hready (by decide) (show 7 ≠ 0 by decide) (by decide)
    (.refl _) fun _ => 1).2.1 true
  obtain ⟨after, hafter, _, hresumed, hcounters, _⟩ := hround
  have hfor := SinkUse.reachable_for (FileSink.openPart_opened _ true) hafter (.refl _)
  change after.For 65537 7 at hfor
  rw [hfor.nchunks, hfor.chunk] at hcounters
  exact ⟨r, after, hready, hafter, hresumed, hcounters 0 (by decide), hcounters 1 (by decide)⟩

/-! ## A file of two chunks -/

variable {st : SinkUse}

namespace SinkUse

/-- The byte of the second chunk is written. -/
def writeByte (k : Nat) : List SinkEvent := [.write 65536 [[0]], .pwritev k 1, .count k]

structure TwoChunks (st : SinkUse) : Prop where
  total : st.sink.total = 65537
  chunk : st.sink.chunk = 65536
  nchunks : st.sink.nchunks = 2
  prepared : st.sink.prepared = true
  known : st.sink.fileId ≠ 0

theorem TwoChunks.of_for (sized : s.For 65537 fileId) (known : fileId ≠ 0) : (start s).TwoChunks :=
  ⟨sized.total, sized.chunk, sized.nchunks, sized.prepared, sized.fileId ▸ known⟩

/-- The call places its byte and counts it. -/
theorem TwoChunks.writes (two : st.TwoChunks) (free : st.MayWrite ⟨65536, 65537⟩) :
    ∃ next, replay step st (writeByte st.writes.length) = some next ∧ next.TwoChunks ∧
      next.sink.counters =
        Function.update st.sink.counters 1 (u64 (st.sink.counters 1 + 1)) ∧
      next.sink.adopted = st.sink.adopted ∧ next.checks = st.checks := by
  have hlast : ∀ w : Writing, (st.writes ++ [w])[st.writes.length]? = some w := fun w => by simp
  have hset : ∀ w v : Writing, (st.writes ++ [w]).set st.writes.length v = st.writes ++ [v] :=
    fun w v => by simp
  have hcalled : st.step (.write 65536 [[0]]) =
      some { st with writes := st.writes ++ [.call 65536 [[0]]] } := if_pos free
  have hplaced : ({ st with writes := st.writes ++ [.call 65536 [[0]]] } : SinkUse).step
      (.pwritev st.writes.length 1) = some { st with
        sink := { st.sink with part := splice 0 st.sink.part 65536 [0] }
        writes := st.writes ++ [(Writing.call 65536 [[0]]).wrote 1] } := by
    simp only [step, place, placed, hlast, hset]
    rfl
  have hchunk : (Writing.wrote (.call 65536 [[0]]) 1).off / st.sink.chunk = 1 := by
    rw [two.chunk]
    decide
  rw [writeByte, replay_cons_some _ hcalled, replay_cons_some _ hplaced]
  simp only [replay_cons, step, count, hlast]
  refine ⟨_, rfl, ?_⟩
  have hcounts : (Writing.wrote (.call 65536 [[0]]) 1).off / st.sink.chunk < st.sink.nchunks := by
    rw [hchunk, two.nchunks]
    decide
  rw [counted]
  rw [if_pos hcounts]
  refine ⟨⟨two.total, two.chunk, two.nchunks, two.prepared, two.known⟩, ?_, rfl, rfl⟩
  dsimp only [reach]
  rw [two.chunk]
  rfl

/-- A byte that was taken over may be written again and again. -/
theorem TwoChunks.rewrites (two : st.TwoChunks) (taken : st.sink.adopted 1 = true)
    (word : st.sink.counters 1 < 2 ^ 64) (n : Nat) :
    ∃ next, Reachable step st next ∧ next.TwoChunks ∧
      next.sink.counters 1 = u64 (st.sink.counters 1 + n) ∧
      next.sink.adopted = st.sink.adopted ∧ next.checks = st.checks := by
  induction n with
  | zero => exact ⟨st, .refl st, two, (u64_of_lt word).symm, rfl, rfl⟩
  | succ n ih =>
    obtain ⟨middle, ⟨events, hreplayed⟩, htwo, hcounter, hadopted, hchecks⟩ := ih
    have hfree : middle.MayWrite ⟨65536, 65537⟩ := by
      refine ⟨Nat.le_of_eq htwo.total.symm, fun p hp hfirst => Or.inl ?_⟩
      obtain rfl : p = 65536 := Nat.le_antisymm (Nat.le_of_lt_succ hp) hfirst
      rw [htwo.chunk, hadopted]
      exact taken
    obtain ⟨next, hwritten, hnext, hcounted, hkept, hsame⟩ := htwo.writes hfree
    refine ⟨next, ⟨events ++ writeByte middle.writes.length, ?_⟩, hnext, ?_,
      hkept.trans hadopted, hsame.trans hchecks⟩
    · rw [replay_append, hreplayed]
      exact hwritten
    · rw [hcounted, Function.update_self, hcounter, u64_add, Nat.add_assoc]

/-- A checkpoint begins and reads both counters. -/
theorem TwoChunks.checks (two : st.TwoChunks) (first : st.checks = []) :
    ∃ next snap, replay step st [.checkpoint, .look 0, .look 0] = some next ∧
      snap ∈ next.checks ∧ snap.next = 2 ∧ snap.bitmap =
        st.sink.look (st.sink.look [0] 0 (st.sink.counters 0)) 1 (st.sink.counters 1) := by
  have hsaves := FileSink.saves two.prepared two.known
  have hbegun : st.step .checkpoint = some { st with
      checks := [{ bitmap := [0], begun := st.updates }] } := by
    simp only [step, beginCheckpoint, if_neg hsaves, first, two.nchunks]
    rfl
  rw [replay_cons_some _ hbegun]
  simp only [replay_cons, step, look, List.getElem?_cons_zero, Option.bind_some, two.nchunks,
    Nat.zero_lt_two, if_true]
  exact ⟨_, _, rfl, List.mem_cons_self, rfl, rfl⟩

end SinkUse

/-- A session takes over the second chunk from an earlier one. -/
theorem twoChunks_taken_over : ∃ existing r,
    (FileSink.openPart existing true).prepare true true 65537 7 = .ready r ∧ r.For 65537 7 ∧
      r.adopted 1 = true ∧ r.counters 1 = 1 := by
  obtain ⟨s, hready, hfor, _⟩ := twoChunks_fresh
  have hshaped := FileSink.prepare_shaped (FileSink.openPart_opened none true) hready
    (show 7 < 2 ^ 64 by decide)
  have hprior := FileSink.openPart_checkpoint hshaped (hfor.total ▸ by decide)
    (hfor.fileId ▸ by decide) fun _ => 1
  have hsame : FileSink.sameFile
      ⟨s.fileId, s.total, s.chunk, s.nchunks, s.snapshot fun _ => 1⟩ 7 65537 (chunkFor 65537)
      (chunkCount 65537 (chunkFor 65537)) = true :=
    FileSink.sameFile_iff.mpr ⟨by decide, hfor.fileId, hfor.total, hfor.chunk, hfor.nchunks⟩
  obtain ⟨r, hresumed, hr, hadopts⟩ :=
    FileSink.prepare_same (FileSink.openPart_opened _ true) hprior hfor.small hsame true
  have hmarked : Bitmap.marked (s.snapshot fun _ => 1) 1 = true := by
    rw [FileSink.marked_snapshot hshaped, hfor.nchunks, hfor.chunk, hfor.total]
    decide
  have hcount : 1 < r.nchunks := by
    rw [hr.nchunks]
    decide
  refine ⟨_, r, hresumed, hr, ?_, ?_⟩
  · rw [hadopts.adopted, decide_eq_true hcount]
    exact hmarked
  · rw [hadopts.counters, if_pos ⟨hcount, hmarked⟩, hr.chunk, hr.total]
    decide

/-- The bit of a chunk says that it was taken over as complete, or that every byte of it was
written by calls that had counted it when the counter was read.  A checkpoint that begins
when the whole file has been written sets every bit.  No chunk that was taken over may be
rewritten so often that its counter wraps; calls that write no byte twice never do. -/
theorem chunk_bits_exact {existing : Option (List UInt8)} {reads allocates truncates : Bool}
    {totalBytes fileId : Nat} {r : FileSink} {st : SinkUse} {snap : Snapshot} {i : Nat}
    (ready : (FileSink.openPart existing reads).prepare allocates truncates totalBytes fileId =
      .ready r)
    (word : fileId < 2 ^ 64) (reached : Reachable SinkUse.step (.start r) st)
    (spared : (∀ c, r.adopted c = true →
        chunkLen c r.chunk r.total + tally st.updates c < 2 ^ 64) ∨
      ∀ (k l : Nat) (w v : Writing), k ≠ l → st.writes[k]? = some w → st.writes[l]? = some v →
        w.span.Apart v.span)
    (taken : snap ∈ st.checks) (read : i < snap.next) :
    (Bitmap.marked snap.bitmap i = true ↔ r.adopted i = true ∨
      ∀ p, i * r.chunk ≤ p → p < i * r.chunk + chunkLen i r.chunk r.total →
        WrittenBy st.writes (snap.before i) i p) ∧
    ((∀ p, p < r.total → r.adopted (p / r.chunk) = true ∨
        WrittenBy st.writes snap.begun (p / r.chunk) p) →
      Bitmap.marked snap.bitmap i = true) := by
  have hkept := SinkUse.reachable_kept (FileSink.openPart_opened existing reads) ready word reached
  obtain ⟨hlayout, _, _⟩ := SinkUse.reachable_frame reached
  have hadopted : st.sink.adopted = r.adopted := congrArg Layout.adopted hlayout
  have hchunk : st.sink.chunk = r.chunk := congrArg Layout.chunk hlayout
  have hlen : st.sink.layout.len i = chunkLen i r.chunk r.total :=
    congrArg (fun g : Layout => g.len i) hlayout
  have hbit := hkept.bit_iff taken read fun hown => by
    rcases spared with hspared | hdisjoint
    · rw [hlen]
      exact hspared i (hadopted ▸ hown)
    · exact hkept.spared_of_disjoint hdisjoint i
  rw [hadopted, hchunk, hlen] at hbit
  refine ⟨hbit, fun hall => hbit.mpr ?_⟩
  cases hown : r.adopted i with
  | true => exact Or.inl rfl
  | false =>
    refine Or.inr fun p habove hbelow => ?_
    have hpos : 0 < r.layout.chunk := hlayout ▸ hkept.shaped.sized.positive
    obtain ⟨hinside, hplace⟩ := (Layout.mem_chunk_iff hpos).mpr ⟨habove, hbelow⟩
    have hplace : p / r.chunk = i := hplace
    rcases hall p hinside with htaken | ⟨u, hu, hcounted⟩
    · rw [hplace, hown] at htaken
      cases htaken
    · rw [hplace] at hcounted
      exact ⟨u, ((hkept.checks snap taken).before i read).1.subset hu, hcounted⟩

/-- The byte of the second chunk is written, none of the first. -/
theorem chunk_bits_exact_twoChunks : ∃ r st snap,
    (FileSink.openPart none true).prepare true true 65537 7 = .ready r ∧
      Reachable SinkUse.step (.start r) st ∧ snap ∈ st.checks ∧ snap.next = 2 ∧
      Bitmap.marked snap.bitmap 1 = true ∧ WrittenBy st.writes (snap.before 1) 1 65536 ∧
      ¬ ∀ p < 65536, WrittenBy st.writes (snap.before 0) 0 p := by
  obtain ⟨r, hready, hfor, hfresh⟩ := twoChunks_fresh
  have htwo := SinkUse.TwoChunks.of_for hfor (by decide)
  have hfree : (SinkUse.start r).MayWrite ⟨65536, 65537⟩ :=
    ⟨Nat.le_of_eq hfor.total.symm, fun p _ _ => Or.inr fun w impossible => by cases impossible⟩
  obtain ⟨middle, hwritten, hmiddle, hcounted, _, hchecks⟩ := htwo.writes hfree
  obtain ⟨st, snap, hchecked, hsnap, hnext, hbitmap⟩ := hmiddle.checks hchecks
  have hbits : snap.bitmap = [2] := by
    rw [hbitmap, hcounted]
    change middle.sink.look (middle.sink.look [0] 0 (r.counters 0)) 1 (u64 (r.counters 1 + 1)) = _
    rw [hfresh.counters, hfresh.counters]
    simp only [FileSink.look, hmiddle.chunk, hmiddle.total]
    decide
  have hreached : Reachable SinkUse.step (.start r) st := by
    refine ⟨SinkUse.writeByte 0 ++ [.checkpoint, .look 0, .look 0], ?_⟩
    rw [replay_append]
    exact (congrArg (fun m => m.bind fun st => replay SinkUse.step st [.checkpoint, .look 0, .look 0])
      hwritten).trans hchecked
  have hexact : ∀ i < 2, (Bitmap.marked snap.bitmap i = true ↔ r.adopted i = true ∨
      ∀ p, i * r.chunk ≤ p → p < i * r.chunk + chunkLen i r.chunk r.total →
        WrittenBy st.writes (snap.before i) i p) := fun i read =>
    (chunk_bits_exact hready (by decide) hreached
      (Or.inl fun c htaken => absurd htaken (Bool.eq_false_iff.mp (hfresh.adopted c))) hsnap
      (hnext ▸ read)).1
  have hmarked : Bitmap.marked snap.bitmap 1 = true := by
    rw [hbits]
    decide
  refine ⟨r, st, snap, hready, hreached, hsnap, hnext, hmarked, ?_, fun hall => ?_⟩
  · have hwhole := ((hexact 1 (by decide)).mp hmarked).resolve_left
      (Bool.eq_false_iff.mp (hfresh.adopted 1))
    rw [hfor.chunk, hfor.total] at hwhole
    exact hwhole 65536 (by decide) (by decide)
  · have hfirst := (hexact 0 (by decide)).mpr (Or.inr fun p _ hp => hall p ?_)
    · rw [hbits] at hfirst
      exact absurd hfirst (by decide)
    · rw [hfor.chunk, hfor.total] at hp
      exact hp

/-- After enough rewrites the counter of a chunk that was taken over has wrapped to zero, and
a checkpoint forgets the chunk. -/
theorem chunk_bit_lost_twoChunks : ∃ existing r st snap,
    (FileSink.openPart existing true).prepare true true 65537 7 = .ready r ∧
      Reachable SinkUse.step (.start r) st ∧ snap ∈ st.checks ∧ 1 < snap.next ∧
      r.adopted 1 = true ∧ Bitmap.marked snap.bitmap 1 = false := by
  obtain ⟨existing, r, hready, hfor, htaken, hcounter⟩ := twoChunks_taken_over
  have htwo := SinkUse.TwoChunks.of_for hfor (by decide)
  obtain ⟨middle, ⟨events, hreplayed⟩, hmiddle, hwrapped, _, hchecks⟩ :=
    htwo.rewrites htaken (Nat.lt_of_le_of_lt (Nat.le_of_eq hcounter) (by decide)) (2 ^ 64 - 1)
  obtain ⟨st, snap, hchecked, hsnap, hnext, hbitmap⟩ := hmiddle.checks hchecks
  have hzero : middle.sink.counters 1 = 0 := by
    rw [hwrapped]
    change u64 (r.counters 1 + _) = 0
    rw [hcounter]
    decide
  refine ⟨existing, r, st, snap, hready, ⟨events ++ [.checkpoint, .look 0, .look 0], ?_⟩, hsnap,
    hnext ▸ Nat.one_lt_two, htaken, ?_⟩
  · rw [replay_append, hreplayed]
    exact hchecked
  · rw [hbitmap, hzero]
    simp only [FileSink.look, hmiddle.chunk, hmiddle.total]
    rw [if_neg (by decide)]
    split
    · decide
    · decide

end FuseTransport.Transfer
