import FuseTransport.Transfer.ChunkBits

/-!
# Short writes

One call of `FileSink::write` from its beginning to its end, for every sequence of outcomes
of `pwritev`.  The bytes are placed piece by piece and counted against their chunks only when
all of them are in the file.
-/

namespace FuseTransport.Transfer

open Proto Foundation.Runs Foundation.Splice

/-- What a call of `pwritev` comes to. -/
inductive WriteOutcome where
  | interrupted
  | failed
  | placed (n : Nat)
  deriving DecidableEq, Repr

/-- How many bytes a call places that could place `n`: no more than it was given, and none at
a position that no file has. -/
def Writing.placeable (w : Writing) (n : Nat) : Nat := min n (min w.bytes (2 ^ 63 - w.offset))

theorem Writing.placeable_le (w : Writing) (n : Nat) : w.placeable n ≤ w.bytes :=
  (Nat.min_le_right _ _).trans (Nat.min_le_left _ _)

/-- The loop that places the bytes: the file, and whether all bytes are in it; `none` when
there is no further outcome. -/
def placeAll : List WriteOutcome → List UInt8 → Writing → Option (List UInt8 × Bool)
  | [], part, w => if w.bytes > 0 then none else some (part, true)
  | outcome :: rest, part, w =>
    if w.bytes > 0 then
      match outcome with
      | .interrupted => placeAll rest part w
      | .failed => some (part, false)
      | .placed n =>
        if w.placeable n = 0 then some (part, false)
        else placeAll rest (splice 0 part w.offset (w.iov.flatten.take (w.placeable n)))
          (w.wrote (w.placeable n))
    else some (part, true)

/-- The loop that counts the bytes from `off` to `stop` against their chunks, for at most so
many rounds. -/
def countChunks (chunk nchunks stop : Nat) : Nat → Nat → (Nat → Nat) → Option (Nat → Nat)
  | 0, off, counters => if off < stop then none else some counters
  | rounds + 1, off, counters =>
    if off < stop then
      let c := off / chunk
      let next := min stop (u64 ((c + 1) * chunk))
      countChunks chunk nchunks stop rounds next
        (if c < nchunks then Function.update counters c (u64 (counters c + u64Sub next off))
        else counters)
    else some counters

/-- `none` when the outcomes do not suffice or the counting does not end. -/
def FileSink.write (s : FileSink) (offset : Nat) (iov : List (List UInt8))
    (outcomes : List WriteOutcome) : Option (FileSink × Bool) :=
  (placeAll outcomes s.part (.call offset iov)).bind fun (part, placed) =>
    if placed then
      (countChunks s.chunk s.nchunks (u64 (offset + iov.flatten.length)) iov.flatten.length offset
        s.counters).map fun counters => ({ s with part := part, counters := counters }, true)
    else some ({ s with part := part }, false)

/-! ## Placing -/

variable {outcomes : List WriteOutcome} {part : List UInt8} {w : Writing}

theorem placeAll_nothing (outcomes : List WriteOutcome) (part : List UInt8)
    (nothing : ¬ w.bytes > 0) : placeAll outcomes part w = some (part, true) := by
  cases outcomes with
  | nil => exact if_neg nothing
  | cons outcome rest => cases outcome <;> exact if_neg nothing

/-- As many outcomes as there are bytes are enough, interruptions aside. -/
theorem placeAll_ends (enough : w.bytes ≤ outcomes.countP (· ≠ .interrupted)) :
    (placeAll outcomes part w).isSome := by
  induction outcomes generalizing part w with
  | nil =>
    rw [placeAll_nothing [] part (Nat.not_lt.mpr enough)]
    rfl
  | cons outcome rest ih =>
    by_cases hmore : w.bytes > 0
    · cases outcome with
      | interrupted =>
        rw [placeAll, if_pos hmore]
        exact ih enough
      | failed =>
        rw [placeAll, if_pos hmore]
        rfl
      | placed n =>
        rw [placeAll, if_pos hmore]
        split
        · rfl
        · refine ih ?_
          rw [List.countP_cons, if_pos (by simp)] at enough
          change w.bytes - w.placeable n ≤ _
          omega
    · rw [placeAll_nothing _ part hmore]
      rfl

/-- When all bytes are in the file they are where they belong, and what stood before them still
stands there. -/
structure AllPlaced (part after : List UInt8) (w : Writing) : Prop where
  fits : 0 < w.bytes → w.offset + w.bytes ≤ 2 ^ 63
  bytes : ∀ i < w.bytes, after[w.offset + i]? = w.iov.flatten[i]?
  before : ∀ p < w.offset, p < part.length → after[p]? = part[p]?

theorem AllPlaced.wrote (n : Nat) {after : List UInt8} (left : w.iov.flatten.length = w.bytes)
    (placed : AllPlaced (splice 0 part w.offset (w.iov.flatten.take (w.placeable n))) after
      (w.wrote (w.placeable n))) : AllPlaced part after w := by
  have hcount : w.placeable n ≤ w.bytes ∧ w.placeable n ≤ 2 ^ 63 - w.offset := by
    unfold Writing.placeable
    omega
  obtain ⟨hfits, hbytes, hbefore⟩ := placed
  generalize w.placeable n = count at *
  have hpiece : (w.iov.flatten.take count).length = count := by
    rw [List.length_take]
    omega
  have hgrown := length_splice (0 : UInt8) part w.offset (w.iov.flatten.take count)
  dsimp only [Writing.wrote] at hfits hbytes hbefore
  refine ⟨fun _ => by omega, fun i inside => ?_, fun p early old => ?_⟩
  · rcases Nat.lt_or_ge i count with hhere | hlater
    · rw [hbefore _ (by omega) (by omega), getElem?_splice_inside (by omega) (by omega),
        Nat.add_sub_cancel_left, List.getElem?_take_of_lt hhere]
    · have hrest := hbytes (i - count) (by omega)
      rwa [flatten_skipWritten, List.getElem?_drop, Nat.add_assoc, Nat.add_sub_cancel' hlater]
        at hrest
  · rw [hbefore p (by omega) (by omega), getElem?_splice_outside old (Or.inl early)]

theorem AllPlaced.nothing (nothing : ¬ w.bytes > 0) : AllPlaced part part w where
  fits := fun some => absurd some nothing
  bytes := fun _ inside => absurd (Nat.zero_lt_of_lt inside) nothing
  before := fun _ _ _ => rfl

theorem placeAll_placed {after : List UInt8} (left : w.iov.flatten.length = w.bytes)
    (placed : placeAll outcomes part w = some (after, true)) : AllPlaced part after w := by
  by_cases hmore : w.bytes > 0
  · induction outcomes generalizing part w with
    | nil =>
      rw [placeAll, if_pos hmore] at placed
      cases placed
    | cons outcome rest ih =>
      cases outcome with
      | interrupted =>
        rw [placeAll, if_pos hmore] at placed
        exact ih left placed hmore
      | failed =>
        rw [placeAll, if_pos hmore] at placed
        cases placed
      | placed n =>
        rw [placeAll, if_pos hmore] at placed
        split at placed
        · cases placed
        · refine .wrote n left ?_
          have hleft : (skipWritten (w.placeable n) w.iov).flatten.length =
              w.bytes - w.placeable n := by
            rw [flatten_skipWritten, List.length_drop, left]
          by_cases hlast : (w.wrote (w.placeable n)).bytes > 0
          · exact ih hleft placed hlast
          · rw [placeAll_nothing rest _ hlast] at placed
            cases placed
            exact .nothing hlast
  · rw [placeAll_nothing outcomes part hmore] at placed
    cases placed
    exact .nothing hmore

def share (chunk first last c : Nat) : Nat := min last ((c + 1) * chunk) - max first (c * chunk)

/-- The bytes up to the end of a chunk are its own, the others those of later chunks. -/
theorem share_step {chunk off stop : Nat} (positive : 0 < chunk) (inside : off < stop) (c : Nat) :
    share chunk off stop c =
      (if c = off / chunk then min stop ((off / chunk + 1) * chunk) - off else 0) +
        share chunk (min stop ((off / chunk + 1) * chunk)) stop c := by
  have habove := Nat.div_mul_le_self off chunk
  have hbelow := Nat.lt_mul_div_succ off positive
  rw [Nat.mul_comm] at hbelow
  unfold share
  rcases Nat.lt_trichotomy c (off / chunk) with hless | rfl | hmore
  · have hbefore : (c + 1) * chunk ≤ off / chunk * chunk := Nat.mul_le_mul_right chunk hless
    rw [if_neg (Nat.ne_of_lt hless)]
    omega
  · rw [if_pos rfl]
    omega
  · have hbehind : (off / chunk + 1) * chunk ≤ c * chunk := Nat.mul_le_mul_right chunk hmore
    rw [if_neg (Nat.ne_of_gt hmore)]
    omega

/-- The counters after the bytes from `first` to `last` have been added. -/
def grown (chunk nchunks first last : Nat) (counters : Nat → Nat) (c : Nat) : Nat :=
  if c < nchunks then u64 (counters c + share chunk first last c) else counters c

section Grown

variable {chunk nchunks off stop : Nat} {counters : Nat → Nat}

theorem grown_nothing (words : ∀ c, counters c < 2 ^ 64) (behind : stop ≤ off) :
    grown chunk nchunks off stop counters = counters := by
  funext c
  have hnone : share chunk off stop c = 0 := by
    unfold share
    omega
  rw [grown, hnone, Nat.add_zero, u64_of_lt (words c), ite_self]

theorem grown_step (positive : 0 < chunk) (inside : off < stop) :
    grown chunk nchunks (min stop ((off / chunk + 1) * chunk)) stop
        (if off / chunk < nchunks then Function.update counters (off / chunk)
          (u64 (counters (off / chunk) + (min stop ((off / chunk + 1) * chunk) - off)))
        else counters) =
      grown chunk nchunks off stop counters := by
  funext c
  unfold grown
  by_cases hcounted : c < nchunks
  · rw [if_pos hcounted, if_pos hcounted, share_step positive inside c]
    by_cases hhere : c = off / chunk
    · rw [if_pos hhere, ← hhere, if_pos hcounted, Function.update_self, u64_add, Nat.add_assoc]
    · rw [if_neg hhere, Nat.zero_add]
      split
      · rw [Function.update_of_ne hhere]
      · rfl
  · rw [if_neg hcounted]
    split
    · have hne : c ≠ off / chunk := by omega
      rw [Function.update_of_ne hne]
    · rfl

theorem countChunks_eq {rounds : Nat} (positive : 0 < chunk) (small : chunk ≤ 2 ^ 63)
    (fits : stop ≤ 2 ^ 63) (words : ∀ c, counters c < 2 ^ 64) (enough : stop ≤ off + rounds) :
    countChunks chunk nchunks stop rounds off counters =
      some (grown chunk nchunks off stop counters) := by
  induction rounds generalizing off counters with
  | zero =>
    have hbehind : stop ≤ off := enough
    rw [countChunks, if_neg (Nat.not_lt.mpr hbehind), grown_nothing words hbehind]
  | succ rounds ih =>
    rw [countChunks]
    split
    · rename_i hinside
      have habove := Nat.div_mul_le_self off chunk
      have hbelow := Nat.lt_mul_div_succ off positive
      rw [Nat.mul_comm] at hbelow
      have hnext : (off / chunk + 1) * chunk ≤ off + chunk := by
        rw [Nat.succ_mul]
        omega
      have hwords : ∀ value c, (if off / chunk < nchunks then
          Function.update counters (off / chunk) (u64 value) else counters) c < 2 ^ 64 := by
        intro value c
        split
        · rw [Function.update_apply]
          split
          · exact u64_lt value
          · exact words c
        · exact words c
      dsimp only
      rw [u64_of_lt (by omega), u64Sub_of_le (by omega) (by omega), ih (hwords _) (by omega),
        grown_step positive hinside]
    · rename_i hbehind
      rw [grown_nothing words (Nat.le_of_not_lt hbehind)]

end Grown

/-- The bytes of a call that placed all of them are counted to the end. -/
theorem countChunks_of_placed {s : FileSink} {offset : Nat} {iov : List (List UInt8)}
    {after : List UInt8} (small : s.total ≤ kMaxSize) (chunk : s.chunk = chunkFor s.total)
    (words : ∀ c, s.counters c < 2 ^ 64) (placed : AllPlaced s.part after (.call offset iov)) :
    countChunks s.chunk s.nchunks (u64 (offset + iov.flatten.length)) iov.flatten.length offset
        s.counters =
      some (grown s.chunk s.nchunks offset (offset + iov.flatten.length) s.counters) := by
  rcases Nat.eq_zero_or_pos iov.flatten.length with hnone | hsome
  · have hbehind : ¬ offset < u64 offset := Nat.not_lt.mpr (Nat.mod_le offset _)
    rw [hnone, Nat.add_zero, countChunks, if_neg hbehind, grown_nothing words (Nat.le_refl _)]
  · have hfits : offset + iov.flatten.length ≤ 2 ^ 63 := placed.fits hsome
    have hchunk : s.chunk ≤ max (64 * 1024) s.total := chunk ▸ growChunk_le 64 s.total _
    unfold kMaxSize at small
    rw [u64_of_lt (by omega)]
    exact countChunks_eq (chunk ▸ chunkFor_pos s.total) (by omega) hfits words (Nat.le_refl _)

/-- For every sequence of outcomes of `pwritev` on a prepared file: as many outcomes as there
are bytes end the call, interruptions aside.  When it returns true, the bytes of the file from
`offset` on are those of the buffers, and the counter of each chunk has grown, as a word, by
the number of them inside it.  When it returns false, no counter has changed. -/
theorem short_writes_survived (s : FileSink) (small : s.total ≤ kMaxSize)
    (chunk : s.chunk = chunkFor s.total) (words : ∀ c, s.counters c < 2 ^ 64) (offset : Nat)
    (iov : List (List UInt8)) (outcomes : List WriteOutcome) :
    (iov.flatten.length ≤ outcomes.countP (· ≠ .interrupted) →
      (s.write offset iov outcomes).isSome) ∧
    ∀ after ok, s.write offset iov outcomes = some (after, ok) →
      (ok = true → (∀ i < iov.flatten.length, after.part[offset + i]? = iov.flatten[i]?) ∧
        after.counters =
          grown s.chunk s.nchunks offset (offset + iov.flatten.length) s.counters) ∧
      (ok = false → after.counters = s.counters) := by
  have hcounted : ∀ part, placeAll outcomes s.part (.call offset iov) = some (part, true) →
      AllPlaced s.part part (.call offset iov) := fun part placed => placeAll_placed rfl placed
  constructor
  · intro enough
    have hends : (placeAll outcomes s.part (.call offset iov)).isSome := placeAll_ends enough
    obtain ⟨⟨part, placed⟩, hplaced⟩ := Option.isSome_iff_exists.mp hends
    rw [FileSink.write, hplaced]
    cases placed with
    | false => rfl
    | true =>
      rw [countChunks_of_placed small chunk words (hcounted part hplaced)]
      rfl
  · intro after ok writes
    obtain ⟨⟨part, placed⟩, hplaced, hrest⟩ := Option.bind_eq_some_iff.mp writes
    cases placed with
    | false =>
      cases hrest
      exact ⟨fun done => absurd done Bool.false_ne_true, fun _ => rfl⟩
    | true =>
      have hwhole := hcounted part hplaced
      rw [countChunks_of_placed small chunk words hwhole] at hrest
      cases hrest
      exact ⟨fun _ => ⟨hwhole.bytes, rfl⟩, fun undone => absurd undone.symm Bool.false_ne_true⟩

/-- A sink of one chunk with nothing in it. -/
def emptyChunk : FileSink := { total := 65536, chunk := 65536, nchunks := 1 }

/-- Two buffers, interrupted once and written in two pieces. -/
theorem short_writes_survived_twice :
    ((emptyChunk.write 0 [[1, 2], [3]] [.placed 1, .interrupted, .placed 2]).map
        fun r => (r.1.part, r.1.counters 0, r.2)) = some ([1, 2, 3], 3, true) ∧
      ∀ after ok, emptyChunk.write 0 [[1, 2], [3]] [.placed 1, .interrupted, .placed 2] =
          some (after, ok) →
        (ok = true → (∀ i < 3, after.part[0 + i]? = [(1 : UInt8), 2, 3][i]?) ∧
          after.counters = grown 65536 1 0 3 fun _ => 0) ∧
        (ok = false → after.counters = fun _ => 0) :=
  ⟨by decide +kernel, (short_writes_survived emptyChunk (by decide) (by decide +kernel)
    (fun _ => Nat.two_pow_pos 64) 0 [[1, 2], [3]] [.placed 1, .interrupted, .placed 2]).2⟩

/-! ## A call among others -/

section Steps

variable {st : SinkUse} {k : Nat}

/-- A step for every call of `pwritev` that was not interrupted. -/
theorem placeAll_steps {after : List UInt8} {placed : Bool} (running : w.failed = false)
    (found : st.writes[k]? = some w)
    (ends : placeAll outcomes st.sink.part w = some (after, placed)) :
    ∃ next w', Reachable SinkUse.step st next ∧ next.sink = { st.sink with part := after } ∧
      next.writes[k]? = some w' ∧ w'.off = w.off ∧ w'.stop = w.stop ∧
      (placed = true → w'.failed = false ∧ w'.bytes = 0) := by
  induction outcomes generalizing st w with
  | nil =>
    obtain ⟨hnone, ends⟩ := Option.ite_none_left_eq_some.mp ends
    cases ends
    exact ⟨st, w, .refl st, rfl, found, rfl, rfl, fun _ => ⟨running, Nat.eq_zero_of_not_pos hnone⟩⟩
  | cons outcome rest ih =>
    have hk := (List.getElem?_eq_some_iff.mp found).1
    by_cases hmore : w.bytes > 0
    · have hfails : st.step (.fails k) =
          some { st with writes := st.writes.set k { w with failed := true } } := by
        rw [SinkUse.step, SinkUse.failWrite, found, Option.bind_some, if_pos ⟨running, hmore⟩]
      cases outcome with
      | interrupted =>
        rw [placeAll, if_pos hmore] at ends
        exact ih running found ends
      | failed =>
        rw [placeAll, if_pos hmore] at ends
        cases ends
        exact ⟨_, _, .head hfails (.refl _), rfl, List.getElem?_set_self hk, rfl, rfl, nofun⟩
      | placed n =>
        rw [placeAll, if_pos hmore] at ends
        split at ends
        · cases ends
          exact ⟨_, _, .head hfails (.refl _), rfl, List.getElem?_set_self hk, rfl, rfl, nofun⟩
        · rename_i hsome
          have hplaces : st.step (.pwritev k (w.placeable n)) =
              some (st.placed k (w.placeable n) w) := by
            rw [SinkUse.step, SinkUse.place, found, Option.bind_some,
              if_pos ⟨running, Nat.pos_of_ne_zero hsome, w.placeable_le n⟩]
          have hset : (st.placed k (w.placeable n) w).writes[k]? =
              some (w.wrote (w.placeable n)) := List.getElem?_set_self hk
          obtain ⟨next, w', hreached, hnext⟩ := ih (w := w.wrote _) running hset ends
          exact ⟨next, w', hreached.head hplaces, hnext⟩
    · rw [placeAll_nothing _ _ hmore] at ends
      cases ends
      exact ⟨st, w, .refl st, rfl, found, rfl, rfl, fun _ => ⟨running, Nat.eq_zero_of_not_pos hmore⟩⟩

/-- A step for every chunk. -/
theorem countChunks_steps {s : FileSink} {rounds : Nat} {counters after : Nat → Nat}
    (sized : s.layout.Sized) (same : st.sink = { s with counters := counters })
    (inside : w.stop ≤ s.total) (running : w.failed = false) (placed : w.bytes = 0)
    (found : st.writes[k]? = some w)
    (ends : countChunks s.chunk s.nchunks w.stop rounds w.off counters = some after) :
    ∃ next, Reachable SinkUse.step st next ∧ next.sink = { s with counters := after } := by
  induction rounds generalizing st w counters with
  | zero =>
    rw [countChunks] at ends
    split at ends <;> cases ends
    exact ⟨st, .refl st, same⟩
  | succ rounds ih =>
    rw [countChunks] at ends
    split at ends
    · rename_i hinside
      have hk := (List.getElem?_eq_some_iff.mp found).1
      have hcounts : st.step (.count k) = some (st.counted k w) := by
        rw [SinkUse.step, SinkUse.count, found, Option.bind_some, if_pos ⟨running, placed, hinside⟩]
      have hreach : min w.stop (u64 ((w.off / s.chunk + 1) * s.chunk)) = st.reach w := by
        rw [SinkUse.reach, same]
      have hahead : u64Sub (st.reach w) w.off = st.reach w - w.off := by
        have hfits : s.total + s.chunk < 2 ^ 64 := sized.fits
        have hbelow := Nat.div_mul_le_self w.off s.chunk
        have habove := Nat.lt_mul_div_succ w.off sized.positive
        rw [← hreach, u64_of_lt (by rw [Nat.succ_mul]; omega)]
        exact u64Sub_of_le (by rw [Nat.mul_comm]; exact le_min hinside.le habove.le) (by omega)
      dsimp only at ends
      rw [hreach, hahead] at ends
      have hcounted : (st.counted k w).writes[k]? = some { w with off := st.reach w } := by
        unfold SinkUse.counted
        dsimp only
        split <;> exact List.getElem?_set_self hk
      refine (ih (w := { w with off := st.reach w }) ?_ inside running placed hcounted ends).imp
        fun next h => ⟨h.1.head hcounts, h.2⟩
      unfold SinkUse.counted
      dsimp only
      rw [same]
      split <;> rfl
    · cases ends
      exact ⟨st, .refl st, same⟩

end Steps

/-- What a call does when it runs on its own, the threads that share the sink can do too. -/
theorem FileSink.write_steps {st : SinkUse} {offset : Nat} {iov : List (List UInt8)}
    {after : FileSink} {ok : Bool} (sized : st.sink.layout.Sized)
    (may : st.MayWrite ⟨offset, offset + iov.flatten.length⟩)
    (writes : st.sink.write offset iov outcomes = some (after, ok)) :
    ∃ next, Reachable SinkUse.step st next ∧ next.sink = after := by
  have hbegins : st.step (.write offset iov) =
      some { st with writes := st.writes ++ [.call offset iov] } := if_pos may
  have hinside : offset + iov.flatten.length ≤ st.sink.total := may.1
  have hfits : st.sink.total + st.sink.chunk < 2 ^ 64 := sized.fits
  obtain ⟨⟨part, placed⟩, hplaced, hrest⟩ := Option.bind_eq_some_iff.mp writes
  have hcall : ({ st with writes := st.writes ++ [.call offset iov] } : SinkUse).writes[
      st.writes.length]? = some (.call offset iov) := List.getElem?_concat_length
  obtain ⟨middle, w, hreached, hsink, hfound, hoff, hstop, hdone⟩ :=
    placeAll_steps rfl hcall hplaced
  cases placed with
  | false =>
    cases hrest
    exact ⟨middle, hreached.head hbegins, hsink⟩
  | true =>
    obtain ⟨counters, hcounters, hafter⟩ := Option.map_eq_some_iff.mp hrest
    obtain ⟨hrunning, hnone⟩ := hdone rfl
    rw [u64_of_lt (by omega)] at hcounters
    obtain ⟨next, honward, hnext⟩ := countChunks_steps
      (s := { st.sink with part := part }) sized hsink (hstop ▸ hinside) hrunning hnone hfound (by rw [hoff, hstop]; exact hcounters)
    cases hafter
    exact ⟨next, (hreached.trans honward).head hbegins, hnext⟩

end FuseTransport.Transfer
