import FuseTransport.Transfer.Integrity

/-!
# What a resumed transfer asks for

The list a lane of the sender works through is the list its receiver made when it
joined: in order, inside the lane, without empty parts, and with everything in it that
is not in a complete chunk.  The receiver then waits for exactly as many bytes.
-/

namespace FuseTransport.Transfer

open Foundation Foundation.Runs Proto

namespace Sink

variable {s : Sink} {first last c : Nat} {out : List ResumeRange}

theorem addMissing_positive (positive : Positive out)
    (order : max first (c * s.chunk) < min last (min s.total ((c + 1) * s.chunk))) :
    Positive (s.addMissing first last out c) := by
  have hsome := Nat.sub_pos_of_lt order
  unfold addMissing
  split
  · exact positive
  · dsimp only
    split
    · split
      · refine Positive.append (fun r member => positive r (List.mem_of_mem_dropLast member)) ?_
        exact positive_singleton (Nat.lt_of_lt_of_le hsome (Nat.le_add_left _ _))
      · exact positive.append (positive_singleton hsome)
    · exact positive_singleton hsome

theorem foldl_addMissing_positive {chunks : List Nat} (positive : Positive out)
    (order : ∀ c ∈ chunks, max first (c * s.chunk) < min last (min s.total ((c + 1) * s.chunk))) :
    Positive (chunks.foldl (s.addMissing first last) out) := by
  induction chunks generalizing out with
  | nil => exact positive
  | cons c rest ih =>
    refine ih (addMissing_positive positive (order c List.mem_cons_self)) fun other member => ?_
    exact order other (List.mem_cons_of_mem _ member)

theorem missing_positive (inside : last ≤ s.total)
    (chunks : s.resumed = true → 0 < s.chunk) : Positive (s.missing first last) := by
  unfold missing
  split
  · split
    · rename_i hsome
      exact positive_singleton (Nat.sub_pos_of_lt hsome)
    · exact nofun
  · rename_i hresumed
    rw [not_or, Bool.not_eq_false, Nat.not_le] at hresumed
    refine foldl_addMissing_positive nofun fun c member => ?_
    obtain ⟨hlow, hhigh⟩ := List.mem_range'_1.mp member
    exact chunk_meets hresumed.2 inside (chunks hresumed.1) hlow (by omega)

end Sink

theorem mergeBelow_positive {bound low high : Nat} {back : ResumeRange} {ranges : List ResumeRange}
    (ascending : Ascending low high (back :: ranges)) (positive : Positive (back :: ranges)) :
    Positive (mergeBelow bound back ranges) := by
  induction ranges generalizing low back with
  | nil => exact positive
  | cons cur rest ih =>
    cases ascending with
    | cons start behind =>
      cases behind with
      | cons next onward =>
        have hback := positive back List.mem_cons_self
        have hrest : Positive rest := fun r member =>
          positive r (List.mem_cons_of_mem _ (List.mem_cons_of_mem _ member))
        rw [mergeBelow]
        split
        · have hlength : back.offset + (cur.offset + cur.length - back.offset) =
              cur.offset + cur.length := by omega
          refine ih (.cons start (hlength.symm ▸ onward)) ?_
          exact (positive_singleton (by dsimp only; omega)).append hrest
        · refine (positive_singleton hback).append (ih (.cons next onward) ?_)
          exact fun r member => positive r (List.mem_cons_of_mem _ member)

theorem coarsenFrom_positive (limit fuel : Nat) {low high : Nat} {ranges : List ResumeRange}
    (ascending : Ascending low high ranges) (positive : Positive ranges) :
    Positive (coarsenFrom limit fuel ranges) := by
  induction fuel generalizing ranges with
  | zero => exact positive
  | succ fuel ih =>
    cases ranges with
    | nil => exact positive
    | cons first rest =>
      rw [coarsenFrom]
      split
      · exact ih ascending.mergeBelow.1 (mergeBelow_positive ascending positive)
      · exact positive

/-- A lane asks for no empty part. -/
theorem RecvLane.wanted_positive {sh : Shared} (output : Sized sh) (ready : sh.sinkState = .ready)
    {base shard : Nat} (inside : base + shard ≤ sh.fileTotal) :
    Positive (wanted sh.sink base shard) := by
  rw [(output.sized ready).1] at inside
  have hchunks := output.chunks ready
  have hasc := (sh.sink.missing_spec (Nat.le_add_right base shard) inside hchunks).1
  have hmissing : Positive (sh.sink.missing base (base + shard)) :=
    Sink.missing_positive inside fun resumed => (hchunks resumed).1
  refine coarsenFrom_positive _ _ (hasc.shift (Nat.le_refl base)) fun r member => ?_
  obtain ⟨other, hother, rfl⟩ := List.mem_map.mp member
  exact hmissing other hother

/-! ## Joining -/

namespace Session

variable {cfg : SessionConfig} {st st' : Session} {e : SessionEvent}

/-- What a step does to the place of a lane of the receiver. -/
theorem step_place (moved : st.step cfg e = some st') (lane : Nat) :
    RecvLane.SamePlace (st.rx.lanes lane) (st'.rx.lanes lane) ∨
      ((st.rx.lanes lane).haveStart = false ∧ lane < cfg.send.lanes ∧
        ∃ dg ss works keys, (∃ s ∈ st.forward lane, s.bytes = dg) ∧ decodeStreamStart dg = some ss ∧
          st'.rx.lanes lane = (st.rx.lanes lane).join st'.rx.shared lane ss works keys) := by
  cases step_stepped moved with
  | receiver e rx sent arrived stepped _ =>
    cases stepped with
    | lane own sh L same inside change =>
      by_cases hother : lane = own
      · subst hother
        have hlane : ({ st.rx.setLane lane L with shared := sh } : RxState).lanes lane = L :=
          RxState.setLane_self _ _ _
        change RecvLane.SamePlace _ (({ st.rx.setLane lane L with shared := sh } : RxState).lanes
          lane) ∨ (_ ∧ _ ∧ ∃ dg ss works keys, _ ∧ _ ∧
            ({ st.rx.setLane lane L with shared := sh } : RxState).lanes lane = _)
        rw [hlane]
        refine change.place.imp_right ?_
        rintro ⟨before, _, inp, dg, ss, keys, hevent, hdecoded, _, hjoin⟩
        exact ⟨before, inside, dg, ss, inp.works, keys, arrived lane inp dg hevent, hdecoded, hjoin⟩
      · refine Or.inl ?_
        change RecvLane.SamePlace _ ((st.rx.setLane own L).lanes lane)
        rw [RxState.setLane_of_ne _ hother]
        exact RecvLane.SamePlace.refl _
    | finish => exact Or.inl (RecvLane.SamePlace.refl _)
  | sender => exact Or.inl (RecvLane.SamePlace.refl _)

/-- What a lane asked for when it joined it asks for to the end. -/
theorem replay_place {run : List SessionEvent} (replayed : replay (step cfg) st run = some st')
    {lane : Nat} (started : (st.rx.lanes lane).haveStart = true) :
    RecvLane.SamePlace (st.rx.lanes lane) (st'.rx.lanes lane) := by
  have hkept : ∀ middle label next, RecvLane.SamePlace (st.rx.lanes lane) (middle.rx.lanes lane) →
      step cfg middle label = some next →
      RecvLane.SamePlace (st.rx.lanes lane) (next.rx.lanes lane) := by
    intro middle label next same moved
    rcases step_place moved lane with hsame | ⟨hbefore, _⟩
    · exact ⟨hsame.haveStart.trans same.haveStart, hsame.laneBase.trans same.laneBase,
        hsame.shardBytes.trans same.shardBytes, hsame.expectedBytes.trans same.expectedBytes,
        hsame.want.trans same.want⟩
    · rw [same.haveStart, started] at hbefore
      cases hbefore
  exact replay_preserves hkept replayed (RecvLane.SamePlace.refl _)

end Session

/-- In every run of a session, for every lane whose handshake is complete: there was a step by
which the receiver's lane joined, and the list the sender works through is the list the
receiver made in that step.  It is in order, its parts do not overlap, are not empty and lie in
the lane; a byte it does not name was in a complete chunk at that step; and the receiver expects
as many bytes as it has. -/
theorem ranges_cover_missing {cfg : SessionConfig} {run : List SessionEvent} {st : Session}
    (reached : replay (Session.step cfg) (Session.create cfg) run = some st) {lane : Nat}
    (inside : lane < cfg.send.lanes) (begun : (st.tx lane).phase ≠ .handshake) :
    ∃ before e after st₀ st₁, run = before ++ e :: after ∧
      replay (Session.step cfg) (Session.create cfg) before = some st₀ ∧
      st₀.step cfg e = some st₁ ∧ replay (Session.step cfg) st₁ after = some st ∧
      (st₀.rx.lanes lane).haveStart = false ∧ (st₁.rx.lanes lane).haveStart = true ∧
      (st.tx lane).ranges = RecvLane.wanted st₁.rx.shared.sink (cfg.send.laneBase lane)
        (cfg.send.shardBytes lane) ∧
      (st.tx lane).ranges.Pairwise (fun a b => a.offset + a.length ≤ b.offset) ∧
      (∀ r ∈ (st.tx lane).ranges, 0 < r.length ∧ r.offset + r.length ≤ cfg.send.shardBytes lane) ∧
      (∀ i < cfg.send.shardBytes lane, Names (st.tx lane).ranges i ∨
        (st₁.rx.shared.sink.resumed = true ∧ st₁.rx.shared.sink.chunkComplete
          ((cfg.send.laneBase lane + i) / st₁.rx.shared.sink.chunk) = true)) ∧
      (st.rx.lanes lane).expectedBytes = ((st.tx lane).ranges.map fun r => r.length).sum := by
  have hlink := (Session.reachable_inv reached).links lane inside
  obtain ⟨hstarted, hranges⟩ := hlink.told.begun begun
  obtain ⟨before, e, after, st₀, st₁, hrun, hbefore, hstep, hafter, hwaiting, hjoined⟩ :=
    replay_turns (P := fun st : Session => (st.rx.lanes lane).haveStart = true) reached nofun
      hstarted
  refine ⟨before, e, after, st₀, st₁, hrun, hbefore, hstep, hafter, Bool.eq_false_iff.mpr hwaiting,
    hjoined, ?_⟩
  have hinv₀ := Session.reachable_inv hbefore
  have hinv₁ : st₁.Inv cfg := hinv₀.step hstep
  have hsame := Session.replay_place hafter hjoined
  rcases Session.step_place hstep lane with
    hplace | ⟨_, _, dg, ss, works, keys, ⟨s, hs, hbytes⟩, hdecoded, hjoin⟩
  · exact absurd (hplace.haveStart.symm.trans hjoined) hwaiting
  · obtain ⟨L, hss⟩ := ((hinv₀.links lane inside).forward s hs).starts ss (hbytes ▸ hdecoded)
    have hready : st₁.rx.shared.sinkState = .ready :=
      (hinv₁.links lane inside).receiver.ready hjoined
    have hshard := shard_inside cfg.send.data.length cfg.send.lanes lane
    have hinside : cfg.send.laneBase lane + cfg.send.shardBytes lane ≤ st₁.rx.shared.fileTotal := by
      rw [hinv₁.output.length hready]
      exact hshard
    obtain ⟨hasc, hcovers⟩ := RecvLane.wanted_ascending hinv₁.output.toSized hready hinside
    have hpositive := RecvLane.wanted_positive hinv₁.output.toSized hready hinside
    have hplace : (st.rx.lanes lane).log.want = RecvLane.wanted st₁.rx.shared.sink
          (cfg.send.laneBase lane) (cfg.send.shardBytes lane) ∧
        (st.rx.lanes lane).expectedBytes = u64 ((RecvLane.wanted st₁.rx.shared.sink
          (cfg.send.laneBase lane) (cfg.send.shardBytes lane)).map fun r => r.length).sum := by
      rw [hsame.want, hsame.expectedBytes, hjoin, hss]
      exact ⟨rfl, rfl⟩
    rw [hplace.1, hasc.rangesToSend hpositive (flatten_answerLists _)] at hranges
    rw [hranges, hplace.2]
    have hsum := hasc.sum_le
    have hdata := cfg.send.data_fits
    unfold SendConfig.shardBytes at hsum
    refine ⟨rfl, hasc.pairwise, fun r member => ⟨hpositive r member, hasc.inside member⟩,
      fun i within => ?_, u64_of_lt (by unfold SendConfig.shardBytes; omega)⟩
    have hcovered := hcovers (cfg.send.laneBase lane + i) (Nat.le_add_right _ _)
      (Nat.add_lt_add_left within _)
    rwa [Nat.add_sub_cancel_left] at hcovered

/-- A file of two chunks of which an earlier session has the first. -/
def resumedSession : SessionConfig where
  send :=
    { lanes := 1, data := List.replicate 65537 9, fileId := 3, nonces := fun _ => 7
      data_fits := by rw [List.length_replicate]; decide }
  kind := .file
  prior := some
    { fileId := 3, total := 65537, chunk := 65536, nchunks := 2, bitmap := fun i => i == 0 }

/-- The lane opens and learns that one byte is needed. -/
def resumedRun : List SessionEvent :=
  let opening := streamStartBytes
    { blockSize := 1200, totalBytes := 65537, fileTotalBytes := 65537, fileId := 3, nonce := 7 }
  let needed := { nonce := 7, flags := kResumeFlagResumed, ranges := [⟨65536, 1⟩] }
  [.sender 0 (.sendStart true), .receiver (.datagram 0 {} opening), .receiver (.ack 0 true),
    .sender 0 (.receive (ackBytes { nonce := 7, rwnd := 16 }) (fun _ => true) 0),
    .sender 0 (.receive (resumeRangesBytes needed) (fun _ => true) 0)]

theorem ranges_cover_missing_resumedRun :
    ∃ st, replay (Session.step resumedSession) (Session.create resumedSession) resumedRun = some st ∧
      (st.tx 0).resumed = true ∧ (st.tx 0).ranges = [⟨65536, 1⟩] ∧
      (st.rx.lanes 0).expectedBytes = 1 := by
  obtain ⟨st, hreplay, hbegun, hresumed, hranges⟩ : ∃ st,
      replay (Session.step resumedSession) (Session.create resumedSession) resumedRun = some st ∧
        (st.tx 0).phase ≠ .handshake ∧ (st.tx 0).resumed = true ∧
        (st.tx 0).ranges = [⟨65536, 1⟩] := by decide +kernel
  obtain ⟨_, _, _, _, _, hcovers⟩ := ranges_cover_missing hreplay resumedSession.send.lanes_pos hbegun
  have hexpected := hcovers.2.2.2.2.2.2.2.2.2.2
  rw [hranges] at hexpected
  exact ⟨st, hreplay, hresumed, hranges, hexpected⟩

end FuseTransport.Transfer
