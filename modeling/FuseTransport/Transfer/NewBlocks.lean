import FuseTransport.Transfer.LoopRuns

/-!
# The new blocks of a lane

Over a whole run of the sending loop the blocks that go out for the first time are numbered
from zero, and together they carry what the lane was asked for.
-/

namespace FuseTransport.Transfer

open Foundation.Runs Proto

/-- The first datagram of a block. -/
def FirstSend (cfg : SendConfig) (lane seqNo : Nat) (block : SentBlock) (dg : List UInt8) : Prop :=
  ∃ works nowNs cap, blockDatagram (cfg.cipher lane) works lane seqNo block nowNs cap = some dg

structure Numbered (cfg : SendConfig) (lane : Nat) (news : List Sent) (history : List SentBlock) :
    Prop where
  length : news.length = history.length
  each : ∀ i sent block, news[i]? = some sent → history[i]? = some block →
    FirstSend cfg lane i block sent.bytes

theorem Numbered.append {cfg : SendConfig} {lane : Nat} {news : List Sent}
    {history : List SentBlock} (numbered : Numbered cfg lane news history) {sent : Sent}
    {block : SentBlock} (first : FirstSend cfg lane history.length block sent.bytes) :
    Numbered cfg lane (news ++ [sent]) (history ++ [block]) := by
  have hlength := numbered.length
  refine ⟨by simp [hlength], fun i other held found kept => ?_⟩
  rcases Nat.lt_or_ge i history.length with hbefore | hafter
  · rw [List.getElem?_append_left (by omega)] at found
    rw [List.getElem?_append_left hbefore] at kept
    exact numbered.each i other held found kept
  · have hi : i = history.length := by
      have hinside := (List.getElem?_eq_some_iff.mp kept).1
      rw [List.length_append, List.length_singleton] at hinside
      omega
    subst hi
    rw [List.getElem?_concat_length] at kept
    rw [← hlength, List.getElem?_concat_length] at found
    rw [← Option.some.inj kept, ← Option.some.inj found]
    exact first

namespace Packing

variable {cfg : SendConfig} {lane block room : Nat} {emptyLast : Bool} {attempts : Nat → Attempt}
  {p q : Packing} {a : Attempt} {news : List Sent}

theorem Puts.numbered (puts : Puts cfg lane block p a q)
    (counted : p.lane.history.length = p.lane.nextSeq)
    (numbered : Numbered cfg lane (news ++ p.datagrams) p.lane.history) :
    Numbered cfg lane (news ++ q.datagrams) q.lane.history := by
  cases puts with
  | stored refused => exact numbered
  | staged sent encoded =>
    have hfirst : FirstSend cfg lane p.lane.history.length (p.next cfg lane block) sent.bytes :=
      ⟨a.works, a.wireNs, _, counted ▸ encoded⟩
    rw [← List.append_assoc]
    exact numbered.append hfirst

theorem Loads.numbered (loads : Loads cfg lane emptyLast room p) (positive : 0 < block)
    (fits : block ≤ cfg.blockCeiling)
    (numbered : Numbered cfg lane (news ++ p.datagrams) p.lane.history) :
    Numbered cfg lane (news ++ (Packing.pack cfg lane block emptyLast attempts room p).datagrams)
      (Packing.pack cfg lane block emptyLast attempts room p).lane.history := by
  refine pack_rule
    (fun room p => Loads cfg lane emptyLast room p ∧
      Numbered cfg lane (news ++ p.datagrams) p.lane.history)
    (fun p => Numbered cfg lane (news ++ p.datagrams) p.lane.history)
    (fun _ _ enters => enters.2) ?_ ⟨loads, numbered⟩
  rintro room p ⟨loads, numbered⟩ more _ a q puts
  have hnumbered := puts.numbered (SendLane.reachable_kept loads.reached).sound.counted numbered
  exact ⟨hnumbered, fun goes => ⟨loads.goesOn more positive fits puts goes, hnumbered⟩⟩

end Packing

namespace SendLoop

section Loop

variable {cfg : LoopConfig} {lane : Nat} {st st' : SendLoop} {sent : List Sent}

theorem Looped.numbered {e : LoopEvent} (looped : Looped cfg lane st e st' sent)
    (held : st.Held cfg lane) (numbered : Numbered cfg.send lane st.news st.lane.history) :
    Numbered cfg.send lane st'.news st'.lane.history := by
  cases looped with
  | acked => exact numbered
  | other e L est loss sent _ same acted learned =>
    rw [same.history]
    exact numbered
  | controller => exact numbered
  | batch attempts sends =>
    refine (held.fills sends).loads.numbered held.block_pos held.block_le ?_
    rw [List.append_nil]
    exact numbered
  | turn => exact numbered

theorem reachable_numbered (reached : Reachable (SendLoop.step cfg lane) (create cfg lane) st) :
    Numbered cfg.send lane st.news st.lane.history :=
  reachable_keeps (fun st => Numbered cfg.send lane st.news st.lane.history) ⟨rfl, nofun⟩
    (fun _ _ _ _ looped held numbered => looped.numbered held numbered) reached

end Loop

end SendLoop

namespace SendLane

variable {cfg : SendConfig} {lane : Nat} {L : SendLane}

/-- The end of stream stands on a block exactly when it is the last one and nothing is left. -/
theorem Kept.isLastBlock_iff (kept : L.Kept cfg lane) {i : Nat} {block : SentBlock}
    (found : L.history[i]? = some block) :
    isLastBlock block.flags = true ↔ i + 1 = L.history.length ∧ ¬ L.pending := by
  have hended : i + 1 = L.history.length → (isLastBlock block.flags = true ↔ ¬ L.pending) := by
    intro last
    refine kept.tiled.ended block ?_
    rw [List.getLast?_eq_getElem?, ← last]
    exact found
  constructor
  · intro marked
    have hlast := (kept.sound.walk.last i block found marked).1
    exact ⟨hlast, (hended hlast).mp marked⟩
  · rintro ⟨hlast, hover⟩
    exact (hended hlast).mpr hover

theorem unsent_of_not_pending (ended : ¬ L.pending) : L.unsent = [] := by
  have hri : L.ranges.length ≤ L.ri := Nat.le_of_not_lt fun more => ended (Or.inl more)
  rw [unsent, List.getElem?_eq_none hri]

theorem Kept.ranges_eq (kept : L.Kept cfg lane) (begun : L.phase ≠ .handshake) :
    L.ranges = rangesToSend (cfg.shardBytes lane) L.answer := by
  rw [kept.tiled.begun, if_neg begun]

end SendLane

namespace SendLoop

variable {cfg : LoopConfig} {lane : Nat} {st : SendLoop}

/-- The new blocks are numbered from zero and carry the positions of the parts in ascending
order, each once and inside the lane.  What the receiver asked for is taken without its
empty parts and in the order of the offsets; when that is not disjoint or not inside the
lane, the whole lane is sent. -/
theorem new_blocks_tile (reached : Reachable (SendLoop.step cfg lane) (create cfg lane) st) :
    (st.news.length = st.lane.history.length ∧
      ∀ i sent block, st.news[i]? = some sent → st.lane.history[i]? = some block →
        FirstSend cfg.send lane i block sent.bytes) ∧
    (carried st.lane.history ++ st.lane.unsent = spots st.lane.ranges ∧
      (¬ st.lane.pending → carried st.lane.history = spots st.lane.ranges) ∧
      (spots st.lane.ranges).Pairwise (· < ·)) ∧
    (∀ block ∈ st.lane.history, Slice cfg.send lane block) ∧
    (∀ block ∈ st.lane.history, block.payload = [] →
      st.lane.ranges = [] ∧ st.lane.history = [block]) ∧
    (∀ i block, st.lane.history[i]? = some block →
      (isLastBlock block.flags = true ↔ i + 1 = st.lane.history.length ∧ ¬ st.lane.pending)) ∧
    (st.lane.phase ≠ .handshake →
      (Ascending 0 (cfg.send.shardBytes lane) (askedFor st.lane.answer) →
        st.lane.ranges = askedFor st.lane.answer) ∧
      (¬ Ascending 0 (cfg.send.shardBytes lane) (askedFor st.lane.answer) →
        st.lane.ranges = wholeLane (cfg.send.shardBytes lane)) ∧
      (Ascending 0 (cfg.send.shardBytes lane) st.lane.answer.flatten →
        Positive st.lane.answer.flatten → st.lane.ranges = st.lane.answer.flatten)) := by
  have hkept := (reachable_held reached).kept
  have hnumbered := reachable_numbered reached
  have hwalk := hkept.sound.walk
  refine ⟨⟨hnumbered.length, hnumbered.each⟩,
    ⟨hkept.tiled.tiles, fun ended => ?_, hwalk.ranges.pairwise_spots⟩, hwalk.slices,
    hkept.tiled.filled, fun i block found => hkept.isLastBlock_iff found, fun begun => ?_⟩
  · rw [← hkept.tiled.tiles, SendLane.unsent_of_not_pending ended, List.append_nil]
  · rw [hkept.ranges_eq begun]
    exact ⟨rangesToSend_of_ascending, rangesToSend_of_not_ascending,
      fun ascending positive => ascending.rangesToSend positive rfl⟩

/-- Parts that come in another order are sorted and sent, not replaced by the whole lane. -/
theorem unordered_parts_sorted :
    ∃ st, Reachable (SendLoop.step fiveBytes 0) (create fiveBytes 0) st ∧
      st.lane.phase = .sending ∧ st.lane.answer = [[⟨3, 1⟩, ⟨0, 1⟩]] ∧
      ¬ Ascending 0 (fiveBytes.send.shardBytes 0) st.lane.answer.flatten ∧
      st.lane.ranges = [⟨0, 1⟩, ⟨3, 1⟩] ∧
      st.lane.ranges ≠ wholeLane (fiveBytes.send.shardBytes 0) := by
  obtain ⟨st, hst, hphase, hanswer, hranges⟩ : ∃ st,
      replay (SendLoop.step fiveBytes 0) (create fiveBytes 0) (opening [⟨3, 1⟩, ⟨0, 1⟩]) = some st ∧
        st.lane.phase = .sending ∧ st.lane.answer = [[⟨3, 1⟩, ⟨0, 1⟩]] ∧
        st.lane.ranges = [⟨0, 1⟩, ⟨3, 1⟩] := by decide +kernel
  refine ⟨st, ⟨_, hst⟩, hphase, hanswer, ?_, hranges, ?_⟩
  · rw [hanswer, ← rangesHold_iff]
    decide
  · rw [hranges]
    decide

theorem new_blocks_tile_fiveBytes :
    ∃ st, Reachable (SendLoop.step fiveBytes 0) (create fiveBytes 0) st ∧
      st.news.length = 3 ∧ ¬ st.lane.pending ∧ carried st.lane.history = [0, 1, 2, 3, 4] := by
  obtain ⟨st, hst, hcount, hover, hspots⟩ : ∃ st,
      replay (SendLoop.step fiveBytes 0) (create fiveBytes 0)
        (opening [⟨0, 5⟩] ++ [.batch fun _ => {}, .batch fun _ => {}]) = some st ∧
        st.news.length = 3 ∧ ¬ st.lane.pending ∧ spots st.lane.ranges = [0, 1, 2, 3, 4] := by decide +kernel
  have hreached : Reachable (SendLoop.step fiveBytes 0) (create fiveBytes 0) st := ⟨_, hst⟩
  have htiles := (new_blocks_tile hreached).2.1.2.1 hover
  exact ⟨st, hreached, hcount, hover, htiles.trans hspots⟩

end SendLoop

end FuseTransport.Transfer
