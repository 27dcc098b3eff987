import FuseTransport.Transfer.SendLoop

/-!
# What one batch can do

The packing loop of a batch, inverted once, and the rule by which facts about one block
become facts about a batch.  Every block a batch packs is a step of its lane, every
datagram but a single one has the same size, and the batch stays within its buffer.
-/

namespace FuseTransport.Transfer

open Foundation.Cuts Foundation.Runs Proto

variable {works : Bool} {block : SentBlock}

theorem SendConfig.length_protect (cfg : SendConfig) {lane seqNo : Nat} {body : List UInt8}
    (done : protect (cfg.cipher lane) works lane seqNo block = some body) :
    body.length = block.payload.length + cfg.tagBytes := by
  unfold SendConfig.cipher at done
  unfold SendConfig.tagBytes
  cases hkeyed : cfg.keyed with
  | none =>
    rw [hkeyed] at done
    rw [← Option.some.inj done]
    rfl
  | some k =>
    rw [hkeyed] at done
    rw [LaneCipher.sealData_eq_some k.backend done, k.backend.length_encrypt]
    rfl

/-- A datagram is its header, the payload and the tag. -/
theorem SendConfig.length_blockDatagram (cfg : SendConfig) {lane seqNo nowNs cap : Nat}
    {dg : List UInt8}
    (sent : blockDatagram (cfg.cipher lane) works lane seqNo block nowNs cap = some dg) :
    dg.length = kDataPrefixSize + block.payload.length + cfg.tagBytes := by
  obtain ⟨body, hbody, _, hdg⟩ := blockDatagram_eq_some sent
  rw [hdg, List.length_append, length_dataPrefix, cfg.length_protect hbody, ← Nat.add_assoc]
  rfl

/-- A sealed block that fits a datagram and the buffer is encoded. -/
theorem SendConfig.blockDatagram_isSome (cfg : SendConfig) {lane seqNo cap : Nat} (nowNs : Nat)
    (done : (protect (cfg.cipher lane) works lane seqNo block).isSome)
    (small : block.payload.length ≤ cfg.blockCeiling)
    (room : kDataPrefixSize + block.payload.length + cfg.tagBytes ≤ cap) :
    (blockDatagram (cfg.cipher lane) works lane seqNo block nowNs cap).isSome := by
  obtain ⟨body, hbody⟩ := Option.isSome_iff_exists.mp done
  have hlength := cfg.length_protect hbody
  have hceiling : cfg.blockCeiling + cfg.tagBytes = kMaxPayloadSize := by
    unfold SendConfig.blockCeiling SendConfig.tagBytes
    split <;> decide
  unfold blockDatagram encodeDataDatagram
  rw [hbody, Option.bind_some, if_neg (by dsimp only; omega), if_neg (by dsimp only; omega)]
  rfl

namespace Packing

section Batch

variable {cfg : SendConfig} {lane block room : Nat} {emptyLast : Bool} {attempts : Nat → Attempt}
  {p q : Packing} {a : Attempt}

/-- The block that a batch packs next. -/
def next (cfg : SendConfig) (lane block : Nat) (p : Packing) : SentBlock :=
  p.lane.nextBlock cfg lane (p.lane.blockLength block)

/-- The lane when that block is stored. -/
def kept (cfg : SendConfig) (lane block : Nat) (p : Packing) (a : Attempt) : SendLane :=
  p.lane.keep (p.next cfg lane block) a.nowNs

/-- A block is staged, or it is only stored: it could not be sealed, or the buffer had no
room. -/
inductive Puts (cfg : SendConfig) (lane block : Nat) (p : Packing) (a : Attempt) : Packing → Prop where
  | staged (sent : Sent) (encoded : blockDatagram (cfg.cipher lane) a.works lane p.lane.nextSeq
      (p.next cfg lane block) a.wireNs (stagingBytes - p.staged.length) = some sent.bytes) :
      Puts cfg lane block p a { p with
        lane := (p.kept cfg lane block a).count (p.next cfg lane block) (p.lane.blockLength block)
        sentBytes := u64 (p.sentBytes + p.lane.blockLength block)
        staged := p.staged ++ sent.bytes
        datagrams := p.datagrams ++ [sent] }
  | stored (refused : blockDatagram (cfg.cipher lane) a.works lane p.lane.nextSeq
      (p.next cfg lane block) a.wireNs (stagingBytes - p.staged.length) = none) :
      Puts cfg lane block p a { p with
        lane := p.kept cfg lane block a
        crowded := (protect (cfg.cipher lane) a.works lane p.lane.nextSeq
          (p.next cfg lane block)).isSome }

theorem put_puts (p : Packing) (a : Attempt) :
    Puts cfg lane block p a (p.put cfg lane block a) := by
  unfold put SendLane.sendNext sendBlock
  cases hencoded : blockDatagram (cfg.cipher lane) a.works lane p.lane.nextSeq
      (p.next cfg lane block) a.wireNs (stagingBytes - p.staged.length) with
  | none =>
    unfold next at hencoded
    simp only [hencoded]
    exact .stored hencoded
  | some dg =>
    unfold next at hencoded
    simp only [hencoded]
    exact .staged ⟨dg, _⟩ hencoded

/-- The rule of the packing loop: what holds whenever the loop is entered, and what follows
when it is left. -/
theorem pack_rule (Enters : Nat → Packing → Prop) (Leaves : Packing → Prop)
    (leaves : ∀ room p, Enters room p → Leaves p)
    (puts : ∀ room p, Enters (room + 1) p →
      (p.lane.ri < p.lane.ranges.length ∨ emptyLast = true) → p.short block = false →
      ∀ a q, Puts cfg lane block p a q →
        Leaves q ∧ (p.goesOn cfg block q = true → Enters room q))
    (enters : Enters room p) : Leaves (pack cfg lane block emptyLast attempts room p) := by
  induction room generalizing p with
  | zero => exact leaves 0 p enters
  | succ room ih =>
    rw [pack]
    split
    · rename_i hmore
      split
      · exact leaves _ p enters
      · rename_i hshort
        obtain ⟨hleaves, henters⟩ := puts room p enters hmore (Bool.eq_false_iff.mpr hshort) _ _
          (put_puts p (attempts p.datagrams.length))
        dsimp only
        split
        · rename_i hgoes
          exact ih (henters hgoes)
        · exact hleaves
    · exact leaves _ p enters

theorem Puts.sendNext (puts : Puts cfg lane block p a q) :
    (p.lane.sendNext cfg lane block a.works a.nowNs a.wireNs (stagingBytes - p.staged.length)).1 =
      q.lane := by
  unfold SendLane.sendNext sendBlock
  cases puts with
  | staged sent encoded =>
    unfold next at encoded
    simp only [encoded]
    rfl
  | stored refused =>
    unfold next at refused
    simp only [refused]
    rfl

/-- What holds of a batch whenever the packing loop is entered. -/
structure Loads (cfg : SendConfig) (lane : Nat) (emptyLast : Bool) (room : Nat) (p : Packing) :
    Prop where
  reached : Reachable (SendLane.step cfg lane) (SendLane.create cfg lane) p.lane
  running : p.lane.status = none
  sending : p.lane.phase = .sending
  empty : emptyLast = true → p.lane.ranges = [] ∧ p.lane.nextSeq = 0
  room : p.lane.nextSeq + room ≤ u64 (p.lane.base + kWindow)

theorem Loads.pending (loads : Loads cfg lane emptyLast room p)
    (more : p.lane.ri < p.lane.ranges.length ∨ emptyLast = true) : p.lane.pending :=
  more.imp_right loads.empty

/-- A block that is packed is a step of the lane. -/
theorem Loads.puts (loads : Loads cfg lane emptyLast (room + 1) p)
    (more : p.lane.ri < p.lane.ranges.length ∨ emptyLast = true) (positive : 0 < block)
    (fits : block ≤ cfg.blockCeiling) (puts : Puts cfg lane block p a q) :
    Reachable (SendLane.step cfg lane) (SendLane.create cfg lane) q.lane := by
  have hroom : p.lane.nextSeq < u64 (p.lane.base + kWindow) :=
    Nat.lt_of_lt_of_le (Nat.lt_add_of_pos_right (Nat.succ_pos room)) loads.room
  have hacted : p.lane.act cfg lane
      (.sendBlock block a.works a.nowNs a.wireNs (stagingBytes - p.staged.length)) =
      some (p.lane.sendNext cfg lane block a.works a.nowNs a.wireNs
        (stagingBytes - p.staged.length)) :=
    if_pos ⟨loads.running, loads.sending, loads.pending more, hroom, positive, fits⟩
  have hstep : p.lane.step cfg lane
      (.sendBlock block a.works a.nowNs a.wireNs (stagingBytes - p.staged.length)) =
      some q.lane := by
    rw [SendLane.step, hacted, ← puts.sendNext]
    rfl
  exact loads.reached.tail hstep

/-- A block of a lane that has nothing to send is its last one. -/
theorem isLast_of_empty {L : SendLane} (none : L.ranges = []) (len : Nat) : L.isLast len = true := by
  have hend : L.rangeEnd = 0 := by
    rw [SendLane.rangeEnd, none]
    rfl
  rw [SendLane.isLast, none, hend]
  exact decide_eq_true ⟨Nat.zero_le _, Nat.zero_le _⟩

theorem goesOn_iff : p.goesOn cfg block q = true ↔
    p.datagrams.length < q.datagrams.length ∧ p.lane.isLast (p.lane.blockLength block) = false ∧
      q.staged.length = p.staged.length + segment cfg block :=
  decide_eq_true_iff

theorem Loads.goesOn (loads : Loads cfg lane emptyLast (room + 1) p)
    (more : p.lane.ri < p.lane.ranges.length ∨ emptyLast = true) (positive : 0 < block)
    (fits : block ≤ cfg.blockCeiling) (puts : Puts cfg lane block p a q)
    (goes : p.goesOn cfg block q = true) : Loads cfg lane emptyLast room q := by
  have hreached := loads.puts more positive fits puts
  obtain ⟨hstaged, hlast, _⟩ := goesOn_iff.mp goes
  cases puts with
  | stored refused => exact absurd hstaged (Nat.lt_irrefl _)
  | staged sent encoded =>
    obtain ⟨_, hbase, _, hphase, hstatus⟩ := SendLane.count_frame (p.kept cfg lane block a)
      (p.next cfg lane block) (p.lane.blockLength block)
    have hroom := loads.room
    have hword := u64_lt (p.lane.base + kWindow)
    have hfits : p.lane.nextSeq + 1 < 2 ^ 64 := by omega
    have hseq : ((p.kept cfg lane block a).count (p.next cfg lane block)
        (p.lane.blockLength block)).nextSeq = p.lane.nextSeq + 1 := u64_of_lt hfits
    refine ⟨hreached, hstatus.trans loads.running, hphase.trans loads.sending, ?_, ?_⟩
    · intro empty
      rw [isLast_of_empty (loads.empty empty).1] at hlast
      cases hlast
    · rw [hseq, hbase]
      change p.lane.nextSeq + 1 + room ≤ u64 (p.lane.base + kWindow)
      omega

theorem Loads.pack (loads : Loads cfg lane emptyLast room p) (positive : 0 < block)
    (fits : block ≤ cfg.blockCeiling) :
    Reachable (SendLane.step cfg lane) (SendLane.create cfg lane)
      (pack cfg lane block emptyLast attempts room p).lane := by
  refine pack_rule (Loads cfg lane emptyLast)
    (fun p => Reachable (SendLane.step cfg lane) (SendLane.create cfg lane) p.lane) (fun _ _ loads => loads.reached) ?_ loads
  intro room p loads more _ a q puts
  exact ⟨loads.puts more positive fits puts, loads.goesOn more positive fits puts⟩

/-! ## The size of a batch -/

/-- What a batch is when the loop leaves it: its datagrams lie in the buffer in order, and
all have the same size unless there is only one. -/
structure Packed (cfg : SendConfig) (block : Nat) (p : Packing) : Prop where
  uniform : (∀ sent ∈ p.datagrams, sent.bytes.length = segment cfg block) ∨
    ∃ sent, p.datagrams = [sent] ∧ sent.bytes.length ≤ segment cfg block
  filled : ∀ sent ∈ p.datagrams, sent.bytes ≠ []
  staged : p.staged = (p.datagrams.map Sent.bytes).flatten
  within : p.staged.length ≤ kGsoBudget
  uncrowded : p.crowded = false

/-- What it is when the loop is entered: nothing but whole segments, with room for more. -/
structure Fills (cfg : SendConfig) (lane block : Nat) (emptyLast : Bool) (room : Nat) (p : Packing) :
    Prop where
  loads : Loads cfg lane emptyLast room p
  uniform : ∀ sent ∈ p.datagrams, sent.bytes.length = segment cfg block
  filled : ∀ sent ∈ p.datagrams, sent.bytes ≠ []
  staged : p.staged = (p.datagrams.map Sent.bytes).flatten
  space : p.staged.length + room * segment cfg block ≤ kGsoBudget
  uncrowded : p.crowded = false

theorem Fills.packed (fills : Fills cfg lane block emptyLast room p) : Packed cfg block p :=
  ⟨Or.inl fills.uniform, fills.filled, fills.staged, Nat.le_of_add_right_le fills.space,
    fills.uncrowded⟩

/-- The next block has the length asked for. -/
theorem Loads.length_next (loads : Loads cfg lane emptyLast room p)
    (more : p.lane.ri < p.lane.ranges.length ∨ emptyLast = true) (block : Nat) :
    (p.next cfg lane block).payload.length = p.lane.blockLength block :=
  ((SendLane.reachable_kept loads.reached).sound.walk.nextBlock (loads.pending more) block).2

theorem blockLength_le_block (L : SendLane) (block : Nat) : L.blockLength block ≤ block :=
  Nat.min_le_left _ _

/-- Behind another datagram only whole blocks are packed. -/
theorem blockLength_of_not_short (long : p.short block = false) (behind : p.datagrams ≠ []) :
    p.lane.blockLength block = block := by
  have hlong := of_decide_eq_false long
  rw [not_and_or, Nat.not_lt] at hlong
  exact Nat.min_eq_left (hlong.resolve_right fun first => first behind)

/-- A sealed block always finds room. -/
theorem Fills.uncrowded_put (fills : Fills cfg lane block emptyLast (room + 1) p)
    (more : p.lane.ri < p.lane.ranges.length ∨ emptyLast = true) (fits : block ≤ cfg.blockCeiling)
    (refused : blockDatagram (cfg.cipher lane) a.works lane p.lane.nextSeq
      (p.next cfg lane block) a.wireNs (stagingBytes - p.staged.length) = none) :
    (protect (cfg.cipher lane) a.works lane p.lane.nextSeq (p.next cfg lane block)).isSome = false := by
  cases hdone : (protect (cfg.cipher lane) a.works lane p.lane.nextSeq
      (p.next cfg lane block)).isSome with
  | false => rfl
  | true =>
    have hlength := fills.loads.length_next more block
    have hlen := blockLength_le_block p.lane block
    have hspace := fills.space
    rw [Nat.succ_mul] at hspace
    have hroom : kDataPrefixSize + (p.next cfg lane block).payload.length + cfg.tagBytes ≤
        stagingBytes - p.staged.length := by
      unfold segment at hspace
      unfold stagingBytes
      omega
    have hencoded := cfg.blockDatagram_isSome a.wireNs hdone (by omega) hroom
    rw [refused] at hencoded
    cases hencoded

/-- A datagram is never empty and never larger than a segment. -/
theorem Fills.length_sent (fills : Fills cfg lane block emptyLast room p)
    (more : p.lane.ri < p.lane.ranges.length ∨ emptyLast = true) {sent : Sent}
    (encoded : blockDatagram (cfg.cipher lane) a.works lane p.lane.nextSeq
      (p.next cfg lane block) a.wireNs (stagingBytes - p.staged.length) = some sent.bytes) :
    sent.bytes.length = kDataPrefixSize + p.lane.blockLength block + cfg.tagBytes ∧
      sent.bytes ≠ [] ∧ sent.bytes.length ≤ segment cfg block := by
  have hlength := cfg.length_blockDatagram encoded
  rw [fills.loads.length_next more block] at hlength
  have hlen := blockLength_le_block p.lane block
  refine ⟨hlength, List.ne_nil_of_length_pos ?_, ?_⟩
  · have hprefix : 0 < kDataPrefixSize := by decide
    omega
  · unfold segment
    omega

theorem Fills.append_uniform (fills : Fills cfg lane block emptyLast room p) {sent : Sent}
    (whole : sent.bytes.length = segment cfg block) :
    ∀ other ∈ p.datagrams ++ [sent], other.bytes.length = segment cfg block := by
  intro other member
  rcases List.mem_append.mp member with hbefore | hnew
  · exact fills.uniform other hbefore
  · rw [List.mem_singleton.mp hnew]
    exact whole

theorem Fills.packed_put (fills : Fills cfg lane block emptyLast (room + 1) p)
    (more : p.lane.ri < p.lane.ranges.length ∨ emptyLast = true) (fits : block ≤ cfg.blockCeiling)
    (long : p.short block = false) (puts : Puts cfg lane block p a q) : Packed cfg block q := by
  have hspace := fills.space
  rw [Nat.succ_mul] at hspace
  cases puts with
  | stored refused =>
    exact ⟨Or.inl fills.uniform, fills.filled, fills.staged, Nat.le_of_add_right_le fills.space,
      fills.uncrowded_put more fits refused⟩
  | staged sent encoded =>
    obtain ⟨hlength, hsome, hsmall⟩ := fills.length_sent more encoded
    constructor
    case uniform =>
      by_cases hfirst : p.datagrams = []
      · refine Or.inr ⟨sent, ?_, hsmall⟩
        rw [hfirst]
        rfl
      · refine Or.inl (fills.append_uniform ?_)
        rw [hlength, blockLength_of_not_short long hfirst]
        rfl
    case filled =>
      intro other member
      rcases List.mem_append.mp member with hbefore | hnew
      · exact fills.filled other hbefore
      · rw [List.mem_singleton.mp hnew]
        exact hsome
    case staged =>
      rw [fills.staged]
      simp
    case within =>
      rw [List.length_append]
      omega
    case uncrowded => exact fills.uncrowded

theorem Fills.goesOn (fills : Fills cfg lane block emptyLast (room + 1) p)
    (more : p.lane.ri < p.lane.ranges.length ∨ emptyLast = true) (positive : 0 < block)
    (fits : block ≤ cfg.blockCeiling) (long : p.short block = false)
    (puts : Puts cfg lane block p a q) (goes : p.goesOn cfg block q = true) :
    Fills cfg lane block emptyLast room q := by
  have hloads := fills.loads.goesOn more positive fits puts goes
  have hpacked := fills.packed_put more fits long puts
  obtain ⟨hstaged, _, hsize⟩ := goesOn_iff.mp goes
  cases puts with
  | stored refused => exact absurd hstaged (Nat.lt_irrefl _)
  | staged sent encoded =>
    have hspace := fills.space
    rw [Nat.succ_mul] at hspace
    refine ⟨hloads, fills.append_uniform ?_, hpacked.filled, hpacked.staged, ?_, hpacked.uncrowded⟩
    · rw [List.length_append] at hsize
      omega
    · omega

theorem Fills.pack (fills : Fills cfg lane block emptyLast room p) (positive : 0 < block)
    (fits : block ≤ cfg.blockCeiling) :
    Packed cfg block (pack cfg lane block emptyLast attempts room p) :=
  pack_rule (Fills cfg lane block emptyLast) (Packed cfg block) (fun _ _ fills => fills.packed)
    (fun _ _ fills more long _ _ puts => ⟨fills.packed_put more fits long puts,
      fills.goesOn more positive fits long puts⟩) fills

/-- The buffer is cut into the datagrams, whoever cuts it. -/
theorem Packed.cut (packed : Packed cfg block p) {limit : Nat} (positive : 0 < segment cfg block)
    (enough : p.datagrams.length ≤ limit) :
    cut (segment cfg block) limit p.staged = p.datagrams.map Sent.bytes := by
  rw [packed.staged]
  rcases packed.uniform with huniform | ⟨sent, hsingle, hsmall⟩
  · refine cut_flatten positive ?_ (by rw [List.length_map]; exact enough)
    intro piece member
    obtain ⟨sent, hsent, rfl⟩ := List.mem_map.mp member
    exact huniform sent hsent
  · have hfilled := packed.filled sent (by rw [hsingle]; exact List.mem_singleton_self _)
    rw [hsingle, List.map_singleton, List.flatten_singleton]
    refine cut_single hfilled hsmall ?_
    rw [hsingle] at enough
    exact enough

/-- The kernel cuts a batch of more than one datagram. -/
theorem Packed.sendSegmented (packed : Packed cfg block p) (positive : 0 < segment cfg block)
    (several : 2 ≤ p.datagrams.length) :
    SendLoop.sendSegmented (segment cfg block) p.staged = p.datagrams.map Sent.bytes := by
  have huniform := packed.uniform.resolve_right (by
    rintro ⟨sent, hsingle, _⟩
    rw [hsingle] at several
    exact absurd several (Nat.not_succ_le_self 1))
  have hlengths : ((p.datagrams.map Sent.bytes).map List.length) =
      List.replicate p.datagrams.length (segment cfg block) := by
    rw [List.map_map, List.eq_replicate_iff, List.length_map]
    refine ⟨rfl, fun size member => ?_⟩
    obtain ⟨sent, hsent, rfl⟩ := List.mem_map.mp member
    exact huniform sent hsent
  have hstaged : p.staged.length = p.datagrams.length * segment cfg block := by
    rw [packed.staged, List.length_flatten, hlengths, List.sum_replicate_nat]
  have htwice : 2 * segment cfg block ≤ p.staged.length :=
    hstaged ▸ Nat.mul_le_mul_right _ several
  rw [SendLoop.sendSegmented, if_neg (by omega)]
  exact packed.cut positive (hstaged ▸ Nat.le_mul_of_pos_right _ positive)

end Batch

end Packing

end FuseTransport.Transfer
