import FuseTransport.Sdk.History

/-!
# Reassembling messages

The peer has one assembly buffer for whatever message is arriving.  The
predicate below says what that buffer and the queue hold while every block was
accepted only after all blocks of earlier calls; one accepted block keeps it.
-/

namespace FuseTransport.Sdk

open Foundation.Splice Proto

def Started (blocks : List BlockOrigin) (rx : ReceiverStream) (mark : Nat) : Prop :=
  ∀ (seqNo : Nat) (o : BlockOrigin), rx.Accepted seqNo → blocks[seqNo]? = some o → o.first ≤ mark

def Latest (blocks : List BlockOrigin) (rx : ReceiverStream) (o : BlockOrigin) : Prop :=
  ∀ (other : Nat) (p : BlockOrigin), rx.Accepted other → blocks[other]? = some p → p.call ≤ o.call

variable {seqNo : Nat} {o : BlockOrigin}

/-- A block at or behind the mark belongs to the latest call. -/
theorem Started.latest {blocks : List BlockOrigin} {rx : ReceiverStream} {mark : Nat}
    (started : Started blocks rx mark) (history : History blocks) (ho : blocks[seqNo]? = some o)
    (hmark : mark ≤ seqNo) : Latest blocks rx o := by
  intro other p accepted hp
  apply Nat.le_of_not_lt
  intro hlater
  have hbefore := history.before_first ho hp hlater
  have hfirst := started other p accepted hp
  omega

variable {other : Nat} {p : BlockOrigin}

/-- Accepted blocks that are both of the latest call are of one call. -/
theorem Latest.same {blocks : List BlockOrigin} {rx : ReceiverStream}
    (latest : Latest blocks rx o) (latestOther : Latest blocks rx p) (history : History blocks)
    (accepted : rx.Accepted seqNo) (ho : blocks[seqNo]? = some o)
    (acceptedOther : rx.Accepted other) (hp : blocks[other]? = some p) : p.SameCall o := by
  apply history.same_of_call hp ho
  exact Nat.le_antisymm (latest other p acceptedOther hp) (latestOther seqNo o accepted ho)

/-- The receiving end after the messages that end below `mark` were queued;
`out` is what the application took from the queue. -/
structure Assembly (blocks : List BlockOrigin) (out : List (List UInt8)) (mark : Nat)
    (c : Receiver) : Prop where
  started : Started blocks c.rx mark
  buffered : ∀ (seqNo : Nat) (o : BlockOrigin), c.rx.Accepted seqNo → blocks[seqNo]? = some o →
    Latest blocks c.rx o → mark ≤ o.lastSeq →
    ∀ i, i < o.message.length → i / kBlockSize = o.index → c.asmBuf[i]? = o.message[i]?
  ends : ∀ (seqNo : Nat) (o : BlockOrigin), c.rx.Accepted seqNo → blocks[seqNo]? = some o →
    o.isLast = true → mark ≤ seqNo → c.asmEndSeq = seqNo
  ended : c.asmEndSeq ≠ kNoSeq → ∃ o, blocks[c.asmEndSeq]? = some o ∧ o.isLast = true ∧
    c.rx.Accepted c.asmEndSeq ∧ mark ≤ c.asmEndSeq ∧ c.asmTotal = o.message.length
  delivered : out ++ c.inbox =
    ((blocks.take mark).filter BlockOrigin.isLast).map BlockOrigin.message

theorem assemble_eq {c : Receiver} {hdr : BlockHeader} {body : List UInt8}
    (inside : o.index < nblocks o.message.length) (sized : o.message.length ≤ kMaxMessage)
    (hoffset : hdr.offset = o.block.offset)
    (hlast : isLastBlock hdr.flags = isLastBlock o.block.flags) (hbody : body = o.block.payload) :
    c.assemble hdr body =
      { c with
        asmBuf := splice 0 c.asmBuf o.block.offset o.block.payload
        asmEndSeq := if o.isLast then hdr.seqNo else c.asmEndSeq
        asmTotal := if o.isLast then o.message.length else c.asmTotal } := by
  obtain ⟨hend, hexact⟩ := chunk_end_le inside
  have hmark : isLastBlock hdr.flags = o.isLast := hlast.trans (isLastBlock_chunk _ _)
  have hfits : hdr.offset ≤ kMaxMessage ∧ body.length ≤ kMaxMessage - hdr.offset := by
    rw [hoffset, hbody]
    change (chunk _ _).offset ≤ _ ∧ (chunk _ _).payload.length ≤ _ - (chunk _ _).offset
    omega
  unfold Receiver.assemble
  rw [if_pos hfits, hmark, hoffset, hbody]
  cases hcase : o.isLast with
  | true =>
    have htotal : o.block.offset + o.block.payload.length = o.message.length :=
      hexact (of_decide_eq_true hcase)
    simp [htotal]
  | false => simp

namespace Assembly

variable {blocks : List BlockOrigin} {out : List (List UInt8)} {mark : Nat} {c : Receiver}

section Admitted

variable {seqNo : Nat} {o : BlockOrigin} {after : ReceiverStream}

section

variable (assembly : Assembly blocks out mark c)
include assembly

/-- The buffer after an accepted block was copied over it. -/
theorem buffered_splice (history : History blocks) (ho : blocks[seqNo]? = some o)
    (hmark : mark ≤ seqNo) (isFresh : ¬ c.rx.Accepted seqNo)
    (admits : ReceiverStream.Admits c.rx after seqNo) (started : Started blocks after mark)
    (accepted : after.Accepted other) (hp : blocks[other]? = some p)
    (latest : Latest blocks after p) (hopen : mark ≤ p.lastSeq) {i : Nat}
    (inside : i < p.message.length) (hindex : i / kBlockSize = p.index) :
    (splice 0 c.asmBuf o.block.offset o.block.payload)[i]? = p.message[i]? := by
  rcases (admits.accepted other).mp accepted with hold | hnew
  · have hbuffered := assembly.buffered other p hold hp
      (fun third q haccepted hq => latest third q ((admits.accepted third).mpr (Or.inl haccepted)) hq)
      hopen i inside hindex
    have hshort : i < c.asmBuf.length := by
      rw [List.getElem?_eq_getElem inside] at hbuffered
      exact (List.getElem?_eq_some_iff.mp hbuffered).1
    have hsame : p.SameCall o := (started.latest history ho hmark).same latest history
      ((admits.accepted seqNo).mpr (Or.inr rfl)) ho accepted hp
    have houtside : ¬ (o.block.offset ≤ i ∧ i < o.block.offset + o.block.payload.length) := by
      intro hin
      have hindexO : i / kBlockSize = o.index := (mem_chunk_iff (hsame.message ▸ inside)).mp hin
      have hplaced := history.placed other p hp
      have hplacedO := history.placed seqNo o ho
      have hfirst := hsame.first
      have hequal : other = seqNo := by omega
      exact isFresh (hequal ▸ hold)
    rw [getElem?_splice_outside hshort (by omega), hbuffered]
  · rw [hnew, ho] at hp
    cases hp
    obtain ⟨hafter, hbefore⟩ := (mem_chunk_iff inside).mpr hindex
    exact (getElem?_splice_inside hafter hbefore).trans (getElem?_chunk hafter hbefore)

/-- A message that has its last block behind the mark gets no other one. -/
theorem ends_admitted (history : History blocks) (ho : blocks[seqNo]? = some o)
    (hmark : mark ≤ seqNo) (admits : ReceiverStream.Admits c.rx after seqNo)
    (started : Started blocks after mark) (accepted : after.Accepted other)
    (hp : blocks[other]? = some p) (plast : p.isLast = true) (hbehind : mark ≤ other) :
    (if o.isLast then seqNo else c.asmEndSeq) = other := by
  have hsame : p.SameCall o := (started.latest history ho hmark).same
    (started.latest history hp hbehind) history ((admits.accepted seqNo).mpr (Or.inr rfl)) ho
    accepted hp
  split
  · rename_i olast
    have hfirst := history.last_placed ho olast
    have hsecond := history.last_placed hp plast
    unfold BlockOrigin.lastSeq at hfirst hsecond
    rw [hsame.first, hsame.message] at hsecond
    exact hfirst.trans hsecond.symm
  · rename_i onot
    rcases (admits.accepted other).mp accepted with hold | hnew
    · exact assembly.ends other p hold hp plast hbehind
    · rw [hnew, ho] at hp
      cases hp
      exact (onot plast).elim

theorem ended_admitted (ho : blocks[seqNo]? = some o) (hmark : mark ≤ seqNo)
    (admits : ReceiverStream.Admits c.rx after seqNo)
    (hend : (if o.isLast then seqNo else c.asmEndSeq) ≠ kNoSeq) :
    ∃ p, blocks[if o.isLast then seqNo else c.asmEndSeq]? = some p ∧ p.isLast = true ∧
      after.Accepted (if o.isLast then seqNo else c.asmEndSeq) ∧
      mark ≤ (if o.isLast then seqNo else c.asmEndSeq) ∧
      (if o.isLast then o.message.length else c.asmTotal) = p.message.length := by
  by_cases hcase : o.isLast = true
  · rw [if_pos hcase, if_pos hcase]
    exact ⟨o, ho, hcase, (admits.accepted seqNo).mpr (Or.inr rfl), hmark, rfl⟩
  · rw [if_neg hcase, if_neg hcase]
    rw [if_neg hcase] at hend
    obtain ⟨p, hp, plast, accepted, hbehind, htotal⟩ := assembly.ended hend
    exact ⟨p, hp, plast, (admits.accepted _).mpr (Or.inl accepted), hbehind, htotal⟩

/-- An accepted block, of a call all of whose predecessors have arrived, goes
into the buffer. -/
theorem assemble (history : History blocks) (ho : blocks[seqNo]? = some o)
    (isFresh : ¬ c.rx.Accepted seqNo) (hmark : mark ≤ seqNo) (inOrder : o.first ≤ mark)
    (admits : ReceiverStream.Admits c.rx after seqNo) {hdr : BlockHeader} {body : List UInt8}
    (hseq : hdr.seqNo = seqNo) (hoffset : hdr.offset = o.block.offset)
    (hlast : isLastBlock hdr.flags = isLastBlock o.block.flags) (hbody : body = o.block.payload) :
    Assembly blocks out mark ({ c with rx := after }.assemble hdr body) := by
  have started : Started blocks after mark := by
    intro other p accepted hp
    rcases (admits.accepted other).mp accepted with hold | hnew
    · exact assembly.started other p hold hp
    · rw [hnew, ho] at hp
      cases hp
      exact inOrder
  rw [assemble_eq (history.inside seqNo o ho) (history.sized seqNo o ho) hoffset hlast hbody, hseq]
  refine ⟨started, ?_, ?_, ?_, assembly.delivered⟩
  · intro other p accepted hp latest hopen i inside hindex
    exact assembly.buffered_splice history ho hmark isFresh admits started accepted hp latest
      hopen inside hindex
  · intro other p accepted hp plast hbehind
    exact assembly.ends_admitted history ho hmark admits started accepted hp plast hbehind
  · intro hend
    exact assembly.ended_admitted ho hmark admits hend

end

end Admitted

/-! ## Queueing a message -/

/-- The buffer holds the whole message once the base has passed its end. -/
theorem whole (assembly : Assembly blocks out mark c) (history : History blocks)
    (ho : blocks[c.asmEndSeq]? = some o) (olast : o.isLast = true) (hbehind : mark ≤ c.asmEndSeq)
    (passed : c.asmEndSeq < c.rx.baseSeqNo) :
    resize 0 c.asmBuf o.message.length = o.message := by
  apply resize_eq
  intro i inside
  have hend := history.last_placed ho olast
  have hindex := div_lt_nblocks inside
  have hplace : o.first + i / kBlockSize ≤ c.asmEndSeq := by
    rw [hend]
    unfold BlockOrigin.lastSeq
    omega
  obtain ⟨p, hp, hsame, hpindex⟩ := history.between ho (Nat.le_add_right _ _) hplace
  have hlatest : Latest blocks c.rx p := by
    intro other q accepted hq
    rw [hsame.call]
    exact assembly.started.latest history ho hbehind other q accepted hq
  have hopen : mark ≤ p.lastSeq := by
    unfold BlockOrigin.lastSeq at hend ⊢
    rw [hsame.first, hsame.message]
    omega
  have hbuffered := assembly.buffered _ p (Or.inl (Nat.lt_of_le_of_lt hplace passed)) hp hlatest
    hopen i (hsame.message ▸ inside) (hpindex.trans (Nat.add_sub_cancel_left _ _)).symm
  rw [hbuffered, hsame.message]

/-- Blocks behind the mark that the base has passed end no message, but the one
that the buffer's end names. -/
theorem unmarked (assembly : Assembly blocks out mark c) (ho : blocks[seqNo]? = some o)
    (hbehind : mark ≤ seqNo) (passed : seqNo < c.rx.baseSeqNo) (other : c.asmEndSeq ≠ seqNo) :
    o.isLast = false := by
  cases hcase : o.isLast with
  | false => rfl
  | true => exact (other (assembly.ends seqNo o (Or.inl passed) ho hcase hbehind)).elim

/-- Queueing the message that has become whole moves the mark to the base. -/
theorem complete (assembly : Assembly blocks out mark c) (history : History blocks)
    (hmark : mark ≤ c.rx.baseSeqNo) (bounded : blocks.length ≤ kNoSeq) :
    Assembly blocks out c.complete.rx.baseSeqNo c.complete := by
  have hstarted : Started blocks c.rx c.rx.baseSeqNo := fun seqNo o accepted ho =>
    Nat.le_trans (assembly.started seqNo o accepted ho) hmark
  unfold Receiver.complete
  split
  · rename_i hwhole
    obtain ⟨hend, passed⟩ := hwhole
    obtain ⟨o, ho, olast, accepted, hbehind, htotal⟩ := assembly.ended hend
    have hlatest := assembly.started.latest history ho hbehind
    refine ⟨hstarted, ?_, ?_, fun none => (none rfl).elim, ?_⟩
    · intro seqNo p paccepted hp platest hopen
      have hsame := hlatest.same platest history accepted ho paccepted hp
      have hplaced := history.last_placed ho olast
      unfold BlockOrigin.lastSeq at hopen hplaced
      rw [hsame.first, hsame.message] at hopen
      change c.rx.baseSeqNo ≤ _ at hopen
      omega
    · intro seqNo p paccepted hp plast hopen
      have hsecond := assembly.ends seqNo p paccepted hp plast (Nat.le_trans hmark hopen)
      change c.rx.baseSeqNo ≤ seqNo at hopen
      omega
    · have hafter : (blocks.take c.rx.baseSeqNo).filter BlockOrigin.isLast =
          (blocks.take (c.asmEndSeq + 1)).filter BlockOrigin.isLast :=
        filter_take_of_unmarked passed fun k p hlow hhigh hp =>
          assembly.unmarked hp (by omega) hhigh (by omega)
      have hbefore : (blocks.take c.asmEndSeq).filter BlockOrigin.isLast =
          (blocks.take mark).filter BlockOrigin.isLast :=
        filter_take_of_unmarked hbehind fun k p hlow hhigh hp =>
          assembly.unmarked hp hlow (by omega) (by omega)
      rw [htotal, assembly.whole history ho olast hbehind passed, hafter,
        filter_take_succ ho olast, hbefore, List.map_append, ← assembly.delivered,
        List.append_assoc]
      rfl
  · rename_i hopen
    rw [not_and_or, not_not] at hopen
    refine ⟨hstarted, ?_, ?_, ?_, ?_⟩
    · intro seqNo o accepted ho latest hbehind
      exact assembly.buffered seqNo o accepted ho latest (Nat.le_trans hmark hbehind)
    · intro seqNo o accepted ho olast hbehind
      exact assembly.ends seqNo o accepted ho olast (Nat.le_trans hmark hbehind)
    · intro hend
      obtain ⟨o, ho, olast, accepted, _, htotal⟩ := assembly.ended hend
      exact ⟨o, ho, olast, accepted, Nat.le_of_not_lt (hopen.resolve_left hend), htotal⟩
    · have hsame : (blocks.take c.rx.baseSeqNo).filter BlockOrigin.isLast =
          (blocks.take mark).filter BlockOrigin.isLast := by
        apply filter_take_of_unmarked hmark
        intro k p hlow hhigh hp
        apply assembly.unmarked hp hlow hhigh
        intro hend
        have hlength := (List.getElem?_eq_some_iff.mp hp).1
        rcases hopen with hnone | hpassed <;> omega
      rw [hsame]
      exact assembly.delivered

end Assembly

end FuseTransport.Sdk
