import FuseTransport.Foundation.MarkedQueue
import FuseTransport.Mux.Requests

/-!
# Requests for retransmission

Every block a NACK asks for while it is outstanding waits in the backlog or has been tried
again since.  The table that keeps a block from waiting twice has one place for all blocks of
a remainder: a NACK that comes late takes the place of an outstanding block for one that was
acknowledged long ago, and the next NACK then queues the outstanding block a second time.
-/

namespace FuseTransport.Mux

open Foundation Foundation.MarkedQueue Foundation.Runs Proto

variable {other : Nat} {seqs : List Nat}

namespace SenderStreamState

variable {s middle next : SenderStreamState} {seq : Nat}

/-- Sent, and not yet below the base. -/
def Outstanding (s : SenderStreamState) (seq : Nat) : Prop := s.txBase ≤ seq ∧ seq < s.txNextSeq

instance (s : SenderStreamState) (seq : Nat) : Decidable (s.Outstanding seq) :=
  inferInstanceAs (Decidable (_ ∧ _))

def Over (s : SenderStreamState) : Prop := s.done = true → s.txNextSeq ≤ s.txBase

structure Rests (s next : SenderStreamState) : Prop where
  backlog : SameBacklog s next
  windowSize : next.windowSize = s.windowSize
  txBase : s.txBase ≤ next.txBase
  txNextSeq : s.txNextSeq ≤ next.txNextSeq
  attempts : s.log.attempts <:+ next.log.attempts
  ended : s.Over → next.Over

theorem Over.unmoved (ended : s.Over) (unmoved : Unmoved s next) (done : next.done = s.done) :
    next.Over := by
  intro finished
  rw [unmoved.txNextSeq, unmoved.txBase]
  exact ended (done ▸ finished)

theorem queuedSize_congr (windowSize : next.windowSize = s.windowSize) :
    next.queuedSize = s.queuedSize := by
  rw [queuedSize, queuedSize, windowSize]

theorem Repeats.rests (again : Repeats s next seqs) : Rests s next where
  backlog := again.backlog
  windowSize := again.unmoved.windowSize
  txBase := Nat.le_of_eq again.unmoved.txBase.symm
  txNextSeq := Nat.le_of_eq again.unmoved.txNextSeq.symm
  attempts := ⟨seqs, again.attempts.symm⟩
  ended := fun ended => ended.unmoved again.unmoved again.done

theorem Rests.trans (first : Rests s middle) (second : Rests middle next) : Rests s next where
  backlog := ⟨second.backlog.retransmitBacklog.trans first.backlog.retransmitBacklog,
    second.backlog.queued.trans first.backlog.queued⟩
  windowSize := second.windowSize.trans first.windowSize
  txBase := Nat.le_trans first.txBase second.txBase
  txNextSeq := Nat.le_trans first.txNextSeq second.txNextSeq
  attempts := first.attempts.trans second.attempts
  ended := fun ended => second.ended (first.ended ended)

theorem sendNext_rests (inv : Windowed s) {window : Nat} (found : s.effectiveWindow = some window)
    (guard : s.txNextSeq < u64 (s.txBase + window)) (running : s.done = false) (nowNs : Nat) :
    Rests s (s.sendNext nowNs).1 := by
  obtain ⟨_, hfits⟩ := guard_room inv found guard
  obtain ⟨_, _, _, hbase, hnext, hwindow, _⟩ := sendNext_spec inv nowNs
  have hkept := sendNext_keeps inv nowNs
  rw [u64_of_lt hfits] at hnext
  refine ⟨hkept.backlog, hwindow, Nat.le_of_eq hbase.symm, ?_, ?_, ?_⟩
  · exact hnext ▸ Nat.le_succ _
  · exact hkept.attempts ▸ List.suffix_refl _
  · intro _ finished
    rw [hkept.done, running] at finished
    cases finished

/-- A stream is finished by an acknowledgement of all it has sent. -/
theorem onAck_done (ack : Ack) (nowNs : Nat) (finished : (s.onAck ack nowNs).done = true) :
    s.done = true ∨ (s.onAck ack nowNs).txNextSeq ≤ (s.onAck ack nowNs).txBase := by
  revert finished
  unfold onAck
  split
  · exact Or.inl
  · dsimp only
    repeat' split
    all_goals first
      | (rename_i finishes; exact fun _ => Or.inr finishes.1)
      | exact Or.inl

theorem onAck_rests (inv : Windowed s) (ack : Ack) (nowNs : Nat) : Rests s (s.onAck ack nowNs) := by
  obtain ⟨_, hbacklog, _, _, hattempts⟩ := onAck_keeps s ack nowNs
  have hmoves : s.txBase ≤ (s.onAck ack nowNs).txBase ∧
      (s.onAck ack nowNs).txNextSeq = s.txNextSeq := by
    by_cases session : ack.nonce = s.nonce
    · obtain ⟨_, hbase, hnext, _⟩ := onAck_spec s ack nowNs session
      rw [hbase, applyAck_base s.reg ack _ inv.window.ordered]
      exact ⟨Nat.le_max_left _ _, hnext⟩
    · rw [onAck, if_pos session]
      exact ⟨Nat.le_refl _, rfl⟩
  refine ⟨hbacklog, onAck_windowSize s ack nowNs, hmoves.1, Nat.le_of_eq hmoves.2.symm, ?_, ?_⟩
  · exact hattempts ▸ List.suffix_refl _
  · intro ended finished
    rcases onAck_done ack nowNs finished with hbefore | hnow
    · rw [hmoves.2]
      exact Nat.le_trans (ended hbefore) hmoves.1
    · exact hnow

/-- A unit of sending work takes the oldest entry of the backlog, or leaves the backlog alone. -/
theorem trySendOne_backlog (inv : Windowed s) {nowNs : Nat} {accepted : Nat → Bool} {did : Bool}
    (sent : s.trySendOne nowNs accepted = some (next, did)) :
    Rests s next ∨ ∃ seq middle, Popped s middle seq ∧ Repeats middle next [seq] := by
  cases trySendOne_tried sent with
  | repeated again => exact Or.inl again.rests
  | popped taken again => exact Or.inr ⟨_, _, taken, again⟩
  | sent running none poll found left guard =>
    refine Or.inl (poll.rests.trans ?_)
    exact sendNext_rests (inv.unmoved poll.unmoved) found guard (poll.done.trans running) nowNs

inductive Served : SenderStreamState → List Nat → SenderStreamState → Prop where
  | nil (s : SenderStreamState) : Served s [] s
  | cons {s middle next : SenderStreamState} {seq : Nat} {rest : List Nat}
      (requested : Requested s seq middle) (served : Served middle rest next) :
      Served s (seq :: rest) next

theorem Requested.unmoved (requested : Requested s seq next) : Unmoved s next := by
  cases requested with
  | waiting marked => exact Unmoved.refl s
  | joined unmarked unmoved => exact unmoved
  | atOnce again => exact again.unmoved

theorem Requested.waits (requested : Requested s seq next) :
    next.retransmitBacklog.coalesce = s.retransmitBacklog.coalesce := by
  cases requested with
  | waiting marked => rfl
  | joined unmarked unmoved shard done log items coalesce => exact coalesce
  | atOnce again => rw [again.backlog.retransmitBacklog]

theorem foldl_served (nowNs : Nat) (accepted : Nat → Bool) (missing : List Nat)
    (waits : s.retransmitBacklog.coalesce = false) :
    Served s missing (missing.foldl (onMissing nowNs accepted) s) := by
  induction missing generalizing s with
  | nil => exact .nil s
  | cons seq rest ih =>
    have hrequested := onMissing_requested nowNs accepted waits seq
    exact .cons hrequested (ih (hrequested.waits.trans waits))

theorem onNack_served (waits : s.retransmitBacklog.coalesce = false) (running : s.done = false)
    (nack : Nack) (nowNs : Nat) (accepted : Nat → Bool) :
    ∃ first, Repeats s first [] ∧ Served first nack.missing (s.onNack nack nowNs accepted) := by
  unfold onNack
  rw [if_neg (Bool.eq_false_iff.mp running)]
  refine ⟨_, ?_, foldl_served nowNs accepted nack.missing ?_⟩
  · exact Repeats.quiet ⟨rfl, rfl, rfl, rfl, rfl, rfl, rfl⟩ ⟨rfl, rfl, rfl, rfl⟩ ⟨rfl, rfl⟩ rfl rfl
  · exact waits

/-- A datagram leaves the backlog alone, or it is a NACK of this stream. -/
theorem dispatchIncoming_backlog (inv : Windowed s) (waits : s.retransmitBacklog.coalesce = false)
    (dg : List UInt8) (nowNs : Nat) (accepted : Nat → Bool) :
    Rests s (s.dispatchIncoming dg nowNs accepted) ∨
      ∃ nack first, decodeNack dg = some nack ∧ nack.streamId = s.streamId ∧
        Repeats s first [] ∧ Served first nack.missing (s.dispatchIncoming dg nowNs accepted) := by
  rcases dispatchIncoming_cases s dg nowNs accepted with
    hsame | ⟨ack, _, _, hack⟩ | ⟨nack, hdecoded, hmine, hnack⟩
  · rw [hsame]
    exact Or.inl (Repeats.refl s).rests
  · rw [hack]
    exact Or.inl (onAck_rests inv ack nowNs)
  · rw [hnack]
    cases hrunning : s.done with
    | true =>
      rw [onNack, if_pos hrunning]
      exact Or.inl (Repeats.refl s).rests
    | false =>
      obtain ⟨first, hfirst, hserved⟩ := onNack_served waits hrunning nack nowNs accepted
      exact Or.inr ⟨nack, first, hdecoded, hmine, hfirst, hserved⟩

theorem dispatchIncoming_nack {dg : List UInt8} {nack : Nack} (decoded : decodeNack dg = some nack)
    (mine : nack.streamId = s.streamId) (nowNs : Nat) (accepted : Nat → Bool) :
    s.dispatchIncoming dg nowNs accepted = s.onNack nack nowNs accepted := by
  rw [dispatchIncoming, (decodeNack_some decoded).1, decoded]
  exact if_pos mine

/-! ## No request is lost -/

/-- What is marked waits, and a finished stream has nothing outstanding. -/
structure Orderly (s : SenderStreamState) : Prop where
  truthful : Truthful s.queuedSize (2 ^ 64 - 1) s.retransmitBacklog.items s.queued
  ended : s.Over

/-- The block waits in the backlog, or has been tried again after `before`. -/
def Answered (before : List Nat) (seq : Nat) (s : SenderStreamState) : Prop :=
  ∃ since, s.log.attempts = since ++ before ∧
    (seq ∈ s.retransmitBacklog.items ∨ seq ∈ since)

theorem orderly_create (streamId blockSize windowSize : Nat) (data : List UInt8)
    (nonce clockOffset nowNs : Nat) :
    Orderly (create streamId blockSize windowSize data nonce clockOffset nowNs) :=
  ⟨truthful_nil, nofun⟩

namespace Orderly

theorem rests (orderly : Orderly s) (rests : Rests s next) : Orderly next where
  truthful := by
    rw [queuedSize_congr rests.windowSize, rests.backlog.retransmitBacklog, rests.backlog.queued]
    exact orderly.truthful
  ended := rests.ended orderly.ended

theorem popped (orderly : Orderly s) (taken : Popped s next seq) : Orderly next where
  truthful := by
    have htruthful := orderly.truthful
    rw [taken.items] at htruthful
    rw [queuedSize_congr taken.unmoved.windowSize, taken.queued]
    exact htruthful.take
  ended := orderly.ended.unmoved taken.unmoved taken.done

theorem requested (orderly : Orderly s) (requested : Requested s seq next) : Orderly next := by
  cases requested with
  | waiting marked => exact orderly
  | joined unmarked unmoved shard done log items coalesce queued =>
    refine ⟨?_, orderly.ended.unmoved unmoved done⟩
    rw [queuedSize_congr unmoved.windowSize, items, queued]
    exact orderly.truthful.join seq
  | atOnce again => exact orderly.rests again.rests

theorem served (orderly : Orderly s) (served : Served s seqs next) : Orderly next := by
  induction served with
  | nil => exact orderly
  | cons requested _ ih => exact ih (orderly.requested requested)

end Orderly

namespace Answered

variable {before : List Nat}

section

variable (answered : Answered before seq s)
include answered

theorem rests (rests : Rests s next) : Answered before seq next := by
  obtain ⟨since, hattempts, hwhere⟩ := answered
  obtain ⟨more, hmore⟩ := rests.attempts
  refine ⟨more ++ since, by rw [← hmore, hattempts, List.append_assoc], ?_⟩
  rw [rests.backlog.retransmitBacklog]
  exact hwhere.imp id fun tried => List.mem_append_right more tried

/-- What is taken out of the backlog is tried again. -/
theorem popped {taken : Nat} (out : Popped s middle taken) (again : Repeats middle next [taken]) :
    Answered before seq next := by
  obtain ⟨since, hattempts, hwhere⟩ := answered
  refine ⟨taken :: since, ?_, ?_⟩
  · rw [again.attempts, out.log, hattempts]
    rfl
  · rw [again.backlog.retransmitBacklog]
    rcases hwhere with hwaits | htried
    · rw [out.items] at hwaits
      rcases List.mem_cons.mp hwaits with hhead | hrest
      · exact Or.inr (hhead ▸ List.mem_cons_self ..)
      · exact Or.inl hrest
    · exact Or.inr (List.mem_cons_of_mem taken htried)

theorem requested (requested : Requested s other next) : Answered before seq next := by
  cases requested with
  | waiting marked => exact answered
  | joined unmarked unmoved shard done log items =>
    obtain ⟨since, hattempts, hwhere⟩ := answered
    refine ⟨since, by rw [log, hattempts], hwhere.imp (fun waits => ?_) id⟩
    rw [items]
    exact List.mem_append_left _ waits
  | atOnce again => exact answered.rests again.rests

theorem served (served : Served s seqs next) : Answered before seq next := by
  induction served with
  | nil => exact answered
  | cons requested _ ih => exact ih (answered.requested requested)

end

theorem of_requested (orderly : Orderly s) (number : seq ≠ 2 ^ 64 - 1)
    (later : before <:+ s.log.attempts) (requested : Requested s seq next) :
    Answered before seq next := by
  obtain ⟨since, hsince⟩ := later
  cases requested with
  | waiting marked =>
    exact ⟨since, hsince.symm, Or.inl (orderly.truthful seq number marked)⟩
  | joined unmarked unmoved shard done log items =>
    refine ⟨since, by rw [log, hsince], Or.inl ?_⟩
    rw [items]
    exact List.mem_append_right _ (List.mem_singleton_self seq)
  | atOnce again =>
    refine ⟨seq :: since, ?_, Or.inr (List.mem_cons_self ..)⟩
    rw [again.attempts, ← hsince]
    rfl

end Answered

theorem Requested.attempts (requested : Requested s seq next) :
    s.log.attempts <:+ next.log.attempts := by
  cases requested with
  | waiting marked => exact List.suffix_refl _
  | joined unmarked unmoved shard done log => exact log ▸ List.suffix_refl _
  | atOnce again => exact again.rests.attempts

theorem Served.answered (served : Served s seqs next) (orderly : Orderly s) {before : List Nat}
    (later : before <:+ s.log.attempts) (member : seq ∈ seqs) (number : seq ≠ 2 ^ 64 - 1) :
    Answered before seq next := by
  induction served with
  | nil => cases member
  | cons requested served ih =>
    rcases List.mem_cons.mp member with rfl | hrest
    · exact (Answered.of_requested orderly number later requested).served served
    · exact ih (orderly.requested requested) (later.trans requested.attempts) hrest

def Single (s : SenderStreamState) : Prop :=
  Tidy s.queuedSize s.txBase s.txNextSeq s.retransmitBacklog.items s.queued

/-- The table's place for an acknowledged block is not in use for an outstanding one. -/
def Free (s : SenderStreamState) (seq : Nat) : Prop :=
  seq < s.txBase → ¬ s.Outstanding (s.queued (seq % s.queuedSize))

instance (s : SenderStreamState) (seq : Nat) : Decidable (s.Free seq) :=
  inferInstanceAs (Decidable (_ → _))

theorem Free.congr (free : s.Free other) (unmoved : Unmoved s next)
    (queued : next.queued (other % s.queuedSize) = s.queued (other % s.queuedSize)) :
    next.Free other := by
  unfold Free Outstanding
  rw [queuedSize_congr unmoved.windowSize, unmoved.txBase, unmoved.txNextSeq, queued]
  exact free

theorem single_create (streamId blockSize windowSize : Nat) (data : List UInt8)
    (nonce clockOffset nowNs : Nat) :
    Single (create streamId blockSize windowSize data nonce clockOffset nowNs) :=
  tidy_nil _ _ _ _

theorem Single.rests (single : Single s) (rests : Rests s next) : Single next := by
  unfold Single
  rw [queuedSize_congr rests.windowSize, rests.backlog.retransmitBacklog, rests.backlog.queued]
  exact Tidy.raise single rests.txBase rests.txNextSeq

theorem Single.popped (single : Single s) (taken : Popped s next seq) : Single next := by
  unfold Single at single ⊢
  rw [taken.items] at single
  rw [queuedSize_congr taken.unmoved.windowSize, taken.unmoved.txBase, taken.unmoved.txNextSeq,
    taken.queued]
  exact single.take

theorem Single.requested (single : Single s) (span : s.txNextSeq ≤ s.txBase + s.queuedSize)
    (sent : seq < s.txNextSeq) (free : s.Free seq) (requested : Requested s seq next) :
    Single next := by
  cases requested with
  | waiting marked => exact single
  | joined unmarked unmoved shard done log items coalesce queued =>
    unfold Single
    rw [queuedSize_congr unmoved.windowSize, unmoved.txBase, unmoved.txNextSeq, items, queued]
    exact Tidy.join single span unmarked sent free
  | atOnce again => exact single.rests again.rests

/-- A request changes no place of the table but its own. -/
theorem Requested.queued_of_ne (requested : Requested s seq next) {place : Nat}
    (other : place ≠ seq % s.queuedSize) : next.queued place = s.queued place := by
  cases requested with
  | waiting marked => rfl
  | joined unmarked unmoved shard done log items coalesce queued =>
    rw [queued, Function.update_of_ne other]
  | atOnce again => rw [again.backlog.queued]

theorem Requested.free (requested : Requested s seq next) (free : s.Free other)
    (apart : seq % s.queuedSize ≠ other % s.queuedSize) : next.Free other :=
  free.congr requested.unmoved (requested.queued_of_ne apart.symm)

theorem Served.single (served : Served s seqs next) (single : Single s)
    (span : s.txNextSeq ≤ s.txBase + s.queuedSize) (sent : ∀ seq ∈ seqs, seq < s.txNextSeq)
    (apart : seqs.Pairwise fun first second => first % s.queuedSize ≠ second % s.queuedSize)
    (free : ∀ seq ∈ seqs, s.Free seq) : Single next := by
  induction served with
  | nil => exact single
  | cons requested served ih =>
    have hunmoved := requested.unmoved
    rw [List.pairwise_cons] at apart
    refine ih (single.requested span (sent _ (List.mem_cons_self ..))
      (free _ (List.mem_cons_self ..)) requested) ?_ ?_ ?_ ?_
    · rw [hunmoved.txNextSeq, hunmoved.txBase, queuedSize_congr hunmoved.windowSize]
      exact span
    · rw [hunmoved.txNextSeq]
      exact fun other member => sent other (List.mem_cons_of_mem _ member)
    · rw [queuedSize_congr hunmoved.windowSize]
      exact apart.2
    · intro other member
      exact requested.free (free other (List.mem_cons_of_mem _ member)) (apart.1 other member)

end SenderStreamState

/-! ## Runs of a session -/

namespace MuxSession

open SenderStreamState

variable {job : MuxTransfer} {st next : MuxSession} {event : MuxEvent} {i : Nat}
variable {s after : SenderStreamState}

inductive Works (st : MuxSession) (s : SenderStreamState) : MuxEvent → SenderStreamState → Prop where
  | idle {event : MuxEvent} : Works st s event s
  | tried {event : MuxEvent} {nowNs : Nat} {accepted : Nat → Bool} {after : SenderStreamState}
      {did : Bool} (sent : s.trySendOne nowNs accepted = some (after, did)) :
      Works st s event after
  | heard {dg : List UInt8} {nowNs : Nat} {accepted : Nat → Bool} (member : dg ∈ st.backward) :
      Works st s (.toSender dg nowNs accepted) (s.dispatchIncoming dg nowNs accepted)

theorem Moved.works (moved : Moved job st event next) (found : st.senders[i]? = some s) :
    ∃ after, next.senders[i]? = some after ∧ Works st s event after := by
  cases moved with
  | same senders | buildReceivers _ senders | toReceiver _ senders | service senders
  | finish senders => exact ⟨s, by rw [senders, found], .idle⟩
  | buildSenders none_yet =>
    rw [none_yet] at found
    cases found
  | @trySendOne _ _ stream _ _ earlier sent _ hearlier tried senders =>
    rw [senders, List.getElem?_set]
    by_cases hsame : stream = i
    · subst hsame
      rw [hearlier] at found
      cases found
      rw [if_pos rfl, if_pos (List.getElem?_eq_some_iff.mp hearlier).1]
      exact ⟨sent, rfl, .tried tried⟩
    · rw [if_neg hsame]
      exact ⟨s, found, .idle⟩
  | toSender member senders =>
    rw [senders, List.getElem?_map, found]
    exact ⟨_, rfl, .heard member⟩

/-- A stream that was not there has just been built. -/
theorem Moved.built (moved : Moved job st event next) (missing : st.senders[i]? = none)
    (found : next.senders[i]? = some s) :
    ∃ nonce clockOffset nowNs, s = SenderStreamState.create i job.blockSize job.windowSize
      (job.shard i) nonce clockOffset nowNs := by
  cases moved with
  | same senders | buildReceivers _ senders | toReceiver _ senders | service senders
  | finish senders =>
    rw [senders, missing] at found
    cases found
  | buildSenders none_yet senders =>
    rw [senders] at found
    exact ⟨_, _, _, (getElem?_buildStreams found).2⟩
  | trySendOne hearlier tried senders =>
    rw [senders, List.getElem?_set] at found
    split at found
    · rename_i hsame
      rw [hsame, missing] at hearlier
      cases hearlier
    · rw [missing] at found
      cases found
  | toSender member senders =>
    rw [senders, List.getElem?_map, missing] at found
    cases found

/-- What every stream starts with and keeps holds of every stream. -/
theorem Moved.forall_senders (moved : Moved job st event next)
    (Keeps : Nat → SenderStreamState → Prop)
    (built : ∀ i nonce clockOffset nowNs, Keeps i (SenderStreamState.create i job.blockSize
      job.windowSize (job.shard i) nonce clockOffset nowNs))
    (kept : ∀ i s after, st.senders[i]? = some s → Keeps i s → Works st s event after →
      Keeps i after)
    (all : ∀ i s, st.senders[i]? = some s → Keeps i s) :
    ∀ i s, next.senders[i]? = some s → Keeps i s := by
  intro i s found
  cases hbefore : st.senders[i]? with
  | none =>
    obtain ⟨nonce, clockOffset, nowNs, rfl⟩ := moved.built hbefore found
    exact built i nonce clockOffset nowNs
  | some earlier =>
    obtain ⟨after, hafter, hworks⟩ := moved.works hbefore
    rw [found] at hafter
    cases hafter
    exact kept i earlier s hbefore (all i earlier hbefore) hworks

theorem Works.orderly (works : Works st s event after) (emits : Emits job i s)
    (orderly : Orderly s) : Orderly after := by
  cases works with
  | idle => exact orderly
  | tried sent =>
    rcases trySendOne_backlog emits.windowed sent with hrests | ⟨seq, middle, htaken, hagain⟩
    · exact orderly.rests hrests
    · exact (orderly.popped htaken).rests hagain.rests
  | heard member =>
    rcases dispatchIncoming_backlog emits.windowed emits.waits _ _ _ with
      hrests | ⟨nack, first, _, _, hfirst, hserved⟩
    · exact orderly.rests hrests
    · exact (orderly.rests hfirst.rests).served hserved

theorem Works.answered (works : Works st s event after) (emits : Emits job i s) {before : List Nat}
    {seq : Nat} (answered : Answered before seq s) : Answered before seq after := by
  cases works with
  | idle => exact answered
  | tried sent =>
    rcases trySendOne_backlog emits.windowed sent with hrests | ⟨taken, middle, htaken, hagain⟩
    · exact answered.rests hrests
    · exact answered.popped htaken hagain
  | heard member =>
    rcases dispatchIncoming_backlog emits.windowed emits.waits _ _ _ with
      hrests | ⟨nack, first, _, _, hfirst, hserved⟩
    · exact answered.rests hrests
    · exact (answered.rests hfirst.rests).served hserved

/-- The NACK that arrives, if one does, names no acknowledged block whose place in the table
an outstanding block has. -/
def Undisturbed (st : MuxSession) : MuxEvent → Prop
  | .toSender dg _ _ => ∀ nack ∈ decodeNack dg, ∀ s ∈ st.senders[nack.streamId]?,
      ∀ seq ∈ nack.missing, s.Free seq
  | _ => True

instance (st : MuxSession) (event : MuxEvent) : Decidable (st.Undisturbed event) := by
  cases event with
  | toSender dg nowNs accepted => exact inferInstanceAs (Decidable (∀ nack ∈ decodeNack dg, _))
  | _ => exact instDecidableTrue

theorem Works.single (works : Works st s event after) (inv : Inv job st) (asking : Asking job st)
    (found : st.senders[i]? = some s) (undisturbed : st.Undisturbed event) (single : Single s) :
    Single after := by
  have hemits := inv.streams.senders i s found
  have hsize : s.reg.windowSize = s.windowSize := hemits.windowed.windowSize
  have hqueued : s.queuedSize = s.windowSize := by
    have hpos := s.reg.window_pos
    exact if_neg (by omega)
  cases works with
  | idle => exact single
  | tried sent =>
    rcases trySendOne_backlog hemits.windowed sent with hrests | ⟨seq, middle, htaken, hagain⟩
    · exact single.rests hrests
    · exact (single.popped htaken).rests hagain.rests
  | heard member =>
    rcases dispatchIncoming_backlog hemits.windowed hemits.waits _ _ _ with
      hrests | ⟨nack, first, hdecoded, hmine, hfirst, hserved⟩
    · exact single.rests hrests
    · rw [hemits.streamId] at hmine
      obtain ⟨_, hsent, hapart⟩ := asking.decoded inv member hdecoded
      rw [hmine, history_of_some found, hemits.windowed.recorded] at hsent
      have hfree := undisturbed nack hdecoded s (by rw [hmine]; exact found)
      have hunmoved := hfirst.unmoved
      refine hserved.single (single.rests hfirst.rests) ?_ ?_ ?_ ?_
      · rw [hunmoved.txNextSeq, hunmoved.txBase, queuedSize_congr hunmoved.windowSize, hqueued,
          ← hsize]
        exact hemits.windowed.window.window
      · rw [hunmoved.txNextSeq]
        exact hsent
      · rw [queuedSize_congr hunmoved.windowSize, hqueued, hemits.windowSize]
        exact hapart
      · intro seq named
        exact (hfree seq named).congr hunmoved (by rw [hfirst.backlog.queued])

/-- What holds in every state of a session of the requests and their answers. -/
structure Requesting (job : MuxTransfer) (st : MuxSession) : Prop where
  inv : Inv job st
  asking : Asking job st
  orderly : ∀ (i : Nat) (s : SenderStreamState), st.senders[i]? = some s → Orderly s

theorem create_requesting (job : MuxTransfer) : Requesting job (create job) :=
  ⟨create_inv job, nofun, nofun⟩

theorem Requesting.step (requesting : Requesting job st)
    (stepped : step job st event = some next) : Requesting job next where
  inv := requesting.inv.step stepped
  asking := requesting.asking.step requesting.inv stepped
  orderly := by
    refine (step_moved stepped).forall_senders (fun _ s => Orderly s) ?_ ?_ requesting.orderly
    · intro i nonce clockOffset nowNs
      exact orderly_create _ _ _ _ _ _ _
    · intro i s after found orderly works
      exact works.orderly (requesting.inv.streams.senders i s found) orderly

theorem Requesting.toSender (requesting : Requesting job st) {dg : List UInt8} {nowNs : Nat}
    {accepted : Nat → Bool} {nack : Nack} {seq : Nat}
    (stepped : MuxSession.step job st (.toSender dg nowNs accepted) = some next)
    (decoded : decodeNack dg = some nack) (found : st.senders[nack.streamId]? = some s)
    (named : seq ∈ nack.missing) (outstanding : s.Outstanding seq) :
    ∃ after, next.senders[nack.streamId]? = some after ∧ Answered s.log.attempts seq after := by
  have hemits := requesting.inv.streams.senders nack.streamId s found
  have horderly := requesting.orderly nack.streamId s found
  have hrunning : s.done = false := by
    rw [Bool.eq_false_iff]
    intro finished
    have hover := horderly.ended finished
    exact Nat.not_lt.mpr (Nat.le_trans hover outstanding.1) outstanding.2
  have hnumber : seq ≠ 2 ^ 64 - 1 := by
    have hbounded := hemits.windowed.window.bounded
    have hsent := outstanding.2
    omega
  cases (Option.ite_none_right_eq_some.mp stepped).2
  refine ⟨s.dispatchIncoming dg nowNs accepted, ?_, ?_⟩
  · rw [List.getElem?_map, found]
    rfl
  · rw [dispatchIncoming_nack decoded hemits.streamId.symm]
    obtain ⟨first, hfirst, hserved⟩ := onNack_served hemits.waits hrunning nack nowNs accepted
    exact hserved.answered (horderly.rests hfirst.rests) hfirst.rests.attempts named hnumber

/-- In every run of a session, a block that a NACK asks for while it is outstanding is from
then on in the backlog, or has been tried again since.  While no NACK disturbs the table of
the backlog, no outstanding block is in the backlog twice. -/
theorem requests_answered_once (job : MuxTransfer) {run : List MuxEvent} {st : MuxSession}
    (replayed : replay (step job) (create job) run = some st) :
    (∀ (before after : List MuxEvent) (dg : List UInt8) (nowNs : Nat) (accepted : Nat → Bool)
        (middle : MuxSession) (nack : Nack) (earlier s : SenderStreamState) (seq : Nat),
      run = before ++ .toSender dg nowNs accepted :: after →
      replay (step job) (create job) before = some middle → decodeNack dg = some nack →
      middle.senders[nack.streamId]? = some earlier → st.senders[nack.streamId]? = some s →
      seq ∈ nack.missing → earlier.Outstanding seq → Answered earlier.log.attempts seq s) ∧
    (Along (step job) Undisturbed (create job) run →
      ∀ (i : Nat) (s : SenderStreamState), st.senders[i]? = some s → ∀ seq, s.Outstanding seq →
        s.retransmitBacklog.items.count seq ≤ 1) := by
  have hrequesting : ∀ first event last, Requesting job first →
      MuxSession.step job first event = some last → Requesting job last :=
    fun _ _ _ requesting stepped => requesting.step stepped
  constructor
  · rintro before after dg nowNs accepted middle nack earlier s seq rfl hmiddle hdecoded hearlier
      hlast hnamed houtstanding
    rw [replay_append, hmiddle, Option.bind_some] at replayed
    obtain ⟨next, hstepped, honward⟩ := Option.bind_eq_some_iff.mp replayed
    have hbefore := replay_preserves hrequesting hmiddle (create_requesting job)
    have hanswered := hbefore.toSender hstepped hdecoded hearlier hnamed houtstanding
    -- from the NACK on, the answer stays with the stream
    have hkept : ∀ first event last,
        (Requesting job first ∧ ∃ other, first.senders[nack.streamId]? = some other ∧
          Answered earlier.log.attempts seq other) →
        MuxSession.step job first event = some last →
        (Requesting job last ∧ ∃ other, last.senders[nack.streamId]? = some other ∧
          Answered earlier.log.attempts seq other) := by
      rintro first event last ⟨requesting, other, found, answered⟩ stepped
      obtain ⟨later, hlater, hworks⟩ := (step_moved stepped).works found
      exact ⟨requesting.step stepped, later, hlater,
        hworks.answered (requesting.inv.streams.senders _ other found) answered⟩
    obtain ⟨_, other, hother, hstill⟩ :=
      replay_preserves hkept honward ⟨hbefore.step hstepped, hanswered⟩
    rw [hlast] at hother
    cases hother
    exact hstill
  · intro along
    have hkept : ∀ first event last,
        (Requesting job first ∧
          ∀ (i : Nat) (s : SenderStreamState), first.senders[i]? = some s → Single s) →
        first.Undisturbed event → MuxSession.step job first event = some last →
        (Requesting job last ∧
          ∀ (i : Nat) (s : SenderStreamState), last.senders[i]? = some s → Single s) := by
      rintro first event last ⟨requesting, single⟩ undisturbed stepped
      refine ⟨requesting.step stepped, ?_⟩
      refine (step_moved stepped).forall_senders (fun _ s => Single s) ?_ ?_ single
      · intro i nonce clockOffset nowNs
        exact single_create _ _ _ _ _ _ _
      · intro i s after found hsingle works
        exact works.single requesting.inv requesting.asking found undisturbed hsingle
    obtain ⟨_, hsingle⟩ := replay_preserves_along hkept replayed along ⟨create_requesting job, nofun⟩
    intro i s found seq outstanding
    exact (hsingle i s found).once seq outstanding.1

def sixBytes : MuxTransfer where
  numStreams := 1
  blockSize := 1
  windowSize := 4
  data := [10, 11, 12, 13, 14, 15]
  streams_pos := Nat.one_pos
  streams_le := by decide
  blockSize_lt := one_lt_short
  windowSize_lt := four_lt_short
  data_lt := by decide

def byteBlock (seqNo sendNs : Nat) (flags byte : UInt8) : List UInt8 :=
  dataPrefix { streamId := 0, seqNo := seqNo, flags := flags, payloadLen := 1, offset := seqNo } sendNs ++
    [byte]

/-- The first window goes out and its block 0 comes late, so that a NACK asks for it; then all
of it is acknowledged. -/
def firstWindow : List MuxEvent :=
  [.trySendOne 0 10 fun _ => true,
    .toReceiver (streamStartBytes { blockSize := 1, totalBytes := 6, nonce := 7 }) 11 true,
    .service 0 300000, .toSender (ackBytes { streamId := 0, nonce := 7 }) 300001 fun _ => true] ++
    List.replicate 4 (.trySendOne 0 300002 fun _ => true) ++
    [.toReceiver (byteBlock 1 300002 0 11) 300003 true, .service 0 3400000,
      .toReceiver (byteBlock 0 300002 0 10) 3400001 true,
      .toReceiver (byteBlock 2 300002 0 12) 3400001 true,
      .toReceiver (byteBlock 3 300002 0 13) 3400001 true, .service 0 3700000,
      .toSender (ackBytes { baseSeqNo := 4, echoedSendTime := 300002, nonce := 7 }) 3700001
        fun _ => true]

def secondWindow : List MuxEvent :=
  List.replicate 2 (.trySendOne 0 3700002 fun _ => true) ++
    [.toReceiver (byteBlock 5 3700002 kFlagLastBlock 15) 3700003 true, .service 0 6800000]

def askedRun : List MuxEvent := agreedRun sixBytes ++ firstWindow ++ secondWindow

/-- A NACK for one block arrives. -/
def nacked (seqNo nowNs : Nat) : MuxEvent :=
  .toSender (nackBytes { missing := [seqNo] }) nowNs fun _ => true

/-- The NACK for block 4 arrives twice. -/
theorem requests_answered_once_sixBytes :
    ∃ st s, replay (step sixBytes) (create sixBytes)
        (askedRun ++ [nacked 4 6800001, nacked 4 6800003]) = some st ∧
      st.senders[0]? = some s ∧ s.Outstanding 4 ∧ Answered [] 4 s ∧
      s.retransmitBacklog.items.count 4 ≤ 1 := by
  obtain ⟨middle, hmiddle, earlier, hearlier, houtstanding, hattempts⟩ :
      ∃ st, replay (step sixBytes) (create sixBytes) askedRun = some st ∧
        ∃ s, st.senders[0]? = some s ∧ s.Outstanding 4 ∧ s.log.attempts = [] := by decide +kernel
  obtain ⟨st, hreplay, s, hfound, hstill⟩ : ∃ st, replay (step sixBytes) (create sixBytes)
      (askedRun ++ [nacked 4 6800001, nacked 4 6800003]) = some st ∧
        ∃ s, st.senders[0]? = some s ∧ s.Outstanding 4 := by decide +kernel
  have halong : Along (step sixBytes) Undisturbed (create sixBytes)
      (askedRun ++ [nacked 4 6800001, nacked 4 6800003]) := by decide +kernel
  obtain ⟨hanswered, hsingle⟩ := requests_answered_once sixBytes hreplay
  have hanswer := hanswered askedRun [nacked 4 6800003] _ 6800001 (fun _ => true) middle
    { missing := [4] } earlier s 4 rfl hmiddle (by decide) hearlier hfound (by decide) houtstanding
  rw [hattempts] at hanswer
  exact ⟨st, s, hreplay, hfound, hstill, hanswer, hsingle halong 0 s hfound 4 hstill⟩

/-- The NACK for block 4 arrives twice, and between the two the old one for block 0. -/
theorem outstanding_block_waits_twice :
    ∃ run st s, replay (step sixBytes) (create sixBytes) run = some st ∧
      st.senders[0]? = some s ∧ s.Outstanding 4 ∧ s.retransmitBacklog.items = [4, 0, 4] := by
  have hrun : ∃ st, replay (step sixBytes) (create sixBytes)
      (askedRun ++ [nacked 4 6800001, nacked 0 6800002, nacked 4 6800003]) = some st ∧
      ∃ s, st.senders[0]? = some s ∧ s.Outstanding 4 ∧ s.retransmitBacklog.items = [4, 0, 4] := by
    decide +kernel
  obtain ⟨st, hreplay, s, hsender⟩ := hrun
  exact ⟨_, st, s, hreplay, hsender⟩

end MuxSession

end FuseTransport.Mux
