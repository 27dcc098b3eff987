import FuseTransport.Transfer.Integrity

/-!
# No two seals of a session share a nonce

A block is sealed under its own number, however often it is sent; a control message
under a counter of the end that signs it.  As long as no counter has run through its
word, a key and a nonce name one plaintext and one associated data.
-/

namespace FuseTransport.Transfer

open Foundation Foundation.BigEndian Foundation.Runs Proto

/-- The counter has room for everything one step may sign. -/
def Signer.Unspent (g : Signer) : Prop := g.auth.nextCtr + 8 < 2 ^ 64

instance (g : Signer) : Decidable g.Unspent := inferInstanceAs (Decidable (_ < _))

theorem Signer.next_iterate (g : Signer) (word : g.auth.nextCtr < 2 ^ 64) (i : Nat) :
    Signer.next^[i] g = { g with auth := { g.auth with nextCtr := u64 (g.auth.nextCtr + i) } } := by
  induction i with
  | zero => simp [u64_of_lt word]
  | succ i ih =>
    rw [Function.iterate_succ_apply', ih]
    simp [Signer.next, u64, Nat.add_assoc]

/-- What an end of a lane has signed since its authenticator was made. -/
structure Booked (first now : Option Signer) (bodies : List (List UInt8)) (signed : List Sent) :
    Prop extends Emits first now bodies signed where
  fresh : ∀ g, first = some g → g.auth.nextCtr = 1
  room : ∀ g, first = some g → bodies.length + 1 < 2 ^ 64

namespace Booked

variable {first now after : Option Signer} {bodies more : List (List UInt8)} {signed others : List Sent}

theorem nothing (fresh : ∀ g, first = some g → g.auth.nextCtr = 1) : Booked first first [] [] :=
  { Emits.nil first with fresh := fresh, room := fun _ _ => by decide }

/-- A few more bodies, while the counter has room. -/
theorem signs (booked : Booked first now bodies signed) (emits : Emits now after more others)
    (few : more.length ≤ 8) (unspent : ∀ g, now = some g → g.Unspent) :
    Booked first after (bodies ++ more) (signed ++ others) := by
  refine { booked.toEmits.append emits with fresh := booked.fresh, room := fun g hg => ?_ }
  have hfresh := booked.fresh g hg
  have hroom := booked.room g hg
  have hnow : now = some (Signer.next^[bodies.length] g) := by
    rw [booked.next, hg]
    rfl
  have hunspent := unspent _ hnow
  rw [Signer.Unspent, Signer.next_iterate g (by omega), u64_of_lt (by omega)] at hunspent
  dsimp only at hunspent
  rw [List.length_append]
  omega

/-- The seal of a datagram an end has signed. -/
theorem carried (booked : Booked first now bodies signed) {s : Sent} (member : s ∈ signed)
    {r : SealRecord} (carried : s.carried = some r) :
    ∃ (g : Signer) (i : Nat) (body : List UInt8), first = some g ∧ bodies[i]? = some body ∧
      i + 1 < 2 ^ 64 ∧ r = controlSeal { g.auth with nextCtr := i + 1 } body := by
  obtain ⟨i, body, hbody, hsigns⟩ := booked.each s member
  rw [hsigns.carried] at carried
  obtain ⟨g, hg, hr⟩ := Option.map_eq_some_iff.mp carried
  have hinside := (List.getElem?_eq_some_iff.mp hbody).1
  have hroom := booked.room g hg
  have hfresh := booked.fresh g hg
  refine ⟨g, i, body, hg, hbody, by omega, ?_⟩
  rw [← hr, Signer.next_iterate g (by omega), hfresh, u64_of_lt (by omega), Nat.add_comm]

end Booked

theorem signer_fresh (cfg : SendConfig) (lane : Nat) (dir : UInt8) :
    ∀ g, cfg.signer lane dir = some g → g.auth.nextCtr = 1 := by
  intro g made
  obtain ⟨k, _, hg⟩ := Option.map_eq_some_iff.mp made
  rw [← hg]
  rfl

/-! ## The seals of one lane -/

/-- The seals a lane may put on its wires: those of the blocks it has sent, and those of
the bodies each of its ends has signed. -/
inductive SealOf (cfg : SendConfig) (k : Keyed) (lane : Nat) (history : List SentBlock)
    (log : UInt8 → List (List UInt8)) : SealRecord → Prop where
  | block (seqNo : Nat) (block : SentBlock) (found : history[seqNo]? = some block) :
      SealOf cfg k lane history log
        (blockSeal (blockCipher k.backend (k.deriveSessionKey cfg.salt) lane) lane seqNo block)
  | control (dir : UInt8) (i : Nat) (body : List UInt8) (found : (log dir)[i]? = some body)
      (counted : i + 1 < 2 ^ 64) :
      SealOf cfg k lane history log
        (controlSeal { ControlAuth.init k.backend (k.deriveSessionKey cfg.salt) lane dir with
          nextCtr := i + 1 } body)

section Seals

variable {cfg : SendConfig} {k : Keyed} {lane other : Nat} {history elsewhere : List SentBlock}
  {log logs : UInt8 → List (List UInt8)} {r r' : SealRecord}

section

variable (sealed : SealOf cfg k lane history log r)
include sealed

/-- A nonce starts with its lane and a number. -/
theorem SealOf.nonce (word : history.length ≤ 2 ^ 64) :
    ∃ (number : Nat) (ending : List UInt8), number < 2 ^ 64 ∧
      r.nonce = put 2 lane ++ put 8 number ++ ending := by
  cases sealed with
  | block seqNo block found =>
    have hinside := (List.getElem?_eq_some_iff.mp found).1
    exact ⟨seqNo, [0, 0], Nat.lt_of_lt_of_le hinside word, rfl⟩
  | control dir i body found counted => exact ⟨i + 1, [dir, 1], counted, rfl⟩

theorem SealOf.lane_eq (another : SealOf cfg k other elsewhere logs r')
    (word : history.length ≤ 2 ^ 64) (word' : elsewhere.length ≤ 2 ^ 64)
    (lane_fits : lane < 2 ^ 16) (other_fits : other < 2 ^ 16) (same : r.nonce = r'.nonce) :
    lane = other := by
  obtain ⟨number, ending, hnumber, hnonce⟩ := sealed.nonce word
  obtain ⟨number', ending', hnumber', hnonce'⟩ := another.nonce word'
  rw [hnonce, hnonce'] at same
  exact (nonce_fields same lane_fits other_fits hnumber hnumber').1

theorem SealOf.unique (another : SealOf cfg k lane history log r')
    (word : history.length ≤ 2 ^ 64) (lane_fits : lane < 2 ^ 16) (same : r.nonce = r'.nonce) :
    r = r' := by
  cases sealed with
  | block seqNo block found =>
    have hinside := (List.getElem?_eq_some_iff.mp found).1
    cases another with
    | block seqNo' block' found' =>
      have hinside' := (List.getElem?_eq_some_iff.mp found').1
      have hnonces : put 2 lane ++ put 8 seqNo ++ [0, 0] = put 2 lane ++ put 8 seqNo' ++ [0, 0] :=
        same
      obtain ⟨_, hseq, _⟩ := nonce_fields hnonces lane_fits lane_fits
        (Nat.lt_of_lt_of_le hinside word) (Nat.lt_of_lt_of_le hinside' word)
      rw [← hseq, found] at found'
      rw [← hseq, Option.some.inj found']
    | control dir i body => exact absurd same (buildNonce_ne_controlNonce lane seqNo lane (i + 1) dir)
  | control dir i body found counted =>
    cases another with
    | block seqNo => exact absurd same.symm (buildNonce_ne_controlNonce lane seqNo lane (i + 1) dir)
    | control dir' i' body' found' counted' =>
      have hnonces : put 2 lane ++ put 8 (i + 1) ++ [dir, 1] =
          put 2 lane ++ put 8 (i' + 1) ++ [dir', 1] := same
      obtain ⟨_, hctr, hending⟩ := nonce_fields hnonces lane_fits lane_fits counted counted'
      have hdir : dir = dir' := (List.cons.inj hending).1
      have hi : i = i' := Nat.succ.inj hctr
      rw [← hdir, ← hi, found] at found'
      rw [← hdir, ← hi, Option.some.inj found']

end

theorem Sent.Carries.sealOf {s : Sent} (carries : s.Carries cfg lane history)
    (carried : s.carried = some r) (log : UInt8 → List (List UInt8)) :
    ∃ k, cfg.keyed = some k ∧ SealOf cfg k lane history log r := by
  obtain ⟨seqNo, block, hfound, _, hseal⟩ := carries
  rw [hseal] at carried
  obtain ⟨c, hc, hr⟩ := Option.map_eq_some_iff.mp carried
  obtain ⟨k, hk, hcipher⟩ := Option.map_eq_some_iff.mp hc
  rw [← hr, ← hcipher]
  exact ⟨k, hk, .block seqNo block hfound⟩

end Seals

structure Sealed (cfg : SessionConfig) (lane : Nat) (R : RecvLane) (T : SendLane)
    (forward backward : List Sent) : Prop where
  sender : ∃ bodies signed, Booked (cfg.send.signer lane 0) T.signer bodies signed ∧
    (∀ s ∈ forward, s ∈ signed ∨ s.Carries cfg.send lane T.history) ∧
    ∀ s, T.digest = some s → s ∈ signed
  receiver : ∃ first bodies signed, Booked first R.signer bodies signed ∧
    (first = none ∨ first = cfg.send.signer lane 1) ∧ (R.haveStart = false → first = none) ∧
    ∀ s, s ∈ backward ∨ s ∈ R.resumeAnswer → s ∈ signed ∨ s.carried = none

theorem create_sealed (cfg : SessionConfig) (lane : Nat) :
    Sealed cfg lane (RecvLane.create lane) (SendLane.create cfg.send lane) [] [] where
  sender := ⟨[], [], Booked.nothing (signer_fresh cfg.send lane 0), nofun, nofun⟩
  receiver := by
    refine ⟨none, [], [], Booked.nothing nofun, Or.inl rfl, fun _ => rfl, ?_⟩
    rintro s (impossible | impossible)
    · cases impossible
    · cases impossible

namespace Sealed

variable {cfg : SessionConfig} {lane : Nat} {R R' : RecvLane} {T T' : SendLane}
  {forward backward sent : List Sent}

section

variable (sealed : Sealed cfg lane R T forward backward)
include sealed

/-- Every seal on the wires of a lane is one of its blocks' or of its ends' bodies. -/
theorem seals :
    ∃ log, ∀ s r, s ∈ forward ∨ s ∈ backward → s.carried = some r →
      ∃ k, cfg.send.keyed = some k ∧ SealOf cfg.send k lane T.history log r := by
  obtain ⟨bodies, signed, hbooked, hforward, _⟩ := sealed.sender
  obtain ⟨first, answers, replies, hanswers, hfirst, _, hbackward⟩ := sealed.receiver
  refine ⟨fun dir => if dir = 0 then bodies else answers, fun s r on carried => ?_⟩
  rcases on with hon | hon
  · rcases hforward s hon with hsigned | hcarries
    · obtain ⟨g, i, body, hg, hbody, hcounted, hr⟩ := hbooked.carried hsigned carried
      obtain ⟨k, hk, hmade⟩ := Option.map_eq_some_iff.mp hg
      rw [hr, ← hmade]
      exact ⟨k, hk, .control 0 i body hbody hcounted⟩
    · exact hcarries.sealOf carried _
  · rcases hbackward s (Or.inl hon) with hsigned | hbare
    · obtain ⟨g, i, body, hg, hbody, hcounted, hr⟩ := hanswers.carried hsigned carried
      rcases hfirst with hnone | hmade
      · cases hnone.symm.trans hg
      · obtain ⟨k, hk, hinit⟩ := Option.map_eq_some_iff.mp (hmade.symm.trans hg)
        rw [hr, ← hinit]
        exact ⟨k, hk, .control 1 i body hbody hcounted⟩
    · cases carried.symm.trans hbare

theorem sends {Accepted : Nat → Prop} (sound : T.Sound cfg.send lane Accepted) {e : TxEvent}
    (moved : SendLane.Moved cfg.send lane T e T' sent)
    (named : ∀ dg works wireNs, e = .receive dg works wireNs →
      ∀ nack, decodeNack dg = some nack → ∀ s ∈ nack.missing, s < T.nextSeq)
    (unspent : ∀ g, T.signer = some g → g.Unspent) :
    Sealed cfg lane R T' (forward ++ sent) backward := by
  obtain ⟨bodies, signed, hbooked, hforward, hdigest⟩ := sealed.sender
  refine ⟨?_, sealed.receiver⟩
  have hold : ∀ s ∈ forward, s ∈ signed ∨ s.Carries cfg.send lane T'.history :=
    fun s member => (hforward s member).imp_right fun carries => carries.mono moved.grows
  rcases moved.carries sound named with ⟨more, others, spoke⟩ | ⟨hsame, hsigner, hblocks⟩
  · refine ⟨bodies ++ more, signed ++ others, hbooked.signs spoke.emits
      (Nat.le_trans spoke.few (by decide)) unspent, fun s member => ?_, fun s found => ?_⟩
    · rcases List.mem_append.mp member with hbefore | hnew
      · exact (hold s hbefore).imp_left (List.mem_append_left _)
      · rcases spoke.among s hnew with hsigned | hkept
        · exact Or.inl (List.mem_append_right _ hsigned)
        · exact Or.inl (List.mem_append_left _ (hdigest s hkept))
    · rcases spoke.digest s found with hsigned | hkept
      · exact List.mem_append_right _ hsigned
      · exact List.mem_append_left _ (hdigest s hkept)
  · refine ⟨bodies, signed, hsigner ▸ hbooked, fun s member => ?_, hsame ▸ hdigest⟩
    rcases List.mem_append.mp member with hbefore | hnew
    · exact hold s hbefore
    · exact Or.inr (hblocks s hnew)

/-- The receiver says something with the keys it has. -/
theorem spoken {more : List (List UInt8)} {others : List Sent}
    (emits : Emits R.signer R'.signer more others) (few : more.length ≤ 8)
    (unspent : ∀ g, R.signer = some g → g.Unspent)
    (among : ∀ s ∈ sent, s ∈ others ∨ s ∈ R.resumeAnswer ∨ s.Bare)
    (kept : R'.resumeAnswer = R.resumeAnswer) (started : R.haveStart = true → R'.haveStart = true) :
    Sealed cfg lane R' T forward (backward ++ sent) := by
  obtain ⟨first, bodies, signed, hbooked, hfirst, hidle, hbackward⟩ := sealed.receiver
  have hold : ∀ s, s ∈ backward ∨ s ∈ R.resumeAnswer → s ∈ signed ++ others ∨ s.carried = none :=
    fun s on => (hbackward s on).imp_left (List.mem_append_left _)
  refine ⟨sealed.sender, first, bodies ++ more, signed ++ others, hbooked.signs emits few unspent, hfirst,
    fun idle => hidle ?_, ?_⟩
  · cases hstarted : R.haveStart with
    | false => rfl
    | true => rw [started hstarted] at idle; cases idle
  · rintro s (on | answer)
    · rcases List.mem_append.mp on with hbefore | hnew
      · exact hold s (Or.inl hbefore)
      · rcases among s hnew with hsigned | hanswer | hbare
        · exact Or.inl (List.mem_append_right _ hsigned)
        · exact hold s (Or.inr hanswer)
        · exact Or.inr hbare.carried
    · rw [kept] at answer
      exact hold s (Or.inr answer)

/-- The receiver joins and signs its answer with the keys of the sender. -/
theorem joined (before : R.haveStart = false) (started : R'.haveStart = true)
    {bodies : List (List UInt8)} {signed : List Sent}
    (emits : Emits (cfg.send.signer lane 1) R'.signer bodies signed)
    (few : bodies.length < 2 ^ 16) (among : ∀ s ∈ sent, s ∈ signed ∨ s.Bare)
    (answer : R'.resumeAnswer = sent) :
    Sealed cfg lane R' T forward (backward ++ sent) := by
  obtain ⟨first, earlier, none, hbooked, _, hidle, hbackward⟩ := sealed.receiver
  have hbooks : Booked (cfg.send.signer lane 1) R'.signer bodies signed :=
    { emits with
      fresh := signer_fresh cfg.send lane 1
      room := fun _ _ => Nat.lt_of_lt_of_le (Nat.succ_lt_succ few) (by decide) }
  have hnew : ∀ s ∈ sent, s ∈ signed ∨ s.carried = Option.none :=
    fun s member => (among s member).imp_right Sent.Bare.carried
  refine ⟨sealed.sender, cfg.send.signer lane 1, bodies, signed, hbooks, Or.inr rfl,
    fun idle => ?_, ?_⟩
  · rw [started] at idle
    cases idle
  · rintro s (on | hanswer)
    · rcases List.mem_append.mp on with hbefore | hnow
      · -- Before it had keys the lane signed nothing.
        refine Or.inr ((hbackward s (Or.inl hbefore)).elim (fun member => ?_) id)
        obtain ⟨i, body, _, hsigns⟩ := hbooked.each s member
        rw [hsigns.carried, hidle before]
        rfl
      · exact hnew s hnow
    · exact hnew s (answer ▸ hanswer)

end

end Sealed

variable {lane : Nat}

theorem trial_signs {keyed : Option Keyed} {ss : StreamStart} {dg : List UInt8} {derives : Bool}
    {keys : Option (List UInt8) × Option Signer}
    (authentic : RecvLane.trial keyed lane ss dg derives = some keys) :
    keys.2 = keyed.map fun k =>
      ⟨k.backend, ControlAuth.init k.backend (k.deriveSessionKey ss.sessionSalt) lane 1⟩ := by
  unfold RecvLane.trial at authentic
  cases keyed with
  | none =>
    dsimp only at authentic
    split at authentic
    · cases authentic
    · rw [← Option.some.inj authentic]
      rfl
  | some k =>
    dsimp only at authentic
    split at authentic
    · rw [← Option.some.inj authentic]
      rfl
    · cases authentic

/-- The authenticator that the sender's opening message proves is the session's. -/
theorem trial_signer {cfg : SessionConfig} {L : SendLane} {dg : List UInt8} {derives : Bool}
    {keys : Option (List UInt8) × Option Signer}
    (authentic : RecvLane.trial cfg.recv.keyed lane (L.streamStart cfg.send lane) dg derives =
      some keys) : keys.2 = cfg.send.signer lane 1 := by
  rw [trial_signs authentic, SendConfig.signer]
  change cfg.send.keyed.map _ = _
  cases hkeyed : cfg.send.keyed with
  | none => rfl
  | some k => simp [SendLane.streamStart, hkeyed]

theorem length_resumeAnswer (lane nonce : Nat) (resumed : Bool) (want : List ResumeRange) :
    (resumeAnswer lane nonce resumed want).length = (answerLists want).length := by
  simp [resumeAnswer, answerLists]

namespace Sealed

variable {cfg : SessionConfig} {lane : Nat} {R R' : RecvLane} {T : SendLane}
  {forward backward sent : List Sent}

theorem received (sealed : Sealed cfg lane R T forward backward) {sh sh' : Shared} {e : RxEvent}
    (moved : RecvLane.Moved cfg.recv lane sh R e sh' R')
    (replied : RecvLane.Replied cfg.recv lane R sh' R' sent)
    (arrived : ∀ inp dg, e = .datagram lane inp dg → Forward cfg.send lane T.history dg)
    (asks : R'.haveStart = true → R'.Asks) (unspent : ∀ g, R.signer = some g → g.Unspent) :
    Sealed cfg lane R' T forward (backward ++ sent) := by
  cases replied with
  | spoke bodies signed emits _ few among kept =>
    refine sealed.spoken emits few unspent among kept fun started => ?_
    rcases moved.place with hsame | ⟨_, hjoined, _⟩
    · exact hsame.haveStart.trans started
    · exact hjoined
  | joined _ _ _ _ _ _ before started _ _ _ _ _ _ answer =>
    rcases moved.place with hsame | ⟨_, _, inp, dg, ss, keys, hevent, hdecoded, hkeys, hjoin⟩
    · cases before.symm.trans (hsame.haveStart.symm.trans started)
    · obtain ⟨L, hss⟩ := (arrived inp dg hevent).starts ss hdecoded
      rw [hss] at hkeys
      obtain ⟨bodies, signed, hemits, _, hfew, hsent⟩ := encodeResumeAnswer_emits keys.2 inp.works
        lane ss.nonce sh'.sink.resumed
        (RecvLane.wanted sh'.sink ss.streamBaseOffset ss.totalBytes)
      have hshort : (RecvLane.wanted sh'.sink ss.streamBaseOffset ss.totalBytes).length ≤
          kMaxResumeRanges := by
        have hasks := (asks started).short
        rw [hjoin] at hasks
        exact hasks
      rw [length_resumeAnswer] at hfew
      have hsigned : Emits (cfg.send.signer lane 1) R'.signer bodies signed := by
        rw [← trial_signer hkeys, hjoin]
        exact hemits
      refine sealed.joined before started hsigned
        (Nat.lt_of_le_of_lt hfew (length_answerLists hshort)) (fun s member => ?_) answer
      rw [← answer, hjoin] at member
      rcases hsent s member with hsigned | rfl
      · exact Or.inl hsigned
      · exact Or.inr sent_bare_nil

/-- A lane that only speaks. -/
theorem replied (sealed : Sealed cfg lane R T forward backward) {sh : Shared}
    (replied : RecvLane.Replied cfg.recv lane R sh R sent)
    (unspent : ∀ g, R.signer = some g → g.Unspent) :
    Sealed cfg lane R T forward (backward ++ sent) := by
  cases replied with
  | spoke bodies signed emits _ few among kept =>
    exact sealed.spoken emits few unspent among kept id
  | joined _ _ _ _ _ _ before started =>
    rw [started] at before
    cases before

end Sealed

/-! ## The session -/

namespace Session

variable (cfg : SessionConfig)

/-- No control counter of the session is about to run out. -/
def Unspent (st : Session) : Prop :=
  ∀ lane < cfg.send.lanes, (∀ g ∈ (st.tx lane).signer, g.Unspent) ∧
    ∀ g ∈ (st.rx.lanes lane).signer, g.Unspent

/-- A seal of some datagram on the wires of the session. -/
def Seals (st : Session) (r : SealRecord) : Prop :=
  ∃ lane < cfg.send.lanes, ∃ s, (s ∈ st.forward lane ∨ s ∈ st.backward lane) ∧ s.carried = some r

structure Guarded (cfg : SessionConfig) (st : Session) : Prop where
  inv : st.Inv cfg
  sealed : ∀ lane < cfg.send.lanes,
    Sealed cfg lane (st.rx.lanes lane) (st.tx lane) (st.forward lane) (st.backward lane)

theorem create_guarded : (create cfg).Guarded cfg :=
  ⟨create_inv cfg, fun lane _ => create_sealed cfg lane⟩

variable {cfg : SessionConfig} {st st' : Session}

section

variable (guarded : st.Guarded cfg)
include guarded

theorem Guarded.received (unspent : st.Unspent cfg) {e : RxEvent} {rx : RxState}
    {sent : List Sent}
    (arrived : ∀ lane inp dg, e = .datagram lane inp dg → ∃ s ∈ st.forward lane, s.bytes = dg)
    (stepped : RxState.Stepped cfg.recv st.rx e rx)
    (replied : RecvLane.Replied cfg.recv e.lane (st.rx.lanes e.lane) rx.shared (rx.lanes e.lane)
      sent) (inv : (st.received e.lane (rx, sent)).Inv cfg) :
    ∀ lane < cfg.send.lanes, Sealed cfg lane (rx.lanes lane) (st.tx lane) (st.forward lane)
      (Function.update st.backward e.lane (st.backward e.lane ++ sent) lane) := by
  intro other within
  cases stepped with
  | lane lane sh L own inside moved =>
    subst own
    have hsame : ({ st.rx.setLane e.lane L with shared := sh } : RxState).lanes e.lane = L :=
      RxState.setLane_self _ _ _
    by_cases hother : other = e.lane
    · have hasks := (inv.links e.lane inside).receiver.asks
      change (({ st.rx.setLane e.lane L with shared := sh } : RxState).lanes e.lane).haveStart = true →
        (({ st.rx.setLane e.lane L with shared := sh } : RxState).lanes e.lane).Asks at hasks
      rw [hsame] at hasks replied
      rw [hother, hsame, Function.update_self]
      refine (guarded.sealed e.lane inside).received moved replied (fun inp dg datagram => ?_) hasks
        (unspent e.lane inside).2
      obtain ⟨s, member, rfl⟩ := arrived e.lane inp dg datagram
      exact (guarded.inv.links e.lane inside).forward s member
    · rw [RxState.setLane_of_ne _ hother, update_wire hother]
      exact guarded.sealed other within
  | finish verifies commits =>
    by_cases hother : other = e.lane
    · subst hother
      rw [Function.update_self]
      exact (guarded.sealed _ within).replied replied (unspent _ within).2
    · rw [update_wire hother]
      exact guarded.sealed other within

theorem Guarded.sent (unspent : st.Unspent cfg) (inside : lane < cfg.send.lanes) {e : TxEvent}
    {T : SendLane} {sent : List Sent} (moved : SendLane.Moved cfg.send lane (st.tx lane) e T sent)
    (arrived : ∀ dg works wireNs, e = .receive dg works wireNs →
      ∃ s ∈ st.backward lane, s.bytes = dg) :
    ∀ other < cfg.send.lanes, Sealed cfg other (st.rx.lanes other)
      (Function.update st.tx lane T other)
      (Function.update st.forward lane (st.forward lane ++ sent) other) (st.backward other) := by
  intro other within
  by_cases hother : other = lane
  · rw [hother, Function.update_self, Function.update_self]
    have hlink := guarded.inv.links lane inside
    refine (guarded.sealed lane inside).sends hlink.sender moved (fun dg works wireNs received => ?_)
      (unspent lane inside).1
    obtain ⟨s, member, rfl⟩ := arrived dg works wireNs received
    exact (hlink.backward s member).nacks
  · rw [Function.update_of_ne hother, update_wire hother]
    exact guarded.sealed other within

theorem Guarded.step (unspent : st.Unspent cfg) {e : SessionEvent}
    (moved : st.step cfg e = some st') : st'.Guarded cfg := by
  have hinv : st'.Inv cfg := guarded.inv.step moved
  refine ⟨hinv, ?_⟩
  cases step_stepped moved with
  | receiver e rx sent arrived stepped replied =>
    exact guarded.received unspent arrived stepped replied hinv
  | sender lane e T sent inside arrived change => exact guarded.sent unspent inside change arrived

/-- A key and a nonce name one seal in all of a session. -/
theorem Guarded.unique {r r' : SealRecord} (first : st.Seals cfg r) (second : st.Seals cfg r')
    (same : r.nonce = r'.nonce) : r = r' := by
  obtain ⟨lane, inside, s, on, carried⟩ := first
  obtain ⟨other, within, s', on', carried'⟩ := second
  obtain ⟨log, hlog⟩ := (guarded.sealed lane inside).seals
  obtain ⟨logs, hlogs⟩ := (guarded.sealed other within).seals
  obtain ⟨k, hk, hseal⟩ := hlog s r on carried
  obtain ⟨k', hk', hseal'⟩ := hlogs s' r' on' carried'
  rw [hk] at hk'
  cases hk'
  have hlane : lane = other := hseal.lane_eq hseal' (guarded.inv.links lane inside).word
    (guarded.inv.links other within).word (lane_fits cfg inside) (lane_fits cfg within) same
  subst hlane
  obtain ⟨k'', hk'', hagain⟩ := hlog s' r' on' carried'
  rw [hk] at hk''
  cases hk''
  exact hseal.unique hagain (guarded.inv.links lane inside).word (lane_fits cfg inside) same

end

end Session

/-- In every run of a session in which no control counter comes to the end of its word: two
seals on the wires with one key and one nonce have one plaintext and one associated data;
every send of a block, the first or a later one, carries the payload, the offset and the flags
it was first sent with; and no block shares a nonce with a control message. -/
theorem nonces_name_one_seal {cfg : SessionConfig} {run : List SessionEvent} {st : Session}
    (reached : replay (Session.step cfg) (Session.create cfg) run = some st)
    (unspent : Along (Session.step cfg) (fun st _ => st.Unspent cfg) (Session.create cfg) run) :
    (∀ r r', st.Seals cfg r → st.Seals cfg r' → r.key = r'.key → r.nonce = r'.nonce →
      r.plain = r'.plain ∧ r.aad = r'.aad) ∧
    (∀ lane < cfg.send.lanes, ∀ s ∈ st.forward lane, ∀ d, decodeDataDatagram s.bytes = some d →
      ∃ block, (st.tx lane).history[d.hdr.seqNo]? = some block ∧
        unprotect (cfg.send.cipher lane) lane d = some block.payload ∧
        d.hdr.offset = block.offset ∧
        d.hdr.flags &&& ~~~kFlagRetransmission = block.flags &&& ~~~kFlagRetransmission) ∧
    ∀ lane seqNo other ctr dir, buildNonce lane seqNo ≠ controlNonce other ctr dir := by
  have hguarded : st.Guarded cfg := replay_preserves_along
    (fun _ _ _ guarded unspent moved => Session.Guarded.step guarded unspent moved) reached unspent
    (Session.create_guarded cfg)
  refine ⟨fun r r' first second _ same => ?_, fun lane inside s member d decoded => ?_,
    buildNonce_ne_controlNonce⟩
  · rw [hguarded.unique first second same]
    exact ⟨rfl, rfl⟩
  · have hlink := hguarded.inv.links lane inside
    have hpeek := peekMsgType_of_checkOuter (decodeDataDatagram_some decoded).1
    obtain ⟨seqNo, block, hfound, hsend⟩ := (hlink.forward s member).blocks hpeek
    have hslice := hlink.sender.walk.slices block (List.mem_of_getElem? hfound)
    have hinside := (List.getElem?_eq_some_iff.mp hfound).1
    have hshard := shard_inside cfg.send.data.length cfg.send.lanes lane
    have hdata := cfg.send.data_fits
    have hbelow := hslice.1
    unfold SendConfig.shardBytes at hbelow
    obtain ⟨d', hdecoded, conveys⟩ := hsend.decode (Session.lane_fits cfg inside)
      (Nat.lt_of_lt_of_le hinside hlink.word) (by omega)
    rw [decoded] at hdecoded
    cases hdecoded
    exact ⟨block, by rw [conveys.seqNo]; exact hfound, conveys.payload, conveys.offset, conveys.flags⟩

def plainBackend : CryptoBackend where
  encrypt := fun _ _ _ plain => plain ++ List.replicate kAeadTagLen 0
  decrypt := fun _ _ _ sealed => some (sealed.take (sealed.length - kAeadTagLen))
  expandLabel := fun secret _ context => secret ++ context
  length_encrypt := by simp
  decrypt_encrypt := by simp

def keyedSession : SessionConfig where
  send :=
    { lanes := 1
      keyed := some ⟨plainBackend, id⟩
      salt := List.replicate 16 1
      data := [5, 6] }

/-- The session after a run. -/
def after (run : List SessionEvent) : Session :=
  (replay (Session.step keyedSession) (Session.create keyedSession) run).getD
    (Session.create keyedSession)

/-- A datagram on one of the wires of a run. -/
def wired (wire : Session → Nat → List Sent) (run : List SessionEvent) (k : Nat) : List UInt8 :=
  ((wire (after run) 0)[k]?.map Sent.bytes).getD []

def arrives (run : List SessionEvent) (k : Nat) : List SessionEvent :=
  run ++ [.receiver (.datagram 0 {} (wired Session.forward run k))]

def returns (run : List SessionEvent) (k : Nat) : List SessionEvent :=
  run ++ [.sender 0 (.receive (wired Session.backward run k) (fun _ => true) 0)]

/-- The lane opens and sends two blocks, of which the second arrives; the receiver asks for
the first and challenges another source. -/
def probedRun : List SessionEvent :=
  let joined := arrives [.sender 0 (.sendStart true)] 0 ++ [.receiver (.ack 0 true)]
  let sent := returns (returns joined 0) 1 ++
    [.sender 0 (.sendBlock 1 true 1 5 2000), .sender 0 (.sendBlock 1 true 2 6 2000)]
  arrives sent 2 ++ [.receiver (.consumer 0 0 1 fun _ => none), .receiver (.results 0 0 1 9),
    .receiver (.nack 0 true 100 1 1), .receiver (.probe 0 true 42)]

/-- The first block is sent again. -/
def keyedRun : List SessionEvent := returns probedRun 2

instance (cfg : SessionConfig) (st : Session) : Decidable (st.Unspent cfg) :=
  inferInstanceAs (Decidable (∀ lane < cfg.send.lanes, (∀ g ∈ (st.tx lane).signer, g.Unspent) ∧
    ∀ g ∈ (st.rx.lanes lane).signer, g.Unspent))

def Session.sealAt (st : Session) (k : Nat) : Option SealRecord := (st.forward 0)[k]?.bind Sent.carried

variable {st : Session}

theorem Session.sealAt_seals {k : Nat} {r : SealRecord}
    (sealed : st.sealAt k = some r) : st.Seals keyedSession r := by
  obtain ⟨s, found, carried⟩ := Option.bind_eq_some_iff.mp sealed
  exact ⟨0, keyedSession.send.lanes_pos, s, Or.inl (List.mem_of_getElem? found), carried⟩

theorem nonces_name_one_seal_keyedRun :
    ∃ st r r', replay (Session.step keyedSession) (Session.create keyedSession) keyedRun = some st ∧
      st.sealAt 1 = some r ∧ st.sealAt 3 = some r' ∧ r.nonce = r'.nonce ∧
      r.plain = r'.plain ∧ r.aad = r'.aad := by
  obtain ⟨st, hreplay, r, hfirst, r', hagain, hkey, hnonce⟩ : ∃ st,
      replay (Session.step keyedSession) (Session.create keyedSession) keyedRun = some st ∧
        ∃ r, st.sealAt 1 = some r ∧ ∃ r', st.sealAt 3 = some r' ∧ r.key = r'.key ∧
          r.nonce = r'.nonce := by decide +kernel
  have hunspent : Along (Session.step keyedSession) (fun st _ => st.Unspent keyedSession)
      (Session.create keyedSession) keyedRun := by
    decide +kernel
  have hone := (nonces_name_one_seal hreplay hunspent).1 r r' (Session.sealAt_seals hfirst)
    (Session.sealAt_seals hagain) hkey hnonce
  exact ⟨st, r, r', hreplay, hfirst, hagain, hnonce, hone⟩

/-! ## A counter that comes round -/

/-- The challenge of the receiver, and what it is answered with. -/
def challenge : List UInt8 := wired Session.backward probedRun 3

def response : List UInt8 :=
  pathProbeBytes .pathResponse { nonce := keyedSession.send.nonce 0, challenge := 42 }

def Signer.answer (g : Signer) : Sent where
  bytes := ControlAuth.trailed g.backend g.auth.key response g.auth.lane g.auth.nextCtr g.auth.dir
  carried := some (controlSeal g.auth response)

def challengeAgain : SessionEvent := .sender 0 (.receive challenge (fun _ => true) 0)

/-- The session with other answers sent, by a signer with another counter. -/
def Session.answering (st : Session) (g : Signer) (answers : List Sent) : Session :=
  st.sent 0 ({ st.tx 0 with signer := some g }, answers)

/-- The lane is sending, and the challenge is on its way to it. -/
structure Session.Challenged (st : Session) (g : Signer) : Prop where
  running : (st.tx 0).status = none
  sending : (st.tx 0).phase = .sending
  arrived : (st.backward 0).any (fun s => s.bytes = challenge) = true
  authentic : (g.auth.openControl g.backend challenge).isSome = true

theorem Session.Challenged.next {g : Signer} (challenged : st.Challenged g) :
    st.Challenged g.next :=
  ⟨challenged.running, challenged.sending, challenged.arrived, challenged.authentic⟩

/-- Every copy of the challenge is answered, and costs a counter. -/
theorem Session.Challenged.step {g : Signer} (ready : st.Challenged g)
    (answers : List Sent) : (st.answering g answers).step keyedSession challengeAgain =
      some (st.answering g.next (answers ++ [g.answer])) := by
  have hpeek : peekMsgType challenge = some .pathChallenge := by decide +kernel
  have hdecoded : decodePathProbe .pathChallenge challenge =
      some { nonce := keyedSession.send.nonce 0, challenge := 42 } := by decide +kernel
  have hencoded : encodePathProbe .pathResponse
      { nonce := keyedSession.send.nonce 0, challenge := 42 } 64 = some response := by decide +kernel
  have hroom : ¬ 64 < response.length + kControlTrailerLen := by decide +kernel
  have hprobe : sendPathProbe (some g) true .pathResponse 0 (keyedSession.send.nonce 0) 42 =
      ([g.answer], some g.next) := by
    rw [sendPathProbe, hencoded, sealCtl, ControlAuth.sealControl, if_neg hroom]
    rfl
  have hlane : (st.answering g answers).tx 0 = { st.tx 0 with signer := some g } := by
    simp [Session.answering, Session.sent]
  have hact : SendLane.act keyedSession.send 0 { st.tx 0 with signer := some g }
      (.receive challenge (fun _ => true) 0) =
        some ({ st.tx 0 with signer := some g.next }, [g.answer]) := by
    simp only [SendLane.act, ready.running, ready.sending, SendLane.onFeedback, ctlAuthentic,
      ready.authentic, hpeek, hdecoded, hprobe, if_true, Bool.true_eq_false, if_false]
  rw [challengeAgain, Session.step, hlane, hact, if_pos ⟨keyedSession.send.lanes_pos, ready.arrived⟩]
  simp [Session.answering, Session.sent]

theorem Session.Challenged.replay (count : Nat) {g : Signer}
    (ready : st.Challenged g) (answers : List Sent) :
    ∃ last more, (Signer.next^[count] g).answer ∈ more ∧
      Runs.replay (Session.step keyedSession) (st.answering g answers)
        (List.replicate (count + 1) challengeAgain) = some (st.answering last more) := by
  induction count generalizing g answers with
  | zero =>
    refine ⟨g.next, _, List.mem_append_right answers (List.mem_singleton_self _), ?_⟩
    rw [List.replicate_succ, replay_cons_some _ (ready.step answers)]
    rfl
  | succ count ih =>
    rw [List.replicate_succ, replay_cons_some _ (ready.step answers)]
    exact ih ready.next _

/-- The challenge arrives as often as brings the counter of the lane round. -/
def roundRun : List SessionEvent := keyedRun ++ List.replicate (2 ^ 64) challengeAgain

/-- A counter that has run through its word signs two different messages under one nonce. -/
theorem nonce_repeats_roundRun :
    ∃ st r r', replay (Session.step keyedSession) (Session.create keyedSession) roundRun = some st ∧
      st.Seals keyedSession r ∧ st.Seals keyedSession r' ∧ r.key = r'.key ∧ r.nonce = r'.nonce ∧
      r.aad ≠ r'.aad := by
  -- The opening message was signed under the first counter; an answer under it is another.
  obtain ⟨st, hreplay, hrunning, hsending, harrived, g, hsigner, hctr, hauthentic, r, hfirst, hkey,
      hnonce, haad⟩ : ∃ st,
    replay (Session.step keyedSession) (Session.create keyedSession) keyedRun = some st ∧
      (st.tx 0).status = none ∧ (st.tx 0).phase = .sending ∧
      (st.backward 0).any (fun s => s.bytes = challenge) = true ∧
    ∃ g, (st.tx 0).signer = some g ∧ g.auth.nextCtr = 2 ∧
      (g.auth.openControl g.backend challenge).isSome = true ∧
    ∃ r, st.sealAt 0 = some r ∧
      r.key = (controlSeal { g.auth with nextCtr := 1 } response).key ∧
      r.nonce = (controlSeal { g.auth with nextCtr := 1 } response).nonce ∧
      r.aad ≠ (controlSeal { g.auth with nextCtr := 1 } response).aad := by decide +kernel
  have hready : st.Challenged g := ⟨hrunning, hsending, harrived, hauthentic⟩
  have hsame : st.answering g [] = st := by
    have hlane : ({ st.tx 0 with signer := some g } : SendLane) = st.tx 0 := by rw [← hsigner]
    simp [Session.answering, Session.sent, hlane]
  have hwrapped : (Signer.next^[2 ^ 64 - 1] g).auth = { g.auth with nextCtr := 1 } := by
    rw [Signer.next_iterate g (by rw [hctr]; decide), hctr]
    rfl
  obtain ⟨last, more, hanswer, honward⟩ := hready.replay (2 ^ 64 - 1) []
  rw [hsame, Nat.sub_add_cancel Nat.one_le_two_pow] at honward
  have hwire : ∀ s ∈ st.forward 0 ++ more, s ∈ (st.answering last more).forward 0 := by
    simp [Session.answering, Session.sent]
  obtain ⟨s, hs, hsealed⟩ := Option.bind_eq_some_iff.mp hfirst
  refine ⟨_, r, _, ?_, ⟨0, keyedSession.send.lanes_pos, s, Or.inl (hwire s
    (List.mem_append_left _ (List.mem_of_getElem? hs))), hsealed⟩,
    ⟨0, keyedSession.send.lanes_pos, _, Or.inl (hwire _ (List.mem_append_right _ hanswer)),
      congrArg (fun auth => some (controlSeal auth response)) hwrapped⟩, hkey, hnonce, haad⟩
  rw [roundRun, replay_append, hreplay, Option.bind_some, honward]

end FuseTransport.Transfer
