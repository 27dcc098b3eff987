import FuseTransport.Transfer.Traffic

/-!
# The sending side of a session

A lane of the sender that is told the truth forgets only blocks the receiver has
accepted, sends the parts it was asked for, and has sent all of them when it leaves.
-/

namespace FuseTransport.Transfer

open Foundation Proto

variable {block : Nat} {dg : List UInt8}

namespace SendLane

/-! ## Its window and its walk -/

/-- What holds of a lane of the sender, given which blocks the receiver has accepted. -/
structure Sound (cfg : SendConfig) (lane : Nat) (Accepted : Nat → Prop) (T : SendLane) : Prop where
  window : SendWindow (Original T.history) Accepted T.reg T.base T.nextSeq
  size : T.reg.windowSize = kWindow
  counted : T.history.length = T.nextSeq
  walk : T.Walk cfg lane
  token : T.token < 2 ^ 64
  idle : T.phase = .handshake → T.history = [] ∧ T.ri = 0 ∧ T.sentLast = false
  done : T.phase = .digesting ∨ T.status = some .ok → T.Drained

theorem create_sound (cfg : SendConfig) (lane : Nat) (Accepted : Nat → Prop) :
    (create cfg lane).Sound cfg lane Accepted where
  window := SendWindow.create lane kWindow
  size := rfl
  counted := rfl
  walk := create_walk cfg lane
  token := Nat.two_pow_pos 64
  idle := fun _ => ⟨rfl, rfl, rfl⟩
  done := by
    rintro (impossible | impossible)
    · cases impossible
    · cases impossible

section Sound

variable {cfg : SendConfig} {lane : Nat} {Accepted : Nat → Prop} {T T' : SendLane}

theorem Sound.mono (sound : T.Sound cfg lane Accepted) {Accepted' : Nat → Prop}
    (grows : ∀ s, Accepted s → Accepted' s) : T.Sound cfg lane Accepted' :=
  { sound with window := sound.window.mono (fun _ _ _ original => original) grows }

/-- A change of the handshake or the status. -/
theorem Sound.steady (sound : T.Sound cfg lane Accepted) (steady : Steady T T')
    (phase : T'.phase = T.phase ∨ (T'.phase = .digesting ∧ T.Drained))
    (ok : T'.status = some .ok → T.Drained ∨ T.phase = .digesting) :
    T'.Sound cfg lane Accepted := by
  have hdrained : T.Drained → T'.Drained := by
    rw [steady.rest]
    exact id
  have hrest : T'.history = T.history ∧ T'.ri = T.ri ∧ T'.sentLast = T.sentLast ∧
      T'.ranges = T.ranges ∧ T'.nextOffset = T.nextOffset ∧ T'.token = T.token := by
    rw [steady.rest]
    exact ⟨rfl, rfl, rfl, rfl, rfl, rfl⟩
  obtain ⟨hhistory, hri, hsentLast, hranges, hoffset, htoken⟩ := hrest
  constructor
  case window => rw [steady.rest]; exact sound.window
  case size => rw [steady.rest]; exact sound.size
  case counted => rw [steady.rest]; exact sound.counted
  case walk => exact sound.walk.congr hranges hri hoffset hhistory hsentLast
  case token => rw [htoken]; exact sound.token
  case idle =>
    intro waiting
    rw [hhistory, hri, hsentLast]
    rcases phase with hsame | ⟨hdigesting, _⟩
    · exact sound.idle (hsame ▸ waiting)
    · cases hdigesting.symm.trans waiting
  case done =>
    rintro (hdigesting | hok)
    · rcases phase with hsame | ⟨_, hdone⟩
      · exact hdrained (sound.done (Or.inl (hsame ▸ hdigesting)))
      · exact hdrained hdone
    · exact hdrained ((ok hok).elim id fun digesting => sound.done (Or.inl digesting))

theorem Sound.onAck (sound : T.Sound cfg lane Accepted) (sending : T.phase = .sending)
    (running : T.status = none) {ack : Ack} (honest : ∀ s, ack.Asserts s → Accepted s) :
    (T.onAck ack).Sound cfg lane Accepted := by
  have hwindow : T.nextSeq ≤ T.base + kMaxWindow :=
    Nat.le_trans sound.window.window (Nat.add_le_add_left T.reg.window_le _)
  have hfrees := applyAck_frees T.reg ack (some T.receivedEnd) sound.window.ordered hwindow
    sound.window.bounded
  constructor
  case window => exact sound.window.applyAck ack (some T.receivedEnd) fun s _ => honest s
  case size => exact hfrees.window.trans sound.size
  case counted => exact sound.counted
  case walk => exact sound.walk.congr rfl rfl rfl rfl rfl
  case token => exact sound.token
  case idle => exact sound.idle
  case done =>
    rintro (hdigesting | hok)
    · cases sending.symm.trans hdigesting
    · cases running.symm.trans hok

theorem blockLength_le (fits : block ≤ cfg.blockCeiling) :
    T.blockLength block ≤ kMaxPayloadSize := by
  have hceiling : cfg.blockCeiling ≤ kMaxPayloadSize := by
    unfold SendConfig.blockCeiling
    split
    · exact Nat.sub_le _ _
    · exact Nat.le_refl _
  exact Nat.le_trans (Nat.min_le_left _ _) (Nat.le_trans fits hceiling)

/-- A block is kept, whether or not it is sent. -/
theorem Sound.keep (sound : T.Sound cfg lane Accepted) (pending : T.pending)
    (fits : block ≤ cfg.blockCeiling) (nowNs : Nat) :
    ∃ stored, T.reg.store T.nextSeq (T.nextBlock cfg lane (T.blockLength block)).payload nowNs
        (T.nextBlock cfg lane (T.blockLength block)).offset
        (T.nextBlock cfg lane (T.blockLength block)).flags = some stored ∧
      T.keep (T.nextBlock cfg lane (T.blockLength block)) nowNs = { T with reg := stored } := by
  have hlength := (sound.walk.nextBlock pending block).2
  have hsmall := blockLength_le (T := T) fits
  unfold SendLane.keep SenderRegistry.store
  rw [if_neg (by omega)]
  exact ⟨_, rfl, rfl⟩

theorem count_frame (T : SendLane) (block : SentBlock) (len : Nat) :
    (T.count block len).reg = T.reg ∧ (T.count block len).base = T.base ∧
      (T.count block len).token = T.token ∧ (T.count block len).phase = T.phase ∧
      (T.count block len).status = T.status := by
  unfold SendLane.count SendLane.advance
  split <;> exact ⟨rfl, rfl, rfl, rfl, rfl⟩

theorem Sound.count (sound : T.Sound cfg lane Accepted) (sending : T.phase = .sending)
    (running : T.status = none) (pending : T.pending) (word : T.nextSeq + 1 < 2 ^ 64) (block : Nat)
    (window : SendWindow (Original (T.history ++ [T.nextBlock cfg lane (T.blockLength block)]))
      Accepted T.reg T.base (T.nextSeq + 1)) :
    (T.count (T.nextBlock cfg lane (T.blockLength block)) (T.blockLength block)).Sound cfg lane
      Accepted := by
  obtain ⟨hreg, hbase, htoken, hphase, hstatus⟩ :=
    count_frame T (T.nextBlock cfg lane (T.blockLength block)) (T.blockLength block)
  have hnext : (T.count (T.nextBlock cfg lane (T.blockLength block)) (T.blockLength block)).nextSeq =
      T.nextSeq + 1 := u64_of_lt word
  constructor
  case window => rw [hreg, hbase, hnext]; exact window
  case size => rw [hreg]; exact sound.size
  case counted =>
    rw [hnext]
    change (T.history ++ [_]).length = _
    rw [List.length_append, sound.counted]
    rfl
  case walk => exact sound.walk.count sound.counted pending block
  case token => rw [htoken]; exact sound.token
  case idle =>
    rw [hphase]
    exact fun waiting => by cases sending.symm.trans waiting
  case done =>
    rw [hphase, hstatus]
    rintro (hdigesting | hok)
    · cases sending.symm.trans hdigesting
    · cases running.symm.trans hok

theorem Sound.sendNext (sound : T.Sound cfg lane Accepted) (sending : T.phase = .sending)
    (running : T.status = none) (pending : T.pending) (room : T.nextSeq < u64 (T.base + kWindow))
    (fits : block ≤ cfg.blockCeiling) (works : Bool) (nowNs wireNs cap : Nat) :
    (T.sendNext cfg lane block works nowNs wireNs cap).1.Sound cfg lane Accepted := by
  obtain ⟨stored, hstore, hkept⟩ := sound.keep pending fits nowNs
  rw [← sound.size] at room
  obtain ⟨hroom, hword⟩ := SendWindow.guard_exact room
  have hsound : ({ T with reg := stored } : SendLane).Sound cfg lane Accepted := { sound with
    window := sound.window.attempt hroom hstore
    size := (SenderRegistry.store_windowSize hstore).trans sound.size
    walk := sound.walk.congr rfl rfl rfl rfl rfl }
  unfold SendLane.sendNext
  dsimp only
  rw [hkept]
  split
  · exact hsound.count sending running pending hword block
      (sound.window.store sound.counted hroom hword hstore)
  · exact hsound

theorem onResumeRanges_frame (T : SendLane) (rr : ResumeRanges) :
    T.onResumeRanges rr = { T with
      resumed := (T.onResumeRanges rr).resumed
      partsExpected := (T.onResumeRanges rr).partsExpected
      partsSeen := (T.onResumeRanges rr).partsSeen
      answer := (T.onResumeRanges rr).answer
      havePart := (T.onResumeRanges rr).havePart } := by
  unfold SendLane.onResumeRanges SendLane.expectParts
  split
  · dsimp only
    split <;> rfl
  · dsimp only
    split <;> rfl

theorem decodeRetry_token {r : Retry} (decoded : decodeRetry dg = some r) : r.token < 2 ^ 64 := by
  obtain ⟨_, _, hbody⟩ := of_decoded decoded
  rw [← Option.some.inj hbody]
  exact BigEndian.getAt_lt 8 12 dg

/-- Whatever a lane hears before it has started, it has sent nothing. -/
theorem Heard.sound (heard : Heard cfg lane T dg T') (sound : T.Sound cfg lane Accepted)
    (waiting : T.phase = .handshake) (running : T.status = none) :
    T'.Sound cfg lane Accepted ∧ T'.phase = .handshake := by
  have hbusy : ∀ {P : Prop}, T.phase = .digesting ∨ T.status = some .ok → P := by
    rintro P (hdigesting | hok)
    · cases waiting.symm.trans hdigesting
    · cases running.symm.trans hok
  cases heard with
  | ignored => exact ⟨sound, waiting⟩
  | refused =>
    refine ⟨{ sound with walk := sound.walk.congr rfl rfl rfl rfl rfl, done := ?_ }, waiting⟩
    rintro (hdigesting | hok)
    · cases waiting.symm.trans hdigesting
    · cases hok
  | retry r decoded =>
    exact ⟨{ sound with
      walk := sound.walk.congr rfl rfl rfl rfl rfl
      token := decodeRetry_token decoded
      done := hbusy }, waiting⟩
  | acked =>
    exact ⟨{ sound with walk := sound.walk.congr rfl rfl rfl rfl rfl, done := hbusy }, waiting⟩
  | part rr decoded =>
    rw [onResumeRanges_frame]
    exact ⟨{ sound with walk := sound.walk.congr rfl rfl rfl rfl rfl, done := hbusy }, waiting⟩

theorem Sound.begin (sound : T.Sound cfg lane Accepted) (waiting : T.phase = .handshake) :
    (T.begin cfg lane).Sound cfg lane Accepted := by
  obtain ⟨hnone, hfirst, hunmarked⟩ := sound.idle waiting
  have hwalk := sound.walk.begin hnone hfirst hunmarked
  unfold SendLane.begin at hwalk ⊢
  split
  · rename_i hready
    rw [if_pos hready] at hwalk
    refine { sound with walk := hwalk, idle := nofun, done := ?_ }
    rintro (impossible | hok)
    · cases impossible
    · cases hready.1.symm.trans hok
  · exact sound

/-- Every step of a lane that is told the truth. -/
theorem Moved.sound {e : TxEvent} {sent : List Sent} (moved : Moved cfg lane T e T' sent)
    (sound : T.Sound cfg lane Accepted)
    (honest : ∀ dg works wireNs, e = .receive dg works wireNs →
      ∀ ack, decodeAck dg = some ack → ∀ s, ack.Asserts s → Accepted s) :
    T'.Sound cfg lane Accepted := by
  cases moved with
  | spoke _ _ _ _ _ spoke => exact sound.steady spoke.steady spoke.phase spoke.ok
  | heard dg works wireNs told waiting running heard =>
    obtain ⟨htold, hwaiting⟩ := heard.sound sound waiting running
    exact htold.begin hwaiting
  | acked dg works wireNs ack sending running decoded =>
    exact sound.onAck sending running (honest dg works wireNs rfl ack decoded)
  | nacked | timedOut => exact sound
  | block block works nowNs wireNs cap sending running pending room _ fits =>
    exact sound.sendNext sending running pending room fits works nowNs wireNs cap

end Sound

/-- A lane has heard nothing yet or some of what the receiver asked for, and once it has
started it sends that. -/
structure Told (cfg : SendConfig) (lane : Nat) (R : RecvLane) (T : SendLane) : Prop where
  heard : (T.partsExpected = 0 ∧ T.partsSeen = 0) ∨
    (R.haveStart = true ∧ T.Hears (answerLists R.log.want))
  begun : T.phase ≠ .handshake → R.haveStart = true ∧
    T.ranges = rangesToSend (cfg.shardBytes lane) (answerLists R.log.want)

section Told

variable {cfg : SendConfig} {lane : Nat} {R R' : RecvLane} {T T' : SendLane}

theorem Told.kept (told : T.Told cfg lane R)
    (kept : R.haveStart = true → R'.haveStart = true ∧ R'.log.want = R.log.want) :
    T.Told cfg lane R' where
  heard := by
    refine told.heard.imp_right ?_
    rintro ⟨hstarted, hears⟩
    obtain ⟨hstill, hwant⟩ := kept hstarted
    rw [hwant]
    exact ⟨hstill, hears⟩
  begun := by
    intro begun
    obtain ⟨hstarted, hranges⟩ := told.begun begun
    obtain ⟨hstill, hwant⟩ := kept hstarted
    rw [hwant]
    exact ⟨hstill, hranges⟩

theorem answerLists_ne_nil (want : List ResumeRange) : answerLists want ≠ [] := by
  intro none
  have hlength := congrArg List.length none
  rw [answerLists, List.length_map, List.length_range, List.length_nil] at hlength
  omega

theorem Told.onResumeRanges (told : T.Told cfg lane R) (waiting : T.phase = .handshake)
    (asks : R.haveStart = true → R.Asks) {nextSeq : Nat} (backward : Backward lane R nextSeq dg)
    {rr : ResumeRanges} (decoded : decodeResumeRanges dg = some rr) :
    (T.onResumeRanges rr).Told cfg lane R := by
  obtain ⟨hstarted, _, _, hmember⟩ := backward.parts rr decoded
  obtain ⟨_, _, hcount, hfound⟩ := resumeAnswer_member (asks hstarted).short hmember
  have hears : (T.expectParts (answerLists R.log.want).length).Hears (answerLists R.log.want) := by
    rcases told.heard with ⟨hnone, hunseen⟩ | ⟨_, hears⟩
    · exact hears_of_first hnone hunseen
    · rw [hears.expectParts (answerLists_ne_nil _)]
      exact hears
  refine ⟨Or.inr ⟨hstarted, hears.onResumeRanges hcount hfound⟩, fun begun => ?_⟩
  rw [onResumeRanges_frame] at begun
  exact absurd waiting begun

theorem Heard.told (heard : Heard cfg lane T dg T') (told : T.Told cfg lane R)
    (waiting : T.phase = .handshake) (asks : R.haveStart = true → R.Asks) {nextSeq : Nat}
    (backward : Backward lane R nextSeq dg) : T'.Told cfg lane R := by
  cases heard with
  | ignored => exact told
  | refused => exact ⟨told.heard.imp_right fun both => ⟨both.1, { both.2 with }⟩, told.begun⟩
  | retry | acked => exact ⟨told.heard.imp_right fun both => ⟨both.1, { both.2 with }⟩, told.begun⟩
  | part rr decoded => exact told.onResumeRanges waiting asks backward decoded

/-- A lane starts with all messages of the answer. -/
theorem Told.begin (told : T.Told cfg lane R) : (T.begin cfg lane).Told cfg lane R := by
  unfold SendLane.begin
  split
  · rename_i hready
    have hall : T.partsExpected ≠ 0 ∧ T.partsSeen = T.partsExpected := by
      have hboth := hready.2
      simp only [SendLane.ready, Bool.and_eq_true, decide_eq_true_eq] at hboth
      exact ⟨hboth.1.2, hboth.2⟩
    rcases told.heard with ⟨hnone, _⟩ | ⟨hstarted, hears⟩
    · exact absurd hnone hall.1
    · refine ⟨Or.inr ⟨hstarted, { hears with }⟩, fun _ => ⟨hstarted, ?_⟩⟩
      rw [← hears.complete hall.2]
  · exact told

theorem Moved.told {Accepted : Nat → Prop} {e : TxEvent} {sent : List Sent}
    (moved : Moved cfg lane T e T' sent) (sound : T.Sound cfg lane Accepted)
    (told : T.Told cfg lane R) (asks : R.haveStart = true → R.Asks)
    (backward : ∀ dg works wireNs, e = .receive dg works wireNs → Backward lane R T.nextSeq dg) :
    T'.Told cfg lane R := by
  cases moved with
  | spoke _ _ _ _ _ spoke =>
    have hrest : T'.partsExpected = T.partsExpected ∧ T'.partsSeen = T.partsSeen ∧
        T'.ranges = T.ranges ∧ ∀ lists, T.Hears lists → T'.Hears lists := by
      rw [spoke.steady.rest]
      exact ⟨rfl, rfl, rfl, fun lists hears => { hears with }⟩
    obtain ⟨hexpected, hseen, hranges, hhears⟩ := hrest
    constructor
    case heard =>
      rw [hexpected, hseen]
      exact told.heard.imp_right fun both => ⟨both.1, hhears _ both.2⟩
    case begun =>
      rw [hranges]
      intro begun
      refine told.begun fun waiting => ?_
      rcases spoke.phase with hsame | ⟨_, hdrained⟩
      · exact begun (hsame.trans waiting)
      · have hunmarked := (sound.idle waiting).2.2
        rw [hdrained.1] at hunmarked
        cases hunmarked
  | heard dg works wireNs _ waiting _ heard =>
    exact (heard.told told waiting asks (backward dg works wireNs rfl)).begin
  | acked => exact ⟨told.heard.imp_right fun both => ⟨both.1, { both.2 with }⟩, told.begun⟩
  | nacked | timedOut => exact told
  | block block works nowNs wireNs cap =>
    have hrest : ∀ M : SendLane, M.partsExpected = T.partsExpected → M.partsSeen = T.partsSeen →
        M.answer = T.answer → M.havePart = T.havePart → M.phase = T.phase →
        M.ranges = T.ranges → M.Told cfg lane R := by
      intro M hexpected hseen hanswer hhave hphase hranges
      constructor
      case heard =>
        rw [hexpected, hseen]
        refine told.heard.imp_right fun both => ⟨both.1, ?_⟩
        obtain ⟨h1, h2, h3, h4, h5⟩ := both.2
        rw [← hexpected] at h1
        rw [← hanswer] at h2
        rw [← hhave] at h3
        rw [← hseen, ← hhave] at h4
        rw [← hhave, ← hanswer] at h5
        exact ⟨h1, h2, h3, h4, h5⟩
      case begun => rw [hphase, hranges]; exact told.begun
    unfold SendLane.sendNext
    dsimp only
    split
    · unfold SendLane.count SendLane.advance SendLane.keep
      split <;> exact hrest _ rfl rfl rfl rfl rfl rfl
    · exact hrest _ rfl rfl rfl rfl rfl rfl

end Told

section Sends

variable {cfg : SendConfig} {lane : Nat} {Accepted : Nat → Prop} {T T' : SendLane} {e : TxEvent}
  {sent : List Sent}

theorem Heard.frame (heard : Heard cfg lane T dg T') :
    T'.history = T.history ∧ T'.digest = T.digest ∧ T'.signer = T.signer := by
  cases heard with
  | ignored | refused | retry | acked => exact ⟨rfl, rfl, rfl⟩
  | part rr =>
    rw [onResumeRanges_frame]
    exact ⟨rfl, rfl, rfl⟩

theorem begin_frame (cfg : SendConfig) (lane : Nat) (T : SendLane) :
    (T.begin cfg lane).history = T.history ∧ (T.begin cfg lane).digest = T.digest ∧
      (T.begin cfg lane).signer = T.signer := by
  unfold SendLane.begin
  split <;> exact ⟨rfl, rfl, rfl⟩

theorem Moved.grows (moved : Moved cfg lane T e T' sent) : T.history <+: T'.history := by
  cases moved with
  | spoke _ _ _ _ _ spoke => rw [spoke.steady.rest]
  | heard _ _ _ told _ _ heard => rw [(begin_frame cfg lane told).1, heard.frame.1]
  | acked | nacked | timedOut => exact List.prefix_refl _
  | block block works nowNs wireNs cap =>
    unfold SendLane.sendNext
    dsimp only
    split
    · exact List.prefix_append _ _
    · exact List.prefix_refl _

theorem sendNext_frame (T : SendLane) (cfg : SendConfig) (lane block : Nat) (works : Bool)
    (nowNs wireNs cap : Nat) :
    (T.sendNext cfg lane block works nowNs wireNs cap).1.digest = T.digest ∧
      (T.sendNext cfg lane block works nowNs wireNs cap).1.signer = T.signer := by
  unfold SendLane.sendNext
  dsimp only
  split
  · unfold SendLane.count SendLane.advance
    split <;> exact ⟨rfl, rfl⟩
  · exact ⟨rfl, rfl⟩

/-- A step that signs nothing puts only blocks on the wire. -/
theorem Moved.carries (moved : Moved cfg lane T e T' sent) (sound : T.Sound cfg lane Accepted)
    (named : ∀ dg works wireNs, e = .receive dg works wireNs →
      ∀ nack, decodeNack dg = some nack → ∀ s ∈ nack.missing, s < T.nextSeq) :
    (∃ bodies signed, Spoke cfg lane T T' sent bodies signed) ∨
      (T'.digest = T.digest ∧ T'.signer = T.signer ∧ ∀ s ∈ sent, s.Carries cfg lane T'.history) := by
  cases moved with
  | spoke _ _ _ bodies signed spoke => exact Or.inl ⟨bodies, signed, spoke⟩
  | heard _ _ _ told _ _ heard =>
    obtain ⟨_, hdigest, hsigner⟩ := begin_frame cfg lane told
    obtain ⟨_, htold, hheard⟩ := heard.frame
    exact Or.inr ⟨hdigest.trans htold, hsigner.trans hheard, nofun⟩
  | acked => exact Or.inr ⟨rfl, rfl, nofun⟩
  | nacked dg works wireNs nack decoded =>
    refine Or.inr ⟨rfl, rfl, fun s member => ?_⟩
    obtain ⟨⟨seqNo, i⟩, hnamed, hresent⟩ := List.mem_flatMap.mp member
    have hmissing : seqNo ∈ nack.missing := (List.mem_zipIdx' hnamed).2 ▸ List.getElem_mem _
    exact resend_carries sound.window (named dg works wireNs rfl nack decoded seqNo hmissing) hresent
  | timedOut seqNo works wireNs below =>
    exact Or.inr ⟨rfl, rfl, fun s member => resend_carries sound.window below member⟩
  | block block works nowNs wireNs cap =>
    obtain ⟨hdigest, hsigner⟩ := sendNext_frame T cfg lane block works nowNs wireNs cap
    exact Or.inr ⟨hdigest, hsigner, fun s member => sendNext_carries sound.counted member⟩

/-- Everything a step puts on the wire, and the digest it keeps for later. -/
theorem Moved.forward (moved : Moved cfg lane T e T' sent) (sound : T.Sound cfg lane Accepted)
    (lane_fits : lane < 2 ^ 16)
    (digest : ∀ s, T.digest = some s → Forward cfg lane T.history s.bytes)
    (named : ∀ dg works wireNs, e = .receive dg works wireNs →
      ∀ nack, decodeNack dg = some nack → ∀ s ∈ nack.missing, s < T.nextSeq) :
    (∀ s ∈ sent, Forward cfg lane T'.history s.bytes) ∧
      ∀ s, T'.digest = some s → Forward cfg lane T'.history s.bytes := by
  have hgrows := moved.grows
  have hkept : ∀ s, T.digest = some s → Forward cfg lane T'.history s.bytes :=
    fun s found => (digest s found).mono hgrows
  rcases moved.carries sound named with ⟨bodies, signed, spoke⟩ | ⟨hdigest, _, hblocks⟩
  · have hsigned : ∀ s ∈ signed, Forward cfg lane T'.history s.bytes := by
      intro s member
      obtain ⟨body, hbody, rest, hbytes⟩ := spoke.emits.bytes member
      rw [hbytes]
      exact (spoke.said body hbody).forward lane_fits sound.token rest
    constructor
    · exact fun s member => (spoke.among s member).elim (hsigned s) (hkept s)
    · exact fun s found => (spoke.digest s found).elim (hsigned s) (hkept s)
  · rw [hdigest]
    exact ⟨fun s member => (hblocks s member).forward.forward, hkept⟩

end Sends

end SendLane

end FuseTransport.Transfer
