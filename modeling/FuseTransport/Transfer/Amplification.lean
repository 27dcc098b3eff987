import FuseTransport.Transfer.Credit
import FuseTransport.Transfer.PathRuns

/-!
# No amplification

A block that waits in a ring keeps the credit of its datagram, which pays for the challenge
that its verdict may cause.  So a lane never sends an address that has echoed nothing more
than it has received from it, as long as no authentic message is cut short.
-/

namespace FuseTransport.Transfer

open Proto Foundation Foundation.Runs Foundation.Channels

def weigh (a : PeerAddr) (origins : List Origin) : Nat :=
  (origins.map fun o => if a = o.src then worth o.dg else 0).sum

theorem weigh_append (a : PeerAddr) (first second : List Origin) :
    weigh a (first ++ second) = weigh a first + weigh a second := by
  simp [weigh]

theorem weigh_perm {a : PeerAddr} {first second : List Origin} (perm : first.Perm second) :
    weigh a first = weigh a second :=
  (perm.map _).sum_eq

theorem weigh_singleton (a : PeerAddr) (o : Origin) :
    weigh a [o] = if a = o.src then worth o.dg else 0 := by
  simp [weigh]

theorem weigh_update {count k : Nat} (inside : k < count) {queues : Nat → List Origin}
    {changed gone added : List Origin} (change : (changed ++ gone).Perm (queues k ++ added))
    (a : PeerAddr) :
    weigh a (contents count (Function.update queues k changed)) + weigh a gone =
      weigh a (contents count queues) + weigh a added := by
  rw [← weigh_append, ← weigh_append]
  exact weigh_perm (contents_update inside change)

namespace PeerLane

variable {P : PeerLane} {channels k : Nat}

def owed (channels : Nat) (P : PeerLane) : PeerAddr → Nat :=
  fun a => weigh a (contents channels P.ringSrcs) + weigh a (contents channels P.doneSrcs)

theorem owed_push (inside : k < channels) (o : Origin) (a : PeerAddr) :
    owed channels { P with ringSrcs := Function.update P.ringSrcs k (P.ringSrcs k ++ [o]) } a =
      gain (owed channels P) o.src (worth o.dg) a := by
  have hchange : (P.ringSrcs k ++ [o] ++ []).Perm (P.ringSrcs k ++ [o]) := by rw [List.append_nil]
  have hpush := weigh_update inside hchange a
  have hnil : weigh a [] = 0 := rfl
  rw [weigh_singleton] at hpush
  unfold owed gain
  dsimp only
  omega

theorem owed_move (inside : k < channels) (n : Nat) (a : PeerAddr) :
    owed channels { P with
      ringSrcs := Function.update P.ringSrcs k ((P.ringSrcs k).drop n)
      doneSrcs := Function.update P.doneSrcs k (P.doneSrcs k ++ (P.ringSrcs k).take n) } a =
      owed channels P a := by
  have hleaves : ((P.ringSrcs k).drop n ++ (P.ringSrcs k).take n).Perm (P.ringSrcs k ++ []) := by
    rw [List.append_nil]
    exact List.perm_append_comm.trans (List.Perm.of_eq (List.take_append_drop n _))
  have harrives : (P.doneSrcs k ++ (P.ringSrcs k).take n ++ []).Perm
      (P.doneSrcs k ++ (P.ringSrcs k).take n) := by rw [List.append_nil]
  have hrings := weigh_update inside hleaves a
  have hdones := weigh_update inside harrives a
  unfold owed
  dsimp only
  omega

theorem owed_pop (inside : k < channels) {o : Origin} {rest : List Origin}
    (head : P.doneSrcs k = o :: rest) (a : PeerAddr) :
    gain (owed channels { P with doneSrcs := Function.update P.doneSrcs k rest }) o.src
      (worth o.dg) a = owed channels P a := by
  have hleaves : (rest ++ [o]).Perm (P.doneSrcs k ++ []) := by
    rw [List.append_nil, head]
    exact List.perm_append_comm
  have hdones := weigh_update inside hleaves a
  have hnil : weigh a [] = 0 := rfl
  rw [weigh_singleton] at hdones
  unfold owed gain
  dsimp only
  omega

end PeerLane

/-! ## Blocks and their sources -/

def RxConfig.probeSize (cfg : RxConfig) : Nat := 20 + if cfg.keyed.isSome then kControlTrailerLen else 0

/-- The sources of a lane's blocks stand in the order of the blocks, and every block that was
written is worth a challenge. -/
structure Aligned (cfg : RxConfig) (L : RecvLane) (P : PeerLane) : Prop where
  slots : ∀ k, (P.ringSrcs k).map Origin.dg = (L.rings k).map PacketSlot.dg
  dones : ∀ k, List.Forall₂ (fun c o => c.result = .written → cfg.probeSize ≤ worth o.dg)
    (L.dones k) (P.doneSrcs k)
  signed : L.signer.isSome = true → cfg.keyed.isSome = true

variable {L : RecvLane}

/-- An authentic block has room for a signed challenge. -/
theorem written_long {cfg : RxConfig} {lane : Nat} {slot : PacketSlot} {c : Completion}
    (reports : Reports (examine (L.opens cfg.keyed lane) slot) c) (written : c.result = .written) :
    cfg.probeSize ≤ worth slot.dg := by
  cases reports with
  | ioFailed => cases written
  | examined =>
    unfold examine at written
    cases hdecoded : decodeDataDatagram slot.dg with
    | none =>
      rw [hdecoded] at written
      cases written
    | some d =>
      rw [hdecoded] at written
      dsimp only at written
      obtain ⟨houter, _, _, hlong, hpayload, _⟩ := decodeDataDatagram_some hdecoded
      rw [worth_of_peek (peekMsgType_of_checkOuter houter)]
      cases hopens : L.opens cfg.keyed lane d with
      | none =>
        rw [hopens] at written
        cases written
      | some body =>
        unfold RxConfig.probeSize
        cases hkeyed : cfg.keyed with
        | none =>
          have hfixed : kDataPrefixSize = 31 := rfl
          simp only [Option.isSome_none, Bool.false_eq_true, if_false]
          omega
        | some k =>
          rw [hkeyed] at hopens
          obtain ⟨key, _, hunprotect⟩ := Option.bind_eq_some_iff.mp hopens
          unfold unprotect LaneCipher.openData at hunprotect
          dsimp only at hunprotect
          split at hunprotect
          · cases hunprotect
          · have htags : kAeadTagLen = 16 ∧ kControlTrailerLen = 24 ∧ kDataPrefixSize = 31 :=
              ⟨rfl, rfl, rfl⟩
            have hshort : d.payload.length ≤ d.hdr.payloadLen := by
              rw [hpayload]
              exact List.length_take_le _ _
            simp only [Option.isSome_some, if_true]
            omega

namespace Aligned

variable {cfg : RxConfig} {lane k : Nat} {L L' : RecvLane} {P : PeerLane} {sh : Shared}

theorem create (cfg : RxConfig) (lane : Nat) : Aligned cfg (RecvLane.create lane) {} :=
  ⟨fun _ => rfl, fun _ => List.Forall₂.nil, fun impossible => Bool.noConfusion impossible⟩

theorem probe_le (aligned : Aligned cfg L P) : 20 + trailerLen L.signer ≤ cfg.probeSize := by
  unfold trailerLen RxConfig.probeSize
  split
  · rename_i hsigned
    rw [if_pos (aligned.signed hsigned)]
  · exact Nat.add_le_add_left (Nat.zero_le _) _

/-- A step that touches no block. -/
theorem kept (aligned : Aligned cfg L P) (rings : L'.rings = L.rings) (dones : L'.dones = L.dones)
    (signed : L'.signer.isSome = true → cfg.keyed.isSome = true) (a : Anchor) :
    Aligned cfg L' { P with anchor := a } where
  slots := by
    intro k
    rw [rings]
    exact aligned.slots k
  dones := by
    intro k
    rw [dones]
    exact aligned.dones k
  signed := signed

/-- A block enters a ring with its source. -/
theorem push (aligned : Aligned cfg L P) {slot : PacketSlot} {o : Origin} (same : slot.dg = o.dg)
    (rings : L'.rings = Function.update L.rings k (L.rings k ++ [slot])) (dones : L'.dones = L.dones)
    (signed : L'.signer.isSome = true → cfg.keyed.isSome = true) (a : Anchor) :
    Aligned cfg L' { P with
      anchor := a
      ringSrcs := Function.update P.ringSrcs k (P.ringSrcs k ++ [o]) } where
  slots := by
    intro other
    rw [rings]
    dsimp only
    by_cases hsame : other = k
    · subst hsame
      rw [Function.update_self, Function.update_self, List.map_append, List.map_append,
        aligned.slots other, List.map_singleton, List.map_singleton, same]
    · rw [Function.update_of_ne hsame, Function.update_of_ne hsame]
      exact aligned.slots other
  dones := by
    intro other
    rw [dones]
    exact aligned.dones other
  signed := signed

theorem forall₂_reports {Q : Completion → Origin → Prop} {handled : List (PacketSlot × Completion)}
    {origins : List Origin} (same : handled.map (fun h => h.1.dg) = origins.map Origin.dg)
    (each : ∀ h ∈ handled, ∀ o : Origin, o.dg = h.1.dg → Q h.2 o) :
    List.Forall₂ Q (handled.map Prod.snd) origins := by
  induction handled generalizing origins with
  | nil =>
    rw [List.map_eq_nil_iff.mp same.symm]
    exact List.Forall₂.nil
  | cons h rest ih =>
    cases origins with
    | nil => cases same
    | cons o others =>
      obtain ⟨hfirst, hothers⟩ := List.cons.inj same
      exact List.Forall₂.cons (each h List.mem_cons_self o hfirst.symm)
        (ih hothers fun other member => each other (List.mem_cons_of_mem _ member))

theorem drain (aligned : Aligned cfg L P) (lane count : Nat) (failsAfter : Nat → Option Nat)
    (sh : Shared) :
    Aligned cfg (RecvLane.drainChannel cfg lane k count failsAfter sh L).2 { P with
      ringSrcs := Function.update P.ringSrcs k
        ((P.ringSrcs k).drop (min count (RecvLane.batchSize cfg L k)))
      doneSrcs := Function.update P.doneSrcs k
        (P.doneSrcs k ++ (P.ringSrcs k).take (min count (RecvLane.batchSize cfg L k))) } := by
  obtain ⟨handled, hdrained, hitems⟩ :=
    RecvLane.drainChannel_drained cfg lane k count failsAfter sh L
  constructor
  case slots =>
    intro other
    change List.map Origin.dg (Function.update P.ringSrcs k _ other) =
      List.map PacketSlot.dg (Function.update L.rings k _ other)
    by_cases hsame : other = k
    · subst hsame
      rw [Function.update_self, Function.update_self, List.map_drop, List.map_drop,
        aligned.slots other]
    · rw [Function.update_of_ne hsame, Function.update_of_ne hsame]
      exact aligned.slots other
  case dones =>
    intro other
    rw [hdrained.dones]
    dsimp only
    by_cases hsame : other = k
    · subst hsame
      rw [Function.update_self, Function.update_self]
      refine List.rel_append (aligned.dones other) (forall₂_reports ?_ ?_)
      · obtain ⟨n, hslots, _⟩ := hdrained.slots
        have hlength := congrArg List.length hitems
        rw [RecvLane.nextItems, List.length_map, List.length_map, List.length_map,
          ← List.length_map Prod.fst, hslots, List.length_take, List.length_take] at hlength
        rw [List.map_take, aligned.slots other, ← List.map_take, ← List.take_eq_take_iff.mpr hlength,
          ← hslots, List.map_map]
        rfl
      · intro h member o hdg hwritten
        rw [hdg]
        exact written_long (hdrained.reports h member) hwritten
    · rw [Function.update_of_ne hsame, Function.update_of_ne hsame]
      exact aligned.dones other
  case signed => exact aligned.signed

theorem take (aligned : Aligned cfg L P) (nowNs : Nat) :
    Aligned cfg (L.drainResults nowNs k 1)
      { P with doneSrcs := Function.update P.doneSrcs k ((P.doneSrcs k).drop 1) } := by
  have hrings : (L.drainResults nowNs k 1).rings = L.rings := by
    have hstep : ∀ M M' c rest, M.rings = L.rings → M.dones k = c :: rest →
        RecvLane.Taken k nowNs c rest M M' → M'.rings = L.rings := by
      intro M M' c rest kept _ taken
      rw [taken.rings, kept]
    exact RecvLane.drainResults_induction hstep 1 rfl
  constructor
  case slots =>
    intro other
    rw [hrings]
    exact aligned.slots other
  case dones =>
    intro other
    change List.Forall₂ _ (Function.update L.dones k ((L.dones k).drop 1) other)
      (Function.update P.doneSrcs k ((P.doneSrcs k).drop 1) other)
    by_cases hsame : other = k
    · subst hsame
      rw [Function.update_self, Function.update_self]
      exact List.forall₂_drop 1 (aligned.dones other)
    · rw [Function.update_of_ne hsame, Function.update_of_ne hsame]
      exact aligned.dones other
  case signed =>
    rw [(RecvLane.drainResults_signer L nowNs k 1).1]
    exact aligned.signed

end Aligned

/-! ## One datagram -/

variable {sent : List Sent}

namespace RecvLane

variable {cfg : RxConfig} {lane : Nat} {sh : Shared} {L : RecvLane} {inp : Inputs} {dg : List UInt8}
  {out : Shared × RecvLane × List Sent}

theorem passes_data {d : DataDatagram} (passed : passes cfg L dg = some d) :
    peekMsgType dg = some .data :=
  peekMsgType_of_checkOuter (decodeDataDatagram_some (passes_some passed).2.1).1

/-- A block that passes the checks enters its ring. -/
theorem onDatagram_passed {d : DataDatagram} (passed : passes cfg L dg = some d)
    (done : onDatagram cfg lane inp sh L dg = some out) :
    ∃ slot : PacketSlot, slot.dg = dg ∧ out.2.1.dones = L.dones ∧ out.2.2 = [] ∧
      out.2.1.rings = Function.update L.rings (route cfg d.hdr) (L.rings (route cfg d.hdr) ++ [slot]) := by
  unfold onDatagram at done
  rw [passes_data passed] at done
  rw [passed] at done
  obtain ⟨next, hnext, rfl⟩ := Option.map_eq_some_iff.mp done
  unfold dispatch at hnext
  split at hnext
  · rename_i hfits
    cases hnext
    exact ⟨⟨L.laneBase, L.shardBytes, dg, hfits⟩, rfl, rfl, rfl, rfl⟩
  · cases hnext

theorem Opened.kept {ss : StreamStart} (opened : Opened cfg lane sh L inp dg ss out) :
    out.2.1.rings = L.rings ∧ out.2.1.dones = L.dones := by
  cases opened with
  | retry | repeated | ignored | refused | unprepared | joined => exact ⟨rfl, rfl⟩

/-- Any other datagram leaves the rings alone. -/
theorem onDatagram_kept (none_passes : passes cfg L dg = none) (running : L.status = none)
    (done : onDatagram cfg lane inp sh L dg = some out) :
    out.2.1.rings = L.rings ∧ out.2.1.dones = L.dones := by
  have huntouched : ∀ M, Untouched L M → M.rings = L.rings ∧ M.dones = L.dones := by
    intro M same
    rw [same.rest]
    exact ⟨rfl, rfl⟩
  cases onDatagram_handled cfg lane sh L done with
  | ignored => exact ⟨rfl, rfl⟩
  | streamStart ss => exact (onStreamStart_opened cfg lane sh L inp dg ss running).kept
  | streamClose sc => exact huntouched _ (onStreamClose_untouched L cfg dg sc).1
  | pathProbe type pp => exact huntouched _ (onPathProbe_untouched L lane (inp.works 0) dg type pp).1
  | fileDigest dm => exact huntouched _ (onFileDigest_untouched L lane (inp.works 0) sh dg dm).1
  | block d next _ started decoded passed =>
    unfold passes at none_passes
    rw [if_pos started, decoded] at none_passes
    simp [passed] at none_passes

theorem response_other {type : MsgType} (peeked : peekMsgType dg = some type)
    (other : type ≠ .pathResponse) : L.response dg = none := by
  cases hresponse : L.response dg with
  | none => rfl
  | some value =>
    obtain ⟨pp, hdecoded, _⟩ := response_some hresponse
    rw [(decodePathProbe_some hdecoded).1] at peeked
    exact absurd (Option.some.inj peeked).symm other

theorem retries_other {type : MsgType} (peeked : peekMsgType dg = some type)
    (other : type ≠ .streamStart) (wantToken : Nat) : L.retries wantToken dg = false := by
  rw [Bool.eq_false_iff]
  intro again
  obtain ⟨ss, hdecoded, _⟩ := retries_some again
  rw [(decodeStreamStart_some hdecoded).1] at peeked
  exact absurd (Option.some.inj peeked).symm other

/-- A lane signs only under a key. -/
theorem Replied.signed {sh' : Shared} {L' : RecvLane} (replied : Replied cfg lane L sh' L' sent)
    (signed : L.signer.isSome = true → cfg.keyed.isSome = true) :
    L'.signer.isSome = true → cfg.keyed.isSome = true := by
  cases replied with
  | spoke bodies _ emits =>
    rw [emits.next, Option.isSome_map]
    exact signed
  | joined dg ss derives keys bodies _ _ _ _ authentic emits =>
    rw [emits.next, trial_signs authentic, Option.isSome_map, Option.isSome_map]
    exact id

end RecvLane

/-! ## Steps -/

variable {src : PeerAddr} {p : Probe} {dg : List UInt8} {base : RxState} {e : RxEvent}

namespace PeerState

variable {cfg : PeerConfig} {st middle next : PeerState} {lane : Nat}

/-- Everything but one lane is as it was. -/
def Elsewhere (lane : Nat) (st next : PeerState) : Prop :=
  ∀ other, other ≠ lane → next.ends other = st.ends other ∧ next.base.lanes other = st.base.lanes other

theorem Elsewhere.trans (first : Elsewhere lane st middle) (second : Elsewhere lane middle next) :
    Elsewhere lane st next := by
  intro other differs
  obtain ⟨hends, hlanes⟩ := second other differs
  rw [hends, hlanes]
  exact first other differs

theorem act_elsewhere (acted : st.base.act cfg.rx e = some (base, sent)) (P : PeerLane) :
    Elsewhere e.lane st { st.setEnd e.lane P with base := base } := by
  intro other differs
  refine ⟨setEnd_of_ne st differs P, ?_⟩
  cases RxState.act_stepped acted with
  | lane lane sh L own =>
    subst own
    exact RxState.setLane_of_ne st.base differs L
  | finish => rfl

/-- The credit of a lane is covered, and its sources stand in order. -/
structure Covered (cfg : PeerConfig) (st : PeerState) (lane : Nat) : Prop where
  aligned : Aligned cfg.rx (st.base.lanes lane) (st.ends lane)
  frugal : Frugal (cfg.prf lane) ((st.ends lane).owed (cfg.rx.writers + 1)) (st.ends lane).anchor.log

/-- It is enough to look at the end of the lane that has changed. -/
theorem covered_setEnd {P : PeerLane} (aligned : Aligned cfg.rx (base.lanes lane) P)
    (frugal : Frugal (cfg.prf lane) (P.owed (cfg.rx.writers + 1)) P.anchor.log) :
    ({ st.setEnd lane P with base := base } : PeerState).Covered cfg lane := by
  have hself : ({ st.setEnd lane P with base := base } : PeerState).ends lane = P :=
    setEnd_self st lane P
  refine ⟨?_, ?_⟩
  · rw [hself]
    exact aligned
  · rw [hself]
    exact frugal

/-- A source gets a challenge it has paid for. -/
theorem probePath_covered {n : Nat} (aligned : Aligned cfg.rx (st.base.lanes lane) (st.ends lane))
    (frugal : Frugal (cfg.prf lane) (gain ((st.ends lane).owed (cfg.rx.writers + 1)) src n)
      (st.ends lane).anchor.log)
    (pays : Echoed (cfg.prf lane) (st.ends lane).anchor.log src ∨ cfg.rx.probeSize ≤ n)
    (probed : st.probePath cfg lane src p = some next) :
    next.Covered cfg lane ∧ Elsewhere lane st next ∧
      (st.ends lane).anchor.log <+: (next.ends lane).anchor.log := by
  unfold PeerState.probePath at probed
  split at probed
  · cases probed
    refine ⟨covered_setEnd (aligned.kept rfl rfl aligned.signed _) ?_,
      fun other differs => ⟨setEnd_of_ne st differs _, rfl⟩, ?_⟩
    · exact frugal.probe p.nowNs p.drawn (Or.inr ⟨Nat.zero_le _, nofun⟩)
    · rw [onAnchor, setEnd_self]
      exact Anchor.log_probe _ _ _ _ _
  · rename_i challenge _
    obtain ⟨⟨base, sent⟩, hacted, rfl⟩ := Option.map_eq_some_iff.mp probed
    refine ⟨covered_setEnd ?_ ?_, act_elsewhere hacted _, ?_⟩
    · have hsigned : (base.lanes lane).signer.isSome = true → cfg.rx.keyed.isSome = true :=
        (RxState.act_replied hacted).signed aligned.signed
      obtain ⟨_, _, hbase, _⟩ := RxState.onLane_some hacted
      have hlane : base.lanes lane = ((st.base.lanes lane).probePath lane p.works challenge).1 := by
        rw [hbase, RxState.setLane_self]
      refine aligned.kept ?_ ?_ hsigned _
      · rw [hlane]
        rfl
      · rw [hlane]
        rfl
    · refine frugal.probe p.nowNs p.drawn (pays.imp_right fun covers => ?_)
      obtain ⟨hsize, hbrief⟩ := sendPathProbe_paid (st.base.lanes lane).signer p.works (Or.inl rfl) lane
        (st.base.lanes lane).peerNonce challenge
      rw [act_probe hacted]
      exact ⟨Nat.le_trans hsize (Nat.le_trans aligned.probe_le covers), hbrief⟩
    · rw [onAnchor, setEnd_self]
      exact Anchor.log_probe _ _ _ _ _

theorem turn_started (started : L.haveStart = true) (unanswered : L.response dg = none)
    (L' : RecvLane) (src : PeerAddr) (a : Anchor) :
    turn L L' src dg a = a := by
  rw [turn, if_neg (fun joins => by rw [started] at joins; cases joins.1), unanswered]

theorem turn_log (L L' : RecvLane) (src : PeerAddr) (dg : List UInt8) (a : Anchor) :
    a.log <+: (turn L L' src dg a).log := by
  unfold turn
  split
  · exact List.prefix_append _ _
  · split
    · unfold Anchor.respond
      split
      · exact List.prefix_append _ _
      · exact List.prefix_refl _
    · exact List.prefix_refl _

theorem turn_frugal {prf : List UInt8 → Nat} {credit : PeerAddr → Nat} {a : Anchor}
    (frugal : Frugal prf credit a.log) (L L' : RecvLane) (src : PeerAddr) (dg : List UInt8) :
    Frugal prf credit (turn L L' src dg a).log := by
  unfold turn
  split
  · exact frugal.join src
  · split
    · exact frugal.respond src _
    · exact frugal

/-- The lane handles a datagram that it has heard. -/
theorem receive_covered {inp : RecvLane.Inputs}
    (sound : (st.ends lane).anchor.Sound (cfg.prf lane) none)
    (aligned : Aligned cfg.rx (st.base.lanes lane) (st.ends lane))
    (frugal : Frugal (cfg.prf lane) (gain ((st.ends lane).owed (cfg.rx.writers + 1)) src (worth dg))
      (st.ends lane).anchor.log) (heard : .heard src dg ∈ (st.ends lane).anchor.log)
    (token : inp.wantToken = wantToken cfg lane src dg)
    (whole : Echoed (cfg.prf lane) (st.ends lane).anchor.log src ∨ (st.base.lanes lane).Whole dg)
    (received : st.receive cfg lane src inp dg = some next) :
    next.Covered cfg lane ∧ Elsewhere lane st next := by
  obtain ⟨⟨base, sent⟩, hacted, rfl⟩ := Option.map_eq_some_iff.mp received
  have hsigned : (base.lanes lane).signer.isSome = true → cfg.rx.keyed.isSome = true :=
    (RxState.act_replied hacted).signed aligned.signed
  obtain ⟨out, hdone, hrunning, hlane, rfl⟩ := act_datagram hacted
  refine ⟨?_, act_elsewhere hacted _⟩
  cases hpasses : RecvLane.passes cfg.rx (st.base.lanes lane) dg with
  | some d =>
    -- the credit of the datagram stays with the block, and nothing is sent
    obtain ⟨slot, hslot, hdones, hnone, hrings⟩ := RecvLane.onDatagram_passed hpasses hdone
    have hpeek := RecvLane.passes_data hpasses
    have honce : (st.base.lanes lane).retries inp.wantToken dg = false :=
      RecvLane.retries_other hpeek (by decide) inp.wantToken
    have hturn := turn_started (RecvLane.passes_some hpasses).1
      (RecvLane.response_other hpeek (by decide)) (base.lanes lane) src (st.ends lane).anchor
    have hinside := Nat.lt_succ_of_le (RecvLane.route_le cfg.rx d.hdr)
    refine covered_setEnd ?_ ?_
    · rw [handOut, hpasses]
      refine aligned.push hslot ?_ ?_ hsigned _
      · rw [hlane, hrings]
      · rw [hlane, hdones]
    · rw [handOut, hpasses]
      rw [hturn, if_neg (by rw [honce]; exact Bool.false_ne_true), hnone]
      have hkept := frugal.less fun a => Nat.le_of_eq (PeerLane.owed_push hinside ⟨src, dg⟩ a)
      exact hkept.gain_zero.send (Or.inr ⟨Nat.zero_le _, nofun⟩)
  | none =>
    obtain ⟨hrings, hdones⟩ := RecvLane.onDatagram_kept hpasses hrunning hdone
    refine covered_setEnd ?_ ?_
    · rw [handOut, hpasses]
      refine aligned.kept ?_ ?_ hsigned _
      · rw [hlane, hrings]
      · rw [hlane, hdones]
    · rw [handOut, hpasses]
      split
      · rename_i hagain
        obtain ⟨ss, hdecoded, _, hstart, _⟩ := RecvLane.retries_some hagain
        have hpeek := (decodeStreamStart_some hdecoded).1
        rw [turn_started hstart (RecvLane.response_other hpeek (by decide))]
        exact (frugal.less fun a => Nat.le_add_right _ _).sendPeer sound out.2.2
      · obtain ⟨more, hmore⟩ := turn_log (st.base.lanes lane) (base.lanes lane) src dg
          (st.ends lane).anchor
        refine (turn_frugal frugal _ _ src dg).send ?_
        rw [← hmore]
        by_cases hright : ∃ ss, decodeStreamStart dg = some ss ∧ ss.token = inp.wantToken
        · obtain ⟨ss, hdecoded, hsame⟩ := hright
          obtain ⟨before, after, hlog⟩ := List.append_of_mem heard
          refine Or.inl (Echoed.append ⟨before, dg, after, hlog, Or.inl ⟨ss, hdecoded, ?_⟩⟩ more)
          rw [hsame, token, wantToken, hdecoded]
          rfl
        · rw [not_exists] at hright
          exact whole.imp (·.append more) fun hwhole => RecvLane.onDatagram_paid hwhole
            (fun ss hdecoded hsame => hright ss ⟨hdecoded, hsame⟩) hdone

/-- An opening message is not answered with its own kind, whole or not. -/
theorem whole_of_start {ss : StreamStart} (decoded : decodeStreamStart dg = some ss) :
    L.Whole dg := by
  intro _ _
  rw [RecvLane.fullSize, (decodeStreamStart_some decoded).1]
  exact Nat.zero_le _

section

variable (covered : st.Covered cfg lane)
include covered

theorem Covered.onDatagram (sound : st.Sound cfg) {inp : RecvLane.Inputs}
    (whole : Echoed (cfg.prf lane) (st.ends lane).anchor.log src ∨ (st.base.lanes lane).Whole dg)
    (done : st.onDatagram cfg lane src inp dg p = some next) :
    next.Covered cfg lane ∧ Elsewhere lane st next := by
  have hheard : (st.onAnchor lane fun a => a.hear src dg).Sound cfg :=
    sound.setEnd ((sound lane).hear src dg)
  have hends : (st.onAnchor lane fun a => a.hear src dg).ends lane =
      { st.ends lane with anchor := (st.ends lane).anchor.hear src dg } := setEnd_self st lane _
  have haligned : Aligned cfg.rx (st.base.lanes lane)
      ((st.onAnchor lane fun a => a.hear src dg).ends lane) := by
    rw [hends]
    exact covered.aligned.kept rfl rfl covered.aligned.signed _
  have hfrugal : Frugal (cfg.prf lane)
      (gain (((st.onAnchor lane fun a => a.hear src dg).ends lane).owed (cfg.rx.writers + 1)) src
        (worth dg)) ((st.onAnchor lane fun a => a.hear src dg).ends lane).anchor.log := by
    rw [hends]
    exact covered.frugal.hear src dg
  have hmember : .heard src dg ∈ ((st.onAnchor lane fun a => a.hear src dg).ends lane).anchor.log := by
    rw [hends]
    exact List.mem_append_right _ List.mem_cons_self
  have helsewhere : Elsewhere lane st (st.onAnchor lane fun a => a.hear src dg) :=
    fun other differs => ⟨setEnd_of_ne st differs _, rfl⟩
  unfold PeerState.onDatagram at done
  dsimp only at done
  split at done
  · rename_i hretried
    obtain ⟨ss, hdecoded, htoken, _⟩ := RecvLane.retries_some hretried.1
    obtain ⟨middle, hprobed, hreceived⟩ := Option.bind_eq_some_iff.mp done
    have hechoed : Echoed (cfg.prf lane)
        ((st.onAnchor lane fun a => a.hear src dg).ends lane).anchor.log src := by
      obtain ⟨before, after, hlog⟩ := List.append_of_mem hmember
      refine ⟨before, dg, after, hlog, Or.inl ⟨ss, hdecoded, ?_⟩⟩
      rw [htoken, wantToken, hdecoded]
      rfl
    obtain ⟨hmiddle, hothers, more, hmore⟩ :=
      probePath_covered haligned hfrugal (Or.inl hechoed) hprobed
    have hgained := hmiddle.frugal.gain_echoed (hmore ▸ hechoed.append more) (worth dg)
    obtain ⟨hnext, hrest⟩ := receive_covered ((hheard.probePath hprobed) lane) hmiddle.aligned hgained
      (hmore ▸ List.mem_append_left more hmember) rfl (Or.inr (whole_of_start hdecoded)) hreceived
    exact ⟨hnext, (helsewhere.trans hothers).trans hrest⟩
  · have hwhole : Echoed (cfg.prf lane)
        ((st.onAnchor lane fun a => a.hear src dg).ends lane).anchor.log src ∨
          (st.base.lanes lane).Whole dg := by
      rw [hends]
      exact whole.imp_left fun echoed => echoed.append _
    obtain ⟨hnext, hrest⟩ := receive_covered (hheard lane) haligned hfrugal hmember rfl hwhole done
    exact ⟨hnext, helsewhere.trans hrest⟩

theorem Covered.onConsumer {k count : Nat} {failsAfter : Nat → Option Nat}
    (done : st.onConsumer cfg lane k count failsAfter = some next) :
    next.Covered cfg lane ∧ Elsewhere lane st next := by
  obtain ⟨⟨base, sent⟩, hacted, rfl⟩ := Option.map_eq_some_iff.mp done
  refine ⟨?_, act_elsewhere hacted _⟩
  obtain ⟨hguard, hacted⟩ := Option.ite_none_right_eq_some.mp hacted
  obtain ⟨rfl, _⟩ := Prod.mk.inj (Option.some.inj hacted)
  constructor
  case aligned =>
    rw [setEnd_self, RxState.setLane_self]
    exact covered.aligned.drain lane count failsAfter st.base.shared
  case frugal =>
    rw [setEnd_self]
    exact covered.frugal.less fun a =>
      Nat.le_of_eq (PeerLane.owed_move (Nat.lt_succ_of_le hguard.2.1) _ a)

/-- The reader has taken a verdict; the credit of its block is free. -/
theorem Covered.pop {k nowNs : Nat} {origin : Origin} {origins : List Origin}
    (head : (st.ends lane).doneSrcs k = origin :: origins)
    (acted : st.base.act cfg.rx (.results lane k 1 nowNs) = some (base, sent)) :
    let popped : PeerState :=
      { st.setEnd lane { st.ends lane with
          doneSrcs := Function.update (st.ends lane).doneSrcs k (((st.ends lane).doneSrcs k).drop 1) } with
        base := base }
    Aligned cfg.rx (popped.base.lanes lane) (popped.ends lane) ∧
      Frugal (cfg.prf lane)
        (gain ((popped.ends lane).owed (cfg.rx.writers + 1)) origin.src (worth origin.dg))
        (popped.ends lane).anchor.log ∧
      Elsewhere lane st popped := by
  have hresults := acted
  rw [RxState.act] at hresults
  obtain ⟨_, hinside, hbase, _⟩ := RxState.onLane_some hresults
  refine ⟨?_, ?_, act_elsewhere acted _⟩
  · rw [setEnd_self, hbase, RxState.setLane_self]
    exact covered.aligned.take nowNs
  · rw [setEnd_self]
    refine covered.frugal.less fun a => Nat.le_of_eq ?_
    rw [show ((st.ends lane).doneSrcs k).drop 1 = origins from by rw [head]; rfl]
    exact PeerLane.owed_pop (Nat.lt_succ_of_le (of_decide_eq_true hinside)) head a

theorem Covered.onResult {k nowNs : Nat} (done : st.onResult cfg lane k nowNs p = some next) :
    next.Covered cfg lane ∧ Elsewhere lane st next := by
  unfold PeerState.onResult at done
  split at done
  · rename_i c origin hc horigin
    obtain ⟨⟨base, sent⟩, hacted, hrest⟩ := Option.bind_eq_some_iff.mp done
    obtain ⟨dones, hdones⟩ := List.head?_eq_some_iff.mp hc
    obtain ⟨origins, horigins⟩ := List.head?_eq_some_iff.mp horigin
    have hpaid : c.result = .written → cfg.rx.probeSize ≤ worth origin.dg := by
      have hall := covered.aligned.dones k
      rw [hdones, horigins] at hall
      exact (List.forall₂_cons.mp hall).1
    obtain ⟨haligned, hfrugal, helsewhere⟩ := covered.pop horigins hacted
    dsimp only at hrest
    split at hrest
    · rename_i haccepts
      have hwritten : c.result = .written := by
        have haccepted := haccepts.1
        exact of_decide_eq_true (Bool.and_eq_true_iff.mp haccepted).1
      obtain ⟨hnext, hothers, _⟩ := probePath_covered haligned hfrugal (Or.inr (hpaid hwritten)) hrest
      exact ⟨hnext, helsewhere.trans hothers⟩
    · cases hrest
      exact ⟨⟨haligned, hfrugal.less fun a => Nat.le_add_right _ _⟩, helsewhere⟩
  · cases done

end

/-- What a reader does of itself touches no block. -/
theorem act_unprompted (own : e.unprompted = true)
    (acted : st.base.act cfg.rx e = some (base, sent)) :
    (base.lanes e.lane).rings = (st.base.lanes e.lane).rings ∧
      (base.lanes e.lane).dones = (st.base.lanes e.lane).dones := by
  cases RxState.act_stepped acted with
  | finish => exact ⟨rfl, rfl⟩
  | lane lane sh L here inside moved =>
    cases moved with
    | quiet _ digest _ same =>
      subst here
      rw [RxState.setLane_self, same.rest]
      exact ⟨rfl, rfl⟩
    | unprepared | joined | handedOut | drained | verdicts => cases own

theorem Covered.own (covered : st.Covered cfg e.lane) (sound : st.Sound cfg)
    (own : e.unprompted = true) (acted : st.base.act cfg.rx e = some (base, sent)) :
    ({ st.onAnchor e.lane (fun a => a.sendPeer sent) with base := base } : PeerState).Covered cfg e.lane := by
  obtain ⟨hrings, hdones⟩ := act_unprompted own acted
  constructor
  case aligned =>
    change Aligned cfg.rx (base.lanes e.lane) ((st.setEnd e.lane _).ends e.lane)
    rw [setEnd_self]
    exact covered.aligned.kept hrings hdones
      ((RxState.act_replied acted).signed covered.aligned.signed) _
  case frugal =>
    change Frugal _ (((st.setEnd e.lane _).ends e.lane).owed _)
      ((st.setEnd e.lane _).ends e.lane).anchor.log
    rw [setEnd_self]
    exact covered.frugal.sendPeer (sound e.lane) sent

theorem covered_of_elsewhere (covered : ∀ other, st.Covered cfg other)
    (changed : next.Covered cfg lane ∧ Elsewhere lane st next) : ∀ other, next.Covered cfg other := by
  intro other
  by_cases hsame : other = lane
  · rw [hsame]
    exact changed.1
  · obtain ⟨hends, hlanes⟩ := changed.2 other hsame
    obtain ⟨haligned, hfrugal⟩ := covered other
    constructor
    · rw [hends, hlanes]
      exact haligned
    · rw [hends]
      exact hfrugal

/-- Under a key, no authentic message of a source that has echoed nothing is cut short. -/
def Whole (cfg : PeerConfig) (st : PeerState) : PeerEvent → Prop
  | .datagram lane src _ dg _ =>
    Echoed (cfg.prf lane) (st.ends lane).anchor.log src ∨ (st.base.lanes lane).Whole dg
  | _ => True

theorem covered_step (covered : ∀ lane, st.Covered cfg lane) (sound : st.Sound cfg) {event : PeerEvent}
    (whole : st.Whole cfg event) (steps : st.step cfg event = some next) : ∀ lane, next.Covered cfg lane := by
  cases event with
  | datagram lane src inp dg probe =>
    exact covered_of_elsewhere covered ((covered lane).onDatagram sound whole steps)
  | consumer lane k count failsAfter =>
    exact covered_of_elsewhere covered ((covered lane).onConsumer steps)
  | result lane k nowNs probe =>
    exact covered_of_elsewhere covered ((covered lane).onResult steps)
  | own e =>
    obtain ⟨hown, steps⟩ := Option.ite_none_right_eq_some.mp steps
    obtain ⟨⟨base, sent⟩, hacted, rfl⟩ := Option.map_eq_some_iff.mp steps
    exact covered_of_elsewhere covered
      ⟨(covered e.lane).own sound hown hacted, act_elsewhere hacted _⟩

/-- Every lane knows its peer and covers the credit it has given. -/
structure Solvent (cfg : PeerConfig) (st : PeerState) : Prop where
  sound : st.Sound cfg
  covered : ∀ lane, st.Covered cfg lane

theorem create_covered (cfg : PeerConfig) (sink : Sink) (lane : Nat) :
    (create sink).Covered cfg lane where
  aligned := Aligned.create cfg.rx lane
  frugal := by
    refine (Frugal.nil (cfg.prf lane)).less fun a => Nat.le_of_eq ?_
    change weigh a (contents _ fun _ => []) + weigh a (contents _ fun _ => []) = 0
    rw [contents_empty]
    rfl

end PeerState

/-- As long as an address has not echoed a token or a challenge, it is sent no more bytes than
came from it, all of them in short messages. -/
theorem no_amplification {cfg : PeerConfig} {sink : Sink} {run : List PeerEvent} {st : PeerState}
    (reached : replay (PeerState.step cfg) (PeerState.create sink) run = some st)
    (whole : Along (PeerState.step cfg) (PeerState.Whole cfg) (PeerState.create sink) run) (lane : Nat)
    {a : PeerAddr} (silent : ¬ Echoed (cfg.prf lane) (st.ends lane).anchor.log a) :
    bytesTo (st.ends lane).anchor.log a ≤ bytesFrom (st.ends lane).anchor.log a ∧
      ∀ s, .sent a s ∈ (st.ends lane).anchor.log → s.Brief := by
  have hsolvent : st.Solvent cfg := by
    refine replay_preserves_along (fun _ _ _ solvent meets steps => ?_) reached whole ?_
    · exact ⟨solvent.sound.step steps,
        PeerState.covered_step solvent.covered solvent.sound meets steps⟩
    · exact ⟨fun lane => Anchor.Sound.create (cfg.prf lane) none, PeerState.create_covered cfg sink⟩
  obtain ⟨hbytes, hkinds⟩ := (hsolvent.covered lane).frugal
  exact ⟨Nat.le_trans (Nat.le_add_right _ _) (hbytes a silent), fun s => hkinds a s silent⟩

/-- A datagram that carries no token of the address and no response. -/
def carriesNothing (prf : List UInt8 → Nat) (a : PeerAddr) (dg : List UInt8) : Bool :=
  (decodeStreamStart dg).all (fun ss => ss.token ≠ addressToken prf a ss.nonce) &&
    (decodePathProbe .pathResponse dg).isNone

def Happening.harmless (prf : List UInt8 → Nat) (a : PeerAddr) : Happening → Bool
  | .heard src dg => src ≠ a || carriesNothing prf a dg
  | _ => true

theorem not_echoed {prf : List UInt8 → Nat} {log : List Happening} {a : PeerAddr}
    (harmless : log.all (Happening.harmless prf a) = true) : ¬ Echoed prf log a := by
  rintro ⟨before, dg, after, rfl, hechoes⟩
  have hheard := List.all_eq_true.mp harmless (.heard a dg) (List.mem_append_right _ List.mem_cons_self)
  simp only [Happening.harmless, carriesNothing, ne_eq, not_true_eq_false, decide_false, Bool.false_or,
    Bool.and_eq_true] at hheard
  rcases hechoes with ⟨ss, hdecoded, htoken⟩ | ⟨pp, hdecoded, _⟩
  · rw [hdecoded] at hheard
    exact of_decide_eq_true hheard.1 htoken
  · rw [hdecoded] at hheard
    cases hheard.2

/-- No datagram is cut short, whoever sent it. -/
def PeerState.full (st : PeerState) : PeerEvent → Bool
  | .datagram lane _ _ dg _ => (st.base.lanes lane).signer.isNone || RecvLane.fullSize dg ≤ dg.length
  | _ => true

theorem PeerState.whole_of_full {cfg : PeerConfig} {st : PeerState} {e : PeerEvent}
    (full : st.full e = true) : st.Whole cfg e := by
  cases e with
  | datagram lane src inp dg probe =>
    refine Or.inr fun hsigned _ => ?_
    rcases Bool.or_eq_true _ _ ▸ full with hplain | hlong
    · rw [Option.isNone_iff_eq_none.mp hplain] at hsigned
      cases hsigned
    · exact of_decide_eq_true hlong
  | _ => trivial

/-- A signed challenge of the sender, with its first `size` bytes in front of the signature. -/
def keyedChallenge (size : Nat) : List UInt8 :=
  let body := (pathProbeBytes .pathChallenge ⟨0, keyedSession.send.nonce 0, 5⟩).take size
  match keyedSender.signer with
  | some g => ControlAuth.trailed g.backend g.auth.key body g.auth.lane g.auth.nextCtr g.auth.dir
  | none => body

/-- The sender opens from one port; another port, without a token, asks for a response. -/
def challenged (size : Nat) : List PeerEvent :=
  keyedOpening.map (fun s => .datagram 0 (host 1) {} s.bytes {}) ++
    [.datagram 0 (host 2) {} (keyedChallenge size) {}]

theorem no_amplification_challenged : ∃ st,
    replay (PeerState.step keyedPeer) (PeerState.create { kind := .memory }) (challenged 20) = some st ∧
    bytesTo (st.ends 0).anchor.log (host 2) = 44 ∧
    bytesTo (st.ends 0).anchor.log (host 2) ≤ bytesFrom (st.ends 0).anchor.log (host 2) ∧
    ∀ s, .sent (host 2) s ∈ (st.ends 0).anchor.log → s.Brief := by
  obtain ⟨st, hreplay, hharmless, hbytes⟩ : ∃ st,
      replay (PeerState.step keyedPeer) (PeerState.create { kind := .memory }) (challenged 20) =
        some st ∧ (st.ends 0).anchor.log.all (Happening.harmless (keyedPeer.prf 0) (host 2)) = true ∧
        bytesTo (st.ends 0).anchor.log (host 2) = 44 := by decide +kernel
  have hfull : Along (PeerState.step keyedPeer) (fun st e => st.full e = true)
      (PeerState.create { kind := .memory }) (challenged 20) := by decide +kernel
  exact ⟨st, hreplay, hbytes, no_amplification hreplay (along_mono (fun _ _ => PeerState.whole_of_full) hfull) 0 (not_echoed hharmless)⟩

/-- A signed challenge of 12 bytes, whose signature is read as the rest of it, is answered with
a whole one. -/
theorem amplified_short_challenge : ∃ st,
    replay (PeerState.step keyedPeer) (PeerState.create { kind := .memory }) (challenged 12) = some st ∧
    ¬ Echoed (keyedPeer.prf 0) (st.ends 0).anchor.log (host 2) ∧
    bytesFrom (st.ends 0).anchor.log (host 2) = 36 ∧ bytesTo (st.ends 0).anchor.log (host 2) = 44 := by
  obtain ⟨st, hreplay, hharmless, hfrom, hto⟩ : ∃ st,
      replay (PeerState.step keyedPeer) (PeerState.create { kind := .memory }) (challenged 12) =
        some st ∧ (st.ends 0).anchor.log.all (Happening.harmless (keyedPeer.prf 0) (host 2)) = true ∧
        bytesFrom (st.ends 0).anchor.log (host 2) = 36 ∧
        bytesTo (st.ends 0).anchor.log (host 2) = 44 := by decide +kernel
  exact ⟨st, hreplay, not_echoed hharmless, hfrom, hto⟩

end FuseTransport.Transfer
