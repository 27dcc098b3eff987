import FuseTransport.Transfer.Coverage
import FuseTransport.Transfer.Walk

/-!
# A transfer session

Both ends of a transfer, configured with the same lanes and the same pre-shared key,
and the network between them.  The network alters and injects nothing: what was sent
on a lane may arrive at the other end of that lane at any time, any number of times,
or never.
-/

namespace FuseTransport.Transfer

open Foundation.Runs Proto

/-- What the two calls are given; the lanes and the key of the receiver are those of
the sender. -/
structure SessionConfig where
  send : SendConfig
  writerThreads : Nat := 1
  ringSlots : Nat := 16
  kind : SinkKind := .memory
  prior : Option Prior := none

def SessionConfig.recv (cfg : SessionConfig) : RxConfig where
  lanes := cfg.send.lanes
  lanes_pos := cfg.send.lanes_pos
  lanes_fit := cfg.send.lanes_fit
  writerThreads := cfg.writerThreads
  ringSlots := cfg.ringSlots
  keyed := cfg.send.keyed

/-- Both ends, and for each lane everything ever sent towards the receiver and towards
the sender. -/
structure Session where
  rx : RxState
  tx : Nat → SendLane
  forward : Nat → List Sent := fun _ => []
  backward : Nat → List Sent := fun _ => []

inductive SessionEvent where
  | receiver (e : RxEvent)
  | sender (lane : Nat) (e : TxEvent)

def RxEvent.arrives (forward : Nat → List Sent) : RxEvent → Bool
  | .datagram lane _ dg => (forward lane).any fun s => s.bytes = dg
  | _ => true

def TxEvent.arrives (backward : List Sent) : TxEvent → Bool
  | .receive dg _ _ => backward.any fun s => s.bytes = dg
  | _ => true

namespace Session

def create (cfg : SessionConfig) : Session where
  rx := RxState.create { kind := cfg.kind, prior := cfg.prior }
  tx := SendLane.create cfg.send

/-- The receiver has taken a step. -/
def received (st : Session) (lane : Nat) (out : RxState × List Sent) : Session :=
  { st with
    rx := out.1
    backward := Function.update st.backward lane (st.backward lane ++ out.2) }

/-- A lane of the sender has taken a step. -/
def sent (st : Session) (lane : Nat) (out : SendLane × List Sent) : Session :=
  { st with
    tx := Function.update st.tx lane out.1
    forward := Function.update st.forward lane (st.forward lane ++ out.2) }

/-- One step of some thread of one of the ends. -/
def step (cfg : SessionConfig) (st : Session) : SessionEvent → Option Session
  | .receiver e =>
    if e.arrives st.forward then (st.rx.act cfg.recv e).map (st.received e.lane) else none
  | .sender lane e =>
    if lane < cfg.send.lanes ∧ e.arrives (st.backward lane) then
      ((st.tx lane).act cfg.send lane e).map (st.sent lane)
    else none

inductive Stepped (cfg : SessionConfig) (st : Session) : SessionEvent → Session → Prop where
  | receiver (e : RxEvent) (rx : RxState) (sent : List Sent)
      (arrived : ∀ lane inp dg, e = .datagram lane inp dg → ∃ s ∈ st.forward lane, s.bytes = dg)
      (stepped : RxState.Stepped cfg.recv st.rx e rx)
      (replied : RecvLane.Replied cfg.recv e.lane (st.rx.lanes e.lane) rx.shared (rx.lanes e.lane)
        sent) :
      Stepped cfg st (.receiver e) (st.received e.lane (rx, sent))
  | sender (lane : Nat) (e : TxEvent) (L : SendLane) (sent : List Sent)
      (inside : lane < cfg.send.lanes)
      (arrived : ∀ dg works wireNs, e = .receive dg works wireNs →
        ∃ s ∈ st.backward lane, s.bytes = dg)
      (moved : SendLane.Moved cfg.send lane (st.tx lane) e L sent) :
      Stepped cfg st (.sender lane e) (st.sent lane (L, sent))

theorem arrived_of_any {wire : List Sent} {dg : List UInt8}
    (any : wire.any (fun s => s.bytes = dg) = true) : ∃ s ∈ wire, s.bytes = dg := by
  obtain ⟨s, member, same⟩ := List.any_eq_true.mp any
  exact ⟨s, member, of_decide_eq_true same⟩

theorem step_stepped {cfg : SessionConfig} {st st' : Session} {e : SessionEvent}
    (moved : st.step cfg e = some st') : Stepped cfg st e st' := by
  cases e with
  | receiver e =>
    obtain ⟨harrives, moved⟩ := Option.ite_none_right_eq_some.mp moved
    obtain ⟨⟨rx, sent⟩, hact, hnext⟩ := Option.map_eq_some_iff.mp moved
    rw [← hnext]
    refine .receiver e rx sent ?_ (RxState.act_stepped hact) (RxState.act_replied hact)
    rintro lane inp dg rfl
    exact arrived_of_any harrives
  | sender lane e =>
    obtain ⟨hguard, moved⟩ := Option.ite_none_right_eq_some.mp moved
    obtain ⟨⟨L, sent⟩, hact, hnext⟩ := Option.map_eq_some_iff.mp moved
    rw [← hnext]
    refine .sender lane e L sent hguard.1 ?_ (SendLane.act_moved hact)
    rintro dg works wireNs rfl
    exact arrived_of_any hguard.2

end Session

end FuseTransport.Transfer
