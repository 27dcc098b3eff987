import FuseTransport.Foundation.Runs
import FuseTransport.Transfer.SendLane

/-!
# How large a block may be

A lane starts with the configured block size and doubles it after a run of confirmed
batches, up to what one datagram of the route holds.  A loss takes it back to the
configured size; a loss right behind a growth step also makes the size before that step
the ceiling, for a clean stretch that gets longer with each such failure.
-/

namespace FuseTransport.Transfer

open Foundation.Runs Proto

/-- The route to the receiver.  Its MTU is zero when it is not known. -/
structure Route where
  mtu : UInt16
  ipv6 : Bool
  deriving DecidableEq, Repr

def ipUdpOverhead (route : Route) : Nat := if route.ipv6 then 40 + 8 else 20 + 8

namespace SendConfig

variable (cfg : SendConfig)

/-- The size at which a lane starts and to which it falls back. -/
def baseBlock : Nat := min cfg.blockSize.toNat cfg.blockCeiling

def tagBytes : Nat := if cfg.keyed.isSome then kAeadTagLen else 0

/-- What a datagram on the route has more than its payload. -/
def overhead (route : Route) : Nat := ipUdpOverhead route + kDataPrefixSize + cfg.tagBytes

/-- What one datagram of the route holds, and no less than the configured size. -/
def mtuCeiling (route : Route) : Nat :=
  if cfg.overhead route < route.mtu.toNat then
    max cfg.baseBlock (min cfg.blockCeiling (route.mtu.toNat - cfg.overhead route))
  else cfg.baseBlock

theorem baseBlock_pos (sized : 0 < cfg.blockSize.toNat) : 0 < cfg.baseBlock := by
  have hceiling : 0 < cfg.blockCeiling := by
    unfold blockCeiling
    split <;> decide
  exact Nat.lt_min.mpr ⟨sized, hceiling⟩

theorem baseBlock_le_mtuCeiling (route : Route) : cfg.baseBlock ≤ cfg.mtuCeiling route := by
  unfold mtuCeiling
  split
  · exact Nat.le_max_left _ _
  · exact Nat.le_refl _

theorem mtuCeiling_le_blockCeiling (route : Route) : cfg.mtuCeiling route ≤ cfg.blockCeiling := by
  have hbase : cfg.baseBlock ≤ cfg.blockCeiling := Nat.min_le_right _ _
  unfold mtuCeiling
  split
  · exact Nat.max_le.mpr ⟨hbase, Nat.min_le_left _ _⟩
  · exact hbase

/-- A payload within the ceiling fits the route, or needs no more than the configured size. -/
theorem datagram_le (route : Route) {len : Nat} (within : len ≤ cfg.mtuCeiling route) :
    cfg.overhead route + len ≤ max route.mtu.toNat (cfg.overhead route + cfg.baseBlock) := by
  unfold mtuCeiling at within
  split at within <;> omega

end SendConfig

/-! ## Growing and falling back -/

def kCleanBatchesToGrow : Nat := 8

def u32 (n : Nat) : Nat := n % 2 ^ 32

/-- The variables that decide the block size.  `preGrowthBlock` is zero when no growth
step is pending. -/
structure BlockSizing where
  block : Nat
  growthCeiling : Nat
  preGrowthBlock : Nat := 0
  cleanSinceGrowth : Nat := 0
  reprobeAfter : Nat := 64
  cleanAtCeiling : Nat := 0
  cleanBatches : Nat := 0
  deriving DecidableEq, Repr

namespace BlockSizing

section Sizing

variable (cfg : SendConfig) (route : Route)

def create : BlockSizing where
  block := cfg.baseBlock
  growthCeiling := cfg.mtuCeiling route

variable (s : BlockSizing)

/-- An acknowledgement moved the base.  A long clean stretch at a lowered ceiling lifts it. -/
def onAdvance : BlockSizing :=
  let s := { s with cleanSinceGrowth := u32 (s.cleanSinceGrowth + 1) }
  if s.growthCeiling < cfg.mtuCeiling route then
    if u32 (s.cleanAtCeiling + 1) ≥ s.reprobeAfter then
      { s with growthCeiling := cfg.mtuCeiling route, cleanAtCeiling := 0 }
    else { s with cleanAtCeiling := u32 (s.cleanAtCeiling + 1) }
  else s

def holdBelow : BlockSizing :=
  if s.preGrowthBlock ≠ 0 ∧ s.cleanSinceGrowth < kCleanBatchesToGrow then
    { s with
      growthCeiling := s.preGrowthBlock
      reprobeAfter := min (s.reprobeAfter * 2) 4096 }
  else s

def onLoss : BlockSizing :=
  { s.holdBelow with
    cleanAtCeiling := 0
    preGrowthBlock := 0
    block := cfg.baseBlock
    cleanBatches := 0 }

/-- One more clean batch, and a growth step when there were enough of them. -/
def grow : BlockSizing :=
  let s := { s with cleanBatches := u32 (s.cleanBatches + 1) }
  if s.cleanBatches ≥ kCleanBatchesToGrow ∧ s.block < s.growthCeiling then
    { s with
      cleanBatches := 0
      preGrowthBlock := s.block
      cleanSinceGrowth := 0
      block := min s.growthCeiling (s.block * 2) }
  else s

/-- The end of one turn of the sending loop. -/
def turn (advanced lossSeen : Bool) : BlockSizing :=
  let s := if advanced then s.onAdvance cfg route else s
  if lossSeen then s.onLoss cfg else if advanced then s.grow else s

end Sizing

/-- The sizes stay between the configured one and what the route holds. -/
structure Within (cfg : SendConfig) (route : Route) (s : BlockSizing) : Prop where
  base : cfg.baseBlock ≤ s.block
  block : s.block ≤ s.growthCeiling
  ceiling : s.growthCeiling ≤ cfg.mtuCeiling route
  pre : s.preGrowthBlock ≠ 0 → cfg.baseBlock ≤ s.preGrowthBlock ∧ s.preGrowthBlock ≤ s.growthCeiling

section Within

variable {cfg : SendConfig} {route : Route} {s : BlockSizing}

theorem create_within : (create cfg route).Within cfg route :=
  ⟨Nat.le_refl _, cfg.baseBlock_le_mtuCeiling route, Nat.le_refl _, fun pending => absurd rfl pending⟩

section

variable (within : s.Within cfg route)
include within

theorem Within.onAdvance : (s.onAdvance cfg route).Within cfg route := by
  obtain ⟨hbase, hblock, hceiling, hpre⟩ := within
  unfold BlockSizing.onAdvance
  dsimp only
  split
  · split
    · exact ⟨hbase, Nat.le_trans hblock hceiling, Nat.le_refl _,
        fun pending => ⟨(hpre pending).1, Nat.le_trans (hpre pending).2 hceiling⟩⟩
    · exact ⟨hbase, hblock, hceiling, hpre⟩
  · exact ⟨hbase, hblock, hceiling, hpre⟩

theorem Within.onLoss : (s.onLoss cfg).Within cfg route := by
  obtain ⟨hbase, hblock, hceiling, hpre⟩ := within
  unfold BlockSizing.onLoss holdBelow
  split
  · rename_i hfailed
    obtain ⟨hlow, hhigh⟩ := hpre hfailed.1
    exact ⟨Nat.le_refl _, hlow, Nat.le_trans hhigh hceiling, fun pending => absurd rfl pending⟩
  · exact ⟨Nat.le_refl _, Nat.le_trans hbase hblock, hceiling, fun pending => absurd rfl pending⟩

theorem Within.grow : s.grow.Within cfg route := by
  obtain ⟨hbase, hblock, hceiling, hpre⟩ := within
  unfold BlockSizing.grow
  dsimp only
  split
  · refine ⟨?_, Nat.min_le_left _ _, hceiling, fun _ => ⟨hbase, hblock⟩⟩
    change cfg.baseBlock ≤ min s.growthCeiling (s.block * 2)
    omega
  · exact ⟨hbase, hblock, hceiling, hpre⟩

theorem Within.turn (advanced lossSeen : Bool) :
    (s.turn cfg route advanced lossSeen).Within cfg route := by
  cases advanced with
  | true =>
    cases lossSeen with
    | true => exact within.onAdvance.onLoss
    | false => exact within.onAdvance.grow
  | false =>
    cases lossSeen with
    | true => exact within.onLoss
    | false => exact within

end

end Within

end BlockSizing

/-! ## Failed growth -/

/-- One turn of the sending loop: whether an acknowledgement moved the base in it, and
whether a loss was reported in it. -/
structure Turn where
  advanced : Bool
  lossSeen : Bool
  deriving DecidableEq, Repr

/-- The size before a growth step, the advances since then, and whether a loss was seen
since then. -/
structure Growth where
  size : Nat
  advances : Nat := 0
  lost : Bool := false
  deriving DecidableEq, Repr

/-- The block size along a run of turns.  The code does not keep the rest: the advances
since the last loss, the last growth step, and how many growth steps have failed. -/
structure SizeHistory where
  sizing : BlockSizing
  advances : Nat := 0
  grown : Option Growth := none
  failures : Nat := 0
  deriving DecidableEq, Repr

namespace SizeHistory

section History

variable (cfg : SendConfig) (route : Route)

def create : SizeHistory where
  sizing := BlockSizing.create cfg route

variable (h : SizeHistory)

def advance : SizeHistory :=
  { h with
    sizing := h.sizing.onAdvance cfg route
    advances := h.advances + 1
    grown := h.grown.map fun g => { g with advances := g.advances + 1 } }

/-- The last growth step is fewer than eight advances old and no loss was seen since. -/
def fresh : Bool :=
  h.grown.any fun g => !g.lost && g.advances < kCleanBatchesToGrow

def lose : SizeHistory where
  sizing := h.sizing.onLoss cfg
  advances := 0
  grown := h.grown.map fun g => { g with lost := true }
  failures := h.failures + if h.fresh then 1 else 0

def grow : SizeHistory :=
  { h with
    sizing := h.sizing.grow
    grown := if h.sizing.block < h.sizing.grow.block then some ⟨h.sizing.block, 0, false⟩ else h.grown }

/-- The history when the advance of a turn has been counted. -/
def counted (t : Turn) : SizeHistory :=
  if t.advanced then h.advance cfg route else h

def turn (t : Turn) : SizeHistory :=
  if t.lossSeen then (h.counted cfg route t).lose cfg
  else if t.advanced then (h.counted cfg route t).grow else h.counted cfg route t

/-- The turn sees a loss fewer than eight advances after a growth step from `size`. -/
def FailsFrom (t : Turn) (size : Nat) : Prop :=
  t.lossSeen = true ∧
    ∃ g, (h.counted cfg route t).grown = some g ∧ g.size = size ∧ g.advances < kCleanBatchesToGrow

/-- The advances without a loss after which a larger size is tried again: 64 at first,
doubled by each failure, up to 4096. -/
def reprobe : Nat := min (64 * 2 ^ h.failures) 4096

/-- The turn is at least that many advances behind the last loss before it. -/
def Due (t : Turn) : Prop := t.advanced = true ∧ h.reprobe ≤ h.advances + 1

instance  (t : Turn) : Decidable (h.Due t) := inferInstanceAs (Decidable (_ ∧ _))

end History

/-- What the variables of the code say about the history. -/
structure Inv (cfg : SendConfig) (route : Route) (h : SizeHistory) : Prop where
  within : h.sizing.Within cfg route
  reprobe : h.reprobe ≤ h.sizing.reprobeAfter
  capped : h.sizing.reprobeAfter ≤ 4096
  stretch : h.sizing.cleanAtCeiling ≤ h.advances
  short : h.sizing.cleanAtCeiling < 4096
  pending : h.sizing.preGrowthBlock ≠ 0 → ∃ g, h.grown = some g ∧ g.lost = false
  growth : ∀ g, h.grown = some g → g.lost = false →
    h.sizing.preGrowthBlock ≠ 0 ∧ h.sizing.preGrowthBlock = g.size ∧
      h.sizing.cleanSinceGrowth = u32 g.advances
  behind : ∀ g, h.grown = some g → g.lost = true → h.advances ≤ g.advances
  held : ∀ g, h.grown = some g → g.lost = true → g.advances < kCleanBatchesToGrow →
    h.sizing.growthCeiling ≤ g.size

section Inv

variable {cfg : SendConfig} {route : Route} {h : SizeHistory}

theorem create_inv : (create cfg route).Inv cfg route where
  within := BlockSizing.create_within
  reprobe := Nat.min_le_left _ _
  capped := Nat.le_of_ble_eq_true rfl
  stretch := Nat.zero_le _
  short := Nat.succ_pos _
  pending := fun pending => absurd rfl pending
  growth := nofun
  behind := nofun
  held := nofun

theorem reprobe_ge (h : SizeHistory) : 64 ≤ h.reprobe := by
  have hpos : 1 ≤ 2 ^ h.failures := Nat.one_le_two_pow
  unfold reprobe
  omega

theorem Inv.word (inv : h.Inv cfg route) :
    u32 (h.sizing.cleanAtCeiling + 1) = h.sizing.cleanAtCeiling + 1 := by
  have hshort := inv.short
  unfold u32
  omega

theorem onAdvance_frame (cfg : SendConfig) (route : Route) (s : BlockSizing) :
    (s.onAdvance cfg route).block = s.block ∧
      (s.onAdvance cfg route).preGrowthBlock = s.preGrowthBlock ∧
      (s.onAdvance cfg route).reprobeAfter = s.reprobeAfter ∧
      (s.onAdvance cfg route).cleanSinceGrowth = u32 (s.cleanSinceGrowth + 1) := by
  unfold BlockSizing.onAdvance
  dsimp only
  split
  · split <;> exact ⟨rfl, rfl, rfl, rfl⟩
  · exact ⟨rfl, rfl, rfl, rfl⟩

/-- The ceiling is lifted only after a long clean stretch. -/
theorem Inv.ceiling_onAdvance (inv : h.Inv cfg route) :
    (h.sizing.onAdvance cfg route).growthCeiling = h.sizing.growthCeiling ∨
      h.reprobe ≤ h.advances + 1 := by
  have hreprobe := inv.reprobe
  have hstretch := inv.stretch
  unfold BlockSizing.onAdvance
  dsimp only
  rw [inv.word]
  split
  · split
    · exact Or.inr (by omega)
    · exact Or.inl rfl
  · exact Or.inl rfl

theorem Inv.cleanAtCeiling_onAdvance (inv : h.Inv cfg route) :
    (h.sizing.onAdvance cfg route).cleanAtCeiling ≤ h.sizing.cleanAtCeiling + 1 ∧
      (h.sizing.onAdvance cfg route).cleanAtCeiling < 4096 := by
  have hcapped := inv.capped
  have hshort := inv.short
  unfold BlockSizing.onAdvance
  dsimp only
  rw [inv.word]
  split
  · split
    · exact ⟨Nat.zero_le _, Nat.succ_pos _⟩
    · rename_i hwaits
      exact ⟨Nat.le_refl _, Nat.lt_of_lt_of_le (Nat.lt_of_not_le hwaits) hcapped⟩
  · exact ⟨Nat.le_succ _, hshort⟩

theorem Inv.advance (inv : h.Inv cfg route) : (h.advance cfg route).Inv cfg route := by
  obtain ⟨_, hpre, hafter, hsince⟩ := onAdvance_frame cfg route h.sizing
  obtain ⟨hstretch, hshort⟩ := inv.cleanAtCeiling_onAdvance
  constructor
  case within => exact inv.within.onAdvance
  case reprobe => exact Nat.le_trans inv.reprobe (Nat.le_of_eq hafter.symm)
  case capped => exact Nat.le_trans (Nat.le_of_eq hafter) inv.capped
  case stretch => exact Nat.le_trans hstretch (Nat.succ_le_succ inv.stretch)
  case short => exact hshort
  case pending =>
    intro pending
    obtain ⟨g, hgrown, hlost⟩ := inv.pending (hpre ▸ pending)
    exact ⟨{ g with advances := g.advances + 1 }, Option.map_eq_some_iff.mpr ⟨g, hgrown, rfl⟩, hlost⟩
  case growth =>
    intro g hg hlost
    obtain ⟨g, hgrown, rfl⟩ := Option.map_eq_some_iff.mp hg
    obtain ⟨hpending, hsize, hadvances⟩ := inv.growth g hgrown hlost
    change (h.sizing.onAdvance cfg route).preGrowthBlock ≠ 0 ∧
      (h.sizing.onAdvance cfg route).preGrowthBlock = g.size ∧
      (h.sizing.onAdvance cfg route).cleanSinceGrowth = u32 (g.advances + 1)
    refine ⟨hpre ▸ hpending, hpre.trans hsize, ?_⟩
    rw [hsince, hadvances]
    unfold u32
    omega
  case behind =>
    intro g hg hlost
    obtain ⟨g, hgrown, rfl⟩ := Option.map_eq_some_iff.mp hg
    exact Nat.succ_le_succ (inv.behind g hgrown hlost)
  case held =>
    intro g hg hlost hfew
    obtain ⟨g, hgrown, rfl⟩ := Option.map_eq_some_iff.mp hg
    have hbehind := inv.behind g hgrown hlost
    have hreprobe := h.reprobe_ge
    have hheld := inv.held g hgrown hlost (Nat.lt_of_succ_lt hfew)
    unfold kCleanBatchesToGrow at hfew
    rcases inv.ceiling_onAdvance with hsame | hlong
    · exact Nat.le_trans (Nat.le_of_eq hsame) hheld
    · dsimp only at hfew
      omega

theorem fresh_iff : h.fresh = true ↔
    ∃ g, h.grown = some g ∧ g.lost = false ∧ g.advances < kCleanBatchesToGrow := by
  unfold fresh
  cases h.grown with
  | none | some g => simp

section

variable (inv : h.Inv cfg route)
include inv

/-- A growth step that is still fresh fails in the code as well. -/
theorem Inv.holdBelow_fresh {g : Growth} (grown : h.grown = some g) (unlost : g.lost = false)
    (few : g.advances < kCleanBatchesToGrow) :
    h.sizing.holdBelow.growthCeiling = g.size ∧
      h.sizing.holdBelow.reprobeAfter = min (h.sizing.reprobeAfter * 2) 4096 := by
  obtain ⟨hpending, hsize, hadvances⟩ := inv.growth g grown unlost
  have hsince : h.sizing.cleanSinceGrowth < kCleanBatchesToGrow :=
    Nat.lt_of_le_of_lt (hadvances ▸ Nat.mod_le _ _) few
  rw [BlockSizing.holdBelow, if_pos ⟨hpending, hsince⟩]
  exact ⟨hsize, rfl⟩

theorem Inv.reprobeAfter_holdBelow :
    h.sizing.reprobeAfter ≤ h.sizing.holdBelow.reprobeAfter ∧
      h.sizing.holdBelow.reprobeAfter ≤ 4096 := by
  have hcapped := inv.capped
  unfold BlockSizing.holdBelow
  split
  · dsimp only
    omega
  · exact ⟨Nat.le_refl _, hcapped⟩

theorem Inv.reprobe_lose : (h.lose cfg).reprobe ≤ h.sizing.holdBelow.reprobeAfter := by
  have hreprobe := inv.reprobe
  unfold SizeHistory.reprobe at hreprobe ⊢
  cases hfresh : h.fresh with
  | true =>
    obtain ⟨g, hgrown, hunlost, hfew⟩ := fresh_iff.mp hfresh
    have hfailures : (h.lose cfg).failures = h.failures + 1 := by
      rw [lose, hfresh]
      rfl
    rw [(inv.holdBelow_fresh hgrown hunlost hfew).2, hfailures]
    omega
  | false =>
    have hfailures : (h.lose cfg).failures = h.failures := by
      rw [lose, hfresh]
      rfl
    rw [hfailures]
    exact Nat.le_trans hreprobe inv.reprobeAfter_holdBelow.1

/-- A loss does not lift the ceiling. -/
theorem Inv.ceiling_holdBelow : h.sizing.holdBelow.growthCeiling ≤ h.sizing.growthCeiling := by
  unfold BlockSizing.holdBelow
  split
  · rename_i hfailed
    exact (inv.within.pre hfailed.1).2
  · exact Nat.le_refl _

/-- After a loss within eight advances of a growth step the size before the step is the
ceiling. -/
theorem Inv.ceiling_lose {g : Growth} (grown : h.grown = some g)
    (few : g.advances < kCleanBatchesToGrow) : h.sizing.holdBelow.growthCeiling ≤ g.size := by
  cases hlost : g.lost with
  | true => exact Nat.le_trans inv.ceiling_holdBelow (inv.held g grown hlost few)
  | false => exact Nat.le_of_eq (inv.holdBelow_fresh grown hlost few).1

theorem Inv.lose : (h.lose cfg).Inv cfg route where
  within := inv.within.onLoss
  reprobe := inv.reprobe_lose
  capped := inv.reprobeAfter_holdBelow.2
  stretch := Nat.zero_le _
  short := Nat.succ_pos _
  pending := fun pending => absurd rfl pending
  growth := by
    intro g hg hlost
    obtain ⟨g, _, rfl⟩ := Option.map_eq_some_iff.mp hg
    cases hlost
  behind := fun _ _ _ => Nat.zero_le _
  held := by
    intro g hg _ hfew
    obtain ⟨g, hgrown, rfl⟩ := Option.map_eq_some_iff.mp hg
    exact inv.ceiling_lose (g := g) hgrown hfew

theorem Inv.grow (sized : 0 < cfg.blockSize.toNat) : h.grow.Inv cfg route := by
  have hbase := cfg.baseBlock_pos sized
  have hblock := inv.within.base
  have hwithin := inv.within.grow
  unfold SizeHistory.grow
  unfold BlockSizing.grow at hwithin ⊢
  dsimp only at hwithin ⊢
  split
  · rename_i hgrows
    rw [if_pos hgrows] at hwithin
    have hlarger : h.sizing.block < min h.sizing.growthCeiling (h.sizing.block * 2) := by omega
    rw [if_pos hlarger]
    refine ⟨hwithin, inv.reprobe, inv.capped, inv.stretch, inv.short, fun _ => ⟨_, rfl, rfl⟩, ?_, ?_, ?_⟩
    · intro g hg _
      cases hg
      exact ⟨Nat.ne_of_gt (Nat.lt_of_lt_of_le hbase hblock), rfl, rfl⟩
    · intro g hg hlost
      cases hg
      cases hlost
    · intro g hg hlost
      cases hg
      cases hlost
  · rename_i hstays
    rw [if_neg hstays] at hwithin
    rw [if_neg (Nat.lt_irrefl _)]
    exact ⟨hwithin, inv.reprobe, inv.capped, inv.stretch, inv.short, inv.pending, inv.growth,
      inv.behind, inv.held⟩

theorem Inv.counted (t : Turn) : (h.counted cfg route t).Inv cfg route := by
  unfold SizeHistory.counted
  split
  · exact inv.advance
  · exact inv

theorem Inv.turn (sized : 0 < cfg.blockSize.toNat) (t : Turn) :
    (h.turn cfg route t).Inv cfg route := by
  have hcounted := inv.counted t
  unfold SizeHistory.turn
  split
  · exact hcounted.lose
  · split
    · exact hcounted.grow sized
    · exact hcounted

end

/-- The history follows the variables of the code. -/
theorem turn_sizing (h : SizeHistory) (t : Turn) :
    (h.turn cfg route t).sizing = h.sizing.turn cfg route t.advanced t.lossSeen := by
  obtain ⟨advanced, lossSeen⟩ := t
  cases advanced with
  | true | false =>
    cases lossSeen with
    | true | false => rfl

/-- A failed growth step puts the ceiling back. -/
theorem Inv.ceiling_of_failsFrom (inv : h.Inv cfg route) {t : Turn} {size : Nat}
    (fails : h.FailsFrom cfg route t size) : (h.turn cfg route t).sizing.growthCeiling ≤ size := by
  obtain ⟨hloss, g, hgrown, hsize, hfew⟩ := fails
  have hceiling := (inv.counted t).ceiling_lose hgrown hfew
  rw [hsize] at hceiling
  rw [SizeHistory.turn, if_pos hloss]
  exact hceiling

/-- The ceiling is lifted only in a turn that is due. -/
theorem Inv.ceiling_turn (inv : h.Inv cfg route) {t : Turn} (early : ¬ h.Due t) :
    (h.turn cfg route t).sizing.growthCeiling ≤ h.sizing.growthCeiling := by
  have hcounted : (h.counted cfg route t).sizing.growthCeiling = h.sizing.growthCeiling := by
    unfold SizeHistory.counted
    split
    · rename_i hadvanced
      exact inv.ceiling_onAdvance.resolve_right fun long => early ⟨hadvanced, long⟩
    · rfl
  have hgrow : ∀ s : BlockSizing, s.grow.growthCeiling = s.growthCeiling := by
    intro s
    unfold BlockSizing.grow
    dsimp only
    split <;> rfl
  unfold SizeHistory.turn
  split
  · exact Nat.le_trans (inv.counted t).ceiling_holdBelow (Nat.le_of_eq hcounted)
  · split
    · exact Nat.le_of_eq ((hgrow _).trans hcounted)
    · exact Nat.le_of_eq hcounted

end Inv

end SizeHistory

end FuseTransport.Transfer
