import FuseTransport.Transfer.FileWrites

/-!
# The bits of a checkpoint

A chunk's counter is the length of the spans counted against it.  Calls that write no byte
twice count spans that do not overlap, so the counter of a chunk reaches its length exactly
when every byte of it has been counted.
-/

namespace FuseTransport.Transfer

open Proto Foundation Foundation.Runs Foundation.Spans Foundation.Splice

structure Layout where
  total : Nat
  chunk : Nat
  nchunks : Nat
  adopted : Nat → Bool

namespace Layout

variable (g : Layout)

def len (c : Nat) : Nat := chunkLen c g.chunk g.total

/-- What the counter of a chunk starts with. -/
def base (c : Nat) : Nat := if g.adopted c then g.len c else 0

/-- The chunks have bytes, and the positions of the file fit a machine word. -/
structure Sized : Prop where
  positive : 0 < g.chunk
  fits : g.total + g.chunk < 2 ^ 64
  tiles : g.nchunks = chunkCount g.total g.chunk

variable {g}

theorem Sized.chunk_lt (sized : g.Sized) {p : Nat} (inside : p < g.total) :
    p / g.chunk < g.nchunks := by
  have hpos := sized.positive
  rw [sized.tiles, chunkCount_eq sized.positive sized.fits, Nat.div_lt_iff_lt_mul hpos]
  have hround := Nat.div_add_mod (g.total + g.chunk - 1) g.chunk
  have hrest := Nat.mod_lt (g.total + g.chunk - 1) hpos
  rw [Nat.mul_comm] at hround
  omega

/-- The positions of a chunk, up to the end of the file. -/
theorem mem_chunk_iff (positive : 0 < g.chunk) {c p : Nat} :
    (p < g.total ∧ p / g.chunk = c) ↔ c * g.chunk ≤ p ∧ p < c * g.chunk + g.len c := by
  rw [div_eq_iff_chunk positive, Nat.succ_mul]
  unfold len chunkLen
  omega

end Layout

def FileSink.layout (s : FileSink) : Layout := ⟨s.total, s.chunk, s.nchunks, s.adopted⟩

theorem FileSink.Shaped.sized {s : FileSink} (shaped : s.Shaped) : s.layout.Sized :=
  ⟨shaped.chunk_pos, shaped.fits, shaped.nchunks⟩

def spansOf (updates : List Update) (c : Nat) : List Span :=
  (updates.filter fun u => u.chunk = c).map Update.span

/-- The bytes counted against a chunk. -/
def tally (updates : List Update) (c : Nat) : Nat := extent (spansOf updates c)

/-! ## The calls -/

namespace Writing

/-- A call that has only moved on. -/
structure Onward (w v : Writing) : Prop where
  start : v.start = w.start
  len : v.len = w.len
  off : w.off ≤ v.off
  whole : w.bytes = 0 → v.bytes = 0

theorem Onward.refl (w : Writing) : w.Onward w := ⟨rfl, rfl, Nat.le_refl _, id⟩

theorem Onward.span {w v : Writing} (onward : w.Onward v) : v.span = w.span := by
  rw [Writing.span, stop, onward.start, onward.len]
  rfl

/-- A call inside the file that has counted whole chunks, or all it has to. -/
structure Sound (g : Layout) (w : Writing) : Prop where
  inside : w.stop ≤ g.total
  left : w.bytes = w.iov.flatten.length
  placed : w.offset + w.bytes = w.stop
  begun : w.start ≤ w.off
  ended : w.off ≤ w.stop
  edge : w.off = w.start ∨ w.off = w.stop ∨ g.chunk ∣ w.off

end Writing

theorem flatten_skipWritten (left : Nat) (iov : List (List UInt8)) :
    (skipWritten left iov).flatten = iov.flatten.drop left := by
  induction iov generalizing left with
  | nil => simp [skipWritten]
  | cons first rest ih =>
    rw [skipWritten]
    split
    · rename_i hpast
      rw [ih, List.flatten_cons, List.drop_append, List.drop_eq_nil_of_le hpast, List.nil_append]
    · rw [List.flatten_cons, List.flatten_cons, List.drop_append_of_le_length (by omega)]

variable {writes : List Writing} {k : Nat}

theorem set_onward {w v : Writing} (present : writes[k]? = some w) (onward : w.Onward v) {l : Nat}
    {old : Writing} (there : writes[l]? = some old) :
    ∃ new, (writes.set k v)[l]? = some new ∧ old.Onward new := by
  rw [List.getElem?_set]
  by_cases hsame : k = l
  · subst hsame
    obtain rfl : w = old := Option.some.inj (present.symm.trans there)
    have hlt := (List.getElem?_eq_some_iff.mp present).1
    exact ⟨v, by simp [hlt], onward⟩
  · exact ⟨old, by rw [if_neg hsame]; exact there, .refl old⟩

theorem of_set {w v : Writing} (present : writes[k]? = some w) {l : Nat} {new : Writing}
    (there : (writes.set k v)[l]? = some new) :
    (l = k ∧ new = v) ∨ writes[l]? = some new := by
  rw [List.getElem?_set] at there
  by_cases hsame : k = l
  · subst hsame
    have hlt := (List.getElem?_eq_some_iff.mp present).1
    rw [if_pos rfl, if_pos hlt] at there
    exact Or.inl ⟨rfl, (Option.some.inj there).symm⟩
  · rw [if_neg hsame] at there
    exact Or.inr there

/-- An update is of the bytes a call has in a chunk; all bytes of the call had been placed. -/
structure Update.Of (g : Layout) (writes : List Writing) (u : Update) (w : Writing) : Prop where
  made : writes[u.call]? = some w
  whole : w.bytes = 0
  past : u.span.last ≤ w.off
  chunk : u.chunk < g.nchunks
  share : ∀ p, u.span.Has p ↔ w.span.Has p ∧ p / g.chunk = u.chunk

theorem Update.Of.onward {g : Layout} {u : Update} {w v old : Writing} (made : u.Of g writes old)
    (present : writes[k]? = some w) (onward : w.Onward v) :
    ∃ new, u.Of g (writes.set k v) new := by
  obtain ⟨new, hnew, honward⟩ := set_onward present onward made.made
  refine ⟨new, hnew, honward.whole made.whole, Nat.le_trans made.past honward.off, made.chunk, ?_⟩
  rw [honward.span]
  exact made.share

/-- The updates one call makes do not overlap, nor do those of one chunk that was not taken
over. -/
def Update.Apart (g : Layout) (u v : Update) : Prop :=
  u.chunk = v.chunk → u.call = v.call ∨ g.adopted u.chunk = false → u.span.Apart v.span

structure Calls (g : Layout) (writes : List Writing) (updates : List Update) : Prop where
  sound : ∀ (k : Nat) (w : Writing), writes[k]? = some w → w.Sound g
  once : ∀ (k l : Nat) (w v : Writing) (p : Nat), k ≠ l → writes[k]? = some w → writes[l]? = some v → w.span.Has p →
    v.span.Has p → g.adopted (p / g.chunk) = true
  made : ∀ u ∈ updates, ∃ w, u.Of g writes w
  apart : updates.Pairwise (Update.Apart g)

namespace Calls

variable {g : Layout} {writes : List Writing} {updates : List Update} {k : Nat} {w v : Writing}

theorem begin (calls : Calls g writes updates) (sound : w.Sound g)
    (free : ∀ p, w.span.Has p → g.adopted (p / g.chunk) = true ∨ ∀ v ∈ writes, ¬ v.span.Has p) :
    Calls g (writes ++ [w]) updates := by
  have hnew : ∀ (l : Nat) (v : Writing), (writes ++ [w])[l]? = some v → writes[l]? = some v ∨ v = w := by
    intro l v there
    rcases Nat.lt_or_ge l writes.length with hold | hnew
    · exact Or.inl (by rwa [List.getElem?_append_left hold] at there)
    · rw [List.getElem?_append_right hnew] at there
      exact Or.inr (List.mem_singleton.mp (List.mem_of_getElem? there))
  have hfree : ∀ (l : Nat) (v : Writing) (p : Nat), writes[l]? = some v → v.span.Has p → w.span.Has p →
      g.adopted (p / g.chunk) = true := by
    intro l v p there hv hw
    rcases free p hw with hadopted | hnone
    · exact hadopted
    · exact absurd hv (hnone v (List.mem_of_getElem? there))
  refine ⟨?_, ?_, ?_, calls.apart⟩
  · intro l v there
    rcases hnew l v there with hold | rfl
    · exact calls.sound l v hold
    · exact sound
  · intro l m a b p hne hl hm ha hb
    rcases Nat.lt_or_ge l writes.length with hlold | hlnew
    · rw [List.getElem?_append_left hlold] at hl
      rcases hnew m b hm with hold | rfl
      · exact calls.once l m a b p hne hl hold ha hb
      · exact hfree l a p hl ha hb
    · rcases Nat.lt_or_ge m writes.length with hmold | hmnew
      · rw [List.getElem?_append_left hmold] at hm
        rcases hnew l a hl with hold | rfl
        · exact calls.once l m a b p hne hold hm ha hb
        · exact hfree m b p hm hb ha
      · have hlt := (List.getElem?_eq_some_iff.mp hl).1
        have hmt := (List.getElem?_eq_some_iff.mp hm).1
        rw [List.length_append, List.length_singleton] at hlt hmt
        omega
  · intro u member
    obtain ⟨v, hof⟩ := calls.made u member
    have hlt := (List.getElem?_eq_some_iff.mp hof.made).1
    exact ⟨v, { hof with made := by rw [List.getElem?_append_left hlt]; exact hof.made }⟩

/-- A call moves on without an update. -/
theorem move (calls : Calls g writes updates) (present : writes[k]? = some w)
    (onward : w.Onward v) (sound : v.Sound g) : Calls g (writes.set k v) updates := by
  have hold : ∀ (l : Nat) (a : Writing), (writes.set k v)[l]? = some a →
      ∃ b : Writing, writes[l]? = some b ∧ a.span = b.span := by
    intro l a there
    rcases of_set present there with ⟨rfl, rfl⟩ | hsame
    · exact ⟨w, present, onward.span⟩
    · exact ⟨a, hsame, rfl⟩
  refine ⟨?_, ?_, ?_, calls.apart⟩
  · intro l a there
    rcases of_set present there with ⟨rfl, rfl⟩ | hsame
    · exact sound
    · exact calls.sound l a hsame
  · intro l m a b p hne hl hm ha hb
    obtain ⟨a', hl', hspan⟩ := hold l a hl
    obtain ⟨b', hm', hspan'⟩ := hold m b hm
    exact calls.once l m a' b' p hne hl' hm' (hspan ▸ ha) (hspan' ▸ hb)
  · intro u member
    obtain ⟨old, hof⟩ := calls.made u member
    exact hof.onward present onward

end Calls

namespace SinkUse

variable {st : SinkUse} {k : Nat} {w : Writing}

section

variable (sized : st.sink.layout.Sized)
include sized

theorem reach_eq (sound : w.Sound st.sink.layout) :
    st.reach w = min w.stop ((w.off / st.sink.chunk + 1) * st.sink.chunk) := by
  have hfits : st.sink.total + st.sink.chunk < 2 ^ 64 := sized.fits
  have hinside : w.stop ≤ st.sink.total := sound.inside
  have hended := sound.ended
  have hbelow := Nat.div_mul_le_self w.off st.sink.chunk
  rw [reach, u64_of_lt]
  rw [Nat.succ_mul]
  omega

/-- The bytes of one update are those the call has in the chunk. -/
theorem reach_share (sound : w.Sound st.sink.layout) (unfinished : w.off < w.stop) (p : Nat) :
    (Span.mk w.off (st.reach w)).Has p ↔
      w.span.Has p ∧ p / st.sink.chunk = w.off / st.sink.chunk := by
  have hpos : 0 < st.sink.chunk := sized.positive
  have hplace := (div_eq_iff_chunk hpos).mp (Eq.refl (w.off / st.sink.chunk))
  have hbegun := sound.begun
  rw [reach_eq sized sound, div_eq_iff_chunk hpos]
  change (w.off ≤ p ∧ p < min w.stop _) ↔ (w.start ≤ p ∧ p < w.stop) ∧ _
  rcases sound.edge with hstart | hstop | ⟨c, hedge⟩
  · omega
  · omega
  · have hedge : w.off = st.sink.chunk * c := hedge
    have hexact : w.off / st.sink.chunk * st.sink.chunk = w.off := by
      rw [hedge, Nat.mul_div_cancel_left c hpos, Nat.mul_comm]
    omega

theorem reach_edge (sound : w.Sound st.sink.layout) (unfinished : w.off < w.stop) :
    w.off < st.reach w ∧ st.reach w ≤ w.stop ∧
      (st.reach w = w.stop ∨ st.sink.chunk ∣ st.reach w) := by
  have hpos : 0 < st.sink.chunk := sized.positive
  have hplace := (div_eq_iff_chunk hpos).mp (Eq.refl (w.off / st.sink.chunk))
  rw [reach_eq sized sound]
  refine ⟨by omega, Nat.min_le_left _ _, ?_⟩
  rcases Nat.le_total w.stop ((w.off / st.sink.chunk + 1) * st.sink.chunk) with hend | hedge
  · exact Or.inl (Nat.min_eq_left hend)
  · rw [Nat.min_eq_right hedge]
    exact Or.inr (Nat.dvd_mul_left _ _)

theorem counted_onward (sound : w.Sound st.sink.layout) (unfinished : w.off < w.stop) :
    w.Onward { w with off := st.reach w } ∧ Writing.Sound st.sink.layout { w with off := st.reach w } := by
  obtain ⟨hmoves, hends, hedge⟩ := reach_edge sized sound unfinished
  exact ⟨⟨rfl, rfl, Nat.le_of_lt hmoves, id⟩, sound.inside, sound.left, sound.placed,
    Nat.le_trans sound.begun (Nat.le_of_lt hmoves), hends, Or.inr hedge⟩

end

end SinkUse

theorem Calls.update {st : SinkUse} {w : Writing} (sized : st.sink.layout.Sized)
    (calls : Calls st.sink.layout st.writes st.updates) (present : st.writes[k]? = some w)
    (whole : w.bytes = 0) (unfinished : w.off < w.stop) :
    Calls st.sink.layout (st.writes.set k { w with off := st.reach w })
      (st.updates ++ [⟨k, w.off / st.sink.chunk, w.off, st.reach w⟩]) := by
  have hsound := calls.sound k w present
  obtain ⟨honward, hmoved⟩ := SinkUse.counted_onward sized hsound unfinished
  have hshare := SinkUse.reach_share sized hsound unfinished
  have hinside : w.off < st.sink.total := Nat.lt_of_lt_of_le unfinished hsound.inside
  obtain ⟨hcalls, honce, hmade, hapart⟩ := calls.move present honward hmoved
  refine ⟨hcalls, honce, ?_, ?_⟩
  · intro u member
    rcases List.mem_append.mp member with hold | hnew
    · exact hmade u hold
    · rw [List.mem_singleton.mp hnew]
      obtain ⟨new, hnew, _⟩ := set_onward present honward present
      obtain rfl : new = { w with off := st.reach w } := by
        rcases of_set present hnew with ⟨_, hthis⟩ | hother
        · exact hthis
        · have hlt := (List.getElem?_eq_some_iff.mp present).1
          rw [List.getElem?_set_self hlt] at hnew
          exact (Option.some.inj hnew).symm
      exact ⟨_, hnew, whole, Nat.le_refl _, sized.chunk_lt hinside, hshare⟩
  · refine List.pairwise_append.mpr ⟨hapart, List.pairwise_singleton _ _, ?_⟩
    intro u hu v hv hchunk hown p hup hvp
    rw [List.mem_singleton.mp hv] at hchunk hown hvp
    obtain ⟨other, hother⟩ := calls.made u hu
    obtain ⟨hotherHas, hp⟩ := (hother.share p).mp hup
    obtain ⟨hwHas, _⟩ := (hshare p).mp hvp
    by_cases hsame : u.call = k
    · -- the same call has already counted the bytes before `off`
      have hmade := hother.made
      rw [hsame] at hmade
      obtain rfl : w = other := Option.some.inj (present.symm.trans hmade)
      have hpast := hother.past
      exact absurd (Nat.lt_of_lt_of_le hup.2 hpast) (Nat.not_lt.mpr hvp.1)
    · have hadopted := calls.once u.call k other w p hsame hother.made present hotherHas hwHas
      rw [hp, hown.resolve_left hsame] at hadopted
      cases hadopted

theorem spansOf_append (updates : List Update) (u : Update) (c : Nat) :
    spansOf (updates ++ [u]) c = spansOf updates c ++ if u.chunk = c then [u.span] else [] := by
  by_cases hchunk : u.chunk = c <;> simp [spansOf, hchunk]

theorem tally_append (updates : List Update) (u : Update) (c : Nat) :
    tally (updates ++ [u]) c =
      tally updates c + if u.chunk = c then u.span.last - u.span.first else 0 := by
  rw [tally, spansOf_append]
  by_cases hchunk : u.chunk = c <;> simp [tally, extent, hchunk]

theorem tally_mono {before updates : List Update} (earlier : before <+: updates) (c : Nat) :
    tally before c ≤ tally updates c := by
  obtain ⟨later, rfl⟩ := earlier
  simp [tally, extent, spansOf]

def Tallied (g : Layout) (counters : Nat → Nat) (updates : List Update) : Prop :=
  ∀ c, c < g.nchunks → counters c = u64 (g.base c + tally updates c)

theorem Tallied.update {g : Layout} {counters : Nat → Nat} {updates : List Update}
    (tallied : Tallied g counters updates) (u : Update) :
    Tallied g (Function.update counters u.chunk
      (u64 (counters u.chunk + (u.span.last - u.span.first)))) (updates ++ [u]) := by
  intro c hc
  rw [tally_append, Function.update_apply]
  by_cases hchunk : c = u.chunk
  · rw [if_pos hchunk, if_pos hchunk.symm, ← hchunk, tallied c hc, u64_add, Nat.add_assoc]
  · rw [if_neg hchunk, if_neg (Ne.symm hchunk)]
    exact tallied c hc

def Layout.bits (g : Layout) (seen : Nat → Nat) (count : Nat) : List UInt8 :=
  Bitmap.fill (fun i => decide (g.len i ≤ seen i)) count (List.replicate (bitmapLen g.nchunks) 0)

theorem Layout.bits_update (g : Layout) (seen : Nat → Nat) (count value : Nat) :
    g.bits (Function.update seen count value) (count + 1) =
      if g.len count ≤ value then Bitmap.mark (g.bits seen count) count else g.bits seen count := by
  have hsame : g.bits (Function.update seen count value) count = g.bits seen count := by
    refine Bitmap.fill_congr (fun i hi => ?_) _
    rw [Function.update_of_ne (Nat.ne_of_lt hi)]
  rw [bits, Bitmap.fill_succ, ← hsame, Function.update_self]
  simp only [decide_eq_true_eq]
  rfl

structure Snapshot.Sound (g : Layout) (updates : List Update) (snap : Snapshot) : Prop where
  next : snap.next ≤ g.nchunks
  bitmap : snap.bitmap = g.bits snap.seen snap.next
  seen : ∀ i, i < snap.next → snap.seen i = u64 (g.base i + tally (snap.before i) i)
  before : ∀ i, i < snap.next → snap.begun <+: snap.before i ∧ snap.before i <+: updates
  begun : snap.begun <+: updates

namespace Snapshot.Sound

variable {g : Layout} {updates later : List Update} {snap : Snapshot}

theorem length (sound : snap.Sound g updates) : snap.bitmap.length = bitmapLen g.nchunks := by
  rw [sound.bitmap, Layout.bits, Bitmap.length_fill, List.length_replicate]

theorem mono (sound : snap.Sound g updates) (grows : updates <+: later) : snap.Sound g later :=
  { sound with
    before := fun i hi => ⟨(sound.before i hi).1, (sound.before i hi).2.trans grows⟩
    begun := sound.begun.trans grows }

theorem looked {st : SinkUse} (sound : snap.Sound st.sink.layout st.updates)
    (tallied : Tallied st.sink.layout st.sink.counters st.updates)
    (unfinished : snap.next < st.sink.nchunks) :
    (st.looked snap).Sound st.sink.layout st.updates := by
  have hother : ∀ {i}, i < snap.next → i ≠ snap.next := fun hi => Nat.ne_of_lt hi
  refine ⟨unfinished, ?_, ?_, ?_, sound.begun⟩
  · change st.sink.look snap.bitmap snap.next (st.sink.counters snap.next) =
      st.sink.layout.bits (Function.update snap.seen snap.next _) (snap.next + 1)
    rw [Layout.bits_update, ← sound.bitmap]
    rfl
  · intro i hi
    change Function.update snap.seen snap.next _ i =
      u64 (_ + tally (Function.update snap.before snap.next st.updates i) i)
    rcases Nat.lt_succ_iff_lt_or_eq.mp hi with hold | rfl
    · rw [Function.update_of_ne (hother hold), Function.update_of_ne (hother hold)]
      exact sound.seen i hold
    · rw [Function.update_self, Function.update_self]
      exact tallied _ unfinished
  · intro i hi
    change _ <+: Function.update snap.before snap.next st.updates i ∧
      Function.update snap.before snap.next st.updates i <+: _
    rcases Nat.lt_succ_iff_lt_or_eq.mp hi with hold | rfl
    · rw [Function.update_of_ne (hother hold)]
      exact sound.before i hold
    · rw [Function.update_self]
      exact ⟨sound.begun, List.prefix_rfl⟩

end Snapshot.Sound

/-! ## A sink in use -/

namespace SinkUse

structure Kept (st : SinkUse) : Prop where
  shaped : st.sink.Shaped
  calls : Calls st.sink.layout st.writes st.updates
  tallied : Tallied st.sink.layout st.sink.counters st.updates
  checks : ∀ snap ∈ st.checks, snap.Sound st.sink.layout st.updates

namespace Kept

variable {st next : SinkUse} {k : Nat} {w : Writing}

section

variable (kept : st.Kept)
include kept

theorem beginWrite {offset : Nat} {iov : List (List UInt8)}
    (steps : st.beginWrite (.call offset iov) = some next) : next.Kept := by
  obtain ⟨hmay, steps⟩ := Option.ite_none_right_eq_some.mp steps
  cases steps
  have hsound : (Writing.call offset iov).Sound st.sink.layout :=
    ⟨hmay.1, rfl, rfl, Nat.le_refl _, Nat.le_add_right _ _, Or.inl rfl⟩
  exact { kept with calls := kept.calls.begin hsound fun p hp => hmay.2 p hp.2 hp.1 }

/-- The bytes of a call fall into the data of the file. -/
theorem place {n : Nat} (steps : st.place k n = some next) : next.Kept := by
  obtain ⟨w, hpresent, hw⟩ := Option.bind_eq_some_iff.mp steps
  split at hw
  · cases hw
    have hsound := kept.calls.sound k w hpresent
    have hplaced := hsound.placed
    have hinside : w.stop ≤ st.sink.total := hsound.inside
    have hdata := kept.shaped.data
    have hbehind := kept.shaped.behind
    have hlength : (splice 0 st.sink.part w.offset (w.iov.flatten.take n)).length =
        st.sink.part.length := by
      rw [length_splice, List.length_take]
      omega
    have hmoved : (w.wrote n).Sound st.sink.layout := by
      refine ⟨hsound.inside, ?_, ?_, hsound.begun, hsound.ended, hsound.edge⟩
      · change w.bytes - n = (skipWritten n w.iov).flatten.length
        rw [flatten_skipWritten, List.length_drop, ← hsound.left]
      · change w.offset + n + (w.bytes - n) = w.stop
        omega
    have honward : w.Onward (w.wrote n) :=
      ⟨rfl, rfl, Nat.le_refl _, fun hnone => by change w.bytes - n = 0; omega⟩
    exact
      { shaped := { kept.shaped with
          data := hdata.trans_eq hlength.symm
          behind := hlength ▸ hbehind }
        calls := kept.calls.move hpresent honward hmoved
        tallied := kept.tallied
        checks := kept.checks }
  · cases hw

theorem failWrite (steps : st.failWrite k = some next) : next.Kept := by
  obtain ⟨w, hpresent, hw⟩ := Option.bind_eq_some_iff.mp steps
  split at hw
  · cases hw
    have hsound := kept.calls.sound k w hpresent
    exact { kept with
      calls := kept.calls.move hpresent ⟨rfl, rfl, Nat.le_refl _, id⟩
        ⟨hsound.inside, hsound.left, hsound.placed, hsound.begun, hsound.ended, hsound.edge⟩ }
  · cases hw

theorem count (steps : st.count k = some next) : next.Kept := by
  obtain ⟨w, hpresent, hw⟩ := Option.bind_eq_some_iff.mp steps
  split at hw
  · rename_i henabled
    obtain ⟨_, hwhole, hunfinished⟩ := henabled
    cases hw
    have hsized := kept.shaped.sized
    have hinside : w.stop ≤ st.sink.total := (kept.calls.sound k w hpresent).inside
    have hchunk : w.off / st.sink.chunk < st.sink.nchunks :=
      hsized.chunk_lt (Nat.lt_of_lt_of_le hunfinished hinside)
    rw [counted, if_pos hchunk]
    exact
      { shaped := { kept.shaped with }
        calls := kept.calls.update hsized hpresent hwhole hunfinished
        tallied := kept.tallied.update ⟨k, w.off / st.sink.chunk, w.off, st.reach w⟩
        checks := fun snap member => (kept.checks snap member).mono (List.prefix_append _ _) }
  · cases hw

theorem beginCheckpoint : st.beginCheckpoint.Kept := by
  unfold SinkUse.beginCheckpoint
  split
  · exact kept
  · refine { kept with checks := fun snap member => ?_ }
    rcases List.mem_append.mp member with hold | hnew
    · exact kept.checks snap hold
    · rw [List.mem_singleton.mp hnew]
      exact ⟨Nat.zero_le _, rfl, fun i hi => absurd hi (Nat.not_lt_zero i),
        fun i hi => absurd hi (Nat.not_lt_zero i), List.prefix_rfl⟩

theorem look {j : Nat} (steps : st.look j = some next) : next.Kept := by
  obtain ⟨snap, hpresent, hsnap⟩ := Option.bind_eq_some_iff.mp steps
  split at hsnap
  · rename_i hunfinished
    cases hsnap
    refine { kept with checks := fun other member => ?_ }
    rcases List.mem_or_eq_of_mem_set member with hold | rfl
    · exact kept.checks other hold
    · exact (kept.checks snap (List.mem_of_getElem? hpresent)).looked kept.tallied hunfinished
  · cases hsnap

end

theorem saveTrailer (shaped : st.sink.Shaped) {bitmap : List UInt8}
    (whole : bitmap.length = bitmapLen st.sink.nchunks) (placed : Option Nat) :
    (st.sink.saveTrailer bitmap placed).Shaped := by
  have hdata := shaped.data
  have hbehind := shaped.behind
  have hwritten := st.sink.length_trailer bitmap
  have hlength : st.sink.part.length ≤ (st.sink.saveTrailer bitmap placed).part.length ∧
      (st.sink.saveTrailer bitmap placed).part.length ≤
        st.sink.total + bitmapLen st.sink.nchunks + kFooterLen := by
    cases placed with
    | none =>
      change _ ≤ (splice 0 st.sink.part st.sink.total (st.sink.trailer bitmap)).length ∧
        (splice 0 st.sink.part st.sink.total (st.sink.trailer bitmap)).length ≤ _
      rw [length_splice]
      omega
    | some count =>
      change _ ≤ (splice 0 st.sink.part st.sink.total
          ((st.sink.trailer bitmap).take count)).length ∧
        (splice 0 st.sink.part st.sink.total ((st.sink.trailer bitmap).take count)).length ≤ _
      rw [length_splice, List.length_take]
      omega
  exact { shaped with
    data := Nat.le_trans hdata hlength.1
    behind := hlength.2 }

theorem save (kept : st.Kept) {j : Nat} {placed : Option Nat}
    (steps : st.save j placed = some next) : next.Kept := by
  obtain ⟨snap, hpresent, hsnap⟩ := Option.bind_eq_some_iff.mp steps
  cases (Option.ite_none_right_eq_some.mp hsnap).2
  have hsound := kept.checks snap (List.mem_of_getElem? hpresent)
  refine
    { shaped := saveTrailer kept.shaped hsound.length placed
      calls := kept.calls
      tallied := kept.tallied
      checks := fun other member => ?_ }
  rcases List.mem_or_eq_of_mem_set member with hold | rfl
  · exact kept.checks other hold
  · exact { hsound with }

theorem step (kept : st.Kept) {event : SinkEvent} (steps : st.step event = some next) :
    next.Kept := by
  cases event with
  | write offset iov => exact kept.beginWrite steps
  | pwritev k n => exact kept.place steps
  | fails k => exact kept.failWrite steps
  | count k => exact kept.count steps
  | checkpoint =>
    cases steps
    exact kept.beginCheckpoint
  | look j => exact kept.look steps
  | save j placed => exact kept.save steps
  | missing first last =>
    cases steps
    exact { kept with }

end Kept

end SinkUse

/-- A byte of a call that had been placed as a whole and had updated the counter of chunk
`i`. -/
def WrittenBy (writes : List Writing) (updates : List Update) (i p : Nat) : Prop :=
  ∃ u ∈ updates, u.chunk = i ∧ ∃ w, writes[u.call]? = some w ∧ w.bytes = 0 ∧ w.span.Has p

section Spans

variable {g : Layout} {writes : List Writing} {updates before : List Update} {i p : Nat}

theorem mem_spansOf {span : Span} :
    span ∈ spansOf updates i ↔ ∃ u ∈ updates, u.chunk = i ∧ u.span = span := by
  simp [spansOf, and_assoc]

section

variable (calls : Calls g writes updates)
include calls

theorem Calls.earlier (earlier : before <+: updates) : Calls g writes before :=
  { calls with
    made := fun u member => calls.made u (earlier.subset member)
    apart := calls.apart.sublist earlier.sublist }

theorem Calls.spansOf_inside (positive : 0 < g.chunk) :
    ∀ span ∈ spansOf updates i, ∀ p, span.Has p →
      i * g.chunk ≤ p ∧ p < i * g.chunk + g.len i := by
  intro span member p hp
  obtain ⟨u, hu, rfl, rfl⟩ := mem_spansOf.mp member
  obtain ⟨w, hof⟩ := calls.made u hu
  obtain ⟨hw, hchunk⟩ := (hof.share p).mp hp
  have hinside := (calls.sound _ w hof.made).inside
  exact (Layout.mem_chunk_iff positive).mp ⟨Nat.lt_of_lt_of_le hw.2 hinside, hchunk⟩

theorem Calls.spansOf_apart (own : g.adopted i = false) :
    (spansOf updates i).Pairwise Span.Apart := by
  rw [spansOf, List.pairwise_map]
  refine (calls.apart.filter _).imp_of_mem fun hu hv happart => ?_
  have huchunk := of_decide_eq_true (List.mem_filter.mp hu).2
  have hvchunk := of_decide_eq_true (List.mem_filter.mp hv).2
  exact happart (huchunk.trans hvchunk.symm) (Or.inr (huchunk ▸ own))

theorem Calls.covers_iff (positive : 0 < g.chunk)
    (inside : i * g.chunk ≤ p ∧ p < i * g.chunk + g.len i) :
    Covers (spansOf updates i) p ↔ WrittenBy writes updates i p := by
  constructor
  · rintro ⟨span, member, hp⟩
    obtain ⟨u, hu, hchunk, rfl⟩ := mem_spansOf.mp member
    obtain ⟨w, hof⟩ := calls.made u hu
    exact ⟨u, hu, hchunk, w, hof.made, hof.whole, ((hof.share p).mp hp).1⟩
  · rintro ⟨u, hu, hchunk, w, hmade, _, hp⟩
    obtain ⟨v, hof⟩ := calls.made u hu
    obtain rfl : v = w := Option.some.inj (hof.made.symm.trans hmade)
    have hplace := ((Layout.mem_chunk_iff positive).mpr inside).2
    exact ⟨u.span, mem_spansOf.mpr ⟨u, hu, hchunk, rfl⟩,
      (hof.share p).mpr ⟨hp, hplace.trans hchunk.symm⟩⟩

end

end Spans

namespace SinkUse.Kept

variable {st : SinkUse} {snap : Snapshot} {i : Nat}

theorem marked_iff (kept : st.Kept) (taken : snap ∈ st.checks) (read : i < snap.next) :
    Bitmap.marked snap.bitmap i = true ↔ st.sink.layout.len i ≤ snap.seen i := by
  have hsound := kept.checks snap taken
  have hnext : snap.next ≤ st.sink.nchunks := hsound.next
  have hroom : (snap.next + 7) / 8 ≤
      (List.replicate (bitmapLen st.sink.layout.nchunks) (0 : UInt8)).length := by
    rw [List.length_replicate]
    change _ ≤ bitmapLen st.sink.nchunks
    rw [kept.shaped.bitmapLen]
    omega
  rw [hsound.bitmap, Layout.bits, Bitmap.marked_fill _ hroom, Bitmap.marked_replicate]
  simp [read]

/-- A bit is set exactly when its chunk was taken over, or every byte of it had been counted
when the counter was read.  The counters of the chunks taken over must not have wrapped. -/
theorem bit_iff (kept : st.Kept) (taken : snap ∈ st.checks) (read : i < snap.next)
    (spared : st.sink.adopted i = true → st.sink.layout.len i + tally st.updates i < 2 ^ 64) :
    Bitmap.marked snap.bitmap i = true ↔ st.sink.adopted i = true ∨
      ∀ p, i * st.sink.chunk ≤ p → p < i * st.sink.chunk + st.sink.layout.len i →
        WrittenBy st.writes (snap.before i) i p := by
  have hsound := kept.checks snap taken
  have hbefore := (hsound.before i read).2
  have hpos : 0 < st.sink.layout.chunk := kept.shaped.chunk_pos
  have hcalls := kept.calls.earlier hbefore
  have hinside : ∀ span ∈ spansOf (snap.before i) i, ∀ p, span.Has p →
      i * st.sink.chunk ≤ p ∧ p < i * st.sink.chunk + st.sink.layout.len i :=
    hcalls.spansOf_inside hpos
  rw [kept.marked_iff taken read, hsound.seen i read]
  cases hadopted : st.sink.adopted i with
  | true =>
    have hbase : st.sink.layout.base i = st.sink.layout.len i := if_pos hadopted
    have hless := tally_mono hbefore i
    have hsmall := spared hadopted
    rw [hbase, u64_of_lt (by omega)]
    exact iff_of_true (Nat.le_add_right _ _) (Or.inl rfl)
  | false =>
    have hbase : st.sink.layout.base i = 0 := if_neg (Bool.eq_false_iff.mp hadopted)
    have hapart := hcalls.spansOf_apart (i := i) hadopted
    have hle := extent_le hapart hinside
    have hfull := extent_full_iff hapart hinside
    have hlen : st.sink.layout.len i ≤ st.sink.chunk := Nat.min_le_left _ _
    have hfits := kept.shaped.fits
    rw [Nat.add_sub_cancel_left] at hle hfull
    have hsmall : tally (snap.before i) i < 2 ^ 64 := Nat.lt_of_le_of_lt hle (by omega)
    rw [hbase, Nat.zero_add, u64_of_lt hsmall]
    simp only [Bool.false_eq_true, false_or]
    refine hfull.trans (forall_congr' fun p => forall_congr' fun habove => forall_congr' fun hbelow => ?_)
    exact hcalls.covers_iff hpos ⟨habove, hbelow⟩

/-- Calls that write no byte twice, not even one of a chunk that was taken over, let no
counter wrap. -/
theorem spared_of_disjoint (kept : st.Kept)
    (disjoint : ∀ (k l : Nat) (w v : Writing), k ≠ l → st.writes[k]? = some w →
      st.writes[l]? = some v → w.span.Apart v.span) (c : Nat) :
    st.sink.layout.len c + tally st.updates c < 2 ^ 64 := by
  have hpos : 0 < st.sink.layout.chunk := kept.shaped.chunk_pos
  have hfits := kept.shaped.fits
  have hapart : (spansOf st.updates c).Pairwise Span.Apart := by
    rw [spansOf, List.pairwise_map]
    refine (kept.calls.apart.filter _).imp_of_mem fun {u v} hu hv happart => ?_
    obtain ⟨humember, huchunk⟩ := List.mem_filter.mp hu
    obtain ⟨hvmember, hvchunk⟩ := List.mem_filter.mp hv
    by_cases hsame : u.call = v.call
    · exact happart ((of_decide_eq_true huchunk).trans (of_decide_eq_true hvchunk).symm)
        (Or.inl hsame)
    · obtain ⟨w, huof⟩ := kept.calls.made u humember
      obtain ⟨x, hvof⟩ := kept.calls.made v hvmember
      intro p hup hvp
      exact disjoint u.call v.call w x hsame huof.made hvof.made p ((huof.share p).mp hup).1
        ((hvof.share p).mp hvp).1
  have hle := extent_le hapart (kept.calls.spansOf_inside hpos)
  have hchunk : st.sink.layout.len c ≤ st.sink.chunk := Nat.min_le_left _ _
  have htotal : st.sink.layout.len c ≤ st.sink.total :=
    Nat.le_trans (Nat.min_le_right _ _) (Nat.sub_le _ _)
  change _ + extent (spansOf st.updates c) < _
  omega

end SinkUse.Kept

end FuseTransport.Transfer
