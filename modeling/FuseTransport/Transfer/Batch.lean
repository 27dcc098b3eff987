import Mathlib.Data.List.Forall2
import Mathlib.Data.List.SplitBy
import FuseTransport.Transfer.RecvLane

/-!
# One batch of a consumer

Coalescing changes how many calls a batch takes, not what it does: every block is
written as if alone, each outcome is reported once, and the sink ends up with the
bytes of the blocks that were reported as written.
-/

namespace FuseTransport.Transfer

open Proto

variable {body : List UInt8} {p offset : Nat}

namespace Sink

variable (s : Sink)

def Holds (p : Nat) : Prop := s.bytes p ≠ none

theorem place_inside (above : offset ≤ p) (below : p < offset + body.length) :
    (s.place offset body).bytes p = body[p - offset]? :=
  if_pos ⟨above, below⟩

theorem place_outside (outside : ¬ (offset ≤ p ∧ p < offset + body.length)) :
    (s.place offset body).bytes p = s.bytes p :=
  if_neg outside

theorem place_holds {s : Sink} (holds : s.Holds p) (offset : Nat) (body : List UInt8) :
    (s.place offset body).Holds p := by
  by_cases inside : offset ≤ p ∧ p < offset + body.length
  · rw [Holds, s.place_inside inside.1 inside.2, List.getElem?_eq_getElem (by omega)]
    exact Option.some_ne_none _
  · rwa [Holds, s.place_outside inside]

theorem place_source {s : Sink} {b : UInt8} (found : (s.place offset body).bytes p = some b) :
    s.bytes p = some b ∨ (offset ≤ p ∧ body[p - offset]? = some b) := by
  by_cases inside : offset ≤ p ∧ p < offset + body.length
  · rw [s.place_inside inside.1 inside.2] at found
    exact Or.inr ⟨inside.1, found⟩
  · rw [s.place_outside inside] at found
    exact Or.inl found

theorem bytes_place_append (offset : Nat) (first second : List UInt8) :
    (s.place offset (first ++ second)).bytes =
      ((s.place offset first).place (offset + first.length) second).bytes := by
  funext p
  by_cases late : offset + first.length ≤ p
  · by_cases inside : p < offset + first.length + second.length
    · rw [place_inside _ (by omega) (by rw [List.length_append]; omega),
        place_inside _ late inside, List.getElem?_append_right (by omega), Nat.sub_sub]
    · rw [place_outside _ (by rw [List.length_append]; omega), place_outside _ (by omega),
        place_outside _ (by omega)]
  · rw [place_outside _ (fun within => late within.1)]
    by_cases early : offset ≤ p
    · rw [place_inside _ early (by rw [List.length_append]; omega),
        place_inside _ early (by omega), List.getElem?_append_left (by omega)]
    · rw [place_outside _ (fun within => early within.1),
        place_outside _ (fun within => early within.1)]

theorem chunkShare_append {first middle last : Nat} (before : first ≤ middle)
    (behind : middle ≤ last) (c : Nat) :
    s.chunkShare first last c = s.chunkShare first middle c + s.chunkShare middle last c := by
  unfold chunkShare
  omega

/-- Two writes next to each other are one write. -/
theorem write_append (offset : Nat) (first second : List UInt8) : s.write offset (first ++ second) =
      (s.write offset first).write (offset + first.length) second := by
  have hcounters : (s.write offset (first ++ second)).counters =
      ((s.write offset first).write (offset + first.length) second).counters := by
    funext c
    have hshare := s.chunkShare_append (Nat.le_add_right offset first.length)
      (Nat.le_add_right _ second.length) c
    change (if c < s.nchunks then
        u64 (s.counters c + s.chunkShare offset (offset + (first ++ second).length) c)
      else s.counters c) =
      if c < s.nchunks then
        u64 ((if c < s.nchunks then u64 (s.counters c + s.chunkShare offset (offset + first.length) c)
          else s.counters c) +
          s.chunkShare (offset + first.length) (offset + first.length + second.length) c)
      else if c < s.nchunks then u64 (s.counters c + s.chunkShare offset (offset + first.length) c)
        else s.counters c
    split
    · rw [List.length_append, ← Nat.add_assoc offset, hshare, u64_add, Nat.add_assoc (s.counters c)]
    · rfl
  have hbytes := s.bytes_place_append offset first second
  exact congrArg₂ (fun bytes counters => { s with bytes := bytes, counters := counters })
    hbytes hcounters

def writeItem (item : Item) : Sink := s.write item.off item.body

end Sink

def Item.At (item : Item) (p : Nat) (b : UInt8) : Prop :=
  item.off ≤ p ∧ item.body[p - item.off]? = some b

def Contiguous (run : List Item) : Prop := run.IsChain fun first second => continues first second

theorem continues_iff (first second : Item) :
    continues first second = true ↔
      first.body ≠ [] ∧ second.body ≠ [] ∧ second.off = first.off + first.body.length := by
  simp [continues, and_assoc]

variable {run : List Item}

theorem contiguous_of_mem_runs {items : List Item} (member : run ∈ runs items) : Contiguous run :=
  List.isChain_of_mem_splitBy member

variable {rest : List Item}

/-- Writing a run with one call writes each of its blocks. -/
theorem write_run (s : Sink) {first : Item} (contiguous : Contiguous (first :: rest)) :
    s.write first.off ((first :: rest).flatMap fun item => item.body) =
      (first :: rest).foldl Sink.writeItem s := by
  induction rest generalizing first s with
  | nil =>
    rw [List.flatMap_singleton]
    rfl
  | cons next more ih =>
    obtain ⟨hlink, hrest⟩ := List.isChain_cons_cons.mp contiguous
    have hoff := ((continues_iff first next).mp hlink).2.2
    rw [List.flatMap_cons, Sink.write_append, ← hoff, ih _ hrest]
    rfl

/-- Every byte of a run belongs to one of its blocks. -/
theorem at_of_run {first : Item} (contiguous : Contiguous (first :: rest)) {b : UInt8}
    (above : first.off ≤ p)
    (found : ((first :: rest).flatMap fun item => item.body)[p - first.off]? = some b) :
    ∃ item ∈ first :: rest, item.At p b := by
  induction rest generalizing first with
  | nil =>
    rw [List.flatMap_singleton] at found
    exact ⟨first, List.mem_singleton_self first, above, found⟩
  | cons next more ih =>
    obtain ⟨hlink, hrest⟩ := List.isChain_cons_cons.mp contiguous
    have hoff := ((continues_iff first next).mp hlink).2.2
    rw [List.flatMap_cons] at found
    rcases Nat.lt_or_ge (p - first.off) first.body.length with hearly | hlate
    · rw [List.getElem?_append_left hearly] at found
      exact ⟨first, List.mem_cons_self, above, found⟩
    · rw [List.getElem?_append_right hlate, Nat.sub_sub, ← hoff] at found
      obtain ⟨item, member, hat⟩ := ih hrest (by omega) found
      exact ⟨item, List.mem_cons_of_mem _ member, hat⟩

/-- A run has something to write in all of its blocks or in none. -/
theorem bodies_of_run (contiguous : Contiguous run) :
    (run.flatMap fun item => item.body) = [] ∨ ∀ item ∈ run, item.body ≠ [] := by
  induction run with
  | nil => exact Or.inl rfl
  | cons first rest ih =>
    cases rest with
    | nil =>
      rw [List.flatMap_singleton]
      by_cases hempty : first.body = []
      · exact Or.inl hempty
      · exact Or.inr fun item member => List.mem_singleton.mp member ▸ hempty
    | cons next more =>
      obtain ⟨hlink, hrest⟩ := List.isChain_cons_cons.mp contiguous
      obtain ⟨hfirst, hnext, _⟩ := (continues_iff first next).mp hlink
      refine Or.inr fun item member => ?_
      rcases ih hrest with hnone | hall
      · rw [List.flatMap_cons, List.append_eq_nil_iff] at hnone
        exact absurd hnone.1 hnext
      · rcases List.mem_cons.mp member with rfl | hmember
        · exact hfirst
        · exact hall item hmember

/-- Nothing but the bytes and their count differs. -/
structure Sink.SameShape (before after : Sink) : Prop where
  kind : after.kind = before.kind
  resumed : after.resumed = before.resumed
  total : after.total = before.total
  chunk : after.chunk = before.chunk
  nchunks : after.nchunks = before.nchunks
  adopted : after.adopted = before.adopted

theorem Sink.SameShape.refl (s : Sink) : s.SameShape s := ⟨rfl, rfl, rfl, rfl, rfl, rfl⟩

theorem Sink.SameShape.trans {first second third : Sink} (front : first.SameShape second)
    (back : second.SameShape third) : first.SameShape third where
  kind := back.kind.trans front.kind
  resumed := back.resumed.trans front.resumed
  total := back.total.trans front.total
  chunk := back.chunk.trans front.chunk
  nchunks := back.nchunks.trans front.nchunks
  adopted := back.adopted.trans front.adopted

/-- How blocks and their outcomes show in a sink: nothing is lost, every new byte
comes from one of the blocks, and all bytes of a written block are there. -/
structure Takes (before : Sink) (reported : List (Item × Completion)) (after : Sink) : Prop where
  shape : before.SameShape after
  kept : ∀ p, before.Holds p → after.Holds p
  source : ∀ p b, after.bytes p = some b →
    before.bytes p = some b ∨ ∃ r ∈ reported, r.1.At p b
  stored : ∀ r ∈ reported, r.2.result = .written → ∀ p b, r.1.At p b → after.Holds p

namespace Takes

variable {before middle after : Sink} {reported more : List (Item × Completion)}

theorem append (first : Takes before reported middle) (second : Takes middle more after) :
    Takes before (reported ++ more) after where
  shape := first.shape.trans second.shape
  kept := fun p holds => second.kept p (first.kept p holds)
  source := by
    intro p b found
    rcases second.source p b found with hmiddle | ⟨r, member, hat⟩
    · rcases first.source p b hmiddle with hbefore | ⟨r, member, hat⟩
      · exact Or.inl hbefore
      · exact Or.inr ⟨r, List.mem_append_left _ member, hat⟩
    · exact Or.inr ⟨r, List.mem_append_right _ member, hat⟩
  stored := by
    intro r member written p b hat
    rcases List.mem_append.mp member with hfirst | hsecond
    · exact second.kept p (first.stored r hfirst written p b hat)
    · exact second.stored r hsecond written p b hat

/-- Nothing is written for blocks without a body. -/
theorem unchanged (empty : ∀ r ∈ reported, r.1.body = []) : Takes before reported before where
  shape := Sink.SameShape.refl before
  kept := fun _ holds => holds
  source := fun _ _ found => Or.inl found
  stored := by
    intro r member _ p b hat
    have hfound := hat.2
    rw [empty r member] at hfound
    cases hfound

/-- A failed write leaves some of the bytes of its blocks. -/
theorem failed {first : Item} (contiguous : Contiguous (first :: rest)) (placed : Nat)
    (about : reported.map Prod.fst = first :: rest)
    (refused : ∀ r ∈ reported, r.2.result ≠ .written) :
    Takes before reported
      (before.place first.off (((first :: rest).flatMap fun item => item.body).take placed)) where
  shape := ⟨rfl, rfl, rfl, rfl, rfl, rfl⟩
  kept := fun p holds => Sink.place_holds holds _ _
  source := by
    intro p b found
    rcases Sink.place_source found with hbefore | ⟨habove, hbyte⟩
    · exact Or.inl hbefore
    · rw [List.getElem?_take] at hbyte
      split at hbyte
      · obtain ⟨item, member, hat⟩ := at_of_run contiguous habove hbyte
        rw [← about] at member
        obtain ⟨r, hr, rfl⟩ := List.mem_map.mp member
        exact Or.inr ⟨r, hr, hat⟩
      · cases hbyte
  stored := fun r member written => absurd written (refused r member)

theorem writeItem (s : Sink) (item : Item) (c : Completion) :
    Takes s [(item, c)] (s.writeItem item) where
  shape := ⟨rfl, rfl, rfl, rfl, rfl, rfl⟩
  kept := fun p holds => Sink.place_holds holds _ _
  source := by
    intro p b found
    rcases Sink.place_source found with hbefore | hbyte
    · exact Or.inl hbefore
    · exact Or.inr ⟨_, List.mem_singleton_self _, hbyte⟩
  stored := by
    intro r member _ p b hat
    rw [List.mem_singleton.mp member] at hat
    obtain ⟨habove, hbyte⟩ : item.off ≤ p ∧ item.body[p - item.off]? = some b := hat
    obtain ⟨hinside, _⟩ := List.getElem?_eq_some_iff.mp hbyte
    change (s.place item.off item.body).bytes p ≠ none
    rw [s.place_inside habove (by omega), hbyte]
    exact Option.some_ne_none b

theorem foldl_writeItem (s : Sink) (items : List Item) :
    Takes s (items.map fun item => (item, item.completion)) (items.foldl Sink.writeItem s) := by
  induction items generalizing s with
  | nil => exact unchanged (by simp)
  | cons item rest ih => exact (writeItem s item item.completion).append (ih (s.writeItem item))

end Takes

/-! ## What a batch reports -/

/-- The outcome of a block: as it was examined, or the write it was part of
failed. -/
inductive Reports (item : Item) : Completion → Prop where
  | examined : Reports item item.completion
  | ioFailed (something : item.body ≠ []) :
      Reports item { item.completion with result := .ioFailed, bytes := 0 }

def writeOf (lane : Nat) (reported : Item × Completion) : Option Write :=
  if reported.2.result = .written ∧ reported.1.body ≠ [] then
    some ⟨lane, reported.2.seq, reported.1.off, reported.1.body⟩
  else none

/-- The blocks of a batch, each with its outcome, and what became of them. -/
structure Settled (lane : Nat) (before : Batch) (reported : List (Item × Completion))
    (after : Batch) : Prop where
  completions : after.completions = before.completions ++ reported.map Prod.snd
  reports : ∀ r ∈ reported, Reports r.1 r.2
  writes : after.writes = before.writes ++ reported.filterMap (writeOf lane)
  takes : Takes before.sink reported after.sink

theorem Settled.append {lane : Nat} {before middle after : Batch}
    {reported more : List (Item × Completion)} (first : Settled lane before reported middle)
    (second : Settled lane middle more after) : Settled lane before (reported ++ more) after where
  completions := by
    rw [second.completions, first.completions, List.map_append, List.append_assoc]
  reports := fun r member =>
    (List.mem_append.mp member).elim (first.reports r) (second.reports r)
  writes := by
    rw [second.writes, first.writes, List.filterMap_append, List.append_assoc]
  takes := first.takes.append second.takes

/-- One run: nothing to write, written, or failed. -/
theorem writeRun_settled (lane : Nat) (failsAfter : Option Nat) (batch : Batch)
    (contiguous : Contiguous run) :
    ∃ reported, reported.map Prod.fst = run ∧
      Settled lane batch reported (writeRun lane failsAfter batch run) := by
  unfold writeRun
  rcases bodies_of_run contiguous with hnone | hall
  · refine ⟨run.map fun item => (item, item.completion), by simp [Function.comp_def], ?_⟩
    have hempty : ∀ r ∈ run.map (fun item => (item, item.completion)), r.1.body = [] := by
      intro r member
      obtain ⟨item, hitem, rfl⟩ := List.mem_map.mp member
      exact List.flatMap_eq_nil_iff.mp hnone item hitem
    rw [if_pos hnone]
    refine ⟨by simp [Function.comp_def], ?_, ?_, Takes.unchanged hempty⟩
    · intro r member
      obtain ⟨item, _, rfl⟩ := List.mem_map.mp member
      exact Reports.examined
    · rw [List.filterMap_eq_nil_iff.mpr, List.append_nil]
      intro r member
      exact if_neg fun both => both.2 (hempty r member)
  · cases run with
    | nil => exact ⟨[], rfl, by simp, by simp, by simp, Takes.unchanged (by simp)⟩
    | cons first rest =>
      have hbody : ((first :: rest).flatMap fun item => item.body) ≠ [] := by
        intro hempty
        exact hall first List.mem_cons_self
          (List.flatMap_eq_nil_iff.mp hempty first List.mem_cons_self)
      rw [if_neg hbody]
      cases failsAfter with
      | none =>
        refine ⟨(first :: rest).map fun item => (item, item.completion),
          by simp [Function.comp_def], by simp [Function.comp_def], ?_, ?_, ?_⟩
        · intro r member
          obtain ⟨item, _, rfl⟩ := List.mem_map.mp member
          exact Reports.examined
        · rw [List.filterMap_map]
          change batch.writes ++ List.map _ _ = _
          rw [← List.filterMap_eq_map]
          refine congrArg (batch.writes ++ ·) (List.filterMap_congr fun item member => ?_)
          exact (if_pos ⟨item.authentic (hall item member), hall item member⟩).symm
        · have htakes := Takes.foldl_writeItem batch.sink (first :: rest)
          rw [← write_run batch.sink contiguous] at htakes
          exact htakes
      | some placed =>
        refine ⟨(first :: rest).map fun item =>
            (item, { item.completion with result := .ioFailed, bytes := 0 }),
          by simp [Function.comp_def], by simp [Function.comp_def], ?_, ?_, ?_⟩
        · intro r member
          obtain ⟨item, hitem, rfl⟩ := List.mem_map.mp member
          exact Reports.ioFailed (hall item hitem)
        · rw [List.filterMap_eq_nil_iff.mpr, List.append_nil]
          intro r member
          obtain ⟨item, _, rfl⟩ := List.mem_map.mp member
          exact if_neg fun both => WriteResult.noConfusion both.1
        · refine Takes.failed contiguous placed (by simp [Function.comp_def]) ?_
          intro r member
          obtain ⟨item, _, rfl⟩ := List.mem_map.mp member
          exact fun impossible => WriteResult.noConfusion impossible

theorem writeRuns_settled (lane : Nat) (failsAfter : Nat → Option Nat) (i : Nat) (batch : Batch)
    {rs : List (List Item)} (contiguous : ∀ run ∈ rs, Contiguous run) :
    ∃ reported, reported.map Prod.fst = rs.flatten ∧
      Settled lane batch reported (writeRuns lane failsAfter i batch rs) := by
  induction rs generalizing i batch with
  | nil => exact ⟨[], rfl, by simp [writeRuns], by simp, by simp [writeRuns],
      Takes.unchanged (by simp)⟩
  | cons run rest ih =>
    obtain ⟨front, hfront, first⟩ := writeRun_settled lane (failsAfter i) batch
      (contiguous run List.mem_cons_self)
    obtain ⟨back, hback, second⟩ := ih (i + 1) (writeRun lane (failsAfter i) batch run)
      fun other member => contiguous other (List.mem_cons_of_mem _ member)
    exact ⟨front ++ back, by rw [List.map_append, hfront, hback, List.flatten_cons],
      first.append second⟩

theorem batch_settled (lane : Nat) (failsAfter : Nat → Option Nat) (batch : Batch)
    (items : List Item) :
    ∃ reported, reported.map Prod.fst = items ∧
      Settled lane batch reported (writeRuns lane failsAfter 0 batch (runs items)) := by
  have hcontiguous : ∀ run ∈ runs items, Contiguous run := fun run member =>
    contiguous_of_mem_runs member
  obtain ⟨reported, hitems, settled⟩ := writeRuns_settled lane failsAfter 0 batch hcontiguous
  exact ⟨reported, hitems.trans (List.flatten_splitBy _ items), settled⟩

end FuseTransport.Transfer
