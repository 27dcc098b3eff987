import FuseTransport.Transfer.Batch

/-!
# Chunks of a resumed file

A chunk counts as complete when as many bytes have been counted against it as it
has.  As long as no byte is written twice that is when all of its bytes are there,
so the parts a sink calls missing are all that is needed.
-/

namespace FuseTransport.Transfer

open Proto

theorem growChunk_pos (fuel totalBytes : Nat) {chunk : Nat} (positive : 0 < chunk) :
    0 < growChunk fuel totalBytes chunk := by
  induction fuel generalizing chunk with
  | zero => exact positive
  | succ fuel ih =>
    rw [growChunk]
    split
    · exact ih (Nat.mul_pos positive (by decide))
    · exact positive

theorem chunkFor_pos (totalBytes : Nat) : 0 < chunkFor totalBytes :=
  growChunk_pos 64 totalBytes (by decide)

variable {p : Nat}

theorem div_eq_iff_chunk {chunk c : Nat} (positive : 0 < chunk) :
    p / chunk = c ↔ c * chunk ≤ p ∧ p < (c + 1) * chunk := by
  constructor
  · rintro rfl
    exact ⟨Nat.div_mul_le_self p chunk, by
      rw [Nat.mul_comm]
      exact Nat.lt_mul_div_succ p positive⟩
  · rintro ⟨habove, hbelow⟩
    exact Nat.div_eq_of_lt_le habove hbelow

namespace Sink

variable {s : Sink} {first last c : Nat} {out : List ResumeRange}

/-! ## The parts that are missing -/

/-- One more chunk: complete, or part of the list from now on. -/
theorem addMissing_spec {middle a b : Nat} (ascending : Ascending first middle out)
    (ha : a = max first (c * s.chunk)) (hb : b = min last (min s.total ((c + 1) * s.chunk)))
    (start : middle ≤ a) (order : a ≤ b) :
    Ascending first b (s.addMissing first last out c) ∧
      (∀ p, Names out p → Names (s.addMissing first last out c) p) ∧
      (s.chunkComplete c = false → ∀ p, a ≤ p → p < b →
        Names (s.addMissing first last out c) p) := by
  unfold addMissing
  cases hcomplete : s.chunkComplete c with
  | true =>
    refine ⟨ascending.mono (Nat.le_refl _) (Nat.le_trans start order), fun _ named => named, ?_⟩
    exact fun impossible => absurd impossible (by decide)
  | false =>
    rw [← ha, ← hb, if_neg (by decide)]
    have hwhole : a + (b - a) = b := Nat.add_sub_cancel' order
    rcases List.eq_nil_or_concat out with rfl | ⟨front, back, hout⟩
    · refine ⟨.cons (ha ▸ Nat.le_max_left _ _) (.nil (Nat.le_of_eq hwhole)), ?_, ?_⟩
      · rintro p ⟨r, member, _⟩
        cases member
      · intro _ p habove hbelow
        exact ⟨_, List.mem_singleton_self _, habove, Nat.lt_of_lt_of_eq hbelow hwhole.symm⟩
    · rw [List.concat_eq_append] at hout
      subst hout
      rw [List.getLast?_concat, List.dropLast_concat]
      dsimp only
      split
      · obtain ⟨edge, hfront, hedge, _⟩ := ascending.snoc_inv
        have hend : back.offset + (back.length + (b - a)) = b := by omega
        refine ⟨hfront.snoc hedge (Nat.le_of_eq hend), ?_, ?_⟩
        · rintro p ⟨r, member, habove, hbelow⟩
          rcases List.mem_append.mp member with hold | hnew
          · exact ⟨r, List.mem_append_left _ hold, habove, hbelow⟩
          · rw [List.mem_singleton.mp hnew] at habove hbelow
            exact ⟨_, List.mem_append_right _ (List.mem_singleton_self _), habove, by
              change p < back.offset + (back.length + (b - a))
              omega⟩
        · intro _ p habove hbelow
          refine ⟨_, List.mem_append_right _ (List.mem_singleton_self _), ?_, ?_⟩
          · change back.offset ≤ p
            omega
          · change p < back.offset + (back.length + (b - a))
            omega
      · refine ⟨ascending.snoc start (Nat.le_of_eq hwhole), ?_, ?_⟩
        · exact fun p named => named.append_left _
        · intro _ p habove hbelow
          exact ⟨_, List.mem_append_right _ (List.mem_singleton_self _), habove,
            Nat.lt_of_lt_of_eq hbelow hwhole.symm⟩

/-- A chunk between the first and the last byte of a range has a byte in it. -/
theorem chunk_meets (nonempty : first < last) (inside : last ≤ s.total) (positive : 0 < s.chunk)
    (from_first : first / s.chunk ≤ c) (to_last : c ≤ (last - 1) / s.chunk) :
    max first (c * s.chunk) < min last (min s.total ((c + 1) * s.chunk)) := by
  have hstart : c * s.chunk ≤ last - 1 :=
    Nat.le_trans (Nat.mul_le_mul_right s.chunk to_last) (Nat.div_mul_le_self _ _)
  have hfirst : first < (c + 1) * s.chunk := by
    have hup := Nat.lt_mul_div_succ first positive
    rw [Nat.mul_comm] at hup
    exact Nat.lt_of_lt_of_le hup (Nat.mul_le_mul_right s.chunk (Nat.succ_le_succ from_first))
  have hnext : (c + 1) * s.chunk = c * s.chunk + s.chunk := Nat.succ_mul c s.chunk
  omega

/-- The loop over the chunks of a range, from chunk `c` on. -/
theorem foldl_addMissing_spec (positive : 0 < s.chunk) (nonempty : first < last)
    (inside : last ≤ s.total) (count : Nat)
    (ascending : Ascending first (min last (max first (c * s.chunk))) out)
    (from_first : first / s.chunk ≤ c) (to_last : c + count ≤ (last - 1) / s.chunk + 1) :
    Ascending first last ((List.range' c count).foldl (s.addMissing first last) out) ∧
      (∀ p, Names out p → Names ((List.range' c count).foldl (s.addMissing first last) out) p) ∧
      (∀ p, first ≤ p → p < last → c ≤ p / s.chunk → p / s.chunk < c + count →
        s.chunkComplete (p / s.chunk) = false →
        Names ((List.range' c count).foldl (s.addMissing first last) out) p) := by
  induction count generalizing c out with
  | zero =>
    refine ⟨ascending.mono (Nat.le_refl _) (Nat.min_le_left _ _), fun _ named => named, ?_⟩
    intro p _ _ hlow hhigh
    omega
  | succ count ih =>
    have hc : c ≤ (last - 1) / s.chunk := by omega
    have horder := chunk_meets nonempty inside positive from_first hc
    obtain ⟨hasc, hkept, hadded⟩ := addMissing_spec ascending rfl rfl
      (Nat.min_le_right last (max first (c * s.chunk))) (Nat.le_of_lt horder)
    have hedge : min last (max first ((c + 1) * s.chunk)) =
        min last (min s.total ((c + 1) * s.chunk)) := by omega
    rw [← hedge] at hasc
    obtain ⟨hdone, hmore, hnames⟩ := ih hasc (Nat.le_succ_of_le from_first) (by omega)
    refine ⟨hdone, fun p named => hmore p (hkept p named), ?_⟩
    intro p habove hbelow hlow hhigh hincomplete
    rcases Nat.eq_or_lt_of_le hlow with hhere | hlater
    · have hplace := (div_eq_iff_chunk positive).mp hhere.symm
      rw [← hhere] at hincomplete
      exact hmore p (hadded hincomplete p (by omega) (by omega))
    · exact hnames p habove hbelow hlater (by omega) hincomplete

/-- The parts a sink calls missing: in order, inside the range, and everything
that is not in a complete chunk. -/
theorem missing_spec (order : first ≤ last) (inside : last ≤ s.total)
    (chunks : s.resumed = true → 0 < s.chunk ∧ s.total ≤ s.nchunks * s.chunk) :
    Ascending first last (s.missing first last) ∧
      ∀ p, first ≤ p → p < last → Names (s.missing first last) p ∨
        (s.resumed = true ∧ s.chunkComplete (p / s.chunk) = true) := by
  unfold missing
  split
  · split
    · have hwhole : first + (last - first) = last := Nat.add_sub_cancel' order
      refine ⟨.cons (Nat.le_refl _) (.nil (Nat.le_of_eq hwhole)), ?_⟩
      intro p habove hbelow
      exact Or.inl ⟨_, List.mem_singleton_self _, habove, by
        change p < first + (last - first)
        omega⟩
    · refine ⟨.nil order, ?_⟩
      intro p habove hbelow
      omega
  · rename_i hchunks
    rw [not_or, Bool.not_eq_false, Nat.not_le] at hchunks
    obtain ⟨hresumed, hnonempty⟩ := hchunks
    obtain ⟨hpositive, htiles⟩ := chunks hresumed
    have hstart : Ascending first (min last (max first (first / s.chunk * s.chunk))) [] :=
      .nil (Nat.le_min.mpr ⟨order, Nat.le_max_left _ _⟩)
    have hordered : first / s.chunk ≤ (last - 1) / s.chunk := Nat.div_le_div_right (by omega)
    obtain ⟨hasc, _, hnames⟩ := foldl_addMissing_spec hpositive hnonempty inside
      (min ((last - 1) / s.chunk + 1) s.nchunks - first / s.chunk) hstart (Nat.le_refl _) (by omega)
    refine ⟨hasc, ?_⟩
    intro p habove hbelow
    cases hcomplete : s.chunkComplete (p / s.chunk) with
    | true => exact Or.inr ⟨hresumed, rfl⟩
    | false =>
      have hlow : first / s.chunk ≤ p / s.chunk := Nat.div_le_div_right habove
      have hhigh : p / s.chunk ≤ (last - 1) / s.chunk := Nat.div_le_div_right (by omega)
      have hlast : p / s.chunk < s.nchunks := by
        rw [Nat.div_lt_iff_lt_mul hpositive]
        omega
      exact Or.inl (hnames p habove hbelow hlow (by omega) hcomplete)

def heldIn (s : Sink) (c : Nat) : Finset Nat :=
  (Finset.Ico (c * s.chunk) (min s.total ((c + 1) * s.chunk))).filter fun p => (s.bytes p).isSome

theorem mem_heldIn :
    p ∈ s.heldIn c ↔ (c * s.chunk ≤ p ∧ p < min s.total ((c + 1) * s.chunk)) ∧ s.Holds p := by
  rw [heldIn, Finset.mem_filter, Finset.mem_Ico, Holds, Option.isSome_iff_ne_none]

def Counted (s : Sink) : Prop :=
  ∀ c < s.nchunks, s.adopted c = false → s.counters c ≤ (s.heldIn c).card

/-- A chunk of this session that counts as complete has all of its bytes. -/
theorem Counted.complete (counted : s.Counted) (positive : 0 < s.chunk) (inside : p < s.total)
    (last : p / s.chunk < s.nchunks) (own : s.adopted (p / s.chunk) = false)
    (complete : s.chunkComplete (p / s.chunk) = true) :
    s.Holds p := by
  have hplace := (div_eq_iff_chunk positive).mp (Eq.refl (p / s.chunk))
  have hnext : (p / s.chunk + 1) * s.chunk = p / s.chunk * s.chunk + s.chunk :=
    Nat.succ_mul _ s.chunk
  have hcount := Nat.le_trans (of_decide_eq_true complete) (counted _ last own)
  have hsize : (Finset.Ico (p / s.chunk * s.chunk)
      (min s.total ((p / s.chunk + 1) * s.chunk))).card ≤ (s.heldIn (p / s.chunk)).card := by
    rw [Nat.card_Ico]
    unfold chunkLen at hcount
    omega
  have hall := Finset.eq_of_subset_of_card_le (Finset.filter_subset _ _) hsize
  have hmember : p ∈ s.heldIn (p / s.chunk) := by
    rw [heldIn, hall, Finset.mem_Ico]
    omega
  exact (mem_heldIn.mp hmember).2

theorem Counted.place (counted : s.Counted) (offset : Nat) (body : List UInt8) :
    (s.place offset body).Counted := by
  intro c hc own
  refine Nat.le_trans (counted c hc own) (Finset.card_le_card fun p member => ?_)
  obtain ⟨hplace, hholds⟩ := mem_heldIn.mp member
  exact mem_heldIn.mpr ⟨hplace, place_holds hholds offset body⟩

/-- Bytes written for the first time are counted as often as they are held. -/
theorem Counted.write (counted : s.Counted) {offset : Nat} {body : List UInt8}
    (fresh : ∀ p, offset ≤ p → p < offset + body.length → ¬ s.Holds p)
    (inside : offset + body.length ≤ s.total) : (s.write offset body).Counted := by
  intro c hc own
  have hcounters : (s.write offset body).counters c =
      u64 (s.counters c + s.chunkShare offset (offset + body.length) c) := if_pos hc
  have hdisjoint : Disjoint (s.heldIn c) (Finset.Ico (max offset (c * s.chunk))
      (min (offset + body.length) ((c + 1) * s.chunk))) := by
    refine Finset.disjoint_left.mpr fun p hheld hnew => ?_
    rw [Finset.mem_Ico] at hnew
    exact fresh p (by omega) (by omega) (mem_heldIn.mp hheld).2
  have hsubset : s.heldIn c ∪ Finset.Ico (max offset (c * s.chunk))
      (min (offset + body.length) ((c + 1) * s.chunk)) ⊆ (s.write offset body).heldIn c := by
    intro p member
    rcases Finset.mem_union.mp member with hheld | hnew
    · obtain ⟨hplace, hholds⟩ := mem_heldIn.mp hheld
      exact mem_heldIn.mpr ⟨hplace, place_holds hholds offset body⟩
    · rw [Finset.mem_Ico] at hnew
      refine mem_heldIn.mpr ⟨?_, ?_⟩
      · change c * s.chunk ≤ p ∧ p < min s.total ((c + 1) * s.chunk)
        omega
      · change (s.place offset body).bytes p ≠ none
        rw [s.place_inside (by omega) (by omega), List.getElem?_eq_getElem (by omega)]
        exact Option.some_ne_none _
  calc (s.write offset body).counters c
      ≤ s.counters c + s.chunkShare offset (offset + body.length) c :=
        hcounters ▸ Nat.mod_le _ _
    _ ≤ (s.heldIn c).card + (Finset.Ico (max offset (c * s.chunk))
          (min (offset + body.length) ((c + 1) * s.chunk))).card := by
        rw [Nat.card_Ico]
        exact Nat.add_le_add_right (counted c hc own) _
    _ = (s.heldIn c ∪ Finset.Ico (max offset (c * s.chunk))
          (min (offset + body.length) ((c + 1) * s.chunk))).card :=
        (Finset.card_union_of_disjoint hdisjoint).symm
    _ ≤ ((s.write offset body).heldIn c).card := Finset.card_le_card hsubset

end Sink

/-- The positions a block is written to. -/
def Item.spots (item : Item) : List Nat := List.range' item.off item.body.length

theorem Item.mem_spots (item : Item) (p : Nat) : p ∈ item.spots ↔ ∃ b, item.At p b := by
  rw [Item.spots, List.mem_range'_1]
  constructor
  · rintro ⟨habove, hbelow⟩
    have hinside : p - item.off < item.body.length := by omega
    exact ⟨item.body[p - item.off], habove, List.getElem?_eq_getElem hinside⟩
  · rintro ⟨b, habove, hbyte⟩
    obtain ⟨hinside, _⟩ := List.getElem?_eq_some_iff.mp hbyte
    omega

/-- No position of the blocks holds a byte yet, and none comes twice. -/
structure Unwritten (s : Sink) (items : List Item) : Prop where
  once : (items.flatMap Item.spots).Nodup
  fresh : ∀ p ∈ items.flatMap Item.spots, ¬ s.Holds p
  inside : ∀ p ∈ items.flatMap Item.spots, p < s.total

namespace Unwritten

variable {s after : Sink} {front items : List Item}

theorem left (unwritten : Unwritten s (front ++ items)) : Unwritten s front := by
  obtain ⟨honce, hfresh, hinside⟩ := unwritten
  rw [List.flatMap_append] at honce hfresh hinside
  exact ⟨(List.nodup_append.mp honce).1, fun p member => hfresh p (List.mem_append_left _ member),
    fun p member => hinside p (List.mem_append_left _ member)⟩

/-- What is left stays unwritten while the blocks in front of it are written. -/
theorem right (unwritten : Unwritten s (front ++ items)) (total : after.total = s.total)
    (source : ∀ p, after.Holds p → s.Holds p ∨ p ∈ front.flatMap Item.spots) :
    Unwritten after items := by
  obtain ⟨honce, hfresh, hinside⟩ := unwritten
  rw [List.flatMap_append] at honce hfresh hinside
  obtain ⟨_, hitems, hapart⟩ := List.nodup_append.mp honce
  refine ⟨hitems, fun p member held => ?_, fun p member => ?_⟩
  · rcases source p held with hbefore | hfront
    · exact hfresh p (List.mem_append_right _ member) hbefore
    · exact hapart p hfront p member rfl
  · rw [total]
    exact hinside p (List.mem_append_right _ member)

end Unwritten

theorem Takes.source_spots {before after : Sink} {reported : List (Item × Completion)}
    (takes : Takes before reported after) (p : Nat) (held : after.Holds p) :
    before.Holds p ∨ p ∈ (reported.map Prod.fst).flatMap Item.spots := by
  obtain ⟨b, hb⟩ := Option.ne_none_iff_exists'.mp held
  rcases takes.source p b hb with hbefore | ⟨r, member, hat⟩
  · exact Or.inl (by rw [Sink.Holds, hbefore]; exact Option.some_ne_none b)
  · exact Or.inr (List.mem_flatMap.mpr
      ⟨r.1, List.mem_map_of_mem member, (r.1.mem_spots p).mpr ⟨b, hat⟩⟩)

theorem Item.inside_of_unwritten {s : Sink} {item : Item} (something : item.body ≠ [])
    (inside : ∀ p ∈ item.spots, p < s.total) : item.off + item.body.length ≤ s.total := by
  have hpos := List.length_pos_of_ne_nil something
  have hlast := inside (item.off + item.body.length - 1)
    (by rw [Item.spots, List.mem_range'_1]; omega)
  omega

theorem foldl_writeItem_counted {s : Sink} {items : List Item} (counted : s.Counted)
    (unwritten : Unwritten s items) (bodies : ∀ item ∈ items, item.body ≠ []) :
    (items.foldl Sink.writeItem s).Counted := by
  induction items generalizing s with
  | nil => exact counted
  | cons item rest ih =>
    have hsplit : Unwritten s ([item] ++ rest) := unwritten
    obtain ⟨_, hfresh, hinside⟩ := hsplit.left
    rw [List.flatMap_singleton] at hfresh hinside
    have htakes := Takes.writeItem s item item.completion
    refine ih (counted.write (fun p habove hbelow => hfresh p ?_)
      (Item.inside_of_unwritten (bodies item List.mem_cons_self) hinside)) ?_
      fun other member => bodies other (List.mem_cons_of_mem _ member)
    · rw [Item.spots, List.mem_range'_1]
      exact ⟨habove, hbelow⟩
    · exact hsplit.right rfl fun p held => htakes.source_spots p held

theorem writeRun_counted (lane : Nat) (failsAfter : Option Nat) {batch : Batch} {run : List Item}
    (contiguous : Contiguous run) (counted : batch.sink.Counted)
    (unwritten : Unwritten batch.sink run) :
    (writeRun lane failsAfter batch run).sink.Counted := by
  unfold writeRun
  rcases bodies_of_run contiguous with hnone | hall
  · rw [if_pos hnone]
    exact counted
  · dsimp only
    split
    · exact counted
    · rename_i hbody
      cases failsAfter with
      | some placed => exact counted.place _ _
      | none =>
        cases run with
        | nil => exact absurd rfl hbody
        | cons first rest =>
          have hfolded := foldl_writeItem_counted counted unwritten hall
          rw [← write_run batch.sink contiguous] at hfolded
          exact hfolded

/-- A batch that writes no byte twice keeps the counts honest. -/
theorem writeRuns_counted (lane : Nat) (failsAfter : Nat → Option Nat) (i : Nat) {batch : Batch}
    {rs : List (List Item)} (contiguous : ∀ run ∈ rs, Contiguous run)
    (counted : batch.sink.Counted) (unwritten : Unwritten batch.sink rs.flatten) :
    (writeRuns lane failsAfter i batch rs).sink.Counted := by
  induction rs generalizing i batch with
  | nil => exact counted
  | cons run rest ih =>
    obtain ⟨reported, hitems, settled⟩ := writeRun_settled lane (failsAfter i) batch
      (contiguous run List.mem_cons_self)
    refine ih (i + 1) (fun other member => contiguous other (List.mem_cons_of_mem _ member))
      (writeRun_counted lane (failsAfter i) (contiguous run List.mem_cons_self) counted
        unwritten.left) ?_
    refine unwritten.right settled.takes.shape.total fun p held => ?_
    have hsource := settled.takes.source_spots p held
    rwa [hitems] at hsource

end FuseTransport.Transfer
