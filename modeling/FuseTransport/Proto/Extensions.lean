import Mathlib.Data.Nat.Bitwise
import FuseTransport.Foundation.Records
import FuseTransport.Foundation.Splice
import FuseTransport.Proto.Control

/-!
# Extension areas

An extension area is a row of entries, each a type, a length and a value.  The code walks
through it with an offset; every step is checked before it is made.  The walk accepts exactly
the rows of entries without a critical type, and finds the entries that were appended.
-/

namespace FuseTransport.Proto

open Foundation Foundation.BigEndian Foundation.Records Foundation.Splice

/-- One entry; the code keeps the length of the value beside it. -/
structure Extension where
  type : Nat
  value : List UInt8
  deriving DecidableEq, Repr

/-- The numbers of an entry are within their wire fields. -/
structure Extension.Fits (ext : Extension) : Prop where
  type : ext.type < 2 ^ 16
  value : ext.value.length < 2 ^ 16

def Extension.bytes (ext : Extension) : List UInt8 :=
  put 2 ext.type ++ put 2 ext.value.length ++ ext.value

def nextExtensionAt (area : List UInt8) (off : Nat) : Option (Extension × Nat) :=
  if u64 (off + 4) > area.length then none
  else
    let len := getAt 2 (off + 2) area
    if len > u64Sub (u64Sub area.length off) 4 then none
    else some (⟨getAt 2 off area, (area.drop (off + 4)).take len⟩, u64 (off + (4 + len)))

/-- The loop of `extensions_acceptable`; `none` when it has not ended after `fuel` turns. -/
def acceptLoop (area : List UInt8) : Nat → Nat → Option Bool
  | 0, off => if off < area.length then none else some true
  | fuel + 1, off =>
    if off < area.length then
      match nextExtensionAt area off with
      | none => some false
      | some (ext, behind) =>
        if ext.type &&& kExtensionCritical ≠ 0 then some false
        else acceptLoop area fuel behind
    else some true

/-- Call `next_extension` until it returns false: the entries and the offset it leaves; `none`
when it has not ended after `fuel` calls. -/
def iterateExtensions (area : List UInt8) : Nat → Nat → Option (List Extension × Nat)
  | 0, _ => none
  | fuel + 1, off =>
    match nextExtensionAt area off with
    | none => some ([], off)
    | some (ext, behind) =>
      (iterateExtensions area fuel behind).map fun found => (ext :: found.1, found.2)

/-- Write an entry behind the `used` bytes of an area of `cap` bytes: the area, and how much of
it is used then, 0 if the entry does not fit. -/
def appendExtension (area : List UInt8) (cap used : Nat) (ext : Extension) : List UInt8 × Nat :=
  if used > cap ∨ cap - used < 4 + ext.value.length then (area, 0)
  else (splice 0 area used ext.bytes, used + 4 + ext.value.length)

/-- Append entries one after the other. -/
def appendExtensions (cap : Nat) : List UInt8 × Nat → List Extension → List UInt8 × Nat
  | built, [] => built
  | built, ext :: rest => appendExtensions cap (appendExtension built.1 cap built.2 ext) rest

@[simp]
theorem Extension.length_bytes (ext : Extension) : ext.bytes.length = 4 + ext.value.length := by
  simp [Extension.bytes]
  omega

def frontExtension (area : List UInt8) : Option (Extension × List UInt8) :=
  if area.length < 4 then none
  else if getAt 2 2 area > area.length - 4 then none
  else some (⟨getAt 2 0 area, (area.drop 4).take (getAt 2 2 area)⟩, area.drop (4 + getAt 2 2 area))

theorem nextExtension_eq (area : List UInt8) :
    nextExtension area = (frontExtension area).map fun found => (found.1.type, found.2) := by
  unfold nextExtension frontExtension
  split
  · rfl
  · split <;> rfl

variable {ext : Extension}

theorem frontExtension_complete (fits : ext.Fits) (rest : List UInt8) :
    frontExtension (ext.bytes ++ rest) = some (ext, rest) := by
  have htype : getAt 2 0 (ext.bytes ++ rest) = ext.type := by
    exact getAt_put _ fits.type
  have hlen : getAt 2 2 (ext.bytes ++ rest) = ext.value.length := by
    exact getAt_put _ fits.value
  have hvalue : (ext.bytes ++ rest).drop 4 = ext.value ++ rest := by
    rw [Extension.bytes, List.append_assoc]
    exact List.drop_left' (by simp)
  have hlength : (ext.bytes ++ rest).length = 4 + ext.value.length + rest.length := by
    rw [List.length_append, Extension.length_bytes]
  unfold frontExtension
  rw [htype, hlen, hvalue, if_neg (by omega), if_neg (by omega), List.take_left',
    List.drop_left' (Extension.length_bytes ext)]
  rfl

theorem frontExtension_sound {area rest : List UInt8}
    (found : frontExtension area = some (ext, rest)) : ext.Fits ∧ area = ext.bytes ++ rest := by
  unfold frontExtension at found
  split at found
  · cases found
  · split at found
    · cases found
    · cases found
      have htype := getAt_lt 2 0 area
      have hlen := getAt_lt 2 2 area
      have hvalue : ((area.drop 4).take (getAt 2 2 area)).length = getAt 2 2 area := by
        rw [List.length_take, List.length_drop]
        omega
      refine ⟨⟨htype, hvalue.trans_lt hlen⟩, ?_⟩
      have hfields : put 2 (getAt 2 0 area) ++ put 2 (getAt 2 2 area) = area.take 4 := by
        rw [put_getAt_zero (by omega), take_put (by omega)]
      rw [Extension.bytes, hvalue, hfields, take_slice, List.take_append_drop]

theorem reads_frontExtension : Reads frontExtension Extension.bytes Extension.Fits where
  complete := fun _ rest fits => frontExtension_complete fits rest
  sound := fun _ _ _ found => frontExtension_sound found
  nonempty := by
    intro ext hempty
    have hlength := ext.length_bytes
    rw [hempty, List.length_nil] at hlength
    omega

structure Extension.Optional (ext : Extension) : Prop where
  type : ext.type < 0x8000
  value : ext.value.length < 2 ^ 16

theorem critical_iff {type : Nat} (fits : type < 2 ^ 16) :
    type &&& kExtensionCritical ≠ 0 ↔ ¬ type < 0x8000 := by
  have hbit : type &&& kExtensionCritical = (type.testBit 15).toNat * 2 ^ 15 :=
    Nat.and_two_pow type 15
  rw [hbit, Nat.testBit_eq_decide_div_mod_eq]
  by_cases hset : type / 2 ^ 15 % 2 = 1
  · rw [decide_eq_true hset]
    refine iff_of_true (by decide) ?_
    omega
  · rw [decide_eq_false hset]
    refine iff_of_false (by decide) ?_
    omega

def optionalExtension (area : List UInt8) : Option (Extension × List UInt8) :=
  (frontExtension area).filter fun found => found.1.type &&& kExtensionCritical = 0

theorem reads_optionalExtension :
    Reads optionalExtension Extension.bytes Extension.Optional where
  complete := by
    intro ext rest optional
    have hfits : ext.Fits := ⟨Nat.lt_trans optional.type (by decide), optional.value⟩
    have hplain := not_not.mp (mt (critical_iff hfits.type).mp (not_not.mpr optional.type))
    rw [optionalExtension, frontExtension_complete hfits]
    exact Option.filter_some_pos (decide_eq_true hplain)
  sound := by
    intro area ext rest found
    obtain ⟨hfound, hplain⟩ := Option.filter_eq_some_iff.mp found
    obtain ⟨hfits, harea⟩ := frontExtension_sound hfound
    refine ⟨⟨?_, hfits.value⟩, harea⟩
    exact not_not.mp fun hlarge => (critical_iff hfits.type).mpr hlarge (of_decide_eq_true hplain)
  nonempty := reads_frontExtension.nonempty

/-- The recursion on the area reads it to its end. -/
theorem extensionsAcceptableFrom_eq (fuel : Nat) (area : List UInt8) :
    extensionsAcceptableFrom fuel area = decide ((readAll optionalExtension fuel area).2 = []) := by
  induction fuel generalizing area with
  | zero => cases area <;> rfl
  | succ fuel ih =>
    rw [extensionsAcceptableFrom, readAll]
    cases area with
    | nil => rw [reads_optionalExtension.nil]; rfl
    | cons byte area =>
      rw [nextExtension_eq, optionalExtension]
      cases hfound : frontExtension (byte :: area) with
      | none => simp
      | some found =>
        by_cases hplain : found.1.type &&& kExtensionCritical = 0
        · simp [Option.filter_some_pos, hplain, ih]
        · simp [Option.filter_some_neg, hplain]

/-! ## The walk -/

variable {fuel : Nat}

section Walk

variable {area : List UInt8} {off : Nat}

/-- The entry at an offset is the front entry of what is behind it. -/
theorem nextExtensionAt_eq (small : area.length + 4 < 2 ^ 64) (inside : off ≤ area.length) :
    nextExtensionAt area off =
      (frontExtension (area.drop off)).map fun found => (found.1, off + found.1.bytes.length) := by
  have hfield : ∀ i, getAt 2 (off + i) area = getAt 2 i (area.drop off) := by
    intro i
    rw [getAt, getAt, List.drop_drop]
  have hleft : u64Sub area.length off = area.length - off := u64Sub_of_le inside (by omega)
  unfold nextExtensionAt frontExtension
  rw [u64_of_lt (by omega), List.length_drop, hleft]
  by_cases hshort : area.length - off < 4
  · rw [if_pos (by omega), if_pos hshort]
    rfl
  · rw [if_neg (by omega)]
    dsimp only
    rw [hfield 2, ← Nat.add_zero off, hfield 0, Nat.add_zero, u64Sub_of_le (by omega) (by omega)]
    split
    · rfl
    · have hvalue : ((area.drop (off + 4)).take (getAt 2 2 (area.drop off))).length =
          getAt 2 2 (area.drop off) := by
        rw [List.length_take, List.length_drop]
        omega
      rw [Option.map_some, Extension.length_bytes, List.drop_drop, hvalue, u64_of_lt (by omega)]

theorem drop_front {rest : List UInt8} (found : frontExtension (area.drop off) = some (ext, rest)) :
    area.drop (off + ext.bytes.length) = rest ∧ off + ext.bytes.length ≤ area.length ∧
      off < off + ext.bytes.length := by
  obtain ⟨_, harea⟩ := frontExtension_sound found
  have hlength := congrArg List.length harea
  rw [List.length_drop, List.length_append, Extension.length_bytes] at hlength
  rw [Extension.length_bytes]
  refine ⟨?_, by omega, by omega⟩
  rw [← List.drop_drop, harea]
  exact List.drop_left' (Extension.length_bytes ext)

/-- Each turn of the loop leaves a shorter rest, so that it ends, with the answer of the
recursion. -/
theorem acceptLoop_eq (small : area.length + 4 < 2 ^ 64) (inside : off ≤ area.length)
    (enough : area.length - off ≤ fuel) :
    acceptLoop area fuel off =
      some (decide ((readAll optionalExtension fuel (area.drop off)).2 = [])) := by
  induction fuel generalizing off with
  | zero =>
    have hend : off = area.length := by omega
    rw [acceptLoop, if_neg (by omega), hend, List.drop_length]
    rfl
  | succ fuel ih =>
    rw [acceptLoop]
    by_cases hmore : off < area.length
    · have hrest : area.drop off ≠ [] := by
        intro hnil
        have := List.drop_eq_nil_iff.mp hnil
        omega
      rw [if_pos hmore, nextExtensionAt_eq small inside, readAll, optionalExtension]
      cases hfound : frontExtension (area.drop off) with
      | none => simp [hrest]
      | some found =>
        obtain ⟨hdrop, hinside, hlater⟩ := drop_front hfound
        by_cases hplain : found.1.type &&& kExtensionCritical = 0
        · have honward := ih hinside (by omega)
          rw [hdrop, Extension.length_bytes] at honward
          simp [Option.filter_some_pos, hplain, honward]
        · simp [Option.filter_some_neg, hplain, hrest]
    · have hend : off = area.length := by omega
      rw [if_neg hmore, hend, List.drop_length]
      rfl

/-- Calling `next_extension` until it returns false reads the entries of the area. -/
theorem iterateExtensions_eq (small : area.length + 4 < 2 ^ 64) (inside : off ≤ area.length)
    (enough : area.length - off ≤ fuel) :
    iterateExtensions area (fuel + 1) off =
      some ((readAll frontExtension fuel (area.drop off)).1,
        area.length - (readAll frontExtension fuel (area.drop off)).2.length) := by
  induction fuel generalizing off with
  | zero =>
    have hend : off = area.length := by omega
    rw [iterateExtensions, nextExtensionAt_eq small inside, hend, List.drop_length]
    rfl
  | succ fuel ih =>
    rw [iterateExtensions, nextExtensionAt_eq small inside, readAll]
    cases hfound : frontExtension (area.drop off) with
    | none =>
      have hback : area.length - (area.length - off) = off := by omega
      rw [List.length_drop, hback]
      rfl
    | some found =>
      obtain ⟨hdrop, hinside, hlater⟩ := drop_front hfound
      have honward := ih hinside (by omega)
      rw [hdrop] at honward
      rw [Option.map_some]
      dsimp only
      rw [honward]
      rfl

/-- The entries of a row of entries, to its end. -/
theorem iterateExtensions_flatMap {entries : List Extension} (fits : ∀ ext ∈ entries, ext.Fits)
    (small : (entries.flatMap Extension.bytes).length + 4 < 2 ^ 64)
    (enough : (entries.flatMap Extension.bytes).length < fuel) :
    iterateExtensions (entries.flatMap Extension.bytes) fuel 0 =
      some (entries, (entries.flatMap Extension.bytes).length) := by
  obtain ⟨fuel, rfl⟩ := Nat.exists_eq_add_one_of_ne_zero (Nat.ne_of_gt (Nat.zero_lt_of_lt enough))
  rw [iterateExtensions_eq small (Nat.zero_le _) (by omega), List.drop_zero,
    reads_frontExtension.readAll_flatMap fits (by omega)]
  rfl

end Walk

section Append

variable {area : List UInt8} {cap used : Nat}

theorem appendExtension_refused (full : cap < used + 4 + ext.value.length) :
    appendExtension area cap used ext = (area, 0) :=
  if_pos (by omega)

theorem appendExtension_fits (room : used + 4 + ext.value.length ≤ cap) :
    appendExtension area cap used ext =
      (splice 0 area used ext.bytes, used + 4 + ext.value.length) :=
  if_neg (by omega)

/-- An entry that fits stands behind the used bytes. -/
theorem take_appendExtension (room : used + 4 + ext.value.length ≤ cap)
    (whole : cap ≤ area.length) :
    (appendExtension area cap used ext).1.length = area.length ∧
      (appendExtension area cap used ext).1.take (appendExtension area cap used ext).2 =
        area.take used ++ ext.bytes := by
  have hlength := ext.length_bytes
  rw [appendExtension_fits room]
  refine ⟨by rw [length_splice]; omega, ?_⟩
  rw [splice, if_neg (by omega)]
  exact List.take_left' (by rw [List.length_append, List.length_take]; omega)

/-- Entries that fit together stand one behind the other. -/
theorem take_appendExtensions {entries : List Extension}
    (room : used + (entries.flatMap Extension.bytes).length ≤ cap) (whole : cap ≤ area.length) :
    (appendExtensions cap (area, used) entries).2 =
        used + (entries.flatMap Extension.bytes).length ∧
      (appendExtensions cap (area, used) entries).1.take
          (appendExtensions cap (area, used) entries).2 =
        area.take used ++ entries.flatMap Extension.bytes := by
  induction entries generalizing area used with
  | nil => exact ⟨rfl, (List.append_nil _).symm⟩
  | cons ext entries ih =>
    rw [List.flatMap_cons, List.length_append, Extension.length_bytes] at room
    have hroom : used + 4 + ext.value.length ≤ cap := by omega
    obtain ⟨hlength, htake⟩ := take_appendExtension hroom whole
    rw [appendExtensions]
    rw [appendExtension_fits hroom] at hlength htake ⊢
    have hmore : used + 4 + ext.value.length + (entries.flatMap Extension.bytes).length ≤ cap := by
      omega
    obtain ⟨hused, hbytes⟩ := ih hmore (whole.trans_eq hlength.symm)
    rw [List.flatMap_cons, List.length_append, Extension.length_bytes]
    refine ⟨by rw [hused]; omega, ?_⟩
    rw [hbytes, htake, List.append_assoc]

end Append

/-- A row of entries of which none is critical. -/
def Grammatical (area : List UInt8) (entries : List Extension) : Prop :=
  (∀ ext ∈ entries, ext.Optional) ∧ area = entries.flatMap Extension.bytes

theorem extensionsAcceptable_iff (area : List UInt8) :
    extensionsAcceptable area = true ↔ ∃ entries, Grammatical area entries := by
  rw [extensionsAcceptable, extensionsAcceptableFrom_eq, decide_eq_true_iff]
  exact reads_optionalExtension.exists_flatMap_iff area (Nat.le_refl _)

/-- The area accepts exactly its grammar: the loop ends with the answer whether the area is a
row of entries without a critical type, calling `next_extension` finds these entries and stops
at the end, entries that fit are found again after they are appended, and one that does not fit
changes nothing. -/
theorem extension_area_exact :
    (∀ area : List UInt8, area.length ≤ kMaxExtensionBytes →
      (∀ fuel, area.length ≤ fuel →
        acceptLoop area fuel 0 = some (extensionsAcceptable area)) ∧
      (extensionsAcceptable area = true ↔ ∃ entries, Grammatical area entries) ∧
      ∀ entries, Grammatical area entries → ∀ fuel, area.length < fuel →
        iterateExtensions area fuel 0 = some (entries, area.length)) ∧
    (∀ (area : List UInt8) (cap : Nat) (entries : List Extension), cap + 4 < 2 ^ 64 →
      cap ≤ area.length → (∀ ext ∈ entries, ext.Fits) →
      (entries.flatMap Extension.bytes).length ≤ cap →
      ∀ fuel, cap < fuel →
        iterateExtensions ((appendExtensions cap (area, 0) entries).1.take
          (appendExtensions cap (area, 0) entries).2) fuel 0 =
            some (entries, (appendExtensions cap (area, 0) entries).2)) ∧
    ∀ (area : List UInt8) (cap used : Nat) (ext : Extension),
      cap < used + 4 + ext.value.length →
        appendExtension area cap used ext = (area, 0) := by
  refine ⟨fun area short => ⟨?_, extensionsAcceptable_iff area, ?_⟩, ?_, ?_⟩
  · intro fuel enough
    have hsmall : area.length + 4 < 2 ^ 64 := by
      unfold kMaxExtensionBytes at short
      omega
    rw [acceptLoop_eq hsmall (Nat.zero_le _) (by omega)]
    have hanswer := reads_optionalExtension.exists_flatMap_iff area enough
    have hsame := reads_optionalExtension.exists_flatMap_iff area (Nat.le_refl _)
    rw [extensionsAcceptable, extensionsAcceptableFrom_eq, decide_eq_decide.mpr]
    exact hanswer.trans hsame.symm
  · rintro entries ⟨hoptional, rfl⟩ fuel enough
    refine iterateExtensions_flatMap (fun ext member => ?_) ?_ enough
    · have hext := hoptional ext member
      exact ⟨Nat.lt_trans hext.type (by decide), hext.value⟩
    · unfold kMaxExtensionBytes at short
      omega
  · intro area cap entries small whole fits room fuel enough
    have hroom : 0 + (entries.flatMap Extension.bytes).length ≤ cap := by omega
    obtain ⟨hused, hbytes⟩ := take_appendExtensions hroom whole
    rw [hbytes, hused, Nat.zero_add]
    exact iterateExtensions_flatMap fits (by omega) (by omega)
  · exact fun area cap used ext full => appendExtension_refused full

/-- An entry of type 7 in an area of twelve bytes: it is accepted and found, and a second one
does not fit. -/
theorem extension_area_seven :
    let ext : Extension := ⟨7, [1, 2, 3]⟩
    let built := appendExtensions 12 (List.replicate 12 0, 0) [ext]
    extensionsAcceptable ext.bytes = true ∧
      iterateExtensions (built.1.take built.2) 13 0 = some ([ext], built.2) ∧
      appendExtension built.1 12 built.2 ext = (built.1, 0) := by
  intro ext built
  have hentry : ext.Optional := ⟨by decide, by decide⟩
  have hgrammar : Grammatical ext.bytes [ext] :=
    ⟨fun other member => List.mem_singleton.mp member ▸ hentry, by decide⟩
  have hfits : ∀ other ∈ [ext], other.Fits :=
    fun other member => List.mem_singleton.mp member ▸ ⟨by decide, by decide⟩
  refine ⟨(extension_area_exact.1 ext.bytes (by decide)).2.1.mpr ⟨[ext], hgrammar⟩, ?_, ?_⟩
  · exact extension_area_exact.2.1 (List.replicate 12 0) 12 [ext] (by decide) (by decide) hfits
      (by decide) 13 (by decide)
  · exact extension_area_exact.2.2 built.1 12 built.2 ext (by decide)

end FuseTransport.Proto
