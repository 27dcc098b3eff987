import Mathlib.Data.List.Basic
import Mathlib.Tactic.Ring

/-!
# Big-endian byte fields

A field of `width` bytes holds a natural number, most significant byte first.
Writing drops the bits above the field; reading at an offset looks only at the
bytes of the field.
-/

namespace FuseTransport.Foundation.BigEndian

def put : Nat → Nat → List UInt8
  | 0, _ => []
  | width + 1, value => UInt8.ofNat (value / 256 ^ width) :: put width value

def get (bytes : List UInt8) : Nat :=
  bytes.foldl (fun out byte => out * 256 + byte.toNat) 0

def getAt (width offset : Nat) (bytes : List UInt8) : Nat :=
  get ((bytes.drop offset).take width)

@[simp]
theorem length_put (width value : Nat) : (put width value).length = width := by
  induction width with
  | zero => rfl
  | succ width ih => rw [put, List.length_cons, ih]

theorem foldl_shift (bytes : List UInt8) (out : Nat) :
    bytes.foldl (fun out byte => out * 256 + byte.toNat) out =
      out * 256 ^ bytes.length + get bytes := by
  induction bytes generalizing out with
  | nil => simp [get]
  | cons byte rest ih =>
    have hget : get (byte :: rest) = (0 * 256 + byte.toNat) * 256 ^ rest.length + get rest :=
      ih (0 * 256 + byte.toNat)
    rw [List.foldl_cons, ih, hget, List.length_cons]
    ring

theorem get_cons (byte : UInt8) (rest : List UInt8) :
    get (byte :: rest) = byte.toNat * 256 ^ rest.length + get rest := by
  rw [get, List.foldl_cons, foldl_shift, Nat.zero_add]

@[simp]
theorem get_nil : get [] = 0 := rfl

theorem get_lt (bytes : List UInt8) : get bytes < 256 ^ bytes.length := by
  induction bytes with
  | nil => simp
  | cons byte rest ih =>
    have hbyte : byte.toNat < 256 := byte.toNat_lt
    rw [get_cons]
    calc byte.toNat * 256 ^ rest.length + get rest
        < byte.toNat * 256 ^ rest.length + 256 ^ rest.length := Nat.add_lt_add_left ih _
      _ = (byte.toNat + 1) * 256 ^ rest.length := by ring
      _ ≤ 256 * 256 ^ rest.length := Nat.mul_le_mul_right _ hbyte
      _ = 256 ^ rest.length * 256 := Nat.mul_comm _ _

/-- Reading back a written field keeps the bits that fit. -/
theorem get_put (width value : Nat) : get (put width value) = value % 256 ^ width := by
  induction width with
  | zero => simp [put, Nat.mod_one]
  | succ width ih =>
    have hbyte : (UInt8.ofNat (value / 256 ^ width)).toNat = value / 256 ^ width % 256 := by
      simp
    rw [put, get_cons, length_put, ih, hbyte, pow_succ, Nat.mod_mul]
    ring

variable {width : Nat}

theorem get_put_of_lt {value : Nat} (fits : value < 256 ^ width) :
    get (put width value) = value := by
  rw [get_put, Nat.mod_eq_of_lt fits]

theorem getAt_zero_append (field rest : List UInt8) (exact : field.length = width) :
    getAt width 0 (field ++ rest) = get field := by
  rw [getAt, List.drop_zero, ← exact, List.take_left']
  rfl

variable {offset : Nat}

/-- A field behind other bytes is read at the remaining offset. -/
theorem getAt_append (before rest : List UInt8) (behind : before.length ≤ offset) :
    getAt width offset (before ++ rest) = getAt width (offset - before.length) rest := by
  rw [getAt, getAt, List.drop_append, List.drop_eq_nil_of_le behind, List.nil_append]

/-- The field written at the front of a buffer. -/
theorem getAt_put {value : Nat} (rest : List UInt8) (fits : value < 256 ^ width) :
    getAt width 0 (put width value ++ rest) = value := by
  rw [getAt_zero_append _ _ (length_put width value), get_put_of_lt fits]

theorem getAt_lt (width offset : Nat) (bytes : List UInt8) :
    getAt width offset bytes < 256 ^ width := by
  refine Nat.lt_of_lt_of_le (get_lt _) (Nat.pow_le_pow_right (by decide) ?_)
  exact List.length_take_le _ _

def putAll (width : Nat) (values : List Nat) : List UInt8 :=
  values.flatMap (put width)

@[simp]
theorem length_putAll (width : Nat) (values : List Nat) :
    (putAll width values).length = values.length * width := by
  induction values with
  | nil => simp [putAll]
  | cons value rest ih =>
    change (put width value ++ putAll width rest).length = _
    rw [List.length_append, length_put, ih, List.length_cons, Nat.add_mul, Nat.one_mul,
      Nat.add_comm]

/-- Each element of a written array is read back at its own place. -/
theorem getAt_putAll (values : List Nat) (rest : List UInt8)
    (fits : ∀ value ∈ values, value < 256 ^ width) (i : Nat) (inside : i < values.length) :
    getAt width (width * i) (putAll width values ++ rest) = values[i] := by
  induction values generalizing i with
  | nil => cases inside
  | cons value tail ih =>
    change getAt width (width * i) ((put width value ++ putAll width tail) ++ rest) = _
    rw [List.append_assoc]
    cases i with
    | zero =>
      rw [Nat.mul_zero, getAt_put _ (fits value (List.mem_cons_self ..))]
      rfl
    | succ i =>
      have hbehind : (put width value).length ≤ width * (i + 1) := by
        rw [length_put, Nat.mul_add]
        omega
      have hoffset : width * (i + 1) - (put width value).length = width * i := by
        rw [length_put, Nat.mul_add]
        omega
      rw [getAt_append _ _ hbehind, hoffset,
        ih (fun v hv => fits v (List.mem_cons_of_mem _ hv)) i
          (Nat.lt_of_succ_lt_succ inside)]
      rfl

/-! ## Writing back what was read -/

/-- Lists of bytes of one length that stand for the same number are equal. -/
theorem get_injective {first second : List UInt8} (length : first.length = second.length)
    (same : get first = get second) : first = second := by
  induction first generalizing second with
  | nil => exact (List.length_eq_zero_iff.mp length.symm).symm
  | cons byte rest ih =>
    cases second with
    | nil => cases length
    | cons byte' rest' =>
      have hlength : rest.length = rest'.length := Nat.succ.inj length
      rw [get_cons, get_cons, ← hlength] at same
      have hrest := get_lt rest
      have hrest' := get_lt rest'
      rw [← hlength] at hrest'
      have hpos : 0 < 256 ^ rest.length := Nat.pow_pos (by decide)
      have hbyte : byte.toNat = byte'.toNat := by
        have hdiv := congrArg (fun number => number / 256 ^ rest.length) same
        simpa [Nat.mul_add_div hpos, Nat.mul_comm _ (256 ^ rest.length), Nat.div_eq_of_lt hrest,
          Nat.div_eq_of_lt hrest'] using hdiv
      rw [hbyte] at same
      rw [UInt8.toNat_inj.mp hbyte, ih hlength (Nat.add_left_cancel same)]

variable {bytes : List UInt8}

theorem put_get (exact : bytes.length = width) : put width (get bytes) = bytes := by
  apply get_injective
  · rw [length_put, exact]
  · rw [get_put, Nat.mod_eq_of_lt]
    rw [← exact]
    exact get_lt bytes

theorem put_getAt_zero (inside : width ≤ bytes.length) :
    put width (getAt width 0 bytes) = bytes.take width := by
  exact put_get (List.length_take_of_le inside)

/-- A field written behind the bytes in front of it. -/
theorem take_put (inside : offset + width ≤ bytes.length) :
    bytes.take offset ++ put width (getAt width offset bytes) = bytes.take (offset + width) := by
  have hlength : ((bytes.drop offset).take width).length = width := by
    rw [List.length_take, List.length_drop]
    omega
  rw [getAt, put_get hlength, ← List.take_add]

/-- Bytes kept as they are behind the bytes in front of them. -/
theorem take_slice (bytes : List UInt8) (offset count : Nat) :
    bytes.take offset ++ (bytes.drop offset).take count = bytes.take (offset + count) :=
  List.take_add.symm

@[simp]
theorem toNat_ofNat_getAt (offset : Nat) (bytes : List UInt8) :
    (UInt8.ofNat (getAt 1 offset bytes)).toNat = getAt 1 offset bytes := by
  have hlt := getAt_lt 1 offset bytes
  exact Nat.mod_eq_of_lt hlt

section Records

variable {α : Type} {write : α → List UInt8} {size : Nat}

/-- Records of one size, each written where it was read. -/
theorem take_records {read : Nat → α} {count : Nat}
    (each : ∀ i < count, bytes.take (offset + size * i) ++ write (read i) =
      bytes.take (offset + size * i + size)) :
    bytes.take offset ++ ((List.range count).map read).flatMap write =
      bytes.take (offset + size * count) := by
  induction count with
  | zero => simp
  | succ count ih =>
    rw [List.range_succ, List.map_append, List.flatMap_append, ← List.append_assoc,
      ih fun i inside => each i (Nat.lt_succ_of_lt inside)]
    simp only [List.map_cons, List.map_nil, List.flatMap_cons, List.flatMap_nil, List.append_nil]
    rw [each count (Nat.lt_succ_self _), Nat.mul_succ, Nat.add_assoc]

/-- Each record of an array starts at its own place. -/
theorem drop_records (sized : ∀ x, (write x).length = size) (records : List α) (rest : List UInt8)
    {i : Nat} (inside : i < records.length) :
    ∃ behind, (records.flatMap write ++ rest).drop (size * i) =
      write (records.get ⟨i, inside⟩) ++ behind := by
  induction records generalizing i with
  | nil => cases inside
  | cons record tail ih =>
    rw [List.flatMap_cons, List.append_assoc]
    cases i with
    | zero => exact ⟨tail.flatMap write ++ rest, rfl⟩
    | succ i =>
      obtain ⟨behind, hbehind⟩ := ih (Nat.lt_of_succ_lt_succ inside)
      refine ⟨behind, ?_⟩
      rw [Nat.mul_succ, Nat.add_comm, ← List.drop_drop, List.drop_left' (sized record), hbehind]
      rfl

theorem length_records (sized : ∀ x, (write x).length = size) (records : List α) :
    (records.flatMap write).length = size * records.length := by
  induction records with
  | nil => rfl
  | cons record tail ih =>
    rw [List.flatMap_cons, List.length_append, sized, ih, List.length_cons, Nat.mul_succ,
      Nat.add_comm]

end Records

end FuseTransport.Foundation.BigEndian
