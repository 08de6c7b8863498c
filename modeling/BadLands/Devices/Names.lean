import BadLands.Core.Cells
import BadLands.Core.Numerals

/-!
# The names of block devices and partitions

A device is `bdev` and its number, a partition is the name of its device, a dash and its number. The length is computed with
`kern::log`, and the digits are written from the last one back. Characters are their codes; what the array holds when it is
allocated is a parameter.

* `log_numeral`: the logarithm and the numeral agree, at every power of ten.
* `names_unique`: the names are the texts, and no two nodes share one.
-/
namespace BadLands.Devices.Names

open BadLands.Core BadLands.Core.Numerals

/-! ## The code -/

/-- mirrors kernel/include/kern/math.hpp:49-52 -/
def logLoop (value base result : Nat) : Nat :=
  if h : 1 < base ∧ base ≤ value then logLoop (value / base) base (result + 1) else result
termination_by value
decreasing_by exact Nat.div_lt_self (by omega) h.1

/-- mirrors kernel/include/kern/math.hpp:42-56 -/
def log (value base : Nat) : Nat := if base ≤ 1 then 2 ^ 64 - 1 else logLoop value base 0

structure Partition where
  deviceId : Nat
  partitionId : Nat
  deriving DecidableEq

structure Device where
  deviceId : Nat
  deriving DecidableEq

/-- mirrors kernel/src/devices/Block/Device.cpp:338-344 -/
def Partition.getNameLength (p : Partition) : Nat :=
  let rootSize := 4
  let deviceIdSize := log p.deviceId 10 + 1
  let partitionIdSize := log p.partitionId 10 + 1
  rootSize + deviceIdSize + 1 + partitionIdSize

/-- mirrors kernel/src/devices/Block/Device.cpp:649-654 -/
def Device.getNameLength (d : Device) : Nat :=
  let rootSize := 4
  let deviceIdSize := log d.deviceId 10 + 1
  rootSize + deviceIdSize

/-- `for (size_t i = 0, devId = deviceId; i < device_id_length; ++i, devId /= 10)`, with the number of turns left.
mirrors kernel/src/devices/Block/Device.cpp:359-361, 368-370 and 669-671 -/
def digitsLoop (ptr length : Nat) : Nat → Nat → Nat → List Nat → Option (List Nat)
  | 0, _, _, name => some name
  | n + 1, i, id, name =>
    (Cells.write name (ptr + (length - 1 - i)) ('0'.toNat + id % 10)).bind (digitsLoop ptr length n (i + 1) (id / 10))

def bdev : List Nat := "bdev".toList.map Char.toNat

/-- The array of so many characters that `make_unique` has made; nothing is the null pointer. -/
def makeUnique (length : Nat) (memory : Option (Nat → Nat)) : Option (List Nat) := memory.map fun f => (List.range length).map f

/-- What is written to the array. `none` is a write outside of it.
mirrors kernel/src/devices/Block/Device.cpp:351-370 -/
def Partition.fill (p : Partition) (name : List Nat) : Option (List Nat) :=
  (Cells.writes name 0 bdev).bind fun name =>
    let ptr := 4
    let deviceIdLength := log p.deviceId 10 + 1
    (digitsLoop ptr deviceIdLength deviceIdLength 0 p.deviceId name).bind fun name =>
      let ptr := ptr + deviceIdLength
      (Cells.write name ptr '-'.toNat).bind fun name =>
        let ptr := ptr + 1
        let partitionIdLength := log p.partitionId 10 + 1
        digitsLoop ptr partitionIdLength partitionIdLength 0 p.partitionId name

/-- mirrors kernel/src/devices/Block/Device.cpp:661-671 -/
def Device.fill (d : Device) (name : List Nat) : Option (List Nat) :=
  (Cells.writes name 0 bdev).bind fun name =>
    let ptr := 4
    let deviceIdLength := log d.deviceId 10 + 1
    digitsLoop ptr deviceIdLength deviceIdLength 0 d.deviceId name

/-- The name, or the null pointer; `none` is a write outside of the array.
mirrors kernel/src/devices/Block/Device.cpp:346-374 -/
def Partition.getName (p : Partition) (memory : Option (Nat → Nat)) : Option (Option (List Nat)) :=
  match makeUnique p.getNameLength memory with
  | none => some none
  | some name => (p.fill name).map some

/-- mirrors kernel/src/devices/Block/Device.cpp:656-675 -/
def Device.getName (d : Device) (memory : Option (Nat → Nat)) : Option (Option (List Nat)) :=
  match makeUnique d.getNameLength memory with
  | none => some none
  | some name => (d.fill name).map some

/-! ## Digits -/

/-- So many digits of the number, also when they are zeros. -/
def lowDigits : Nat → Nat → List Nat
  | 0, _ => []
  | n + 1, v => lowDigits n (v / 10) ++ [digitChar (v % 10)]

theorem length_lowDigits (n v : Nat) : (lowDigits n v).length = n := by
  induction n generalizing v with
  | zero => rfl
  | succ n ih => simp [lowDigits, ih]

theorem logLoop_step {value base : Nat} (h : 1 < base ∧ base ≤ value) (result : Nat) :
    logLoop value base result = logLoop (value / base) base (result + 1) := by
  rw [logLoop, dif_pos h]

theorem logLoop_stop {value base : Nat} (h : ¬ (1 < base ∧ base ≤ value)) (result : Nat) : logLoop value base result = result := by
  rw [logLoop, dif_neg h]

theorem logLoop_add (value base result : Nat) : logLoop value base result = logLoop value base 0 + result := by
  induction value using Nat.strongRecOn generalizing result with
  | ind value ih =>
    by_cases h : 1 < base ∧ base ≤ value
    · have hlt : value / base < value := Nat.div_lt_self (by omega) h.1
      rw [logLoop_step h, logLoop_step h, ih _ hlt, ih _ hlt (0 + 1)]
      omega
    · rw [logLoop_stop h, logLoop_stop h, Nat.zero_add]

theorem log_small {v : Nat} (h : v < 10) : log v 10 = 0 := by
  rw [log, if_neg (by decide), logLoop_stop (by omega)]

theorem log_div {v : Nat} (h : 10 ≤ v) : log v 10 = log (v / 10) 10 + 1 := by
  rw [log, if_neg (by decide), logLoop_step ⟨by decide, h⟩, logLoop_add]
  rfl

/-- One digit more than the logarithm. -/
theorem log_numeral (v : Nat) : lowDigits (log v 10 + 1) v = numeral 10 v := by
  induction v using Nat.strongRecOn with
  | ind v ih =>
    rcases Nat.lt_or_ge v 10 with hlt | hge
    · rw [log_small hlt, numeral_of_lt hlt]
      simp [lowDigits, Nat.mod_eq_of_lt hlt]
    · rw [log_div hge, lowDigits, ih _ (Nat.div_lt_self (by omega) (by decide)), numeral_div (by decide) hge]

theorem length_numeral (v : Nat) : (numeral 10 v).length = log v 10 + 1 := by
  rw [← log_numeral, length_lowDigits]

/-- The digits, from the last cell back. -/
theorem digitsLoop_eq {ptr length : Nat} (n i v : Nat) (name : List Nat) (hi : i + n = length) (hroom : ptr + n ≤ name.length) :
    digitsLoop ptr length n i v name = some (name.take ptr ++ lowDigits n v ++ name.drop (ptr + n)) := by
  induction n generalizing i v name with
  | zero => simp [digitsLoop, lowDigits]
  | succ n ih =>
    have hcell : ptr + (length - 1 - i) = ptr + n := by omega
    have hchar : '0'.toNat + v % 10 = digitChar (v % 10) := by
      rw [digitChar, if_pos (Nat.mod_lt v (by decide)), Nat.add_comm]
    rw [digitsLoop, hcell, Cells.write_eq (by omega), Option.bind_some,
      ih (i + 1) (v / 10) _ (by omega) (by rw [List.length_set]; omega), hchar, lowDigits]
    have htake : (name.set (ptr + n) (digitChar (v % 10))).take ptr = name.take ptr :=
      List.take_set_of_le (Nat.le_add_right ptr n)
    have hdrop : (name.set (ptr + n) (digitChar (v % 10))).drop (ptr + n) = digitChar (v % 10) :: name.drop (ptr + (n + 1)) := by
      rw [List.drop_eq_getElem_cons (by rw [List.length_set]; omega), List.getElem_set_self,
        List.drop_set_of_lt (Nat.lt_succ_self _)]
      rfl
    rw [htake, hdrop]
    simp

/-- Behind what is written already. -/
theorem digitsLoop_behind {n v : Nat} (done rest : List Nat) (h : n ≤ rest.length) :
    digitsLoop done.length n n 0 v (done ++ rest) = some (done ++ lowDigits n v ++ rest.drop n) := by
  rw [digitsLoop_eq n 0 v _ (Nat.zero_add n) (by rw [List.length_append]; omega), List.take_left, List.drop_append]
  simp

theorem write_behind {c x : Nat} (done rest : List Nat) :
    Cells.write (done ++ c :: rest) done.length x = some (done ++ [x] ++ rest) := by
  rw [Cells.write_eq (by simp)]
  simp

theorem writes_bdev {name : List Nat} (h : 4 ≤ name.length) : Cells.writes name 0 bdev = some (bdev ++ name.drop 4) := by
  have hlength : bdev.length = 4 := rfl
  rw [Cells.writes_eq bdev name 0 (by omega), hlength]
  rfl

/-! ## The texts -/

/-- `bdev{deviceId}` -/
def Device.text (d : Device) : List Nat := bdev ++ numeral 10 d.deviceId

/-- `bdev{deviceId}-{partitionId}` -/
def Partition.text (p : Partition) : List Nat :=
  bdev ++ numeral 10 p.deviceId ++ ['-'.toNat] ++ numeral 10 p.partitionId

theorem Device.text_length (d : Device) : d.text.length = d.getNameLength := by
  have hbdev : bdev.length = 4 := rfl
  simp [Device.text, Device.getNameLength, length_numeral, hbdev]

theorem Partition.text_length (p : Partition) : p.text.length = p.getNameLength := by
  have hbdev : bdev.length = 4 := rfl
  simp [Partition.text, Partition.getNameLength, length_numeral, hbdev]
  omega

/-- The text fills the array. -/
theorem Device.fill_eq (d : Device) {name : List Nat} (h : name.length = d.getNameLength) : d.fill name = some d.text := by
  unfold Device.getNameLength at h
  dsimp only at h
  have hdigits := digitsLoop_behind (n := log d.deviceId 10 + 1) (v := d.deviceId) bdev (name.drop 4) (by
    rw [List.length_drop]
    omega)
  have hrest : (name.drop 4).drop (log d.deviceId 10 + 1) = [] := by
    rw [List.drop_drop, List.drop_eq_nil_iff]
    omega
  rw [hrest, List.append_nil, log_numeral] at hdigits
  unfold Device.fill
  rw [writes_bdev (by omega), Option.bind_some]
  exact hdigits

theorem Partition.fill_eq (p : Partition) {name : List Nat} (h : name.length = p.getNameLength) : p.fill name = some p.text := by
  unfold Partition.getNameLength at h
  dsimp only at h
  have hdigits := digitsLoop_behind (n := log p.deviceId 10 + 1) (v := p.deviceId) bdev (name.drop 4) (by
    rw [List.length_drop]
    omega)
  rw [log_numeral] at hdigits
  have hptr : (bdev ++ numeral 10 p.deviceId).length = 4 + (log p.deviceId 10 + 1) := by
    rw [List.length_append, length_numeral]
    rfl
  -- what is left has room for the dash and the other number
  obtain ⟨c, rest, hrest⟩ : ∃ c rest, (name.drop 4).drop (log p.deviceId 10 + 1) = c :: rest :=
    List.exists_cons_of_length_pos (by
      rw [List.length_drop, List.length_drop]
      omega)
  have hlength : rest.length = log p.partitionId 10 + 1 := by
    have hcount := congrArg List.length hrest
    rw [List.length_drop, List.length_drop, List.length_cons] at hcount
    omega
  have hdash : (bdev ++ numeral 10 p.deviceId ++ ['-'.toNat]).length = 4 + (log p.deviceId 10 + 1) + 1 := by
    rw [List.length_append, hptr]
    rfl
  have hwrite := write_behind (c := c) (x := '-'.toNat) (bdev ++ numeral 10 p.deviceId) rest
  have hlast := digitsLoop_behind (n := log p.partitionId 10 + 1) (v := p.partitionId)
    (bdev ++ numeral 10 p.deviceId ++ ['-'.toNat]) rest (by omega)
  rw [log_numeral, List.drop_eq_nil_of_le (by omega), List.append_nil, hdash] at hlast
  rw [hrest] at hdigits
  rw [hptr] at hwrite
  unfold Partition.fill
  rw [writes_bdev (by omega), Option.bind_some]
  dsimp only
  rw [show digitsLoop 4 _ _ 0 p.deviceId _ = _ from hdigits, Option.bind_some, hwrite, Option.bind_some]
  exact hlast

/-! ## Names -/

/-- What is in the file system under a name. -/
inductive Node
  | device (d : Device)
  | partition (p : Partition)
  deriving DecidableEq

def Node.text : Node → List Nat
  | .device d => d.text
  | .partition p => p.text

def Node.getNameLength : Node → Nat
  | .device d => d.getNameLength
  | .partition p => p.getNameLength

def Node.getName : Node → Option (Nat → Nat) → Option (Option (List Nat))
  | .device d => d.getName
  | .partition p => p.getName

theorem Node.text_length (n : Node) : n.text.length = n.getNameLength := by
  cases n with
  | device d => exact d.text_length
  | partition p => exact p.text_length

theorem Node.getName_eq (n : Node) (f : Nat → Nat) : n.getName (some f) = some (some n.text) := by
  cases n with
  | device d => exact congrArg (Option.map some) (d.fill_eq (by simp))
  | partition p => exact congrArg (Option.map some) (p.fill_eq (by simp))

theorem digitChar_eq {i : Nat} (h : i < 10) : digitChar i = i + 48 := if_pos h

/-- A dash is no digit. -/
theorem dash_notMem (v : Nat) : '-'.toNat ∉ numeral 10 v := by
  intro h
  obtain ⟨i, hi, hc⟩ := mem_numeral (by decide) h
  rw [digitChar_eq hi] at hc
  have hdash : '-'.toNat = 45 := rfl
  omega

theorem numeral_inj {v w : Nat} (h : numeral 10 v = numeral 10 w) : v = w := by
  have hparse : parse 10 (numeral 10 v) = some v := parse_numeral (by decide) (by decide) v
  rw [h, parse_numeral (by decide) (by decide) w] at hparse
  exact (Option.some.inj hparse).symm

/-- The text of a number up to the dash. -/
theorem takeWhile_numeral (v : Nat) (rest : List Nat) :
    (numeral 10 v ++ ['-'.toNat] ++ rest).takeWhile (· ≠ '-'.toNat) = numeral 10 v := by
  rw [List.append_assoc, List.takeWhile_append_of_pos fun c hc => by
    have hne : c ≠ '-'.toNat := fun he => dash_notMem v (he ▸ hc)
    simpa using hne]
  simp

theorem device_ne_partition (d : Device) (p : Partition) : d.text ≠ p.text := by
  intro h
  rw [Device.text, Partition.text, List.append_assoc, List.append_assoc] at h
  have hdash : '-'.toNat ∈ numeral 10 d.deviceId := by
    rw [List.append_cancel_left h]
    simp
  exact dash_notMem _ hdash

theorem Partition.text_inj {p p' : Partition} (h : p.text = p'.text) : p = p' := by
  have happend : numeral 10 p.deviceId ++ ['-'.toNat] ++ numeral 10 p.partitionId =
      numeral 10 p'.deviceId ++ ['-'.toNat] ++ numeral 10 p'.partitionId := by
    simpa only [Partition.text, List.append_assoc, List.append_cancel_left_eq] using h
  have hdevice : p.deviceId = p'.deviceId := by
    have hwhile := congrArg (List.takeWhile (· ≠ '-'.toNat)) happend
    rw [takeWhile_numeral, takeWhile_numeral] at hwhile
    exact numeral_inj hwhile
  rw [hdevice] at happend
  have hpartition : p.partitionId = p'.partitionId := numeral_inj (List.append_cancel_left happend)
  cases p
  cases p'
  simp_all

theorem Node.text_inj {n n' : Node} (h : n.text = n'.text) : n = n' := by
  cases n with
  | device d =>
    cases n' with
    | device d' =>
      have hid := numeral_inj (List.append_cancel_left h)
      cases d
      cases d'
      simp_all
    | partition p' => exact absurd h (device_ne_partition d p')
  | partition p =>
    cases n' with
    | device d' => exact absurd h.symm (device_ne_partition d' p)
    | partition p' => exact congrArg Node.partition (Partition.text_inj h)

/-- No leading zeros. -/
theorem head_numeral (v : Nat) : (numeral 10 v).head? = some '0'.toNat ↔ v = 0 := by
  have hzero : '0'.toNat = 48 := rfl
  induction v using Nat.strongRecOn with
  | ind v ih =>
    rcases Nat.lt_or_ge v 10 with hlt | hge
    · rw [numeral_of_lt hlt, List.head?_cons, digitChar_eq hlt, hzero, Option.some.injEq]
      omega
    · have hrest := ih (v / 10) (Nat.div_lt_self (by omega) (by decide))
      rw [numeral_div (by decide) hge, List.head?_append_of_ne_nil _ (numeral_ne_nil 10 _)]
      exact hrest.trans (by omega)

/-- Every name is the text of its node, in all of the array, and the text of no other node. -/
theorem names_unique : (∀ (n : Node) (f : Nat → Nat), n.getName (some f) = some (some n.text) ∧ n.text.length = n.getNameLength) ∧
    (∀ id, (numeral 10 id).head? = some '0'.toNat ↔ id = 0) ∧
    ∀ (n n' : Node) (f f' : Nat → Nat), n.getName (some f) = n'.getName (some f') ↔ n = n' := by
  refine ⟨fun n f => ⟨n.getName_eq f, n.text_length⟩, head_numeral, fun n n' f f' => ⟨fun h => ?_, fun h => ?_⟩⟩
  · rw [n.getName_eq, n'.getName_eq] at h
    exact Node.text_inj (Option.some.inj (Option.some.inj h))
  · rw [n.getName_eq, n'.getName_eq, h]

end BadLands.Devices.Names
