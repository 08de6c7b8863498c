import BadLands.Devices.GptFetcher

/-!
# Block devices: loading the partition table

`Device::AddDevice` goes over the partition entries twice: it counts those it can use, allocates an
array of so many partitions, resets the fetcher and goes over the entries again to construct the
partitions. Nothing ties the second pass to the first one: the array may be null, and the medium
may deliver other entries. `partitions_inBounds_iff` says when every partition is constructed
inside the array.
-/
namespace BadLands.Devices.AddDevice

open BadLands.Core BadLands.Devices.Gpt

/-! ## The boot sector -/

/-- A partition entry of the boot sector, at its offset.
mirrors kernel/src/devices/Block/Device.cpp:54-62 -/
def isZero (sector : ByteMemory) (offset : Nat) : Bool := (sector.bytes offset 16).all (· == 0)

def entryOffset (i : Nat) : Nat := 446 + 16 * i

/-- `atNull`: what the test gives on the memory at address 0, where `FromBytes` has failed.
mirrors kernel/src/devices/Block/Device.cpp:68-127 -/
def isProtective (sector : ByteMemory) (allocated atNull : Bool) : Bool :=
  if allocated && sector.read 510 2 == 0xAA55 then
    match (List.range 4).filter fun i => !isZero sector (entryOffset i) with
    | [i] => sector.bytes (entryOffset i + 1) 3 == [0, 2, 0] && sector (entryOffset i + 4) == 0xEE &&
        sector.read (entryOffset i + 8) 4 == 1
    | _ => false
  else atNull

/-! ## The entries -/

/-- The little-endian number in the bytes. -/
def number : List (BitVec 8) → Nat
  | [] => 0
  | b :: bs => b.toNat + 256 * number bs

def startingLba (e : Entry) : Nat := number ((e.bytes.drop 32).take 8)

def endingLba (e : Entry) : Nat := number ((e.bytes.drop 40).take 8)

/-- The filter of both loops.
mirrors kernel/src/devices/Block/Device.cpp:565-577, 599-606 -/
def usable (g : GPT) (e : Entry) : Bool :=
  if startingLba e = 0 ∧ endingLba e = 0 then false
  else if startingLba e < g.firstUsableLba ∨ endingLba e > g.lastUsableLba ∨ startingLba e > endingLba e then false
  else true

/-- What the allocations, `AddNode` and the memory at address 0 give. -/
structure Environment where
  bootSector : Bool
  mbr : Bool
  atNull : Bool
  device : Bool
  name : Bool
  addNode : Bool
  gptSector : Bool
  batch : Bool
  cache : Bool
  cacheAgain : Bool
  partitions : Bool
  partitionName : Nat → Bool
  partitionAdd : Nat → Bool

/-- `array`: the elements of `partitions`, `none` where it is null. `constructed`: the indices at
which a `Partition` was constructed, in that order. -/
structure Outcome where
  added : Bool
  partitionsCount : Nat
  array : Option Nat
  constructed : List Nat

/-- Without partitions. -/
def Outcome.bare (added : Bool) : Outcome := ⟨added, 0, none, []⟩

section
variable (g : GPT) (m : Medium) (o : Environment)

/-- The first loop: whether it came to its end, the count and the fetcher. `none`: more than
`fuel` rounds. -/
def countPartitions : Nat → Fetcher → Nat → Option (Bool × Nat × Fetcher)
  | 0, _, _ => none
  | fuel + 1, f, count =>
    if !f.hasNext g then some (true, count, f)
    else match f.next g m.getBlockSize m with
      | (none, f) => some (false, count, f)
      | (some e, f) => countPartitions fuel f (if usable g e then count + 1 else count)

/-- The second loop. A partition that gets no name or no entry is constructed again, as none. -/
def constructPartitions : Nat → Fetcher → Nat → List Nat → Option (List Nat)
  | 0, _, _, _ => none
  | fuel + 1, f, current, constructed =>
    if !f.hasNext g then some constructed
    else match f.next g m.getBlockSize m with
      | (none, _) => some constructed
      | (some e, f) =>
        if usable g e then
          let constructed := constructed ++ [current]
          let constructed := if o.partitionName current && o.partitionAdd current then constructed
            else constructed ++ [current]
          constructPartitions fuel f (current + 1) constructed
        else constructPartitions fuel f current constructed

/-- From `partition_fetcher` on.
mirrors kernel/src/devices/Block/Device.cpp:546-640 -/
def loadPartitions (reads : Nat) : Option Outcome :=
  match (Fetcher.construct 32 reads).initializeCache g m.getBlockSize m o.cache with
  | (false, _) => some (.bare true)
  | (true, f) => do
    match ← countPartitions g m (g.partitionEntryCount + 1) f 0 with
    | (false, _, _) => return .bare true
    | (true, count, f) =>
      match f.reset g m.getBlockSize m o.cacheAgain with
      | (false, _) => return .bare true
      | (true, f) =>
        let constructed ← constructPartitions g m o (g.partitionEntryCount + 1) f 0 []
        return ⟨true, count, if o.partitions then some count else none, constructed⟩

end

/-- Up to the header of the partition table, with the requests so far; or what is returned before
that.
mirrors kernel/src/devices/Block/Device.cpp:486-544 -/
def loadHeader (m : Medium) (o : Environment) : Except Bool (GPT × Nat) :=
  if !o.bootSector then .error false
  else match m.readBlocks 0 0 1 with
    | none => .error false
    | some sector =>
      if !o.device || !o.name || !o.addNode then .error false
      else if !isProtective sector o.mbr o.atNull then .error true
      else if !o.gptSector then .error true
      else match m.readBlocks 1 1 1 with
        | none => .error true
        | some sector =>
          match (GPT.mk sector).isValid 1 m.getBlockSize m o.batch 2 with
          | (false, _) => .error true
          | (true, reads) => .ok (⟨sector⟩, reads)

/-- mirrors kernel/src/devices/Block/Device.cpp:481-647 -/
def addDevice (interface : Option Medium) (o : Environment) : Option Outcome :=
  match interface with
  | none => some (.bare false)
  | some m =>
    match loadHeader m o with
    | .error added => some (.bare added)
    | .ok (g, reads) => loadPartitions g m o reads

/-- Every partition lies in an array that is there and has an element for each. -/
def InBounds (r : Outcome) : Prop :=
  ∀ i ∈ r.constructed, i < r.partitionsCount ∧ ∃ n, r.array = some n ∧ r.partitionsCount ≤ n

/-! ## What a pass delivers -/

/-- The entries that `Next` returns, whether it came to the end, and the fetcher then. -/
def pass (g : GPT) (m : Medium) : Nat → Fetcher → Option (List Entry × Bool × Fetcher)
  | 0, _ => none
  | fuel + 1, f =>
    if !f.hasNext g then some ([], true, f)
    else match f.next g m.getBlockSize m with
      | (none, f) => some ([], false, f)
      | (some e, f) => (pass g m fuel f).map fun r => (e :: r.1, r.2)

/-- The entries that the loops do not skip. -/
def usables (g : GPT) (es : List Entry) : Nat := es.countP (usable g)

/-- The indices at which the partitions of the entries are constructed, from `current` on. -/
def built (g : GPT) (o : Environment) : Nat → List Entry → List Nat
  | _, [] => []
  | current, e :: es =>
    if usable g e then
      (if o.partitionName current && o.partitionAdd current then [current] else [current, current]) ++
        built g o (current + 1) es
    else built g o current es

section
variable {g : GPT} {m : Medium} {o : Environment}

theorem countPartitions_pass (fuel : Nat) : ∀ f count, countPartitions g m fuel f count =
    (pass g m fuel f).map fun r => (r.2.1, count + usables g r.1, r.2.2) := by
  induction fuel with
  | zero =>
    intro f count
    rfl
  | succ fuel ih =>
    intro f count
    rw [countPartitions, pass]
    split
    · rfl
    · cases f.next g m.getBlockSize m with
      | mk e f =>
        cases e with
        | none => rfl
        | some e =>
          dsimp only
          rw [ih, Option.map_map]
          congr 1
          funext r
          unfold usables
          simp only [Function.comp, List.countP_cons, Prod.mk.injEq, true_and, and_true]
          split <;> omega

theorem constructPartitions_pass (fuel : Nat) : ∀ f current constructed,
    constructPartitions g m o fuel f current constructed =
      (pass g m fuel f).map fun r => constructed ++ built g o current r.1 := by
  induction fuel with
  | zero =>
    intro f current constructed
    rfl
  | succ fuel ih =>
    intro f current constructed
    rw [constructPartitions, pass]
    split
    · simp [built]
    · cases f.next g m.getBlockSize m with
      | mk e f =>
        cases e with
        | none => simp [built]
        | some e =>
          dsimp only
          cases hu : usable g e with
          | false =>
            rw [if_neg (by decide), ih, Option.map_map]
            congr 1
            funext r
            simp [built, hu]
          | true =>
            rw [if_pos rfl, ih, Option.map_map]
            congr 1
            funext r
            simp only [Function.comp, built, hu, if_true]
            split <;> simp

/-- The partitions are constructed at the indices in order. -/
theorem mem_built (es : List Entry) : ∀ current i, i ∈ built g o current es ↔
    current ≤ i ∧ i < current + usables g es := by
  induction es with
  | nil =>
    intro current i
    simp only [built, List.not_mem_nil, usables, List.countP_nil, false_iff]
    omega
  | cons e es ih =>
    intro current i
    unfold usables at ih ⊢
    rw [built, List.countP_cons]
    cases hu : usable g e with
    | false =>
      rw [if_neg (by decide), ih]
      simp
    | true =>
      have hhead : i ∈ (if o.partitionName current && o.partitionAdd current then [current]
          else [current, current]) ↔ i = current := by
        split <;> simp
      rw [if_pos rfl, List.mem_append, hhead, ih, if_pos rfl]
      omega

/-! ## The passes end -/

theorem partitionEntryCount_lt (g : GPT) : g.partitionEntryCount < 2 ^ 32 := ByteMemory.read_lt 80 4

theorem next_current {f : Fetcher} (h : f.hasNext g = true) {e : Entry}
    (he : (f.next g m.getBlockSize m).1 = some e) :
    (f.next g m.getBlockSize m).2.currentPartition = f.currentPartition + 1 := by
  have hlt : f.currentPartition < g.partitionEntryCount := of_decide_eq_true h
  have hcount := partitionEntryCount_lt g
  have hadd : Word.add f.currentPartition 1 = f.currentPartition + 1 := Word.add_eq (by omega)
  unfold Fetcher.next at he ⊢
  rw [h, if_neg (by decide)] at he ⊢
  split at he
  · rename_i hrefill
    rw [if_pos hrefill]
    have hcur : (f.updateCache g m.getBlockSize m f.currentPartition).2.currentPartition = f.currentPartition := by
      unfold Fetcher.updateCache
      dsimp only
      split
      · rfl
      · split <;> rfl
    cases hu : f.updateCache g m.getBlockSize m f.currentPartition with
    | mk b f' =>
      rw [hu] at he hcur
      cases b with
      | false => cases he
      | true =>
        dsimp only at hcur ⊢
        unfold Fetcher.fetch
        dsimp only
        rw [hcur, hadd]
  · rename_i hrefill
    rw [if_neg hrefill]
    exact hadd

theorem pass_some (fuel : Nat) : ∀ f : Fetcher, f.currentPartition ≤ g.partitionEntryCount →
    g.partitionEntryCount < f.currentPartition + fuel → ∃ r, pass g m fuel f = some r := by
  induction fuel with
  | zero =>
    intro f hle hf
    omega
  | succ fuel ih =>
    intro f hle hf
    rw [pass]
    cases hn : f.hasNext g with
    | false => exact ⟨_, rfl⟩
    | true =>
      rw [Bool.not_true, if_neg (by decide)]
      have hcur := fun e => next_current (m := m) hn (e := e)
      cases hx : f.next g m.getBlockSize m with
      | mk e f' =>
        rw [hx] at hcur
        cases e with
        | none => exact ⟨_, rfl⟩
        | some e =>
          have hlt : f.currentPartition < g.partitionEntryCount := of_decide_eq_true hn
          have hnext : f'.currentPartition = f.currentPartition + 1 := hcur e rfl
          obtain ⟨r, hr⟩ := ih f' (by omega) (by omega)
          dsimp only
          rw [hr]
          exact ⟨_, rfl⟩

theorem initializeCache_current {f f' : Fetcher} {allocated : Bool}
    (h : f.initializeCache g m.getBlockSize m allocated = (true, f')) :
    f'.currentPartition = f.currentPartition := by
  unfold Fetcher.initializeCache at h
  dsimp only at h
  split at h
  · split at h
    · cases h
    · cases h
      rfl
  · cases h

/-- A pass from the start ends. -/
theorem pass_start (g : GPT) (m : Medium) {f : Fetcher} (h : f.currentPartition = 0) :
    ∃ r, pass g m (g.partitionEntryCount + 1) f = some r :=
  pass_some _ f (by omega) (by omega)

/-! ## The bounds -/

/-- The header, and the entries that the medium delivers in the two passes; `none` where
`AddDevice` does not come to the second one. -/
def passes (m : Medium) (o : Environment) : Option (GPT × List Entry × List Entry) :=
  match loadHeader m o with
  | .error _ => none
  | .ok (g, reads) =>
    match (Fetcher.construct 32 reads).initializeCache g m.getBlockSize m o.cache with
    | (false, _) => none
    | (true, f) =>
      match pass g m (g.partitionEntryCount + 1) f with
      | some (first, true, f) =>
        match f.reset g m.getBlockSize m o.cacheAgain with
        | (false, _) => none
        | (true, f) => (pass g m (g.partitionEntryCount + 1) f).map fun r => (g, first, r.1)
      | _ => none

theorem inBounds_bare (added : Bool) : InBounds (.bare added) := by
  intro i hi
  cases hi

/-- The partitions of the second pass, in the array for the first. -/
theorem inBounds_built (count : Nat) (es : List Entry) :
    InBounds ⟨true, count, if o.partitions then some count else none, built g o 0 es⟩ ↔
      usables g es ≤ count ∧ (0 < usables g es → o.partitions = true) := by
  unfold InBounds
  dsimp only
  constructor
  · intro h
    by_cases hz : usables g es = 0
    · exact ⟨by omega, fun hp => by omega⟩
    · -- the last one
      obtain ⟨hlt, n, hn, -⟩ := h (usables g es - 1) ((mem_built es 0 _).mpr (by omega))
      refine ⟨by omega, fun _ => ?_⟩
      cases hp : o.partitions with
      | true => rfl
      | false =>
        rw [hp] at hn
        cases hn
  · rintro ⟨hle, hp⟩ i hi
    have hi' := (mem_built es 0 i).mp hi
    refine ⟨by omega, count, ?_, Nat.le_refl _⟩
    rw [hp (by omega), if_pos rfl]

/-- Every partition is constructed in the array exactly when the second pass delivers no more
usable entries than the first, and there is an array if it delivers any. -/
theorem partitions_inBounds_iff (m : Medium) (o : Environment) : ∃ r, addDevice (some m) o = some r ∧
    (InBounds r ↔ ∀ g first second, passes m o = some (g, first, second) →
      usables g second ≤ usables g first ∧ (0 < usables g second → o.partitions = true)) := by
  unfold addDevice passes
  dsimp only
  cases loadHeader m o with
  | error added => exact ⟨_, rfl, iff_of_true (inBounds_bare added) fun _ _ _ h => by cases h⟩
  | ok header =>
    obtain ⟨g, reads⟩ := header
    dsimp only
    unfold loadPartitions
    cases hinit : (Fetcher.construct 32 reads).initializeCache g m.getBlockSize m o.cache with
    | mk b f =>
      cases b with
      | false => exact ⟨_, rfl, iff_of_true (inBounds_bare true) fun _ _ _ h => by cases h⟩
      | true =>
        obtain ⟨⟨first, done, f'⟩, hfirst⟩ := pass_start g m ((initializeCache_current hinit).trans rfl)
        dsimp only
        rw [countPartitions_pass, hfirst]
        cases done with
        | false => exact ⟨_, rfl, iff_of_true (inBounds_bare true) fun _ _ _ h => by cases h⟩
        | true =>
          simp only [Option.map_some, Option.bind_eq_bind, Option.bind_some]
          cases hreset : f'.reset g m.getBlockSize m o.cacheAgain with
          | mk b f'' =>
            cases b with
            | false => exact ⟨_, rfl, iff_of_true (inBounds_bare true) fun _ _ _ h => by cases h⟩
            | true =>
              obtain ⟨⟨second, last⟩, hsecond⟩ := pass_start g m ((initializeCache_current hreset).trans rfl)
              simp only [constructPartitions_pass, hsecond, Option.map_some, Option.bind_some, Nat.zero_add,
                List.nil_append]
              refine ⟨_, rfl, ?_⟩
              rw [inBounds_built]
              constructor
              · intro h g' first' second' heq
                cases heq
                exact h
              · intro h
                exact h g first second rfl

end

/-- The way to the second pass. -/
theorem loadHeader_ok {m : Medium} {o : Environment} {boot : ByteMemory} {g : GPT} {reads : Nat}
    (hmemory : (o.bootSector && o.device && o.name && o.addNode && o.gptSector) = true)
    (hboot : m.readBlocks 0 0 1 = some boot) (hprotective : isProtective boot o.mbr o.atNull = true)
    (hgpt : m.readBlocks 1 1 1 = some g.sector)
    (hvalid : g.isValid 1 m.getBlockSize m o.batch 2 = (true, reads)) : loadHeader m o = .ok (g, reads) := by
  simp only [Bool.and_eq_true] at hmemory
  obtain ⟨⟨⟨⟨h1, h2⟩, h3⟩, h4⟩, h5⟩ := hmemory
  simp [loadHeader, h1, h2, h3, h4, h5, hboot, hprotective, hgpt, hvalid]

theorem addDevice_ok {m : Medium} {o : Environment} {g : GPT} {reads : Nat} (h : loadHeader m o = .ok (g, reads)) :
    addDevice (some m) o = loadPartitions g m o reads := by
  unfold addDevice
  dsimp only
  rw [h]

/-- One entry of 128 bytes in block 2. -/
def oneEntry : Geometry where
  lba := 2
  count := 1
  size := 128
  blockSize := 512
  blocksCount := 1000
  size_ge := wideBlocks.size_ge
  size_le := by decide
  size_lt := wideBlocks.size_lt
  count_pos := Nat.one_pos
  count_lt := by decide
  lba_ge := wideBlocks.lba_ge
  lba_lt := wideBlocks.lba_lt
  blocks_lt := wideBlocks.blocks_lt
  block_lt := sector_lt

def emptySector : ByteMemory := fun _ => 0

def protectiveSector : ByteMemory :=
  (((emptySector.write 448 1 2).write 450 1 0xEE).write 454 4 1).write 510 2 0xAA55

def oneHeader : GPT := oneEntry.header 34 900 (Crypto.crc32 (emptySector.bytes 0 128)).toNat

/-- The entry is empty when it is checked and counted, and has blocks 34 to 40 in the last read. -/
def fickle : Medium where
  getBlocksCount := 1000
  getBlockSize := 512
  readBlocks := fun t lba _ =>
    if lba = 0 then some protectiveSector
    else if lba = 1 then some oneHeader.sector
    else if t < 4 then some emptySector
    else some ((emptySector.write 32 8 34).write 40 8 40)

/-- Nothing fails. -/
def plenty : Environment where
  bootSector := true
  mbr := true
  atNull := false
  device := true
  name := true
  addNode := true
  gptSector := true
  batch := true
  cache := true
  cacheAgain := true
  partitions := true
  partitionName := fun _ => true
  partitionAdd := fun _ => true

theorem fickle_header : loadHeader fickle plenty = .ok (oneHeader, 3) := by
  have hhas : oneEntry.Has oneHeader fickle := Geometry.header_has 34 900 _ rfl rfl
  have hcrc : oneHeader.partitionEntriesCrc32 = (Crypto.crc32 (emptySector.bytes 0 128)).toNat :=
    Geometry.header_crc 34 900 _ (BitVec.isLt _)
  have harray := hhas.isPartitionArrayValid_batch (by decide) (t := 2) rfl
  rw [show oneEntry.count * oneEntry.size = 128 from rfl, hcrc, decide_eq_true rfl] at harray
  have hvalid := (Geometry.header_valid (G := oneEntry) 34 900 _ fickle true 2).trans harray
  exact loadHeader_ok (by decide) rfl (by decide) rfl hvalid

/-- A partition is constructed at index 0 of an array for none. -/
theorem partitions_outOfBounds_fickle : ∃ r, addDevice (some fickle) plenty = some r ∧ ¬ InBounds r := by
  have hrun : (loadPartitions oneHeader fickle plenty 3).map (fun r => (r.partitionsCount, r.constructed)) =
      some (0, [0]) := by
    decide +kernel
  obtain ⟨r, hr, heq⟩ := Option.map_eq_some_iff.mp hrun
  obtain ⟨hcount, hconstructed⟩ := Prod.mk.inj heq
  refine ⟨r, (addDevice_ok fickle_header).trans hr, fun h => ?_⟩
  have hlt := (h 0 (by rw [hconstructed]; exact List.mem_cons_self)).1
  omega

end BadLands.Devices.AddDevice
