import BadLands.Core.Machine
import BadLands.Usb.Configuration
import Mathlib.Data.List.Nodup
import Mathlib.Data.List.Pairwise

/-!
# Teardown of a USB device

`Device::Release` gives back what a device owns: its context, its transfer rings and the
configurations with their lists. `release` is what it does to each block, in order.

`functionsNumber` is never counted up, so `ConfigurationDescriptor::Release`
frees the first function and releases none; and `TransferRing::Release` frees the ring, which
`Device::Release` then does again for the rings of the endpoints. `teardown_exact_iff`: the teardown
is exact for the devices without an accepted configuration and without such a ring, and for no other.
-/
namespace BadLands.Usb.DeviceRelease

open BadLands.Core.Machine BadLands.Core.Disposal BadLands.Usb.Configuration

/-! ## Devices -/

/-- The object and the pages of a ring. -/
structure TransferRing where
  object : Block
  base : Block
  deriving DecidableEq, Repr

/-- The wrapper of the contexts and their pages. -/
structure ContextWrapper where
  object : Block
  output : Block
  deriving DecidableEq, Repr

/-- mirrors kernel/include/devices/USB/xHCI/Device.hpp:222-234 -/
structure Device where
  contextWrapper : Option ContextWrapper
  controlTransferRing : Option TransferRing
  configurations : Pointer
  descriptors : List ConfigurationDescriptor
  endpointTransferRings : List (Option TransferRing)
  deriving DecidableEq, Repr

def maxEndpointTransferRings : Nat := 15 * 2

def Device.create : Device := ⟨none, none, none, [], List.replicate maxEndpointTransferRings none⟩

/-- `VirtualMemory::AllocateDMA` -/
def allocateDMA (h : Heap) : Pointer × Heap :=
  (if h.available h.allocated then some (.dma h.allocated) else none, { h with allocated := h.allocated + 1 })

/-- An object on the heap with pages of its own; the object is freed when there are none.
mirrors kernel/src/devices/USB/xHCI/Specification.cpp:443-467,548-573,604-625 -/
def createWithPages (heap : Heap) : Option (Block × Block) × Heap :=
  let (object, heap) := heap.allocate
  match object with
  | none => (none, heap)
  | some object =>
    let (pages, heap) := allocateDMA heap
    match pages with
    | none => (none, heap.log [.free (some object)])
    | some pages => (some (object, pages), heap)

/-- mirrors kernel/src/devices/USB/xHCI/Specification.cpp:604-625 -/
def TransferRing.create (heap : Heap) : Option TransferRing × Heap :=
  let (r, heap) := createWithPages heap
  (r.map fun r => ⟨r.1, r.2⟩, heap)

def ContextWrapper.create (heap : Heap) : Option ContextWrapper × Heap :=
  let (r, heap) := createWithPages heap
  (r.map fun r => ⟨r.1, r.2⟩, heap)

/-- `Heap::Free(this)` included.
mirrors kernel/src/devices/USB/xHCI/Specification.cpp:631-635 -/
def TransferRing.release (r : TransferRing) : List (Event Block) :=
  [.touch (some r.object), .free (some r.base), .free (some r.object)]

/-- mirrors kernel/src/devices/USB/xHCI/Specification.cpp:469-472,575-578 -/
def ContextWrapper.release (c : ContextWrapper) : List (Event Block) :=
  [.touch (some c.object), .free (some c.output), .free (some c.object)]

/-- mirrors kernel/src/devices/USB/xHCI/Device.cpp:1671-1698 -/
def Device.release (d : Device) : List (Event Block) :=
  d.contextWrapper.elim [] ContextWrapper.release ++
  d.controlTransferRing.elim [] TransferRing.release ++
  d.configurations.elim [] (fun array =>
    d.descriptors.flatMap (fun c => .touch (some array) :: c.release) ++ [.free (some array)]) ++
  d.endpointTransferRings.flatMap fun r => r.elim [] fun r => r.release ++ [.free (some r.object)]

/-- `ConvertEndpointInterval` has a value.
mirrors kernel/src/devices/USB/xHCI/Device.cpp:608-652 -/
def intervalValid (lowSpeed : Bool) : EndpointType → Bool
  | .invalid => false
  | .isochronousIn | .isochronousOut => !lowSpeed
  | _ => true

/-- mirrors kernel/src/devices/USB/xHCI/Device.cpp:520-526 -/
def contextIndex (e : EndpointDescriptor) : Nat :=
  let isIn := e.endpointType = .isochronousIn ∨ e.endpointType = .bulkIn ∨ e.endpointType = .interruptIn
  (e.endpointAddress * 2#8 + if isIn then 1#8 else 0#8).toNat

/-- `commandOk`: the controller completes the command with success.
mirrors kernel/src/devices/USB/xHCI/Device.cpp:507-596 -/
def configureEndpoint (d : Device) (e : EndpointDescriptor) (lowSpeed commandOk : Bool) (heap : Heap) : Device × Heap :=
  if !intervalValid lowSpeed e.endpointType then (d, heap)
  else
    let index := contextIndex e - 2
    let (ring, heap) := match (d.endpointTransferRings[index]?).join with
      | some ring => (some ring, heap)
      | none => TransferRing.create heap
    match ring with
    | none => (d, heap)
    | some ring =>
      if commandOk then ({ d with endpointTransferRings := d.endpointTransferRings.set index (some ring) }, heap)
      else ({ d with endpointTransferRings := d.endpointTransferRings.set index none },
        heap.log (ring.release ++ [.free (some ring.object)]))

/-- The parts of `Initialize`, each once, and the endpoints that the drivers configure, which the parser has
left with an address from 1 to 15 or without a type. `fuel` is enough for the parser. -/
inductive Act where
  | createContext
  | createControlRing
  | fetchConfigurations (raws : List RawDescriptor) (fuel : Nat)
  | configureEndpoint (e : EndpointDescriptor) (lowSpeed commandOk : Bool)

/-- mirrors kernel/src/devices/USB/xHCI/Device.cpp:720-754,1419-1455 -/
def step : Device × Heap → Act → Option (Device × Heap)
  | (d, heap), .createContext =>
    if d.contextWrapper.isSome then none
    else
      let (c, heap) := ContextWrapper.create heap
      some ({ d with contextWrapper := c }, heap)
  | (d, heap), .createControlRing =>
    if d.controlTransferRing.isSome then none
    else
      let (r, heap) := TransferRing.create heap
      some ({ d with controlTransferRing := r }, heap)
  | (d, heap), .fetchConfigurations raws fuel =>
    if d.configurations.isSome then none
    else
      let (array, heap) := heap.allocate
      match array with
      | none => some (d, heap)
      | some array => (parseConfigurations fuel raws heap).map fun (cs, heap) =>
          ({ d with configurations := some array, descriptors := cs }, heap)
  | (d, heap), .configureEndpoint e lowSpeed commandOk =>
    if e.endpointType = .invalid ∨ (1 ≤ e.endpointAddress.toNat ∧ e.endpointAddress.toNat ≤ 15) then
      some (configureEndpoint d e lowSpeed commandOk heap)
    else none

/-! ## What a teardown has to do -/

def TransferRing.blocks (r : TransferRing) : List Block := [r.object, r.base]

def ContextWrapper.blocks (c : ContextWrapper) : List Block := [c.object, c.output]

def Device.owned (d : Device) : List Block :=
  d.contextWrapper.elim [] ContextWrapper.blocks ++ d.controlTransferRing.elim [] TransferRing.blocks ++
    d.configurations.toList ++ d.descriptors.flatMap (·.functions.blocks) ++
    d.endpointTransferRings.flatMap fun r => r.elim [] TransferRing.blocks

/-- Every block of the device is freed once, and not touched afterwards. -/
def Device.TornDown (d : Device) : Prop :=
  Safe [] d.release ∧ ∀ b ∈ d.owned, (frees d.release).count b = 1

/-! ## The invariant -/

/-- What a device owns is distinct, and its configurations are as the parser leaves them. -/
structure Inv (s : Device × Heap) : Prop where
  owned : Owned 0 s.2.allocated s.1.owned
  parsed : ∀ c ∈ s.1.descriptors, c.Parsed
  array : s.1.configurations = none → s.1.descriptors = []

section
variable {d d' : Device} {heap heap' : Heap} {s s' : Device × Heap} {a : Act}

theorem inv_create (heap : Heap) : Inv (.create, heap) := by
  refine ⟨?_, (fun c hc => by cases hc), fun _ => rfl⟩
  have howned : Device.create.owned = [] := by decide
  rw [howned]
  exact Owned.nil

theorem createWithPages_owned (heap : Heap) : heap.allocated ≤ (createWithPages heap).2.allocated ∧
    ∀ r ∈ (createWithPages heap).1, Owned heap.allocated (createWithPages heap).2.allocated [r.1, r.2] := by
  unfold createWithPages
  simp only
  rcases (allocate_cases heap).2 with hnone | hsome
  · rw [hnone]
    exact ⟨Nat.le_succ _, fun r hr => by cases hr⟩
  rw [hsome]
  simp only
  unfold allocateDMA
  cases heap.allocate.2.available heap.allocate.2.allocated with
  | false => exact ⟨Nat.le_add_right _ 2, fun r hr => by cases hr⟩
  | true =>
    refine ⟨Nat.le_add_right _ 2, fun r hr => ?_⟩
    cases hr
    exact (allocate_owned heap).append (Owned.single (.dma (heap.allocated + 1))) (Nat.le_succ _) (Nat.le_succ _)

/-- What a ring or a context is in is new. -/
theorem created_owned {α : Type} (heap : Heap) (make : Block × Block → α) (blocks : α → List Block)
    (hblocks : ∀ r, blocks (make r) = [r.1, r.2]) :
    Owned heap.allocated (createWithPages heap).2.allocated
      (((createWithPages heap).1.map make).elim [] blocks) := by
  have howned := (createWithPages_owned heap).2
  cases hr : (createWithPages heap).1 with
  | none => exact Owned.nil
  | some r =>
    rw [Option.map_some, Option.elim_some, hblocks]
    exact howned r hr

theorem ContextWrapper.create_owned (heap : Heap) : Owned heap.allocated (ContextWrapper.create heap).2.allocated
    ((ContextWrapper.create heap).1.elim [] ContextWrapper.blocks) :=
  created_owned heap (fun r => (⟨r.1, r.2⟩ : ContextWrapper)) ContextWrapper.blocks fun _ => rfl

theorem TransferRing.create_owned (heap : Heap) : Owned heap.allocated (TransferRing.create heap).2.allocated
    ((TransferRing.create heap).1.elim [] TransferRing.blocks) :=
  created_owned heap (fun r => (⟨r.1, r.2⟩ : TransferRing)) TransferRing.blocks fun _ => rfl

/-- A device that gets blocks that were allocated since. -/
theorem Inv.grown (h : Inv (d, heap)) {added : List Block} (hle : heap.allocated ≤ heap'.allocated)
    (hadded : Owned heap.allocated heap'.allocated added) (hp : d'.owned.Perm (d.owned ++ added)) :
    Owned 0 heap'.allocated d'.owned :=
  (h.owned.append hadded (Nat.zero_le _) hle).perm hp

theorem Inv.createContext (h : Inv (d, heap)) (hnone : d.contextWrapper = none) :
    Inv ({ d with contextWrapper := (ContextWrapper.create heap).1 }, (ContextWrapper.create heap).2) := by
  refine ⟨h.grown (createWithPages_owned heap).1 (ContextWrapper.create_owned heap) ?_, h.parsed, h.array⟩
  simp only [Device.owned, hnone, Option.elim_none]
  grind

theorem Inv.createControlRing (h : Inv (d, heap)) (hnone : d.controlTransferRing = none) :
    Inv ({ d with controlTransferRing := (TransferRing.create heap).1 }, (TransferRing.create heap).2) := by
  refine ⟨h.grown (createWithPages_owned heap).1 (TransferRing.create_owned heap) ?_, h.parsed, h.array⟩
  simp only [Device.owned, hnone, Option.elim_none]
  grind

theorem Inv.fetchConfigurations (h : Inv (d, heap)) (hnone : d.configurations = none) {raws : List RawDescriptor}
    {fuel : Nat} {cs : List ConfigurationDescriptor}
    (hparse : parseConfigurations fuel raws heap.allocate.2 = some (cs, heap')) :
    Inv ({ d with configurations := some (.heap heap.allocated), descriptors := cs }, heap') := by
  obtain ⟨hle, howned, hparsed⟩ := parseConfigurations_owned hparse
  have hempty : d.descriptors = [] := h.array hnone
  have hadded := (allocate_owned heap).append howned (Nat.le_succ _) hle
  refine ⟨h.grown (Nat.le_trans (Nat.le_succ _) hle) hadded ?_, hparsed, fun hn => by cases hn⟩
  simp only [Device.owned, hnone, hempty, Option.toList_none, Option.toList_some, List.flatMap_nil]
  grind

/-- The blocks of the rings of the endpoints. -/
def ringBlocks (rings : List (Option TransferRing)) : List Block := rings.flatMap fun r => r.elim [] TransferRing.blocks

theorem ringBlocks_set_none : ∀ (rings : List (Option TransferRing)) (i : Nat),
    (ringBlocks (rings.set i none)).Sublist (ringBlocks rings)
  | [], _ => List.Sublist.refl _
  | _ :: _, 0 => List.sublist_append_right _ _
  | _ :: rings, i + 1 => (ringBlocks_set_none rings i).append_left _

theorem ringBlocks_set_some (r : TransferRing) : ∀ (rings : List (Option TransferRing)) (i : Nat),
    (rings[i]?).join = none → (ringBlocks (rings.set i (some r))).Perm (ringBlocks rings ++ r.blocks) ∨
      rings.set i (some r) = rings
  | [], _, _ => .inr rfl
  | ring :: rings, 0, h => by
    have hring : ring = none := h
    subst hring
    exact .inl List.perm_append_comm
  | ring :: rings, i + 1, h => by
    rcases ringBlocks_set_some r rings i h with hp | hsame
    · refine .inl ?_
      have hcons : ∀ rs, ringBlocks (ring :: rs) = ring.elim [] TransferRing.blocks ++ ringBlocks rs := fun _ => rfl
      rw [List.set_cons_succ, hcons, hcons, List.append_assoc]
      exact hp.append_left _
    · exact .inr (by rw [List.set_cons_succ, hsame])

theorem Inv.configureEndpoint (h : Inv (d, heap)) (e : EndpointDescriptor) (lowSpeed commandOk : Bool) :
    Inv (configureEndpoint d e lowSpeed commandOk heap) := by
  have hrings : ∀ {rings : List (Option TransferRing)} {heap' : Heap}, heap.allocated ≤ heap'.allocated →
      Owned 0 heap'.allocated ({ d with endpointTransferRings := rings } : Device).owned →
      Inv ({ d with endpointTransferRings := rings }, heap') := fun _ ho => ⟨ho, h.parsed, h.array⟩
  have hnone : ∀ {heap' : Heap} (i : Nat), heap.allocated ≤ heap'.allocated →
      Inv ({ d with endpointTransferRings := d.endpointTransferRings.set i none }, heap') := by
    intro heap' i hle
    exact hrings hle ((h.owned.mono hle).sublist ((ringBlocks_set_none d.endpointTransferRings i).append_left _))
  have hsame : ∀ {heap' : Heap}, heap.allocated ≤ heap'.allocated → Inv (d, heap') :=
    fun hle => ⟨h.owned.mono hle, h.parsed, h.array⟩
  unfold DeviceRelease.configureEndpoint
  split
  · exact h
  simp only
  generalize contextIndex e - 2 = i
  cases hring : (d.endpointTransferRings[i]?).join with
  | some ring =>
    have hget : d.endpointTransferRings[i]? = some (some ring) := by
      rw [Option.join_eq_some_iff] at hring
      exact hring
    obtain ⟨hi, hat⟩ := List.getElem?_eq_some_iff.mp hget
    cases commandOk with
    | true =>
      have hset : d.endpointTransferRings.set i (some ring) = d.endpointTransferRings := by
        rw [← hat, List.set_getElem_self]
      simp only [if_true, hset]
      exact h
    | false => exact hnone i (Nat.le_refl _)
  | none =>
    have hle : heap.allocated ≤ (TransferRing.create heap).2.allocated := (createWithPages_owned heap).1
    have howned := TransferRing.create_owned heap
    generalize TransferRing.create heap = created at hle howned
    obtain ⟨r, heap₁⟩ := created
    cases r with
    | none => exact hsame hle
    | some r =>
      cases commandOk with
      | false => exact hnone i hle
      | true =>
        refine hrings hle ?_
        rcases ringBlocks_set_some r d.endpointTransferRings i hring with hp | hset
        · exact (h.owned.append howned (Nat.zero_le _) hle).perm ((hp.append_left _).trans (by
            rw [← List.append_assoc]; exact .refl _))
        · simp only [hset]
          exact h.owned.mono hle

theorem step_inv (s : Device × Heap) (a : Act) (s' : Device × Heap) (h : Inv s) (hs : step s a = some s') : Inv s' := by
  obtain ⟨d, heap⟩ := s
  cases a with
  | createContext =>
    simp only [step] at hs
    split at hs
    · cases hs
    · next hnone =>
      cases hs
      exact h.createContext (by simpa using hnone)
  | createControlRing =>
    simp only [step] at hs
    split at hs
    · cases hs
    · next hnone =>
      cases hs
      exact h.createControlRing (by simpa using hnone)
  | fetchConfigurations raws fuel =>
    simp only [step] at hs
    split at hs
    · cases hs
    · next hnone =>
      rcases (allocate_cases heap).2 with hno | hsome
      · rw [hno] at hs
        cases hs
        exact ⟨h.owned.mono (Nat.le_succ _), h.parsed, h.array⟩
      · rw [hsome] at hs
        obtain ⟨⟨cs, heap'⟩, hparse, hs'⟩ := Option.map_eq_some_iff.mp hs
        cases hs'
        exact h.fetchConfigurations (by simpa using hnone) hparse
  | configureEndpoint e lowSpeed commandOk =>
    simp only [step] at hs
    split at hs
    · cases hs
      exact h.configureEndpoint e lowSpeed commandOk
    · cases hs

/-! ## The teardown -/

/-- A configuration frees its first function and nothing else. -/
theorem parsed_release {c : ConfigurationDescriptor} (h : c.Parsed) : frees c.release =
    if c.valid then c.functions.pointer.toList else [] := by
  unfold ConfigurationDescriptor.release
  rcases h with ⟨hvalid, hnumber, -⟩ | ⟨hvalid, -⟩
  · rw [hvalid, hnumber]
    cases c.functions with
    | null => rfl
    | node b f interfaces next => rfl
  · rw [hvalid]
    rfl

/-- A block of an accepted configuration that is not its first function. -/
theorem exists_leaked {c : ConfigurationDescriptor} (h : c.Parsed) (hvalid : c.valid = true)
    (hnd : c.functions.blocks.Nodup) : ∃ b ∈ c.functions.blocks, b ∉ c.functions.pointer := by
  obtain ⟨-, -, hlength⟩ := h.resolve_right fun hr => by rw [hvalid] at hr; cases hr.1
  cases hfs : c.functions with
  | null =>
    rw [hfs] at hlength
    cases hlength
  | node b f interfaces next =>
    rw [hfs] at hlength hnd
    have hblocks : (FunctionDescriptor.node b f interfaces next).blocks = b :: (interfaces.blocks ++ next.blocks) := rfl
    rw [hblocks] at hlength hnd ⊢
    obtain ⟨x, hx⟩ := List.exists_mem_of_length_pos (l := interfaces.blocks ++ next.blocks) (by
      rw [List.length_cons] at hlength
      omega)
    refine ⟨x, List.mem_cons_of_mem _ hx, fun hp => ?_⟩
    cases hp
    exact (List.nodup_cons.mp hnd).1 hx

/-- An object and its pages: the pages are freed first. -/
theorem pages_disposes {object pages : Block} (hnd : [object, pages].Nodup) :
    Disposes [] [object, pages] [.touch (some object), .free (some pages), .free (some object)] := by
  have hpages : Disposes [object] [pages] [.free (some pages)] := Disposes.nil.free List.not_mem_nil
  exact (hpages.touch List.mem_cons_self).free (List.nodup_cons.mp hnd).1

theorem elim_disposes {α : Type} {o : Option α} {blocks : α → List Block} {events : α → List (Event Block)}
    (h : ∀ x, (blocks x).Nodup → Disposes [] (blocks x) (events x)) (hnd : (o.elim [] blocks).Nodup) :
    Disposes [] (o.elim [] blocks) (o.elim [] events) := by
  cases o with
  | none => exact .nil
  | some x => exact h x hnd

/-- Configurations that were not accepted have nothing to release. -/
theorem rejected_disposes (array : Block) : ∀ cs : List ConfigurationDescriptor, (∀ c ∈ cs, c.valid = false) →
    Disposes [array] [] (cs.flatMap fun c => .touch (some array) :: c.release)
  | [], _ => .nil
  | c :: cs, h => by
    have hrelease : c.release = [] := by
      unfold ConfigurationDescriptor.release
      rw [h c List.mem_cons_self]
      rfl
    rw [List.flatMap_cons, hrelease]
    exact (rejected_disposes array cs fun c' hc' => h c' (List.mem_cons_of_mem _ hc')).touch List.mem_cons_self

/-- Without an accepted configuration and a ring of an endpoint, everything is freed once. -/
theorem release_disposes (h : Inv (d, heap)) (hvalid : ∀ c ∈ d.descriptors, c.valid = false)
    (hrings : ∀ r ∈ d.endpointTransferRings, r = none) : Disposes [] d.owned d.release := by
  have hnd := h.owned.1
  have hdescriptors : d.descriptors.flatMap (·.functions.blocks) = [] := by
    rw [List.flatMap_eq_nil_iff]
    intro c hc
    obtain ⟨-, hnull⟩ := (h.parsed c hc).resolve_left fun hl => by
      rw [hvalid c hc] at hl
      cases hl.1
    rw [hnull]
    rfl
  have hblocks : d.endpointTransferRings.flatMap (fun r => r.elim [] TransferRing.blocks) = [] := by
    rw [List.flatMap_eq_nil_iff]
    intro r hr
    rw [hrings r hr]
    rfl
  have hevents : d.endpointTransferRings.flatMap (fun r => r.elim [] fun r => r.release ++ [.free (some r.object)]) =
      ([] : List (Event Block)) := by
    rw [List.flatMap_eq_nil_iff]
    intro r hr
    rw [hrings r hr]
    rfl
  have harray : ∀ array, Disposes [] [array]
      (d.descriptors.flatMap (fun c => .touch (some array) :: c.release) ++ [.free (some array)]) := by
    exact fun array => (rejected_disposes array d.descriptors hvalid).free List.not_mem_nil
  have howned : d.owned = d.contextWrapper.elim [] ContextWrapper.blocks ++
      d.controlTransferRing.elim [] TransferRing.blocks ++ d.configurations.elim [] fun array => [array] := by
    rw [Device.owned, hdescriptors, hblocks, List.append_nil, List.append_nil]
    cases d.configurations with
    | none => rfl
    | some array => rfl
  have hrelease : d.release = d.contextWrapper.elim [] ContextWrapper.release ++
      d.controlTransferRing.elim [] TransferRing.release ++ d.configurations.elim [] fun array =>
        d.descriptors.flatMap (fun c => .touch (some array) :: c.release) ++ [.free (some array)] := by
    rw [Device.release, hevents, List.append_nil]
  rw [howned] at hnd ⊢
  rw [hrelease]
  obtain ⟨hfirst, hndArray, -⟩ := List.nodup_append.mp hnd
  obtain ⟨hndContext, hndControl, -⟩ := List.nodup_append.mp hfirst
  exact ((elim_disposes (fun _ => pages_disposes) hndContext).append
    (elim_disposes (fun _ => pages_disposes) hndControl) hfirst).append
    (elim_disposes (fun array _ => harray array) hndArray) hnd

/-- What a teardown frees. -/
theorem frees_release (d : Device) : frees d.release =
    frees (d.contextWrapper.elim [] ContextWrapper.release) ++ frees (d.controlTransferRing.elim [] TransferRing.release) ++
    d.configurations.elim [] (fun array => d.descriptors.flatMap (fun c => frees c.release) ++ [array]) ++
    d.endpointTransferRings.flatMap fun r => r.elim [] fun r => [r.base, r.object, r.object] := by
  rw [Device.release, frees_append, frees_append, frees_append, frees_flatMap]
  congr 1
  · congr 1
    cases d.configurations with
    | none => rfl
    | some array =>
      rw [Option.elim_some, Option.elim_some, frees_append, frees_flatMap]
      rfl
  · congr 1
    funext r
    cases r with
    | none => rfl
    | some r => rfl

theorem mem_blocks_of_mem_pointer {fs : FunctionDescriptor} {b : Block} (h : b ∈ fs.pointer) : b ∈ fs.blocks := by
  cases fs with
  | null => cases h
  | node b' f interfaces next =>
    cases h
    exact List.mem_cons_self

theorem mem_frees_elim {α : Type} {o : Option α} {blocks : α → List Block} {events : α → List (Event Block)} {b : Block}
    (h : ∀ x, ∀ y ∈ frees (events x), y ∈ blocks x) (hb : b ∈ frees (o.elim [] events)) : b ∈ o.elim [] blocks := by
  cases o with
  | none => cases hb
  | some x => exact h x b hb

theorem mem_frees_pages {object pages b : Block}
    (h : b ∈ frees [.touch (some object), .free (some pages), .free (some object)]) : b ∈ [object, pages] := by
  have hfrees : frees [.touch (some object), .free (some pages), .free (some object)] = [pages, object] := rfl
  rw [hfrees] at h
  exact (List.Perm.swap _ _ _).mem_iff.mp h

/-- The lists of the configurations have no block in common, and none with the rest of the device. -/
theorem Inv.lists (h : Inv (d, heap)) : (d.descriptors.flatMap (·.functions.blocks)).Nodup ∧
    ∀ b ∈ d.descriptors.flatMap (·.functions.blocks),
      b ∉ d.contextWrapper.elim [] ContextWrapper.blocks ∧ b ∉ d.controlTransferRing.elim [] TransferRing.blocks ∧
      b ∉ d.configurations ∧ b ∉ ringBlocks d.endpointTransferRings := by
  obtain ⟨hbefore, -, hafter⟩ := List.nodup_append.mp h.owned.1
  obtain ⟨-, hlists, hdisjoint⟩ := List.nodup_append.mp hbefore
  refine ⟨hlists, fun b hb => ⟨fun hx => ?_, fun hx => ?_, fun hx => ?_, fun hx => ?_⟩⟩
  · exact hdisjoint b (List.mem_append_left _ (List.mem_append_left _ hx)) b hb rfl
  · exact hdisjoint b (List.mem_append_left _ (List.mem_append_right _ hx)) b hb rfl
  · exact hdisjoint b (List.mem_append_right _ (Option.mem_toList.mpr hx)) b hb rfl
  · exact hafter b (List.mem_append_right _ hb) b hx rfl

/-- A block of an accepted configuration is not freed, unless it is the first function. -/
theorem leaked_not_freed (h : Inv (d, heap)) {c : ConfigurationDescriptor} (hc : c ∈ d.descriptors) {b : Block}
    (hb : b ∈ c.functions.blocks) (hpointer : b ∉ c.functions.pointer) : b ∉ frees d.release := by
  obtain ⟨hlists, hothers⟩ := h.lists
  obtain ⟨hcontext, hcontrol, harray, hrings⟩ := hothers b (List.mem_flatMap.mpr ⟨c, hc, hb⟩)
  rw [frees_release, List.mem_append, List.mem_append, List.mem_append]
  rintro (((hx | hx) | hx) | hx)
  · exact hcontext (mem_frees_elim (fun _ _ => mem_frees_pages) hx)
  · exact hcontrol (mem_frees_elim (fun _ _ => mem_frees_pages) hx)
  · cases hconfigurations : d.configurations with
    | none =>
      rw [hconfigurations] at hx
      cases hx
    | some array =>
      rw [hconfigurations, Option.elim_some, List.mem_append] at hx
      rcases hx with hx | hx
      · obtain ⟨c', hc', hx⟩ := List.mem_flatMap.mp hx
        rw [parsed_release (h.parsed c' hc')] at hx
        split at hx
        · have hx := Option.mem_toList.mp hx
          by_cases hcc : c = c'
          · subst hcc
            exact hpointer hx
          · have : Std.Symm (Function.onFun List.Disjoint fun c : ConfigurationDescriptor => c.functions.blocks) :=
              ⟨fun _ _ hd => List.disjoint_symm hd⟩
            have hdisjoint := (List.nodup_flatMap.mp hlists).2.forall hc hc' hcc
            exact hdisjoint hb (mem_blocks_of_mem_pointer hx)
        · cases hx
      · exact harray (by rw [hconfigurations, List.mem_singleton.mp hx]; rfl)
  · obtain ⟨r, hr, hx⟩ := List.mem_flatMap.mp hx
    cases r with
    | none => cases hx
    | some r =>
      refine hrings (List.mem_flatMap.mpr ⟨some r, hr, ?_⟩)
      have hx : b ∈ [r.base, r.object, r.object] := hx
      simp only [List.mem_cons, List.not_mem_nil, or_false, or_self] at hx
      exact hx.elim (fun he => List.mem_cons_of_mem _ (List.mem_singleton.mpr he)) fun he => List.mem_cons.mpr (.inl he)

/-- The ring of an endpoint is freed twice. -/
theorem ring_freed_twice {r : TransferRing} (hr : some r ∈ d.endpointTransferRings) :
    2 ≤ (frees d.release).count r.object := by
  have hsub : [r.object, r.object].Sublist (frees d.release) := by
    rw [frees_release]
    refine List.Sublist.trans ?_ (List.sublist_append_right _ _)
    rw [List.flatMap_def]
    refine List.Sublist.trans ?_ (List.sublist_flatten_of_mem (List.mem_map.mpr ⟨some r, hr, rfl⟩))
    exact List.sublist_cons_self _ _
  have hcount := hsub.count_le r.object
  rw [List.count_cons_self, List.count_cons_self] at hcount
  omega

theorem teardown_exact_iff (heap : Heap) (acts : List Act) (d : Device) (heap' : Heap)
    (hrun : run step (.create, heap) acts = some (d, heap')) :
    d.TornDown ↔ (∀ c ∈ d.descriptors, c.valid = false) ∧ ∀ r ∈ d.endpointTransferRings, r = none := by
  have h : Inv (d, heap') :=
    AllStates.of_run acts _ _ (allStates_of_inv step_inv acts _ (inv_create heap)) hrun
  constructor
  · rintro ⟨-, honce⟩
    refine ⟨fun c hc => Bool.eq_false_iff.mpr fun hvalid => ?_, fun r hr => ?_⟩
    · have hmem : ∀ b ∈ c.functions.blocks, b ∈ d.owned := fun b hb => by
        unfold Device.owned
        exact List.mem_append_left _ (List.mem_append_right _ (List.mem_flatMap.mpr ⟨c, hc, hb⟩))
      obtain ⟨b, hb, hpointer⟩ := exists_leaked (h.parsed c hc) hvalid ((List.nodup_flatMap.mp h.lists.1).1 c hc)
      have hcount := honce b (hmem b hb)
      rw [List.count_eq_zero.mpr (leaked_not_freed h hc hb hpointer)] at hcount
      cases hcount
    · cases r with
      | none => rfl
      | some r =>
        have hmem : r.object ∈ d.owned := by
          unfold Device.owned
          exact List.mem_append_right _ (List.mem_flatMap.mpr ⟨some r, hr, List.mem_cons_self⟩)
        have hcount := honce _ hmem
        have htwice := ring_freed_twice hr
        omega
  · rintro ⟨hvalid, hrings⟩
    have hd := release_disposes h hvalid hrings
    refine ⟨hd.safe [] fun x hx => (by cases hx), fun b hb => ?_⟩
    rw [hd.frees.count_eq]
    exact List.count_eq_one_of_mem h.owned.1 hb

end

/-- Every allocation succeeds. -/
def plentiful : Heap := ⟨fun _ => true, 0, []⟩

/-- One mass storage interface with one bulk endpoint. -/
def storageBytes : List (BitVec 8) :=
  [9, 2, 25, 0, 1, 1, 0, 0x80, 50, 9, 4, 0, 0, 1, 8, 6, 0x50, 0, 7, 5, 0x81, 2, 0, 2, 0]

def storageConfiguration : RawDescriptor := ⟨true, true, true, fun p => storageBytes.getD p 0#8⟩

/-- A configuration that counts no interface is not accepted. -/
def emptyConfiguration : RawDescriptor := ⟨true, true, true, fun p => [9, 2, 9, 0, 0, 1, 0, 0x80, 50].getD p 0#8⟩

theorem teardown_exact_rejected : ∃ d heap',
    run step (.create, plentiful) [.createContext, .createControlRing, .fetchConfigurations [emptyConfiguration] 2] =
        some (d, heap') ∧
      d.owned.length = 5 ∧ d.TornDown := by
  refine ⟨_, _, rfl, by decide, ?_⟩
  exact (teardown_exact_iff plentiful
    [.createContext, .createControlRing, .fetchConfigurations [emptyConfiguration] 2] _ _ rfl).mpr
      ⟨by decide, by decide⟩

/-- Block 7 is the interface, 8 the ring of its endpoint. -/
theorem teardown_leaks_and_frees_twice : ∃ d heap',
    run step (.create, plentiful) [.createContext, .createControlRing,
        .fetchConfigurations [storageConfiguration] 2, .configureEndpoint ⟨1#8, .bulkIn, 512#16, 0#8⟩ false true] =
        some (d, heap') ∧
      ((.heap 7 ∈ d.owned ∧ .heap 7 ∉ frees d.release) ∧ (frees d.release).count (.heap 8) = 2) ∧ ¬ d.TornDown := by
  refine ⟨_, _, rfl, by decide, fun hd => ?_⟩
  have honce := hd.2 (.heap 8) (by decide)
  revert honce
  decide

end BadLands.Usb.DeviceRelease
