/-!
# Memory constants and address-space layout

mirrors common/include/shared/memory/defs.hpp:25-41,
common/include/shared/memory/layout.hpp:26-82 and
kernel/include/mm/VirtualMemoryLayout.hpp:25-88 (the zones the memory managers use).
-/
namespace BadLands.Mm.Layout

def pageSize : Nat := 0x1000
def frameSize : Nat := 0x1000
def pml4Entries : Nat := 0x200
def ptEntries : Nat := 0x200
def pml4eCoverage : Nat := 0x0000008000000000
def pdeCoverage : Nat := 0x0000000000200000
def pteCoverage : Nat := 0x0000000000001000

structure MemoryZone where
  start : Nat
  limit : Nat
  deriving DecidableEq, Repr

def MemoryZone.«end» (z : MemoryZone) : Nat := z.start + z.limit

def dmaZone : MemoryZone := ⟨0, 0x0000000001000000⟩

def userMemory : MemoryZone := ⟨dmaZone.start, pml4eCoverage - dmaZone.limit⟩

def userStack : MemoryZone := ⟨userMemory.end - 0x0000000000200000, 0x0000000000200000⟩

def kernelImage : MemoryZone := ⟨0xFFFF800000000000, 0x0000000020000000⟩

def osLoaderFont : MemoryZone := ⟨kernelImage.end, 0x0000000000080000⟩

def osLoaderData : MemoryZone := ⟨osLoaderFont.end, 0x0000000001F80000⟩

def efiRuntimeServices : MemoryZone := ⟨osLoaderData.end, 0x0000000004000000⟩

def efiGopFramebuffer : MemoryZone := ⟨efiRuntimeServices.end, 0x0000000004000000⟩

def screenBackBuffer : MemoryZone := ⟨efiGopFramebuffer.end, 0x0000000004000000⟩

def acpiNvs : MemoryZone := ⟨screenBackBuffer.end, 0x0000000002000000⟩

def unmappedMemoryStart : Nat := acpiNvs.end

def physicalMemoryMap : MemoryZone := ⟨unmappedMemoryStart, 0x100000000⟩

def generalMapping : MemoryZone :=
  ⟨physicalMemoryMap.end, pml4eCoverage - (physicalMemoryMap.end - kernelImage.start)⟩

def kernelHeapManagement : MemoryZone := ⟨generalMapping.end, pml4eCoverage⟩

def kernelHeap : MemoryZone := ⟨kernelHeapManagement.end, (pml4Entries / 2 - 5) * pml4eCoverage⟩

def secondaryRecursiveMapping : MemoryZone := ⟨0xFFFFFE8000000000, pml4eCoverage⟩

def recursiveMemoryMapping : MemoryZone := ⟨0xFFFFFF0000000000, 0x0000008000000000⟩

def taskMemory : MemoryZone := ⟨recursiveMemoryMapping.end, pml4eCoverage⟩

def kernelStackGuard : MemoryZone := ⟨taskMemory.start, pageSize⟩

def kernelStack : MemoryZone := ⟨kernelStackGuard.end, 0x0000000000100000 - 2 * pageSize⟩

def kernelStackReserve : MemoryZone := ⟨kernelStack.end, pageSize⟩

def userVMemManagement : MemoryZone :=
  ⟨0xFFFFFF8001100000, pml4eCoverage - 0xFFFFFF8001100000 % pml4eCoverage⟩

end BadLands.Mm.Layout
