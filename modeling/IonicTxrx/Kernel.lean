import Mathlib

/-!
# Kernel services

What the driver gets back from the kernel and the device on both paths: the error codes it
returns, and the DMA mappings it creates and tears down. A mapping is recorded by the address
`dma_map_*` returned; an unmap of an address with no live mapping is recorded as well.
-/

namespace IonicTxrx

/-- `-EIO`. -/
def eio : Int := -5

/-- `-ENOMEM`. -/
def enomem : Int := -12

/-- `DMA_MAPPING_ERROR`, the all-ones `dma_addr_t` a failed mapping returns. -/
def dmaMappingErrorAddr : Nat := 2 ^ 64 - 1

/-- `dma_mapping_error(dev, addr)`. -/
def dmaMappingError (addr : Nat) : Bool := addr == dmaMappingErrorAddr

/-- The DMA mappings of the device: the addresses currently mapped (a multiset), and every
unmap of an address that had no live mapping, most recent first. -/
structure Dma where
  live : List Nat := []
  bad : List Nat := []
  deriving DecidableEq, Repr

namespace Dma

/-- A successful `dma_map_*` returning `a`. -/
def map (d : Dma) (a : Nat) : Dma := { d with live := a :: d.live }

/-- `dma_unmap_*` of `a`. -/
def unmap (d : Dma) (a : Nat) : Dma :=
  if a ∈ d.live then { d with live := d.live.erase a } else { d with bad := a :: d.bad }

end Dma

end IonicTxrx
