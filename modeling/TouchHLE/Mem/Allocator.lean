/-
The guest memory allocator (`mem/allocator.rs`): chunks of the 32-bit address space, two indexes of the unused ones,
and the operations that move chunks between the used and the unused side.

- `Chunk`: a non-empty range of bytes, with the size's positivity as a field (the source's `NonZeroU32`).
- `ChunkMap`: chunks by base, a B-tree map in the source, here the list of its entries in the order of the bases.
- `SizeBucketedChunkMap`: a `ChunkMap` together with one vector of chunks for each power of two of the size.
- `Allocator`: used and unused chunks; `reserve`, `alloc` and `free`.

Addresses and sizes are ℕ.
-/
import TouchHLE.Lib.Machine
import TouchHLE.Lib.Vec
import TouchHLE.Panic

namespace TouchHLE.Mem

open Vec

/-! ## Constants -/

def pageSize : ℕ := 4096

def pageSizeAlignMask : ℕ := 0xfff

/-- every allocation is a multiple of 16 bytes -/
def minChunkSize : ℕ := 16

def mainThreadStackSize : ℕ := 1024 * 1024

/-- the stack of the main thread ends at the top of the address space -/
def mainThreadStackLowEnd : ℕ := 2 ^ 32 - mainThreadStackSize

/-- `addr & PAGE_SIZE_ALIGN_MASK == 0` -/
def pageAligned (addr : ℕ) : Bool := addr &&& pageSizeAlignMask == 0

/-! ## Chunks -/

structure Chunk where
  base : ℕ
  size : ℕ
  size_pos : 0 < size
deriving DecidableEq, Repr

namespace Chunk

def new (base size : ℕ) : Except Panic Chunk :=
  if size ≥ pageSize ∧ pageAligned base = false then .error .misaligned
  else if h : 0 < size then .ok ⟨base, size, h⟩
  else .error .emptyChunk

def lastByte (c : Chunk) : ℕ := c.base + (c.size - 1)

def contains (c : Chunk) (addr : ℕ) : Bool := c.base ≤ addr && addr ≤ c.lastByte

def leftOf (c middle : Chunk) : Except Panic (Option Chunk) :=
  if middle.base - c.base = 0 then pure none else some <$> Chunk.new c.base (middle.base - c.base)

def rightOf (c middle : Chunk) : Except Panic (Option Chunk) :=
  if c.lastByte - middle.lastByte = 0 then pure none
  else do
    let base ← add32 middle.lastByte 1
    some <$> Chunk.new base (c.lastByte - middle.lastByte)

/-- what is left of a chunk on both sides of a middle part -/
def trisectBy (c middle : Chunk) : Except Panic (Option (Option Chunk × Option Chunk)) :=
  if !c.contains middle.base || !c.contains middle.lastByte then pure none
  else do
    let left ← c.leftOf middle
    let right ← c.rightOf middle
    pure (some (left, right))

end Chunk

/-! ## Chunks by base -/

/-- a map from bases to sizes, in the order of the bases -/
structure ChunkMap where
  chunks : List Chunk
deriving DecidableEq, Repr

namespace ChunkMap

def empty : ChunkMap := ⟨[]⟩

def insert (m : ChunkMap) (c : Chunk) : Except Panic ChunkMap :=
  if m.chunks.any (·.base == c.base) then .error .duplicateKey
  else .ok ⟨m.chunks.orderedInsert (·.base ≤ ·.base) c⟩

def removeWithBase (m : ChunkMap) (base : ℕ) : Option (Chunk × ChunkMap) :=
  (m.chunks.find? (·.base == base)).map fun c => (c, ⟨m.chunks.eraseP (·.base == base)⟩)

/-- remove the chunk that ends just before `stop`: the last one that starts below it, if it ends there -/
def removeWithEnd (m : ChunkMap) (stop : ℕ) : Except Panic (Option (Chunk × ChunkMap)) :=
  match (m.chunks.filter (·.base < stop)).getLast? with
  | none => pure none
  | some c => do
    let next ← add32 c.lastByte 1
    if next ≠ stop then pure none else pure (m.removeWithBase c.base)

def getSizeWithBase (m : ChunkMap) (base : ℕ) : Option ℕ := (m.chunks.find? (·.base == base)).map Chunk.size

end ChunkMap

/-! ## Chunks by base and by size -/

/-- the bucket of a size: its binary logarithm, counted from that of the smallest size -/
def bucketFor (size : ℕ) : ℕ := Nat.log2 size - Nat.log2 minChunkSize

/-- `bucket_for(u32::MAX) + 1` -/
def numBuckets : ℕ := bucketFor (2 ^ 32 - 1) + 1

structure SizeBucketedChunkMap where
  chunks : ChunkMap
  chunksByLog2Size : List (List Chunk)
deriving DecidableEq, Repr

namespace SizeBucketedChunkMap

def empty : SizeBucketedChunkMap := ⟨.empty, List.replicate numBuckets []⟩

/-- the vector of a bucket -/
def bucket (m : SizeBucketedChunkMap) (b : ℕ) : List Chunk := m.chunksByLog2Size.getD b []

def insert (m : SizeBucketedChunkMap) (c : Chunk) : Except Panic SizeBucketedChunkMap := do
  assert (c.size ≥ minChunkSize) .chunkTooSmall
  let chunks ← m.chunks.insert c
  pure ⟨chunks, m.chunksByLog2Size.modify (bucketFor c.size) (· ++ [c])⟩

def removeFromBucket (m : SizeBucketedChunkMap) (c : Chunk) : Except Panic SizeBucketedChunkMap :=
  match rposition (fun c2 => c.base == c2.base) (m.bucket (bucketFor c.size)) with
  | none => .error .notInBucket
  | some idx => do
    assert ((m.bucket (bucketFor c.size))[idx]? == some c) .indexMismatch
    pure { m with chunksByLog2Size := m.chunksByLog2Size.modify (bucketFor c.size) (swapRemove · idx) }

def removeWithBase (m : SizeBucketedChunkMap) (base : ℕ) : Except Panic (Option Chunk × SizeBucketedChunkMap) :=
  match m.chunks.removeWithBase base with
  | none => pure (none, m)
  | some (c, chunks) => do pure (some c, ← removeFromBucket { m with chunks := chunks } c)

def removeWithEnd (m : SizeBucketedChunkMap) (stop : ℕ) : Except Panic (Option Chunk × SizeBucketedChunkMap) := do
  match ← m.chunks.removeWithEnd stop with
  | none => pure (none, m)
  | some (c, chunks) => pure (some c, ← removeFromBucket { m with chunks := chunks } c)

/-- the search loop of `allocate_in_bucket` over (chunk, index) pairs, last one first: the smallest chunk that is
large enough, stopping at an exact fit -/
def bestChunk (size : ℕ) : List (Chunk × ℕ) → Option (ℕ × ℕ) → Option (ℕ × ℕ)
  | [], best => best
  | (c, idx) :: rest, best =>
    if c.size ≥ size ∧ (best.all fun b => b.2 > c.size) then
      if c.size = size then some (idx, c.size) else bestChunk size rest (some (idx, c.size))
    else bestChunk size rest best

/-- hand out the low end of an existing chunk and put the rump back -/
def splitChunk (m : SizeBucketedChunkMap) (existing : Chunk) (size : ℕ) :
    Except Panic (Chunk × SizeBucketedChunkMap) := do
  let alloc ← Chunk.new existing.base size
  let rumpBase ← add32 existing.base size
  let rumpSize := existing.size - size
  if rumpSize ≥ pageSize ∧ pageAligned rumpBase = false then
    assert (pageAligned existing.base) .realign
    -- less than a page, up to the next page boundary
    let left ← Chunk.new rumpBase (pageSize - size)
    -- (maybe) more than a page, from that boundary on
    let rightBase ← add32 existing.base pageSize
    let right ← Chunk.new rightBase (existing.size - pageSize)
    let next ← add32 left.lastByte 1
    assert (next == right.base) .realign
    assert (left.size + right.size == rumpSize) .realign
    let m ← m.insert left
    let m ← m.insert right
    pure (alloc, m)
  else
    let rump ← Chunk.new rumpBase rumpSize
    let m ← m.insert rump
    pure (alloc, m)

def allocateInBucket (m : SizeBucketedChunkMap) (size b : ℕ) : Except Panic (Option Chunk × SizeBucketedChunkMap) :=
  match bestChunk size (m.bucket b).zipIdx.reverse none with
  | none => pure (none, m)
  | some (idx, _) =>
    match (m.bucket b)[idx]? with
    | none => .error .indexMismatch
    | some existing =>
      match m.chunks.removeWithBase existing.base with
      | none => .error .indexMismatch
      | some (existing2, chunks) => do
        assert (existing == existing2) .indexMismatch
        let m := ⟨chunks, m.chunksByLog2Size.modify b (swapRemove · idx)⟩
        if existing.size = size then pure (some existing, m)
        else do
          let (alloc, m) ← splitChunk m existing size
          pure (some alloc, m)

def allocate (m : SizeBucketedChunkMap) (size : ℕ) : Except Panic (Option Chunk × SizeBucketedChunkMap) := do
  assert (size ≥ minChunkSize) .chunkTooSmall
  match ← m.allocateInBucket size (bucketFor size) with
  | (some alloc, m) => pure (some alloc, m)
  | (none, m) =>
    -- an exact match has been ruled out: the next largest non-empty bucket
    match (m.chunksByLog2Size.drop (bucketFor size + 1)).findIdx? (fun b => !b.isEmpty) with
    | none => pure (none, m)
    | some k => m.allocateInBucket size (k + bucketFor size + 1)

def iter (m : SizeBucketedChunkMap) : List Chunk := m.chunksByLog2Size.flatten

end SizeBucketedChunkMap

/-! ## The allocator -/

structure Allocator where
  usedChunks : ChunkMap
  unusedChunks : SizeBucketedChunkMap
deriving DecidableEq, Repr

namespace Allocator

def new : Except Panic Allocator := do
  let mainThreadStack ← Chunk.new mainThreadStackLowEnd mainThreadStackSize
  let rest ← Chunk.new 0 mainThreadStackLowEnd
  let usedChunks ← ChunkMap.empty.insert mainThreadStack
  let unusedChunks ← SizeBucketedChunkMap.empty.insert rest
  pure ⟨usedChunks, unusedChunks⟩

/-- the search loop of `reserve`: the first chunk that the range trisects, with what is left of it -/
def findTrisected (c : Chunk) : List Chunk → Except Panic (Option (Chunk × Option Chunk × Option Chunk))
  | [] => pure none
  | u :: rest => do
    match ← u.trisectBy c with
    | some (before, after) => pure (some (u, before, after))
    | none => findTrisected c rest

def insertOpt (m : SizeBucketedChunkMap) : Option Chunk → Except Panic SizeBucketedChunkMap
  | none => pure m
  | some c => m.insert c

def reserve (a : Allocator) (c : Chunk) : Except Panic Allocator := do
  match ← findTrisected c a.unusedChunks.iter with
  | none => throw .couldNotReserve
  | some (toTrisect, before, after) =>
    let (_, unused) ← a.unusedChunks.removeWithBase toTrisect.base
    let unused ← insertOpt unused before
    let unused ← insertOpt unused after
    let used ← a.usedChunks.insert c
    pure ⟨used, unused⟩

def align (size align : ℕ) : Except Panic ℕ :=
  if size % align ≠ 0 then do
    let sum ← add32 size align
    pure (sum - size % align)
  else pure size

/-- the size `alloc` looks for -/
def alignedSize (size : ℕ) : Except Panic ℕ :=
  if size < pageSize then align (max size minChunkSize) minChunkSize else align size pageSize

def alloc (a : Allocator) (size : ℕ) : Except Panic (ℕ × Allocator) := do
  let size ← alignedSize size
  match ← a.unusedChunks.allocate size with
  | (none, _) => throw .outOfMemory
  | (some alloc, unused) =>
    let used ← a.usedChunks.insert alloc
    pure (alloc.base, ⟨used, unused⟩)

def findAllocatedSize (a : Allocator) (base : ℕ) : Except Panic ℕ :=
  match a.usedChunks.getSizeWithBase base with
  | none => .error .unknownAllocation
  | some size => pure size

/-- the unused neighbour a freed chunk is joined with: the one after it or else the one before it -/
def removeAdjacent (m : SizeBucketedChunkMap) (freed : Chunk) :
    Except Panic (Option Chunk × SizeBucketedChunkMap) := do
  let next ← add32 freed.lastByte 1
  match ← m.removeWithBase next with
  | (some adjacent, m) => pure (some adjacent, m)
  | (none, m) => m.removeWithEnd freed.base

/-- returns the size of the freed chunk -/
def free (a : Allocator) (base : ℕ) : Except Panic (ℕ × Allocator) :=
  match a.usedChunks.removeWithBase base with
  | none => pure (0, a)
  | some (freed, used) => do
    let (adjacent, unused) ← removeAdjacent a.unusedChunks freed
    match adjacent with
    | some adjacent =>
      let newBase := min freed.base adjacent.base
      let newSize ← add32 freed.size adjacent.size
      if newSize ≥ pageSize ∧ pageAligned newBase = false then
        -- the page alignment invariant would be violated: not combining
        let unused ← unused.insert adjacent
        let unused ← unused.insert freed
        pure (freed.size, ⟨used, unused⟩)
      else
        let combined ← Chunk.new newBase newSize
        let unused ← unused.insert combined
        pure (freed.size, ⟨used, unused⟩)
    | none =>
      let unused ← unused.insert freed
      pure (freed.size, ⟨used, unused⟩)

/-- the used chunks, and an allocator that is like new -/
def resetAndDrainUsedChunks (a : Allocator) : Except Panic (List Chunk × Allocator) := do
  pure (a.usedChunks.chunks, ← Allocator.new)

/-! ## Sequences of operations -/

inductive Op where
  | reserve (c : Chunk)
  | alloc (size : ℕ)
  | free (base : ℕ)
deriving DecidableEq, Repr

def step (a : Allocator) : Op → Except Panic Allocator
  | .reserve c => a.reserve c
  | .alloc size => Prod.snd <$> a.alloc size
  | .free base => Prod.snd <$> a.free base

/-- what callers keep to: reserved ranges are whole pages inside one unused chunk, sizes are 32-bit, and what is freed
is a used chunk other than the main thread's stack -/
def Legal (a : Allocator) : Op → Prop
  | .reserve c => c.base % pageSize = 0 ∧ c.size % pageSize = 0 ∧
      ∃ u ∈ a.unusedChunks.chunks.chunks, u.base ≤ c.base ∧ c.base + c.size ≤ u.base + u.size
  | .alloc size => size < 2 ^ 32
  | .free base => base ≠ mainThreadStackLowEnd ∧ ∃ c ∈ a.usedChunks.chunks, c.base = base

instance (a : Allocator) (o : Op) : Decidable (Legal a o) := by
  cases o <;> unfold Legal <;> infer_instance

end Allocator

end TouchHLE.Mem
