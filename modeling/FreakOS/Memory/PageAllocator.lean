import FreakOS.Base
import FreakOS.Lib.Extent

/-!
# The first-fit physical page allocator

`ff_mmanager.c` keeps the free physical pages as a list of blocks.  The block that starts at page `p` is
represented by the descriptor `Pages[p]`: its `property` field is the number of pages of the block and its
`PGP_property` bit says that it heads a free block.  Pages are named by their index in `Pages`.

This module holds the model of `ff_free_area_init`, `ff_memmap_init`, `ff_alloc_pages`, `ff_free_pages`
and `getFreeMem`.  `property` and `free_page_count` are naturals: every value they take is bounded by the
number of managed pages.
-/

namespace FreakOS
namespace Memory

open Lib

/-- `PhyPageBlock_t`, without its list node. -/
structure PhyPageBlock where
  flags : U32
  property : Nat
  ref : U32
deriving DecidableEq, Repr

/-- `PGP_reserved`. -/
def PGP_reserved : Nat := 0

/-- `PGP_property`. -/
def PGP_property : Nat := 1

/-- The page array `Pages` and the free list `FreeArea`. -/
structure Pmm where
  pages : Nat → PhyPageBlock
  freeArea : List Nat
  freePageCount : Nat

/-- `ff_free_area_init`. -/
def ffFreeAreaInit (m : Pmm) : Pmm := { m with freeArea := [], freePageCount := 0 }

/-- The loop of `ff_memmap_init`: `n` pages from `p` on are reset if they carry any flag. -/
def memmapInitLoop (pages : Nat → PhyPageBlock) (p : Nat) : Nat → (Nat → PhyPageBlock)
  | 0 => pages
  | n + 1 =>
      memmapInitLoop
        (if (pages p).flags ≠ 0 then Function.update pages p ⟨0, 0, 0⟩ else pages) (p + 1) n

/-- `ff_memmap_init(base, n)`. -/
def ffMemmapInit (m : Pmm) (base n : Nat) : Res Pmm :=
  if n = 0 then
    .error (.panic "n is must greater than 0!")
  else
    let pages := memmapInitLoop m.pages base n
    let head := { pages base with
      property := n, flags := setBit (pages base).flags PGP_property }
    .ok {
      pages := Function.update pages base head
      freePageCount := m.freePageCount + n
      freeArea := listAdd base m.freeArea }

/-- `ff_alloc_pages(n)`: the first block of the list with at least `n` pages gives its front. -/
def ffAllocPages (m : Pmm) (n : Nat) : Res (Option Nat × Pmm) :=
  if n = 0 then
    .error (.panic "alloc:n is must greater than 0!")
  else if n > m.freePageCount then
    .ok (none, m)
  else
    match m.freeArea.find? fun p => decide ((m.pages p).property ≥ n) with
    | none => .ok (none, m)
    | some page =>
        let split := (m.pages page).property > n
        let rest := page + n
        let pages₁ :=
          if split then
            Function.update m.pages rest { m.pages rest with
              property := (m.pages page).property - n
              flags := setBit (m.pages rest).flags PGP_property }
          else m.pages
        let list₁ := if split then listAddAfter page rest m.freeArea else m.freeArea
        let taken := { pages₁ page with
          property := n, flags := clearBit (pages₁ page).flags PGP_property }
        .ok (some page,
          { pages := Function.update pages₁ page taken
            freeArea := listDel page list₁
            freePageCount := m.freePageCount - n })

/-- The first loop of `ff_free_pages`: the pages must be in use, and lose their flags and references. -/
def clearLoop (pages : Nat → PhyPageBlock) (p : Nat) : Nat → Res (Nat → PhyPageBlock)
  | 0 => .ok pages
  | n + 1 =>
      if getBit (pages p).flags PGP_reserved ≠ 0 ∨ getBit (pages p).flags PGP_property ≠ 0 then
        .error (.panic "free page's flags error!")
      else
        clearLoop (Function.update pages p { pages p with flags := 0, ref := 0 }) (p + 1) n

/-- One merge of `ff_free_pages`: block `taker` takes over the pages of block `donor`, which stops being
the head of a block. -/
def mergeBlocks (pages : Nat → PhyPageBlock) (taker donor : Nat) : Nat → PhyPageBlock :=
  let pages₁ := Function.update pages taker { pages taker with
    property := (pages taker).property + (pages donor).property }
  Function.update pages₁ donor { pages₁ donor with
    flags := clearBit (pages₁ donor).flags PGP_property }

/-- The second loop of `ff_free_pages`, over the nodes of the free list.  It returns the page array, the
final `base`, and the nodes that stay on the list: a node that is merged is deleted while the loop stands
on it, and its `next` pointer still leads to the rest of the list. -/
def mergeLoop (pages : Nat → PhyPageBlock) (base : Nat) :
    List Nat → (Nat → PhyPageBlock) × Nat × List Nat
  | [] => (pages, base, [])
  | p :: rest =>
      if base + (pages base).property = p then
        mergeLoop (mergeBlocks pages base p) base rest
      else if p + (pages p).property = base then
        mergeLoop (mergeBlocks pages p base) p rest
      else
        let r := mergeLoop pages base rest
        (r.1, r.2.1, p :: r.2.2)

/-- `ff_free_pages(base, n)`. -/
def ffFreePages (m : Pmm) (base n : Nat) : Res Pmm :=
  if n = 0 then
    .error (.panic "feee:n is must greater than 0!")
  else do
    let pages ← clearLoop m.pages base n
    let head := { pages base with
      property := n, flags := setBit (pages base).flags PGP_property }
    let r := mergeLoop (Function.update pages base head) base m.freeArea
    return {
      pages := r.1
      freePageCount := m.freePageCount + n
      freeArea := listAdd r.2.1 r.2.2 }

/-- `getFreeMem()`. -/
def getFreeMem (m : Pmm) : U32 :=
  m.freeArea.foldl (fun acc p => acc + BitVec.ofNat 32 (m.pages p).property) 0#32 * PGSIZE

/-! ### The free list as a family of blocks -/

/-- The block headed by page `p`. -/
def blockAt (pages : Nat → PhyPageBlock) (p : Nat) : Extent := ⟨p, p + (pages p).property⟩

/-- The free blocks, in list order. -/
def Pmm.blocks (m : Pmm) : List Extent := m.freeArea.map (blockAt m.pages)

/-- Page `x` lies in a free block. -/
def Pmm.Free (m : Pmm) (x : Nat) : Prop := Covers m.blocks x

instance (m : Pmm) (x : Nat) : Decidable (m.Free x) :=
  inferInstanceAs (Decidable (∃ i ∈ m.blocks, i.Contains x))

/-- The invariant of the allocator that manages the pages `[lo, hi)`. -/
structure Pmm.Inv (m : Pmm) (lo hi : Nat) : Prop where
  coalesced : Coalesced m.blocks
  inside : ∀ p ∈ m.freeArea, lo ≤ p ∧ p + (m.pages p).property ≤ hi
  head_bit : ∀ p, lo ≤ p → p < hi →
    (getBit (m.pages p).flags PGP_property = 1 ↔ p ∈ m.freeArea)
  not_reserved : ∀ p, lo ≤ p → p < hi → getBit (m.pages p).flags PGP_reserved = 0
  count : m.freePageCount = total m.blocks

end Memory
end FreakOS
