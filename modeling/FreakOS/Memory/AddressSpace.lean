import FreakOS.Memory.Paging

/-!
# Address spaces as a whole

`kmalloc.c`, and the functions of `vmm.c` that duplicate and tear down a `MemMap_t`.

`kmalloc` hands out whole pages.  It computes an address from the answer of the allocator without looking
at it, so it never returns `NULL`: where the allocator has no pages, the caller goes on with a wild address
(`Fault.wildPointer`).  What the kernel keeps in the pages of `kmalloc` is not part of the memory of the
model, structures like `VirtMemArea_t` are values.
-/

namespace FreakOS
namespace Memory

/-- The number of pages that `kmalloc` and `kfree` compute from a size. -/
def pagesOf (bytes : U32) : Nat := (roundUp bytes PGSIZE / PGSIZE).toNat

/-- `kmalloc(bytes)`. -/
def kmalloc (s : Machine) (bytes : U32) : Res (U32 × Machine) := do
  let (page, s) ← allocPhyPages s (pagesOf bytes)
  match page with
  | none => .error .wildPointer
  | some page => return (page2pa page + KERNEL_BASE, s)

/-- `kfree(vaddr, bytes)`. -/
def kfree (s : Machine) (vaddr bytes : U32) : Res Machine := do
  let page ← pa2page s (vaddr - KERNEL_BASE)
  freePhyPages s page (pagesOf bytes)

/-- `sizeof(VirtMemArea_t)`. -/
def sizeofVirtMemArea : U32 := 24#32
/-- `sizeof(MemMap_t)`. -/
def sizeofMemMap : U32 := 52#32

/-- The frame that `mm->pgdir` points to. -/
def MemMap.dir (mm : MemMap) : Nat := ((mm.pgdir - KERNEL_BASE) >>> 12).toNat

/-- `vma_create(start, end, flags)`. -/
def vmaCreate (s : Machine) (start stop flags : U32) : Res (VirtMemArea × Machine) := do
  let (node, s) ← kmalloc s sizeofVirtMemArea
  return (⟨node, start, stop, flags⟩, s)

/-- The loop of `dup_mm`, over the areas that are still to be copied. -/
def dupLoop (fromDir : Nat) : List VirtMemArea → Machine → MemMap → Res (Int × Machine × MemMap)
  | [], s, toMm => .ok (0, s, toMm)
  | pvma :: rest, s, toMm => do
      let (nvma, s) ← vmaCreate s pvma.vmStart pvma.vmEnd pvma.vmFlags
      let toMm ← insertVma toMm nvma
      let (err, s) ← copyRange s toMm.dir fromDir pvma.vmStart pvma.vmEnd
      if err ≠ 0 then return (-E_NOMEM, s, toMm) else dupLoop fromDir rest s toMm

/-- `dup_mm(to, from)`, which walks over the areas of `from` from the last one to the first one. -/
def dupMm (s : Machine) (toMm fromMm : Option MemMap) : Res (Int × Machine × Option MemMap) :=
  match toMm, fromMm with
  | some toMm, some fromMm => do
      let (err, s, toMm) ← dupLoop fromMm.dir fromMm.vmaList.reverse s toMm
      return (err, s, some toMm)
  | _, _ => .ok (-E_PNULL, s, toMm)

/-- A loop of `exit_mmap`: one range function on all areas. -/
def forEachArea (range : Machine → Nat → U32 → U32 → Res Machine) (pgdir : Nat) :
    List VirtMemArea → Machine → Res Machine
  | [], s => .ok s
  | vma :: rest, s => do
      let s ← range s pgdir vma.vmStart vma.vmEnd
      forEachArea range pgdir rest s

/-- `exit_mmap(mm)`. -/
def exitMmap (s : Machine) (mm : Option MemMap) : Res Machine :=
  match mm with
  | none => .error (.panic "exit mm err!")
  | some mm =>
      if mm.ref ≠ 0 then .error (.panic "exit mm err!")
      else do
        let s ← forEachArea unmapRange mm.dir mm.vmaList s
        forEachArea exitRange mm.dir mm.vmaList s

/-- The loop of `mm_destroy` over the areas. -/
def freeAreas : List VirtMemArea → Machine → Res Machine
  | [], s => .ok s
  | vma :: rest, s => do
      let s ← kfree s vma.node sizeofVirtMemArea
      freeAreas rest s

/-- `mm_destroy(mm)` for a map at address `node`: the map is gone (`none`), or has one user less. -/
def mmDestroy (s : Machine) (node : U32) (mm : MemMap) : Res (Option MemMap × Machine) :=
  if mm.ref ≤ 0 then do
    let s ← freeAreas mm.vmaList s
    let s ← kfree s node sizeofMemMap
    return (none, s)
  else .ok (some { mm with ref := mm.ref - 1 }, s)

end Memory
end FreakOS
