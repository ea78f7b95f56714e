import FreakOS.Memory.PageAllocator
import FreakOS.Memory.UserMem

/-!
# Page tables

`page.c` with the page arithmetic of `pmm.h`, and the two functions of `task.c` that make and release a
page directory.

Physical memory is a family of frames of 1024 words.  The kernel maps all of it at `KERNEL_BASE`, so the
kernel address of a frame is its number here: a `PGD_t *` is the number of the frame that holds the
directory, and a `PTE_t *` is a frame with an index.  Invalidating the TLB has no counterpart.

* `getPte`, `pteRemovePage`, `pageInsert`, `pageRemove`, `pgdirAllocPage` — single pages.
* `rangeLoop` — the loop that `unmapRange`, `exitRange` and `copyRange` share, given by their bodies.
* `setupPgdir`, `putPgdir` — whole directories.
-/

namespace FreakOS
namespace Memory

/-- A frame has words. -/
instance neZero_words : NeZero 1024 := ⟨by decide⟩

/-- The words of one frame. -/
abbrev FrameWords := Fin 1024 → U32

/-- Physical memory and the allocator over it. -/
structure Machine where
  pmm : Pmm
  /-- `PageCount`. -/
  pageCount : Nat
  mem : Nat → FrameWords
  /-- The frame of `KernelPGD`. -/
  kernelPgd : Nat

/-- `E_NOMEM`. -/
def E_NOMEM : Int := 12
/-- `E_PNULL`. -/
def E_PNULL : Int := 1
/-- `E_INVAL`. -/
def E_INVAL : Int := 11

/-- `PTE_PAGE_PERSENT`. -/
def PTE_PAGE_PERSENT : U32 := 1#32
/-- `PTE_PAGE_WRITEABLE`. -/
def PTE_PAGE_WRITEABLE : U32 := 2#32
/-- `PTE_PAGE_USER`. -/
def PTE_PAGE_USER : U32 := 4#32
/-- `PTE_USER`. -/
def PTE_USER : U32 := PTE_PAGE_USER ||| PTE_PAGE_WRITEABLE ||| PTE_PAGE_PERSENT

/-- `PGD_INDEX(x)`: bits 22 to 31. -/
def pgdIndex (va : U32) : Fin 1024 := Fin.ofNat 1024 (va.toNat / 2 ^ 22)

/-- `PTE_INDEX(x)`: bits 12 to 21. -/
def pteIndex (va : U32) : Fin 1024 := Fin.ofNat 1024 (va.toNat / 2 ^ 12)

/-- `PTE_ADDR(pte)`, also `PGD_ADDR(pde)`. -/
def pteAddr (pte : U32) : U32 := pte &&& ~~~0xFFF#32

/-! ### `pmm.h` -/

/-- `allocPhyPages(n)`. -/
def allocPhyPages (s : Machine) (n : Nat) : Res (Option Nat × Machine) := do
  let (page, pmm) ← ffAllocPages s.pmm n
  return (page, { s with pmm := pmm })

/-- `freePhyPages(base, n)`. -/
def freePhyPages (s : Machine) (base n : Nat) : Res Machine := do
  let pmm ← ffFreePages s.pmm base n
  return { s with pmm := pmm }

/-- `set_page_ref(page, val)`. -/
def setPageRef (s : Machine) (page : Nat) (val : U32) : Machine :=
  { s with pmm := { s.pmm with
      pages := Function.update s.pmm.pages page { s.pmm.pages page with ref := val } } }

/-- `page_ref_inc(page)`. -/
def pageRefInc (s : Machine) (page : Nat) : Machine :=
  setPageRef s page ((s.pmm.pages page).ref + 1)

/-- `page_ref_dec(page)`. -/
def pageRefDec (s : Machine) (page : Nat) : Machine :=
  setPageRef s page ((s.pmm.pages page).ref - 1)

/-- `page2pa(page)`. -/
def page2pa (page : Nat) : U32 := BitVec.ofNat 32 page <<< 12

/-- `pa2page(pa)`. -/
def pa2page (s : Machine) (pa : U32) : Res Nat :=
  if (pa >>> 12).toNat > s.pageCount then .error (.panic "pa is invalid!")
  else .ok (pa >>> 12).toNat

/-- `pa2kva(pa)`, which makes the same check. -/
def pa2kva (s : Machine) (pa : U32) : Res Nat := pa2page s pa

/-- `page2kva(page)`, as an address. -/
def page2kva (page : Nat) : U32 := page2pa page + KERNEL_BASE

/-- `kva2page(kva)`. -/
def kva2page (s : Machine) (kva : U32) : Res Nat :=
  if kva < KERNEL_BASE then .error (.panic "kva2pa err: arg is not less than KERNEL_BASE! ")
  else pa2page s (kva - KERNEL_BASE)

/-- `pte2page(pte)`. -/
def pte2page (s : Machine) (pte : U32) : Res Nat :=
  if pte &&& PTE_PAGE_PERSENT = 0 then .error (.panic "pte2page err: invalid pte!")
  else pa2page s (pteAddr pte)

/-- `pgd2page(pgd)`. -/
def pgd2page (s : Machine) (pgd : U32) : Res Nat := pa2page s (pteAddr pgd)

/-! ### Memory -/

/-- Store a word. -/
def Machine.store (s : Machine) (frame : Nat) (i : Fin 1024) (word : U32) : Machine :=
  { s with mem := Function.update s.mem frame (Function.update (s.mem frame) i word) }

/-- Overwrite a frame: `memset` and `memcpy` of `PGSIZE` bytes. -/
def Machine.fillFrame (s : Machine) (frame : Nat) (words : FrameWords) : Machine :=
  { s with mem := Function.update s.mem frame words }

/-! ### Single pages -/

/-- The address that `get_pte` returns once the directory entry is present. -/
def ptePointer (s : Machine) (pgdir : Nat) (va : U32) : Res (Nat × Fin 1024) := do
  let table ← pa2kva s (pteAddr (s.mem pgdir (pgdIndex va)))
  return (table, pteIndex va)

/-- `get_pte(pgdir, va, create)`. -/
def getPte (s : Machine) (pgdir : Nat) (va : U32) (create : Bool) :
    Res (Option (Nat × Fin 1024) × Machine) :=
  if s.mem pgdir (pgdIndex va) &&& PTE_PAGE_PERSENT = 0 then
    if !create then .ok (none, s)
    else do
      let (phypage, s) ← allocPhyPages s 1
      match phypage with
      | none => return (none, s)
      | some page =>
          let s := setPageRef s page 1
          let frame ← pa2kva s (page2pa page)
          let s := s.fillFrame frame fun _ => 0
          let s := s.store pgdir (pgdIndex va)
            (page2pa page ||| PTE_PAGE_USER ||| PTE_PAGE_WRITEABLE ||| PTE_PAGE_PERSENT)
          let ptep ← ptePointer s pgdir va
          return (some ptep, s)
  else do
    let ptep ← ptePointer s pgdir va
    return (some ptep, s)

/-- The drop of a reference in `pte_remove_page`: the page is freed when its count reaches zero, which is
compared as a signed number. -/
def dropPage (s : Machine) (page : Nat) : Res Machine :=
  let s' := pageRefDec s page
  if (s'.pmm.pages page).ref.toInt ≤ 0 then freePhyPages s' page 1 else .ok s'

/-- `pte_remove_page(pgdir, va, ptep)`. -/
def pteRemovePage (s : Machine) (ptep : Nat × Fin 1024) : Res Machine :=
  if s.mem ptep.1 ptep.2 &&& PTE_PAGE_PERSENT ≠ 0 then do
    let page ← pte2page s (s.mem ptep.1 ptep.2)
    let s' ← dropPage s page
    return s'.store ptep.1 ptep.2 0
  else .ok s

/-- `page_remove(pgdir, va)`. -/
def pageRemove (s : Machine) (pgdir : Nat) (va : U32) : Res Machine := do
  let (ptep, s) ← getPte s pgdir va false
  match ptep with
  | none => return s
  | some ptep => pteRemovePage s ptep

/-- What `page_insert` does to a mapping that is already there: the reference of the same page is taken
back, another page is removed. -/
def evictOld (s : Machine) (page : Nat) (ptep : Nat × Fin 1024) : Res Machine :=
  if s.mem ptep.1 ptep.2 &&& PTE_PAGE_PERSENT ≠ 0 then do
    let p ← pte2page s (s.mem ptep.1 ptep.2)
    if p = page then return pageRefDec s page
    else pteRemovePage s ptep
  else .ok s

/-- `page_insert(pgdir, page, va, perm)`. -/
def pageInsert (s : Machine) (pgdir page : Nat) (va perm : U32) : Res (Int × Machine) := do
  let (ptep, s) ← getPte s pgdir va true
  match ptep with
  | none => return (-E_NOMEM, s)
  | some ptep =>
      let s := pageRefInc s page
      let s ← evictOld s page ptep
      return (0, s.store ptep.1 ptep.2 (page2pa page ||| PTE_PAGE_PERSENT ||| perm))

/-- `pgdir_alloc_page(pgdir, la, perm)`. -/
def pgdirAllocPage (s : Machine) (pgdir : Nat) (la perm : U32) : Res (Option Nat × Machine) := do
  let (page, s) ← allocPhyPages s 1
  match page with
  | none => return (none, s)
  | some page =>
      let (err, s) ← pageInsert s pgdir page la perm
      if err ≠ 0 then
        let s ← freePhyPages s page 1
        return (none, s)
      else return (some page, s)

/-! ### Ranges -/

/-- How one round of a range loop ends: with the next address, or with a return from the function. -/
inductive Round where
  | next (start : U32)
  | ret (code : Int)

/-- The loops `do … while (start != 0 && start < end)`.  The code is 0 where the loop ends by itself. -/
def rangeLoop (body : Machine → U32 → Res (Round × Machine)) (stop : U32) :
    Nat → Machine → U32 → Res (Int × Machine)
  | 0, _, _ => .error .outOfFuel
  | fuel + 1, s, start => do
      let (round, s) ← body s start
      match round with
      | .ret code => return (code, s)
      | .next start =>
          if start ≠ 0 ∧ start < stop then rangeLoop body stop fuel s start else return (0, s)

/-- The rounds that the longest range can take: one for each page. -/
def rangeFuel : Nat := 2 ^ 20

/-- The start of the next 4 MB. -/
def nextSlot (start : U32) : U32 := roundDown (start + PGDE_MAP_NBYTE) PGDE_MAP_NBYTE

/-- One round of `unmap_range`. -/
def unmapRound (pgdir : Nat) (s : Machine) (start : U32) : Res (Round × Machine) := do
  let (ptep, s) ← getPte s pgdir start false
  match ptep with
  | none => return (.next (nextSlot start), s)
  | some ptep =>
      if s.mem ptep.1 ptep.2 ≠ 0 then
        let s ← pteRemovePage s ptep
        return (.next (start + PGSIZE), s)
      else return (.next (start + PGSIZE), s)

/-- `unmap_range(pgdir, start, end)`. -/
def unmapRange (s : Machine) (pgdir : Nat) (start stop : U32) : Res Machine :=
  if ¬ (start % PGSIZE = 0 ∧ stop % PGSIZE = 0) then .error (.panic "unmap err!")
  else if !isUserCanAccess start stop then .error (.panic "unmap err! user can access!")
  else do
    let (_, s) ← rangeLoop (unmapRound pgdir) stop rangeFuel s start
    return s

/-- One round of `exit_range`. -/
def exitRound (pgdir : Nat) (s : Machine) (start : U32) : Res (Round × Machine) := do
  if s.mem pgdir (pgdIndex start) &&& PTE_PAGE_PERSENT ≠ 0 then
    let page ← pgd2page s (s.mem pgdir (pgdIndex start))
    let s ← freePhyPages s page 1
    return (.next (start + PGDE_MAP_NBYTE), s.store pgdir (pgdIndex start) 0)
  else return (.next (start + PGDE_MAP_NBYTE), s)

/-- `exit_range(pgdir, start, end)`. -/
def exitRange (s : Machine) (pgdir : Nat) (start stop : U32) : Res Machine :=
  if ¬ (start % PGSIZE = 0 ∧ stop % PGSIZE = 0) then .error (.panic "exit_map err!")
  else if !isUserCanAccess start stop then .error (.panic "exit_map err! user can access!")
  else do
    let (_, s) ← rangeLoop (exitRound pgdir) stop rangeFuel s (roundDown start PGDE_MAP_NBYTE)
    return s

/-- One round of `copy_range`; `share` is not used there. -/
def copyRound (toDir fromDir : Nat) (s : Machine) (start : U32) : Res (Round × Machine) := do
  let (ptep, s) ← getPte s fromDir start false
  match ptep with
  | none => return (.next (nextSlot start), s)
  | some ptep =>
      if s.mem ptep.1 ptep.2 &&& PTE_PAGE_PERSENT ≠ 0 then
        let (nptep, s) ← getPte s toDir start true
        match nptep with
        | none => return (.ret (-E_NOMEM), s)
        | some _ =>
            let perm := s.mem ptep.1 ptep.2 &&& PTE_USER
            let page ← pte2page s (s.mem ptep.1 ptep.2)
            let (npage, s) ← allocPhyPages s 1
            match npage with
            | none => .error (.panic "copy_range err!")
            | some npage =>
                let src ← pa2kva s (page2pa page)
                let dst ← pa2kva s (page2pa npage)
                let s := s.fillFrame dst (s.mem src)
                let (ret, s) ← pageInsert s toDir npage start perm
                if ret ≠ 0 then .error (.panic "copy_range err!")
                else return (.next (start + PGSIZE), s)
      else return (.next (start + PGSIZE), s)

/-- `copy_range(to, from, start, end, share)`. -/
def copyRange (s : Machine) (toDir fromDir : Nat) (start stop : U32) : Res (Int × Machine) :=
  if ¬ (start % PGSIZE = 0 ∧ stop % PGSIZE = 0) then .error (.panic "copy_range err!")
  else if !isUserCanAccess start stop then .error (.panic "copy_range err! user can access!")
  else rangeLoop (copyRound toDir fromDir) stop rangeFuel s start

/-! ### Directories -/

/-- `setup_pgdir(mm)`: the new directory, as a copy of the one of the kernel. -/
def setupPgdir (s : Machine) : Res (Option Nat × Machine) := do
  let (phypage, s) ← allocPhyPages s 1
  match phypage with
  | none => return (none, s)
  | some page =>
      let pgdir ← pa2kva s (page2pa page)
      return (some pgdir, s.fillFrame pgdir (s.mem s.kernelPgd))

/-- `put_pgdir(mm)`. -/
def putPgdir (s : Machine) (mm : MemMap) : Res Machine := do
  let page ← kva2page s mm.pgdir
  freePhyPages s page 1

end Memory
end FreakOS
