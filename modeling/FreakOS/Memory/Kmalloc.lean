import FreakOS.Memory.PageAllocatorInv
import FreakOS.Memory.PagingInv
import FreakOS.Memory.AddressSpace

/-!
# What `kmalloc` returns

`kmalloc` turns the answer of the allocator into an address without looking at it.  Elsewhere the model stops where
there is no block (`Fault.wildPointer`); here the address is computed from `NULL` as the code does it.  That takes the
address of `Pages`, the first page boundary behind the kernel.

* `page2pagen` — the difference of two `PhyPageBlock_t *`, in the instructions that divide by 20.
* `dokmalloc2` — `kmalloc` with the value that it returns when there is no block.
* `KmallocMet` — what the callers of `kmalloc` rely on.
* `kmalloc_correct_iff` — when they get it.
-/

namespace FreakOS
namespace Memory

open Lib

/-- `Pages`, for a kernel that ends at `kernEnd`. -/
def pagesAddr (kernEnd : U32) : U32 := roundUp kernEnd PGSIZE

/-- `sizeof(PhyPageBlock_t)`. -/
def sizeofPhyPageBlock : U32 := 20#32

/-- `page2pagen(page)`, that is `page - Pages`: a shift by 2, and a product with the inverse of 5. -/
def page2pagen (pages page : U32) : U32 := (page - pages).sshiftRight 2 * 0xCCCCCCCD#32

/-- What `allocPhyPages` returns, as a pointer. -/
def pagePointer (pages : U32) : Option Nat → U32
  | none => NULL
  | some page => pages + sizeofPhyPageBlock * BitVec.ofNat 32 page

/-- `dokmalloc2(bytes)`, and `kmalloc(bytes)`, which returns the same. -/
def dokmalloc2 (kernEnd : U32) (s : Machine) (bytes : U32) : Res (U32 × Machine) := do
  let (paddr, s) ← allocPhyPages s (pagesOf bytes)
  return ((page2pagen (pagesAddr kernEnd) (pagePointer (pagesAddr kernEnd) paddr) <<< 12) + KERNEL_BASE, s)

/-! ### Sizes and pointers -/

/-- `ROUNDUP(a, PGSIZE)` wraps around at the end of the address space. -/
theorem roundUp_toNat (a : U32) : (roundUp a PGSIZE).toNat = (a.toNat + 4095) % 2 ^ 32 / 4096 * 4096 := by
  have hword : a + PGSIZE - 1 = a + 0xFFF#32 := by
    rw [BitVec.sub_eq_add_neg, BitVec.add_assoc]
    rfl
  unfold roundUp
  rw [roundDown_toNat, hword, BitVec.toNat_add]
  change (a.toNat + 4095) % 2 ^ 32 - (a.toNat + 4095) % 2 ^ 32 % 4096 = _
  omega

/-- For the last sizes no page is left. -/
theorem pagesOf_eq (bytes : U32) :
    pagesOf bytes = if bytes.toNat ≤ 0xFFFFF000 then (bytes.toNat + 4095) / 4096 else 0 := by
  have hlt := bytes.isLt
  unfold pagesOf
  rw [BitVec.toNat_udiv, roundUp_toNat]
  change (bytes.toNat + 4095) % 2 ^ 32 / 4096 * 4096 / 4096 = _
  split <;> omega

theorem pagesOf_pos_iff (bytes : U32) : 0 < pagesOf bytes ↔ 0 < bytes.toNat ∧ bytes.toNat ≤ 0xFFFFF000 := by
  rw [pagesOf_eq]
  split <;> omega

/-- An element of `Pages` has the number that is its index. -/
theorem page2pagen_some (pages : U32) {page : Nat} (hpage : page < 2 ^ 20) :
    page2pagen pages (pagePointer pages (some page)) = BitVec.ofNat 32 page := by
  have hdiff : pagePointer pages (some page) - pages = BitVec.ofNat 32 (20 * page) := by
    change pages + sizeofPhyPageBlock * BitVec.ofNat 32 page - pages = _
    rw [BitVec.add_comm, BitVec.add_sub_cancel, BitVec.ofNat_mul]
    rfl
  have hval : (BitVec.ofNat 32 (20 * page)).toNat = 20 * page := by
    rw [BitVec.toNat_ofNat]
    exact Nat.mod_eq_of_lt (by omega)
  have hshift : ((BitVec.ofNat 32 (20 * page)).sshiftRight 2).toNat = 5 * page := by
    rw [BitVec.toNat_sshiftRight_of_msb_false]
    · rw [hval, Nat.shiftRight_eq_div_pow]
      omega
    · rw [BitVec.msb_eq_false_iff_two_mul_lt, hval]
      omega
  unfold page2pagen
  apply BitVec.eq_of_toNat_eq
  rw [hdiff, BitVec.toNat_mul, hshift, BitVec.toNat_ofNat, BitVec.toNat_ofNat]
  -- `5 * 0xCCCCCCCD` is `4 * 2 ^ 32 + 1`.
  omega

theorem pagesAddr_mod (kernEnd : U32) : (pagesAddr kernEnd).toNat % 4096 = 0 := by
  unfold pagesAddr
  rw [roundUp_toNat]
  exact Nat.mul_mod_left _ _

/-- `(NULL - pages) >> 2`, modulo 2 to the 30. -/
theorem sshiftRight_null_sub (pages : U32) {k : Nat} (hk : pages.toNat = 4096 * k) :
    ∃ q, ((NULL - pages).sshiftRight 2).toNat + 1024 * k = 2 ^ 30 * q := by
  have hlt := pages.isLt
  have hval : (NULL - pages).toNat = (2 ^ 32 - 4096 * k) % 2 ^ 32 := by
    rw [BitVec.toNat_sub, hk]
    rfl
  cases hmsb : (NULL - pages).msb with
  | false =>
      rw [BitVec.toNat_sshiftRight_of_msb_false hmsb, Nat.shiftRight_eq_div_pow, hval]
      by_cases hzero : k = 0
      · exact ⟨0, by subst hzero; rfl⟩
      · refine ⟨1, ?_⟩
        rw [Nat.mod_eq_of_lt (by omega)]
        omega
  | true =>
      rw [BitVec.toNat_sshiftRight_of_msb_true hmsb, Nat.shiftRight_eq_div_pow, hval]
      have hpos : k ≠ 0 := by
        rintro rfl
        rw [BitVec.msb_eq_true_iff_two_mul_ge, hval] at hmsb
        omega
      refine ⟨4, ?_⟩
      rw [Nat.mod_eq_of_lt (by omega)]
      omega

/-- What `kmalloc` returns without a block: a multiple of 4 MB that depends on where `Pages` starts. -/
theorem null_address_toNat (kernEnd : U32) :
    ((page2pagen (pagesAddr kernEnd) NULL <<< 12) + KERNEL_BASE).toNat =
      (0xC0000000 + 0x400000 * (819 * ((pagesAddr kernEnd).toNat / 4096) % 1024)) % 2 ^ 32 := by
  obtain ⟨k, hk⟩ := Nat.dvd_of_mod_eq_zero (pagesAddr_mod kernEnd)
  obtain ⟨q, hq⟩ := sshiftRight_null_sub (pagesAddr kernEnd) hk
  have hbase : KERNEL_BASE.toNat = 0xC0000000 := rfl
  have hinverse : (0xCCCCCCCD#32).toNat = 0xCCCCCCCD := rfl
  rw [BitVec.toNat_add, BitVec.toNat_shiftLeft, Nat.shiftLeft_eq, hbase]
  unfold page2pagen
  rw [BitVec.toNat_mul, hk, hinverse]
  generalize ((NULL - pagesAddr kernEnd).sshiftRight 2).toNat = w at hq
  omega

/-- It is `NULL` only where `Pages` starts 3 MB behind a multiple of 4 MB. -/
theorem null_address_iff (kernEnd : U32) :
    (page2pagen (pagesAddr kernEnd) NULL <<< 12) + KERNEL_BASE = NULL ↔
      (pagesAddr kernEnd).toNat % 0x400000 = 0x300000 := by
  have haligned := pagesAddr_mod kernEnd
  rw [← BitVec.toNat_inj, null_address_toNat]
  change _ = 0 ↔ _
  omega

/-! ### What callers rely on -/

/-- `kmalloc(bytes)` has returned `vaddr`, the address of a block that was free, and `kfree(vaddr, bytes)` gives it
back. -/
structure Granted (s s' : Machine) (bytes vaddr : U32) (page n : Nat) : Prop where
  pages : n = (bytes.toNat + 4095) / 4096
  pos : 1 ≤ n
  addr : vaddr = KERNEL_BASE + page2pa page
  was_free : ∀ x, page ≤ x → x < page + n → s.pmm.Free x
  taken : ∀ x, page ≤ x → x < page + n → ¬ s'.pmm.Free x
  others : ∀ x, ¬ (page ≤ x ∧ x < page + n) → (s'.pmm.Free x ↔ s.pmm.Free x)
  undone : ∃ s'', kfree s' vaddr bytes = .ok s'' ∧ (∀ x, s''.pmm.Free x ↔ s.pmm.Free x) ∧
    s''.pmm.freePageCount = s.pmm.freePageCount

/-- `kmalloc(bytes)` returns: either a block, or `NULL` with everything as it was. -/
def KmallocMet (kernEnd : U32) (s : Machine) (bytes : U32) : Prop :=
  ∃ vaddr s', dokmalloc2 kernEnd s bytes = .ok (vaddr, s') ∧
    ((∃ page n, Granted s s' bytes vaddr page n) ∨ (vaddr = NULL ∧ s' = s))

section

variable {lo hi : Nat} {kernEnd : U32} {s : Machine} {bytes : U32}

/-- The allocator has a block of `n` pages. -/
def Pmm.Fits (m : Pmm) (n : Nat) : Prop := ∃ b ∈ m.freeArea, n ≤ (m.pages b).property

/-- A free block of `n` pages is found. -/
theorem ffAllocPages_fits {m : Pmm} {n : Nat} (h : m.Inv lo hi) (hn : 0 < n) (hfits : m.Fits n) :
    ∃ p m', ffAllocPages m n = .ok (some p, m') := by
  obtain ⟨b, hb, hle⟩ := hfits
  have hcount : ¬ n > m.freePageCount := by
    have hsum : (blockAt m.pages b).length ≤ total m.blocks :=
      List.single_le_sum (by simp) _ (List.mem_map_of_mem (List.mem_map_of_mem hb))
    have := h.count
    simp only [blockAt, Extent.length] at hsum
    omega
  have hsome : (m.freeArea.find? fun p => decide ((m.pages p).property ≥ n)).isSome := by
    rw [List.find?_isSome]
    exact ⟨b, hb, decide_eq_true hle⟩
  obtain ⟨page, hpage⟩ := Option.isSome_iff_exists.mp hsome
  unfold ffAllocPages
  rw [if_neg (by omega), if_neg hcount, hpage]
  exact ⟨_, _, rfl⟩

/-- Without one, the allocator is left as it is. -/
theorem ffAllocPages_not_fits {m : Pmm} {n : Nat} (hn : 0 < n) (hfits : ¬ m.Fits n) :
    ffAllocPages m n = .ok (none, m) := by
  have hnone : (m.freeArea.find? fun p => decide ((m.pages p).property ≥ n)) = none := by
    rw [List.find?_eq_none]
    intro b hb hle
    exact hfits ⟨b, hb, of_decide_eq_true hle⟩
  unfold ffAllocPages
  rw [if_neg (by omega), hnone]
  split <;> rfl

/-- The address of a block. -/
theorem dokmalloc2_some {p : Nat} {m' : Pmm} (hp : p < 2 ^ 20)
    (halloc : ffAllocPages s.pmm (pagesOf bytes) = .ok (some p, m')) :
    dokmalloc2 kernEnd s bytes = .ok (page2pa p + KERNEL_BASE, { s with pmm := m' }) := by
  unfold dokmalloc2 allocPhyPages
  rw [halloc]
  change Except.ok (page2pagen (pagesAddr kernEnd) (pagePointer (pagesAddr kernEnd) (some p)) <<< 12 + KERNEL_BASE,
    ({ s with pmm := m' } : Machine)) = _
  rw [page2pagen_some _ hp]
  rfl

/-- Where the rest of the model goes on with the address of a block, this is the same address. -/
theorem dokmalloc2_of_kmalloc (h : s.pmm.Inv lo hi) (hhi : hi ≤ 2 ^ 20) {vaddr : U32} {s' : Machine}
    (hcall : kmalloc s bytes = .ok (vaddr, s')) : dokmalloc2 kernEnd s bytes = .ok (vaddr, s') := by
  obtain ⟨⟨paddr, s₁⟩, halloc, hcall⟩ := Res.bind_eq_ok.mp hcall
  obtain ⟨⟨page, m'⟩, hff, hsome⟩ := Res.bind_eq_ok.mp halloc
  obtain ⟨rfl, rfl⟩ := Prod.mk.inj (Except.ok.inj hsome)
  cases page with
  | none => cases hcall
  | some p =>
      obtain ⟨rfl, rfl⟩ := Prod.mk.inj (Except.ok.inj hcall)
      have hspec := ffAllocPages_spec h hff
      have hp : p < 2 ^ 20 := by
        have hinside := hspec.inside
        have hne : pagesOf bytes ≠ 0 := by
          intro hzero
          simp [hzero, ffAllocPages] at hff
        omega
      exact dokmalloc2_some hp hff

/-- Where the allocator has a block, the caller gets it. -/
theorem kmallocMet_of_fits (h : s.pmm.Inv lo hi) (hhi : hi ≤ s.pageCount) (hcount : s.pageCount < 2 ^ 20)
    (hpos : 0 < pagesOf bytes) (hfits : s.pmm.Fits (pagesOf bytes)) : KmallocMet kernEnd s bytes := by
  obtain ⟨p, m', halloc⟩ := ffAllocPages_fits h hpos hfits
  have hspec := ffAllocPages_spec h halloc
  have hp : p < 2 ^ 20 := by
    have := hspec.inside
    omega
  have hcall : dokmalloc2 kernEnd s bytes = .ok (page2pa p + KERNEL_BASE, { s with pmm := m' }) :=
    dokmalloc2_some hp halloc
  -- The release finds the page again, and the block has no free page in it.
  have hback : pa2page { s with pmm := m' } (page2pa p + KERNEL_BASE - KERNEL_BASE) = .ok p := by
    have := hspec.inside
    unfold pa2page
    rw [BitVec.add_sub_cancel, page2pa_shift hp, if_neg]
    change ¬ p > s.pageCount
    omega
  obtain ⟨m'', hfree, hundo⟩ := ffFreePages_spec hspec.inv hpos hspec.inside.1 hspec.inside.2 hspec.taken
  have hkfree : kfree { s with pmm := m' } (page2pa p + KERNEL_BASE) bytes = .ok { s with pmm := m'' } := by
    unfold kfree freePhyPages
    rw [hback]
    change (do
      let pmm ← ffFreePages m' p (pagesOf bytes)
      return ({ s with pmm := pmm } : Machine)) = _
    rw [hfree]
    rfl
  refine ⟨_, _, hcall, Or.inl ⟨p, pagesOf bytes, ?_, hpos, BitVec.add_comm _ _, ?_, hspec.taken, ?_, _, hkfree, ?_, ?_⟩⟩
  · rw [pagesOf_eq, if_pos ((pagesOf_pos_iff bytes).mp hpos).2]
  · intro x hx hx'
    exact (hspec.free x).mpr (Or.inr ⟨hx, hx'⟩)
  · intro x hx
    change m'.Free x ↔ s.pmm.Free x
    rw [hspec.free x]
    simp [hx]
  · intro x
    change m''.Free x ↔ s.pmm.Free x
    rw [hundo.free x, hspec.free x]
  · change m''.freePageCount = s.pmm.freePageCount
    rw [hundo.count, hspec.count]

/-- Without a block the address of `NULL` is returned. -/
theorem dokmalloc2_not_fits (hpos : 0 < pagesOf bytes) (hfits : ¬ s.pmm.Fits (pagesOf bytes)) :
    dokmalloc2 kernEnd s bytes = .ok ((page2pagen (pagesAddr kernEnd) NULL <<< 12) + KERNEL_BASE, s) := by
  unfold dokmalloc2 allocPhyPages
  rw [ffAllocPages_not_fits hpos hfits]
  rfl

/-- Where no page is asked for, the allocator panics. -/
theorem dokmalloc2_zero (hzero : pagesOf bytes = 0) :
    dokmalloc2 kernEnd s bytes = .error (.panic "alloc:n is must greater than 0!") := by
  unfold dokmalloc2 allocPhyPages ffAllocPages
  rw [if_pos hzero]
  rfl

/-- A call that has changed nothing has to return `NULL`. -/
theorem kmallocMet_iff_of_same {vaddr : U32} (hcall : dokmalloc2 kernEnd s bytes = .ok (vaddr, s)) :
    KmallocMet kernEnd s bytes ↔ vaddr = NULL := by
  constructor
  · rintro ⟨vaddr', s', hcall', hcase⟩
    rw [hcall] at hcall'
    obtain ⟨rfl, rfl⟩ := Prod.mk.inj (Except.ok.inj hcall')
    rcases hcase with ⟨page, n, hgranted⟩ | ⟨hnull, -⟩
    · have hn := hgranted.pos
      exact absurd (hgranted.was_free page le_rfl (by omega)) (hgranted.taken page le_rfl (by omega))
    · exact hnull
  · intro hnull
    exact ⟨vaddr, s, hcall, Or.inr ⟨hnull, rfl⟩⟩

theorem not_kmallocMet_of_error {e : Fault} (hcall : dokmalloc2 kernEnd s bytes = .error e) :
    ¬ KmallocMet kernEnd s bytes := by
  rintro ⟨vaddr, s', hcall', -⟩
  rw [hcall] at hcall'
  cases hcall'

/-- **What `kmalloc` returns.**  In every state of the allocator with the invariant of the free list, and for every
size, `kmalloc` does what its callers rely on exactly where the size is not 0, rounding it up does not wrap around,
and a free block is large enough; or, where none is, `Pages` happens to start 3 MB behind a multiple of 4 MB. -/
theorem kmalloc_correct_iff (lo hi : Nat) (kernEnd : U32) (s : Machine) (bytes : U32) (h : s.pmm.Inv lo hi)
    (hhi : hi ≤ s.pageCount) (hcount : s.pageCount < 2 ^ 20) :
    KmallocMet kernEnd s bytes ↔ 0 < bytes.toNat ∧ bytes.toNat ≤ 0xFFFFF000 ∧
      (s.pmm.Fits ((bytes.toNat + 4095) / 4096) ∨ (pagesAddr kernEnd).toNat % 0x400000 = 0x300000) := by
  by_cases hpos : 0 < pagesOf bytes
  · obtain ⟨hzero, hwrap⟩ := (pagesOf_pos_iff bytes).mp hpos
    have hpages : pagesOf bytes = (bytes.toNat + 4095) / 4096 := by
      rw [pagesOf_eq, if_pos hwrap]
    rw [← hpages]
    by_cases hfits : s.pmm.Fits (pagesOf bytes)
    · simp [hzero, hwrap, hfits, kmallocMet_of_fits h hhi hcount hpos hfits]
    · rw [kmallocMet_iff_of_same (dokmalloc2_not_fits hpos hfits), null_address_iff]
      simp [hzero, hwrap, hfits]
  · have hnot : ¬ KmallocMet kernEnd s bytes :=
      not_kmallocMet_of_error (dokmalloc2_zero (by omega : pagesOf bytes = 0))
    rw [pagesOf_pos_iff] at hpos
    simp only [hnot, false_iff]
    rintro ⟨hzero, hwrap, -⟩
    exact hpos ⟨hzero, hwrap⟩

end

/-- A machine with the four pages 2 to 5. -/
def fourPageMachine : Machine := ⟨fourPages, 6, fun _ _ => 0, 0⟩

theorem fourPages_inv : fourPages.Inv 2 6 := by
  have hinit : ffMemmapInit (ffFreeAreaInit reservedPages) 2 4 = .ok fourPages := rfl
  exact (ffMemmapInit_spec hinit).1

/-- Two of the four pages are asked for. -/
theorem kmalloc_correct_two_pages : 6 ≤ fourPageMachine.pageCount ∧ fourPageMachine.pageCount < 2 ^ 20 ∧
    KmallocMet 0xC0200000 fourPageMachine 4097 :=
  ⟨le_rfl, by decide, (kmalloc_correct_iff 2 6 0xC0200000 fourPageMachine 4097 fourPages_inv le_rfl (by decide)).mpr
    ⟨by decide, by decide, Or.inl ⟨2, by decide, by decide⟩⟩⟩

/-- Nothing is asked for, more than can be rounded up, and one page too many: two panics, and an address that is not
`NULL`. -/
theorem kmalloc_failures_not_reported :
    (dokmalloc2 0xC0200000 fourPageMachine 0 = .error (.panic "alloc:n is must greater than 0!") ∧
      ¬ KmallocMet 0xC0200000 fourPageMachine 0) ∧
    (dokmalloc2 0xC0200000 fourPageMachine 0xFFFFF001 = .error (.panic "alloc:n is must greater than 0!") ∧
      ¬ KmallocMet 0xC0200000 fourPageMachine 0xFFFFF001) ∧
    (dokmalloc2 0xC0200000 fourPageMachine 0x5000 = .ok (0x40000000, fourPageMachine) ∧
      ¬ KmallocMet 0xC0200000 fourPageMachine 0x5000) := by
  have hfull : dokmalloc2 0xC0200000 fourPageMachine 0x5000 = .ok (0x40000000, fourPageMachine) := rfl
  refine ⟨⟨dokmalloc2_zero (by decide), not_kmallocMet_of_error (dokmalloc2_zero (by decide))⟩,
    ⟨dokmalloc2_zero (by decide), not_kmallocMet_of_error (dokmalloc2_zero (by decide))⟩, hfull, ?_⟩
  rw [kmallocMet_iff_of_same hfull]
  decide

end Memory
end FreakOS
