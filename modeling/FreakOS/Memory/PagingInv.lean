import FreakOS.Lib.FiberCount
import FreakOS.Memory.PageAllocatorInv
import FreakOS.Memory.Paging

/-!
# What physical frames are used for

Every frame has one role: it is free, it belongs to the kernel, it is a page directory, it is the page
table of one slot of one directory, it is held by code that has not mapped it yet, or it is mapped by user
page tables.  `Frames` says that the memory, the reference counts and the allocator agree with an
assignment of roles.

* `target` — the frame that a present entry points to.
* `refCount` — the number of present entries, over all page tables, that point to a frame.
* `Frames.setRole`, `Frames.setPte` — the two kinds of steps: a frame that is not mapped changes its role,
  and an entry of a page table is rewritten.
-/

namespace FreakOS
namespace Memory

open Lib

/-! ### Entries -/

/-- The frame that an entry points to, if it is present. -/
def target (entry : U32) : Option Nat :=
  if entry &&& PTE_PAGE_PERSENT = 0 then none else some (pteAddr entry >>> 12).toNat

theorem target_zero : target 0 = none := by decide

@[simp] theorem target_ofNat_zero : target 0#32 = none := target_zero

theorem target_eq_none_iff {entry : U32} : target entry = none ↔ entry &&& PTE_PAGE_PERSENT = 0 := by
  unfold target
  split
  · rename_i h
    exact ⟨fun _ => h, fun _ => rfl⟩
  · rename_i h
    exact ⟨fun hc => by simp at hc, fun hc => absurd hc h⟩

/-- Bits 12 and up of a word with only 12 bits are zero. -/
theorem getLsbD_of_lt_page {word : U32} (h : word.toNat < 2 ^ 12) (i : Nat) :
    word.getLsbD (12 + i) = false :=
  Nat.testBit_lt_two_pow (Nat.lt_of_lt_of_le h (Nat.pow_le_pow_right (by omega) (by omega)))

/-- The flags of an entry do not matter for its frame. -/
theorem pteAddr_shift (entry : U32) : pteAddr entry >>> 12 = entry >>> 12 := by
  have hmask : ∀ i, (0xFFF#32).getLsbD (12 + i) = false := getLsbD_of_lt_page (by decide)
  ext i hi
  have hin : 12 + i < 32 ∨ 32 ≤ 12 + i := by omega
  rcases hin with hin | hin
  · simp only [pteAddr, BitVec.getElem_ushiftRight, BitVec.getLsbD_and, BitVec.getLsbD_not, hmask]
    simp [hin]
  · simp only [pteAddr, BitVec.getElem_ushiftRight]
    rw [BitVec.getLsbD_of_ge _ _ hin, BitVec.getLsbD_of_ge _ _ hin]

theorem target_eq (entry : U32) :
    target entry = if entry &&& PTE_PAGE_PERSENT = 0 then none else some (entry >>> 12).toNat := by
  unfold target
  rw [pteAddr_shift]

theorem page2pa_shift {page : Nat} (hpage : page < 2 ^ 20) : (page2pa page >>> 12).toNat = page := by
  simp only [page2pa, BitVec.toNat_ushiftRight, BitVec.toNat_shiftLeft, BitVec.toNat_ofNat,
    Nat.shiftRight_eq_div_pow, Nat.shiftLeft_eq]
  omega

/-- An entry made of a frame and flags points to the frame. -/
theorem target_or_flags {page : Nat} (hpage : page < 2 ^ 20) {flags : U32}
    (hflags : flags.toNat < 2 ^ 12) (hpresent : flags &&& PTE_PAGE_PERSENT ≠ 0) :
    target (page2pa page ||| flags) = some page := by
  have hflag : (page2pa page ||| flags) &&& PTE_PAGE_PERSENT = flags &&& PTE_PAGE_PERSENT := by
    ext i hi
    by_cases hi0 : i = 0
    · subst hi0
      simp [page2pa]
    · simp [PTE_PAGE_PERSENT, hi0]
  have hshift : (page2pa page ||| flags) >>> 12 = page2pa page >>> 12 := by
    ext i hi
    simp only [BitVec.getElem_ushiftRight, BitVec.getLsbD_or, getLsbD_of_lt_page hflags, Bool.or_false]
  rw [target_eq, hflag, if_neg hpresent, hshift, page2pa_shift hpage]

/-! ### Roles -/

/-- What a frame is used for. -/
inductive Role where
  | free
  | kernel
  | dir
  /-- The page table of slot `i` of directory `d`. -/
  | table (d : Nat) (i : Fin 1024)
  /-- Handed out by the allocator and not mapped yet. -/
  | held
  /-- Mapped by some page table. -/
  | user
deriving DecidableEq

/-- The role is that of a page table. -/
def Role.isTable : Role → Bool
  | .table _ _ => true
  | _ => false

theorem Role.isTable_iff {r : Role} : r.isTable = true ↔ ∃ d i, r = .table d i := by
  cases r <;> simp [Role.isTable]

/-- The frame that word `i` of frame `f` points to, read as an entry of a directory or table. -/
def Machine.entry (s : Machine) (f : Nat) (i : Fin 1024) : Option Nat := target (s.mem f i)

/-- Where the entries of page tables point. -/
def pteMap (s : Machine) (role : Nat → Role) (slot : Nat × Fin 1024) : Option Nat :=
  if (role slot.1).isTable then s.entry slot.1 slot.2 else none

/-- All words of physical memory. -/
@[irreducible] def pteSlots : Finset (Nat × Fin 1024) := Finset.range (2 ^ 20) ×ˢ Finset.univ

/-- The number of present entries, over all page tables, that point to `f`. -/
def refCount (s : Machine) (role : Nat → Role) (f : Nat) : Nat := fiberCount pteSlots (pteMap s role) f

theorem mem_pteSlots {slot : Nat × Fin 1024} : slot ∈ pteSlots ↔ slot.1 < 2 ^ 20 := by
  unfold pteSlots
  rw [Finset.mem_product]
  simp

theorem refCount_le (s : Machine) (role : Nat → Role) (f : Nat) : refCount s role f ≤ 2 ^ 30 := by
  refine le_trans fiberCount_le_card ?_
  unfold pteSlots
  rw [Finset.card_product, Finset.card_range, Finset.card_univ, Fintype.card_fin]
  norm_num

theorem entry_store (s : Machine) (f : Nat) (i : Fin 1024) (word : U32) (x : Nat) (k : Fin 1024) :
    (s.store f i word).entry x k = if x = f ∧ k = i then target word else s.entry x k := by
  unfold Machine.entry Machine.store
  by_cases hx : x = f
  · subst hx
    by_cases hk : k = i
    · subst hk
      simp
    · simp [hk]
  · simp [hx]

theorem store_mem_of_ne (s : Machine) {f x : Nat} (i : Fin 1024) (word : U32) (hx : x ≠ f) :
    (s.store f i word).mem x = s.mem x := Function.update_of_ne hx _ _

/-- Writing an entry of a page table redirects one slot. -/
theorem pteMap_store (s : Machine) {role : Nat → Role} {t : Nat} (ht : (role t).isTable = true)
    (j : Fin 1024) (word : U32) :
    pteMap (s.store t j word) role = Function.update (pteMap s role) (t, j) (target word) := by
  funext slot
  obtain ⟨x, k⟩ := slot
  by_cases hslot : (x, k) = (t, j)
  · obtain ⟨rfl, rfl⟩ := Prod.mk.inj hslot
    simp [pteMap, ht, entry_store]
  · rw [Function.update_of_ne hslot]
    have hne : ¬ (x = t ∧ k = j) := fun hc => hslot (by rw [hc.1, hc.2])
    simp [pteMap, entry_store, hne]

/-- The roles after word `j` of the page table `t` has been overwritten: the frame it pointed to is free if
this was the last reference to it, and the frame it points to now is mapped. -/
def retarget (s : Machine) (role : Nat → Role) (t : Nat) (j : Fin 1024) (word : U32) : Nat → Role :=
  fun x =>
    if s.entry t j = some x ∧ refCount (s.store t j word) role x = 0 then .free
    else if target word = some x then .user
    else role x

/-- Memory, reference counts and allocator agree with the roles of the frames.  The allocator manages the
frames `[lo, hi)`. -/
structure Frames (lo hi : Nat) (s : Machine) (role : Nat → Role) : Prop where
  pmm : s.pmm.Inv lo hi
  hi_le : hi ≤ s.pageCount
  pageCount_le : s.pageCount ≤ 2 ^ 20
  free : ∀ f, role f = .free ↔ s.pmm.Free f
  managed : ∀ f, role f ≠ .kernel → lo ≤ f ∧ f < hi
  /-- A page table is linked to its slot. -/
  table : ∀ t d i, role t = .table d i → role d = .dir ∧ i.val < 768 ∧ s.entry d i = some t
  /-- The user part of a directory leads to its own page tables. -/
  entry : ∀ d i t, role d = .dir → i.val < 768 → s.entry d i = some t → role t = .table d i
  /-- Page tables lead to mapped frames. -/
  pte : ∀ t d i j f, role t = .table d i → s.entry t j = some f → role f = .user
  /-- A mapped frame is mapped, and counts how often. -/
  user : ∀ f, role f = .user →
    (s.pmm.pages f).ref.toNat = refCount s role f ∧ 0 < refCount s role f
  unused : ∀ f, role f = .free ∨ role f = .held → (s.pmm.pages f).ref = 0
  /-- The directory that new ones are copied from maps no user page. -/
  kernelPgd : role s.kernelPgd = .kernel ∧ ∀ i : Fin 1024, i.val < 768 → s.entry s.kernelPgd i = none

/-- Memory, reference counts and allocator are in order, and `dirs` are the page directories. -/
def Paged (lo hi : Nat) (s : Machine) (dirs : Set Nat) : Prop :=
  ∃ role, Frames lo hi s role ∧ ∀ d, role d = .dir ↔ d ∈ dirs

namespace Frames

variable {lo hi : Nat} {s s' : Machine} {role : Nat → Role}

theorem lt (h : Frames lo hi s role) {f : Nat} (hf : role f ≠ .kernel) : f < 2 ^ 20 := by
  have := h.managed f hf
  have := h.hi_le
  have := h.pageCount_le
  omega

theorem le_pageCount (h : Frames lo hi s role) {f : Nat} (hf : role f ≠ .kernel) : f ≤ s.pageCount := by
  have := h.managed f hf
  have := h.hi_le
  omega

/-- A frame that is not mapped has no references. -/
theorem refCount_eq_zero (h : Frames lo hi s role) {f : Nat} (hf : role f ≠ .user) :
    refCount s role f = 0 := by
  unfold refCount
  rw [fiberCount_eq_zero_iff]
  intro slot _ hslot
  unfold pteMap at hslot
  split at hslot
  · rename_i htable
    obtain ⟨d, i, hrole⟩ := Role.isTable_iff.mp htable
    exact hf (h.pte _ d i _ f hrole hslot)
  · simp at hslot

/-- A frame that is not mapped, nor the kernel's, takes a role in which it is not mapped either. -/
theorem setRole (h : Frames lo hi s role) {p : Nat} {r : Role} (hp : role p ≠ .user)
    (hpk : role p ≠ .kernel) (hr : r ≠ .user) (hpmm : s'.pmm.Inv lo hi)
    (hcount : s'.pageCount = s.pageCount) (hkernel : s'.kernelPgd = s.kernelPgd)
    (hkmem : s'.mem s.kernelPgd = s.mem s.kernelPgd)
    (hfree : ∀ x, s'.pmm.Free x ↔ if x = p then r = .free else s.pmm.Free x)
    (href : ∀ x, x ≠ p → (s'.pmm.pages x).ref = (s.pmm.pages x).ref)
    (hrefp : r = .free ∨ r = .held → (s'.pmm.pages p).ref = 0)
    (htable : ∀ t d i, Function.update role p r t = .table d i →
      Function.update role p r d = .dir ∧ i.val < 768 ∧ s'.entry d i = some t)
    (hentry : ∀ d i t, Function.update role p r d = .dir → i.val < 768 → s'.entry d i = some t →
      Function.update role p r t = .table d i)
    (hmap : ∀ slot, pteMap s' (Function.update role p r) slot = pteMap s role slot) :
    Frames lo hi s' (Function.update role p r) := by
  have hrefCount : ∀ f, refCount s' (Function.update role p r) f = refCount s role f :=
    fun f => fiberCount_congr fun slot _ => hmap slot
  refine ⟨hpmm, hcount ▸ h.hi_le, hcount ▸ h.pageCount_le, ?_, ?_, htable, hentry, ?_, ?_, ?_, ?_⟩
  · intro f
    rw [hfree f]
    by_cases hf : f = p
    · subst hf
      simp
    · rw [Function.update_of_ne hf, if_neg hf]
      exact h.free f
  · intro f hf
    by_cases hfp : f = p
    · subst hfp
      exact h.managed f hpk
    · rw [Function.update_of_ne hfp] at hf
      exact h.managed f hf
  · intro t d i j f ht hj
    have hslot := hmap (t, j)
    have htrue : (Function.update role p r t).isTable = true := Role.isTable_iff.mpr ⟨d, i, ht⟩
    simp only [pteMap, htrue, if_true, hj] at hslot
    -- The entry was there before, in a frame that was a page table before.
    split at hslot
    · rename_i hold
      obtain ⟨d', i', hrole⟩ := Role.isTable_iff.mp hold
      have huser := h.pte t d' i' j f hrole hslot.symm
      rw [Function.update_of_ne (by rintro rfl; exact hp huser)]
      exact huser
    · simp at hslot
  · intro f hf
    have hfp : f ≠ p := by
      rintro rfl
      rw [Function.update_self] at hf
      exact hr hf
    rw [Function.update_of_ne hfp] at hf
    rw [hrefCount, href f hfp]
    exact h.user f hf
  · intro f hf
    by_cases hfp : f = p
    · subst hfp
      rw [Function.update_self] at hf
      exact hrefp hf
    · rw [Function.update_of_ne hfp] at hf
      rw [href f hfp]
      exact h.unused f hf
  · rw [hkernel]
    have hne : s.kernelPgd ≠ p := by
      rintro hc
      exact hpk (hc ▸ h.kernelPgd.1)
    rw [Function.update_of_ne hne]
    refine ⟨h.kernelPgd.1, ?_⟩
    intro i hi
    have := h.kernelPgd.2 i hi
    unfold Machine.entry at this ⊢
    rwa [hkmem]

/-- The case of a frame that is part of no page table and does not become part of one. -/
theorem setPlain (h : Frames lo hi s role) {p : Nat} {r : Role} (hp : role p = .free ∨ role p = .held)
    (hr : r = .free ∨ r = .held ∨ r = .kernel) {m : Pmm} (hpmm : m.Inv lo hi)
    (hfree : ∀ x, m.Free x ↔ if x = p then r = .free else s.pmm.Free x)
    (href : ∀ x, x ≠ p → (m.pages x).ref = (s.pmm.pages x).ref)
    (hrefp : r = .free ∨ r = .held → (m.pages p).ref = 0) :
    Frames lo hi { s with pmm := m } (Function.update role p r) := by
  have hnew : ∀ x r', r' ≠ .free → r' ≠ .held → r' ≠ .kernel → Function.update role p r x = r' →
      role x = r' := by
    intro x r' h1 h2 h3 hx
    by_cases hxp : x = p
    · subst hxp
      rw [Function.update_self] at hx
      subst hx
      rcases hr with rfl | rfl | rfl <;> contradiction
    · rwa [Function.update_of_ne hxp] at hx
  have hkeep : ∀ x, role x ≠ .free → role x ≠ .held → Function.update role p r x = role x := by
    intro x h1 h2
    refine Function.update_of_ne ?_ _ _
    rintro rfl
    exact hp.elim h1 h2
  have hne : role p ≠ .user ∧ role p ≠ .kernel ∧ (role p).isTable = false := by
    rcases hp with hp | hp <;> simp [hp, Role.isTable]
  have hr' : r ≠ .user ∧ r.isTable = false := by
    rcases hr with rfl | rfl | rfl <;> simp [Role.isTable]
  refine h.setRole hne.1 hne.2.1 hr'.1 hpmm rfl rfl rfl hfree href hrefp ?_ ?_ ?_
  · intro t d i ht
    obtain ⟨h1, h2, h3⟩ := h.table t d i (hnew t _ (by simp) (by simp) (by simp) ht)
    refine ⟨?_, h2, h3⟩
    rw [hkeep d (by simp [h1]) (by simp [h1]), h1]
  · intro d i t hd hi' ht
    have htrole := h.entry d i t (hnew d _ (by simp) (by simp) (by simp) hd) hi' ht
    rw [hkeep t (by simp [htrole]) (by simp [htrole]), htrole]
  · intro slot
    unfold pteMap
    by_cases hx : slot.1 = p
    · simp [hx, hne.2.2, hr'.2]
    · simp only [Function.update_of_ne hx]
      rfl

/-- What a frame contains does not matter unless it is a directory or a page table. -/
theorem fillData (h : Frames lo hi s role) {p : Nat} (hdir : role p ≠ .dir) (htable : (role p).isTable = false)
    (hpgd : p ≠ s.kernelPgd) (words : FrameWords) : Frames lo hi (s.fillFrame p words) role := by
  have hentry : ∀ x i, x ≠ p → (s.fillFrame p words).entry x i = s.entry x i := by
    intro x i hx
    unfold Machine.entry
    rw [show (s.fillFrame p words).mem x = s.mem x from Function.update_of_ne hx ..]
  have hne : ∀ x d i, role x = .table d i → x ≠ p := by
    rintro x d i hx rfl
    simp [hx, Role.isTable] at htable
  have hned : ∀ x, role x = .dir → x ≠ p := by
    rintro x hx rfl
    exact hdir hx
  have hmap : ∀ slot, pteMap (s.fillFrame p words) role slot = pteMap s role slot := by
    intro slot
    unfold pteMap
    split
    · rename_i hslot
      obtain ⟨d, i, hrole⟩ := Role.isTable_iff.mp hslot
      exact hentry _ _ (hne _ d i hrole)
    · rfl
  have hcount : ∀ f, refCount (s.fillFrame p words) role f = refCount s role f :=
    fun f => fiberCount_congr fun slot _ => hmap slot
  refine ⟨h.pmm, h.hi_le, h.pageCount_le, h.free, h.managed, ?_, ?_, ?_, ?_, h.unused, ?_⟩
  · intro t d i ht
    obtain ⟨h1, h2, h3⟩ := h.table t d i ht
    exact ⟨h1, h2, by rw [hentry d i (hned d h1), h3]⟩
  · intro d i t hd hi' ht
    rw [hentry d i (hned d hd)] at ht
    exact h.entry d i t hd hi' ht
  · intro t d i j f ht hf
    rw [hentry t j (hne t d i ht)] at hf
    exact h.pte t d i j f ht hf
  · intro f hf
    rw [hcount]
    exact h.user f hf
  · refine ⟨h.kernelPgd.1, ?_⟩
    intro i hi'
    show (s.fillFrame p words).entry s.kernelPgd i = none
    rw [hentry _ i (Ne.symm hpgd)]
    exact h.kernelPgd.2 i hi'

/-- The case of a frame that is held. -/
theorem fillFrame (h : Frames lo hi s role) {p : Nat} (hp : role p = .held) (words : FrameWords) :
    Frames lo hi (s.fillFrame p words) role := by
  refine h.fillData (by simp [hp]) (by simp [hp, Role.isTable]) ?_ words
  rintro rfl
  simp [h.kernelPgd.1] at hp

theorem refCount_store (h : Frames lo hi s role) {t d : Nat} {i : Fin 1024} (ht : role t = .table d i)
    (j : Fin 1024) (word : U32) (x : Nat) :
    refCount (s.store t j word) role x + (if s.entry t j = some x then 1 else 0) =
      refCount s role x + (if target word = some x then 1 else 0) := by
  have hmem : (t, j) ∈ pteSlots := by
    rw [mem_pteSlots]
    exact h.lt (by simp [ht])
  have htable : (role t).isTable = true := Role.isTable_iff.mpr ⟨d, i, ht⟩
  have hupdate := fiberCount_update (g := pteMap s role) (b := x) hmem (target word)
  unfold refCount
  rw [pteMap_store s htable]
  simpa [pteMap, htable] using hupdate

/-- Rewriting an entry makes no page tables and unmakes none. -/
theorem retarget_isTable (h : Frames lo hi s role) {t d : Nat} {i : Fin 1024} (ht : role t = .table d i)
    (j : Fin 1024) {word : U32}
    (hnew : ∀ f, target word = some f → role f = .user ∨ role f = .held) (x : Nat) :
    (retarget s role t j word x).isTable = (role x).isTable := by
  unfold retarget
  split
  · rename_i hc
    simp [h.pte t d i j x ht hc.1, Role.isTable]
  · split
    · rename_i hc
      rcases hnew x hc with hx | hx <;> simp [hx, Role.isTable]
    · rfl

theorem refCount_retarget (h : Frames lo hi s role) {t d : Nat} {i : Fin 1024} (ht : role t = .table d i)
    (j : Fin 1024) {word : U32}
    (hnew : ∀ f, target word = some f → role f = .user ∨ role f = .held) (m : Pmm) (x : Nat) :
    refCount { s.store t j word with pmm := m } (retarget s role t j word) x =
      refCount (s.store t j word) role x := by
  unfold refCount
  refine fiberCount_congr fun slot _ => ?_
  unfold pteMap
  rw [h.retarget_isTable ht j hnew]
  rfl

/-- A page table entry is overwritten, and the reference counts and the allocator follow. -/
theorem setPte (h : Frames lo hi s role) {t d : Nat} {i : Fin 1024} (ht : role t = .table d i)
    (j : Fin 1024) (word : U32)
    (hnew : ∀ f, target word = some f → role f = .user ∨ role f = .held) {m : Pmm}
    (hpmm : m.Inv lo hi)
    (hfree : ∀ x, m.Free x ↔ s.pmm.Free x ∨
      (s.entry t j = some x ∧ refCount (s.store t j word) role x = 0))
    (href : ∀ x, (m.pages x).ref.toNat + (if s.entry t j = some x then 1 else 0) =
      (s.pmm.pages x).ref.toNat + (if target word = some x then 1 else 0)) :
    Frames lo hi { s.store t j word with pmm := m } (retarget s role t j word) := by
  have hcount := h.refCount_store ht j word
  have hold : ∀ x, s.entry t j = some x → role x = .user := fun x hx => h.pte t d i j x ht hx
  -- Only frames that are held or mapped change their role.
  have hstay : ∀ x, role x ≠ .user → role x ≠ .held → retarget s role t j word x = role x := by
    intro x hu hh
    unfold retarget
    rw [if_neg (fun hc => hu (hold x hc.1)), if_neg (fun hc => (hnew x hc).elim hu hh)]
  have hrole : ∀ x r, r ≠ .free → r ≠ .user → retarget s role t j word x = r → role x = r := by
    intro x r hr₁ hr₂ hx
    unfold retarget at hx
    split at hx
    · exact absurd hx.symm hr₁
    · split at hx
      · exact absurd hx.symm hr₂
      · exact hx
  have hrefCount := h.refCount_retarget ht j hnew m
  -- A frame that an entry of the new state points to keeps a reference.
  have hkeep : ∀ t' d' i' j' f, role t' = .table d' i' →
      (s.store t j word).entry t' j' = some f → 0 < refCount (s.store t j word) role f := by
    intro t' d' i' j' f ht' hf
    have hmem : (t', j') ∈ pteSlots := by
      rw [mem_pteSlots]
      exact h.lt (by simp [ht'])
    unfold refCount
    rw [fiberCount_pos_iff]
    exact ⟨(t', j'), hmem, by simpa [pteMap, Role.isTable, ht'] using hf⟩
  have hdir : ∀ x k, role x = .dir → (s.store t j word).entry x k = s.entry x k := by
    intro x k hx
    rw [entry_store, if_neg]
    rintro ⟨rfl, -⟩
    simp [ht] at hx
  refine ⟨hpmm, h.hi_le, h.pageCount_le, ?_, ?_, ?_, ?_, ?_, ?_, ?_, ?_⟩
  · intro f
    rw [hfree f, ← h.free f]
    constructor
    · intro hf
      unfold retarget at hf
      split at hf
      · rename_i hc
        exact Or.inr hc
      · split at hf
        · simp at hf
        · exact Or.inl hf
    · rintro (hf | hf)
      · rw [hstay f (by simp [hf]) (by simp [hf])]
        exact hf
      · unfold retarget
        rw [if_pos hf]
  · intro f hf
    refine h.managed f ?_
    intro hk
    rw [hstay f (by simp [hk]) (by simp [hk])] at hf
    exact hf hk
  · intro t' d' i' ht'
    have ht'' := hrole t' _ (by simp) (by simp) ht'
    obtain ⟨h1, h2, h3⟩ := h.table t' d' i' ht''
    refine ⟨?_, h2, ?_⟩
    · rw [hstay d' (by simp [h1]) (by simp [h1])]
      exact h1
    · exact (hdir d' i' h1).trans h3
  · intro d' i' t' hd' hi' hentry
    have hd'' := hrole d' _ (by simp) (by simp) hd'
    have ht' := h.entry d' i' t' hd'' hi' ((hdir d' i' hd'').symm.trans hentry)
    rw [hstay t' (by simp [ht']) (by simp [ht'])]
    exact ht'
  · intro t' d' i' j' f ht' hf
    have ht'' := hrole t' _ (by simp) (by simp) ht'
    have hpos := hkeep t' d' i' j' f ht'' hf
    have hf' : (s.store t j word).entry t' j' = some f := hf
    rw [entry_store] at hf'
    unfold retarget
    rw [if_neg (fun hc => by omega)]
    split at hf'
    · rw [if_pos hf']
    · split
      · rfl
      · exact h.pte t' d' i' j' f ht'' hf'
  · intro f hf
    rw [hrefCount f]
    have hcountf := hcount f
    have hreff := href f
    unfold retarget at hf
    split at hf
    · simp at hf
    · rename_i hkept
      -- Old and new counts differ by the same two references as old and new fields.
      have hsame : (s.pmm.pages f).ref.toNat = refCount s role f := by
        split at hf
        · rename_i hf'
          rcases hnew f hf' with hu | hh
          · exact (h.user f hu).1
          · rw [h.unused f (Or.inr hh), h.refCount_eq_zero (by simp [hh])]
            rfl
        · exact (h.user f hf).1
      have hpos : 0 < refCount (s.store t j word) role f := by
        by_cases hentry : s.entry t j = some f
        · by_contra hzero
          exact hkept ⟨hentry, by omega⟩
        · split at hf
          · rename_i hf'
            rw [if_pos hf', if_neg hentry] at hcountf
            omega
          · have := (h.user f hf).2
            rw [if_neg hentry] at hcountf
            omega
      refine ⟨?_, hpos⟩
      show (m.pages f).ref.toNat = _
      omega
  · intro f hf
    have hreff := href f
    show (m.pages f).ref = 0
    have hnot : target word ≠ some f := by
      intro hc
      rcases hf with hf | hf
      · unfold retarget at hf
        rw [if_pos hc] at hf
        split at hf
        · rename_i hkept
          have hcountf := hcount f
          rw [if_pos hkept.1, if_pos hc] at hcountf
          have := (h.user f (hold f hkept.1)).2
          omega
        · simp at hf
      · unfold retarget at hf
        rw [if_pos hc] at hf
        split at hf <;> simp at hf
    rw [if_neg hnot] at hreff
    by_cases hentry : s.entry t j = some f
    · -- The last reference was dropped.
      have huser := hold f hentry
      have hcountf := hcount f
      rw [if_neg hnot, if_pos hentry] at hcountf
      have hzero : refCount (s.store t j word) role f = 0 := by
        by_contra hne
        unfold retarget at hf
        rw [if_neg (fun hc => hne hc.2), if_neg hnot, huser] at hf
        simp at hf
      have hone := (h.user f huser).1
      rw [if_pos hentry] at hreff
      apply BitVec.eq_of_toNat_eq
      simp only [BitVec.toNat_ofNat, Nat.zero_mod, BitVec.ofNat_eq_ofNat]
      omega
    · have hold' : role f = .free ∨ role f = .held := by
        unfold retarget at hf
        rw [if_neg (fun hc => hentry hc.1), if_neg hnot] at hf
        exact hf
      rw [if_neg hentry, h.unused f hold'] at hreff
      apply BitVec.eq_of_toNat_eq
      simpa using hreff
  · obtain ⟨hk, hkentry⟩ := h.kernelPgd
    refine ⟨?_, ?_⟩
    · show retarget s role t j word s.kernelPgd = .kernel
      rw [hstay _ (by simp [hk]) (by simp [hk])]
      exact hk
    · intro k hk'
      show (s.store t j word).entry s.kernelPgd k = none
      rw [entry_store, if_neg]
      · exact hkentry k hk'
      · rintro ⟨hc, -⟩
        rw [hc, ht] at hk
        simp at hk

end Frames

end Memory
end FreakOS
