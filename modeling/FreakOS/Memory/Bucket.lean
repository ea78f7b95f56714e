import FreakOS.Lib.NullList
import FreakOS.Memory.Kmalloc

/-!
# The bucket allocator

`doKmalloc` and `doKfree` of `kmalloc.c`.  A bucket is a page in blocks of one size.  Its descriptor, a `Bucket_t`, has
four words: `size`, `page`, `next` and `entry`.  Descriptors that are not in use are on `BucketFreeList`, in pages of
their own; a free block has the address of the next one in its first word.

Memory is the words at their addresses.  Each store is noted with the page allocator as it was then.

* `allocBucket`, `initBucket`, `doKmalloc`, `doKfree` — as in the source.
* `Ends` — a call returns, whatever the fuel from some amount on.
* `carve_writes_behind` — the loop of `allocBucket` stores behind its page.
-/

namespace FreakOS
namespace Memory
namespace Bucket

open Lib

/-- The addresses of `BucketTable` and `BucketFreeList`. -/
structure Globals where
  bucketTable : Nat
  bucketFreeList : Nat

/-- A store, and the page allocator at that time. -/
structure Write where
  addr : Nat
  pmm : Pmm

/-- Memory, the page allocator, and the stores of the call. -/
structure State where
  word : Nat → Nat
  pmm : Pmm
  pageCount : Nat
  written : List Write

/-- Store a word. -/
def State.poke (s : State) (addr value : Nat) : State :=
  { s with word := Function.update s.word addr value, written := ⟨addr, s.pmm⟩ :: s.written }

/-- `&bk->size`. -/
def sizeField (bk : Nat) : Nat := bk
/-- `&bk->page`. -/
def pageField (bk : Nat) : Nat := bk + 4
/-- `&bk->next`. -/
def nextField (bk : Nat) : Nat := bk + 8
/-- `&bk->entry`. -/
def entryField (bk : Nat) : Nat := bk + 12
/-- `sizeof(Bucket_t)`. -/
def sizeofBucket : Nat := 16

/-- `page2pa(page) + KERNEL_BASE`. -/
def pageAddr (page : Nat) : Nat := 0xC0000000 + 4096 * page

section Source

variable (g : Globals)

/-- `page2pa(allocPhyPages(n)) + KERNEL_BASE`. -/
def allocPages (s : State) (n : Nat) : Res (Nat × State) := do
  let (page, pmm) ← ffAllocPages s.pmm n
  match page with
  | none => .error .wildPointer
  | some page => return (pageAddr page, { s with pmm := pmm })

/-- The loop of `getBucketSlot`, with its `n` and `i`. -/
def slotLoop (size : Int) : Nat → Nat → Nat → Int
  | 0, _, _ => -1
  | rounds + 1, n, i =>
      if n * 2 ≤ 4096 then
        if size ≤ n * 2 then i else slotLoop size rounds (n * 2) (i + 1)
      else -1

/-- `getBucketSlot(size)`; its loop takes 9 rounds at most. -/
def getBucketSlot (size : Int) : Int := if size ≤ 0 then -1 else slotLoop size 9 16 0

/-- `&BucketTable[index]`, where `index` is a `uint32_t`. -/
def bucketHead (index : Int) : Res Nat :=
  if (BitVec.ofInt 32 index).toNat < 8 then .ok (g.bucketTable + sizeofBucket * (BitVec.ofInt 32 index).toNat)
  else .error .wildPointer

/-- The loop of `allocBucket` that makes descriptors of a page. -/
def carveLoop (pageEnd : Nat) : Nat → State → Nat → Nat → Res State
  | 0, _, _, _ => .error .outOfFuel
  | fuel + 1, s, q, p =>
      if p < pageEnd then
        let p := p + sizeofBucket
        let s := s.poke (nextField q) p
        let s := s.poke (nextField p) 0
        carveLoop pageEnd fuel s p p
      else .ok s

/-- The descriptors of a new page in `allocBucket`, if there are no others; the loop takes 256 rounds. -/
def carvePage (s : State) : Res State :=
  if s.word (nextField g.bucketFreeList) = 0 then do
    let (pageAddr, s) ← allocPages s 1
    carveLoop (pageAddr + 4096) 257 s g.bucketFreeList pageAddr
  else .ok s

/-- `allocBucket()`. -/
def allocBucket (s : State) : Res (Nat × State) := do
  let s ← carvePage g s
  let p := s.word (nextField g.bucketFreeList)
  return (p, s.poke (nextField g.bucketFreeList) (s.word (nextField p)))

/-- A round of the loop of `initBucket`, with its `q`. -/
def linkRound (pageAddr size : Nat) (sq : State × Nat) (i : Nat) : State × Nat :=
  let p := pageAddr + i * size
  ((sq.1.poke sq.2 p).poke p 0, p)

/-- `initBucket(bk, size)`. -/
def initBucket (s : State) (bk size : Nat) : Res State := do
  let (pageAddr, s) ← allocPages s 1
  let s := s.poke (pageField bk) pageAddr
  let s := s.poke (sizeField bk) size
  let s := s.poke (entryField bk) pageAddr
  return ((List.range (4096 / size)).foldl (linkRound pageAddr size) (s, pageAddr)).1

/-- The loops of `doKmalloc`. -/
def kmallocLoop (bkHead size : Nat) : Nat → State → Nat → Res (Nat × State)
  | 0, _, _ => .error .outOfFuel
  | fuel + 1, s, bk =>
      if bk ≠ 0 then
        let be := s.word (entryField bk)
        if be ≠ 0 then .ok (be, s.poke (entryField bk) (s.word be))
        else kmallocLoop bkHead size fuel s (s.word (nextField bk))
      else do
        let (bk, s) ← allocBucket g s
        let s ← initBucket s bk size
        let s := s.poke (nextField bk) (s.word (nextField bkHead))
        let s := s.poke (nextField bkHead) bk
        kmallocLoop bkHead size fuel s bk

/-- `doKmalloc(size)`. -/
def doKmalloc (fuel : Nat) (s : State) (size : U32) : Res (Nat × State) :=
  if size = 0 then .ok (0, s)
  else if PGSIZE ≤ size then allocPages s (pagesOf size)
  else do
    let bkHead ← bucketHead g (getBucketSlot size.toInt)
    kmallocLoop g bkHead (s.word (sizeField bkHead)) fuel s bkHead

/-- `pa2page(vaddr - KERNEL_BASE)`. -/
def pageOf (s : State) (vaddr : Nat) : Res Nat :=
  let page := (vaddr + 0x40000000) % 2 ^ 32 / 4096
  if page > s.pageCount then .error (.panic "pa is invalid!") else .ok page

/-- The loop of `doKfree`. -/
def kfreeLoop (be pageAddr : Nat) : Nat → State → Nat → Res (Int × State)
  | 0, _, _ => .error .outOfFuel
  | fuel + 1, s, bk =>
      if bk ≠ 0 then
        if s.word (pageField bk) = pageAddr then
          let s := s.poke be (s.word (entryField bk))
          .ok (0, s.poke (entryField bk) be)
        else kfreeLoop be pageAddr fuel s (s.word (nextField bk))
      else .ok (-2, s)

/-- The release of the pages of a large block in `doKfree`. -/
def freePages (s : State) (vaddr : Nat) (size : U32) : Res State :=
  if PGSIZE ≤ size then do
    let page ← pageOf s vaddr
    let pmm ← ffFreePages s.pmm page (pagesOf size)
    return { s with pmm := pmm }
  else .ok s

/-- `doKfree(vaddr, size)`. -/
def doKfree (fuel : Nat) (s : State) (vaddr : Nat) (size : U32) : Res (Int × State) :=
  if size = 0 ∨ vaddr = 0 then .ok (0, s)
  else do
    let s ← freePages s vaddr size
    let page ← pageOf s vaddr
    let bkHead ← bucketHead g (getBucketSlot size.toInt)
    kfreeLoop vaddr (pageAddr page) fuel s bkHead

end Source

/-- A call returns `r`, given enough fuel. -/
def Ends {α : Type} (call : Nat → Res α) (r : α) : Prop := ∃ n, ∀ fuel, n ≤ fuel → call fuel = .ok r

theorem Ends.unique {α : Type} {call : Nat → Res α} {r r' : α} (h : Ends call r) (h' : Ends call r') : r = r' := by
  obtain ⟨n, hn⟩ := h
  obtain ⟨m, hm⟩ := h'
  exact Except.ok.inj ((hn (max n m) (le_max_left n m)).symm.trans (hm (max n m) (le_max_right n m)))

theorem Ends.of_eq {α : Type} {call : Nat → Res α} {r : α} (h : ∀ fuel, call fuel = .ok r) : Ends call r :=
  ⟨0, fun fuel _ => h fuel⟩

@[simp] theorem State.poke_word (s : State) (addr value : Nat) :
    (s.poke addr value).word = Function.update s.word addr value := rfl

@[simp] theorem State.poke_pmm (s : State) (addr value : Nat) : (s.poke addr value).pmm = s.pmm := rfl

@[simp] theorem State.poke_pageCount (s : State) (addr value : Nat) : (s.poke addr value).pageCount = s.pageCount := rfl

@[simp] theorem State.poke_written (s : State) (addr value : Nat) :
    (s.poke addr value).written = ⟨addr, s.pmm⟩ :: s.written := rfl

/-! ### Size classes -/

/-- The size of the blocks of a class. -/
def classSize (i : Fin 8) : Nat := 32 * 2 ^ i.val

/-- The element of `BucketTable` for a class. -/
def head (g : Globals) (i : Fin 8) : Nat := g.bucketTable + sizeofBucket * i.val

theorem classSize_pos (i : Fin 8) : 0 < classSize i := Nat.mul_pos (by decide) (Nat.two_pow_pos _)

/-- The blocks of a page are the whole page. -/
theorem classSize_blocks (i : Fin 8) : 4096 / classSize i * classSize i = 4096 := by
  revert i
  decide

theorem bucketHead_class (g : Globals) (i : Fin 8) : bucketHead g i.val = .ok (head g i) := by
  have hindex : (BitVec.ofInt 32 (i.val : Int)).toNat = i.val := by
    revert i
    decide
  unfold bucketHead
  rw [hindex, if_pos i.isLt]
  rfl

/-- From class `j` on the loop of `getBucketSlot` finds the first class that is large enough. -/
theorem slotLoop_class {size : Nat} (hlt : size ≤ 4096) (rounds j : Nat) (hj : j < 8) (hrounds : 8 ≤ rounds + j) :
    ∃ i : Fin 8, slotLoop size rounds (16 * 2 ^ j) j = i.val ∧ size ≤ classSize i := by
  induction rounds generalizing j with
  | zero => omega
  | succ rounds ih =>
      have hpow : 2 ^ j ≤ 2 ^ 7 := Nat.pow_le_pow_right (by decide) (by omega)
      have hdouble : 16 * 2 ^ j * 2 = 16 * 2 ^ (j + 1) := by rw [Nat.pow_succ, Nat.mul_assoc]
      unfold slotLoop
      rw [if_pos (by omega)]
      by_cases hfits : (size : Int) ≤ (16 * 2 ^ j : Nat) * 2
      · rw [if_pos hfits]
        refine ⟨⟨j, hj⟩, rfl, ?_⟩
        change size ≤ 32 * 2 ^ j
        omega
      · rw [if_neg hfits, hdouble]
        have hnext : j + 1 < 8 := by
          by_contra hlast
          obtain rfl : j = 7 := by omega
          omega
        exact ih (j + 1) hnext (by omega)

/-- Every size up to a page has a class. -/
theorem getBucketSlot_class {size : Nat} (hpos : 1 ≤ size) (hle : size ≤ 4096) :
    ∃ i : Fin 8, getBucketSlot size = i.val ∧ size ≤ classSize i := by
  unfold getBucketSlot
  rw [if_neg (by omega)]
  exact slotLoop_class hle 9 0 (by decide) (by decide)

/-- A larger size has none, for no class is large enough. -/
theorem slotLoop_none {size : Int} (hgt : 4096 < size) (rounds n i : Nat) : slotLoop size rounds n i = -1 := by
  induction rounds generalizing n i with
  | zero => rfl
  | succ rounds ih =>
      unfold slotLoop
      by_cases hn : n * 2 ≤ 4096
      · rw [if_pos hn, if_neg (by omega), ih]
      · rw [if_neg hn]

/-- Then the index is outside of `BucketTable`, as -1 is compared as an unsigned number. -/
theorem bucketHead_none (g : Globals) {size : Int} (h : size ≤ 0 ∨ 4096 < size) :
    bucketHead g (getBucketSlot size) = .error .wildPointer := by
  have hslot : getBucketSlot size = -1 := by
    unfold getBucketSlot
    by_cases hneg : size ≤ 0
    · rw [if_pos hneg]
    · rw [if_neg hneg]
      exact slotLoop_none (h.resolve_left hneg) 9 16 0
  rw [hslot]
  rfl

/-! ### The entries of a new bucket -/

/-- The cells of a page in blocks of one size. -/
def cell (pageAddr size j : Nat) : Nat := pageAddr + j * size

/-- What the loop of `initBucket` has done after `n` rounds. -/
structure LinkSpec (pageAddr size n : Nat) (s s' : State) (q : Nat) : Prop where
  last : q = cell pageAddr size (n - 1)
  links : ∀ j < n, s'.word (cell pageAddr size j) = if j + 1 < n then cell pageAddr size (j + 1) else 0
  others : ∀ a, (∀ j < n, a ≠ cell pageAddr size j) → s'.word a = s.word a
  pmm : s'.pmm = s.pmm
  pageCount : s'.pageCount = s.pageCount
  written : ∀ w ∈ s'.written, w ∈ s.written ∨ (w.pmm = s.pmm ∧ ∃ j < n, w.addr = cell pageAddr size j)

theorem cell_inj {pageAddr size j k : Nat} (hsize : 0 < size) (h : cell pageAddr size j = cell pageAddr size k) :
    j = k :=
  Nat.eq_of_mul_eq_mul_right hsize (Nat.add_left_cancel h)

/-- One round more links one cell more. -/
theorem LinkSpec.round {pageAddr size n q : Nat} {s s' : State} (hsize : 0 < size)
    (h : LinkSpec pageAddr size n s s' q) :
    LinkSpec pageAddr size (n + 1) s (linkRound pageAddr size (s', q) n).1 (linkRound pageAddr size (s', q) n).2 := by
  have hword : (linkRound pageAddr size (s', q) n).1.word =
      Function.update (Function.update s'.word q (cell pageAddr size n)) (cell pageAddr size n) 0 := rfl
  have hq : ∃ j < n + 1, q = cell pageAddr size j := ⟨n - 1, by omega, h.last⟩
  refine ⟨rfl, ?_, ?_, h.pmm, h.pageCount, ?_⟩
  · intro j hj
    rw [hword]
    by_cases hlast : j = n
    · subst hlast
      rw [Function.update_self, if_neg (Nat.lt_irrefl _)]
    · have hlt : j < n := by omega
      rw [Function.update_of_ne fun heq => hlast (cell_inj hsize heq), if_pos (by omega)]
      by_cases hprev : j = n - 1
      · subst hprev
        have hnext : n - 1 + 1 = n := by omega
        rw [h.last, Function.update_self, hnext]
      · rw [h.last, Function.update_of_ne fun heq => hprev (cell_inj hsize heq), h.links j hlt, if_pos (by omega)]
  · intro a ha
    obtain ⟨j, hj, rfl⟩ := hq
    rw [hword, Function.update_of_ne (ha n (by omega)), Function.update_of_ne (ha j hj)]
    exact h.others a fun k hk => ha k (by omega)
  · intro w hw
    have hcases : w = ⟨cell pageAddr size n, s'.pmm⟩ ∨ w = ⟨q, s'.pmm⟩ ∨ w ∈ s'.written := by
      rcases List.mem_cons.mp hw with hw | hw
      · exact .inl hw
      · exact .inr (List.mem_cons.mp hw)
    rcases hcases with rfl | rfl | hw
    · exact .inr ⟨h.pmm, n, by omega, rfl⟩
    · exact .inr ⟨h.pmm, hq⟩
    · rcases h.written w hw with hold | ⟨hpmm, j, hj, haddr⟩
      · exact .inl hold
      · exact .inr ⟨hpmm, j, by omega, haddr⟩

/-- The loop of `initBucket`. -/
theorem linkRounds_spec (pageAddr : Nat) {size : Nat} (hsize : 0 < size) (s : State) (n : Nat) :
    LinkSpec pageAddr size n s ((List.range n).foldl (linkRound pageAddr size) (s, pageAddr)).1
      ((List.range n).foldl (linkRound pageAddr size) (s, pageAddr)).2 := by
  induction n with
  | zero =>
      refine ⟨?_, fun j hj => absurd hj (Nat.not_lt_zero j), fun a _ => rfl, rfl, rfl, fun w hw => .inl hw⟩
      change pageAddr = pageAddr + (0 - 1) * size
      omega
  | succ n ih =>
      rw [List.range_succ, List.foldl_append, List.foldl_cons, List.foldl_nil]
      exact ih.round hsize

/-- The cells are a list from the first one on. -/
theorem LinkSpec.listed {pageAddr size n q : Nat} {s s' : State} (h : LinkSpec pageAddr size n s s' q) (hn : 0 < n)
    (hpage : 0 < pageAddr) : Listed s'.word pageAddr ((List.range n).map (cell pageAddr size)) := by
  have hfirst : cell pageAddr size 0 = pageAddr := by
    unfold cell
    rw [Nat.zero_mul, Nat.add_zero]
  have hall : Listed s'.word (cell pageAddr size 0) ((List.range n).map (cell pageAddr size)) := Listed.of_index
    (fun j _ => Nat.pos_iff_ne_zero.mp (Nat.lt_of_lt_of_le hpage (Nat.le_add_right _ _))) h.links hn
  rwa [hfirst] at hall

/-! ### The walks along a class -/

/-- The buckets from `p` on. -/
def Buckets (word : Nat → Nat) (p : Nat) (bks : List Nat) : Prop := Listed (fun bk => word (nextField bk)) p bks

instance (word : Nat → Nat) (p : Nat) (bks : List Nat) : Decidable (Buckets word p bks) :=
  inferInstanceAs (Decidable (Listed _ p bks))

section Walks

variable {g : Globals} {s : State} {bkHead size p : Nat} {bks rest : List Nat}

/-- `doKmalloc` goes past buckets with no free block. -/
theorem kmallocLoop_skip (g : Globals) (bkHead size fuel : Nat) (h : Buckets s.word p (bks ++ rest))
    (hfull : ∀ bk ∈ bks, s.word (entryField bk) = 0) :
    ∃ p', Buckets s.word p' rest ∧
      kmallocLoop g bkHead size (fuel + bks.length) s p = kmallocLoop g bkHead size fuel s p' := by
  induction bks generalizing p with
  | nil => exact ⟨p, h, rfl⟩
  | cons bk bks ih =>
      obtain ⟨rfl, hne, hrest⟩ := h
      obtain ⟨p', hp', hloop⟩ := ih hrest fun b hb => hfull b (List.mem_cons_of_mem _ hb)
      refine ⟨p', hp', hloop ▸ ?_⟩
      rw [List.length_cons, ← Nat.add_assoc, kmallocLoop, if_pos hne, hfull p List.mem_cons_self, if_neg (by simp)]

/-- `doKfree` goes past buckets of other pages. -/
theorem kfreeLoop_skip {pageAddr : Nat} (be fuel : Nat) (h : Buckets s.word p (bks ++ rest))
    (hother : ∀ bk ∈ bks, s.word (pageField bk) ≠ pageAddr) :
    ∃ p', Buckets s.word p' rest ∧
      kfreeLoop be pageAddr (fuel + bks.length) s p = kfreeLoop be pageAddr fuel s p' := by
  induction bks generalizing p with
  | nil => exact ⟨p, h, rfl⟩
  | cons bk bks ih =>
      obtain ⟨rfl, hne, hrest⟩ := h
      obtain ⟨p', hp', hloop⟩ := ih hrest fun b hb => hother b (List.mem_cons_of_mem _ hb)
      refine ⟨p', hp', hloop ▸ ?_⟩
      rw [List.length_cons, ← Nat.add_assoc, kfreeLoop, if_pos hne, if_neg (hother p List.mem_cons_self)]

/-- With enough fuel for a walk, the fuel behind it. -/
theorem fuel_behind {n m fuel : Nat} (h : n + m ≤ fuel) : ∃ k, fuel = k + m ∧ n ≤ k := ⟨fuel - m, by omega, by omega⟩

/-- `doKmalloc` takes the first free block of the first bucket that has one. -/
theorem kmallocLoop_pop {bk be : Nat} (h : Buckets s.word p (bks ++ bk :: rest))
    (hfull : ∀ bk ∈ bks, s.word (entryField bk) = 0) (hentry : s.word (entryField bk) = be) (hne : be ≠ 0) :
    Ends (fun fuel => kmallocLoop g bkHead size fuel s p) (be, s.poke (entryField bk) (s.word be)) := by
  refine ⟨1 + bks.length, fun fuel hfuel => ?_⟩
  obtain ⟨k, rfl, hk⟩ := fuel_behind hfuel
  obtain ⟨k, rfl⟩ := Nat.exists_eq_add_of_le' hk
  obtain ⟨p', hp', hloop⟩ := kmallocLoop_skip g bkHead size (k + 1) h hfull
  obtain ⟨rfl, hbk, -⟩ := hp'
  change kmallocLoop g bkHead size (k + 1 + bks.length) s p = _
  rw [hloop, kmallocLoop, if_pos hbk, hentry, if_pos hne]

/-- With no free block in the class `doKmalloc` makes a bucket, and goes on with it. -/
theorem kmallocLoop_refill {bk : Nat} {s₁ s₂ : State} {r : Nat × State} (h : Buckets s.word p bks)
    (hfull : ∀ bk ∈ bks, s.word (entryField bk) = 0) (halloc : allocBucket g s = .ok (bk, s₁))
    (hinit : initBucket s₁ bk size = .ok s₂)
    (hrest : Ends (fun fuel => kmallocLoop g bkHead size fuel
      ((s₂.poke (nextField bk) (s₂.word (nextField bkHead))).poke (nextField bkHead) bk) bk) r) :
    Ends (fun fuel => kmallocLoop g bkHead size fuel s p) r := by
  obtain ⟨n, hn⟩ := hrest
  refine ⟨n + 1 + bks.length, fun fuel hfuel => ?_⟩
  obtain ⟨k, rfl, hk⟩ := fuel_behind hfuel
  obtain ⟨k, rfl⟩ := Nat.exists_eq_add_of_le' (Nat.le_trans (Nat.le_add_left 1 n) hk)
  rw [← List.append_nil bks] at h
  obtain ⟨p', hp', hloop⟩ := kmallocLoop_skip g bkHead size (k + 1) h hfull
  obtain rfl : p' = 0 := hp'
  change kmallocLoop g bkHead size (k + 1 + bks.length) s p = _
  rw [hloop, kmallocLoop, if_neg (by simp), halloc, Res.ok_bind]
  change (initBucket s₁ bk size >>= _) = _
  rw [hinit, Res.ok_bind]
  exact hn k (by omega)

/-- `doKfree` puts the block on the first bucket of its page. -/
theorem kfreeLoop_push {bk pageAddr : Nat} (be : Nat) (h : Buckets s.word p (bks ++ bk :: rest))
    (hother : ∀ bk ∈ bks, s.word (pageField bk) ≠ pageAddr) (hpage : s.word (pageField bk) = pageAddr) :
    Ends (fun fuel => kfreeLoop be pageAddr fuel s p)
      (0, (s.poke be (s.word (entryField bk))).poke (entryField bk) be) := by
  refine ⟨1 + bks.length, fun fuel hfuel => ?_⟩
  obtain ⟨k, rfl, hk⟩ := fuel_behind hfuel
  obtain ⟨k, rfl⟩ := Nat.exists_eq_add_of_le' hk
  obtain ⟨p', hp', hloop⟩ := kfreeLoop_skip be (k + 1) h hother
  obtain ⟨rfl, hbk, -⟩ := hp'
  change kfreeLoop be pageAddr (k + 1 + bks.length) s p = _
  rw [hloop, kfreeLoop, if_pos hbk, if_pos hpage]

/-- With no bucket of the page `doKfree` returns -2. -/
theorem kfreeLoop_none {pageAddr : Nat} (be : Nat) (h : Buckets s.word p bks)
    (hother : ∀ bk ∈ bks, s.word (pageField bk) ≠ pageAddr) :
    Ends (fun fuel => kfreeLoop be pageAddr fuel s p) (-2, s) := by
  refine ⟨1 + bks.length, fun fuel hfuel => ?_⟩
  obtain ⟨k, rfl, hk⟩ := fuel_behind hfuel
  obtain ⟨k, rfl⟩ := Nat.exists_eq_add_of_le' hk
  rw [← List.append_nil bks] at h
  obtain ⟨p', hp', hloop⟩ := kfreeLoop_skip be (k + 1) h hother
  obtain rfl : p' = 0 := hp'
  change kfreeLoop be pageAddr (k + 1 + bks.length) s p = _
  rw [hloop, kfreeLoop, if_neg (by simp)]

end Walks

/-! ### The steps of `doKfree` -/

section Kfree

variable {g : Globals} {s s₁ : State} {vaddr page : Nat} {size : U32} {m : Pmm} {f : Fault}

theorem freePages_small (h : ¬ PGSIZE ≤ size) : freePages s vaddr size = .ok s := by
  unfold freePages
  exact if_neg h

theorem freePages_large (h : PGSIZE ≤ size) (hpage : pageOf s vaddr = .ok page) :
    freePages s vaddr size = ffFreePages s.pmm page (pagesOf size) >>= fun m => .ok { s with pmm := m } := by
  unfold freePages
  rw [if_pos h, hpage, Res.ok_bind]
  rfl

theorem doKfree_error (hsize : size ≠ 0) (hvaddr : vaddr ≠ 0) (hfree : freePages s vaddr size = .error f) (fuel : Nat) :
    doKfree g fuel s vaddr size = .error f := by
  unfold doKfree
  rw [if_neg (not_or.mpr ⟨hsize, hvaddr⟩), hfree]
  rfl

theorem doKfree_eq (hsize : size ≠ 0) (hvaddr : vaddr ≠ 0) (hfree : freePages s vaddr size = .ok s₁)
    (hpage : pageOf s₁ vaddr = .ok page) (fuel : Nat) :
    doKfree g fuel s vaddr size =
      bucketHead g (getBucketSlot size.toInt) >>= fun bkHead => kfreeLoop vaddr (pageAddr page) fuel s₁ bkHead := by
  unfold doKfree
  rw [if_neg (not_or.mpr ⟨hsize, hvaddr⟩), hfree, Res.ok_bind, hpage, Res.ok_bind]

end Kfree

/-! ### The loop of `allocBucket` -/

/-- The loop takes a round for each 16 bytes, and the last one stores behind the page. -/
theorem carveLoop_last (pageEnd k : Nat) (s : State) (q p : Nat) (hp : p + sizeofBucket * k = pageEnd) :
    ∃ s', carveLoop pageEnd (k + 1) s q p = .ok s' ∧ s'.pmm = s.pmm ∧ (∀ w ∈ s.written, w ∈ s'.written) ∧
      (0 < k → ⟨nextField pageEnd, s.pmm⟩ ∈ s'.written) := by
  unfold sizeofBucket at hp
  induction k generalizing s q p with
  | zero =>
      refine ⟨s, ?_, rfl, fun w hw => hw, fun h => absurd h (Nat.lt_irrefl 0)⟩
      rw [carveLoop, if_neg (by omega)]
  | succ k ih =>
      let s₂ := (s.poke (nextField q) (p + 16)).poke (nextField (p + 16)) 0
      obtain ⟨s', hloop, hpmm, hkept, hlast⟩ := ih s₂ (p + 16) (p + 16) (by omega)
      refine ⟨s', ?_, hpmm, ?_, fun _ => ?_⟩
      · rw [carveLoop, if_pos (by omega)]
        exact hloop
      · intro w hw
        exact hkept w (List.mem_cons_of_mem _ (List.mem_cons_of_mem _ hw))
      · by_cases hk : 0 < k
        · exact hlast hk
        · have hend : p + 16 = pageEnd := by omega
          exact hkept _ (hend ▸ List.mem_cons_self)

/-- A page that is there. -/
theorem allocPages_ok {s s' : State} {n addr : Nat} (h : allocPages s n = .ok (addr, s')) :
    ∃ page, ffAllocPages s.pmm n = .ok (some page, s'.pmm) ∧ addr = pageAddr page ∧ s' = { s with pmm := s'.pmm } := by
  obtain ⟨⟨page, m⟩, hff, hsome⟩ := Res.bind_eq_ok.mp h
  cases page with
  | none => cases hsome
  | some page =>
      obtain ⟨rfl, rfl⟩ := Prod.mk.inj (Except.ok.inj hsome)
      exact ⟨page, hff, rfl, rfl⟩

/-- Without a spare descriptor `allocBucket` stores behind the page that it takes. -/
theorem carve_writes_behind {g : Globals} {s s' : State} {bk : Nat} (hempty : s.word (nextField g.bucketFreeList) = 0)
    (h : allocBucket g s = .ok (bk, s')) :
    ∃ page, ffAllocPages s.pmm 1 = .ok (some page, s'.pmm) ∧
      ⟨nextField (pageAddr (page + 1)), s'.pmm⟩ ∈ s'.written := by
  obtain ⟨s₁, hcarve, hret⟩ := Res.bind_eq_ok.mp h
  unfold carvePage at hcarve
  rw [if_pos hempty] at hcarve
  obtain ⟨⟨addr, s₀⟩, halloc, hloop⟩ := Res.bind_eq_ok.mp hcarve
  obtain ⟨page, hff, rfl, -⟩ := allocPages_ok halloc
  obtain ⟨s₂, hrun, hpmm, -, hlast⟩ := carveLoop_last (pageAddr page + 4096) 256 s₀ g.bucketFreeList (pageAddr page) rfl
  obtain rfl : s₂ = s₁ := Except.ok.inj (hrun.symm.trans hloop)
  obtain ⟨-, rfl⟩ := Prod.mk.inj (Except.ok.inj hret)
  have hend : pageAddr page + 4096 = pageAddr (page + 1) := by
    unfold pageAddr
    omega
  rw [hend] at hlast
  rw [State.poke_pmm, hpmm]
  exact ⟨page, hff, List.mem_cons_of_mem _ (hlast (by decide))⟩

/-! #### Stores are kept -/

theorem allocBucket_kept {g : Globals} {s s' : State} {bk : Nat} (h : allocBucket g s = .ok (bk, s')) :
    ∀ w ∈ s.written, w ∈ s'.written := by
  intro w hw
  obtain ⟨s₁, hcarve, hret⟩ := Res.bind_eq_ok.mp h
  obtain ⟨-, rfl⟩ := Prod.mk.inj (Except.ok.inj hret)
  refine List.mem_cons_of_mem _ ?_
  unfold carvePage at hcarve
  split at hcarve
  · obtain ⟨⟨addr, s₀⟩, halloc, hloop⟩ := Res.bind_eq_ok.mp hcarve
    obtain ⟨page, -, rfl, hs₀⟩ := allocPages_ok halloc
    obtain ⟨s₂, hrun, -, hkept, -⟩ := carveLoop_last (pageAddr page + 4096) 256 s₀ g.bucketFreeList (pageAddr page) rfl
    obtain rfl : s₂ = s₁ := Except.ok.inj (hrun.symm.trans hloop)
    refine hkept w ?_
    rw [hs₀]
    exact hw
  · exact Except.ok.inj hcarve ▸ hw

theorem linkRounds_kept (pageAddr size : Nat) (l : List Nat) (sq : State × Nat) :
    ∀ w ∈ sq.1.written, w ∈ (l.foldl (linkRound pageAddr size) sq).1.written := by
  induction l generalizing sq with
  | nil => exact fun w hw => hw
  | cons i l ih => exact fun w hw => ih _ w (List.mem_cons_of_mem _ (List.mem_cons_of_mem _ hw))

theorem initBucket_kept {s s' : State} {bk size : Nat} (h : initBucket s bk size = .ok s') :
    ∀ w ∈ s.written, w ∈ s'.written := by
  intro w hw
  obtain ⟨⟨addr, s₀⟩, halloc, hret⟩ := Res.bind_eq_ok.mp h
  obtain ⟨page, -, rfl, hs₀⟩ := allocPages_ok halloc
  obtain rfl := Except.ok.inj hret
  refine linkRounds_kept _ _ _ _ w (List.mem_cons_of_mem _ (List.mem_cons_of_mem _ (List.mem_cons_of_mem _ ?_)))
  rw [hs₀]
  exact hw

theorem kmallocLoop_kept {g : Globals} {bkHead size fuel p r : Nat} {s s' : State}
    (h : kmallocLoop g bkHead size fuel s p = .ok (r, s')) : ∀ w ∈ s.written, w ∈ s'.written := by
  intro w hw
  induction fuel generalizing s p with
  | zero => cases h
  | succ fuel ih =>
      unfold kmallocLoop at h
      split at h
      · dsimp only at h
        split at h
        · obtain ⟨-, rfl⟩ := Prod.mk.inj (Except.ok.inj h)
          exact List.mem_cons_of_mem _ hw
        · exact ih h hw
      · obtain ⟨⟨bk, s₁⟩, halloc, h⟩ := Res.bind_eq_ok.mp h
        obtain ⟨s₂, hinit, h⟩ := Res.bind_eq_ok.mp h
        have hkept := initBucket_kept hinit w (allocBucket_kept halloc w hw)
        exact ih h (List.mem_cons_of_mem _ (List.mem_cons_of_mem _ hkept))

/-- With no free block in the class and no spare descriptor `doKmalloc` stores behind the page that it takes for
descriptors. -/
theorem kmallocLoop_carves {g : Globals} {bkHead size fuel p r : Nat} {bks : List Nat} {s s' : State}
    (hwalk : Buckets s.word p bks) (hfull : ∀ bk ∈ bks, s.word (entryField bk) = 0)
    (hempty : s.word (nextField g.bucketFreeList) = 0) (h : kmallocLoop g bkHead size fuel s p = .ok (r, s')) :
    ∃ page m, ffAllocPages s.pmm 1 = .ok (some page, m) ∧ ⟨nextField (pageAddr (page + 1)), m⟩ ∈ s'.written := by
  induction bks generalizing fuel p with
  | nil =>
      obtain rfl : p = 0 := hwalk
      cases fuel with
      | zero => cases h
      | succ fuel =>
          rw [kmallocLoop, if_neg (by simp)] at h
          obtain ⟨⟨bk, s₁⟩, halloc, h⟩ := Res.bind_eq_ok.mp h
          obtain ⟨s₂, hinit, h⟩ := Res.bind_eq_ok.mp h
          obtain ⟨page, hff, hbehind⟩ := carve_writes_behind hempty halloc
          have hkept := initBucket_kept hinit _ hbehind
          exact ⟨page, s₁.pmm, hff, kmallocLoop_kept h _ (List.mem_cons_of_mem _ (List.mem_cons_of_mem _ hkept))⟩
  | cons bk bks ih =>
      obtain ⟨rfl, hne, hrest⟩ := hwalk
      cases fuel with
      | zero => cases h
      | succ fuel =>
          rw [kmallocLoop, if_pos hne, hfull p List.mem_cons_self, if_neg (by simp)] at h
          exact ih hrest (fun bk hbk => hfull bk (List.mem_cons_of_mem _ hbk)) h

end Bucket
end Memory
end FreakOS
