import FreakOS.Memory.Bucket

/-!
# Blocks, pages and descriptors of the bucket allocator

What the pages of the allocator are used for, and what follows for the blocks that are in use.

* `Good` — blocks are apart and inside pages that were obtained, and nothing is on a free list twice or in a block.
* `Shape` — what each page is used for, which descriptors are in use, and which entries are free.
* `Inv` — memory and the page allocator are as the shape says.
* `Inv.good` — the invariant is enough.
-/

namespace FreakOS
namespace Memory
namespace Bucket

open Lib

/-! ### Blocks -/

/-- A block that has been handed out: its address, and the size that was asked for. -/
structure Block where
  addr : Nat
  size : U32
deriving DecidableEq

/-- The class of a size below a page. -/
def classOf (size : U32) : Fin 8 := Fin.ofNat 8 (getBucketSlot size.toInt).toNat

/-- The bytes of a block of a size. -/
def roomOf (size : U32) : Nat := if PGSIZE ≤ size then 4096 * pagesOf size else classSize (classOf size)

/-- The bytes of a block. -/
def Block.extent (b : Block) : Extent := ⟨b.addr, b.addr + roomOf b.size⟩

/-- The allocator, the blocks that are in use, and the pages that it has from `allocPhyPages`. -/
structure System where
  state : State
  live : List Block
  obtained : Nat → Prop

/-- A call starts with no stores. -/
def System.call (sys : System) : State := { sys.state with written := [] }

/-- After a call. -/
def System.after (sys : System) (s : State) (live : List Block) : System where
  state := s
  live := live
  obtained := fun x => (sys.obtained x ∨ sys.state.pmm.Free x) ∧ ¬ s.pmm.Free x

/-- The bytes of `BucketTable` and of `BucketFreeList`. -/
def Globals.Contains (g : Globals) (a : Nat) : Prop :=
  (g.bucketTable ≤ a ∧ a < g.bucketTable + 128) ∨ (g.bucketFreeList ≤ a ∧ a < g.bucketFreeList + 16)

/-- The bytes of a page. -/
def InPage (x a : Nat) : Prop := pageAddr x ≤ a ∧ a < pageAddr x + 4096

/-- A store goes to one of the globals, or to a page that the allocator has then, and not into a block in use. -/
def WriteOk (g : Globals) (sys : System) (live : List Block) (w : Write) : Prop :=
  ∀ a, w.addr ≤ a → a < w.addr + 4 → g.Contains a ∨
    (∃ x, InPage x a ∧ (sys.obtained x ∨ sys.state.pmm.Free x) ∧ ¬ w.pmm.Free x) ∧
      ∀ b ∈ sys.live, b ∈ live → ¬ b.extent.Contains a

/-- A bucket of a class. -/
def IsBucket (g : Globals) (s : State) (i : Fin 8) (bk : Nat) : Prop :=
  ∃ bks, Buckets s.word (s.word (nextField (head g i))) bks ∧ bk ∈ bks

/-- The free entries of a bucket. -/
def FreeEntries (s : State) (bk : Nat) (entries : List Nat) : Prop := Listed s.word (s.word (entryField bk)) entries

/-- The block can be handed out again. -/
def Available (g : Globals) (s : State) (b : Block) : Prop :=
  ∃ bk entries, IsBucket g s (classOf b.size) bk ∧ FreeEntries s bk entries ∧ b.addr ∈ entries

/-- A descriptor, of a bucket or on `BucketFreeList`. -/
def IsDescriptor (g : Globals) (s : State) (bk : Nat) : Prop :=
  (∃ i, IsBucket g s i bk) ∨ ∃ bks, Buckets s.word (s.word (nextField g.bucketFreeList)) bks ∧ bk ∈ bks

/-- A byte in a page of the allocator, and not in a block in use. -/
def System.Own (sys : System) (a : Nat) : Prop :=
  (∃ x, InPage x a ∧ sys.obtained x ∧ ¬ sys.state.pmm.Free x) ∧ ∀ b ∈ sys.live, ¬ b.extent.Contains a

/-- What is to hold of the blocks. -/
structure Good (g : Globals) (sys : System) : Prop where
  apart : sys.live.Pairwise fun b c => b.extent.Apart c.extent
  holds : ∀ b ∈ sys.live, b.size.toNat ≤ roomOf b.size
  inside : ∀ b ∈ sys.live, ∀ a, b.extent.Contains a → ∃ x, InPage x a ∧ sys.obtained x ∧ ¬ sys.state.pmm.Free x
  descriptors : ∀ bk, IsDescriptor g sys.state bk → ∀ a, bk ≤ a → a < bk + sizeofBucket → sys.Own a
  once : ∀ i bk, IsBucket g sys.state i bk → ∃ entries, FreeEntries sys.state bk entries ∧ entries.Nodup ∧
    ∀ e ∈ entries, ∀ a, e ≤ a → a < e + 4 → sys.Own a
  one_list : ∀ i j bk bk' entries entries' e, IsBucket g sys.state i bk → IsBucket g sys.state j bk' →
    FreeEntries sys.state bk entries → FreeEntries sys.state bk' entries' → e ∈ entries → e ∈ entries' → bk = bk'

/-! ### Shapes -/

/-- What a page is used for. -/
inductive Role where
  | other
  /-- A page of descriptors. -/
  | descriptors
  /-- The page of the bucket of class `i` with descriptor `bk`. -/
  | bucket (i : Fin 8) (bk : Nat)
  /-- A page of the large block that starts at page `p`. -/
  | block (p : Nat)

/-- The pages, the descriptors and the free entries. -/
structure Shape where
  role : Nat → Role
  spare : List Nat
  used : Fin 8 → List Nat
  page : Nat → Nat
  free : Nat → List Nat

/-- Where the globals are. -/
structure Layout (g : Globals) (lo hi : Nat) : Prop where
  table_pos : 0 < g.bucketTable
  table_below : g.bucketTable + 128 ≤ pageAddr lo
  list_below : g.bucketFreeList + 16 ≤ pageAddr lo
  apart : g.bucketTable + 128 ≤ g.bucketFreeList ∨ g.bucketFreeList + 16 ≤ g.bucketTable
  top : hi ≤ 0x38000

namespace Shape

/-- A descriptor, in use or not. -/
def IsDesc (sh : Shape) (bk : Nat) : Prop := bk ∈ sh.spare ∨ ∃ i, bk ∈ sh.used i

/-- Where everything is. -/
structure Placed (sh : Shape) (lo hi : Nat) : Prop where
  range : ∀ x, sh.role x ≠ .other → lo ≤ x ∧ x < hi
  desc : ∀ bk, sh.IsDesc bk → ∃ x k, sh.role x = .descriptors ∧ k < 256 ∧ bk = pageAddr x + 16 * k
  unused : ∀ bk ∈ sh.spare, ∀ i, bk ∉ sh.used i
  page : ∀ i, ∀ bk ∈ sh.used i, sh.role (sh.page bk) = .bucket i bk
  bucket : ∀ x i bk, sh.role x = .bucket i bk → bk ∈ sh.used i ∧ sh.page bk = x
  entry : ∀ i, ∀ bk ∈ sh.used i, ∀ e ∈ sh.free bk,
    ∃ k < 4096 / classSize i, e = cell (pageAddr (sh.page bk)) (classSize i) k

/-- The links between the descriptors. -/
structure DescLinks (g : Globals) (word : Nat → Nat) (sh : Shape) : Prop where
  spare : Buckets word (word (nextField g.bucketFreeList)) sh.spare
  used : ∀ i, Buckets word (word (nextField (head g i))) (sh.used i)
  size : ∀ i, word (sizeField (head g i)) = classSize i
  heads : ∀ i, word (pageField (head g i)) = 0 ∧ word (entryField (head g i)) = 0
  page : ∀ i, ∀ bk ∈ sh.used i, word (pageField bk) = pageAddr (sh.page bk)

/-- The links between the free entries. -/
def FreeLinks (word : Nat → Nat) (sh : Shape) : Prop :=
  ∀ i, ∀ bk ∈ sh.used i, Listed word (word (entryField bk)) (sh.free bk)

/-- The blocks in use. -/
structure Holds (sh : Shape) (live : List Block) : Prop where
  pos : ∀ b ∈ live, b.size ≠ 0
  small : ∀ b ∈ live, b.size < PGSIZE → ∃ bk ∈ sh.used (classOf b.size), b.addr ∉ sh.free bk ∧
    ∃ k < 4096 / classSize (classOf b.size), b.addr = cell (pageAddr (sh.page bk)) (classSize (classOf b.size)) k
  large : ∀ b ∈ live, PGSIZE ≤ b.size → ∃ p, b.addr = pageAddr p ∧ 0 < pagesOf b.size ∧
    ∀ x, p ≤ x → x < p + pagesOf b.size → sh.role x = .block p
  addrs : (live.map Block.addr).Nodup

end Shape

/-- The invariant. -/
structure Inv (g : Globals) (lo hi : Nat) (sys : System) (sh : Shape) : Prop where
  layout : Layout g lo hi
  pmm : sys.state.pmm.Inv lo hi
  count : hi ≤ sys.state.pageCount
  owned : ∀ x, sh.role x ≠ .other → sys.obtained x
  obtained : ∀ x, sys.obtained x → ¬ sys.state.pmm.Free x
  placed : sh.Placed lo hi
  desc : sh.DescLinks g sys.state.word
  free : sh.FreeLinks sys.state.word
  holds : sh.Holds sys.live

/-- The allocator is as it is to be. -/
def WellFormed (g : Globals) (lo hi : Nat) (sys : System) : Prop := ∃ sh, Inv g lo hi sys sh

/-! ### Addresses -/

theorem inPage_unique {x y a : Nat} (hx : InPage x a) (hy : InPage y a) : x = y := by
  unfold InPage pageAddr at hx hy
  omega

/-- A cell is inside its page. -/
theorem cell_bounds (i : Fin 8) (x : Nat) {k : Nat} (hk : k < 4096 / classSize i) :
    pageAddr x ≤ cell (pageAddr x) (classSize i) k ∧
      cell (pageAddr x) (classSize i) k + classSize i ≤ pageAddr x + 4096 := by
  have hend : (k + 1) * classSize i ≤ 4096 := by
    calc (k + 1) * classSize i ≤ 4096 / classSize i * classSize i := Nat.mul_le_mul_right _ hk
      _ = 4096 := classSize_blocks i
  rw [Nat.succ_mul] at hend
  unfold cell
  omega

/-- Two cells do not overlap. -/
theorem cell_apart (pageAddr size : Nat) {j k : Nat} (hne : j ≠ k) :
    cell pageAddr size j + size ≤ cell pageAddr size k ∨ cell pageAddr size k + size ≤ cell pageAddr size j := by
  unfold cell
  rcases Nat.lt_or_gt_of_ne hne with hlt | hlt
  · have hle := Nat.mul_le_mul_right size (Nat.succ_le_of_lt hlt)
    rw [Nat.succ_mul] at hle
    omega
  · have hle := Nat.mul_le_mul_right size (Nat.succ_le_of_lt hlt)
    rw [Nat.succ_mul] at hle
    omega

theorem blocks_pos (i : Fin 8) : 0 < 4096 / classSize i := by
  revert i
  decide

theorem classSize_ge (i : Fin 8) : 32 ≤ classSize i := Nat.le_mul_of_pos_right 32 (Nat.two_pow_pos _)

/-! ### Sizes -/

section Sizes

variable {size : U32}

theorem small_iff : size < PGSIZE ↔ size.toNat < 4096 := BitVec.lt_def

theorem large_iff : PGSIZE ≤ size ↔ 4096 ≤ size.toNat := BitVec.le_def

theorem not_large (h : size < PGSIZE) : ¬ PGSIZE ≤ size := by
  rw [large_iff]
  exact Nat.not_le.mpr (small_iff.mp h)

theorem pos_of_ne (h : size ≠ 0) : 1 ≤ size.toNat := by
  by_contra hlt
  exact h (BitVec.eq_of_toNat_eq (by
    change size.toNat = 0
    omega))

/-- The index that is computed for a size up to a page. -/
theorem getBucketSlot_eq (hpos : size ≠ 0) (hle : size.toNat ≤ 4096) :
    getBucketSlot size.toInt = (classOf size).val ∧ size.toNat ≤ classSize (classOf size) := by
  have hint : size.toInt = (size.toNat : Int) := BitVec.toInt_eq_toNat_of_lt (by omega)
  obtain ⟨i, hslot, hfits⟩ := getBucketSlot_class (pos_of_ne hpos) hle
  have hclass : classOf size = i := by
    unfold classOf
    rw [hint, hslot]
    exact Fin.ofNat_val_eq_self i
  rw [hclass, hint]
  exact ⟨hslot, hfits⟩

theorem roomOf_small (h : size < PGSIZE) : roomOf size = classSize (classOf size) := by
  unfold roomOf
  rw [if_neg (not_large h)]

theorem roomOf_large (h : PGSIZE ≤ size) : roomOf size = 4096 * pagesOf size := by
  unfold roomOf
  rw [if_pos h]

/-- The block is large enough. -/
theorem le_roomOf (hpos : size ≠ 0) (hpages : PGSIZE ≤ size → 0 < pagesOf size) : size.toNat ≤ roomOf size := by
  by_cases hlarge : PGSIZE ≤ size
  · have hwrap := ((pagesOf_pos_iff size).mp (hpages hlarge)).2
    rw [roomOf_large hlarge, pagesOf_eq, if_pos hwrap]
    omega
  · have hsmall : size < PGSIZE := BitVec.not_le.mp hlarge
    rw [roomOf_small hsmall]
    exact (getBucketSlot_eq hpos (Nat.le_of_lt (small_iff.mp hsmall))).2

end Sizes

/-! ### What the invariant says about addresses -/

section Addresses

variable {g : Globals} {lo hi : Nat} {sys : System} {sh : Shape} {i : Fin 8} {bk e x a : Nat} {b c : Block}

theorem Block.contains_iff : b.extent.Contains a ↔ b.addr ≤ a ∧ a < b.addr + roomOf b.size := Iff.rfl

theorem Shape.IsDesc.of_used (h : bk ∈ sh.used i) : sh.IsDesc bk := .inr ⟨i, h⟩

/-- The bytes of a descriptor are in a page of descriptors. -/
theorem Shape.Placed.desc_page (h : sh.Placed lo hi) (hbk : sh.IsDesc bk) (hlo : bk ≤ a) (hhi : a < bk + sizeofBucket) :
    ∃ x, InPage x a ∧ sh.role x = .descriptors := by
  obtain ⟨x, k, hrole, hk, rfl⟩ := h.desc bk hbk
  refine ⟨x, ?_, hrole⟩
  unfold sizeofBucket at hhi
  unfold InPage
  omega

/-- The bytes of a free entry are in the page of its bucket. -/
theorem Shape.Placed.entry_page (h : sh.Placed lo hi) (hbk : bk ∈ sh.used i) (he : e ∈ sh.free bk) (hlo : e ≤ a)
    (hhi : a < e + 4) : InPage (sh.page bk) a := by
  obtain ⟨k, hk, rfl⟩ := h.entry i bk hbk e he
  have hbounds := cell_bounds i (sh.page bk) hk
  have hsize := classSize_ge i
  unfold InPage
  omega

/-- The bytes of a small block are in the page of a bucket of its class. -/
theorem Shape.Holds.small_page (h : sh.Holds sys.live) (hp : sh.Placed lo hi) (hb : b ∈ sys.live)
    (hsmall : b.size < PGSIZE) (ha : b.extent.Contains a) :
    ∃ bk ∈ sh.used (classOf b.size), InPage (sh.page bk) a ∧ sh.role (sh.page bk) = .bucket (classOf b.size) bk ∧
      ∀ e ∈ sh.free bk, ¬ (e ≤ a ∧ a < e + 4) := by
  obtain ⟨bk, hbk, hfree, k, hk, haddr⟩ := h.small b hb hsmall
  have hbounds := cell_bounds (classOf b.size) (sh.page bk) hk
  have hsize := classSize_ge (classOf b.size)
  rw [Block.contains_iff, roomOf_small hsmall, haddr] at ha
  refine ⟨bk, hbk, ?_, hp.page _ bk hbk, ?_⟩
  · unfold InPage
    omega
  · intro e he hin
    obtain ⟨k', hk', rfl⟩ := hp.entry _ bk hbk e he
    have hne : k ≠ k' := by
      rintro rfl
      exact hfree (haddr ▸ he)
    have hapart := cell_apart (pageAddr (sh.page bk)) (classSize (classOf b.size)) hne
    omega

/-- The bytes of a large block are in its pages. -/
theorem Shape.Holds.large_page (h : sh.Holds sys.live) (hb : b ∈ sys.live) (hlarge : PGSIZE ≤ b.size)
    (ha : b.extent.Contains a) : ∃ x p, InPage x a ∧ sh.role x = .block p ∧ b.addr = pageAddr p := by
  obtain ⟨p, haddr, -, hrole⟩ := h.large b hb hlarge
  rw [Block.contains_iff, roomOf_large hlarge, haddr] at ha
  refine ⟨p + (a - pageAddr p) / 4096, p, ?_, hrole _ (Nat.le_add_right _ _) (by omega), haddr⟩
  unfold InPage
  unfold pageAddr at ha ⊢
  omega

/-- A block in use is in pages that are used for blocks. -/
theorem Shape.Holds.page_role (h : sh.Holds sys.live) (hp : sh.Placed lo hi) (hb : b ∈ sys.live)
    (ha : b.extent.Contains a) : ∃ x, InPage x a ∧ ((∃ i bk, sh.role x = .bucket i bk) ∨ ∃ p, sh.role x = .block p) := by
  by_cases hlarge : PGSIZE ≤ b.size
  · obtain ⟨x, p, hin, hrole, -⟩ := h.large_page hb hlarge ha
    exact ⟨x, hin, .inr ⟨p, hrole⟩⟩
  · obtain ⟨bk, -, hin, hrole, -⟩ := h.small_page hp hb (BitVec.not_le.mp hlarge) ha
    exact ⟨_, hin, .inl ⟨_, bk, hrole⟩⟩

/-- The address of a block is in it. -/
theorem roomOf_pos (h : sh.Holds sys.live) (hb : b ∈ sys.live) : 0 < roomOf b.size := by
  by_cases hlarge : PGSIZE ≤ b.size
  · obtain ⟨p, -, hpages, -⟩ := h.large b hb hlarge
    rw [roomOf_large hlarge]
    omega
  · rw [roomOf_small (BitVec.not_le.mp hlarge)]
    exact classSize_pos _

/-- Two blocks with a byte in common have the same address. -/
theorem Shape.Holds.addr_eq (h : sh.Holds sys.live) (hp : sh.Placed lo hi) (hb : b ∈ sys.live) (hc : c ∈ sys.live)
    (hab : b.extent.Contains a) (hac : c.extent.Contains a) : b.addr = c.addr := by
  by_cases hlb : PGSIZE ≤ b.size
  · obtain ⟨x, p, hx, hrole, haddr⟩ := h.large_page hb hlb hab
    by_cases hlc : PGSIZE ≤ c.size
    · obtain ⟨y, q, hy, hrole', haddr'⟩ := h.large_page hc hlc hac
      obtain rfl := inPage_unique hx hy
      obtain rfl : p = q := Role.block.inj (hrole.symm.trans hrole')
      rw [haddr, haddr']
    · obtain ⟨bk, -, hy, hrole', -⟩ := h.small_page hp hc (BitVec.not_le.mp hlc) hac
      obtain rfl := inPage_unique hx hy
      cases hrole.symm.trans hrole'
  · have hsb : b.size < PGSIZE := BitVec.not_le.mp hlb
    obtain ⟨bk, hbk, -, k, hk, haddr⟩ := h.small b hb hsb
    obtain ⟨bk₁, hbk₁, hx, hrole, -⟩ := h.small_page hp hb hsb hab
    by_cases hlc : PGSIZE ≤ c.size
    · obtain ⟨y, q, hy, hrole', -⟩ := h.large_page hc hlc hac
      obtain rfl := inPage_unique hx hy
      cases hrole.symm.trans hrole'
    · have hsc : c.size < PGSIZE := BitVec.not_le.mp hlc
      obtain ⟨bk', hbk', -, k', hk', haddr'⟩ := h.small c hc hsc
      have hbounds := cell_bounds _ (sh.page bk) hk
      have hbounds' := cell_bounds _ (sh.page bk') hk'
      rw [Block.contains_iff, roomOf_small hsb, haddr] at hab
      rw [Block.contains_iff, roomOf_small hsc, haddr'] at hac
      -- The byte is in the pages of both buckets, so they are one.
      have hin : InPage (sh.page bk) a := ⟨by omega, by omega⟩
      have hin' : InPage (sh.page bk') a := ⟨by omega, by omega⟩
      have hpage : sh.page bk = sh.page bk' := inPage_unique hin hin'
      have hroles := (hp.page _ bk hbk).symm.trans (hpage ▸ hp.page _ bk' hbk')
      obtain ⟨hclass, rfl⟩ := Role.bucket.inj hroles
      rw [haddr, haddr', ← hclass]
      rw [← hclass] at hac
      by_cases hcell : k = k'
      · rw [hcell]
      · have hapart := cell_apart (pageAddr (sh.page bk)) (classSize (classOf b.size)) hcell
        omega

end Addresses

/-! ### What the invariant is for -/

section Goodness

variable {g : Globals} {lo hi : Nat} {sys : System} {sh : Shape} {i : Fin 8} {bk e x a : Nat} {b : Block}

theorem Inv.isBucket_iff (h : Inv g lo hi sys sh) : IsBucket g sys.state i bk ↔ bk ∈ sh.used i := by
  constructor
  · rintro ⟨bks, hbks, hmem⟩
    rwa [Listed.unique hbks (h.desc.used i)] at hmem
  · intro hmem
    exact ⟨sh.used i, h.desc.used i, hmem⟩

theorem Inv.isDescriptor_iff (h : Inv g lo hi sys sh) : IsDescriptor g sys.state bk ↔ sh.IsDesc bk := by
  constructor
  · rintro (⟨i, hbk⟩ | ⟨bks, hbks, hmem⟩)
    · exact .inr ⟨i, h.isBucket_iff.mp hbk⟩
    · rw [Listed.unique hbks h.desc.spare] at hmem
      exact .inl hmem
  · rintro (hmem | ⟨i, hmem⟩)
    · exact .inr ⟨sh.spare, h.desc.spare, hmem⟩
    · exact .inl ⟨i, h.isBucket_iff.mpr hmem⟩

theorem Inv.freeEntries_iff (h : Inv g lo hi sys sh) (hbk : bk ∈ sh.used i) {entries : List Nat} :
    FreeEntries sys.state bk entries ↔ entries = sh.free bk := by
  constructor
  · intro hentries
    exact Listed.unique hentries (h.free i bk hbk)
  · rintro rfl
    exact h.free i bk hbk

/-- A page that is used for something has been obtained. -/
theorem Inv.obtained_of_role (h : Inv g lo hi sys sh) (hrole : sh.role x ≠ .other) :
    sys.obtained x ∧ ¬ sys.state.pmm.Free x :=
  ⟨h.owned x hrole, h.obtained x (h.owned x hrole)⟩

/-- The bytes of descriptors are not in blocks. -/
theorem Inv.own_desc (h : Inv g lo hi sys sh) (hbk : sh.IsDesc bk) (hlo : bk ≤ a) (hhi : a < bk + sizeofBucket) :
    sys.Own a := by
  obtain ⟨x, hin, hrole⟩ := h.placed.desc_page hbk hlo hhi
  refine ⟨⟨x, hin, h.obtained_of_role (by rw [hrole]; nofun)⟩, fun b hb hcontains => ?_⟩
  obtain ⟨y, hy, hblock⟩ := h.holds.page_role h.placed hb hcontains
  obtain rfl := inPage_unique hin hy
  rcases hblock with ⟨i, bk', hrole'⟩ | ⟨p, hrole'⟩
  · cases hrole.symm.trans hrole'
  · cases hrole.symm.trans hrole'

/-- The links of free entries are not in blocks. -/
theorem Inv.own_entry (h : Inv g lo hi sys sh) (hbk : bk ∈ sh.used i) (he : e ∈ sh.free bk) (hlo : e ≤ a)
    (hhi : a < e + 4) : sys.Own a := by
  have hin := h.placed.entry_page hbk he hlo hhi
  have hrole := h.placed.page i bk hbk
  refine ⟨⟨_, hin, h.obtained_of_role (by rw [hrole]; nofun)⟩, fun b hb hcontains => ?_⟩
  by_cases hlarge : PGSIZE ≤ b.size
  · obtain ⟨y, p, hy, hrole', -⟩ := h.holds.large_page hb hlarge hcontains
    obtain rfl := inPage_unique hin hy
    cases hrole.symm.trans hrole'
  · obtain ⟨bk', -, hy, hrole', hfree⟩ := h.holds.small_page h.placed hb (BitVec.not_le.mp hlarge) hcontains
    have hpage := inPage_unique hin hy
    obtain ⟨-, rfl⟩ := Role.bucket.inj (hrole.symm.trans (hpage ▸ hrole'))
    exact hfree e he ⟨hlo, hhi⟩

/-- The blocks are apart. -/
theorem Inv.pairwise_apart (h : Inv g lo hi sys sh) : sys.live.Pairwise fun b c => b.extent.Apart c.extent := by
  refine (List.pairwise_map.mp h.holds.addrs).imp_of_mem ?_
  intro b c hb hc hne
  have hposb := roomOf_pos h.holds hb
  have hposc := roomOf_pos h.holds hc
  refine (Extent.apart_iff_disjoint ?_ ?_).mpr fun a hab hac => hne (h.holds.addr_eq h.placed hb hc hab hac)
  · exact Nat.lt_add_of_pos_right hposb
  · exact Nat.lt_add_of_pos_right hposc

theorem Inv.good (h : Inv g lo hi sys sh) : Good g sys := by
  refine ⟨h.pairwise_apart, ?_, ?_, ?_, ?_, ?_⟩
  · intro b hb
    refine le_roomOf (h.holds.pos b hb) fun hlarge => ?_
    obtain ⟨p, -, hpages, -⟩ := h.holds.large b hb hlarge
    exact hpages
  · intro b hb a ha
    obtain ⟨x, hin, hblock⟩ := h.holds.page_role h.placed hb ha
    refine ⟨x, hin, h.obtained_of_role ?_⟩
    rcases hblock with ⟨i, bk, hrole⟩ | ⟨p, hrole⟩
    · rw [hrole]
      nofun
    · rw [hrole]
      nofun
  · intro bk hbk a hlo hhi
    exact h.own_desc (h.isDescriptor_iff.mp hbk) hlo hhi
  · intro i bk hbk
    have hused := h.isBucket_iff.mp hbk
    have hlisted := h.free i bk hused
    exact ⟨sh.free bk, hlisted, hlisted.nodup, fun e he a hlo hhi => h.own_entry hused he hlo hhi⟩
  · intro i j bk bk' entries entries' e hbk hbk' hentries hentries' he he'
    have hused := h.isBucket_iff.mp hbk
    have hused' := h.isBucket_iff.mp hbk'
    rw [(h.freeEntries_iff hused).mp hentries] at he
    rw [(h.freeEntries_iff hused').mp hentries'] at he'
    -- The entry is in the pages of both.
    have hpage := inPage_unique (h.placed.entry_page hused he le_rfl (Nat.lt_add_of_pos_right (by decide)))
      (h.placed.entry_page hused' he' le_rfl (Nat.lt_add_of_pos_right (by decide)))
    have hroles := (h.placed.page i bk hused).symm.trans (hpage ▸ h.placed.page j bk' hused')
    exact (Role.bucket.inj hroles).2

end Goodness

end Bucket
end Memory
end FreakOS
