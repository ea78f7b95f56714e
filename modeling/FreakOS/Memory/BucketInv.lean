import FreakOS.Memory.BucketShape

/-!
# What the bucket allocator does to its pages

The changes that `doKmalloc` and `doKfree` make to memory, as changes of the shape.

* `Inv.pop`, `Inv.push` — a free entry becomes a block, and a block becomes a free entry.
* `Inv.large` — pages become a block.
* `refill_calls` — what `allocBucket` and `initBucket` write for a new bucket.
* `Inv.refill` — a descriptor and a page become a bucket.
-/

namespace FreakOS
namespace Memory
namespace Bucket

open Lib

/-! ### Stores to free lists -/

/-- Other free entries for a bucket. -/
def Shape.setFree (sh : Shape) (bk : Nat) (entries : List Nat) : Shape :=
  { sh with free := Function.update sh.free bk entries }

section Stores

variable {g : Globals} {lo hi : Nat} {sys : System} {sh : Shape} {i : Fin 8} {bk bk' e x a : Nat} {b : Block}
  {word word' : Nat → Nat} {entries : List Nat}

theorem Globals.contains_head (g : Globals) (i : Fin 8) {off : Nat} (hoff : off < 16) :
    g.Contains (head g i + off) := by
  have hlt := i.isLt
  unfold Globals.Contains head sizeofBucket
  omega

theorem Globals.contains_list (g : Globals) : g.Contains (nextField g.bucketFreeList) := by
  unfold Globals.Contains nextField
  omega

/-- The globals are below the pages. -/
theorem Layout.below (h : Layout g lo hi) (ha : g.Contains a) : a < pageAddr lo := by
  have htable := h.table_below
  have hlist := h.list_below
  unfold Globals.Contains at ha
  omega

theorem Shape.Placed.desc_bounds (h : sh.Placed lo hi) (hbk : sh.IsDesc bk) : pageAddr lo ≤ bk ∧ bk % 16 = 0 := by
  obtain ⟨x, k, hrole, hk, rfl⟩ := h.desc bk hbk
  have hrange := h.range x (by rw [hrole]; nofun)
  unfold pageAddr
  omega

/-- A word in a page that is not for descriptors is none of the words of a descriptor. -/
theorem Shape.Placed.ne_field (h : sh.Placed lo hi) (hbk : sh.IsDesc bk) (hin : InPage x a)
    (hrole : sh.role x ≠ .descriptors) {off : Nat} (hoff : off < 16) : a ≠ bk + off := by
  rintro rfl
  obtain ⟨y, hy, hdesc⟩ := h.desc_page hbk (Nat.le_add_right bk off) (Nat.add_lt_add_left hoff bk)
  obtain rfl := inPage_unique hin hy
  exact hrole hdesc

/-- A word of a global is not in the page of a bucket. -/
theorem Shape.Placed.page_above (h : sh.Placed lo hi) (hbk : bk ∈ sh.used i) (hin : InPage (sh.page bk) a) :
    pageAddr lo ≤ a := by
  have hrange := h.range (sh.page bk) (by rw [h.page i bk hbk]; nofun)
  unfold InPage pageAddr at hin
  unfold pageAddr
  omega

/-- The links between the descriptors depend on the globals and on the words `next` and `page` of the descriptors. -/
theorem Shape.DescLinks.congr (h : sh.DescLinks g word) (hglobal : ∀ a, g.Contains a → word' a = word a)
    (hnext : ∀ bk, sh.IsDesc bk → word' (nextField bk) = word (nextField bk))
    (hpage : ∀ bk, sh.IsDesc bk → word' (pageField bk) = word (pageField bk)) : sh.DescLinks g word' := by
  have hsize : ∀ i, word' (sizeField (head g i)) = word (sizeField (head g i)) := fun i =>
    hglobal _ (g.contains_head i (by decide : 0 < 16))
  have hheadPage : ∀ i, word' (pageField (head g i)) = word (pageField (head g i)) := fun i =>
    hglobal _ (g.contains_head i (by decide : 4 < 16))
  have hheadNext : ∀ i, word' (nextField (head g i)) = word (nextField (head g i)) := fun i =>
    hglobal _ (g.contains_head i (by decide : 8 < 16))
  have hheadEntry : ∀ i, word' (entryField (head g i)) = word (entryField (head g i)) := fun i =>
    hglobal _ (g.contains_head i (by decide : 12 < 16))
  refine ⟨?_, ?_, ?_, ?_, ?_⟩
  · rw [hglobal _ g.contains_list]
    exact h.spare.congr fun bk hbk => hnext bk (.inl hbk)
  · intro i
    rw [hheadNext]
    exact (h.used i).congr fun bk hbk => hnext bk (.inr ⟨i, hbk⟩)
  · intro i
    rw [hsize]
    exact h.size i
  · intro i
    rw [hheadPage, hheadEntry]
    exact h.heads i
  · intro i bk hbk
    rw [hpage bk (.inr ⟨i, hbk⟩)]
    exact h.page i bk hbk

/-- The free lists of all buckets but one stay. -/
theorem Shape.FreeLinks.setFree (h : sh.FreeLinks word)
    (hother : ∀ i, ∀ bk' ∈ sh.used i, bk' ≠ bk →
      word' (entryField bk') = word (entryField bk') ∧ ∀ e ∈ sh.free bk', word' e = word e)
    (hself : Listed word' (word' (entryField bk)) entries) : (sh.setFree bk entries).FreeLinks word' := by
  intro i bk' hbk'
  change Listed word' (word' (entryField bk')) (Function.update sh.free bk entries bk')
  by_cases hne : bk' = bk
  · subst hne
    rw [Function.update_self]
    exact hself
  · obtain ⟨hentry, hsame⟩ := hother i bk' hbk' hne
    rw [Function.update_of_ne hne, hentry]
    exact (h i bk' hbk').congr hsame

theorem Shape.Placed.setFree (h : sh.Placed lo hi)
    (hentries : ∀ i, bk ∈ sh.used i → ∀ e ∈ entries, ∃ k < 4096 / classSize i,
      e = cell (pageAddr (sh.page bk)) (classSize i) k) : (sh.setFree bk entries).Placed lo hi := by
  refine ⟨h.range, h.desc, h.unused, h.page, h.bucket, ?_⟩
  intro i bk' hbk' e he
  change e ∈ Function.update sh.free bk entries bk' at he
  by_cases hne : bk' = bk
  · subst hne
    rw [Function.update_self] at he
    exact hentries i hbk' e he
  · rw [Function.update_of_ne hne] at he
    exact h.entry i bk' hbk' e he

/-- Entries of two buckets are in different pages. -/
theorem Shape.Placed.entry_ne (h : sh.Placed lo hi) {j : Fin 8} (hbk : bk ∈ sh.used i) (hbk' : bk' ∈ sh.used j)
    (hne : bk' ≠ bk) (hin : InPage (sh.page bk) a) (he : e ∈ sh.free bk') : e ≠ a := by
  rintro rfl
  have hpage := inPage_unique hin (h.entry_page hbk' he le_rfl (Nat.lt_add_of_pos_right (by decide)))
  have hroles := (h.page i bk hbk).symm.trans (hpage ▸ h.page j bk' hbk')
  exact hne (Role.bucket.inj hroles).2.symm

end Stores

/-! ### A new bucket -/

/-- What `doKmalloc` has done when it has a new bucket, with a descriptor `bk` and a page `p`. -/
structure Refilled (g : Globals) (i : Fin 8) (bk p : Nat) (m : Pmm) (s s' : State) : Prop where
  pmm : s'.pmm = m
  pageCount : s'.pageCount = s.pageCount
  list : s'.word (nextField g.bucketFreeList) = s.word (nextField bk)
  page : s'.word (pageField bk) = pageAddr p
  entry : s'.word (entryField bk) = pageAddr p
  next : s'.word (nextField bk) = s.word (nextField (head g i))
  headNext : s'.word (nextField (head g i)) = bk
  cells : Listed s'.word (pageAddr p) ((List.range (4096 / classSize i)).map (cell (pageAddr p) (classSize i)))
  others : ∀ a, a ≠ nextField g.bucketFreeList → a ≠ nextField (head g i) → (a < bk ∨ bk + 16 ≤ a) → ¬ InPage p a →
    s'.word a = s.word a
  written : ∀ w ∈ s'.written, w ∈ s.written ∨ w.addr = nextField g.bucketFreeList ∨ w.addr = nextField (head g i) ∨
    (w.pmm = m ∧ ((bk ≤ w.addr ∧ w.addr + 4 ≤ bk + 16) ∨
      ∃ k < 4096 / classSize i, w.addr = cell (pageAddr p) (classSize i) k))

/-- The globals, the descriptor and the page do not overlap. -/
structure RefillApart (g : Globals) (i : Fin 8) (bk p : Nat) : Prop where
  heads : g.bucketFreeList + 16 ≤ head g i ∨ head g i + 16 ≤ g.bucketFreeList
  list_bk : g.bucketFreeList + 16 ≤ bk
  head_bk : head g i + 16 ≤ bk
  list_page : g.bucketFreeList + 16 ≤ pageAddr p
  head_page : head g i + 16 ≤ pageAddr p
  page_bk : bk + 16 ≤ pageAddr p ∨ pageAddr p + 4096 ≤ bk

theorem field_inside (bk off : Nat) (hoff : off ≤ 12) : bk ≤ bk + off ∧ bk + off + 4 ≤ bk + 16 := by omega

theorem cell_inPage {i : Fin 8} {p k : Nat} (hk : k < 4096 / classSize i) :
    InPage p (cell (pageAddr p) (classSize i) k) := by
  have hbounds := cell_bounds i p hk
  have hsize := classSize_pos i
  unfold InPage
  omega

/-- The calls of `allocBucket` and `initBucket` where a descriptor and a page are there. -/
theorem refill_calls (g : Globals) (i : Fin 8) {s : State} {bk p : Nat} {m : Pmm}
    (hlist : s.word (nextField g.bucketFreeList) = bk) (hne : bk ≠ 0) (halloc : ffAllocPages s.pmm 1 = .ok (some p, m))
    (hapart : RefillApart g i bk p) :
    ∃ s₁ s₂, allocBucket g s = .ok (bk, s₁) ∧ initBucket s₁ bk (classSize i) = .ok s₂ ∧
      Refilled g i bk p m s
        ((s₂.poke (nextField bk) (s₂.word (nextField (head g i)))).poke (nextField (head g i)) bk) := by
  obtain ⟨hheads, hlistBk, hheadBk, hlistPage, hheadPage, hpageBk⟩ := hapart
  let s₁ : State := s.poke (nextField g.bucketFreeList) (s.word (nextField bk))
  let s₃ : State := ((({ s₁ with pmm := m } : State).poke (pageField bk) (pageAddr p)).poke (sizeField bk)
    (classSize i)).poke (entryField bk) (pageAddr p)
  have hfirst : allocBucket g s = .ok (bk, s₁) := by
    unfold allocBucket carvePage
    rw [if_neg (hlist ▸ hne), Res.ok_bind, hlist]
    rfl
  have hinit : initBucket s₁ bk (classSize i) =
      .ok ((List.range (4096 / classSize i)).foldl (linkRound (pageAddr p) (classSize i)) (s₃, pageAddr p)).1 := by
    unfold initBucket allocPages
    change (ffAllocPages s.pmm 1 >>= _) >>= _ = _
    rw [halloc]
    rfl
  have hlink := linkRounds_spec (pageAddr p) (classSize_pos i) s₃ (4096 / classSize i)
  revert hlink hinit
  generalize ((List.range (4096 / classSize i)).foldl (linkRound (pageAddr p) (classSize i)) (s₃, pageAddr p)) = r
  intro hinit hlink
  refine ⟨s₁, r.1, hfirst, hinit, ?_⟩
  -- Outside of the page the loop of `initBucket` changes nothing.
  have hout : ∀ a, ¬ InPage p a → r.1.word a = s₃.word a := fun a ha =>
    hlink.others a fun k hk heq => ha (heq ▸ cell_inPage hk)
  have hnotin : ∀ a, a < pageAddr p ∨ pageAddr p + 4096 ≤ a → ¬ InPage p a := by
    intro a ha hin
    unfold InPage at hin
    omega
  have hword₃ : s₃.word = Function.update (Function.update (Function.update (Function.update s.word
      (nextField g.bucketFreeList) (s.word (nextField bk))) (pageField bk) (pageAddr p)) (sizeField bk) (classSize i))
      (entryField bk) (pageAddr p) := rfl
  unfold nextField pageField sizeField entryField at hword₃
  have hhead : r.1.word (nextField (head g i)) = s.word (nextField (head g i)) := by
    unfold nextField
    rw [hout _ (hnotin _ (by omega)), hword₃, Function.update_of_ne (by omega), Function.update_of_ne (by omega),
      Function.update_of_ne (by omega), Function.update_of_ne (by omega)]
  refine ⟨hlink.pmm, hlink.pageCount, ?_, ?_, ?_, ?_, ?_, ?_, ?_, ?_⟩
  · unfold nextField
    rw [State.poke_word, Function.update_of_ne (by omega), State.poke_word, Function.update_of_ne (by omega),
      hout _ (hnotin _ (by omega)), hword₃, Function.update_of_ne (by omega), Function.update_of_ne (by omega),
      Function.update_of_ne (by omega), Function.update_self]
  · unfold nextField pageField
    rw [State.poke_word, Function.update_of_ne (by omega), State.poke_word, Function.update_of_ne (by omega),
      hout _ (hnotin _ (by omega)), hword₃, Function.update_of_ne (by omega), Function.update_of_ne (by omega),
      Function.update_self]
  · unfold nextField entryField
    rw [State.poke_word, Function.update_of_ne (by omega), State.poke_word, Function.update_of_ne (by omega),
      hout _ (hnotin _ (by omega)), hword₃, Function.update_self]
  · have hdiff : nextField bk ≠ nextField (head g i) := by
      unfold nextField
      omega
    rw [State.poke_word, Function.update_of_ne hdiff, State.poke_word, Function.update_self, hhead]
  · rw [State.poke_word, Function.update_self]
  · have hpos : 0 < pageAddr p := by omega
    refine (hlink.listed (blocks_pos i) hpos).congr fun a ha => ?_
    obtain ⟨k, hk, rfl⟩ := List.mem_map.mp ha
    have hin := cell_inPage (i := i) (p := p) (List.mem_range.mp hk)
    unfold InPage at hin
    unfold nextField
    rw [State.poke_word, Function.update_of_ne (by omega), State.poke_word, Function.update_of_ne (by omega)]
  · intro a hlistA hheadA hbkA hpageA
    unfold nextField at hlistA hheadA ⊢
    rw [State.poke_word, Function.update_of_ne hheadA, State.poke_word, Function.update_of_ne (by omega), hout a hpageA,
      hword₃, Function.update_of_ne (by omega), Function.update_of_ne (by omega), Function.update_of_ne (by omega),
      Function.update_of_ne hlistA]
  · intro w hw
    have hr : r.1.pmm = m := hlink.pmm
    rw [State.poke_written, State.poke_written, State.poke_pmm, hr] at hw
    rcases List.mem_cons.mp hw with rfl | hw
    · exact .inr (.inr (.inl rfl))
    rcases List.mem_cons.mp hw with rfl | hw
    · exact .inr (.inr (.inr ⟨rfl, .inl (field_inside bk 8 (by decide))⟩))
    rcases hlink.written w hw with hold | ⟨hpmm, hcells⟩
    · have hstores : s₃.written = ⟨entryField bk, m⟩ :: ⟨sizeField bk, m⟩ :: ⟨pageField bk, m⟩ ::
          ⟨nextField g.bucketFreeList, s.pmm⟩ :: s.written := rfl
      rw [hstores] at hold
      rcases List.mem_cons.mp hold with rfl | hold
      · exact .inr (.inr (.inr ⟨rfl, .inl (field_inside bk 12 (by decide))⟩))
      rcases List.mem_cons.mp hold with rfl | hold
      · exact .inr (.inr (.inr ⟨rfl, .inl (field_inside bk 0 (by decide))⟩))
      rcases List.mem_cons.mp hold with rfl | hold
      · exact .inr (.inr (.inr ⟨rfl, .inl (field_inside bk 4 (by decide))⟩))
      rcases List.mem_cons.mp hold with rfl | hold
      · exact .inr (.inl rfl)
      · exact .inl hold
    · exact .inr (.inr (.inr ⟨hpmm, .inr hcells⟩))

/-! ### The operations on memory -/

section Operations

variable {g : Globals} {lo hi : Nat} {sys : System} {sh : Shape} {i : Fin 8} {bk e : Nat} {b : Block} {es : List Nat}
  {s' : State} {size : U32}

/-- The words of `entry` are no other words of descriptors, and no globals. -/
theorem Inv.desc_of_entry (h : Inv g lo hi sys sh) (hbk : bk ∈ sh.used i) {word' : Nat → Nat}
    (hsame : ∀ a, a ≠ entryField bk → (∀ x, InPage x a → sh.role x = .bucket i bk → False) →
      word' a = sys.state.word a) : sh.DescLinks g word' := by
  have hbounds := h.placed.desc_bounds (.of_used hbk)
  have hfield : ∀ bk', sh.IsDesc bk' → ∀ off < 16, ∀ x, InPage x (bk' + off) → sh.role x = .bucket i bk → False := by
    intro bk' hbk' off hoff x hin hrole
    exact h.placed.ne_field hbk' hin (by rw [hrole]; nofun) hoff rfl
  refine h.desc.congr (fun a ha => ?_) (fun bk' hbk' => ?_) (fun bk' hbk' => ?_)
  · have hbelow := h.layout.below ha
    refine hsame a ?_ fun x hin hrole => ?_
    · unfold entryField
      omega
    · have hrange := h.placed.range x (by rw [hrole]; nofun)
      unfold InPage pageAddr at hin
      unfold pageAddr at hbelow
      omega
  · have hbounds' := h.placed.desc_bounds hbk'
    refine hsame _ ?_ (hfield bk' hbk' 8 (by decide))
    unfold nextField entryField
    omega
  · have hbounds' := h.placed.desc_bounds hbk'
    refine hsame _ ?_ (hfield bk' hbk' 4 (by decide))
    unfold pageField entryField
    omega

/-- The words `entry` of two descriptors. -/
theorem entryField_ne {bk bk' : Nat} (hne : bk' ≠ bk) : entryField bk' ≠ entryField bk := by
  unfold entryField
  omega

/-- A free entry is handed out. -/
theorem Inv.pop (h : Inv g lo hi sys sh) (hpos : size ≠ 0) (hsmall : size < PGSIZE)
    (hbk : bk ∈ sh.used (classOf size)) (hfree : sh.free bk = e :: es)
    (hword : s'.word = Function.update sys.state.word (entryField bk) (sys.state.word e))
    (hpmm : s'.pmm = sys.state.pmm) (hcount : s'.pageCount = sys.state.pageCount) :
    Inv g lo hi ⟨s', ⟨e, size⟩ :: sys.live, sys.obtained⟩ (sh.setFree bk es) := by
  have hlisted : Listed sys.state.word (sys.state.word (entryField bk)) (e :: es) := hfree ▸ h.free _ bk hbk
  have hnodup : e ∉ es := (List.nodup_cons.mp hlisted.nodup).1
  have he : e ∈ sh.free bk := hfree ▸ List.mem_cons_self
  have hentry : ∀ e' ∈ es, e' ∈ sh.free bk := fun e' he' => hfree ▸ List.mem_cons_of_mem e he'
  -- No free entry is a word of a descriptor.
  have hne : ∀ {i : Fin 8} {bk' e' : Nat}, bk' ∈ sh.used i → e' ∈ sh.free bk' → e' ≠ entryField bk := by
    intro i bk' e' hbk' he'
    exact h.placed.ne_field (.of_used hbk) (h.placed.entry_page hbk' he' le_rfl (Nat.lt_add_of_pos_right (by decide)))
      (by rw [h.placed.page i bk' hbk']; nofun) (by decide)
  refine ⟨h.layout, hpmm ▸ h.pmm, hcount ▸ h.count, h.owned, fun x hx => hpmm ▸ h.obtained x hx, ?_, ?_, ?_, ?_⟩
  · refine h.placed.setFree fun i hbk' e' he' => ?_
    exact h.placed.entry i bk hbk' e' (hentry e' he')
  · have hdesc : sh.DescLinks g s'.word := by
      refine h.desc_of_entry hbk fun a ha _ => ?_
      rw [hword, Function.update_of_ne ha]
    exact ⟨hdesc.spare, hdesc.used, hdesc.size, hdesc.heads, hdesc.page⟩
  · refine h.free.setFree (fun i bk' hbk' hother => ⟨?_, fun e' he' => ?_⟩) ?_
    · rw [hword, Function.update_of_ne (entryField_ne hother)]
    · rw [hword, Function.update_of_ne (hne hbk' he')]
    · rw [hword, Function.update_self]
      refine hlisted.2.2.congr fun e' he' => ?_
      rw [Function.update_of_ne (hne hbk (hentry e' he'))]
  · have hnew : ∀ b ∈ sys.live, b.addr ≠ e := by
      intro b hb heq
      have hroom := roomOf_pos h.holds hb
      refine (h.own_entry hbk he le_rfl (Nat.lt_add_of_pos_right (by decide))).2 b hb ?_
      rw [Block.contains_iff]
      omega
    refine ⟨?_, ?_, ?_, ?_⟩
    · intro b hb
      rcases List.mem_cons.mp hb with rfl | hb
      · exact hpos
      · exact h.holds.pos b hb
    · intro b hb hsmall'
      rcases List.mem_cons.mp hb with rfl | hb
      · refine ⟨bk, hbk, ?_, h.placed.entry _ bk hbk e he⟩
        change e ∉ Function.update sh.free bk es bk
        rw [Function.update_self]
        exact hnodup
      · obtain ⟨bk', hbk', hnotfree, hcell⟩ := h.holds.small b hb hsmall'
        refine ⟨bk', hbk', ?_, hcell⟩
        change b.addr ∉ Function.update sh.free bk es bk'
        by_cases hother : bk' = bk
        · subst hother
          rw [Function.update_self]
          exact fun hmem => hnotfree (hentry _ hmem)
        · rwa [Function.update_of_ne hother]
    · intro b hb hlarge
      rcases List.mem_cons.mp hb with rfl | hb
      · exact absurd hlarge (not_large hsmall)
      · exact h.holds.large b hb hlarge
    · rw [List.map_cons]
      refine List.nodup_cons.mpr ⟨fun hmem => ?_, h.holds.addrs⟩
      obtain ⟨b, hb, heq⟩ := List.mem_map.mp hmem
      exact hnew b hb heq

/-- A block is put on the free list of its bucket. -/
theorem Inv.push (h : Inv g lo hi sys sh) (hb : b ∈ sys.live) (hbk : bk ∈ sh.used i)
    (hnotfree : b.addr ∉ sh.free bk)
    (hcell : ∃ k < 4096 / classSize i, b.addr = cell (pageAddr (sh.page bk)) (classSize i) k)
    (hword : s'.word = Function.update (Function.update sys.state.word b.addr (sys.state.word (entryField bk)))
      (entryField bk) b.addr)
    (hpmm : s'.pmm = sys.state.pmm) (hcount : s'.pageCount = sys.state.pageCount) :
    Inv g lo hi ⟨s', sys.live.erase b, sys.obtained⟩ (sh.setFree bk (b.addr :: sh.free bk)) := by
  have hin : InPage (sh.page bk) b.addr := by
    obtain ⟨k, hk, haddr⟩ := hcell
    have hbounds := cell_bounds i (sh.page bk) hk
    have hsize := classSize_pos i
    unfold InPage
    omega
  have hrole := h.placed.page i bk hbk
  have haddr : b.addr ≠ entryField bk := h.placed.ne_field (.of_used hbk) hin (by rw [hrole]; nofun) (by decide)
  have hne : ∀ {i : Fin 8} {bk' e' : Nat}, bk' ∈ sh.used i → e' ∈ sh.free bk' → e' ≠ entryField bk := by
    intro i bk' e' hbk' he'
    exact h.placed.ne_field (.of_used hbk) (h.placed.entry_page hbk' he' le_rfl (Nat.lt_add_of_pos_right (by decide)))
      (by rw [h.placed.page i bk' hbk']; nofun) (by decide)
  -- The other blocks have other addresses.
  have hother : ∀ c ∈ sys.live.erase b, c ∈ sys.live ∧ c.addr ≠ b.addr := by
    intro c hc
    have hlive : sys.live.Nodup := h.holds.addrs.of_map _
    obtain ⟨hcb, hc⟩ := hlive.mem_erase_iff.mp hc
    exact ⟨hc, fun heq => hcb (List.inj_on_of_nodup_map h.holds.addrs hc hb heq)⟩
  refine ⟨h.layout, hpmm ▸ h.pmm, hcount ▸ h.count, h.owned, fun x hx => hpmm ▸ h.obtained x hx, ?_, ?_, ?_, ?_⟩
  · refine h.placed.setFree fun j hbk' e he => ?_
    have hclass : j = i := (Role.bucket.inj ((h.placed.page j bk hbk').symm.trans hrole)).1
    rcases List.mem_cons.mp he with rfl | he
    · exact hclass ▸ hcell
    · exact h.placed.entry j bk hbk' e he
  · have hdesc : sh.DescLinks g s'.word := by
      refine h.desc_of_entry hbk fun a ha hpage => ?_
      have hne' : a ≠ b.addr := by
        rintro rfl
        exact hpage _ hin hrole
      rw [hword, Function.update_of_ne ha, Function.update_of_ne hne']
    exact ⟨hdesc.spare, hdesc.used, hdesc.size, hdesc.heads, hdesc.page⟩
  · refine h.free.setFree (fun j bk' hbk' hdiff => ⟨?_, fun e he => ?_⟩) ?_
    · have hfield : entryField bk' ≠ b.addr :=
        (h.placed.ne_field (.of_used hbk') hin (by rw [hrole]; nofun) (by decide)).symm
      rw [hword, Function.update_of_ne (entryField_ne hdiff), Function.update_of_ne hfield]
    · rw [hword, Function.update_of_ne (hne hbk' he),
        Function.update_of_ne (h.placed.entry_ne hbk hbk' hdiff hin he)]
    · rw [hword, Function.update_self]
      refine (h.free i bk hbk).push ?_ ?_ fun e he => ?_
      · have hpage := h.placed.page_above hbk hin
        unfold pageAddr at hpage
        omega
      · rw [Function.update_of_ne haddr, Function.update_self]
      · have hdiff : e ≠ b.addr := fun heq => hnotfree (heq ▸ he)
        rw [Function.update_of_ne (hne hbk he), Function.update_of_ne hdiff]
  · refine ⟨fun c hc => h.holds.pos c (hother c hc).1, ?_, fun c hc => h.holds.large c (hother c hc).1, ?_⟩
    · intro c hc hsmall
      obtain ⟨hlive, haddrne⟩ := hother c hc
      obtain ⟨bk', hbk', hfree', hcell'⟩ := h.holds.small c hlive hsmall
      refine ⟨bk', hbk', ?_, hcell'⟩
      change c.addr ∉ Function.update sh.free bk (b.addr :: sh.free bk) bk'
      by_cases hsame : bk' = bk
      · subst hsame
        rw [Function.update_self]
        exact fun hmem => (List.mem_cons.mp hmem).elim haddrne hfree'
      · rwa [Function.update_of_ne hsame]
    · exact h.holds.addrs.sublist ((List.erase_sublist).map Block.addr)

/-- The pages that are handed out were used for nothing. -/
theorem Inv.role_of_free (h : Inv g lo hi sys sh) {x : Nat} (hfree : sys.state.pmm.Free x) : sh.role x = .other := by
  by_contra hrole
  exact (h.obtained_of_role hrole).2 hfree

/-- The pages of a large block. -/
def Shape.setBlock (sh : Shape) (p n : Nat) : Shape :=
  { sh with role := fun x => if p ≤ x ∧ x < p + n then .block p else sh.role x }

theorem Shape.setBlock_old {p n x : Nat} (hx : ¬ (p ≤ x ∧ x < p + n)) : (sh.setBlock p n).role x = sh.role x :=
  if_neg hx

theorem Shape.setBlock_new {p n x : Nat} (hx : p ≤ x ∧ x < p + n) : (sh.setBlock p n).role x = .block p := if_pos hx

/-- A large block is handed out. -/
theorem Inv.large (h : Inv g lo hi sys sh) {p : Nat} {m : Pmm} (hpos : size ≠ 0) (hlarge : PGSIZE ≤ size)
    (hpages : 0 < pagesOf size) (hspec : AllocSpec sys.state.pmm lo hi (pagesOf size) p m)
    (hword : s'.word = sys.state.word) (hpmm : s'.pmm = m) (hcount : s'.pageCount = sys.state.pageCount) :
    Inv g lo hi ⟨s', ⟨pageAddr p, size⟩ :: sys.live,
      fun x => sys.obtained x ∨ (p ≤ x ∧ x < p + pagesOf size)⟩ (sh.setBlock p (pagesOf size)) := by
  have hnew : ∀ x, p ≤ x ∧ x < p + pagesOf size → sh.role x = .other := fun x hx =>
    h.role_of_free ((hspec.free x).mpr (.inr hx))
  have hkeep : ∀ x role, sh.role x = role → role ≠ .other → (sh.setBlock p (pagesOf size)).role x = role := by
    intro x role hrole hne
    rw [Shape.setBlock_old fun hx => hne (hrole ▸ hnew x hx), hrole]
  have hback : ∀ x role, (sh.setBlock p (pagesOf size)).role x = role → role ≠ .block p → sh.role x = role := by
    intro x role hrole hne
    by_cases hx : p ≤ x ∧ x < p + pagesOf size
    · exact absurd (hrole.symm.trans (Shape.setBlock_new hx)) hne
    · rwa [Shape.setBlock_old hx] at hrole
  refine ⟨h.layout, hpmm ▸ hspec.inv, hcount ▸ h.count, ?_, ?_, ?_, ?_, ?_, ?_⟩
  · intro x hrole
    by_cases hx : p ≤ x ∧ x < p + pagesOf size
    · exact .inr hx
    · rw [Shape.setBlock_old hx] at hrole
      exact .inl (h.owned x hrole)
  · intro x hx
    rw [hpmm]
    rcases hx with hx | hx
    · exact fun hfree => h.obtained x hx ((hspec.free x).mpr (.inl hfree))
    · exact hspec.taken x hx.1 hx.2
  · refine ⟨?_, ?_, h.placed.unused, ?_, ?_, h.placed.entry⟩
    · intro x hrole
      by_cases hx : p ≤ x ∧ x < p + pagesOf size
      · have hinside := hspec.inside
        omega
      · rw [Shape.setBlock_old hx] at hrole
        exact h.placed.range x hrole
    · intro bk hbk
      obtain ⟨x, k, hrole, hk, haddr⟩ := h.placed.desc bk hbk
      exact ⟨x, k, hkeep x _ hrole nofun, hk, haddr⟩
    · intro i bk hbk
      exact hkeep _ _ (h.placed.page i bk hbk) nofun
    · intro x i bk hrole
      exact h.placed.bucket x i bk (hback x _ hrole nofun)
  · rw [hword]
    exact ⟨h.desc.spare, h.desc.used, h.desc.size, h.desc.heads, h.desc.page⟩
  · rw [hword]
    exact h.free
  · refine ⟨?_, ?_, ?_, ?_⟩
    · intro b hb
      rcases List.mem_cons.mp hb with rfl | hb
      · exact hpos
      · exact h.holds.pos b hb
    · intro b hb hsmall
      rcases List.mem_cons.mp hb with rfl | hb
      · exact absurd hlarge (not_large hsmall)
      · exact h.holds.small b hb hsmall
    · intro b hb hlarge'
      rcases List.mem_cons.mp hb with rfl | hb
      · exact ⟨p, rfl, hpages, fun x hlo hhi => Shape.setBlock_new ⟨hlo, hhi⟩⟩
      · obtain ⟨q, haddr, hpos', hrole⟩ := h.holds.large b hb hlarge'
        exact ⟨q, haddr, hpos', fun x hlo hhi => hkeep x _ (hrole x hlo hhi) nofun⟩
    · rw [List.map_cons]
      refine List.nodup_cons.mpr ⟨fun hmem => ?_, h.holds.addrs⟩
      obtain ⟨b, hb, heq⟩ := List.mem_map.mp hmem
      change b.addr = pageAddr p at heq
      have hroom := roomOf_pos h.holds hb
      -- The old block would be in a page that was free.
      obtain ⟨x, hin, hblock⟩ := h.holds.page_role (a := b.addr) h.placed hb (by rw [Block.contains_iff]; omega)
      have hpage : x = p := inPage_unique hin (by
        rw [heq]
        unfold InPage
        omega)
      have hother := hnew p ⟨le_rfl, Nat.lt_add_of_pos_right hpages⟩
      rw [hpage, hother] at hblock
      rcases hblock with ⟨i, bk, hrole⟩ | ⟨q, hrole⟩
      · cases hrole
      · cases hrole

/-- A descriptor and a page become a bucket. -/
def Shape.addBucket (sh : Shape) (i : Fin 8) (bk p : Nat) (spare : List Nat) : Shape where
  role := Function.update sh.role p (.bucket i bk)
  spare := spare
  used := Function.update sh.used i (bk :: sh.used i)
  page := Function.update sh.page bk p
  free := Function.update sh.free bk ((List.range (4096 / classSize i)).map (cell (pageAddr p) (classSize i)))

theorem Shape.mem_addBucket {j : Fin 8} {bk' p : Nat} {spare : List Nat} :
    bk' ∈ (sh.addBucket i bk p spare).used j ↔ (j = i ∧ bk' = bk) ∨ bk' ∈ sh.used j := by
  change bk' ∈ Function.update sh.used i (bk :: sh.used i) j ↔ _
  by_cases hj : j = i
  · subst hj
    rw [Function.update_self, List.mem_cons, eq_self_iff_true, true_and]
  · rw [Function.update_of_ne hj]
    exact ⟨.inr, fun h => h.resolve_left fun hc => hj hc.1⟩

/-- A descriptor and a page that are not in use. -/
structure Fresh (lo hi : Nat) (sh : Shape) (bk p : Nat) (rest : List Nat) : Prop where
  spare : sh.spare = bk :: rest
  once : bk ∉ rest
  role : sh.role p = .other
  range : lo ≤ p ∧ p < hi

namespace Fresh

variable {p : Nat} {rest : List Nat} {j : Fin 8} {bk' x : Nat}

theorem mem_spare (hf : Fresh lo hi sh bk p rest) : bk ∈ sh.spare := hf.spare ▸ List.mem_cons_self

theorem rest_spare (hf : Fresh lo hi sh bk p rest) (hmem : bk' ∈ rest) : bk' ∈ sh.spare ∧ bk' ≠ bk :=
  ⟨hf.spare ▸ List.mem_cons_of_mem bk hmem, fun heq => hf.once (heq ▸ hmem)⟩

theorem used_ne (hf : Fresh lo hi sh bk p rest) (hp : sh.Placed lo hi) (hused : bk' ∈ sh.used j) : bk' ≠ bk :=
  fun heq => hp.unused bk hf.mem_spare j (heq ▸ hused)

theorem page_ne (hf : Fresh lo hi sh bk p rest) (hx : sh.role x ≠ .other) : x ≠ p := fun heq => hx (heq ▸ hf.role)

theorem role_old (hx : x ≠ p) : (sh.addBucket i bk p rest).role x = sh.role x := Function.update_of_ne hx _ _

/-- With the bucket everything has its place. -/
theorem placed (hf : Fresh lo hi sh bk p rest) (hp : sh.Placed lo hi) : (sh.addBucket i bk p rest).Placed lo hi := by
  refine ⟨?_, ?_, ?_, ?_, ?_, ?_⟩
  · intro x hx
    by_cases hxp : x = p
    · exact hxp ▸ hf.range
    · rw [role_old hxp] at hx
      exact hp.range x hx
  · intro bk' hbk'
    have hold : sh.IsDesc bk' := by
      rcases hbk' with hmem | ⟨j, hmem⟩
      · exact .inl (hf.rest_spare hmem).1
      · rcases Shape.mem_addBucket.mp hmem with ⟨-, rfl⟩ | hmem
        · exact .inl hf.mem_spare
        · exact .inr ⟨j, hmem⟩
    obtain ⟨x, k, hx, hk, haddr⟩ := hp.desc bk' hold
    exact ⟨x, k, (role_old (hf.page_ne (by rw [hx]; nofun))).trans hx, hk, haddr⟩
  · intro bk' hmem j hused
    obtain ⟨hold, hne⟩ := hf.rest_spare hmem
    rcases Shape.mem_addBucket.mp hused with ⟨-, heq⟩ | hused
    · exact hne heq
    · exact hp.unused bk' hold j hused
  · intro j bk' hused
    rcases Shape.mem_addBucket.mp hused with ⟨rfl, rfl⟩ | hused
    · change Function.update sh.role p _ (Function.update sh.page bk' p bk') = _
      rw [Function.update_self, Function.update_self]
    · have hold := hp.page j bk' hused
      change (sh.addBucket i bk p rest).role (Function.update sh.page bk p bk') = _
      rw [Function.update_of_ne (hf.used_ne hp hused), role_old (hf.page_ne (by rw [hold]; nofun)), hold]
  · intro x j bk' hx
    by_cases hxp : x = p
    · subst hxp
      change Function.update sh.role x _ x = _ at hx
      rw [Function.update_self] at hx
      obtain ⟨rfl, rfl⟩ := Role.bucket.inj hx
      exact ⟨Shape.mem_addBucket.mpr (.inl ⟨rfl, rfl⟩), Function.update_self _ _ _⟩
    · rw [role_old hxp] at hx
      obtain ⟨hused, hpage⟩ := hp.bucket x j bk' hx
      exact ⟨Shape.mem_addBucket.mpr (.inr hused), (Function.update_of_ne (hf.used_ne hp hused) _ _).trans hpage⟩
  · intro j bk' hused e he
    change e ∈ Function.update sh.free bk _ bk' at he
    change ∃ k < _, e = cell (pageAddr (Function.update sh.page bk p bk')) _ k
    rcases Shape.mem_addBucket.mp hused with ⟨rfl, rfl⟩ | hused
    · rw [Function.update_self] at he ⊢
      obtain ⟨k, hk, rfl⟩ := List.mem_map.mp he
      exact ⟨k, List.mem_range.mp hk, rfl⟩
    · rw [Function.update_of_ne (hf.used_ne hp hused)] at he ⊢
      exact hp.entry j bk' hused e he

/-- The blocks stay where they are. -/
theorem holds (hf : Fresh lo hi sh bk p rest) (hp : sh.Placed lo hi) (h : sh.Holds sys.live) :
    (sh.addBucket i bk p rest).Holds sys.live := by
  refine ⟨h.pos, ?_, ?_, h.addrs⟩
  · intro b hb hsmall
    obtain ⟨bk', hused, hfree, hcell⟩ := h.small b hb hsmall
    have hne := hf.used_ne hp hused
    refine ⟨bk', Shape.mem_addBucket.mpr (.inr hused), ?_, ?_⟩
    · change b.addr ∉ Function.update sh.free bk _ bk'
      rwa [Function.update_of_ne hne]
    · change ∃ k < _, b.addr = cell (pageAddr (Function.update sh.page bk p bk')) _ k
      rwa [Function.update_of_ne hne]
  · intro b hb hlarge
    obtain ⟨q, haddr, hpages, hrole⟩ := h.large b hb hlarge
    refine ⟨q, haddr, hpages, fun x hlo hhi => ?_⟩
    rw [role_old (hf.page_ne (by rw [hrole x hlo hhi]; nofun)), hrole x hlo hhi]

/-- The globals, the descriptor and the page are apart. -/
theorem apart (hf : Fresh lo hi sh bk p rest) (hp : sh.Placed lo hi) (hl : Layout g lo hi) (i : Fin 8) :
    RefillApart g i bk p := by
  have hlist := hl.list_below
  have htable := hl.table_below
  have hpart := hl.apart
  have hbounds := hp.desc_bounds (.inl hf.mem_spare)
  have hlt := i.isLt
  have hpage : pageAddr lo ≤ pageAddr p := by
    have hrange := hf.range
    unfold pageAddr
    omega
  have hdesc : bk + 16 ≤ pageAddr p ∨ pageAddr p + 4096 ≤ bk := by
    obtain ⟨x, k, hrole, hk, rfl⟩ := hp.desc bk (.inl hf.mem_spare)
    have hne : x ≠ p := hf.page_ne (by rw [hrole]; nofun)
    unfold pageAddr
    omega
  have hhead : head g i = g.bucketTable + 16 * i.val := rfl
  constructor
  all_goals omega

end Fresh

section Refill

variable {p j : Nat} {m : Pmm} {rest : List Nat}

/-- The words that a new bucket does not change. -/
theorem Refilled.global (hr : Refilled g i bk p m sys.state s') (hf : Fresh lo hi sh bk p rest) (h : Inv g lo hi sys sh)
    {a : Nat} (ha : g.Contains a) (hne : a ≠ nextField g.bucketFreeList) (hne' : a ≠ nextField (head g i)) :
    s'.word a = sys.state.word a := by
  have hbelow := h.layout.below ha
  have hbounds := h.placed.desc_bounds (.inl hf.mem_spare)
  have hrange := hf.range
  refine hr.others a hne hne' (.inl (by omega)) fun hin => ?_
  unfold InPage at hin
  unfold pageAddr at hin hbelow
  omega

theorem Refilled.above (hr : Refilled g i bk p m sys.state s') (h : Inv g lo hi sys sh) {a : Nat}
    (ha : pageAddr lo ≤ a) (hout : a < bk ∨ bk + 16 ≤ a) (hin : ¬ InPage p a) : s'.word a = sys.state.word a := by
  have hlist := h.layout.below g.contains_list
  have hhead := h.layout.below (g.contains_head i (by decide : 8 < 16))
  refine hr.others a ?_ ?_ hout hin
  · omega
  · unfold nextField
    omega

theorem Refilled.field (hr : Refilled g i bk p m sys.state s') (hf : Fresh lo hi sh bk p rest) (h : Inv g lo hi sys sh)
    {bk' off : Nat} (hbk' : sh.IsDesc bk') (hne : bk' ≠ bk) (hoff : off < 16) :
    s'.word (bk' + off) = sys.state.word (bk' + off) := by
  have hbounds := h.placed.desc_bounds (.inl hf.mem_spare)
  have hbounds' := h.placed.desc_bounds hbk'
  refine hr.above h (by omega) (by omega) fun hin => ?_
  obtain ⟨x, hx, hdesc⟩ := h.placed.desc_page hbk' (Nat.le_add_right bk' off) (Nat.add_lt_add_left hoff bk')
  exact hf.page_ne (by rw [hdesc]; nofun) (inPage_unique hx hin)

theorem Refilled.freeEntry (hr : Refilled g i bk p m sys.state s') (hf : Fresh lo hi sh bk p rest)
    (h : Inv g lo hi sys sh) {j : Fin 8} {bk' : Nat} (hbk' : bk' ∈ sh.used j) (he : e ∈ sh.free bk') :
    s'.word e = sys.state.word e := by
  have hin := h.placed.entry_page hbk' he le_rfl (Nat.lt_add_of_pos_right (by decide))
  have hrole := h.placed.page j bk' hbk'
  have hout : ¬ (bk ≤ e ∧ e < bk + 16) := by
    intro hc
    obtain ⟨x, hx, hdesc⟩ := h.placed.desc_page (.inl hf.mem_spare) hc.1 hc.2
    obtain rfl := inPage_unique hin hx
    cases hrole.symm.trans hdesc
  refine hr.above h (h.placed.page_above hbk' hin) (by omega) fun hp => ?_
  exact hf.page_ne (by rw [hrole]; nofun) (inPage_unique hin hp)

/-- The head of another class, or another word of a head. -/
theorem Refilled.headWord (hr : Refilled g i bk p m sys.state s') (hf : Fresh lo hi sh bk p rest)
    (h : Inv g lo hi sys sh) (j : Fin 8) {off : Nat} (hoff : off < 16) (hne : j ≠ i ∨ off % 16 ≠ 8) :
    s'.word (head g j + off) = sys.state.word (head g j + off) := by
  have hpart := h.layout.apart
  have hlt := j.isLt
  have hdiff : j ≠ i → j.val ≠ i.val := fun hji heq => hji (Fin.ext heq)
  refine hr.global hf h (g.contains_head j hoff) ?_ ?_
  · unfold head sizeofBucket nextField
    omega
  · unfold head sizeofBucket nextField
    omega

theorem Refilled.desc (hr : Refilled g i bk p m sys.state s') (hf : Fresh lo hi sh bk p rest) (h : Inv g lo hi sys sh) :
    (sh.addBucket i bk p rest).DescLinks g s'.word := by
  have hspare : Buckets sys.state.word (sys.state.word (nextField g.bucketFreeList)) (bk :: rest) :=
    hf.spare ▸ h.desc.spare
  have hnext : ∀ bk', sh.IsDesc bk' → bk' ≠ bk → s'.word (nextField bk') = sys.state.word (nextField bk') :=
    fun bk' hbk' hne => hr.field hf h hbk' hne (by decide : 8 < 16)
  have hused : ∀ j, ∀ bk' ∈ sh.used j, s'.word (nextField bk') = sys.state.word (nextField bk') := fun j bk' hbk' =>
    hnext bk' (.of_used hbk') (hf.used_ne h.placed hbk')
  refine ⟨?_, ?_, ?_, ?_, ?_⟩
  · rw [hr.list]
    refine Listed.congr hspare.2.2 fun bk' hbk' => ?_
    obtain ⟨hold, hne⟩ := hf.rest_spare hbk'
    exact hnext bk' (.inl hold) hne
  · intro j
    change Buckets _ _ (Function.update sh.used i (bk :: sh.used i) j)
    by_cases hj : j = i
    · subst hj
      rw [Function.update_self, hr.headNext]
      exact Listed.push (h.desc.used j) hspare.2.1 hr.next (hused j)
    · have hhead : s'.word (nextField (head g j)) = sys.state.word (nextField (head g j)) :=
        hr.headWord hf h j (by decide : 8 < 16) (.inl hj)
      rw [Function.update_of_ne hj, hhead]
      exact Listed.congr (h.desc.used j) (hused j)
  · intro j
    have hsize : s'.word (sizeField (head g j)) = sys.state.word (sizeField (head g j)) :=
      hr.headWord hf h j (by decide : 0 < 16) (.inr (by decide))
    rw [hsize]
    exact h.desc.size j
  · intro j
    have hpage : s'.word (pageField (head g j)) = sys.state.word (pageField (head g j)) :=
      hr.headWord hf h j (by decide : 4 < 16) (.inr (by decide))
    have hentry : s'.word (entryField (head g j)) = sys.state.word (entryField (head g j)) :=
      hr.headWord hf h j (by decide : 12 < 16) (.inr (by decide))
    rw [hpage, hentry]
    exact h.desc.heads j
  · intro j bk' hbk'
    change s'.word (pageField bk') = pageAddr (Function.update sh.page bk p bk')
    rcases Shape.mem_addBucket.mp hbk' with ⟨-, rfl⟩ | hold
    · rw [Function.update_self, hr.page]
    · have hne := hf.used_ne h.placed hold
      have hpage : s'.word (pageField bk') = sys.state.word (pageField bk') :=
        hr.field hf h (.of_used hold) hne (by decide : 4 < 16)
      rw [Function.update_of_ne hne, hpage]
      exact h.desc.page j bk' hold

theorem Refilled.free (hr : Refilled g i bk p m sys.state s') (hf : Fresh lo hi sh bk p rest) (h : Inv g lo hi sys sh) :
    (sh.addBucket i bk p rest).FreeLinks s'.word := by
  intro j bk' hbk'
  change Listed _ _ (Function.update sh.free bk _ bk')
  rcases Shape.mem_addBucket.mp hbk' with ⟨-, rfl⟩ | hold
  · rw [Function.update_self, hr.entry]
    exact hr.cells
  · have hne := hf.used_ne h.placed hold
    have hentry : s'.word (entryField bk') = sys.state.word (entryField bk') :=
      hr.field hf h (.of_used hold) hne (by decide : 12 < 16)
    rw [Function.update_of_ne hne, hentry]
    exact (h.free j bk' hold).congr fun e he => hr.freeEntry hf h hold he

/-- A new bucket is put in front of its class. -/
theorem Inv.refill (h : Inv g lo hi sys sh) (hf : Fresh lo hi sh bk p rest)
    (hspec : AllocSpec sys.state.pmm lo hi 1 p m) (hr : Refilled g i bk p m sys.state s') :
    Inv g lo hi ⟨s', sys.live, fun x => sys.obtained x ∨ x = p⟩ (sh.addBucket i bk p rest) := by
  refine ⟨h.layout, hr.pmm ▸ hspec.inv, hr.pageCount ▸ h.count, ?_, ?_, hf.placed h.placed, hr.desc hf h, hr.free hf h,
    hf.holds h.placed h.holds⟩
  · intro x hx
    by_cases hxp : x = p
    · exact .inr hxp
    · rw [Fresh.role_old hxp] at hx
      exact .inl (h.owned x hx)
  · intro x hx
    rw [hr.pmm]
    rcases hx with hx | rfl
    · exact fun hfree => h.obtained x hx ((hspec.free x).mpr (.inl hfree))
    · exact hspec.taken x le_rfl (Nat.lt_succ_self x)

end Refill

end Operations

end Bucket
end Memory
end FreakOS
