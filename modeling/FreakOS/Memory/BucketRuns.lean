import FreakOS.Memory.BucketInv

/-!
# Runs of the bucket allocator

Calls of `doKmalloc` and `doKfree`, between which the holders of blocks write to them, and everything else in the kernel
goes on.

* `Step`, `Run` — the calls that meet the condition, and everything else.
* `buckets_disjoint` — in runs that do not use the loop of `allocBucket` and do not free pages, everything is good.
* `Inv.carve_not_ok`, `Inv.kfree_large` — the other calls.
* `Started` — where runs start.
-/

namespace FreakOS
namespace Memory
namespace Bucket

open Lib

/-! ### Steps -/

/-- `doKmalloc(size)` does not come to the loop of `allocBucket`, and there are pages if it needs them. -/
def KmallocReady (g : Globals) (s : State) (size : U32) : Prop :=
  if PGSIZE ≤ size then 0 < pagesOf size ∧ s.pmm.Fits (pagesOf size)
  else (∃ bk, IsBucket g s (classOf size) bk ∧ s.word (entryField bk) ≠ 0) ∨
    (s.word (nextField g.bucketFreeList) ≠ 0 ∧ s.pmm.Fits 1)

/-- What goes on between the calls: the globals and the pages of the allocator stay, apart from the blocks in use. -/
structure Others (g : Globals) (lo hi : Nat) (sys : System) (s : State) : Prop where
  word : ∀ a, g.Contains a ∨ ((∃ x, InPage x a ∧ sys.obtained x) ∧ ∀ b ∈ sys.live, ¬ b.extent.Contains a) →
    s.word a = sys.state.word a
  pmm : s.pmm.Inv lo hi
  kept : ∀ x, sys.obtained x → ¬ s.pmm.Free x
  pageCount : s.pageCount = sys.state.pageCount

/-- The steps of a run. -/
inductive Step (g : Globals) (lo hi : Nat) (sys : System) : System → Prop where
  /-- `doKmalloc(size)`. -/
  | kmalloc (size : U32) (r : Nat) (s : State) (hpos : size ≠ 0) (hready : KmallocReady g sys.state size)
      (hcall : Ends (fun fuel => doKmalloc g fuel sys.call size) (r, s)) :
      Step g lo hi sys (sys.after s (⟨r, size⟩ :: sys.live))
  /-- `doKfree(vaddr, size)` for a block in use. -/
  | kfree (b : Block) (r : Int) (s : State) (hlive : b ∈ sys.live) (hsmall : b.size < PGSIZE)
      (hcall : Ends (fun fuel => doKfree g fuel sys.call b.addr b.size) (r, s)) :
      Step g lo hi sys (sys.after s (sys.live.erase b))
  /-- Everything else. -/
  | others (s : State) (h : Others g lo hi sys s) : Step g lo hi sys { sys with state := s }

/-- A run. -/
def Run (g : Globals) (lo hi : Nat) : System → System → Prop := Relation.ReflTransGen (Step g lo hi)

/-! ### The calls -/

section Calls

variable {g : Globals} {lo hi : Nat} {sys : System} {sh : Shape} {i : Fin 8} {bk e p : Nat} {b : Block}
  {s s' : State} {size : U32} {live : List Block} {obtained : Nat → Prop}

theorem Inv.call (h : Inv g lo hi sys sh) : Inv g lo hi ⟨sys.call, sys.live, sys.obtained⟩ sh :=
  ⟨h.layout, h.pmm, h.count, h.owned, h.obtained, h.placed, h.desc, h.free, h.holds⟩

/-- The pages that a call obtains were free. -/
theorem Inv.after (h : Inv g lo hi ⟨s', live, obtained⟩ sh)
    (hobtained : ∀ x, obtained x → sys.obtained x ∨ sys.state.pmm.Free x) : Inv g lo hi (sys.after s' live) sh :=
  ⟨h.layout, h.pmm, h.count, fun x hx => ⟨hobtained x (h.owned x hx), h.obtained x (h.owned x hx)⟩, fun _ hx => hx.2,
    h.placed, h.desc, h.free, h.holds⟩

/-- Everything else leaves the allocator alone. -/
theorem Inv.others (h : Inv g lo hi sys sh) (ho : Others g lo hi sys s) :
    Inv g lo hi { sys with state := s } sh := by
  have hown : ∀ a, sys.Own a → s.word a = sys.state.word a := by
    rintro a ⟨⟨x, hin, hx, -⟩, hlive⟩
    exact ho.word a (.inr ⟨⟨x, hin, hx⟩, hlive⟩)
  have hfield : ∀ bk off, sh.IsDesc bk → off < 16 → s.word (bk + off) = sys.state.word (bk + off) :=
    fun bk off hbk hoff => hown _ (h.own_desc hbk (Nat.le_add_right bk off) (Nat.add_lt_add_left hoff bk))
  refine ⟨h.layout, ho.pmm, ho.pageCount ▸ h.count, h.owned, ho.kept, h.placed, ?_, ?_, h.holds⟩
  · exact h.desc.congr (fun a ha => ho.word a (.inl ha)) (fun bk hbk => hfield bk 8 hbk (by decide))
      fun bk hbk => hfield bk 4 hbk (by decide)
  · intro i bk hbk
    have hentry : s.word (entryField bk) = sys.state.word (entryField bk) := hfield bk 12 (.of_used hbk) (by decide)
    change Listed s.word (s.word (entryField bk)) (sh.free bk)
    rw [hentry]
    refine (h.free i bk hbk).congr fun e he => ?_
    exact hown e (h.own_entry hbk he le_rfl (Nat.lt_add_of_pos_right (by decide)))

/-! #### The stores -/

theorem writeOk_global {w : Write} (hw : ∀ k < 4, g.Contains (w.addr + k)) : WriteOk g sys live w := by
  intro a hlo hhi
  obtain ⟨k, rfl⟩ := Nat.exists_eq_add_of_le hlo
  exact .inl (hw k (by omega))

theorem writeOk_list {w : Write} (hw : w.addr = nextField g.bucketFreeList) : WriteOk g sys live w := by
  refine writeOk_global fun k hk => ?_
  rw [hw]
  unfold Globals.Contains nextField
  omega

theorem writeOk_head {w : Write} (hw : w.addr = nextField (head g i)) : WriteOk g sys live w := by
  refine writeOk_global fun k hk => ?_
  have hin : g.Contains (head g i + (8 + k)) := g.contains_head i (by omega)
  rw [hw]
  rwa [← Nat.add_assoc] at hin

theorem Inv.writeOk_desc (h : Inv g lo hi sys sh) {w : Write} (hbk : sh.IsDesc bk)
    (hfield : bk ≤ w.addr ∧ w.addr + 4 ≤ bk + 16) (hpmm : ∀ x, sys.obtained x → ¬ w.pmm.Free x) :
    WriteOk g sys live w := by
  intro a hlo hhi
  have hend : a < bk + sizeofBucket := by
    unfold sizeofBucket
    omega
  obtain ⟨⟨x, hin, hx, -⟩, hlive⟩ := h.own_desc hbk (Nat.le_trans hfield.1 hlo) hend
  exact .inr ⟨⟨x, hin, .inl hx, hpmm x hx⟩, fun b hb _ => hlive b hb⟩

theorem Inv.writeOk_new (h : Inv g lo hi sys sh) {w : Write} {k : Nat} (hfree : sys.state.pmm.Free p)
    (hpmm : ¬ w.pmm.Free p) (hk : k < 4096 / classSize i) (hw : w.addr = cell (pageAddr p) (classSize i) k) :
    WriteOk g sys live w := by
  intro a hlo hhi
  have hbounds := cell_bounds i p hk
  have hsize := classSize_ge i
  have hin : InPage p a := by
    unfold InPage
    omega
  refine .inr ⟨⟨p, hin, .inr hfree, hpmm⟩, fun b hb _ hcontains => ?_⟩
  obtain ⟨x, hx, hblock⟩ := h.holds.page_role h.placed hb hcontains
  obtain rfl := inPage_unique hin hx
  rw [h.role_of_free hfree] at hblock
  rcases hblock with ⟨i, bk, hrole⟩ | ⟨q, hrole⟩
  · cases hrole
  · cases hrole

/-! #### `doKmalloc` -/

/-- The first element with a property. -/
theorem first_with {l : List Nat} {P : Nat → Prop} [DecidablePred P] (h : ∃ x ∈ l, P x) :
    ∃ as x bs, l = as ++ x :: bs ∧ P x ∧ ∀ y ∈ as, ¬ P y := by
  have hsome : (l.find? fun x => decide (P x)).isSome := by
    obtain ⟨x, hx, hP⟩ := h
    exact List.find?_isSome.mpr ⟨x, hx, decide_eq_true hP⟩
  obtain ⟨x, hx⟩ := Option.isSome_iff_exists.mp hsome
  obtain ⟨hP, as, bs, hl, has⟩ := List.find?_eq_some_iff_append.mp hx
  refine ⟨as, x, bs, hl, of_decide_eq_true hP, fun y hy => ?_⟩
  have hnot := has y hy
  simpa using hnot

/-- A class from its head on. -/
theorem Inv.buckets (h : Inv g lo hi sys sh) (i : Fin 8) :
    Buckets sys.state.word (head g i) (head g i :: sh.used i) := by
  refine ⟨rfl, ?_, h.desc.used i⟩
  have hpos := h.layout.table_pos
  unfold head
  omega

theorem Inv.kmalloc_small (h : Inv g lo hi sys sh) (hpos : size ≠ 0) (hsmall : size < PGSIZE) (fuel : Nat) :
    doKmalloc g fuel sys.state size =
      kmallocLoop g (head g (classOf size)) (classSize (classOf size)) fuel sys.state (head g (classOf size)) := by
  unfold doKmalloc
  rw [if_neg hpos, if_neg (not_large hsmall),
    (getBucketSlot_eq hpos (Nat.le_of_lt (small_iff.mp hsmall))).1, bucketHead_class, Res.ok_bind, h.desc.size]

/-- The first free entry from a pointer on is taken. -/
theorem Inv.take (h : Inv g lo hi sys sh) (hpos : size ≠ 0) (hsmall : size < PGSIZE) {bkHead sz : Nat}
    {bks rest : List Nat} (hbuckets : Buckets sys.state.word p (bks ++ bk :: rest))
    (hfull : ∀ bk ∈ bks, sys.state.word (entryField bk) = 0)
    (hbk : bk ∈ sh.used (classOf size)) (hentry : sys.state.word (entryField bk) ≠ 0) :
    ∃ e es, Ends (fun fuel => kmallocLoop g bkHead sz fuel sys.state p)
        (e, sys.state.poke (entryField bk) (sys.state.word e)) ∧
      Inv g lo hi ⟨sys.state.poke (entryField bk) (sys.state.word e), ⟨e, size⟩ :: sys.live, sys.obtained⟩
        (sh.setFree bk es) := by
  obtain ⟨es, hes, -⟩ := (h.free _ bk hbk).eq_cons hentry
  exact ⟨_, es, kmallocLoop_pop hbuckets hfull rfl hentry, h.pop hpos hsmall hbk hes rfl rfl rfl⟩

/-- What is to hold of a call of `doKmalloc`. -/
def Kmallocs (g : Globals) (lo hi : Nat) (sys : System) (size : U32) : Prop :=
  ∃ r s' sh', Ends (fun fuel => doKmalloc g fuel sys.call size) (r, s') ∧
    Inv g lo hi (sys.after s' (⟨r, size⟩ :: sys.live)) sh' ∧ ∀ w ∈ s'.written, WriteOk g sys (⟨r, size⟩ :: sys.live) w

/-- Pages are handed out. -/
theorem Inv.kmalloc_pages (h : Inv g lo hi sys sh) (hpos : size ≠ 0) (hlarge : PGSIZE ≤ size)
    (hpages : 0 < pagesOf size) (hfits : sys.state.pmm.Fits (pagesOf size)) : Kmallocs g lo hi sys size := by
  obtain ⟨p, m, halloc⟩ := ffAllocPages_fits h.pmm hpages hfits
  have hspec := ffAllocPages_spec h.pmm halloc
  let s' : State := { sys.call with pmm := m }
  have hcall : ∀ fuel, doKmalloc g fuel sys.call size = .ok (pageAddr p, s') := by
    intro fuel
    unfold doKmalloc allocPages
    rw [if_neg hpos, if_pos hlarge]
    change ffAllocPages sys.state.pmm (pagesOf size) >>= _ = _
    rw [halloc]
    rfl
  have hinv : Inv g lo hi ⟨s', _, _⟩ _ := h.large hpos hlarge hpages hspec rfl rfl rfl
  refine ⟨pageAddr p, s', _, .of_eq hcall, hinv.after fun x hx => ?_, nofun⟩
  exact hx.imp_right fun hin => (hspec.free x).mpr (.inr hin)

/-- A bucket of the class has a free entry. -/
theorem Inv.kmalloc_entry (h : Inv g lo hi sys sh) (hpos : size ≠ 0) (hsmall : size < PGSIZE)
    (hentry : ∃ bk ∈ sh.used (classOf size), sys.state.word (entryField bk) ≠ 0) : Kmallocs g lo hi sys size := by
  have hwalk := h.call.buckets (classOf size)
  obtain ⟨as, bk, bs, hsplit, hne, has⟩ := first_with hentry
  have hbk : bk ∈ sh.used (classOf size) := by simp [hsplit]
  rw [hsplit, ← List.cons_append] at hwalk
  have hfull : ∀ bk' ∈ head g (classOf size) :: as, sys.call.word (entryField bk') = 0 := by
    intro bk' hbk'
    rcases List.mem_cons.mp hbk' with rfl | hbk'
    · exact (h.desc.heads _).2
    · exact not_not.mp (has bk' hbk')
  obtain ⟨e, es, hends, hinv⟩ := h.call.take hpos hsmall hwalk hfull hbk hne
  refine ⟨e, _, _, ?_, hinv.after fun x hx => .inl hx, fun w hw => ?_⟩
  · simp only [h.call.kmalloc_small hpos hsmall]
    exact hends
  · rcases List.mem_cons.mp hw with rfl | hw
    · exact h.writeOk_desc (.of_used hbk) (field_inside bk 12 (by decide)) h.obtained
    · cases hw

/-- No bucket of the class has one, and there are a descriptor and a page for a new bucket. -/
theorem Inv.kmalloc_bucket (h : Inv g lo hi sys sh) (hpos : size ≠ 0) (hsmall : size < PGSIZE)
    (hnone : ¬ ∃ bk ∈ sh.used (classOf size), sys.state.word (entryField bk) ≠ 0)
    (hlist : sys.state.word (nextField g.bucketFreeList) ≠ 0) (hfits : sys.state.pmm.Fits 1) :
    Kmallocs g lo hi sys size := by
  obtain ⟨bk, hbk⟩ : ∃ bk, sys.state.word (nextField g.bucketFreeList) = bk := ⟨_, rfl⟩
  rw [hbk] at hlist
  obtain ⟨p, m, halloc⟩ := ffAllocPages_fits h.pmm (by decide) hfits
  have hspec := ffAllocPages_spec h.pmm halloc
  have hspare := h.desc.spare
  rw [hbk] at hspare
  obtain ⟨rest, hrest, -⟩ := hspare.eq_cons hlist
  have hnodup := hspare.nodup
  rw [hrest] at hnodup
  have hfree : sys.state.pmm.Free p := (hspec.free p).mpr (.inr ⟨le_rfl, Nat.lt_succ_self p⟩)
  have hf : Fresh lo hi sh bk p rest := ⟨hrest, (List.nodup_cons.mp hnodup).1, h.role_of_free hfree, hspec.inside⟩
  obtain ⟨s₁, s₂, hfirst, hinit, hr⟩ := refill_calls g (classOf size) (s := sys.call) hbk hlist halloc
    (hf.apart h.placed h.layout (classOf size))
  have hinv := h.call.refill hf hspec hr
  -- The new bucket is the first of its class, and all of its entries are free.
  have hwalk := hinv.desc.used (classOf size)
  have hused : (sh.addBucket (classOf size) bk p rest).used (classOf size) = bk :: sh.used (classOf size) :=
    Function.update_self _ _ _
  rw [hused, hr.headNext] at hwalk
  have hentry : pageAddr p ≠ 0 := by
    unfold pageAddr
    omega
  obtain ⟨e, es, hends, htaken⟩ := hinv.take hpos hsmall
    (show Buckets _ _ ([] ++ bk :: sh.used (classOf size)) from hwalk) nofun
    (Shape.mem_addBucket.mpr (.inl ⟨rfl, rfl⟩)) (hr.entry ▸ hentry)
  have hfull : ∀ bk' ∈ head g (classOf size) :: sh.used (classOf size), sys.call.word (entryField bk') = 0 := by
    intro bk' hbk'
    rcases List.mem_cons.mp hbk' with rfl | hbk'
    · exact (h.desc.heads _).2
    · exact not_not.mp fun hne => hnone ⟨bk', hbk', hne⟩
  have hkept : ∀ x, sys.obtained x → ¬ m.Free x := fun x hx hm => h.obtained x hx ((hspec.free x).mpr (.inl hm))
  refine ⟨e, _, _, ?_, htaken.after fun x hx => hx.imp_right fun (heq : x = p) => heq ▸ hfree, fun w hw => ?_⟩
  · simp only [h.call.kmalloc_small hpos hsmall]
    exact kmallocLoop_refill (h.call.buckets (classOf size)) hfull hfirst hinit hends
  · rcases List.mem_cons.mp hw with rfl | hw
    · exact h.writeOk_desc (.inl hf.mem_spare) (field_inside bk 12 (by decide)) fun x hx => hr.pmm ▸ hkept x hx
    · rcases hr.written w hw with hold | hlistW | hheadW | ⟨hpmm, hdesc | ⟨k, hk, hcell⟩⟩
      · cases hold
      · exact writeOk_list hlistW
      · exact writeOk_head hheadW
      · exact h.writeOk_desc (.inl hf.mem_spare) hdesc fun x hx => hpmm ▸ hkept x hx
      · exact h.writeOk_new hfree (hpmm ▸ hspec.taken p le_rfl (Nat.lt_succ_self p)) hk hcell

/-- What `doKmalloc` does in a state that is ready for it. -/
theorem Inv.kmalloc (h : Inv g lo hi sys sh) (hpos : size ≠ 0) (hready : KmallocReady g sys.state size) :
    Kmallocs g lo hi sys size := by
  unfold KmallocReady at hready
  by_cases hlarge : PGSIZE ≤ size
  · rw [if_pos hlarge] at hready
    exact h.kmalloc_pages hpos hlarge hready.1 hready.2
  · have hsmall : size < PGSIZE := BitVec.not_le.mp hlarge
    rw [if_neg hlarge] at hready
    by_cases hentry : ∃ bk ∈ sh.used (classOf size), sys.state.word (entryField bk) ≠ 0
    · exact h.kmalloc_entry hpos hsmall hentry
    · obtain ⟨hlist, hfits⟩ := hready.resolve_left fun ⟨bk, hbk, hne⟩ => hentry ⟨bk, h.isBucket_iff.mp hbk, hne⟩
      exact h.kmalloc_bucket hpos hsmall hentry hlist hfits

/-! #### `doKfree` -/

/-- The page of an address in it. -/
theorem pageOf_inPage {x a : Nat} (hin : InPage x a) (hx : x ≤ s.pageCount) (htop : x < 0x38000) :
    pageOf s a = .ok x := by
  have hpage : (a + 0x40000000) % 2 ^ 32 / 4096 = x := by
    unfold InPage pageAddr at hin
    omega
  unfold pageOf
  rw [hpage]
  exact if_neg (Nat.not_lt.mpr hx)

theorem Inv.pageOf_eq (h : Inv g lo hi sys sh) {x a : Nat} (hrole : sh.role x ≠ .other) (hin : InPage x a)
    (hcount : s.pageCount = sys.state.pageCount) : pageOf s a = .ok x := by
  have hrange := h.placed.range x hrole
  have hmanaged := h.count
  have htop := h.layout.top
  exact pageOf_inPage hin (by omega) (by omega)

/-- What is to hold of a call of `doKfree`. -/
def Kfrees (g : Globals) (lo hi : Nat) (sys : System) (b : Block) : Prop :=
  ∃ s' sh', Ends (fun fuel => doKfree g fuel sys.call b.addr b.size) (0, s') ∧
    Inv g lo hi (sys.after s' (sys.live.erase b)) sh' ∧ Available g s' b ∧
    ∀ w ∈ s'.written, WriteOk g sys (sys.live.erase b) w

/-- `doKfree` finds the bucket of a small block. -/
theorem Inv.kfree (h : Inv g lo hi sys sh) (hb : b ∈ sys.live) (hsmall : b.size < PGSIZE) : Kfrees g lo hi sys b := by
  have hpos := h.holds.pos b hb
  obtain ⟨bk, hbk, hnotfree, k, hk, haddr⟩ := h.holds.small b hb hsmall
  have hrole := h.placed.page _ bk hbk
  have hin : InPage (sh.page bk) b.addr := haddr ▸ cell_inPage hk
  have hne : b.addr ≠ 0 := by
    unfold InPage pageAddr at hin
    omega
  have hcall : ∀ fuel, doKfree g fuel sys.call b.addr b.size =
      kfreeLoop b.addr (pageAddr (sh.page bk)) fuel sys.call (head g (classOf b.size)) := by
    intro fuel
    have hpage : pageOf sys.call b.addr = .ok (sh.page bk) := h.pageOf_eq (by rw [hrole]; nofun) hin rfl
    rw [doKfree_eq hpos hne (freePages_small (not_large hsmall)) hpage,
      (getBucketSlot_eq hpos (Nat.le_of_lt (small_iff.mp hsmall))).1, bucketHead_class, Res.ok_bind]
  -- The bucket is the only one with this page.
  obtain ⟨as, bs, hsplit⟩ := List.append_of_mem hbk
  have hwalk := h.call.buckets (classOf b.size)
  have hnodup := (h.desc.used (classOf b.size)).nodup
  rw [hsplit] at hnodup
  rw [hsplit, ← List.cons_append] at hwalk
  have hother : ∀ bk' ∈ head g (classOf b.size) :: as, sys.call.word (pageField bk') ≠ pageAddr (sh.page bk) := by
    intro bk' hbk'
    rcases List.mem_cons.mp hbk' with rfl | hbk'
    · have hzero : sys.call.word (pageField (head g (classOf b.size))) = 0 := (h.desc.heads _).1
      rw [hzero]
      unfold pageAddr
      omega
    · have hused : bk' ∈ sh.used (classOf b.size) := by
        rw [hsplit]
        exact List.mem_append_left _ hbk'
      have hword : sys.call.word (pageField bk') = pageAddr (sh.page bk') := h.desc.page _ bk' hused
      rw [hword]
      intro heq
      have hpage : sh.page bk' = sh.page bk := by
        unfold pageAddr at heq
        omega
      have hroles := (h.placed.page _ bk' hused).symm.trans (hpage ▸ hrole)
      obtain rfl : bk' = bk := (Role.bucket.inj hroles).2
      exact (List.nodup_middle.mp hnodup |> List.nodup_cons.mp).1 (List.mem_append_left _ hbk')
  have hends := kfreeLoop_push b.addr hwalk hother (h.desc.page _ bk hbk)
  have hinv : Inv g lo hi
      ⟨(sys.call.poke b.addr (sys.call.word (entryField bk))).poke (entryField bk) b.addr, _, _⟩ _ :=
    h.push hb hbk hnotfree ⟨k, hk, haddr⟩ rfl rfl rfl
  refine ⟨_, _, ?_, hinv.after fun x hx => .inl hx, ?_, fun w hw => ?_⟩
  · simp only [hcall]
    exact hends
  · refine ⟨bk, b.addr :: sh.free bk, hinv.isBucket_iff.mpr hbk, ?_, List.mem_cons_self⟩
    exact (hinv.freeEntries_iff hbk).mpr (Function.update_self bk (b.addr :: sh.free bk) sh.free).symm
  · rcases List.mem_cons.mp hw with rfl | hw
    · exact h.writeOk_desc (.of_used hbk) (field_inside bk 12 (by decide)) h.obtained
    rcases List.mem_cons.mp hw with rfl | hw
    · intro a hlo hhi
      have hbounds := cell_bounds (classOf b.size) (sh.page bk) hk
      have hsize := classSize_ge (classOf b.size)
      change b.addr ≤ a at hlo
      change a < b.addr + 4 at hhi
      have hcontains : b.extent.Contains a := by
        rw [Block.contains_iff, roomOf_small hsmall]
        omega
      have hina : InPage (sh.page bk) a := by
        unfold InPage
        omega
      have hown := h.obtained_of_role (x := sh.page bk) (by rw [hrole]; nofun)
      refine .inr ⟨⟨_, hina, .inl hown.1, hown.2⟩, fun c hc herase hcontains' => ?_⟩
      have heq := h.holds.addr_eq h.placed hc hb hcontains' hcontains
      obtain rfl := List.inj_on_of_nodup_map h.holds.addrs hc hb heq
      exact (List.Nodup.not_mem_erase (h.holds.addrs.of_map _)) herase
    · cases hw

theorem not_ends_of_error {α : Type} {call : Nat → Res α} {f : Fault} (h : ∀ fuel, call fuel = .error f) (r : α) :
    ¬ Ends call r := by
  rintro ⟨n, hn⟩
  cases (h n).symm.trans (hn n le_rfl)

/-- A size above a page has no class. -/
theorem toInt_above {size : U32} (h : 4096 < size.toNat) : size.toInt ≤ 0 ∨ 4096 < size.toInt := by
  have hlt := size.isLt
  rw [BitVec.toInt_eq_toNat_cond]
  split <;> omega

/-- A large block is in no bucket: `doKfree` does not return 0 for it. -/
theorem Inv.kfree_large (h : Inv g lo hi sys sh) (hb : b ∈ sys.live) (hlarge : PGSIZE ≤ b.size) (s' : State) :
    ¬ Ends (fun fuel => doKfree g fuel sys.call b.addr b.size) (0, s') := by
  have hpos := h.holds.pos b hb
  obtain ⟨p, haddr, hpages, hroles⟩ := h.holds.large b hb hlarge
  have hrole := hroles p le_rfl (Nat.lt_add_of_pos_right hpages)
  have hin : InPage p b.addr := by
    rw [haddr]
    unfold InPage
    omega
  have hne : b.addr ≠ 0 := by
    rw [haddr]
    unfold pageAddr
    omega
  have hpage : pageOf sys.call b.addr = .ok p := h.pageOf_eq (by rw [hrole]; nofun) hin rfl
  have hfree := freePages_large (s := sys.call) hlarge hpage
  cases hff : ffFreePages sys.call.pmm p (pagesOf b.size) with
  | error f =>
      rw [hff] at hfree
      exact not_ends_of_error (doKfree_error hpos hne hfree) _
  | ok m =>
      rw [hff, Res.ok_bind] at hfree
      let s₁ : State := { sys.call with pmm := m }
      have hpage₁ : pageOf s₁ b.addr = .ok p := h.pageOf_eq (by rw [hrole]; nofun) hin rfl
      have hcall := doKfree_eq (g := g) hpos hne hfree hpage₁
      by_cases hclass : b.size.toNat ≤ 4096
      · -- For one page there is a class, but none of its buckets has this page.
        have hwalk : Buckets s₁.word (head g (classOf b.size)) (head g (classOf b.size) :: sh.used (classOf b.size)) :=
          h.buckets _
        have hother : ∀ bk ∈ head g (classOf b.size) :: sh.used (classOf b.size),
            s₁.word (pageField bk) ≠ pageAddr p := by
          intro bk hbk
          rcases List.mem_cons.mp hbk with rfl | hbk
          · have hzero : s₁.word (pageField (head g (classOf b.size))) = 0 := (h.desc.heads _).1
            rw [hzero]
            unfold pageAddr
            omega
          · have hword : s₁.word (pageField bk) = pageAddr (sh.page bk) := h.desc.page _ bk hbk
            rw [hword]
            intro heq
            have hsame : sh.page bk = p := by
              unfold pageAddr at heq
              omega
            cases (h.placed.page _ bk hbk).symm.trans (hsame ▸ hrole)
        intro hends
        have hnone := kfreeLoop_none b.addr hwalk hother
        simp only [hcall, (getBucketSlot_eq hpos hclass).1, bucketHead_class, Res.ok_bind] at hends
        obtain ⟨hcode, -⟩ := Prod.mk.inj (hends.unique hnone)
        exact absurd hcode (by decide)
      · refine not_ends_of_error (f := .wildPointer) (fun fuel => ?_) _
        rw [hcall, bucketHead_none g (toInt_above (Nat.not_le.mp hclass))]
        rfl

/-- Where no free entry and no descriptor is left, and the page behind the one that is taken is not the allocator's
then, a store of `doKmalloc` goes where it is not to go. -/
theorem Inv.carve_not_ok (h : Inv g lo hi sys sh) (hpos : size ≠ 0) (hsmall : size < PGSIZE)
    (hnone : ∀ bk ∈ sh.used (classOf size), sys.state.word (entryField bk) = 0)
    (hempty : sys.state.word (nextField g.bucketFreeList) = 0)
    (hbehind : ∀ page m, ffAllocPages sys.state.pmm 1 = .ok (some page, m) →
      ¬ (sys.obtained (page + 1) ∨ sys.state.pmm.Free (page + 1)) ∨ m.Free (page + 1))
    {fuel r : Nat} (hcall : doKmalloc g fuel sys.call size = .ok (r, s')) :
    ∃ w ∈ s'.written, ¬ WriteOk g sys live w := by
  rw [h.call.kmalloc_small hpos hsmall] at hcall
  have hfull : ∀ bk ∈ head g (classOf size) :: sh.used (classOf size), sys.call.word (entryField bk) = 0 := by
    intro bk hbk
    rcases List.mem_cons.mp hbk with rfl | hbk
    · exact (h.desc.heads _).2
    · exact hnone bk hbk
  obtain ⟨page, m, hff, hmem⟩ := kmallocLoop_carves (h.call.buckets (classOf size)) hfull hempty hcall
  have hinside := (ffAllocPages_spec h.pmm hff).inside
  refine ⟨_, hmem, fun hok => ?_⟩
  have haddr : InPage (page + 1) (nextField (pageAddr (page + 1))) := by
    unfold InPage nextField
    omega
  rcases hok (nextField (pageAddr (page + 1))) le_rfl (Nat.lt_succ_of_le (Nat.le_add_right _ 3)) with
    hglobal | ⟨⟨x, hin, hx, hfree⟩, -⟩
  · have hbelow := h.layout.below hglobal
    unfold InPage pageAddr at haddr
    unfold pageAddr at hbelow
    omega
  · obtain rfl := inPage_unique hin haddr
    exact (hbehind page m hff).elim (fun hnot => hnot hx) hfree

end Calls

/-! ### Runs -/

section Runs

variable {g : Globals} {lo hi : Nat} {start sys sys' : System}

theorem WellFormed.step (h : WellFormed g lo hi sys) (hstep : Step g lo hi sys sys') : WellFormed g lo hi sys' := by
  obtain ⟨sh, hinv⟩ := h
  cases hstep with
  | kmalloc size r s hpos hready hcall =>
      obtain ⟨r', s', sh', hends, hinv', -⟩ := hinv.kmalloc hpos hready
      obtain ⟨rfl, rfl⟩ := Prod.mk.inj (hcall.unique hends)
      exact ⟨sh', hinv'⟩
  | kfree b r s hlive hsmall hcall =>
      obtain ⟨s', sh', hends, hinv', -, -⟩ := hinv.kfree hlive hsmall
      obtain ⟨rfl, rfl⟩ := Prod.mk.inj (hcall.unique hends)
      exact ⟨sh', hinv'⟩
  | others s ho => exact ⟨sh, hinv.others ho⟩

theorem WellFormed.run (h : WellFormed g lo hi start) (hrun : Run g lo hi start sys) : WellFormed g lo hi sys := by
  induction hrun with
  | refl => exact h
  | tail _ hstep ih => exact ih.step hstep

/-- What is to hold of the calls. -/
structure CallsGood (g : Globals) (lo hi : Nat) (sys : System) : Prop where
  kmalloc : ∀ size, size ≠ 0 → KmallocReady g sys.state size →
    ∃ r s, Ends (fun fuel => doKmalloc g fuel sys.call size) (r, s) ∧ Good g (sys.after s (⟨r, size⟩ :: sys.live)) ∧
      ∀ w ∈ s.written, WriteOk g sys (⟨r, size⟩ :: sys.live) w
  kfree : ∀ b ∈ sys.live, b.size < PGSIZE →
    ∃ s, Ends (fun fuel => doKfree g fuel sys.call b.addr b.size) (0, s) ∧ Good g (sys.after s (sys.live.erase b)) ∧
      Available g s b ∧ ∀ w ∈ s.written, WriteOk g sys (sys.live.erase b) w
  kfree_pages : ∀ b ∈ sys.live, PGSIZE ≤ b.size →
    ∀ s, ¬ Ends (fun fuel => doKfree g fuel sys.call b.addr b.size) (0, s)

theorem Inv.calls {sh : Shape} (h : Inv g lo hi sys sh) : CallsGood g lo hi sys := by
  refine ⟨?_, ?_, ?_⟩
  · intro size hpos hready
    obtain ⟨r, s, sh', hends, hinv, hwrites⟩ := h.kmalloc hpos hready
    exact ⟨r, s, hends, hinv.good, hwrites⟩
  · intro b hb hsmall
    obtain ⟨s, sh', hends, hinv, havailable, hwrites⟩ := h.kfree hb hsmall
    exact ⟨s, hends, hinv.good, havailable, hwrites⟩
  · intro b hb hlarge s
    exact h.kfree_large hb hlarge s

end Runs

/-- In a run whose steps neither come to the loop of `allocBucket`, nor free pages, nor ask for pages that are not
there, blocks are apart and in pages of the allocator, its stores go where they are to go, and what is freed can be had
again.  For a block of a page or more, `doKfree` never returns 0. -/
theorem buckets_disjoint (g : Globals) (lo hi : Nat) (start sys : System) (hstart : WellFormed g lo hi start)
    (hrun : Run g lo hi start sys) : Good g sys ∧ CallsGood g lo hi sys := by
  obtain ⟨sh, hinv⟩ := hstart.run hrun
  exact ⟨hinv.good, hinv.calls⟩

/-! ### Where runs start -/

/-- No class has a bucket, no block is in use, and the descriptors on `BucketFreeList` are in pages that were
obtained. -/
structure Started (g : Globals) (lo hi : Nat) (s : State) (obtained : Nat → Prop) (spare : List Nat) : Prop where
  layout : Layout g lo hi
  pmm : s.pmm.Inv lo hi
  count : hi ≤ s.pageCount
  range : ∀ x, obtained x → lo ≤ x ∧ x < hi ∧ ¬ s.pmm.Free x
  table : ∀ i, s.word (sizeField (head g i)) = classSize i ∧ s.word (pageField (head g i)) = 0 ∧
    s.word (nextField (head g i)) = 0 ∧ s.word (entryField (head g i)) = 0
  list : Buckets s.word (s.word (nextField g.bucketFreeList)) spare
  desc : ∀ bk ∈ spare, ∃ x k, obtained x ∧ k < 256 ∧ bk = pageAddr x + 16 * k

open Classical in
theorem Started.wellFormed {g : Globals} {lo hi : Nat} {s : State} {obtained : Nat → Prop} {spare : List Nat}
    (h : Started g lo hi s obtained spare) : WellFormed g lo hi ⟨s, [], obtained⟩ := by
  let sh : Shape := ⟨fun x => if obtained x then .descriptors else .other, spare, fun _ => [], fun _ => 0, fun _ => []⟩
  have hrole : ∀ x, sh.role x ≠ .other → obtained x := by
    intro x hx
    by_contra hnot
    exact hx (if_neg hnot)
  have hbucket : ∀ x i bk, sh.role x ≠ .bucket i bk := by
    intro x i bk hx
    change (if obtained x then Role.descriptors else Role.other) = _ at hx
    split at hx
    · cases hx
    · cases hx
  refine ⟨sh, h.layout, h.pmm, h.count, hrole, fun x hx => (h.range x hx).2.2, ?_, ?_, ?_, ?_⟩
  · refine ⟨fun x hx => ⟨(h.range x (hrole x hx)).1, (h.range x (hrole x hx)).2.1⟩, ?_, fun _ _ _ => List.not_mem_nil,
      fun _ _ hbk => absurd hbk List.not_mem_nil, fun x i bk hx => absurd hx (hbucket x i bk),
      fun _ _ hbk => absurd hbk List.not_mem_nil⟩
    intro bk hbk
    obtain ⟨x, k, hx, hk, haddr⟩ := h.desc bk (hbk.resolve_right fun ⟨_, hmem⟩ => absurd hmem List.not_mem_nil)
    exact ⟨x, k, if_pos hx, hk, haddr⟩
  · exact ⟨h.list, fun i => (h.table i).2.2.1, fun i => (h.table i).1, fun i => ⟨(h.table i).2.1, (h.table i).2.2.2⟩,
      fun _ _ hbk => absurd hbk List.not_mem_nil⟩
  · exact fun _ _ hbk => absurd hbk List.not_mem_nil
  · exact ⟨fun _ hb => absurd hb List.not_mem_nil, fun _ hb => absurd hb List.not_mem_nil,
      fun _ hb => absurd hb List.not_mem_nil, List.nodup_nil⟩

/-- Globals below the pages 2 to 5. -/
def smallGlobals : Globals := ⟨0xC0001000, 0xC0001080⟩

/-- `BucketTable` as the source has it, and zero elsewhere. -/
def bootWord (a : Nat) : Nat :=
  if 0xC0001000 ≤ a ∧ a < 0xC0001080 ∧ a % 16 = 0 then 32 * 2 ^ ((a - 0xC0001000) / 16) else 0

theorem smallGlobals_layout : Layout smallGlobals 2 6 := ⟨by decide, by decide, by decide, by decide, by decide⟩

/-- The start of the kernel, with four pages. -/
def bootSystem : System := ⟨⟨bootWord, fourPages, 6, []⟩, [], fun _ => False⟩

theorem bootSystem_started : Started smallGlobals 2 6 bootSystem.state bootSystem.obtained [] where
  layout := smallGlobals_layout
  pmm := fourPages_inv
  count := le_rfl
  range := fun _ hx => hx.elim
  table := by decide
  list := by decide
  desc := fun _ hbk => absurd hbk List.not_mem_nil

/-- Page 2 is used for descriptors. -/
def threePages : Pmm :=
  match ffAllocPages fourPages 1 with
  | .ok (_, m) => m
  | .error _ => fourPages

/-- One descriptor is on `BucketFreeList`. -/
def spareSystem : System :=
  ⟨⟨Function.update bootWord 0xC0001088 0xC0002010, threePages, 6, []⟩, [], fun x => x = 2⟩

theorem spareSystem_started : Started smallGlobals 2 6 spareSystem.state spareSystem.obtained [0xC0002010] := by
  have halloc : ffAllocPages fourPages 1 = .ok (some 2, threePages) := rfl
  have hspec := ffAllocPages_spec fourPages_inv halloc
  refine ⟨smallGlobals_layout, hspec.inv, le_rfl, ?_, by decide, by decide, ?_⟩
  · rintro x rfl
    exact ⟨le_rfl, by decide, hspec.taken 2 le_rfl (by decide)⟩
  · intro bk hbk
    obtain rfl := List.mem_singleton.mp hbk
    exact ⟨2, 1, rfl, by decide, rfl⟩

/-- With more fuel the loop of `doKmalloc` returns the same. -/
theorem kmallocLoop_more {g : Globals} {bkHead size fuel bk : Nat} {s : State} {r : Nat × State} (k : Nat)
    (h : kmallocLoop g bkHead size fuel s bk = .ok r) : kmallocLoop g bkHead size (fuel + k) s bk = .ok r := by
  induction fuel generalizing s bk with
  | zero => cases h
  | succ fuel ih =>
      rw [Nat.succ_add]
      unfold kmallocLoop at h ⊢
      by_cases hbk : bk ≠ 0
      · rw [if_pos hbk] at h ⊢
        by_cases hbe : s.word (entryField bk) ≠ 0
        · rw [if_pos hbe] at h ⊢
          exact h
        · rw [if_neg hbe] at h ⊢
          exact ih h
      · rw [if_neg hbk] at h ⊢
        obtain ⟨⟨bk', s'⟩, halloc, h⟩ := Res.bind_eq_ok.mp h
        obtain ⟨s'', hinit, h⟩ := Res.bind_eq_ok.mp h
        rw [halloc, Res.ok_bind]
        dsimp only
        rw [hinit, Res.ok_bind]
        exact ih h

/-- With more fuel the loop of `doKfree` returns the same. -/
theorem kfreeLoop_more {be pageAddr fuel bk : Nat} {s : State} {r : Int × State} (k : Nat)
    (h : kfreeLoop be pageAddr fuel s bk = .ok r) : kfreeLoop be pageAddr (fuel + k) s bk = .ok r := by
  induction fuel generalizing bk with
  | zero => cases h
  | succ fuel ih =>
      rw [Nat.succ_add]
      unfold kfreeLoop at h ⊢
      by_cases hbk : bk ≠ 0
      · rw [if_pos hbk] at h ⊢
        by_cases hpage : s.word (pageField bk) = pageAddr
        · rw [if_pos hpage] at h ⊢
          exact h
        · rw [if_neg hpage] at h ⊢
          exact ih h
      · rw [if_neg hbk] at h ⊢
        exact h

theorem doKmalloc_ends {g : Globals} {fuel : Nat} {s : State} {size : U32} {r : Nat × State}
    (h : doKmalloc g fuel s size = .ok r) : Ends (fun fuel => doKmalloc g fuel s size) r := by
  refine ⟨fuel, fun more hmore => ?_⟩
  obtain ⟨k, rfl⟩ := Nat.exists_eq_add_of_le hmore
  show doKmalloc g (fuel + k) s size = .ok r
  unfold doKmalloc at h ⊢
  by_cases hzero : size = 0
  · rw [if_pos hzero] at h ⊢
    exact h
  · rw [if_neg hzero] at h ⊢
    by_cases hlarge : PGSIZE ≤ size
    · rw [if_pos hlarge] at h ⊢
      exact h
    · rw [if_neg hlarge] at h ⊢
      obtain ⟨bkHead, hhead, h⟩ := Res.bind_eq_ok.mp h
      rw [hhead, Res.ok_bind]
      exact kmallocLoop_more k h

theorem doKfree_ends {g : Globals} {fuel vaddr : Nat} {s : State} {size : U32} {r : Int × State}
    (h : doKfree g fuel s vaddr size = .ok r) : Ends (fun fuel => doKfree g fuel s vaddr size) r := by
  refine ⟨fuel, fun more hmore => ?_⟩
  obtain ⟨k, rfl⟩ := Nat.exists_eq_add_of_le hmore
  show doKfree g (fuel + k) s vaddr size = .ok r
  unfold doKfree at h ⊢
  by_cases hnone : size = 0 ∨ vaddr = 0
  · rw [if_pos hnone] at h ⊢
    exact h
  · rw [if_neg hnone] at h ⊢
    obtain ⟨s', hpages, h⟩ := Res.bind_eq_ok.mp h
    obtain ⟨page, hpage, h⟩ := Res.bind_eq_ok.mp h
    obtain ⟨bkHead, hhead, h⟩ := Res.bind_eq_ok.mp h
    rw [hpages, Res.ok_bind, hpage, Res.ok_bind, hhead, Res.ok_bind]
    exact kfreeLoop_more k h

/-- Blocks of 100 and 120 bytes are handed out, in one page, and the first one is given back. -/
theorem buckets_disjoint_two : ∃ r r' sys sys', Run smallGlobals 2 6 spareSystem sys ∧
    sys.live = [⟨r', 120⟩, ⟨r, 100⟩] ∧ Good smallGlobals sys ∧ Run smallGlobals 2 6 spareSystem sys' ∧
    sys'.live = [⟨r', 120⟩] ∧ Good smallGlobals sys' ∧ CallsGood smallGlobals 2 6 sys' := by
  have hstart := spareSystem_started.wellFormed
  have heval : (do
      let x ← doKmalloc smallGlobals 3 spareSystem.call 100
      let y ← doKmalloc smallGlobals 3 (spareSystem.after x.2 [⟨x.1, 100⟩]).call 120
      let z ← doKfree smallGlobals 3 ((spareSystem.after x.2 [⟨x.1, 100⟩]).after y.2 [⟨y.1, 120⟩, ⟨x.1, 100⟩]).call
        x.1 100
      return decide (Buckets x.2.word (x.2.word (nextField (head smallGlobals 2))) [0xC0002010] ∧
        x.2.word (entryField 0xC0002010) ≠ 0 ∧ x.1 ≠ y.1 ∧ z.1 = 0) : Res _) = .ok true := by
    decide +kernel
  obtain ⟨⟨r, s⟩, hcall, heval⟩ := Res.bind_eq_ok.mp heval
  obtain ⟨⟨r', s'⟩, hcall', heval⟩ := Res.bind_eq_ok.mp heval
  obtain ⟨⟨ret, s''⟩, hfree, heval⟩ := Res.bind_eq_ok.mp heval
  obtain ⟨hbuckets, hentry, hne, -⟩ := of_decide_eq_true (Except.ok.inj heval)
  have hready : KmallocReady smallGlobals spareSystem.state 100 := by
    unfold KmallocReady
    rw [if_neg (by decide)]
    exact .inr ⟨by decide, 3, by decide, by decide⟩
  have hready' : KmallocReady smallGlobals s 120 := by
    unfold KmallocReady
    rw [if_neg (by decide)]
    exact .inl ⟨0xC0002010, ⟨[0xC0002010], hbuckets, List.mem_singleton_self _⟩, hentry⟩
  have hrun : Run smallGlobals 2 6 spareSystem _ :=
    (Relation.ReflTransGen.single (.kmalloc 100 r s (by decide) hready (doKmalloc_ends hcall))).tail
      (.kmalloc 120 r' s' (by decide) hready' (doKmalloc_ends hcall'))
  have hsmall : (⟨r, 100⟩ : Block).size < PGSIZE := show (100 : U32) < PGSIZE by decide
  have hrun' := hrun.tail (.kfree ⟨r, 100⟩ ret s'' (by simp [System.after]) hsmall (doKfree_ends hfree))
  have hlive : [⟨r', 120⟩, ⟨r, 100⟩].erase ⟨r, 100⟩ = [(⟨r', 120⟩ : Block)] := by
    rw [List.erase_cons_tail (by simp [Ne.symm hne]), List.erase_cons_head]
  obtain ⟨hgood, -⟩ := buckets_disjoint smallGlobals 2 6 spareSystem _ hstart hrun
  obtain ⟨hgood', hcalls⟩ := buckets_disjoint smallGlobals 2 6 spareSystem _ hstart hrun'
  exact ⟨r, r', _, _, hrun, rfl, hgood, hrun', hlive, hgood', hcalls⟩

/-- The first small block after the start: `doKmalloc(32)` returns, and has stored a link into page 3 while that was
free. -/
theorem first_kmalloc_writes_behind : ∃ r s, doKmalloc smallGlobals 3 bootSystem.call 32 = .ok (r, s) ∧
    ∃ w ∈ s.written, ¬ WriteOk smallGlobals bootSystem [⟨r, 32⟩] w := by
  have hreturns : (doKmalloc smallGlobals 3 bootSystem.call 32).toOption.isSome = true := by decide +kernel
  obtain ⟨⟨r, s⟩, hsome⟩ := Option.isSome_iff_exists.mp hreturns
  have hcall := Res.toOption_eq_some.mp hsome
  refine ⟨r, s, hcall, ?_⟩
  obtain ⟨sh, hinv⟩ := bootSystem_started.wellFormed
  have hlist : ∀ i, sh.used i = [] := fun i => (hinv.desc.used i).unique (bootSystem_started.table i).2.2.1
  refine hinv.carve_not_ok (by decide) (by decide) (fun bk hbk => ?_) (by decide) (fun page m hff => ?_) hcall
  · rw [hlist] at hbk
    cases hbk
  · have halloc : ffAllocPages fourPages 1 = .ok (some 2, threePages) := rfl
    obtain ⟨hpage, rfl⟩ := Prod.mk.inj (Except.ok.inj (halloc.symm.trans hff))
    obtain rfl : 2 = page := Option.some.inj hpage
    exact .inr (by decide)

end Bucket
end Memory
end FreakOS
