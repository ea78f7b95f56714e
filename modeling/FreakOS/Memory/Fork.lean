import FreakOS.Memory.AddressSpace
import FreakOS.Memory.PageRefs

/-!
# Duplicating an address space

`dup_mm` copies the areas of a memory map from the last one to the first one, and the pages of each area
with `copy_range`.

* `Copied` — how far the copy has come: which pages are done, and that nothing that was in use before has
  been touched.
* `copyRange_copied`, `dupLoop_copied` — the two loops.
* `dupMm_private_copy` — what a successful `dup_mm` leaves.
-/

namespace FreakOS
namespace Memory

open Lib

/-- What an area says about its addresses. -/
def VirtMemArea.bounds (vma : VirtMemArea) : U32 × U32 × U32 := (vma.vmStart, vma.vmEnd, vma.vmFlags)

/-- The page `(i, j)` lies in an area of the list. -/
def InAreas (areas : List VirtMemArea) (i j : Fin 1024) : Prop :=
  ∃ vma ∈ areas, vma.vmStart.toNat ≤ pageAddr i j ∧ pageAddr i j < vma.vmEnd.toNat

/-- Areas inside user space use user slots. -/
theorem InAreas.lt {areas : List VirtMemArea} (huser : ∀ vma ∈ areas, UserRange vma.vmStart vma.vmEnd)
    {i j : Fin 1024} (hij : InAreas areas i j) : i.val < 768 := by
  obtain ⟨vma, hvma, -, hlt⟩ := hij
  have := (huser vma hvma).le_top
  unfold pageAddr at hlt
  omega

/-- The pages `A` of `fromDir` have been copied to `toDir`, which had no pages in `s`. -/
structure Copied (lo hi : Nat) (toDir fromDir : Nat) (A : Fin 1024 → Fin 1024 → Prop) (s : Machine)
    (role : Nat → Role) (s' : Machine) (role' : Nat → Role) : Prop where
  frames : Frames lo hi s' role'
  roles : ∀ x, role x ≠ .free → role' x = role x
  dirs : ∀ x, role' x = .dir → role x = .dir
  mem : ∀ x, role x ≠ .free → x ≠ toDir → s'.mem x = s.mem x
  /-- A page that is done is a copy, in a frame that was free. -/
  copied : ∀ i j f, i.val < 768 → A i j → target (look s fromDir i j) = some f →
    ∃ nf, look s' toDir i j = pteWord nf (look s fromDir i j &&& PTE_USER) ∧ role nf = .free ∧
      role' nf = .user ∧ s'.mem nf = s.mem f
  absent : ∀ i j, i.val < 768 → ¬ A i j ∨ target (look s fromDir i j) = none →
    target (look s' toDir i j) = none
  /-- No frame was used twice. -/
  distinct : ∀ i j i' j' f, i.val < 768 → i'.val < 768 → target (look s' toDir i j) = some f →
    target (look s' toDir i' j') = some f → i = i' ∧ j = j'

section Loops

variable {lo hi toDir fromDir : Nat} {A B : Fin 1024 → Fin 1024 → Prop} {s s' s'' : Machine}
  {role role' role'' : Nat → Role}

/-- What a directory shows is decided by its memory and the memory of its page tables. -/
theorem look_congr (h : Frames lo hi s role) {d : Nat} (hd : role d = .dir)
    (hmem : ∀ x, role x ≠ .free → x ≠ toDir → s'.mem x = s.mem x) (hne : d ≠ toDir) {i : Fin 1024}
    (hi' : i.val < 768) (hto : role toDir = .dir) (j : Fin 1024) : look s' d i j = look s d i j := by
  have hentry : s'.entry d i = s.entry d i := by
    unfold Machine.entry
    rw [hmem d (by simp [hd]) hne]
  unfold look
  rw [hentry]
  cases hsome : s.entry d i with
  | none => rfl
  | some t =>
      have ht := h.entry d i t hd hi' hsome
      have htd : t ≠ toDir := by
        rintro rfl
        simp [ht] at hto
      dsimp only
      rw [hmem t (by simp [ht]) htd]

namespace Copied

theorem refl (h : Frames lo hi s role) (hto : ∀ i : Fin 1024, i.val < 768 → s.entry toDir i = none)
    (hA : ∀ i j, ¬ A i j) : Copied lo hi toDir fromDir A s role s role := by
  have hnone : ∀ i j, i.val < 768 → target (look s toDir i j) = none := by
    intro i j hi'
    rw [look_of_entry_none (hto i hi')]
    exact target_zero
  refine ⟨h, fun _ _ => rfl, fun _ hx => hx, fun _ _ _ => rfl, fun i j _ _ hij => absurd hij (hA i j),
    fun i j hi' _ => hnone i j hi', ?_⟩
  intro i j i' j' f hi' _ hf
  rw [hnone i j hi'] at hf
  simp at hf

/-- Pages that the source does not map may be counted in. -/
theorem mono (h : Copied lo hi toDir fromDir A s role s' role') (hAB : ∀ i j, A i j → B i j)
    (hBA : ∀ i j, i.val < 768 → B i j → A i j ∨ target (look s fromDir i j) = none) :
    Copied lo hi toDir fromDir B s role s' role' := by
  refine ⟨h.frames, h.roles, h.dirs, h.mem, ?_, ?_, h.distinct⟩
  · intro i j f hi' hB hf
    rcases hBA i j hi' hB with hA | hnone
    · exact h.copied i j f hi' hA hf
    · rw [hf] at hnone
      simp at hnone
  · rintro i j hi' (hB | hnone)
    · exact h.absent i j hi' (Or.inl fun hA => hB (hAB i j hA))
    · exact h.absent i j hi' (Or.inr hnone)

/-- A frame that the copy maps was free before. -/
theorem fresh (h : Copied lo hi toDir fromDir A s role s' role') {i j : Fin 1024} (hi' : i.val < 768)
    {nf : Nat} (hnf : target (look s' toDir i j) = some nf) : role nf = .free := by
  have hsome : ¬ (¬ A i j ∨ target (look s fromDir i j) = none) := by
    intro hc
    rw [h.absent i j hi' hc] at hnf
    simp at hnf
  rw [not_or, not_not] at hsome
  obtain ⟨f, hf⟩ := Option.ne_none_iff_exists'.mp hsome.2
  obtain ⟨nf', hlook, hfree, huser, -⟩ := h.copied i j f hi' hsome.1 hf
  rw [hlook, target_pteWord (h.frames.lt (by simp [huser])) (and_PTE_USER_lt _)] at hnf
  obtain rfl := Option.some.inj hnf
  exact hfree

/-- The source shows what it showed at the start. -/
theorem look_source (h : Copied lo hi toDir fromDir A s role s' role') (hs : Frames lo hi s role)
    (hto : role toDir = .dir) {d : Nat} (hd : role d = .dir) (hne : d ≠ toDir) {i : Fin 1024}
    (hi' : i.val < 768) (j : Fin 1024) : look s' d i j = look s d i j :=
  look_congr hs hd h.mem hne hi' hto j

/-- One more page was copied. -/
theorem page (h : Copied lo hi toDir fromDir A s role s' role') (hs : Frames lo hi s role)
    (hempty : ∀ i : Fin 1024, i.val < 768 → s.entry toDir i = none) (hto : role toDir = .dir)
    (hfrom : role fromDir = .dir) (hne : fromDir ≠ toDir) {va : U32} (hva : (pgdIndex va).val < 768)
    (hnew : ¬ A (pgdIndex va) (pteIndex va))
    (hspec : PageCopied lo hi toDir fromDir va s' role' s'' role'') :
    Copied lo hi toDir fromDir (fun i j => A i j ∨ (i = pgdIndex va ∧ j = pteIndex va)) s role
      s'' role'' := by
  have hto' : role' toDir = .dir := by rw [h.roles toDir (by simp [hto]), hto]
  have hsource : ∀ i j, i.val < 768 → look s' fromDir i j = look s fromDir i j :=
    fun i j hi' => h.look_source hs hto hfrom hne hi' j
  -- The place was empty, so no frame was lost.
  have hkeep : ∀ x, role' x ≠ .free → role'' x = role' x := by
    intro x hx
    rcases hspec.roles x hx with hx' | ⟨-, htarget, -⟩
    · exact hx'
    · rw [h.absent _ _ hva (Or.inl hnew)] at htarget
      simp at htarget
  obtain ⟨page, npage, hpage, hnpage, hnuser, hnmem, hlook⟩ := hspec.copy
  rw [hsource _ _ hva] at hpage
  have hword : target (pteWord npage (look s fromDir (pgdIndex va) (pteIndex va) &&& PTE_USER)) =
      some npage := target_pteWord (hspec.frames.lt (by simp [hnuser])) (and_PTE_USER_lt _)
  rw [hsource _ _ hva] at hlook
  have hnfree : role npage = .free := by
    by_contra hc
    exact hc (by rw [← h.roles npage hc, hnpage])
  have hpagefree : role page ≠ .free := by simp [hs.user_of_look hfrom hva hpage]
  have htables : ∀ x i, role x ≠ .free → role' x ≠ .table toDir i := by
    intro x i hx hc
    rw [h.roles x hx] at hc
    obtain ⟨-, hi', hlink⟩ := hs.table x toDir i hc
    simp [hempty i hi'] at hlink
  have hlive : ∀ x, role x ≠ .free → role' x ≠ .free := by
    intro x hx
    rwa [h.roles x hx]
  have hmem : ∀ x, role' x = .user → s''.mem x = s'.mem x := by
    intro x hx
    refine hspec.mem x (by simp [hx]) ?_ (by simp [hx])
    rintro rfl
    simp [hx] at hto'
  refine ⟨hspec.frames, ?_, ?_, ?_, ?_, ?_, ?_⟩
  · intro x hx
    rw [hkeep x (hlive x hx), h.roles x hx]
  · intro x hx
    exact h.dirs x ((hspec.steady.dir x).mp hx)
  · intro x hx hxd
    rw [hspec.mem x (hlive x hx) hxd (fun i => htables x i hx), h.mem x hx hxd]
  · intro i j f hi' hij hf
    rw [hlook toDir i j hto' hi']
    by_cases hplace : i = pgdIndex va ∧ j = pteIndex va
    · rw [if_pos ⟨rfl, hplace⟩]
      obtain ⟨rfl, rfl⟩ := hplace
      obtain rfl : page = f := Option.some.inj (hpage.symm.trans hf)
      refine ⟨npage, rfl, hnfree, hnuser, ?_⟩
      rw [hnmem, h.mem page hpagefree]
      rintro rfl
      simp [hs.user_of_look hfrom hva hpage] at hto
    · rw [if_neg fun hc => hplace hc.2]
      obtain ⟨nf, h1, h2, h3, h4⟩ := h.copied i j f hi' (hij.resolve_right hplace) hf
      refine ⟨nf, h1, h2, ?_, ?_⟩
      · rw [hkeep nf (by simp [h3]), h3]
      · rw [hmem nf h3, h4]
  · intro i j hi' hij
    rw [hlook toDir i j hto' hi']
    have hplace : ¬ (i = pgdIndex va ∧ j = pteIndex va) := by
      rintro ⟨rfl, rfl⟩
      rcases hij with hij | hij
      · exact hij (Or.inr ⟨rfl, rfl⟩)
      · simp [hpage] at hij
    rw [if_neg fun hc => hplace hc.2]
    exact h.absent i j hi' (hij.imp_left fun hc hA => hc (Or.inl hA))
  · -- The frame of the new page was free, so it is not one of the earlier ones.
    have hold : ∀ i j f, i.val < 768 → target (look s' toDir i j) = some f → f ≠ npage := by
      rintro i j f hi' hf rfl
      simp [h.frames.user_of_look hto' hi' hf] at hnpage
    intro i j i' j' f hi' hi'' hf hf'
    rw [hlook toDir i j hto' hi'] at hf
    rw [hlook toDir i' j' hto' hi''] at hf'
    split at hf
    · rename_i hplace
      split at hf'
      · rename_i hplace'
        exact ⟨hplace.2.1.trans hplace'.2.1.symm, hplace.2.2.trans hplace'.2.2.symm⟩
      · rw [hword] at hf
        obtain rfl := Option.some.inj hf
        exact absurd rfl (hold i' j' _ hi'' hf')
    · split at hf'
      · rw [hword] at hf'
        obtain rfl := Option.some.inj hf'
        exact absurd rfl (hold i j _ hi' hf)
      · exact h.distinct i j i' j' f hi' hi'' hf hf'

/-- The kernel took a free frame for itself. -/
theorem kernelFrame (h : Copied lo hi toDir fromDir A s role s' role') {p : Nat} (hp : role' p = .free)
    (hframes : Frames lo hi s'' (Function.update role' p .kernel)) (hmem : s''.mem = s'.mem) :
    Copied lo hi toDir fromDir A s role s'' (Function.update role' p .kernel) := by
  have hlook : ∀ i j, look s'' toDir i j = look s' toDir i j := by
    intro i j
    unfold look Machine.entry
    rw [hmem]
  have hkeep : ∀ x, role' x ≠ .free → Function.update role' p .kernel x = role' x := by
    intro x hx
    refine Function.update_of_ne ?_ _ _
    rintro rfl
    exact hx hp
  refine ⟨hframes, ?_, ?_, ?_, ?_, ?_, ?_⟩
  · intro x hx
    rw [hkeep x (by rwa [h.roles x hx]), h.roles x hx]
  · intro x hx
    by_cases hxp : x = p
    · subst hxp
      simp at hx
    · rw [Function.update_of_ne hxp] at hx
      exact h.dirs x hx
  · rw [hmem]
    exact h.mem
  · intro i j f hi' hA hf
    obtain ⟨nf, h1, h2, h3, h4⟩ := h.copied i j f hi' hA hf
    refine ⟨nf, (hlook i j).trans h1, h2, ?_, ?_⟩
    · rw [hkeep nf (by simp [h3]), h3]
    · rw [hmem, h4]
  · intro i j
    rw [hlook]
    exact h.absent i j
  · intro i j i' j'
    rw [hlook, hlook]
    exact h.distinct i j i' j'

end Copied

/-- `copy_range` copies the pages of its range if it returns 0. -/
theorem copyRange_copied (h : Copied lo hi toDir fromDir A s role s' role') (hs : Frames lo hi s role)
    (hempty : ∀ i : Fin 1024, i.val < 768 → s.entry toDir i = none) (hto : role toDir = .dir)
    (hfrom : role fromDir = .dir) (hne : fromDir ≠ toDir) {start stop : U32}
    (hrange : UserRange start stop)
    (hnew : ∀ i j, A i j → ¬ (start.toNat ≤ pageAddr i j ∧ pageAddr i j < stop.toNat))
    (hcall : copyRange s' toDir fromDir start stop = .ok (0, s'')) :
    ∃ role'', Copied lo hi toDir fromDir
      (fun i j => A i j ∨ (start.toNat ≤ pageAddr i j ∧ pageAddr i j < stop.toNat)) s role s'' role'' := by
  obtain ⟨-, hloop⟩ := userRange_of_copyRange hcall
  have hlt := hrange.lt
  have htop := hrange.le_top
  have hstop := hrange.stop_mod
  -- The pages up to the current address have been copied.
  let P : Nat → Machine → Prop := fun a sa => PageAligned a ∧ start.toNat ≤ a ∧ ∃ rolea,
    Copied lo hi toDir fromDir (fun i j => A i j ∨ (start.toNat ≤ pageAddr i j ∧ pageAddr i j < a ∧
      pageAddr i j < stop.toNat)) s role sa rolea
  have hrule := rangeLoop_rule (copyRound toDir fromDir) stop P (fun code _ => code ≠ 0)
    (fun _ => True) ?_ rangeFuel (s := s') (a := start.toNat) ?_ hlt ?_
  · rw [BitVec.ofNat_toNat, BitVec.setWidth_eq, hloop] at hrule
    rcases hrule with ⟨e, he, -⟩ | ⟨code, sa, hok, hcode | ⟨-, a, ha, -, -, rolea, hspec⟩⟩
    · simp at he
    · obtain ⟨rfl, -⟩ := Prod.mk.inj (Except.ok.inj hok)
      exact absurd rfl hcode
    · obtain ⟨-, rfl⟩ := Prod.mk.inj (Except.ok.inj hok)
      refine ⟨rolea, hspec.mono ?_ ?_⟩
      · rintro i j (hA | ⟨h1, -, h3⟩)
        · exact Or.inl hA
        · exact Or.inr ⟨h1, h3⟩
      · rintro i j - (hA | ⟨h1, h2⟩)
        · exact Or.inl (Or.inl hA)
        · exact Or.inl (Or.inr ⟨h1, by omega, h2⟩)
  · rintro a sa ⟨haligned, hle, rolea, hspec⟩ hmore
    have hmod := haligned.aligned
    have hva := pgdIndex_lt_of_user (a := a) (by omega)
    have htoa : rolea toDir = .dir := by rw [hspec.roles toDir (by simp [hto]), hto]
    have hfroma : rolea fromDir = .dir := by rw [hspec.roles fromDir (by simp [hfrom]), hfrom]
    have hsource : ∀ i j, i.val < 768 → look sa fromDir i j = look s fromDir i j :=
      fun i j hi' => hspec.look_source hs hto hfrom hne hi' j
    rcases copyRound_spec hspec.frames htoa hfroma (a := a) (by omega) with
      ⟨msg, he⟩ | hret | ⟨hskip, hnone⟩ | ⟨hnext, hnone⟩ | ⟨s₂, role₂, hnext, hpage⟩
    · exact Or.inl ⟨_, he, trivial⟩
    · exact Or.inr (Or.inl ⟨_, sa, hret, by decide⟩)
    · refine Or.inr (Or.inr ⟨_, sa, hskip, by omega, by omega, ⟨⟨by omega, by omega⟩, by omega, rolea, ?_⟩⟩)
      -- The pages that are skipped have no page table in the source.
      refine hspec.mono ?_ ?_
      · rintro i j (hA | ⟨h1, h2, h3⟩)
        · exact Or.inl hA
        · exact Or.inr ⟨h1, by omega, h3⟩
      · rintro i j hi' (hA | ⟨h1, h2, h3⟩)
        · exact Or.inl (Or.inl hA)
        · by_cases hij : pageAddr i j < a
          · exact Or.inl (Or.inr ⟨h1, hij, h3⟩)
          · right
            have hslot := eq_pgdIndex_of_lt_nextSlot haligned.lt (Nat.not_lt.mp hij) h2
            rw [← hsource i j hi', look_of_entry_none (hslot ▸ hnone)]
            exact target_zero
    · refine Or.inr (Or.inr ⟨_, sa, hnext, le_rfl, by omega, ⟨⟨by omega, by omega⟩, by omega, rolea, ?_⟩⟩)
      refine hspec.mono ?_ ?_
      · rintro i j (hA | ⟨h1, h2, h3⟩)
        · exact Or.inl hA
        · exact Or.inr ⟨h1, by omega, h3⟩
      · rintro i j hi' (hA | ⟨h1, h2, h3⟩)
        · exact Or.inl (Or.inl hA)
        · by_cases hij : pageAddr i j < a
          · exact Or.inl (Or.inr ⟨h1, hij, h3⟩)
          · right
            have haddr := (pageAddr_aligned i j).aligned
            obtain ⟨rfl, rfl⟩ := (pageAddr_eq_iff haligned i j).mp (by omega)
            rw [← hsource _ _ hi']
            exact hnone
    · refine Or.inr (Or.inr ⟨_, s₂, hnext, le_rfl, by omega, ⟨⟨by omega, by omega⟩, by omega, role₂, ?_⟩⟩)
      have haddr := (pageAddr_eq_iff haligned _ _).mpr ⟨rfl, rfl⟩
      refine (hspec.page hs hempty hto hfrom hne hva ?_ hpage).mono ?_ ?_
      · rintro (hA | ⟨-, h2, -⟩)
        · exact hnew _ _ hA ⟨by omega, by omega⟩
        · omega
      · rintro i j ((hA | ⟨h1, h2, h3⟩) | hij)
        · exact Or.inl hA
        · exact Or.inr ⟨h1, by omega, h3⟩
        · have := (pageAddr_eq_iff haligned i j).mpr hij
          exact Or.inr ⟨by omega, by omega, by omega⟩
      · rintro i j - (hA | ⟨h1, h2, h3⟩)
        · exact Or.inl (Or.inl (Or.inl hA))
        · by_cases hij : pageAddr i j < a
          · exact Or.inl (Or.inl (Or.inr ⟨h1, hij, h3⟩))
          · have := (pageAddr_aligned i j).aligned
            exact Or.inl (Or.inr ((pageAddr_eq_iff haligned i j).mp (by omega)))
  · refine ⟨hrange.aligned, le_rfl, role', h.mono ?_ ?_⟩
    · intro i j hA
      exact Or.inl hA
    · rintro i j - (hA | ⟨h1, h2, -⟩)
      · exact Or.inl hA
      · omega
  · unfold rangeFuel
    omega

/-- `vma_create` takes one frame for the kernel. -/
theorem vmaCreate_frames (h : Frames lo hi s role) {start stop flags : U32} {nvma : VirtMemArea}
    (hcall : vmaCreate s start stop flags = .ok (nvma, s')) :
    ∃ p, role p = .free ∧ Frames lo hi s' (Function.update role p .kernel) ∧ s'.mem = s.mem ∧
      nvma.vmStart = start ∧ nvma.vmEnd = stop ∧ nvma.vmFlags = flags := by
  unfold vmaCreate kmalloc at hcall
  rw [show pagesOf sizeofVirtMemArea = 1 from rfl] at hcall
  rcases allocPhyPages_frames h with halloc | ⟨p, m, halloc, hp, hheld⟩
  · rw [halloc] at hcall
    simp [bind, Except.bind] at hcall
  · rw [halloc] at hcall
    obtain ⟨rfl, rfl⟩ := Prod.mk.inj (Except.ok.inj hcall)
    have hself : Function.update role p .held p = .held := Function.update_self ..
    have hused : ¬ m.Free p := by
      rw [← show _ ↔ m.Free p from hheld.free p, hself]
      simp
    have hkernel := hheld.setPlain (Or.inr hself) (Or.inr (Or.inr rfl)) hheld.pmm
      (fun x => by
        by_cases hx : x = p
        · subst hx
          simpa using hused
        · simp [hx]) (fun _ _ => rfl) (by simp)
    rw [Function.update_idem] at hkernel
    exact ⟨p, hp, hkernel, rfl, rfl, rfl, rfl⟩

/-- An area that starts before all others goes to the front. -/
theorem insertVma_front {mm mm' : MemMap} {vma : VirtMemArea}
    (hfront : ∀ v ∈ mm.vmaList, vma.vmStart < v.vmStart) (hcall : insertVma mm vma = .ok mm') :
    mm'.vmaList = vma :: mm.vmaList ∧ mm'.dir = mm.dir := by
  have hbefore : areasBefore mm vma = [] := by
    unfold areasBefore
    cases hlist : mm.vmaList with
    | nil => rfl
    | cons v rest => simpa using hfront v (by simp [hlist])
  have hafter : areasAfter mm vma = mm.vmaList := by
    have := List.takeWhile_append_dropWhile (p := fun v => !decide (v.vmStart > vma.vmStart))
      (l := mm.vmaList)
    rwa [show List.takeWhile _ mm.vmaList = [] from hbefore] at this
  unfold insertVma at hcall
  split at hcall
  · simp at hcall
  · obtain ⟨-, -, hcall⟩ := Res.bind_eq_ok.mp hcall
    obtain ⟨-, -, hcall⟩ := Res.bind_eq_ok.mp hcall
    rw [hbefore, hafter] at hcall
    obtain rfl := Except.ok.inj hcall
    exact ⟨rfl, rfl⟩

/-- The loop of `dup_mm` with the areas `done` behind it and `areas` before it. -/
theorem dupLoop_copied (hs : Frames lo hi s role)
    (hempty : ∀ i : Fin 1024, i.val < 768 → s.entry toDir i = none) (hto : role toDir = .dir)
    (hfrom : role fromDir = .dir) (hne : fromDir ≠ toDir) (areas : List VirtMemArea)
    {done : List VirtMemArea} (h : Copied lo hi toDir fromDir (InAreas done) s role s' role')
    (hsorted : SortedApart ((areas.reverse ++ done).map VirtMemArea.extent))
    (huser : ∀ vma ∈ areas, UserRange vma.vmStart vma.vmEnd) {toMm toMm' : MemMap}
    (hbounds : toMm.vmaList.map VirtMemArea.bounds = done.map VirtMemArea.bounds)
    (hdir : toMm.dir = toDir) (hcall : dupLoop fromDir areas s' toMm = .ok (0, s'', toMm')) :
    ∃ role'', Copied lo hi toDir fromDir (InAreas (areas.reverse ++ done)) s role s'' role'' ∧
      toMm'.vmaList.map VirtMemArea.bounds = (areas.reverse ++ done).map VirtMemArea.bounds ∧
      toMm'.dir = toDir := by
  induction areas generalizing s' role' done toMm with
  | nil =>
      obtain ⟨-, heq⟩ := Prod.mk.inj (Except.ok.inj hcall)
      obtain ⟨rfl, rfl⟩ := Prod.mk.inj heq
      exact ⟨role', h, hbounds, hdir⟩
  | cons pvma rest ih =>
      rw [List.reverse_cons, List.append_assoc, List.singleton_append] at hsorted ⊢
      unfold dupLoop at hcall
      obtain ⟨⟨nvma, s₁⟩, hcreate, hcall⟩ := Res.bind_eq_ok.mp hcall
      obtain ⟨toMm₁, hinsert, hcall⟩ := Res.bind_eq_ok.mp hcall
      obtain ⟨⟨err, s₂⟩, hcopy, hcall⟩ := Res.bind_eq_ok.mp hcall
      dsimp only at hcopy hcall
      obtain ⟨p, hp, hframes, hmem, hstart, hend, hflags⟩ := vmaCreate_frames h.frames hcreate
      have htail : SortedApart ((pvma :: done).map VirtMemArea.extent) := by
        rw [List.map_append] at hsorted
        exact hsorted.append_right
      -- The areas that are done lie behind this one.
      have hafter : ∀ v ∈ done, pvma.vmEnd.toNat ≤ v.vmStart.toNat := by
        intro v hv
        exact (List.pairwise_cons.mp htail.ordered).1 v.extent (List.mem_map_of_mem hv)
      have hrange := huser pvma (by simp)
      have hlt := hrange.lt
      have hfront : ∀ v ∈ toMm.vmaList, nvma.vmStart < v.vmStart := by
        intro v hv
        obtain ⟨w, hw, hvw⟩ := List.mem_map.mp (hbounds ▸ List.mem_map_of_mem hv)
        rw [hstart, BitVec.lt_def, ← show w.vmStart = v.vmStart from congrArg Prod.fst hvw]
        have := hafter w hw
        omega
      obtain ⟨hlist, hdir₁⟩ := insertVma_front hfront hinsert
      split at hcall
      · obtain ⟨herr, -⟩ := Prod.mk.inj (Except.ok.inj hcall)
        simp [E_NOMEM] at herr
      · rename_i herr
        obtain rfl := not_not.mp herr
        rw [hdir₁, hdir] at hcopy
        have hnew : ∀ i j, InAreas done i j →
            ¬ (pvma.vmStart.toNat ≤ pageAddr i j ∧ pageAddr i j < pvma.vmEnd.toNat) := by
          rintro i j ⟨v, hv, h1, -⟩ ⟨-, h2⟩
          have := hafter v hv
          omega
        obtain ⟨role₂, h₂⟩ := copyRange_copied (h.kernelFrame hp hframes hmem) hs hempty hto hfrom hne
          hrange hnew hcopy
        have h₂' : Copied lo hi toDir fromDir (InAreas (pvma :: done)) s role s₂ role₂ := by
          refine h₂.mono ?_ ?_
          · rintro i j (⟨v, hv, hij⟩ | hij)
            · exact ⟨v, by simp [hv], hij⟩
            · exact ⟨pvma, by simp, hij⟩
          · rintro i j - ⟨v, hv, hij⟩
            rcases List.mem_cons.mp hv with rfl | hv
            · exact Or.inl (Or.inr hij)
            · exact Or.inl (Or.inl ⟨v, hv, hij⟩)
        refine ih h₂' hsorted (fun v hv => huser v (by simp [hv])) ?_ (hdir₁.trans hdir) hcall
        simp [hlist, hbounds, VirtMemArea.bounds, hstart, hend, hflags]

theorem getLsbD_PTE_USER (i : Nat) : PTE_USER.getLsbD i = decide (i < 3) := by
  by_cases h : i < 3
  · interval_cases i <;> rfl
  · rw [decide_eq_false h]
    exact Nat.testBit_lt_two_pow (Nat.lt_of_lt_of_le (show PTE_USER.toNat < 2 ^ 3 by decide)
      (Nat.pow_le_pow_right (by omega) (by omega)))

/-- The flags that `copy_range` takes over. -/
theorem pteWord_and_PTE_USER {e : U32} {f nf : Nat} (he : target e = some f) :
    pteWord nf (e &&& PTE_USER) &&& PTE_USER = e &&& PTE_USER := by
  have hbit : e.getLsbD 0 = true := by
    by_contra hc
    refine present_of_target he ?_
    ext i hi'
    by_cases hi0 : i = 0
    · subst hi0
      simpa [PTE_PAGE_PERSENT] using hc
    · simp [PTE_PAGE_PERSENT, hi0]
  apply BitVec.eq_of_getLsbD_eq
  intro i _
  rw [BitVec.getLsbD_and, BitVec.getLsbD_and, getLsbD_PTE_USER]
  by_cases h : i < 3
  · interval_cases i
    all_goals simp [pteWord, page2pa, PTE_PAGE_PERSENT, getLsbD_PTE_USER, hbit]
  · simp [h]
/-- What a fork promises about the memory maps `fromMm` of the parent and `toMm` of the child, when the
machine went from `s` to `s'` and `dirs` are its page directories. -/
structure PrivateCopy (s s' : Machine) (dirs : Set Nat) (fromMm toMm : MemMap) : Prop where
  /-- Start, end and flags of the areas, in order. -/
  areas : toMm.vmaList.map VirtMemArea.bounds = fromMm.vmaList.map VirtMemArea.bounds
  /-- A page of an area is present in both or in none, with the same flags and the same content. -/
  pages : ∀ i j, InAreas fromMm.vmaList i j →
    (target (look s fromMm.dir i j) = none ∧ target (look s' toMm.dir i j) = none) ∨
    ∃ f nf, target (look s fromMm.dir i j) = some f ∧ target (look s' toMm.dir i j) = some nf ∧
      look s' toMm.dir i j &&& PTE_USER = look s fromMm.dir i j &&& PTE_USER ∧ s'.mem nf = s.mem f
  /-- Two pages of the child are in different frames. -/
  distinct : ∀ i j i' j' f, i.val < 768 → i'.val < 768 → target (look s' toMm.dir i j) = some f →
    target (look s' toMm.dir i' j') = some f → i = i' ∧ j = j'
  /-- No other directory shows a frame of the child. -/
  unshared : ∀ d ∈ dirs, d ≠ toMm.dir → ∀ i j i' j' f, i.val < 768 → i'.val < 768 →
    target (look s' toMm.dir i j) = some f → target (look s' d i' j') ≠ some f
  /-- A page table of the child has one place only, and is no frame that is mapped. -/
  tables : ∀ i t, i.val < 768 → s'.entry toMm.dir i = some t → ∀ d ∈ dirs, ∀ i' : Fin 1024, i'.val < 768 →
    (s'.entry d i' = some t → d = toMm.dir ∧ i' = i) ∧ ∀ j', target (look s' d i' j') ≠ some t
  /-- The frames and page tables of the child were free before. -/
  fresh : ∀ i, i.val < 768 → (∀ t, s'.entry toMm.dir i = some t → s.pmm.Free t) ∧
    ∀ j f, target (look s' toMm.dir i j) = some f → s.pmm.Free f
  /-- Whatever was in use before, the directory of the child apart, is in use and has its old content:
  directory, page tables and frames of the parent among it. -/
  parent : ∀ x, ¬ s.pmm.Free x → x ≠ toMm.dir → ¬ s'.pmm.Free x ∧ s'.mem x = s.mem x

/-- **Fork gives the child an exact private copy of user memory.**  If `dup_mm` returns 0 for a fresh map
whose directory is a copy of `KernelPGD`, the child has a private copy. -/
theorem dupMm_private_copy (lo hi : Nat) (s s' : Machine) (dirs : Set Nat) (hs : Paged lo hi s dirs)
    (fromMm toMm toMm' : MemMap) (hfrom : fromMm.dir ∈ dirs) (hto : toMm.dir ∈ dirs)
    (hne : fromMm.dir ≠ toMm.dir) (hareas : fromMm.Inv)
    (huser : ∀ vma ∈ fromMm.vmaList, UserRange vma.vmStart vma.vmEnd) (hfresh : toMm.vmaList = [])
    (hkernel : s.mem toMm.dir = s.mem s.kernelPgd)
    (hcall : dupMm s (some toMm) (some fromMm) = .ok (0, s', some toMm')) :
    PrivateCopy s s' dirs fromMm toMm' ∧ Paged lo hi s' dirs ∧ toMm'.dir = toMm.dir := by
  obtain ⟨role, hframes, hdirs⟩ := hs
  have hto' := (hdirs _).mpr hto
  have hfrom' := (hdirs _).mpr hfrom
  have hempty : ∀ i : Fin 1024, i.val < 768 → s.entry toMm.dir i = none := by
    intro i hi'
    unfold Machine.entry
    rw [hkernel]
    exact hframes.kernelPgd.2 i hi'
  obtain ⟨⟨err, s₁, toMm₁⟩, hloop, hreturn⟩ := Res.bind_eq_ok.mp hcall
  obtain ⟨rfl, hrest⟩ := Prod.mk.inj (Except.ok.inj hreturn)
  obtain ⟨rfl, hmm⟩ := Prod.mk.inj hrest
  obtain rfl := Option.some.inj hmm
  have hstart : Copied lo hi toMm.dir fromMm.dir (InAreas []) s role s role :=
    Copied.refl hframes hempty (by simp [InAreas])
  obtain ⟨role', h, hbounds, hdir⟩ := dupLoop_copied hframes hempty hto' hfrom' hne
    fromMm.vmaList.reverse hstart (by simpa using hareas.sorted) (by simpa using huser) (by simp [hfresh]) rfl hloop
  rw [List.reverse_reverse, List.append_nil] at h hbounds
  have hto₁ : role' toMm.dir = .dir := by rw [h.roles _ (by simp [hto']), hto']
  have hdirs' : ∀ d, role' d = .dir ↔ d ∈ dirs := by
    intro d
    rw [← hdirs]
    exact ⟨h.dirs d, fun hd => by rw [h.roles d (by simp [hd]), hd]⟩
  refine ⟨⟨hbounds, ?_, ?_, ?_, ?_, ?_, ?_⟩, ⟨role', h.frames, hdirs'⟩, hdir⟩
  all_goals rw [hdir]
  · intro i j hij
    have hi' := hij.lt huser
    cases hf : target (look s fromMm.dir i j) with
    | none => exact Or.inl ⟨rfl, h.absent i j hi' (Or.inr hf)⟩
    | some f =>
        obtain ⟨nf, hlook, -, huser', hmem⟩ := h.copied i j f hi' hij hf
        refine Or.inr ⟨f, nf, rfl, ?_, ?_, hmem⟩
        · rw [hlook, target_pteWord (h.frames.lt (by simp [huser'])) (and_PTE_USER_lt _)]
        · rw [hlook, pteWord_and_PTE_USER hf]
  · exact h.distinct
  · -- Other directories show what they showed before, and that was not free.
    intro d hd hdne i j i' j' f hi' hi'' hf hf'
    have hd' := (hdirs d).mpr hd
    rw [h.look_source hframes hto' hd' hdne hi''] at hf'
    have huser' := hframes.user_of_look hd' hi'' hf'
    simp [h.fresh hi' hf] at huser'
  · intro i t hi' ht d hd i' hi''
    have htable := h.frames.entry _ i t hto₁ hi' ht
    have hd' := (hdirs' d).mpr hd
    refine ⟨?_, ?_⟩
    · intro ht'
      have htable' := h.frames.entry d i' t hd' hi'' ht'
      rw [htable] at htable'
      obtain ⟨rfl, rfl⟩ := Role.table.inj htable'
      exact ⟨rfl, rfl⟩
    · intro j' hj'
      have := h.frames.user_of_look hd' hi'' hj'
      simp [htable] at this
  · intro i hi'
    refine ⟨?_, ?_⟩
    · intro t ht
      rw [← hframes.free]
      by_contra hc
      have htable := h.frames.entry _ i t hto₁ hi' ht
      rw [h.roles t hc] at htable
      have := (hframes.table t _ i htable).2.2
      simp [hempty i hi'] at this
    · intro j f hf
      rw [← hframes.free]
      exact h.fresh hi' hf
  · intro x hx hxne
    rw [← hframes.free] at hx
    rw [← h.frames.free, h.roles x hx]
    exact ⟨hx, h.mem x hx hxne⟩

/-- A machine with ten free frames. -/
def twelveFrames : Machine :=
  ⟨⟨Function.update (memmapInitLoop reservedPages.pages 2 10) 2 ⟨2, 10, 0⟩, [2], 10⟩, 12, fun _ _ => 0, 0⟩

/-- A parent with one page in frame 3, and an empty directory for the child in frame 5. -/
def parentMm : MemMap := ⟨[⟨0, 0x200000, 0x201000, VMM_READ⟩], none, page2kva 2, 1, 1⟩
/-- The map that `copy_mm` has set up for the child. -/
def childMm : MemMap := { mmCreate with pgdir := page2kva 5 }

theorem parentMm_inv : parentMm.Inv :=
  ⟨⟨by decide, by decide⟩, rfl, by simp [parentMm]⟩

theorem parentMm_user : ∀ vma ∈ parentMm.vmaList, UserRange vma.vmStart vma.vmEnd := by
  intro vma hvma
  obtain rfl := List.mem_singleton.mp hvma
  exact ⟨rfl, rfl, rfl⟩

theorem dupMm_private_copy_one_page : ∃ s s' dirs toMm',
    dupMm s (some childMm) (some parentMm) = .ok (0, s', some toMm') ∧
      PrivateCopy s s' dirs parentMm toMm' ∧ target (look s' 5 0 512) = some 8 := by
  have s₁ : PagingStep ⟨twelveFrames, ∅, ∅⟩ ⟨_, insert 2 ∅, ∅⟩ := .setupPgdir rfl
  have s₂ := (Relation.ReflTransGen.single s₁).tail
    (.pgdirAllocPage (Set.mem_insert 2 ∅) (show 0x200000#32 < KERNEL_BASE by decide)
      (show PTE_USER.toNat < 2 ^ 12 by decide) rfl)
  have s₃ := s₂.tail (.setupPgdir (d := 5) rfl)
  have hboot : Booted 2 12 twelveFrames := booted_of_memmapInit (n := 10) rfl (by decide)
  obtain ⟨role, h⟩ := pagingInv_of_run hboot s₃
  have hcopy := dupMm_private_copy 2 12 _ _ _ ⟨role, h.frames, h.dirs⟩ parentMm childMm _
    (by simp [show parentMm.dir = 2 from rfl]) (by simp [show childMm.dir = 5 from rfl]) (by decide)
    parentMm_inv parentMm_user rfl rfl rfl
  exact ⟨_, _, _, _, rfl, hcopy.1, rfl⟩

end Loops

end Memory
end FreakOS
