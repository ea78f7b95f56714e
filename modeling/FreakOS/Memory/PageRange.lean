import FreakOS.Memory.PageOps

/-!
# Ranges of pages

The loops of `unmap_range`, `copy_range` and `exit_range` walk over addresses in steps of a page, and skip
4 MB where there is no page table.

* `rangeLoop_rule` — the invariant rule for these loops.  It also says that the fuel is enough.
* `Unmapped`, `unmapRange_spec` — what unmapping a range leaves.
* `pageInsert_frames`, `CopySpec`, `copyRound_spec` — what mapping one page, and copying one page of
  another directory, does.
-/

namespace FreakOS
namespace Memory

open Lib

/-! ### Addresses -/

/-- The address of page `j` of slot `i`. -/
def pageAddr (i j : Fin 1024) : Nat := i.val * 2 ^ 22 + j.val * 2 ^ 12

/-- A page-aligned address below `2 ^ 32`. -/
structure PageAligned (a : Nat) : Prop where
  aligned : a % 2 ^ 12 = 0
  lt : a < 2 ^ 32

theorem pageAddr_aligned (i j : Fin 1024) : PageAligned (pageAddr i j) := by
  have := i.isLt
  have := j.isLt
  unfold pageAddr
  exact ⟨by omega, by omega⟩

theorem pgdIndex_val {a : Nat} (ha : a < 2 ^ 32) : (pgdIndex (BitVec.ofNat 32 a)).val = a / 2 ^ 22 := by
  simp only [pgdIndex, Fin.val_ofNat, BitVec.toNat_ofNat]
  omega

theorem pteIndex_val {a : Nat} (ha : a < 2 ^ 32) :
    (pteIndex (BitVec.ofNat 32 a)).val = a / 2 ^ 12 % 1024 := by
  simp only [pteIndex, Fin.val_ofNat, BitVec.toNat_ofNat]
  omega

/-- The indices of an aligned address are those of its page, and of no other page. -/
theorem pageAddr_eq_iff {a : Nat} (ha : PageAligned a) (i j : Fin 1024) :
    pageAddr i j = a ↔ i = pgdIndex (BitVec.ofNat 32 a) ∧ j = pteIndex (BitVec.ofNat 32 a) := by
  obtain ⟨h1, h2⟩ := ha
  have hi := i.isLt
  have hj := j.isLt
  rw [Fin.ext_iff, Fin.ext_iff, pgdIndex_val h2, pteIndex_val h2]
  unfold pageAddr
  omega

/-- The pages between an address and the next slot belong to the slot of the address. -/
theorem eq_pgdIndex_of_lt_nextSlot {a : Nat} (ha : a < 2 ^ 32) {i j : Fin 1024} (hlo : a ≤ pageAddr i j)
    (hhi : pageAddr i j < (a / 2 ^ 22 + 1) * 2 ^ 22) : i = pgdIndex (BitVec.ofNat 32 a) := by
  have hi := i.isLt
  have hj := j.isLt
  rw [Fin.ext_iff, pgdIndex_val ha]
  unfold pageAddr at hlo hhi
  omega

theorem nextSlot_eq {a : Nat} (ha : a < 0xB0000000) :
    nextSlot (BitVec.ofNat 32 a) = BitVec.ofNat 32 ((a / 2 ^ 22 + 1) * 2 ^ 22) := by
  have hslot : PGDE_MAP_NBYTE.toNat = 4194304 := rfl
  have hsum : (BitVec.ofNat 32 a + PGDE_MAP_NBYTE).toNat = a + 4194304 := by
    rw [BitVec.toNat_add, BitVec.toNat_ofNat, hslot]
    omega
  apply BitVec.eq_of_toNat_eq
  rw [nextSlot, roundDown_toNat, hsum, hslot, BitVec.toNat_ofNat]
  omega

theorem add_PGSIZE_eq (a : Nat) : BitVec.ofNat 32 a + PGSIZE = BitVec.ofNat 32 (a + 2 ^ 12) := by
  rw [BitVec.ofNat_add]
  rfl

/-- Addresses below `KERNEL_BASE` use the first 768 slots. -/
theorem pgdIndex_lt_of_user {a : Nat} (ha : a < 0xC0000000) :
    (pgdIndex (BitVec.ofNat 32 a)).val < 768 := by
  rw [pgdIndex_val (by omega)]
  omega

/-! ### The loop -/

/-- The invariant rule: a round goes wrong as `E` allows, returns as `Q` says, or moves on by a page at
least and keeps `P`. -/
theorem rangeLoop_rule (body : Machine → U32 → Res (Round × Machine)) (stop : U32)
    (P : Nat → Machine → Prop) (Q : Int → Machine → Prop) (E : Fault → Prop)
    (hbody : ∀ a s, P a s → a < stop.toNat →
      (∃ e, body s (BitVec.ofNat 32 a) = .error e ∧ E e) ∨
      (∃ code s', body s (BitVec.ofNat 32 a) = .ok (.ret code, s') ∧ Q code s') ∨
      (∃ a' s', body s (BitVec.ofNat 32 a) = .ok (.next (BitVec.ofNat 32 a'), s') ∧
        a + 2 ^ 12 ≤ a' ∧ a' < 2 ^ 32 ∧ P a' s'))
    (fuel : Nat) {s : Machine} {a : Nat} (hP : P a s) (ha : a < stop.toNat)
    (hfuel : stop.toNat - a ≤ fuel * 2 ^ 12) :
    (∃ e, rangeLoop body stop fuel s (BitVec.ofNat 32 a) = .error e ∧ E e) ∨
      (∃ code s', rangeLoop body stop fuel s (BitVec.ofNat 32 a) = .ok (code, s') ∧
        (Q code s' ∨ (code = 0 ∧ ∃ a', stop.toNat ≤ a' ∧ P a' s'))) := by
  induction fuel generalizing s a with
  | zero => omega
  | succ fuel ih =>
      unfold rangeLoop
      rcases hbody a s hP ha with ⟨e, he, hE⟩ | ⟨code, s', hret, hQ⟩ | ⟨a', s', hnext, hle, hlt, hP'⟩
      · rw [he]
        exact Or.inl ⟨e, rfl, hE⟩
      · rw [hret]
        exact Or.inr ⟨code, s', rfl, Or.inl hQ⟩
      · rw [hnext, Res.ok_bind]
        dsimp only
        have hcond : (BitVec.ofNat 32 a' ≠ 0 ∧ BitVec.ofNat 32 a' < stop) ↔ a' < stop.toNat := by
          rw [BitVec.lt_def, Ne, ← BitVec.toNat_inj]
          simp only [BitVec.toNat_ofNat, BitVec.ofNat_eq_ofNat]
          omega
        by_cases hmore : a' < stop.toNat
        · rw [if_pos (hcond.mpr hmore)]
          exact ih hP' hmore (by omega)
        · rw [if_neg (fun hc => hmore (hcond.mp hc))]
          exact Or.inr ⟨0, s', rfl, Or.inr ⟨rfl, a', by omega, hP'⟩⟩

section Ranges

variable {lo hi : Nat} {s s' s'' : Machine} {role role' role'' : Nat → Role}

/-! ### Unmapping -/

/-- From `s` to `s'` the pages `A` of directory `d` have been unmapped, and nothing else was changed.
Frames that lost their last mapping are free. -/
structure Unmapped (lo hi : Nat) (d : Nat) (A : Fin 1024 → Fin 1024 → Prop) (s : Machine)
    (role : Nat → Role) (s' : Machine) (role' : Nat → Role) : Prop where
  frames : Frames lo hi s' role'
  roles : ∀ x, role' x = role x ∨ (role x = .user ∧ role' x = .free)
  mem : ∀ x, (∀ i, role x ≠ .table d i) → s'.mem x = s.mem x
  gone : ∀ i j, i.val < 768 → A i j → target (look s' d i j) = none
  kept : ∀ d' i j, role d' = .dir → i.val < 768 → ¬ (d' = d ∧ A i j) →
    look s' d' i j = look s d' i j

namespace Unmapped

variable {d : Nat} {A B : Fin 1024 → Fin 1024 → Prop}

theorem refl (h : Frames lo hi s role) (hA : ∀ i j, ¬ A i j) : Unmapped lo hi d A s role s role :=
  ⟨h, fun _ => Or.inl rfl, fun _ _ => rfl, fun i j _ hij => absurd hij (hA i j), fun _ _ _ _ _ _ => rfl⟩

theorem dir_iff (h : Unmapped lo hi d A s role s' role') (x : Nat) : role' x = .dir ↔ role x = .dir := by
  rcases h.roles x with hx | ⟨hx, hx'⟩
  · rw [hx]
  · simp [hx, hx']

theorem table_iff (h : Unmapped lo hi d A s role s' role') (x : Nat) (i : Fin 1024) :
    role' x = .table d i ↔ role x = .table d i := by
  rcases h.roles x with hx | ⟨hx, hx'⟩
  · rw [hx]
  · simp [hx, hx']

theorem steady (h : Unmapped lo hi d A s role s' role') : Steady role role' := by
  refine Steady.of_cases fun x => ?_
  rcases h.roles x with hx | ⟨hx, hx'⟩
  · exact Or.inl hx
  · exact Or.inr ⟨Or.inr hx, Or.inl hx'⟩

/-- Pages that mapped nothing may be counted in. -/
theorem mono (h : Unmapped lo hi d A s role s' role') (hAB : ∀ i j, A i j → B i j)
    (hBA : ∀ i j, i.val < 768 → B i j → A i j ∨ target (look s' d i j) = none) :
    Unmapped lo hi d B s role s' role' := by
  refine ⟨h.frames, h.roles, h.mem, ?_, ?_⟩
  · intro i j hi' hB
    rcases hBA i j hi' hB with hA | hnone
    · exact h.gone i j hi' hA
    · exact hnone
  · intro d' i j hd' hi' hnot
    exact h.kept d' i j hd' hi' fun hc => hnot ⟨hc.1, hAB i j hc.2⟩

theorem trans (hd : role d = .dir) (h₁ : Unmapped lo hi d A s role s' role')
    (h₂ : Unmapped lo hi d B s' role' s'' role'') :
    Unmapped lo hi d (fun i j => A i j ∨ B i j) s role s'' role'' := by
  refine ⟨h₂.frames, ?_, ?_, ?_, ?_⟩
  · intro x
    rcases h₁.roles x with hx | ⟨hx, hx'⟩
    · rw [← hx]
      exact h₂.roles x
    · right
      refine ⟨hx, ?_⟩
      rcases h₂.roles x with hy | ⟨hy, hy'⟩
      · rw [hy, hx']
      · simp [hx'] at hy
  · intro x hx
    rw [h₂.mem x fun i hc => hx i ((h₁.table_iff x i).mp hc), h₁.mem x hx]
  · intro i j hi' hij
    by_cases hB : B i j
    · exact h₂.gone i j hi' hB
    · have hA := hij.resolve_right hB
      rw [h₂.kept d i j ((h₁.dir_iff d).mpr hd) hi' fun hc => hB hc.2]
      exact h₁.gone i j hi' hA
  · intro d' i j hd' hi' hnot
    rw [h₂.kept d' i j ((h₁.dir_iff d').mpr hd') hi' fun hc => hnot ⟨hc.1, Or.inr hc.2⟩,
      h₁.kept d' i j hd' hi' fun hc => hnot ⟨hc.1, Or.inl hc.2⟩]

end Unmapped

theorem look_of_entry {d t : Nat} {i : Fin 1024} (h : s.entry d i = some t) (j : Fin 1024) :
    look s d i j = s.mem t j := by
  unfold look
  rw [h]

theorem look_of_entry_none {d : Nat} {i : Fin 1024} (h : s.entry d i = none) (j : Fin 1024) :
    look s d i j = 0 := by
  unfold look
  rw [h]

/-- A page that is shown is an entry of a page table. -/
theorem entry_of_look {d f : Nat} {i j : Fin 1024} (h : target (look s d i j) = some f) :
    ∃ t, s.entry d i = some t ∧ s.entry t j = some f := by
  cases hentry : s.entry d i with
  | none =>
      rw [look_of_entry_none hentry, target_zero] at h
      simp at h
  | some t =>
      rw [look_of_entry hentry] at h
      exact ⟨t, rfl, h⟩

theorem Frames.user_of_look (h : Frames lo hi s role) {d f : Nat} (hd : role d = .dir) {i j : Fin 1024}
    (hi' : i.val < 768) (hf : target (look s d i j) = some f) : role f = .user := by
  obtain ⟨t, hlink, hentry⟩ := entry_of_look hf
  exact h.pte t d i j f (h.entry d i t hd hi' hlink) hentry

/-- `pte_remove_page` unmaps the page of its entry. -/
theorem pteRemovePage_unmapped (h : Frames lo hi s role) {d t : Nat} {i : Fin 1024}
    (ht : role t = .table d i) (j : Fin 1024) :
    ∃ s' role', pteRemovePage s (t, j) = .ok s' ∧
      Unmapped lo hi d (fun i' j' => i' = i ∧ j' = j) s role s' role' := by
  obtain ⟨hd, hi', hlink⟩ := h.table t d i ht
  cases hentry : s.entry t j with
  | none =>
      refine ⟨s, role, ?_, ⟨h, fun _ => Or.inl rfl, fun _ _ => rfl, ?_, fun _ _ _ _ _ _ => rfl⟩⟩
      · unfold pteRemovePage
        rw [if_neg (by simpa using target_eq_none_iff.mp hentry)]
      · rintro _ _ - ⟨rfl, rfl⟩
        rw [look_of_entry hlink]
        exact hentry
  | some p =>
      obtain ⟨m, hcall, hframes⟩ := pteRemovePage_frames h ht j hentry
      refine ⟨_, _, hcall, ⟨hframes, retarget_zero_cases h ht j, ?_, ?_, ?_⟩⟩
      · intro x hx
        refine store_mem_of_ne s j 0 ?_
        rintro rfl
        exact hx i ht
      · rintro i' j' hi'' ⟨rfl, rfl⟩
        have hlook := look_store h ht j' 0 hd hi' j'
        rw [if_pos ⟨rfl, rfl, rfl⟩] at hlook
        show target (look (s.store t j' 0) d i' j') = none
        rw [hlook]
        exact target_zero
      · intro d' i' j' hd' hi'' hnot
        have hlook := look_store h ht j 0 hd' hi'' j'
        rwa [if_neg fun hc => hnot ⟨hc.1, hc.2⟩] at hlook

/-- `page_remove` unmaps one page. -/
theorem pageRemove_unmapped (h : Frames lo hi s role) {d : Nat} (hd : role d = .dir) {va : U32}
    (hva : (pgdIndex va).val < 768) :
    ∃ s' role', pageRemove s d va = .ok s' ∧
      Unmapped lo hi d (fun i j => i = pgdIndex va ∧ j = pteIndex va) s role s' role' := by
  unfold pageRemove
  cases hentry : s.entry d (pgdIndex va) with
  | none =>
      rw [getPte_absent hentry, Res.ok_bind]
      refine ⟨s, role, rfl, ⟨h, fun _ => Or.inl rfl, fun _ _ => rfl, ?_, fun _ _ _ _ _ _ => rfl⟩⟩
      rintro i j - ⟨rfl, rfl⟩
      rw [look_of_entry_none hentry]
      exact target_zero
  | some t =>
      have ht := h.entry d (pgdIndex va) t hd hva hentry
      rw [getPte_present hentry (h.le_pageCount (by simp [ht])), Res.ok_bind]
      exact pteRemovePage_unmapped h ht (pteIndex va)

/-- One round of `unmap_range` unmaps the page it stands on, or finds a slot without a page table. -/
theorem unmapRound_spec (h : Frames lo hi s role) {d : Nat} (hd : role d = .dir) {a : Nat}
    (ha : PageAligned a) (huser : a < 0xB0000000) :
    (∃ s' role', unmapRound d s (BitVec.ofNat 32 a) =
        .ok (.next (BitVec.ofNat 32 (a + 2 ^ 12)), s') ∧
      Unmapped lo hi d (fun i j => pageAddr i j = a) s role s' role') ∨
    (unmapRound d s (BitVec.ofNat 32 a) =
        .ok (.next (BitVec.ofNat 32 ((a / 2 ^ 22 + 1) * 2 ^ 22)), s) ∧
      s.entry d (pgdIndex (BitVec.ofNat 32 a)) = none) := by
  have hva := pgdIndex_lt_of_user (a := a) (by omega)
  unfold unmapRound
  cases hentry : s.entry d (pgdIndex (BitVec.ofNat 32 a)) with
  | none =>
      right
      rw [getPte_absent hentry, Res.ok_bind]
      dsimp only
      rw [nextSlot_eq huser]
      exact ⟨rfl, rfl⟩
  | some t =>
      left
      have ht := h.entry d _ t hd hva hentry
      rw [getPte_present hentry (h.le_pageCount (by simp [ht])), Res.ok_bind]
      dsimp only
      rw [add_PGSIZE_eq]
      obtain ⟨s', role', hcall, hspec⟩ := pteRemovePage_unmapped h ht (pteIndex (BitVec.ofNat 32 a))
      have hpage : (fun i j => pageAddr i j = a) = (fun i' j' =>
          i' = pgdIndex (BitVec.ofNat 32 a) ∧ j' = pteIndex (BitVec.ofNat 32 a)) := by
        funext i j
        exact propext (pageAddr_eq_iff ha i j)
      rw [hpage]
      by_cases hzero : s.mem t (pteIndex (BitVec.ofNat 32 a)) ≠ 0
      · rw [if_pos hzero, hcall]
        exact ⟨s', role', rfl, hspec⟩
      · -- The test of the loop skips an empty entry, which `pte_remove_page` would leave alone as well.
        rw [if_neg hzero]
        refine ⟨s, role, rfl, ⟨h, fun _ => Or.inl rfl, fun _ _ => rfl, ?_, fun _ _ _ _ _ _ => rfl⟩⟩
        rintro i j - ⟨rfl, rfl⟩
        rw [look_of_entry hentry, not_not.mp hzero]
        exact target_zero

/-- The tests that the range functions make first. -/
structure UserRange (start stop : U32) : Prop where
  start_aligned : start % PGSIZE = 0
  stop_aligned : stop % PGSIZE = 0
  user : isUserCanAccess start stop = true

namespace UserRange

variable {start stop : U32}

theorem lt (h : UserRange start stop) : start.toNat < stop.toNat := by
  have := h.user
  simp only [isUserCanAccess, Bool.and_eq_true, decide_eq_true_eq, BitVec.lt_def] at this
  exact this.1.2

theorem le_top (h : UserRange start stop) : stop.toNat ≤ 0xB0000000 := by
  have := h.user
  simp only [isUserCanAccess, Bool.and_eq_true, decide_eq_true_eq, BitVec.le_def] at this
  exact this.2

theorem aligned (h : UserRange start stop) : PageAligned start.toNat := by
  refine ⟨?_, start.isLt⟩
  have := congrArg BitVec.toNat h.start_aligned
  rwa [BitVec.toNat_umod] at this

theorem stop_mod (h : UserRange start stop) : stop.toNat % 2 ^ 12 = 0 := by
  have := congrArg BitVec.toNat h.stop_aligned
  rwa [BitVec.toNat_umod] at this

end UserRange

/-- `unmap_range` unmaps the pages of its range. -/
theorem unmapRange_spec (h : Frames lo hi s role) {d : Nat} (hd : role d = .dir) {start stop : U32}
    (hrange : UserRange start stop) :
    ∃ s' role', unmapRange s d start stop = .ok s' ∧
      Unmapped lo hi d (fun i j => start.toNat ≤ pageAddr i j ∧ pageAddr i j < stop.toNat) s role
        s' role' := by
  have hlt := hrange.lt
  have htop := hrange.le_top
  have hstop := hrange.stop_mod
  unfold unmapRange
  rw [if_neg (not_not.mpr ⟨hrange.start_aligned, hrange.stop_aligned⟩), hrange.user]
  simp only [Bool.not_true, Bool.false_eq_true, if_false]
  -- The pages up to the current address have been unmapped.
  let P : Nat → Machine → Prop := fun a sa => PageAligned a ∧ start.toNat ≤ a ∧ ∃ rolea,
    Unmapped lo hi d (fun i j => start.toNat ≤ pageAddr i j ∧ pageAddr i j < a ∧
      pageAddr i j < stop.toNat) s role sa rolea
  have hrule := rangeLoop_rule (unmapRound d) stop P (fun _ _ => False)
    (fun _ => False) ?_ rangeFuel (s := s) (a := start.toNat) ?_ hlt ?_
  · rw [BitVec.ofNat_toNat, BitVec.setWidth_eq] at hrule
    rcases hrule with ⟨e, -, he⟩ | ⟨code, s', hloop, hfalse | ⟨-, a, ha, -, -, role', hspec⟩⟩
    · exact absurd he id
    · exact absurd hfalse id
    · refine ⟨s', role', by rw [hloop]; rfl, hspec.mono ?_ ?_⟩
      · rintro i j ⟨h1, -, h3⟩
        exact ⟨h1, h3⟩
      · rintro i j - ⟨h1, h2⟩
        exact Or.inl ⟨h1, by omega, h2⟩
  · rintro a sa ⟨haligned, hle, rolea, hspec⟩ hmore
    have hda := (hspec.dir_iff d).mpr hd
    right
    right
    rcases unmapRound_spec hspec.frames hda haligned (by omega) with
      ⟨s', role', hcall, hone⟩ | ⟨hcall, hnone⟩
    · refine ⟨_, s', hcall, le_rfl, by omega, ⟨⟨?_, by omega⟩, by omega, role', ?_⟩⟩
      · have := haligned.aligned
        omega
      · refine (hspec.trans hd hone).mono ?_ ?_
        · rintro i j (⟨h1, h2, h3⟩ | hij)
          · exact ⟨h1, by omega, h3⟩
          · exact ⟨by omega, by omega, by omega⟩
        · rintro i j - ⟨h1, h2, h3⟩
          refine Or.inl ?_
          by_cases hij : pageAddr i j < a
          · exact Or.inl ⟨h1, hij, h3⟩
          · have hpage := (pageAddr_aligned i j).aligned
            have := haligned.aligned
            exact Or.inr (by omega)
    · refine ⟨_, sa, hcall, ?_, by omega, ⟨⟨by omega, by omega⟩, by omega, rolea, ?_⟩⟩
      · have := haligned.aligned
        omega
      · -- The pages that are skipped have no page table.
        refine hspec.mono ?_ ?_
        · rintro i j ⟨h1, h2, h3⟩
          exact ⟨h1, by omega, h3⟩
        · rintro i j - ⟨h1, h2, h3⟩
          by_cases hij : pageAddr i j < a
          · exact Or.inl ⟨h1, hij, h3⟩
          · right
            have hi' := eq_pgdIndex_of_lt_nextSlot haligned.lt (Nat.not_lt.mp hij) h2
            rw [look_of_entry_none (hi' ▸ hnone)]
            exact target_zero
  · exact ⟨hrange.aligned, le_rfl, role, Unmapped.refl h (by intro i j; omega)⟩
  · unfold rangeFuel
    omega

/-! ### Mapping -/

/-- The word that `page_insert` writes. -/
def pteWord (page : Nat) (perm : U32) : U32 := page2pa page ||| PTE_PAGE_PERSENT ||| perm

theorem target_pteWord {page : Nat} (hpage : page < 2 ^ 20) {perm : U32} (hperm : perm.toNat < 2 ^ 12) :
    target (pteWord page perm) = some page := by
  have hflags : (PTE_PAGE_PERSENT ||| perm).toNat < 2 ^ 12 := by
    rw [BitVec.toNat_or]
    exact Nat.or_lt_two_pow (by decide) hperm
  have hpresent : (PTE_PAGE_PERSENT ||| perm) &&& PTE_PAGE_PERSENT ≠ 0 := by
    intro hc
    have := congrArg (fun w : U32 => w.getLsbD 0) hc
    simp [PTE_PAGE_PERSENT] at this
  unfold pteWord
  rw [BitVec.or_assoc]
  exact target_or_flags hpage hflags hpresent

/-- `page_insert` runs out of memory, or maps the page in a page table that it may have made. -/
theorem pageInsert_frames (h : Frames lo hi s role) {d : Nat} (hd : role d = .dir) {va perm : U32}
    (hva : (pgdIndex va).val < 768) {page : Nat} (hpage : role page = .user ∨ role page = .held)
    (hperm : perm.toNat < 2 ^ 12) :
    pageInsert s d page va perm = .ok (-E_NOMEM, s) ∨
      ∃ t s₁ role₁ m, TableReady s role d (pgdIndex va) t s₁ role₁ ∧ Frames lo hi s₁ role₁ ∧
        pageInsert s d page va perm =
          .ok (0, { s₁.store t (pteIndex va) (pteWord page perm) with pmm := m }) ∧
        Frames lo hi { s₁.store t (pteIndex va) (pteWord page perm) with pmm := m }
          (retarget s₁ role₁ t (pteIndex va) (pteWord page perm)) := by
  unfold pageInsert
  rcases getPte_create h hd hva with hcall | ⟨t, s₁, role₁, hcall, hready, hframes⟩
  · left
    rw [hcall]
    rfl
  · right
    have hpage₁ : role₁ page = .user ∨ role₁ page = .held := by
      rwa [hready.role_eq (by rcases hpage with hp | hp <;> simp [hp])]
    have hkernel : role page ≠ .kernel := by
      rcases hpage with hp | hp <;> simp [hp]
    obtain ⟨s₂, m, hevict, hstore, hresult⟩ := evictOld_frames hframes hready.isTable (pteIndex va)
      hpage₁ (target_pteWord (h.lt hkernel) hperm)
    refine ⟨t, s₁, role₁, m, hready, hframes, ?_, hresult⟩
    rw [hcall, Res.ok_bind]
    dsimp only
    rw [hevict, Res.ok_bind, ← hstore]
    rfl

/-- What `page_insert` leaves, seen through the directories. -/
structure Inserted (lo hi : Nat) (d : Nat) (va : U32) (page : Nat) (perm : U32) (s : Machine)
    (role : Nat → Role) (s' : Machine) (role' : Nat → Role) : Prop where
  frames : Frames lo hi s' role'
  mapped : role' page = .user
  /-- A frame that is freed was mapped at this place. -/
  roles : ∀ x, role x ≠ .free → x ≠ page → role' x = role x ∨
    (role x = .user ∧ target (look s d (pgdIndex va) (pteIndex va)) = some x ∧ role' x = .free)
  steady : Steady (Function.update role page .user) role'
  mem : ∀ x, role x ≠ .free → x ≠ d → (∀ i, role x ≠ .table d i) → s'.mem x = s.mem x
  words : ∀ d' i j, role d' = .dir → i.val < 768 → look s' d' i j =
    if d' = d ∧ i = pgdIndex va ∧ j = pteIndex va then pteWord page perm else look s d' i j

theorem pageInsert_spec (h : Frames lo hi s role) {d : Nat} (hd : role d = .dir) {va perm : U32}
    (hva : (pgdIndex va).val < 768) {page : Nat} (hpage : role page = .user ∨ role page = .held)
    (hperm : perm.toNat < 2 ^ 12) :
    pageInsert s d page va perm = .ok (-E_NOMEM, s) ∨
      ∃ s' role', pageInsert s d page va perm = .ok (0, s') ∧
        Inserted lo hi d va page perm s role s' role' := by
  rcases pageInsert_frames h hd hva hpage hperm with hcall | ⟨t, s₁, role₁, m, hready, h₁, hcall, hres⟩
  · exact Or.inl hcall
  right
  have hlive : role page ≠ .free ∧ role page ≠ .kernel := by
    rcases hpage with hp | hp <;> simp [hp]
  have ht := hready.isTable
  have hd₁ : role₁ d = .dir := (hready.steady.dir d).mpr hd
  have hword := target_pteWord (h.lt hlive.2) hperm
  have hpt : t ≠ page := by
    rintro rfl
    rw [hready.role_eq hlive.1] at ht
    rcases hpage with hp | hp <;> simp [hp] at ht
  obtain ⟨-, hi', hlink⟩ := h₁.table t d _ ht
  have hlook₁ : ∀ d' i j, role d' = .dir → i.val < 768 → look s₁ d' i j = look s d' i j :=
    fun d' i j hd' hi'' => hready.look_eq h hd hd' hi'' j
  have hsteady : Steady (Function.update role page .user) (Function.update role₁ page .user) := by
    refine Steady.of_cases fun x => ?_
    by_cases hx : x = page
    · subst hx
      simp
    · rw [Function.update_of_ne hx, Function.update_of_ne hx]
      cases hready with
      | found _ => exact Or.inl rfl
      | created ht' hnone =>
          by_cases hxt : x = t
          · subst hxt
            exact Or.inr ⟨Or.inl ht', Or.inr (Or.inr ⟨d, _, Function.update_self ..⟩)⟩
          · exact Or.inl (Function.update_of_ne hxt _ _)
  refine ⟨_, _, hcall, ⟨hres, ?_, ?_, hsteady.trans (retarget_steady h₁ ht _ hword), ?_, ?_⟩⟩
  · rcases retarget_cases h₁ ht (pteIndex va) hword page with hx | ⟨hx, -⟩
    · rw [hx, Function.update_self]
    · exact absurd rfl hx
  · intro x hx hxp
    rw [← hready.role_eq hx]
    rcases retarget_cases h₁ ht (pteIndex va) hword x with hx' | ⟨-, hentry, hu, hx'⟩
    · left
      rw [hx', Function.update_of_ne hxp]
    · right
      refine ⟨hu, ?_, hx'⟩
      rw [← hlook₁ d _ _ hd hi', look_of_entry hlink]
      exact hentry
  · intro x hx hxd hxt
    have hxt' : x ≠ t := by
      rintro rfl
      exact hxt _ ((hready.role_eq hx).symm.trans ht)
    show (s₁.store t (pteIndex va) (pteWord page perm)).mem x = s.mem x
    rw [store_mem_of_ne _ _ _ hxt', hready.mem_eq hx hxd]
  · intro d' i j hd' hi''
    have hd'₁ : role₁ d' = .dir := (hready.steady.dir d').mpr hd'
    show look (s₁.store t (pteIndex va) (pteWord page perm)) d' i j = _
    rw [look_store h₁ ht (pteIndex va) _ hd'₁ hi'' j, hlook₁ d' i j hd' hi'']

/-! ### Copying -/

/-- What a frame contains does not show in the directories unless it is one of them or a page table. -/
theorem look_fillData (h : Frames lo hi s role) {p : Nat} (hdir : role p ≠ .dir) (htable : (role p).isTable = false)
    (words : FrameWords) {d : Nat} (hd : role d = .dir) {i : Fin 1024} (hi' : i.val < 768) (j : Fin 1024) :
    look (s.fillFrame p words) d i j = look s d i j := by
  have hmem : ∀ x, x ≠ p → (s.fillFrame p words).mem x = s.mem x := fun x hx => Function.update_of_ne hx ..
  have hdp : d ≠ p := by
    rintro rfl
    exact hdir hd
  have hentry : (s.fillFrame p words).entry d i = s.entry d i := by
    unfold Machine.entry
    rw [hmem d hdp]
  unfold look
  rw [hentry]
  cases hsome : s.entry d i with
  | none => rfl
  | some t =>
      have htp : t ≠ p := by
        rintro rfl
        simp [h.entry d i t hd hi' hsome, Role.isTable] at htable
      dsimp only
      rw [hmem t htp]

theorem look_fillFrame (h : Frames lo hi s role) {p : Nat} (hp : role p = .held) (words : FrameWords)
    {d : Nat} (hd : role d = .dir) {i : Fin 1024} (hi' : i.val < 768) (j : Fin 1024) :
    look (s.fillFrame p words) d i j = look s d i j :=
  look_fillData h (by simp [hp]) (by simp [hp, Role.isTable]) words hd hi' j

/-- From `s` to `s'` the page at the indices of `va` was copied from `fromDir` to `toDir`. -/
structure PageCopied (lo hi : Nat) (toDir fromDir : Nat) (va : U32) (s : Machine) (role : Nat → Role)
    (s' : Machine) (role' : Nat → Role) : Prop where
  frames : Frames lo hi s' role'
  steady : Steady role role'
  roles : ∀ x, role x ≠ .free → role' x = role x ∨
    (role x = .user ∧ target (look s toDir (pgdIndex va) (pteIndex va)) = some x ∧ role' x = .free)
  mem : ∀ x, role x ≠ .free → x ≠ toDir → (∀ i, role x ≠ .table toDir i) → s'.mem x = s.mem x
  copy : ∃ page npage, target (look s fromDir (pgdIndex va) (pteIndex va)) = some page ∧
    role npage = .free ∧ role' npage = .user ∧ s'.mem npage = s.mem page ∧
    ∀ d' i j, role d' = .dir → i.val < 768 → look s' d' i j =
      if d' = toDir ∧ i = pgdIndex va ∧ j = pteIndex va then
        pteWord npage (look s fromDir (pgdIndex va) (pteIndex va) &&& PTE_USER)
      else look s d' i j

theorem and_PTE_USER_lt (w : U32) : (w &&& PTE_USER).toNat < 2 ^ 12 := by
  rw [BitVec.toNat_and]
  exact Nat.lt_of_le_of_lt Nat.and_le_right (by decide)

/-- One round of `copy_range`. -/
theorem copyRound_spec (h : Frames lo hi s role) {toDir fromDir : Nat} (hto : role toDir = .dir)
    (hfrom : role fromDir = .dir) {a : Nat} (huser : a < 0xB0000000) :
    (∃ msg, copyRound toDir fromDir s (BitVec.ofNat 32 a) = .error (.panic msg)) ∨
    copyRound toDir fromDir s (BitVec.ofNat 32 a) = .ok (.ret (-E_NOMEM), s) ∨
    (copyRound toDir fromDir s (BitVec.ofNat 32 a) =
        .ok (.next (BitVec.ofNat 32 ((a / 2 ^ 22 + 1) * 2 ^ 22)), s) ∧
      s.entry fromDir (pgdIndex (BitVec.ofNat 32 a)) = none) ∨
    (copyRound toDir fromDir s (BitVec.ofNat 32 a) = .ok (.next (BitVec.ofNat 32 (a + 2 ^ 12)), s) ∧
      target (look s fromDir (pgdIndex (BitVec.ofNat 32 a)) (pteIndex (BitVec.ofNat 32 a))) = none) ∨
    (∃ s' role', copyRound toDir fromDir s (BitVec.ofNat 32 a) =
        .ok (.next (BitVec.ofNat 32 (a + 2 ^ 12)), s') ∧
      PageCopied lo hi toDir fromDir (BitVec.ofNat 32 a) s role s' role') := by
  have hva := pgdIndex_lt_of_user (a := a) (by omega)
  generalize hvadef : BitVec.ofNat 32 a = va at hva ⊢
  unfold copyRound
  rw [← add_PGSIZE_eq, hvadef, ← nextSlot_eq huser, hvadef]
  cases hentry : s.entry fromDir (pgdIndex va) with
  | none =>
      rw [getPte_absent hentry, Res.ok_bind]
      exact Or.inr (Or.inr (Or.inl ⟨rfl, rfl⟩))
  | some tf =>
      have htf := h.entry fromDir _ tf hfrom hva hentry
      rw [getPte_present hentry (h.le_pageCount (by simp [htf])), Res.ok_bind, look_of_entry hentry]
      dsimp only
      cases hpte : target (s.mem tf (pteIndex va)) with
      | none =>
          rw [if_neg (by simpa using target_eq_none_iff.mp hpte)]
          exact Or.inr (Or.inr (Or.inr (Or.inl ⟨rfl, rfl⟩)))
      | some page =>
          rw [if_pos (present_of_target hpte)]
          have hpage : role page = .user := h.pte tf _ _ _ page htf hpte
          rcases getPte_create h hto hva with hcall | ⟨t, s₁, role₁, hcall, hready, h₁⟩
          · rw [hcall]
            exact Or.inr (Or.inl rfl)
          rw [hcall, Res.ok_bind]
          dsimp only
          -- The page table of the source has not been touched.
          have htfmem : s₁.mem tf = s.mem tf := by
            refine hready.mem_eq (by simp [htf]) ?_
            rintro rfl
            simp [htf] at hto
          have hpage₁ : role₁ page = .user := by rw [hready.role_eq (by simp [hpage]), hpage]
          rw [htfmem, pte2page_of_target hpte (h₁.le_pageCount (by simp [hpage₁])), Res.ok_bind]
          rcases allocPhyPages_frames h₁ with halloc | ⟨np, m, halloc, hnp₁, hheld⟩
          · rw [halloc]
            exact Or.inl ⟨_, rfl⟩
          have hnp : role np = .free := by
            by_contra hc
            rw [hready.role_eq hc] at hnp₁
            exact hc hnp₁
          have hne : ∀ x, role x ≠ .free → x ≠ np := by
            rintro x hx rfl
            exact hx hnp
          have hrole₂ : ∀ x, role x ≠ .free → Function.update role₁ np .held x = role x := by
            intro x hx
            rw [Function.update_of_ne (hne x hx), hready.role_eq hx]
          rw [halloc, Res.ok_bind]
          dsimp only
          have hsrc : pa2kva ({ s₁ with pmm := m } : Machine) (page2pa page) = .ok page :=
            pa2kva_page2pa h₁ (by simp [hpage₁]) rfl
          have hdst : pa2kva ({ s₁ with pmm := m } : Machine) (page2pa np) = .ok np :=
            pa2kva_page2pa h₁ (by simp [hnp₁]) rfl
          rw [hsrc, Res.ok_bind, hdst, Res.ok_bind]
          have hnpheld : Function.update role₁ np .held np = .held := Function.update_self ..
          have h₃ := hheld.fillFrame hnpheld (s₁.mem page)
          have hto₃ : Function.update role₁ np .held toDir = .dir := by
            rw [hrole₂ toDir (by simp [hto]), hto]
          rcases pageInsert_spec h₃ hto₃ hva (Or.inr hnpheld) (and_PTE_USER_lt (s.mem tf (pteIndex va)))
            with hins | ⟨s₄, role₄, hins, hspec⟩
          · left
            refine ⟨"copy_range err!", ?_⟩
            show (pageInsert _ toDir np va _ >>= _) = _
            rw [hins, Res.ok_bind]
            rfl
          · right; right; right; right
            refine ⟨s₄, role₄, ?_, ?_⟩
            · show (pageInsert _ toDir np va _ >>= _) = _
              rw [hins, Res.ok_bind]
              rfl
            -- Seen through the directories, only the last step changes anything.
            have hlook : ∀ d' i j, role d' = .dir → i.val < 768 →
                look (({ s₁ with pmm := m } : Machine).fillFrame np (s₁.mem page)) d' i j =
                  look s d' i j := by
              intro d' i j hd' hi'
              have hd₂ : Function.update role₁ np .held d' = .dir := by
                rw [hrole₂ d' (by simp [hd']), hd']
              rw [look_fillFrame hheld hnpheld _ hd₂ hi' j]
              exact hready.look_eq h hto hd' hi' j
            have hnpto : np ≠ toDir := (hne toDir (by simp [hto])).symm
            refine ⟨hspec.frames, ?_, ?_, ?_, page, np, ?_, hnp, hspec.mapped, ?_, ?_⟩
            · refine (hready.steady.trans (Steady.of_cases fun x => ?_)).trans hspec.steady
              by_cases hx : x = np
              · subst hx
                exact Or.inr ⟨Or.inl hnp₁, Or.inr (Or.inl (Function.update_self ..))⟩
              · rw [Function.update_of_ne hx, Function.update_of_ne hx]
                exact Or.inl rfl
            · intro x hx
              have hx₂ := hrole₂ x hx
              rcases hspec.roles x (by rwa [hx₂]) (hne x hx) with hx' | ⟨hu, htar, hx'⟩
              · exact Or.inl (hx'.trans hx₂)
              · rw [hlook toDir _ _ hto hva] at htar
                exact Or.inr ⟨hx₂ ▸ hu, htar, hx'⟩
            · intro x hx hxd hxt
              have hx₂ := hrole₂ x hx
              rw [hspec.mem x (by rwa [hx₂]) hxd (by rwa [hx₂])]
              refine (Function.update_of_ne (hne x hx) _ _).trans ?_
              exact hready.mem_eq hx hxd
            · rw [look_of_entry hentry]
              exact hpte
            · have hpagefree : role page ≠ .free := by simp [hpage]
              have hpaged : page ≠ toDir := by
                rintro rfl
                simp [hpage] at hto
              rw [hspec.mem np (by simp) hnpto (by simp)]
              refine (Function.update_self ..).trans ?_
              exact hready.mem_eq hpagefree hpaged
            · intro d' i j hd' hi'
              have hd₂ : Function.update role₁ np .held d' = .dir := by
                rw [hrole₂ d' (by simp [hd']), hd']
              rw [hspec.words d' i j hd₂ hi', hlook d' i j hd' hi', look_of_entry hentry]

end Ranges

end Memory
end FreakOS
