import FreakOS.Memory.LegalStr
import FreakOS.Memory.LoadRuns

/-!
# Stores into the new address space

`load_icode` writes the arguments through the directory that it has just installed.  A store to a page that is present
changes one byte of one frame, and no other address shows this frame; a store to a missing page of the stack goes through
`do_pgfault` first.

* `KeptOutside` — what user code reads outside a set of addresses is as before.
* `Building.kernelStore` — one byte, and a page fault where it is needed.
* `Building.kernelWrite` — bytes one after the other.
-/

namespace FreakOS
namespace Memory

open Lib
open Lib.Extent

/-- The bytes that user code reads from an address on. -/
def UserBytes (s : Machine) (pgdir : Nat) (va : U32) (bytes : List U8) : Prop :=
  ∀ i b, bytes[i]? = some b → userByte s pgdir (byteAddr va i) = some b

/-- What user code could read outside `A` it can read still. -/
def KeptOutside (s s' : Machine) (pgdir : Nat) (A : Set Nat) : Prop :=
  ∀ (x : U32) b, (pgdIndex x).val < 768 → x.toNat ∉ A → userByte s pgdir x = some b → userByte s' pgdir x = some b

section Stores

variable {lo hi d : Nat} {own pages own' pages' : Set Nat} {s s' s'' : Machine} {role role' : Nat → Role}

namespace KeptOutside

variable {A B : Set Nat}

theorem refl (s : Machine) (d : Nat) (A : Set Nat) : KeptOutside s s d A := fun _ _ _ _ h => h

theorem trans (h₁ : KeptOutside s s' d A) (h₂ : KeptOutside s' s'' d B) : KeptOutside s s'' d (A ∪ B) := by
  intro x b hx hout hb
  exact h₂ x b hx (fun hc => hout (Or.inr hc)) (h₁ x b hx (fun hc => hout (Or.inl hc)) hb)

theorem mono (h : KeptOutside s s' d A) (hAB : A ⊆ B) : KeptOutside s s' d B :=
  fun x b hx hout hb => h x b hx (fun hc => hout (hAB hc)) hb

end KeptOutside

/-- Addresses of one byte of one page are the same address. -/
theorem eq_of_page {x y : U32} (hi' : pgdIndex x = pgdIndex y) (hj : pteIndex x = pteIndex y)
    (hoff : x.toNat % 4096 = y.toNat % 4096) : x = y := by
  have hx := x.isLt
  have hy := y.isLt
  have hdir := congrArg Fin.val hi'
  have hpte := congrArg Fin.val hj
  simp only [pgdIndex, pteIndex, Fin.val_ofNat] at hdir hpte
  apply BitVec.eq_of_toNat_eq
  omega

/-- The pages that were mapped are mapped as before, to frames with the same contents. -/
theorem Space.kept (h : Space lo hi d own pages s role) (h' : Space lo hi d own' pages' s' role')
    (hlook : ∀ (i j : Fin 1024) f, i.val < 768 → target (look s d i j) = some f → look s' d i j = look s d i j)
    (hmem : ∀ x, role x = .user → s'.mem x = s.mem x) (A : Set Nat) : KeptOutside s s' d A := by
  intro x b hx _ hb
  rw [h.userByte_eq hx] at hb
  rw [h'.userByte_eq hx]
  obtain ⟨f, hf, rfl⟩ := Option.map_eq_some_iff.mp hb
  rw [hlook _ _ f hx hf, hf, Option.map_some, hmem f (h.frames.user_of_look h.dir hx hf)]

/-- One byte of a page that is mapped. -/
theorem Space.store (h : Space lo hi d own pages s role) {va : U32} (hva : (pgdIndex va).val < 768) {f : Nat}
    (hf : target (look s d (pgdIndex va) (pteIndex va)) = some f) (byte : U8) :
    userByte (s.fillFrame f (writeBytes (s.mem f) (va.toNat % 4096) [byte])) d va = some byte ∧
      KeptOutside s (s.fillFrame f (writeBytes (s.mem f) (va.toNat % 4096) [byte])) d {va.toNat} := by
  have huser := h.frames.user_of_look h.dir hva hf
  have hdir : role f ≠ .dir := by simp [huser]
  have htable : (role f).isTable = false := by simp [huser, Role.isTable]
  set words := writeBytes (s.mem f) (va.toNat % 4096) [byte] with hwords
  have h' := h.fill (Or.inl huser) words
  have hlook : ∀ i j : Fin 1024, i.val < 768 → look (s.fillFrame f words) d i j = look s d i j :=
    fun i j hi' => look_fillData h.frames hdir htable words h.dir hi' j
  have hself : (s.fillFrame f words).mem f = words := Function.update_self ..
  have hlt : ∀ x : U32, x.toNat % 4096 < 4096 := fun x => Nat.mod_lt _ (by decide)
  constructor
  · rw [h'.userByte_eq hva, hlook _ _ hva, hf, Option.map_some, hself, hwords,
      frameByte_writeBytes _ _ _ (hlt va), if_pos le_rfl]
    simp
  · intro x b hx hout hb
    rw [h.userByte_eq hx] at hb
    rw [h'.userByte_eq hx, hlook _ _ hx]
    obtain ⟨g, hg, rfl⟩ := Option.map_eq_some_iff.mp hb
    rw [hg, Option.map_some]
    by_cases hgf : g = f
    · -- The same frame is the same page, and another byte of it.
      subst hgf
      obtain ⟨hi', hj⟩ := h.once _ _ _ _ g hx hva hg hf
      have hoff : x.toNat % 4096 ≠ va.toNat % 4096 := by
        intro hc
        exact hout (congrArg BitVec.toNat (eq_of_page hi' hj hc))
      rw [hself, hwords, frameByte_writeBytes _ _ _ (hlt x)]
      split
      · have hpos : x.toNat % 4096 - va.toNat % 4096 ≠ 0 := by omega
        obtain ⟨n, hn⟩ := Nat.exists_eq_succ_of_ne_zero hpos
        rw [hn]
        rfl
      · rfl
    · rw [show (s.fillFrame f words).mem g = s.mem g from Function.update_of_ne hgf ..]

theorem SameAreas.dir_eq {mm mm' : MemMap} (h : SameAreas mm mm') : mm'.dir = mm.dir := by
  rw [h]
  rfl

theorem SameAreas.trans {mm₁ mm₂ mm₃ : MemMap} (h₁ : SameAreas mm₁ mm₂) (h₂ : SameAreas mm₂ mm₃) :
    SameAreas mm₁ mm₃ := by
  rw [h₁] at h₂
  exact h₂

/-- A page fault that is resolved keeps what could be read. -/
theorem Building.pgfault {mm mm' : MemMap} (h : Building lo hi mm s) {errCode va : U32} (hva : (pgdIndex va).val < 768)
    (hcall : doPgfault s mm errCode va = .ok (0, s', mm')) :
    Building lo hi mm' s' ∧ SameAreas mm mm' ∧ KeptOutside s s' mm.dir ∅ := by
  have hinval : (-E_INVAL : Int) ≠ 0 := by decide
  have hnomem : (-E_NOMEM : Int) ≠ 0 := by decide
  have hsame := findVma_sameAreas mm va
  have hinv := findVma_inv h.inv va
  have hva' : (pgdIndex (roundDown va PGSIZE)).val < 768 := by rwa [pgdIndex_roundDown]
  unfold doPgfault at hcall
  generalize findVma mm va = r at hcall hsame hinv
  obtain ⟨found, mm₁⟩ := r
  dsimp only at hcall hsame hinv
  have hdir := hsame.dir_eq
  cases found with
  | none => exact absurd (congrArg Prod.fst (Except.ok.inj hcall)) hinval
  | some vma =>
      dsimp only at hcall
      split at hcall
      · exact absurd (congrArg Prod.fst (Except.ok.inj hcall)) hinval
      split at hcall
      · exact absurd (congrArg Prod.fst (Except.ok.inj hcall)) hinval
      obtain ⟨⟨ptep, s₁⟩, hpte, hcall⟩ := Res.bind_eq_ok.mp hcall
      cases ptep with
      | none => exact absurd (congrArg Prod.fst (Except.ok.inj hcall)) hnomem
      | some ptep =>
          dsimp only at hcall
          split at hcall
          · rename_i hzero
            obtain ⟨⟨page, s₂⟩, halloc, hcall⟩ := Res.bind_eq_ok.mp hcall
            cases page with
            | none => exact absurd (congrArg Prod.fst (Except.ok.inj hcall)) hnomem
            | some p =>
                obtain ⟨rfl, rfl⟩ := Prod.mk.inj (Prod.mk.inj (Except.ok.inj hcall)).2
                rw [hdir] at hpte halloc
                obtain ⟨role, hspace⟩ := h.space
                obtain ⟨role₁, hspace₁, hlook₁, hword, huser⟩ := hspace.getPte hva' hpte
                obtain ⟨role₂, hspace₂, -, hlook₂, hmem⟩ :=
                  hspace₁.pgdirAllocPage hva' (pagePerm_lt _) (pagePerm_user _) halloc
                refine ⟨⟨hinv, ?_⟩, hsame, ?_⟩
                · rw [hdir]
                  exact Loading.mono ⟨role₂, hspace₂⟩ subset_rfl (Set.empty_subset _)
                · refine hspace.kept hspace₂ ?_ ?_ ∅
                  · intro i j f hi' hf
                    rw [hlook₂ i j hi', hlook₁ i j hi', if_neg]
                    -- The entry of the page that faults is empty.
                    rintro ⟨rfl, rfl⟩
                    rw [← hword, hzero, target_zero] at hf
                    cases hf
                  · intro x hx
                    obtain ⟨hx₁, hx₂⟩ := huser x hx
                    rw [hmem x hx₁, hx₂]
          · split at hcall
            · cases hcall
            · exact absurd (congrArg Prod.fst (Except.ok.inj hcall)) hnomem

/-! ### Stores -/

/-- One byte that the kernel stores. -/
theorem Building.kernelStore {mm mm' : MemMap} (h : Building lo hi mm s) {va : U32} (hva : (pgdIndex va).val < 768)
    {byte : U8} (hcall : kernelStore va byte mm s = .ok (mm', s')) :
    Building lo hi mm' s' ∧ SameAreas mm mm' ∧ userByte s' mm.dir va = some byte ∧
      KeptOutside s s' mm.dir {va.toNat} := by
  unfold Memory.kernelStore at hcall
  dsimp only at hcall
  cases hf : target (look s mm.dir (pgdIndex va) (pteIndex va)) with
  | some f =>
      rw [hf] at hcall
      obtain ⟨rfl, rfl⟩ := Prod.mk.inj (Except.ok.inj hcall)
      obtain ⟨role, hspace⟩ := h.space
      have huser := hspace.frames.user_of_look hspace.dir hva hf
      obtain ⟨hstored, hkept⟩ := hspace.store hva hf byte
      exact ⟨⟨h.inv, role, hspace.fill (Or.inl huser) _⟩, SameAreas.refl mm, hstored, hkept⟩
  | none =>
      rw [hf] at hcall
      obtain ⟨⟨ret, s₁, mm₁⟩, hfault, hcall⟩ := Res.bind_eq_ok.mp hcall
      dsimp only at hcall
      split at hcall
      · cases hcall
      rename_i hret
      obtain rfl : ret = 0 := not_not.mp hret
      obtain ⟨h₁, hsame, hkept₁⟩ := h.pgfault hva hfault
      rw [hsame.dir_eq] at hcall
      split at hcall
      · rename_i f hf₁
        obtain ⟨rfl, rfl⟩ := Prod.mk.inj (Except.ok.inj hcall)
        obtain ⟨role, hspace⟩ := h₁.space
        have hdir := hsame.dir_eq
        rw [hdir] at hspace
        have huser := hspace.frames.user_of_look hspace.dir hva hf₁
        obtain ⟨hstored, hkept⟩ := hspace.store hva hf₁ byte
        refine ⟨⟨h₁.inv, role, ?_⟩, hsame, hstored, (hkept₁.trans hkept).mono (by simp)⟩
        rw [hdir]
        exact hspace.fill (Or.inl huser) _
      · cases hcall

/-- Bytes that the kernel stores one after the other, by induction on them. -/
theorem Building.kernelWrite {mm mm' : MemMap} (h : Building lo hi mm s) {va : U32} {bytes : List U8}
    (hva : va.toNat + bytes.length ≤ 0xC0000000) (hcall : kernelWrite va bytes mm s = .ok (mm', s')) :
    Building lo hi mm' s' ∧ SameAreas mm mm' ∧ UserBytes s' mm.dir va bytes ∧
      KeptOutside s s' mm.dir (Set.Ico va.toNat (va.toNat + bytes.length)) := by
  induction bytes generalizing va mm s with
  | nil =>
      obtain ⟨rfl, rfl⟩ := Prod.mk.inj (Except.ok.inj hcall)
      refine ⟨h, SameAreas.refl mm, ?_, KeptOutside.refl s _ _⟩
      intro i b hb
      simp at hb
  | cons byte rest ih =>
      rw [List.length_cons] at hva ⊢
      obtain ⟨⟨mm₁, s₁⟩, hstore, hrest⟩ := Res.bind_eq_ok.mp hcall
      have hslot : (pgdIndex va).val < 768 := by
        simp only [pgdIndex, Fin.val_ofNat]
        omega
      obtain ⟨h₁, hsame₁, hstored, hkept₁⟩ := h.kernelStore hslot hstore
      have hnext : (va + 1).toNat = va.toNat + 1 := by
        rw [BitVec.toNat_add]
        exact Nat.mod_eq_of_lt (by simp; omega)
      obtain ⟨h₂, hsame₂, hbytes, hkept₂⟩ := ih h₁ (by omega) hrest
      rw [hsame₁.dir_eq, hnext] at hkept₂
      rw [hsame₁.dir_eq] at hbytes
      refine ⟨h₂, hsame₁.trans hsame₂, ?_, (hkept₁.trans hkept₂).mono ?_⟩
      · intro i b hb
        cases i with
        | zero =>
            obtain rfl : byte = b := by simpa using hb
            rw [byteAddr_zero]
            refine hkept₂ va byte hslot ?_ hstored
            rintro ⟨hle, -⟩
            omega
        | succ i =>
            rw [← byteAddr_succ]
            exact hbytes i b (by simpa using hb)
      · rintro x (rfl | ⟨hle, hlt⟩)
        · exact ⟨le_rfl, by omega⟩
        · exact ⟨by omega, by omega⟩

end Stores

end Memory
end FreakOS
