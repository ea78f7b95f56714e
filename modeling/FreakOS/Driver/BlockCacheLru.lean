import Mathlib.Data.List.Basic
import FreakOS.Driver.BlockCacheInv

/-!
# Which slot the block cache gives up

No slot knows when it was last accessed.  `bcache_rw` sets the `time` of the slot that it accesses back, and then
increments the `time` of every occupied slot, so that `time` counts the calls since the last access.

* `RwRun` — a run of `bcache_rw`, with the slots that it has accessed.
* `Accessed`, `bcacheRw_accessed` — what a call that succeeds does with the slots.
* `Aged` — the times are the ages of the slots.
* `bcache_evicts_least_recently_used` — the slot that is replaced is the one whose last access is the oldest.
-/

namespace FreakOS
namespace Driver

open Lib

/-! ### Runs -/

/-- Slot `i` is occupied by the sector. -/
def HeldIn (slots : Fin N_BCACHE → BlockCache) (sector : SectorId) (i : Fin N_BCACHE) : Prop :=
  (slots i).occupied = true ∧ (slots i).dev = sector.1 ∧ (slots i).secno = sector.2

/-- The runs of `bcache_rw` in which every call succeeds; `sync_all_bcache` may come in between, whatever it answers.
`accesses`, newest first, has the slot that each call has accessed: the one that holds the sector afterwards. -/
inductive RwRun (hw : Hardware) (disk : SectorId → Sector) (data : Fin N_BCACHE → Sector) :
    List (Fin N_BCACHE) → Sys → Prop
  | init : RwRun hw disk data [] (initBlockCache disk data)
  | rw {accesses : List (Fin N_BCACHE)} {s s' : Sys} {blockdev secno : U32} {buffer buffer' : Sector} {write : IOType}
      {i : Fin N_BCACHE} (hrun : RwRun hw disk data accesses s)
      (hcall : bcacheRw hw s blockdev buffer secno write = .ok (0, buffer', s'))
      (hheld : HeldIn s'.slots (blockdev, secno) i) : RwRun hw disk data (i :: accesses) s'
  | sync {accesses : List (Fin N_BCACHE)} {s s' : Sys} {err : Nat} (hrun : RwRun hw disk data accesses s)
      (hcall : syncAllBcache hw s = .ok (err, s')) : RwRun hw disk data accesses s'

/-! ### The search for a victim -/

/-- The victim has the largest time of the slots that the scan has seen. -/
theorem scanSlots_victim_time {slots : Fin N_BCACHE → BlockCache} {max v : Fin N_BCACHE} {is : List (Fin N_BCACHE)}
    (h : scanSlots slots max is = .victim v) :
    (slots max).time ≤ (slots v).time ∧ ∀ i ∈ is, (slots i).time ≤ (slots v).time := by
  induction is generalizing max with
  | nil =>
      obtain rfl : max = v := by simpa [scanSlots] using h
      simp
  | cons j js ih =>
      unfold scanSlots at h
      split at h
      · simp at h
      · split at h
        · rename_i hlater
          obtain ⟨hj, hrest⟩ := ih h
          refine ⟨BitVec.le_trans (BitVec.le_of_lt hlater) hj, ?_⟩
          intro i hi
          cases List.mem_cons.mp hi with
          | inl heq => exact heq ▸ hj
          | inr hi => exact hrest i hi
        · rename_i hearlier
          obtain ⟨hmax, hrest⟩ := ih h
          refine ⟨hmax, ?_⟩
          intro i hi
          cases List.mem_cons.mp hi with
          | inl heq => exact heq ▸ BitVec.le_trans (BitVec.not_lt.mp hearlier) hmax
          | inr hi => exact hrest i hi

/-- A scan that finds no free slot has seen that all are occupied. -/
theorem scanSlots_free_or_full (slots : Fin N_BCACHE → BlockCache) (max : Fin N_BCACHE) :
    (∃ i, scanSlots slots max (List.finRange N_BCACHE) = .free i ∧ (slots i).occupied = false) ∨
      ∃ v, scanSlots slots max (List.finRange N_BCACHE) = .victim v ∧ (∀ i, (slots i).occupied = true) ∧
        ∀ i, (slots i).time ≤ (slots v).time := by
  cases hscan : scanSlots slots max (List.finRange N_BCACHE) with
  | free i => exact Or.inl ⟨i, rfl, scanSlots_free hscan⟩
  | victim v =>
      exact Or.inr ⟨v, rfl, fun i => scanSlots_victim hscan i (List.mem_finRange i),
        fun i => (scanSlots_victim_time hscan).2 i (List.mem_finRange i)⟩

/-! ### One call -/

/-- What makes `bcache_rw` choose slot `i` for a sector. -/
inductive Choice (slots : Fin N_BCACHE → BlockCache) (sector : SectorId) (i : Fin N_BCACHE) : Prop
  | hit (hheld : HeldIn slots sector i)
  | free (hmiss : ∀ j, ¬ HeldIn slots sector j) (hfree : (slots i).occupied = false)
  | victim (hmiss : ∀ j, ¬ HeldIn slots sector j) (hfull : ∀ j, (slots j).occupied = true)
      (hlargest : ∀ j, (slots j).time ≤ (slots i).time)

/-- A call has accessed slot `i` for a sector: the slot holds the sector and its time has been set back, and then the
times of all occupied slots have been incremented. -/
def Accessed (slots slots' : Fin N_BCACHE → BlockCache) (sector : SectorId) (i : Fin N_BCACHE) : Prop :=
  ∃ slot : BlockCache, slot.occupied = true ∧ slot.dev = sector.1 ∧ slot.secno = sector.2 ∧ slot.time = 0 ∧
    slots' = updateTime (Function.update slots i slot)

theorem findHit_eq_none {slots : Fin N_BCACHE → BlockCache} {blockdev secno : U32}
    (h : findHit slots blockdev secno = none) (j : Fin N_BCACHE) : ¬ HeldIn slots (blockdev, secno) j := by
  intro hheld
  have hnot := List.find?_eq_none.mp h j (List.mem_finRange j)
  simp [hheld.1, hheld.2.1, hheld.2.2] at hnot

/-- A request to a device leaves the slots as they are. -/
theorem diskIoDirectOneblock_slots {hw : Hardware} {s s' : Sys} {blockdev secno : U32} {buffer data : Sector}
    {io : IOType} {err : Nat} (h : diskIoDirectOneblock hw s blockdev buffer secno io = .ok (err, data, s')) :
    s'.slots = s.slots := by
  unfold diskIoDirectOneblock at h
  split at h
  · simp at h
  · obtain rfl := congrArg (fun r => r.2.2) (Except.ok.inj h)
    show (request hw s io blockdev secno buffer).2.2.slots = s.slots
    unfold request
    cases io with
    | ioRead =>
        dsimp only
        split <;> rfl
    | ioWrite =>
        dsimp only
        split <;> rfl

/-- A request that the device serves is answered with success. -/
theorem diskIoDirectOneblock_served {hw : Hardware} {s s' : Sys} {blockdev secno : U32} {buffer data : Sector}
    {io : IOType} {err : Nat} (h : diskIoDirectOneblock hw s blockdev buffer secno io = .ok (err, data, s')) :
    s'.served = s.served + 1 ∧ (hw.readFails s.served = none → hw.writeFails s.served = false → err = 0) := by
  unfold diskIoDirectOneblock at h
  split at h
  · simp at h
  · obtain ⟨rfl, hrest⟩ := Prod.mk.inj (Except.ok.inj h)
    obtain ⟨-, rfl⟩ := Prod.mk.inj hrest
    cases io with
    | ioRead =>
        dsimp only
        cases hread : hw.readFails s.served with
        | none => exact ⟨rfl, fun _ _ => rfl⟩
        | some left => exact ⟨rfl, by simp⟩
    | ioWrite =>
        dsimp only
        cases hwrite : hw.writeFails s.served with
        | false => exact ⟨rfl, fun _ _ => rfl⟩
        | true => exact ⟨rfl, by simp⟩

/-- A load that succeeds ends the access of the slot, whatever the requests before it have left. -/
theorem loadSlot_accessed {hw : Hardware} {s s' : Sys} {slots : Fin N_BCACHE → BlockCache} {i : Fin N_BCACHE}
    {slot : BlockCache} {blockdev secno : U32} {buffer buffer' : Sector} {write : IOType}
    (hocc : slot.occupied = true) (hdev : slot.dev = blockdev) (hsecno : slot.secno = secno)
    (hslots : s.slots = Function.update slots i slot)
    (hcall : loadSlot hw s i blockdev buffer secno write = .ok (0, buffer', s')) :
    Accessed slots s'.slots (blockdev, secno) i := by
  have hslot : s.slots i = slot := by rw [hslots, Function.update_self]
  have hupdate (slot' : BlockCache) : Function.update s.slots i slot' = Function.update slots i slot' := by
    rw [hslots, Function.update_idem]
  unfold loadSlot at hcall
  obtain ⟨⟨err, data, s₁⟩, hread, hcall⟩ := Res.bind_eq_ok.mp hcall
  dsimp only at hcall
  split at hcall
  · simp [pure, Except.pure] at hcall
  · cases write with
    | ioRead =>
        obtain ⟨-, -, rfl⟩ : 0 = 0 ∧ data = buffer' ∧ _ = s' := by simpa [pure, Except.pure] using hcall
        exact ⟨{ slot with data := data, modified := false, time := 0 }, hocc, hdev, hsecno, rfl, by
          simp only [finishRw, hslot, hupdate]
          rfl⟩
    | ioWrite =>
        obtain ⟨-, -, rfl⟩ : 0 = 0 ∧ buffer = buffer' ∧ _ = s' := by simpa [pure, Except.pure] using hcall
        exact ⟨{ slot with data := buffer, modified := true, time := 0 }, hocc, hdev, hsecno, rfl, by
          simp only [finishRw, hslot, hupdate]
          rfl⟩

/-- A call that succeeds accesses the slot that it has chosen. -/
theorem bcacheRw_accessed {hw : Hardware} {s s' : Sys} {blockdev secno : U32} {buffer buffer' : Sector} {write : IOType}
    (hcall : bcacheRw hw s blockdev buffer secno write = .ok (0, buffer', s')) :
    ∃ i, Choice s.slots (blockdev, secno) i ∧ Accessed s.slots s'.slots (blockdev, secno) i := by
  unfold bcacheRw at hcall
  cases hhit : findHit s.slots blockdev secno with
  | some i =>
      obtain ⟨-, hocc, hdev, hsecno⟩ := findHit_some hhit
      rw [hhit] at hcall
      refine ⟨i, .hit ⟨hocc, hdev, hsecno⟩, ?_⟩
      cases write with
      | ioRead =>
          obtain ⟨-, -, rfl⟩ : 0 = 0 ∧ (s.slots i).data = buffer' ∧ _ = s' := by simpa [pure, Except.pure] using hcall
          exact ⟨{ s.slots i with time := 0 }, hocc, hdev, hsecno, rfl, rfl⟩
      | ioWrite =>
          obtain ⟨-, -, rfl⟩ : 0 = 0 ∧ buffer = buffer' ∧ _ = s' := by simpa [pure, Except.pure] using hcall
          exact ⟨{ s.slots i with data := buffer, modified := true, time := 0 }, hocc, hdev, hsecno, rfl, rfl⟩
  | none =>
      have hmiss := findHit_eq_none hhit
      rw [hhit] at hcall
      dsimp only at hcall
      obtain ⟨i, hscan, hfree⟩ | ⟨v, hscan, hfull, hlargest⟩ := scanSlots_free_or_full s.slots ⟨0, by decide⟩
      · rw [hscan] at hcall
        exact ⟨i, .free hmiss hfree, loadSlot_accessed rfl rfl rfl rfl hcall⟩
      · rw [hscan] at hcall
        dsimp only at hcall
        refine ⟨v, .victim hmiss hfull hlargest, ?_⟩
        split at hcall
        · -- The victim has been written back first; this leaves the slots as they are.
          obtain ⟨⟨err, data, s₁⟩, hback, hcall⟩ := Res.bind_eq_ok.mp hcall
          dsimp only at hcall
          split at hcall
          · simp [pure, Except.pure] at hcall
          · have hsame := diskIoDirectOneblock_slots hback
            exact loadSlot_accessed rfl rfl rfl (by rw [hsame]) hcall
        · exact loadSlot_accessed rfl rfl rfl rfl hcall

theorem loadSlot_served {hw : Hardware} {s : Sys} {i : Fin N_BCACHE} {blockdev secno : U32} {buffer : Sector}
    {write : IOType} {r : Nat × Sector × Sys} (hcall : loadSlot hw s i blockdev buffer secno write = .ok r) :
    r.2.2.served = s.served + 1 ∧ (hw.readFails s.served = none → hw.writeFails s.served = false → r.1 = 0) := by
  unfold loadSlot at hcall
  obtain ⟨⟨err, data, s₁⟩, hread, hcall⟩ := Res.bind_eq_ok.mp hcall
  obtain ⟨hserved, hok⟩ := diskIoDirectOneblock_served hread
  dsimp only at hcall
  split at hcall
  · obtain rfl := Except.ok.inj hcall
    exact ⟨hserved, fun h1 h2 => absurd (hok h1 h2) ‹_›⟩
  · cases write <;> obtain rfl := Except.ok.inj hcall <;> exact ⟨hserved, fun _ _ => rfl⟩

/-- `bcache_rw` succeeds when the devices serve every request that it makes. -/
theorem bcacheRw_served {hw : Hardware} {s : Sys} {blockdev secno : U32} {buffer : Sector} {write : IOType}
    {r : Nat × Sector × Sys} (hcall : bcacheRw hw s blockdev buffer secno write = .ok r)
    (hserved : ∀ n, s.served ≤ n → n < r.2.2.served → hw.readFails n = none ∧ hw.writeFails n = false) : r.1 = 0 := by
  unfold bcacheRw at hcall
  split at hcall
  · cases write <;> obtain rfl := Except.ok.inj hcall <;> rfl
  · split at hcall
    · obtain ⟨hcount, hok⟩ := loadSlot_served hcall
      obtain ⟨h1, h2⟩ := hserved s.served (le_refl _) (by rw [hcount]; exact Nat.lt_succ_self _)
      exact hok h1 h2
    · dsimp only at hcall
      split at hcall
      · obtain ⟨⟨err, data, s₁⟩, hback, hcall⟩ := Res.bind_eq_ok.mp hcall
        obtain ⟨hcount₁, hok₁⟩ := diskIoDirectOneblock_served hback
        dsimp only at hcall
        split at hcall
        · rename_i herr
          obtain rfl := Except.ok.inj hcall
          obtain ⟨h1, h2⟩ := hserved s.served (le_refl _) (by rw [hcount₁]; exact Nat.lt_succ_self _)
          exact absurd (hok₁ h1 h2) herr
        · obtain ⟨hcount, hok⟩ := loadSlot_served hcall
          dsimp only at hcount hok
          obtain ⟨h1, h2⟩ := hserved s₁.served (by omega) (by omega)
          exact hok h1 h2
      · obtain ⟨hcount, hok⟩ := loadSlot_served hcall
        obtain ⟨h1, h2⟩ := hserved s.served (le_refl _) (by rw [hcount]; exact Nat.lt_succ_self _)
        exact hok h1 h2

/-! ### The times are ages -/

/-- The occupied slots have been accessed, and their times count the calls since the last access, with the call itself.
No two of them are occupied by one sector. -/
structure Aged (accesses : List (Fin N_BCACHE)) (slots : Fin N_BCACHE → BlockCache) : Prop where
  accessed : ∀ i, (slots i).occupied = true → i ∈ accesses
  age : ∀ i, (slots i).occupied = true → (slots i).time.toNat = accesses.idxOf i + 1
  unique : ∀ i j sector, HeldIn slots sector i → HeldIn slots sector j → i = j

section Access

variable {slots slots' : Fin N_BCACHE → BlockCache} {sector : SectorId} {i j : Fin N_BCACHE}

/-- Only the accessed slot changes hands. -/
theorem Accessed.frame (h : Accessed slots slots' sector i) (hj : j ≠ i) :
    slots' j = if (slots j).occupied then { slots j with time := (slots j).time + 1 } else slots j := by
  obtain ⟨slot, -, -, -, -, rfl⟩ := h
  simp only [updateTime, Function.update_of_ne hj]

theorem Accessed.occupied (h : Accessed slots slots' sector i) (hj : j ≠ i) :
    (slots' j).occupied = (slots j).occupied := by
  rw [h.frame hj]
  split <;> rfl

theorem Accessed.heldIn_iff (h : Accessed slots slots' sector i) (hj : j ≠ i) (key : SectorId) :
    HeldIn slots' key j ↔ HeldIn slots key j := by
  unfold HeldIn
  rw [h.frame hj]
  split <;> rfl

theorem Accessed.heldIn (h : Accessed slots slots' sector i) : HeldIn slots' sector i := by
  obtain ⟨slot, hocc, hdev, hsecno, -, rfl⟩ := h
  simp only [HeldIn, updateTime, Function.update_self, hocc, if_true]
  exact ⟨trivial, hdev, hsecno⟩

theorem Accessed.time (h : Accessed slots slots' sector i) : (slots' i).time = 1 := by
  obtain ⟨slot, hocc, -, -, htime, rfl⟩ := h
  simp only [updateTime, Function.update_self, hocc, if_true, htime]
  rfl

/-- Nobody but the chosen slot holds the sector. -/
theorem Choice.not_heldIn {accesses : List (Fin N_BCACHE)} (haged : Aged accesses slots)
    (h : Choice slots sector i) (hj : j ≠ i) : ¬ HeldIn slots sector j := by
  cases h with
  | hit hheld => exact fun hother => hj (haged.unique j i sector hother hheld)
  | free hmiss => exact hmiss j
  | victim hmiss => exact hmiss j

/-- After the call the sector is in the accessed slot only. -/
theorem Accessed.heldIn_unique {accesses : List (Fin N_BCACHE)} (haged : Aged accesses slots)
    (hchoice : Choice slots sector i) (h : Accessed slots slots' sector i) (hheld : HeldIn slots' sector j) : j = i := by
  by_contra hj
  exact hchoice.not_heldIn haged hj ((h.heldIn_iff hj sector).mp hheld)

/-- One call makes every age but that of the accessed slot one larger. -/
theorem Aged.access {accesses : List (Fin N_BCACHE)} (haged : Aged accesses slots)
    (hlen : accesses.length < 2 ^ 32 - 1) (hchoice : Choice slots sector i) (h : Accessed slots slots' sector i) :
    Aged (i :: accesses) slots' := by
  refine ⟨?_, ?_, ?_⟩
  · intro j hocc
    by_cases hj : j = i
    · exact hj ▸ List.mem_cons_self
    · rw [h.occupied hj] at hocc
      exact List.mem_cons_of_mem i (haged.accessed j hocc)
  · intro j hocc
    by_cases hj : j = i
    · rw [hj, h.time, List.idxOf_cons_self]
      rfl
    · rw [h.occupied hj] at hocc
      -- The time does not wrap around: the slot was accessed in one of the calls.
      have hage := haged.age j hocc
      have hlt := List.idxOf_lt_length_of_mem (haged.accessed j hocc)
      have hone : (1 : U32).toNat = 1 := rfl
      rw [h.frame hj, if_pos hocc, List.idxOf_cons_ne accesses (Ne.symm hj)]
      dsimp only
      rw [BitVec.toNat_add, hage, hone]
      omega
  · intro j k key hjheld hkheld
    by_cases hj : j = i
    · subst hj
      by_contra hk
      have hkey : key = sector := Prod.ext (hjheld.2.1.symm.trans h.heldIn.2.1) (hjheld.2.2.symm.trans h.heldIn.2.2)
      exact hk (h.heldIn_unique haged hchoice (hkey ▸ hkheld)).symm
    · by_cases hk : k = i
      · subst hk
        have hkey : key = sector := Prod.ext (hkheld.2.1.symm.trans h.heldIn.2.1) (hkheld.2.2.symm.trans h.heldIn.2.2)
        exact h.heldIn_unique haged hchoice (hkey ▸ hjheld)
      · exact haged.unique j k key ((h.heldIn_iff hj key).mp hjheld) ((h.heldIn_iff hk key).mp hkheld)

end Access

/-- `sync_all_bcache` does not touch the slots. -/
theorem syncLoop_slots {hw : Hardware} (is : List (Fin N_BCACHE)) {s s' : Sys} {err : Nat}
    (h : syncLoop hw s is = .ok (err, s')) : s'.slots = s.slots := by
  induction is generalizing s with
  | nil =>
      obtain rfl := congrArg Prod.snd (Except.ok.inj h)
      rfl
  | cons i is ih =>
      unfold syncLoop at h
      split at h
      · obtain ⟨⟨err', data, s₁⟩, hreq, h⟩ := Res.bind_eq_ok.mp h
        have hsame := diskIoDirectOneblock_slots hreq
        dsimp only at h
        split at h
        · obtain rfl := congrArg Prod.snd (Except.ok.inj h)
          exact hsame
        · exact (ih h).trans hsame
      · exact ih h

/-- In every run the times are ages, as long as they do not wrap around. -/
theorem RwRun.aged {hw : Hardware} {disk : SectorId → Sector} {data : Fin N_BCACHE → Sector}
    {accesses : List (Fin N_BCACHE)} {s : Sys} (hrun : RwRun hw disk data accesses s)
    (hlen : accesses.length < 2 ^ 32) : Aged accesses s.slots := by
  induction hrun with
  | init =>
      refine ⟨?_, ?_, ?_⟩
      · intro i hocc
        simp [initBlockCache] at hocc
      · intro i hocc
        simp [initBlockCache] at hocc
      · intro i j sector hheld
        simp [HeldIn, initBlockCache] at hheld
  | @rw accesses s s' blockdev secno buffer buffer' write i hrun hcall hheld ih =>
      simp only [List.length_cons] at hlen
      have haged := ih (by omega)
      obtain ⟨k, hchoice, haccess⟩ := bcacheRw_accessed hcall
      obtain rfl := haccess.heldIn_unique haged hchoice hheld
      exact haged.access (by omega) hchoice haccess
  | sync hrun hcall ih =>
      rw [syncLoop_slots _ hcall]
      exact ih hlen

/-! ### Least recently used -/

/-- What a call does with the slots: it accesses slot `i`, which is the slot of the sector if there is one, else a free
slot if there is one, and else the slot whose last access is the oldest. -/
structure Evicts (accesses : List (Fin N_BCACHE)) (slots slots' : Fin N_BCACHE → BlockCache) (sector : SectorId)
    (i : Fin N_BCACHE) : Prop where
  held : HeldIn slots' sector i
  others : ∀ j ≠ i, (slots' j).occupied = (slots j).occupied ∧ ∀ key, HeldIn slots' key j ↔ HeldIn slots key j
  hit : (∃ j, HeldIn slots sector j) → HeldIn slots sector i
  free : (∀ j, ¬ HeldIn slots sector j) → (∃ j, (slots j).occupied = false) → (slots i).occupied = false
  oldest : (∀ j, ¬ HeldIn slots sector j) → (∀ j, (slots j).occupied = true) →
    ∀ j ≠ i, accesses.idxOf j < accesses.idxOf i

section Ages

variable {accesses : List (Fin N_BCACHE)} {slots slots' : Fin N_BCACHE → BlockCache}

/-- The times order the occupied slots by their last accesses. -/
theorem Aged.time_lt_iff (haged : Aged accesses slots) {i j : Fin N_BCACHE} (hi : (slots i).occupied = true)
    (hj : (slots j).occupied = true) : (slots i).time < (slots j).time ↔ accesses.idxOf i < accesses.idxOf j := by
  rw [BitVec.lt_def, haged.age i hi, haged.age j hj]
  omega

theorem Aged.time_ne (haged : Aged accesses slots) {i j : Fin N_BCACHE} (hi : (slots i).occupied = true)
    (hj : (slots j).occupied = true) (hne : i ≠ j) : (slots i).time ≠ (slots j).time := by
  intro heq
  have hsame := congrArg BitVec.toNat heq
  rw [haged.age i hi, haged.age j hj] at hsame
  exact hne ((List.idxOf_inj (haged.accessed i hi)).mp (Nat.succ_inj.mp hsame))

theorem Aged.evicts (haged : Aged accesses slots) {sector : SectorId} {i : Fin N_BCACHE}
    (hchoice : Choice slots sector i) (h : Accessed slots slots' sector i) :
    Evicts accesses slots slots' sector i := by
  refine ⟨h.heldIn, fun j hj => ⟨h.occupied hj, h.heldIn_iff hj⟩, ?_, ?_, ?_⟩
  · intro ⟨j, hheld⟩
    have hji : j = i := by
      by_contra hj
      exact hchoice.not_heldIn haged hj hheld
    exact hji ▸ hheld
  · intro hmiss ⟨j, hfree⟩
    cases hchoice with
    | hit hheld => exact absurd hheld (hmiss i)
    | free _ hfree => exact hfree
    | victim _ hfull => simp [hfull j] at hfree
  · intro hmiss hfull j hj
    cases hchoice with
    | hit hheld => exact absurd hheld (hmiss i)
    | free _ hfree => simp [hfull i] at hfree
    | victim _ _ hlargest =>
        -- The largest time is the largest alone.
        refine (haged.time_lt_iff (hfull j) (hfull i)).mp ?_
        have hne := haged.time_ne (hfull j) (hfull i) hj
        have hle := hlargest j
        bv_omega

end Ages

/-- **The cache evicts the least recently used sector.**  In every run of fewer than `2 ^ 32 - 1` calls that succeed, the
times of the occupied slots are different and order them by their last accesses; and the next call that succeeds replaces
nothing when it finds the sector in a slot, takes a slot that is not occupied if there is one, and else replaces the slot
whose last access is the oldest. -/
theorem bcache_evicts_least_recently_used {hw : Hardware} {disk : SectorId → Sector} {data : Fin N_BCACHE → Sector}
    {accesses : List (Fin N_BCACHE)} {s : Sys} (hrun : RwRun hw disk data accesses s)
    (hlen : accesses.length < 2 ^ 32 - 1) :
    (∀ i, (s.slots i).occupied = true → i ∈ accesses) ∧
      (∀ i j, (s.slots i).occupied = true → (s.slots j).occupied = true → i ≠ j →
        (s.slots i).time ≠ (s.slots j).time) ∧
      (∀ i j, (s.slots i).occupied = true → (s.slots j).occupied = true →
        ((s.slots i).time < (s.slots j).time ↔ accesses.idxOf i < accesses.idxOf j)) ∧
      ∀ blockdev buffer secno write buffer' s', bcacheRw hw s blockdev buffer secno write = .ok (0, buffer', s') →
        ∃ i, RwRun hw disk data (i :: accesses) s' ∧ Evicts accesses s.slots s'.slots (blockdev, secno) i := by
  have haged := hrun.aged (by omega)
  refine ⟨haged.accessed, fun i j hi hj => haged.time_ne hi hj, fun i j hi hj => haged.time_lt_iff hi hj, ?_⟩
  intro blockdev buffer secno write buffer' s' hcall
  obtain ⟨i, hchoice, haccess⟩ := bcacheRw_accessed hcall
  exact ⟨i, .rw hrun hcall haccess.heldIn, haged.evicts hchoice haccess⟩

/-- The runs in which the devices serve all requests are among these. -/
theorem RwRun.served {hw : Hardware} {disk : SectorId → Sector} {data : Fin N_BCACHE → Sector}
    {accesses : List (Fin N_BCACHE)} {s : Sys} (hrun : RwRun hw disk data accesses s) {blockdev secno : U32}
    {buffer : Sector} {write : IOType} {r : Nat × Sector × Sys}
    (hcall : bcacheRw hw s blockdev buffer secno write = .ok r)
    (hserved : ∀ n, s.served ≤ n → n < r.2.2.served → hw.readFails n = none ∧ hw.writeFails n = false) :
    ∃ i, RwRun hw disk data (i :: accesses) r.2.2 := by
  obtain ⟨err, buffer', s'⟩ := r
  obtain rfl : err = 0 := bcacheRw_served hcall hserved
  obtain ⟨i, -, haccess⟩ := bcacheRw_accessed hcall
  exact ⟨i, .rw hrun hcall haccess.heldIn⟩

/-- A read of a sector of device 1. -/
theorem RwRun.read {hw : Hardware} {disk : SectorId → Sector} {data : Fin N_BCACHE → Sector}
    {accesses : List (Fin N_BCACHE)} {s s' : Sys} {buffer' : Sector} (hrun : RwRun hw disk data accesses s)
    (secno : U32) (i : Fin N_BCACHE) (hcall : bcacheRw hw s 1 (fun _ => 0) secno .ioRead = .ok (0, buffer', s'))
    (hheld : HeldIn s'.slots (1, secno) i) : RwRun hw disk data (i :: accesses) s' := .rw hrun hcall hheld

/-- Two sectors have been read, and the first of them once more. -/
theorem bcache_evicts_least_recently_used_three_reads : ∃ (s : Sys) (i j : Fin N_BCACHE),
    RwRun ⟨fun _ => none, fun _ => false⟩ (fun _ _ => 0) (fun _ _ => 0) [i, j, i] s ∧
      (s.slots i).time < (s.slots j).time := by
  have hrun : ∃ s, RwRun ⟨fun _ => none, fun _ => false⟩ (fun _ _ => 0) (fun _ _ => 0)
      [⟨0, by decide⟩, ⟨1, by decide⟩, ⟨0, by decide⟩] s ∧
      (s.slots ⟨0, by decide⟩).occupied = true ∧ (s.slots ⟨1, by decide⟩).occupied = true := by
    have h₀ : RwRun ⟨fun _ => none, fun _ => false⟩ (fun _ _ => 0) (fun _ _ => 0) [] _ := .init
    have h₁ := h₀.read 5 ⟨0, by decide⟩ rfl ⟨rfl, rfl, rfl⟩
    have h₂ := h₁.read 6 ⟨1, by decide⟩ rfl ⟨rfl, rfl, rfl⟩
    have h₃ := h₂.read 5 ⟨0, by decide⟩ rfl ⟨rfl, rfl, rfl⟩
    exact ⟨_, h₃, rfl, rfl⟩
  obtain ⟨s, hrun, h0, h1⟩ := hrun
  obtain ⟨-, -, horder, -⟩ := bcache_evicts_least_recently_used hrun (by decide)
  exact ⟨s, _, _, hrun, (horder _ _ h0 h1).mpr (by decide)⟩

end Driver
end FreakOS
