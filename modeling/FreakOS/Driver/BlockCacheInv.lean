import FreakOS.Driver.BlockCache

/-!
# What the block cache keeps

The cache is a write-back cache in the sense of `Lib.Coherent` as long as no load fails: the slots are its
lines, the disks its backing store, and `logicalOf` of the history its logical content.

* `bcacheRw_spec`, `diskIOLoop_spec`, `syncLoop_spec` — what one call does to the invariant and to the
  logical content, when reads of the devices succeed and writes may fail.
* `bcache_refines_disk` — with devices that never fail, the cache cannot be told from a plain disk.
* `bcache_errors_contained` — failing writes do no harm.
* `bcache_failed_load_returns_garbage` — a failing load does.
-/

namespace FreakOS
namespace Driver

open Lib

/-! ### The slots as lines of a write-back cache -/

/-- The line that a slot is. -/
def BlockCache.line (slot : BlockCache) : Option (Line SectorId Sector) :=
  if slot.occupied then some ⟨(slot.dev, slot.secno), slot.data, slot.modified⟩ else none

/-- The lines of a cache. -/
def linesOf (slots : Fin N_BCACHE → BlockCache) : Fin N_BCACHE → Option (Line SectorId Sector) :=
  fun i => (slots i).line

theorem linesOf_eq_some_iff {slots : Fin N_BCACHE → BlockCache} {i : Fin N_BCACHE}
    {l : Line SectorId Sector} :
    linesOf slots i = some l ↔ (slots i).occupied = true ∧
      l = ⟨((slots i).dev, (slots i).secno), (slots i).data, (slots i).modified⟩ := by
  unfold linesOf BlockCache.line
  by_cases hocc : (slots i).occupied
  · simp [hocc, eq_comm]
  · simp [hocc]

theorem linesOf_update (slots : Fin N_BCACHE → BlockCache) (i : Fin N_BCACHE) (slot : BlockCache) :
    linesOf (Function.update slots i slot) = Function.update (linesOf slots) i slot.line := by
  funext j
  by_cases hji : j = i
  · subst hji
    simp [linesOf]
  · simp [linesOf, Function.update_of_ne hji]

@[simp] theorem linesOf_updateTime (slots : Fin N_BCACHE → BlockCache) :
    linesOf (updateTime slots) = linesOf slots := by
  funext i
  unfold linesOf updateTime
  by_cases hocc : (slots i).occupied
  · simp [hocc, BlockCache.line]
  · simp [hocc]

/-- Every write that was sent to a device carried the logical content of its sector at that time. -/
def IssuedOk (disk : SectorId → Sector) : List Event → Prop
  | [] => True
  | .issued sector data :: older => data = logicalOf disk older sector ∧ IssuedOk disk older
  | .acked _ _ :: older => IssuedOk disk older

theorem IssuedOk.of_append {disk : SectorId → Sector} {newer older : List Event} {sector : SectorId}
    {data : Sector} (h : IssuedOk disk (newer ++ .issued sector data :: older)) :
    data = logicalOf disk older sector := by
  induction newer with
  | nil => exact h.1
  | cons e newer ih =>
      cases e with
      | issued sector' data' => exact ih h.2
      | acked sector' data' => exact ih h

/-- The invariant of the cache, for disks that held `disk` at first. -/
structure Sys.Inv (disk : SectorId → Sector) (s : Sys) : Prop where
  coherent : Coherent (linesOf s.slots) s.disk (logicalOf disk s.log)
  devs : ∀ i l, linesOf s.slots i = some l → l.key.1 ≠ NULL
  issued : IssuedOk disk s.log

theorem initBlockCache_inv (disk : SectorId → Sector) (data : Fin N_BCACHE → Sector) :
    (initBlockCache disk data).Inv disk where
  coherent := by
    refine Coherent.empty ?_
    intro i
    rfl
  devs i l hl := by simp [linesOf, BlockCache.line, initBlockCache] at hl
  issued := trivial

/-! ### The two searches -/

theorem findHit_some {slots : Fin N_BCACHE → BlockCache} {blockdev secno : U32} {i : Fin N_BCACHE}
    (h : findHit slots blockdev secno = some i) :
    linesOf slots i = some ⟨(blockdev, secno), (slots i).data, (slots i).modified⟩ ∧
      (slots i).occupied = true ∧ (slots i).dev = blockdev ∧ (slots i).secno = secno := by
  have hmatch := List.find?_some h
  simp only [Bool.and_eq_true, decide_eq_true_eq] at hmatch
  obtain ⟨⟨hocc, rfl⟩, rfl⟩ := hmatch
  exact ⟨linesOf_eq_some_iff.mpr ⟨hocc, rfl⟩, hocc, rfl, rfl⟩

theorem findHit_none {slots : Fin N_BCACHE → BlockCache} {blockdev secno : U32}
    (h : findHit slots blockdev secno = none) :
    ∀ j l, linesOf slots j = some l → l.key ≠ (blockdev, secno) := by
  intro j l hj hkey
  obtain ⟨hocc, rfl⟩ := linesOf_eq_some_iff.mp hj
  have hnot := List.find?_eq_none.mp h j (List.mem_finRange j)
  simp only [Prod.mk.injEq] at hkey
  simp [hocc, hkey.1, hkey.2] at hnot

theorem scanSlots_free {slots : Fin N_BCACHE → BlockCache} {max i : Fin N_BCACHE}
    {is : List (Fin N_BCACHE)} (h : scanSlots slots max is = .free i) :
    (slots i).occupied = false := by
  induction is generalizing max with
  | nil => simp [scanSlots] at h
  | cons j js ih =>
      unfold scanSlots at h
      split at h
      · rename_i hfree
        obtain rfl : j = i := by simpa using h
        exact hfree
      · split at h
        · exact ih h
        · exact ih h

theorem scanSlots_victim {slots : Fin N_BCACHE → BlockCache} {max v : Fin N_BCACHE}
    {is : List (Fin N_BCACHE)} (h : scanSlots slots max is = .victim v) :
    ∀ i ∈ is, (slots i).occupied = true := by
  induction is generalizing max with
  | nil => simp
  | cons j js ih =>
      unfold scanSlots at h
      split at h
      · simp at h
      · rename_i hocc
        have hrest : ∀ i ∈ js, (slots i).occupied = true := by
          split at h
          · exact ih h
          · exact ih h
        intro i hi
        rcases List.mem_cons.mp hi with rfl | hi
        · simpa using hocc
        · exact hrest i hi

/-! ### Requests to the devices -/

theorem diskIoDirectOneblock_read {hw : Hardware} (hread : ∀ n, hw.readFails n = none) (s : Sys)
    {blockdev : U32} (hdev : blockdev ≠ NULL) (buffer : Sector) (secno : U32) :
    diskIoDirectOneblock hw s blockdev buffer secno .ioRead =
      .ok (0, s.disk (blockdev, secno), { s with served := s.served + 1 }) := by
  simp [diskIoDirectOneblock, request, hdev, hread]

/-- A write request that fails leaves the disk alone. -/
theorem diskIoDirectOneblock_write (hw : Hardware) (s : Sys) {blockdev : U32} (hdev : blockdev ≠ NULL)
    (buffer : Sector) (secno : U32) :
    ∃ err disk', diskIoDirectOneblock hw s blockdev buffer secno .ioWrite =
        .ok (err, buffer,
          { s with
            disk := disk'
            served := s.served + 1
            log := .issued (blockdev, secno) buffer :: s.log }) ∧
      ((err = 0 ∧ disk' = Function.update s.disk (blockdev, secno) buffer) ∨
        (err = 1 ∧ disk' = s.disk ∧ hw.writeFails s.served = true)) := by
  by_cases hfail : hw.writeFails s.served = true
  · exact ⟨1, s.disk, by simp [diskIoDirectOneblock, request, hdev, hfail], Or.inr ⟨rfl, rfl, hfail⟩⟩
  · exact ⟨0, _, by simp [diskIoDirectOneblock, request, hdev, hfail], Or.inl ⟨rfl, rfl⟩⟩

/-! ### Steps that keep the invariant -/

@[simp] theorem logicalOf_issued (disk : SectorId → Sector) (sector : SectorId) (data : Sector)
    (log : List Event) : logicalOf disk (.issued sector data :: log) = logicalOf disk log := rfl

@[simp] theorem logicalOf_acked (disk : SectorId → Sector) (sector : SectorId) (data : Sector)
    (log : List Event) :
    logicalOf disk (.acked sector data :: log) = Function.update (logicalOf disk log) sector data := rfl

namespace Sys.Inv

variable {disk : SectorId → Sector} {s s' : Sys}

/-- Only the lines, the disks and the history matter. -/
theorem of_lines (h : s.Inv disk) (hlines : linesOf s'.slots = linesOf s.slots)
    (hdisk : s'.disk = s.disk) (hlog : s'.log = s.log) : s'.Inv disk := by
  obtain ⟨hcoh, hdevs, hissued⟩ := h
  refine ⟨?_, ?_, ?_⟩
  · rwa [hlines, hdisk, hlog]
  · rwa [hlines]
  · rwa [hlog]

/-- Sending a line to its device, whether it succeeds or not. -/
theorem writeBack (h : s.Inv disk) {i : Fin N_BCACHE} {l : Line SectorId Sector}
    (hl : linesOf s.slots i = some l) (hlines : linesOf s'.slots = linesOf s.slots)
    (hdisk : s'.disk = Function.update s.disk l.key l.val ∨ s'.disk = s.disk)
    (hlog : s'.log = .issued l.key l.val :: s.log) : s'.Inv disk := by
  refine ⟨?_, ?_, ?_⟩
  · rw [hlines, hlog, logicalOf_issued]
    rcases hdisk with hdisk | hdisk
    · rw [hdisk]
      exact h.coherent.writeBack hl
    · rw [hdisk]
      exact h.coherent
  · rw [hlines]
    exact h.devs
  · rw [hlog]
    exact ⟨h.coherent.holds i l hl, h.issued⟩

/-- Loading a sector into a slot whose old line is up to date on the disk. -/
theorem load (h : s.Inv disk) {i : Fin N_BCACHE} {key : SectorId}
    (hbacked : ∀ l, linesOf s.slots i = some l → s.disk l.key = logicalOf disk s.log l.key)
    (habsent : ∀ j l, linesOf s.slots j = some l → l.key ≠ key) (hdev : key.1 ≠ NULL)
    (hlines : linesOf s'.slots = Function.update (linesOf s.slots) i (some ⟨key, s.disk key, false⟩))
    (hdisk : s'.disk = s.disk) (hlog : s'.log = s.log) : s'.Inv disk := by
  refine ⟨?_, ?_, ?_⟩
  · rw [hlines, hdisk, hlog]
    exact h.coherent.refill hbacked habsent
  · intro j l hl
    rw [hlines] at hl
    by_cases hji : j = i
    · subst hji
      obtain rfl : (⟨key, s.disk key, false⟩ : Line SectorId Sector) = l := by simpa using hl
      exact hdev
    · rw [Function.update_of_ne hji] at hl
      exact h.devs j l hl
  · rw [hlog]
    exact h.issued

/-- Writing a line. -/
theorem write (h : s.Inv disk) {i : Fin N_BCACHE} {l : Line SectorId Sector}
    (hl : linesOf s.slots i = some l) {data : Sector}
    (hlines : linesOf s'.slots = Function.update (linesOf s.slots) i (some ⟨l.key, data, true⟩))
    (hdisk : s'.disk = s.disk) (hlog : s'.log = .acked l.key data :: s.log) : s'.Inv disk := by
  refine ⟨?_, ?_, ?_⟩
  · rw [hlines, hdisk, hlog, logicalOf_acked]
    exact h.coherent.write hl data
  · intro j m hm
    rw [hlines] at hm
    by_cases hji : j = i
    · subst hji
      obtain rfl : (⟨l.key, data, true⟩ : Line SectorId Sector) = m := by simpa using hm
      exact h.devs j l hl
    · rw [Function.update_of_ne hji] at hm
      exact h.devs j m hm
  · rw [hlog]
    exact h.issued

end Sys.Inv

/-! ### One sector -/

/-- A plain disk: what a read or a write of one sector gives, and the content afterwards. -/
def plainRw (content : SectorId → Sector) (sector : SectorId) (buffer : Sector) :
    IOType → Sector × (SectorId → Sector)
  | .ioRead => (content sector, content)
  | .ioWrite => (buffer, Function.update content sector buffer)

/-- What `bcache_rw` promises about its answer, the buffer and the state it leaves. -/
structure RwSpec (hw : Hardware) (disk : SectorId → Sector) (s : Sys) (sector : SectorId)
    (buffer : Sector) (write : IOType) (r : Nat × Sector × Sys) : Prop where
  inv : r.2.2.Inv disk
  done : r.1 = 0 →
    (r.2.1, logicalOf disk r.2.2.log) = plainRw (logicalOf disk s.log) sector buffer write
  failed : r.1 ≠ 0 → r.2.1 = buffer ∧ logicalOf disk r.2.2.log = logicalOf disk s.log
  reliable : (∀ n, hw.writeFails n = false) → r.1 = 0

/-- The way out through `update_time` with slot `i` holding the sector: a read left the line as it is, a
write put the buffer into it. -/
theorem finishRw_spec (hw : Hardware) {disk : SectorId → Sector} {s : Sys} (h : s.Inv disk)
    {i : Fin N_BCACHE} {blockdev secno : U32} {l : Line SectorId Sector}
    (hl : linesOf s.slots i = some l) (hkey : l.key = (blockdev, secno)) (slot : BlockCache)
    (buffer : Sector) (write : IOType)
    (hslot : slot.line = match write with
      | .ioRead => some l
      | .ioWrite => some ⟨l.key, buffer, true⟩) :
    RwSpec hw disk s (blockdev, secno) buffer write
      (0, match write with
          | .ioRead => l.val
          | .ioWrite => buffer,
        finishRw s (Function.update s.slots i slot) blockdev secno buffer write) := by
  have hholds := h.coherent.holds i l hl
  rw [hkey] at hholds
  cases write with
  | ioRead =>
      have hlines : linesOf (updateTime (Function.update s.slots i slot)) = linesOf s.slots := by
        rw [linesOf_updateTime, linesOf_update, hslot, ← hl, Function.update_eq_self]
      refine ⟨h.of_lines hlines rfl rfl, ?_, ?_, ?_⟩
      · intro _
        simp [finishRw, plainRw, hholds]
      · simp
      · simp
  | ioWrite =>
      have hlines : linesOf (updateTime (Function.update s.slots i slot)) =
          Function.update (linesOf s.slots) i (some ⟨l.key, buffer, true⟩) := by
        rw [linesOf_updateTime, linesOf_update, hslot]
      refine ⟨h.write hl hlines rfl ?_, ?_, ?_, ?_⟩
      · simp [finishRw, hkey]
      · intro _
        simp [finishRw, plainRw]
      · simp
      · simp

/-- The miss paths, from the state in which slot `i` may be given to the sector. -/
theorem loadSlot_spec {hw : Hardware} (hread : ∀ n, hw.readFails n = none) {disk : SectorId → Sector}
    {s : Sys} (h : s.Inv disk) {i : Fin N_BCACHE} {blockdev secno : U32}
    (hbacked : ∀ l, linesOf s.slots i = some l → s.disk l.key = logicalOf disk s.log l.key)
    (habsent : ∀ j l, linesOf s.slots j = some l → l.key ≠ (blockdev, secno))
    (hdev : blockdev ≠ NULL) (slot : BlockCache) (hocc : slot.occupied = true)
    (hslotDev : slot.dev = blockdev) (hslotSecno : slot.secno = secno) (buffer : Sector)
    (write : IOType) :
    ∃ r, loadSlot hw { s with slots := Function.update s.slots i slot } i blockdev buffer secno write =
        .ok r ∧ RwSpec hw disk s (blockdev, secno) buffer write r := by
  -- The state in which the sector has been loaded and not yet touched.
  let loaded : BlockCache :=
    { slot with data := s.disk (blockdev, secno), modified := false, time := 0 }
  let sl : Sys :=
    { s with slots := Function.update s.slots i loaded, served := s.served + 1 }
  have hloaded : loaded.line = some ⟨(blockdev, secno), s.disk (blockdev, secno), false⟩ := by
    simp [BlockCache.line, loaded, hocc, hslotDev, hslotSecno]
  have hlines : linesOf sl.slots = Function.update (linesOf s.slots) i
      (some ⟨(blockdev, secno), s.disk (blockdev, secno), false⟩) := by
    simp [sl, linesOf_update, hloaded]
  have hinv : sl.Inv disk := h.load hbacked habsent hdev hlines rfl rfl
  have hl : linesOf sl.slots i = some ⟨(blockdev, secno), s.disk (blockdev, secno), false⟩ := by
    rw [hlines, Function.update_self]
  cases write with
  | ioRead =>
      have hspec := finishRw_spec hw hinv hl rfl loaded buffer .ioRead hloaded
      refine ⟨_, ?_, ⟨hspec.inv, hspec.done, hspec.failed, hspec.reliable⟩⟩
      simp only [loadSlot, diskIoDirectOneblock_read hread _ hdev, Res.ok_bind]
      simp [finishRw, sl, loaded, pure, Except.pure]
  | ioWrite =>
      let written : BlockCache := { slot with data := buffer, modified := true, time := 0 }
      have hwritten : written.line = some ⟨(blockdev, secno), buffer, true⟩ := by
        simp [BlockCache.line, written, hocc, hslotDev, hslotSecno]
      have hspec := finishRw_spec hw hinv hl rfl written buffer .ioWrite hwritten
      refine ⟨_, ?_, ⟨hspec.inv, hspec.done, hspec.failed, hspec.reliable⟩⟩
      simp only [loadSlot, diskIoDirectOneblock_read hread _ hdev, Res.ok_bind]
      simp [finishRw, sl, written, pure, Except.pure]

/-- One call of `bcache_rw` when loads succeed: it does not panic, and on success it reads and writes like a
plain disk with the logical content. -/
theorem bcacheRw_spec {hw : Hardware} (hread : ∀ n, hw.readFails n = none) {disk : SectorId → Sector}
    {s : Sys} (h : s.Inv disk) {blockdev : U32} (hdev : blockdev ≠ NULL) (buffer : Sector) (secno : U32)
    (write : IOType) :
    ∃ r, bcacheRw hw s blockdev buffer secno write = .ok r ∧
      RwSpec hw disk s (blockdev, secno) buffer write r := by
  unfold bcacheRw
  cases hhit : findHit s.slots blockdev secno with
  | some i =>
      obtain ⟨hl, hocc, hslotDev, hslotSecno⟩ := findHit_some hhit
      cases write with
      | ioRead =>
          refine ⟨_, rfl, finishRw_spec hw h hl rfl _ buffer .ioRead ?_⟩
          simp [BlockCache.line, hocc, hslotDev, hslotSecno]
      | ioWrite =>
          refine ⟨_, rfl, finishRw_spec hw h hl rfl _ buffer .ioWrite ?_⟩
          simp [BlockCache.line, hocc, hslotDev, hslotSecno]
  | none =>
      have habsent := findHit_none hhit
      dsimp only
      cases hscan : scanSlots s.slots ⟨0, by decide⟩ (List.finRange N_BCACHE) with
      | free i =>
          refine loadSlot_spec hread h ?_ habsent hdev _ ?_ ?_ ?_ buffer write
          · intro l hl
            have hocc := (linesOf_eq_some_iff.mp hl).1
            simp [scanSlots_free hscan] at hocc
          · rfl
          · rfl
          · rfl
      | victim max =>
          have hocc := scanSlots_victim hscan max (List.mem_finRange max)
          have hl := linesOf_eq_some_iff.mpr ⟨hocc, rfl⟩
          dsimp only
          by_cases hmod : (s.slots max).modified = true
          · -- The write-back of the victim may fail; then nothing else happens.
            have hvdev : (s.slots max).dev ≠ NULL := h.devs max _ hl
            obtain ⟨err, disk', hreq, hout⟩ := diskIoDirectOneblock_write hw s hvdev
              (s.slots max).data (s.slots max).secno
            rw [if_pos hmod, hreq, Res.ok_bind]
            rcases hout with ⟨rfl, rfl⟩ | ⟨rfl, rfl, hfail⟩
            · let sw : Sys :=
                { s with
                  disk := Function.update s.disk ((s.slots max).dev, (s.slots max).secno)
                    (s.slots max).data
                  served := s.served + 1
                  log := .issued ((s.slots max).dev, (s.slots max).secno) (s.slots max).data :: s.log }
              have hinv : sw.Inv disk := h.writeBack hl rfl (Or.inl rfl) rfl
              have hbacked : ∀ l, linesOf sw.slots max = some l →
                  sw.disk l.key = logicalOf disk sw.log l.key := by
                intro l hl'
                obtain rfl : _ = l := Option.some.inj (hl.symm.trans hl')
                simpa [sw] using h.coherent.holds max _ hl
              obtain ⟨r, hr, hspec⟩ := loadSlot_spec hread hinv hbacked habsent hdev
                { s.slots max with time := 0, occupied := true, secno := secno, dev := blockdev }
                rfl rfl rfl buffer write
              exact ⟨r, hr, ⟨hspec.inv, hspec.done, hspec.failed, hspec.reliable⟩⟩
            · refine ⟨_, rfl, ⟨h.writeBack hl rfl (Or.inr rfl) rfl, ?_, ?_, ?_⟩⟩
              · simp
              · simp
              · intro hnever
                simp [hnever] at hfail
          · rw [if_neg hmod]
            refine loadSlot_spec hread h ?_ habsent hdev _ rfl rfl rfl buffer write
            intro l hl'
            obtain rfl : _ = l := Option.some.inj (hl.symm.trans hl')
            exact h.coherent.backed_of_clean hl (by simpa using hmod)

/-! ### Whole requests -/

/-- What the loop of `diskIO_BCache` promises for the sectors `i, …, i + n - 1` of a request. -/
structure IoSpec (hw : Hardware) (disk : SectorId → Sector) (blockdev : U32) (req : IOrequest) (s : Sys)
    (buffer : Nat → Sector) (i n : Nat) (r : Nat × (Nat → Sector) × Sys) : Prop where
  inv : r.2.2.Inv disk
  frame : ∀ j < i, r.2.1 j = buffer j
  unread : req.ioType = .ioRead → logicalOf disk r.2.2.log = logicalOf disk s.log
  read : req.ioType = .ioRead → r.1 = 0 → ∀ j, i ≤ j → j < i + n →
    r.2.1 j = logicalOf disk s.log (blockdev, req.secno + BitVec.ofNat 32 j)
  write : req.ioType = .ioWrite → r.1 = 0 → ∀ k, logicalOf disk r.2.2.log k =
    if k.1 = blockdev ∧ i ≤ (k.2 - req.secno).toNat ∧ (k.2 - req.secno).toNat < i + n then
      buffer (k.2 - req.secno).toNat
    else logicalOf disk s.log k
  reliable : (∀ n, hw.writeFails n = false) → r.1 = 0

/-- The offset of a sector in a request determines the sector. -/
theorem eq_add_iff_sub_toNat_eq {a secno : U32} {i : Nat} (hi : i < 2 ^ 32) :
    a = secno + BitVec.ofNat 32 i ↔ (a - secno).toNat = i := by
  constructor
  · rintro rfl
    simp only [BitVec.toNat_sub, BitVec.toNat_add, BitVec.toNat_ofNat]
    have := secno.isLt
    omega
  · intro h
    apply BitVec.eq_of_toNat_eq
    simp only [BitVec.toNat_sub, BitVec.toNat_add, BitVec.toNat_ofNat] at h ⊢
    have := secno.isLt
    have := a.isLt
    omega

theorem diskIOLoop_spec {hw : Hardware} (hread : ∀ n, hw.readFails n = none)
    {disk : SectorId → Sector} {blockdev : U32} (hdev : blockdev ≠ NULL) (req : IOrequest) (n : Nat)
    {s : Sys} (h : s.Inv disk) (buffer : Nat → Sector) (i : Nat) (hbound : i + n ≤ 2 ^ 32) :
    ∃ r, diskIOLoop hw blockdev req s buffer i n = .ok r ∧
      IoSpec hw disk blockdev req s buffer i n r := by
  induction n generalizing s buffer i with
  | zero =>
      refine ⟨_, rfl, ⟨h, fun _ _ => rfl, fun _ => rfl, ?_, ?_, fun _ => rfl⟩⟩
      · intro _ _ j h1 h2
        omega
      · intro _ _ k
        rw [if_neg (by omega)]
  | succ n ih =>
      obtain ⟨⟨err, sector, s₁⟩, hrw, hspec⟩ := bcacheRw_spec hread h hdev (buffer i)
        (req.secno + BitVec.ofNat 32 i) req.ioType
      have hdone := hspec.done
      have hfailed := hspec.failed
      have hreliable := hspec.reliable
      have hinv := hspec.inv
      dsimp only at hdone hfailed hreliable hinv
      simp only [diskIOLoop, hrw, Res.ok_bind]
      by_cases herr : err = 0
      swap
      · -- The sector failed, and with it the request.
        rw [if_pos herr]
        obtain ⟨-, hsame⟩ := hfailed herr
        refine ⟨_, rfl, ⟨hinv, ?_, fun _ => hsame, ?_, ?_, ?_⟩⟩
        · intro j hj
          exact Function.update_of_ne (by omega) _ _
        · simp
        · simp
        · intro hnever
          exact absurd (hreliable hnever) herr
      · rw [if_neg (by simpa using herr)]
        obtain ⟨r, hr, hrest⟩ := ih hinv (Function.update buffer i sector) (i + 1) (by omega)
        have hplain := hdone herr
        refine ⟨r, hr, ⟨hrest.inv, ?_, ?_, ?_, ?_, hrest.reliable⟩⟩
        · intro j hj
          rw [hrest.frame j (by omega), Function.update_of_ne (by omega)]
        · intro hio
          rw [hrest.unread hio]
          rw [hio] at hplain
          exact congrArg Prod.snd hplain
        · intro hio hok j h1 h2
          rw [hio] at hplain
          obtain ⟨hsector, hlog⟩ := Prod.mk.inj hplain
          by_cases hji : j = i
          · subst hji
            rw [hrest.frame j (by omega), Function.update_self]
            exact hsector
          · rw [hrest.read hio hok j (by omega) (by omega), hlog]
        · intro hio hok k
          rw [hio] at hplain
          obtain ⟨-, hlog⟩ := Prod.mk.inj hplain
          rw [hrest.write hio hok k, hlog]
          -- The sector just written is the one at offset `i`; the rest of the request is behind it.
          have hkey : k = (blockdev, req.secno + BitVec.ofNat 32 i) ↔
              k.1 = blockdev ∧ (k.2 - req.secno).toNat = i := by
            rw [← eq_add_iff_sub_toNat_eq (by omega), Prod.ext_iff]
          by_cases hk : k = (blockdev, req.secno + BitVec.ofNat 32 i)
          · obtain ⟨hk1, hk2⟩ := hkey.mp hk
            rw [if_neg (by omega), if_pos ⟨hk1, by omega, by omega⟩, hk2, hk, Function.update_self]
          · have hother : ¬ (k.1 = blockdev ∧ (k.2 - req.secno).toNat = i) := fun hc => hk (hkey.mpr hc)
            by_cases hin : k.1 = blockdev ∧ i + 1 ≤ (k.2 - req.secno).toNat ∧
                (k.2 - req.secno).toNat < i + 1 + n
            · rw [if_pos hin, if_pos ⟨hin.1, by omega, by omega⟩, Function.update_of_ne (by omega)]
            · rw [if_neg hin, if_neg ?_, Function.update_of_ne hk]
              rintro ⟨h1, h2, h3⟩
              by_cases hi : (k.2 - req.secno).toNat = i
              · exact hother ⟨h1, hi⟩
              · exact hin ⟨h1, by omega, by omega⟩

/-- What the loop of `sync_all_bcache` promises, once the slots outside `is` are up to date. -/
theorem syncLoop_spec (hw : Hardware) {disk : SectorId → Sector} (is : List (Fin N_BCACHE)) {s : Sys}
    (h : s.Inv disk)
    (hsynced : ∀ i ∉ is, ∀ l, linesOf s.slots i = some l → l.dirty = true →
      s.disk l.key = logicalOf disk s.log l.key) :
    ∃ err s', syncLoop hw s is = .ok (err, s') ∧ s'.Inv disk ∧ s'.slots = s.slots ∧
      logicalOf disk s'.log = logicalOf disk s.log ∧ (err = 0 → s'.disk = logicalOf disk s.log) ∧
      ((∀ n, hw.writeFails n = false) → err = 0) := by
  induction is generalizing s with
  | nil =>
      refine ⟨0, s, rfl, h, rfl, rfl, ?_, fun _ => rfl⟩
      intro _
      exact h.coherent.backing_eq fun i l hl hd => hsynced i (by simp) l hl hd
  | cons i is ih =>
      unfold syncLoop
      by_cases hdirty : ((s.slots i).occupied && (s.slots i).modified) = true
      · obtain ⟨hocc, hmod⟩ : (s.slots i).occupied = true ∧ (s.slots i).modified = true := by
          simpa using hdirty
        have hl := linesOf_eq_some_iff.mpr ⟨hocc, rfl⟩
        have hvdev : (s.slots i).dev ≠ NULL := h.devs i _ hl
        obtain ⟨err, disk', hreq, hout⟩ := diskIoDirectOneblock_write hw s hvdev
          (s.slots i).data (s.slots i).secno
        rw [if_pos hdirty]
        dsimp only
        rw [hreq, Res.ok_bind]
        rcases hout with ⟨rfl, rfl⟩ | ⟨rfl, rfl, hfail⟩
        · let sw : Sys :=
            { s with
              disk := Function.update s.disk ((s.slots i).dev, (s.slots i).secno) (s.slots i).data
              served := s.served + 1
              log := .issued ((s.slots i).dev, (s.slots i).secno) (s.slots i).data :: s.log }
          have hinv : sw.Inv disk := h.writeBack hl rfl (Or.inl rfl) rfl
          have hsynced' : ∀ j ∉ is, ∀ l, linesOf sw.slots j = some l → l.dirty = true →
              sw.disk l.key = logicalOf disk sw.log l.key := by
            intro j hj l hlj hd
            by_cases hji : j = i
            · subst hji
              obtain rfl : _ = l := Option.some.inj (hl.symm.trans hlj)
              simpa [sw] using h.coherent.holds j _ hl
            · refine h.coherent.writeBack_backed hl ?_
              exact hsynced j (by simp [hji, hj]) l hlj hd
          obtain ⟨err, s', hrest, hinv', hslots, hlog, hdisk, hreliable⟩ := ih hinv hsynced'
          exact ⟨err, s', hrest, hinv', hslots, hlog, hdisk, hreliable⟩
        · refine ⟨1, _, rfl, h.writeBack hl rfl (Or.inr rfl) rfl, rfl, rfl, by simp, ?_⟩
          intro hnever
          simp [hnever] at hfail
      · rw [if_neg hdirty]
        refine ih h ?_
        intro j hj l hlj hd
        by_cases hji : j = i
        · subst hji
          obtain ⟨hocc, rfl⟩ := linesOf_eq_some_iff.mp hlj
          simp [hocc] at hdirty hd
          simp [hd] at hdirty
        · exact hsynced j (by simp [hji, hj]) l hlj hd

/-! ### Runs -/

theorem diskIOBCache_spec {hw : Hardware} (hread : ∀ n, hw.readFails n = none)
    {disk : SectorId → Sector} {s : Sys} (h : s.Inv disk) {blockdev : U32} (hdev : blockdev ≠ NULL)
    (req : IOrequest) (buffer : Nat → Sector) :
    ∃ r, diskIOBCache hw s blockdev req buffer = .ok r ∧
      IoSpec hw disk blockdev req s buffer 0 req.nsecs.toNat r := by
  have hbound := req.nsecs.isLt
  unfold diskIOBCache
  rw [if_neg hdev]
  exact diskIOLoop_spec hread hdev req req.nsecs.toNat h buffer 0 (by omega)

theorem syncAllBcache_spec (hw : Hardware) {disk : SectorId → Sector} {s : Sys} (h : s.Inv disk) :
    ∃ err s', syncAllBcache hw s = .ok (err, s') ∧ s'.Inv disk ∧ s'.slots = s.slots ∧
      logicalOf disk s'.log = logicalOf disk s.log ∧ (err = 0 → s'.disk = logicalOf disk s.log) ∧
      ((∀ n, hw.writeFails n = false) → err = 0) := by
  refine syncLoop_spec hw _ h ?_
  intro i hi
  exact absurd (List.mem_finRange i) hi

/-- Every run whose loads succeed keeps the invariant, and does not panic. -/
theorem execCalls_inv {hw : Hardware} (hread : ∀ n, hw.readFails n = none) {disk : SectorId → Sector}
    {s : Sys} (h : s.Inv disk) {calls : List Call} (hcalls : ∀ call ∈ calls, call.DevOk) :
    ∃ s', execCalls hw s calls = .ok s' ∧ s'.Inv disk := by
  induction calls with
  | nil => exact ⟨s, rfl, h⟩
  | cons call older ih =>
      obtain ⟨s₁, hrun, hinv⟩ := ih fun c hc => hcalls c (List.mem_cons_of_mem _ hc)
      have hok := hcalls call List.mem_cons_self
      simp only [execCalls, hrun, Res.ok_bind]
      cases call with
      | io blockdev req buffer =>
          obtain ⟨r, hr, hspec⟩ := diskIOBCache_spec hread hinv hok req buffer
          exact ⟨r.2.2, by simp [Call.exec, hr], hspec.inv⟩
      | sync =>
          obtain ⟨err, s', hs', hinv', -⟩ := syncAllBcache_spec hw hinv
          exact ⟨s', by simp [Call.exec, hs'], hinv'⟩

/-- With devices that never fail, the history and the list of requests give the same content. -/
theorem execCalls_logicalOf {hw : Hardware} (hread : ∀ n, hw.readFails n = none)
    (hwrite : ∀ n, hw.writeFails n = false) {disk : SectorId → Sector} {s s' : Sys} (h : s.Inv disk)
    (hlog : s.log = []) {calls : List Call} (hcalls : ∀ call ∈ calls, call.DevOk)
    (hrun : execCalls hw s calls = .ok s') : logicalOf disk s'.log = lastWritten disk calls := by
  induction calls generalizing s' with
  | nil =>
      obtain rfl : s = s' := Except.ok.inj hrun
      funext k
      rw [hlog]
      rfl
  | cons call older ih =>
      have holder := fun c hc => hcalls c (List.mem_cons_of_mem _ hc)
      obtain ⟨s₁, hs₁, hinv⟩ := execCalls_inv hread h holder
      have hbefore := ih holder hs₁
      have hok := hcalls call List.mem_cons_self
      simp only [execCalls, hs₁, Res.ok_bind] at hrun
      cases call with
      | io blockdev req buffer =>
          obtain ⟨r, hr, hspec⟩ := diskIOBCache_spec hread hinv hok req buffer
          obtain rfl : r.2.2 = s' := by
            simpa [Call.exec, hr, pure, Except.pure] using hrun
          cases hio : req.ioType with
          | ioRead =>
              rw [hspec.unread hio, hbefore]
              funext k
              simp [lastWritten, hio]
          | ioWrite =>
              funext k
              rw [hspec.write hio (hspec.reliable hwrite) k, hbefore]
              simp [lastWritten, hio, BitVec.lt_def]
      | sync =>
          obtain ⟨err, s₂, hs₂, -, -, hsame, -⟩ := syncAllBcache_spec hw hinv
          obtain rfl : s₂ = s' := by
            simpa [Call.exec, hs₂, pure, Except.pure] using hrun
          rw [hsame, hbefore]
          rfl

/-- **The cache cannot be told from a plain disk.**  With devices whose requests all succeed, after every
sequence of requests and syncs: no two slots are occupied by the same sector; every read request succeeds
and gets, for each of its sectors, the data of the last write request that covered it, or what was on the
disk at first; and a sync succeeds and leaves exactly this content on the disks. -/
theorem bcache_refines_disk (hw : Hardware) (hread : ∀ n, hw.readFails n = none)
    (hwrite : ∀ n, hw.writeFails n = false) (disk : SectorId → Sector) (data : Fin N_BCACHE → Sector)
    (calls : List Call) (hcalls : ∀ call ∈ calls, call.DevOk) :
    ∃ s, execCalls hw (initBlockCache disk data) calls = .ok s ∧
      (∀ i j, (s.slots i).occupied = true → (s.slots j).occupied = true →
        (s.slots i).dev = (s.slots j).dev → (s.slots i).secno = (s.slots j).secno → i = j) ∧
      (∀ blockdev ≠ NULL, ∀ req : IOrequest, req.ioType = .ioRead → ∀ buffer,
        ∃ buffer' s', diskIOBCache hw s blockdev req buffer = .ok (0, buffer', s') ∧
          ∀ j < req.nsecs.toNat,
            buffer' j = lastWritten disk calls (blockdev, req.secno + BitVec.ofNat 32 j)) ∧
      (∃ s', syncAllBcache hw s = .ok (0, s') ∧ s'.disk = lastWritten disk calls) := by
  have hinit := initBlockCache_inv disk data
  obtain ⟨s, hrun, hinv⟩ := execCalls_inv hread hinit hcalls
  have hlogical := execCalls_logicalOf hread hwrite hinit rfl hcalls hrun
  refine ⟨s, hrun, ?_, ?_, ?_⟩
  · intro i j hi hj hdev hsecno
    refine hinv.coherent.unique i j _ _ (linesOf_eq_some_iff.mpr ⟨hi, rfl⟩)
      (linesOf_eq_some_iff.mpr ⟨hj, rfl⟩) ?_
    rw [hdev, hsecno]
  · intro blockdev hdev req hio buffer
    obtain ⟨⟨err, buffer', s'⟩, hr, hspec⟩ := diskIOBCache_spec hread hinv hdev req buffer
    obtain rfl : err = 0 := hspec.reliable hwrite
    refine ⟨buffer', s', hr, ?_⟩
    intro j hj
    rw [← hlogical]
    exact hspec.read hio rfl j (Nat.zero_le j) (by omega)
  · obtain ⟨err, s', hs', -, -, -, hdisk, hreliable⟩ := syncAllBcache_spec hw hinv
    obtain rfl := hreliable hwrite
    exact ⟨s', hs', by rw [hdisk rfl, hlogical]⟩

/-- Twenty sectors, more than the cache has slots and across the end of the sector numbers, are written and
one of them is read back. -/
theorem bcache_refines_disk_wrapping :
    ∃ s, execCalls ⟨fun _ => none, fun _ => false⟩ (initBlockCache (fun _ _ => 0) fun _ _ => 0)
        [.sync, .io 1 ⟨.ioWrite, 0xFFFFFFF8, 20⟩ fun j _ => BitVec.ofNat 8 j] = .ok s ∧
      ∃ buffer' s', diskIOBCache ⟨fun _ => none, fun _ => false⟩ s 1 ⟨.ioRead, 3, 1⟩ (fun _ _ => 0) =
        .ok (0, buffer', s') ∧ buffer' 0 = fun _ => 11 := by
  obtain ⟨s, hrun, -, hread, -⟩ := bcache_refines_disk ⟨fun _ => none, fun _ => false⟩ (fun _ => rfl)
    (fun _ => rfl) (fun _ _ => 0) (fun _ _ => 0)
    [.sync, .io 1 ⟨.ioWrite, 0xFFFFFFF8, 20⟩ fun j _ => BitVec.ofNat 8 j]
    (by simp [Call.DevOk, NULL])
  obtain ⟨buffer', s', hr, hbuffer⟩ := hread 1 (by decide) ⟨.ioRead, 3, 1⟩ rfl fun _ _ => 0
  exact ⟨s, hrun, buffer', s', hr, hbuffer 0 (by decide)⟩

/-- **Failing writes are contained.**  With devices that may fail any write request but no read request,
after every sequence of requests and syncs: every write request that was ever sent to a device carried the
logical content that its sector had at that moment; every occupied slot holds the logical content of the
sector it claims; and a read request that reports success gets the logical content of each of its
sectors. -/
theorem bcache_errors_contained (hw : Hardware) (hread : ∀ n, hw.readFails n = none)
    (disk : SectorId → Sector) (data : Fin N_BCACHE → Sector) (calls : List Call)
    (hcalls : ∀ call ∈ calls, call.DevOk) :
    ∃ s, execCalls hw (initBlockCache disk data) calls = .ok s ∧
      (∀ newer older sector written, s.log = newer ++ .issued sector written :: older →
        written = logicalOf disk older sector) ∧
      (∀ i, (s.slots i).occupied = true →
        (s.slots i).data = logicalOf disk s.log ((s.slots i).dev, (s.slots i).secno)) ∧
      (∀ blockdev ≠ NULL, ∀ req : IOrequest, req.ioType = .ioRead → ∀ buffer,
        ∃ err buffer' s', diskIOBCache hw s blockdev req buffer = .ok (err, buffer', s') ∧
          (err = 0 → ∀ j < req.nsecs.toNat,
            buffer' j = logicalOf disk s.log (blockdev, req.secno + BitVec.ofNat 32 j))) := by
  obtain ⟨s, hrun, hinv⟩ := execCalls_inv hread (initBlockCache_inv disk data) hcalls
  refine ⟨s, hrun, ?_, ?_, ?_⟩
  · intro newer older sector written hlog
    have hissued := hinv.issued
    rw [hlog] at hissued
    exact hissued.of_append
  · intro i hocc
    exact hinv.coherent.holds i _ (linesOf_eq_some_iff.mpr ⟨hocc, rfl⟩)
  · intro blockdev hdev req hio buffer
    obtain ⟨⟨err, buffer', s'⟩, hr, hspec⟩ := diskIOBCache_spec hread hinv hdev req buffer
    refine ⟨err, buffer', s', hr, ?_⟩
    intro herr j hj
    exact hspec.read hio herr j (Nat.zero_le j) (by omega)

/-- The first write-back fails, during a sync; the slot still holds what was written. -/
theorem bcache_errors_contained_failed_sync :
    ∃ s, execCalls ⟨fun _ => none, fun n => n = 1⟩ (initBlockCache (fun _ _ => 0) fun _ _ => 0)
        [.sync, .io 1 ⟨.ioWrite, 5, 1⟩ fun _ _ => 7] = .ok s ∧
      ∀ i, (s.slots i).occupied = true →
        (s.slots i).data =
          logicalOf (fun _ _ => 0) s.log ((s.slots i).dev, (s.slots i).secno) := by
  obtain ⟨s, hrun, -, hslots, -⟩ := bcache_errors_contained ⟨fun _ => none, fun n => n = 1⟩
    (fun _ => rfl) (fun _ _ => 0) (fun _ _ => 0) [.sync, .io 1 ⟨.ioWrite, 5, 1⟩ fun _ _ => 7]
    (by simp [Call.DevOk, NULL])
  exact ⟨s, hrun, hslots⟩

/-- A device that fails its first read request and leaves the buffer as it was. -/
def failsFirstLoad : Hardware := ⟨fun n => if n = 0 then some fun _ => 0 else none, fun _ => false⟩

/-- The state after a read request of sector 5 that was answered with an error, on a disk full of ones. -/
def afterFailedLoad : Res Sys :=
  execCalls failsFirstLoad (initBlockCache (fun _ _ => 1) fun _ _ => 0)
    [.io 1 ⟨.ioRead, 5, 1⟩ fun _ _ => 0]

/-- The slot was given to the sector before the load failed.  The next read of the sector hits it, reports
success and returns zeroes, where the logical content is still what was on the disk at first. -/
theorem bcache_failed_load_returns_garbage :
    ∃ s buffer' s', afterFailedLoad = .ok s ∧ s.log = [] ∧
      diskIOBCache failsFirstLoad s 1 ⟨.ioRead, 5, 1⟩ (fun _ _ => 0) = .ok (0, buffer', s') ∧
      buffer' 0 = (fun _ => 0) ∧ logicalOf (fun _ _ => 1) s.log (1, 5) = (fun _ => 1) ∧
      buffer' 0 ≠ logicalOf (fun _ _ => 1) s.log (1, 5) := by
  refine ⟨_, _, _, rfl, rfl, rfl, rfl, rfl, ?_⟩
  intro heq
  have := congrFun heq ⟨0, by decide⟩
  exact absurd this (by decide)

end Driver
end FreakOS
