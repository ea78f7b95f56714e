import FreakOS.Lib.ByteWords
import FreakOS.Lib.WriteBackCache
import FreakOS.Fs.FatNames

/-!
# The window of a FAT volume

`move_window`, `sync`, `get_cluster` and `put_cluster` of `fat_base.c`, with the sectors of the drive and the one sector
of them that the window holds.

Every transfer of a sector may fail, and then moves nothing.  `fatbase_disk_ioctl` never fails.

* `WinVolume` — `FATBase_SuperBlock` with the drive.
* `moveWindow`, `sync`, `getCluster`, `putCluster` — as in the source.
* `WinVolume.Shows` — the window is a write-back cache with one line in front of the drive.
* `moveWindow_shows` — the sector that is asked for comes into the window, and nothing is lost.
-/

namespace FreakOS
namespace Fat

open Lib
open Memory
open Fs (FR_RW_ERROR SECTOR_SIZE)

/-! ### The source -/

/-- The fields of `FATBase_SuperBlock` that `auto_mount` sets. -/
structure FatLayout where
  fsType : FsType
  fatbase : U32
  sectsFat : U32
  nFats : U8
  maxClust : U32
  fsiSector : U32
deriving DecidableEq, Repr

/-- `FATBase_SuperBlock`, with the sectors of the drive. -/
structure WinVolume extends FatLayout where
  lastClust : U32
  freeClust : U32
  fsiFlag : Bool
  winsect : U32
  winflag : Bool
  win : ByteMap
  disk : U32 → ByteMap
  /-- Which transfers succeed. -/
  ok : Nat → Bool
  accesses : Nat

namespace WinVolume

/-- `fatbase_disk_read(drive, buffer, sect, 1)`: the sector, unless the transfer fails. -/
def diskRead (v : WinVolume) (sect : U32) : Option ByteMap × WinVolume :=
  (if v.ok v.accesses then some (v.disk sect) else none, { v with accesses := v.accesses + 1 })

/-- `fatbase_disk_write(drive, buffer, sect, 1)`. -/
def diskWrite (v : WinVolume) (buffer : ByteMap) (sect : U32) : Bool × WinVolume :=
  if v.ok v.accesses then
    (true, { v with accesses := v.accesses + 1, disk := Function.update v.disk sect buffer })
  else (false, { v with accesses := v.accesses + 1 })

/-- The loop of `move_window` over the other FATs; a transfer that fails is not noticed. -/
def reflect : Nat → U32 → WinVolume → WinVolume
  | 0, _, v => v
  | n + 1, wsect, v =>
      let wsect := wsect + v.sectsFat
      reflect n wsect (v.diskWrite v.win wsect).2

/-- `move_window` writes the dirty window back. -/
def writeBack (v : WinVolume) : Bool × WinVolume :=
  if v.winflag then
    let wsect := v.winsect
    match v.diskWrite v.win wsect with
    | (false, v) => (false, v)
    | (true, v) =>
        let v := { v with winflag := false }
        (true, if wsect < v.fatbase + v.sectsFat then reflect (v.nFats.toNat - 1) wsect v else v)
  else (true, v)

/-- `move_window(fs, sector)`. -/
def moveWindow (v : WinVolume) (sector : U32) : Bool × WinVolume :=
  if v.winsect ≠ sector then
    match v.writeBack with
    | (false, v) => (false, v)
    | (true, v) =>
        if sector ≠ 0 then
          match v.diskRead sector with
          | (none, v) => (false, v)
          | (some win, v) => (true, { v with win := win, winsect := sector })
        else (true, v)
  else (true, v)

/-- The FSInfo sector. -/
def fsInfo (v : WinVolume) : ByteMap :=
  let win := st16 (fun _ => 0) 510 0xAA55#16
  let win := st32 win 0 0x41615252#32
  let win := st32 win 484 0x61417272#32
  let win := st32 win 488 v.freeClust
  st32 win 492 v.lastClust

/-- `sync(fs)`. -/
def sync (v : WinVolume) : Int × WinVolume :=
  match { v with winflag := true }.moveWindow 0 with
  | (false, v) => (FR_RW_ERROR, v)
  | (true, v) =>
      if v.fsType = .fat32 ∧ v.fsiFlag then
        let v := { v with winsect := 0, win := v.fsInfo }
        let (_, v) := v.diskWrite v.win v.fsiSector
        (0, { v with fsiFlag := false })
      else (0, v)

/-- `bc = (WORD)clust * 3 / 2`. -/
def bc12 (clust : U32) : U16 := BitVec.ofNat 16 (clust.toNat % 65536 * 3 / 2)

/-- The sector of a byte of the FAT of a FAT12 volume. -/
def sect12 (v : WinVolume) (bc : U16) : U32 := v.fatbase + bc.setWidth 32 / SECTOR_SIZE

/-- `get_cluster(fs, clust)`. -/
def getCluster (v : WinVolume) (clust : U32) : U32 × WinVolume :=
  if 2 ≤ clust ∧ clust < v.maxClust then
    let word := clust.toNat % 65536
    match v.fsType with
    | .fat12 =>
        let bc := bc12 clust
        match v.moveWindow (v.sect12 bc) with
        | (false, v) => (1, v)
        | (true, v) =>
            let wc := v.win (bc.toNat % 512)
            let bc := bc + 1
            match v.moveWindow (v.sect12 bc) with
            | (false, v) => (1, v)
            | (true, v) =>
                let wc : U16 := v.win (bc.toNat % 512) ++ wc
                ((if clust.toNat % 2 = 1 then wc >>> 4 else wc &&& 0xFFF).setWidth 32, v)
    | .fat16 =>
        match v.moveWindow (v.fatbase + clust / (SECTOR_SIZE / 2)) with
        | (false, v) => (1, v)
        | (true, v) => ((ld16 v.win (word * 2 % 512)).setWidth 32, v)
    | .fat32 =>
        match v.moveWindow (v.fatbase + clust / (SECTOR_SIZE / 4)) with
        | (false, v) => (1, v)
        | (true, v) => (ld32 v.win (word * 4 % 512) &&& 0x0FFFFFFF#32, v)
  else (1, v)

/-- `put_cluster(fs, clust, val)`. -/
def putCluster (v : WinVolume) (clust val : U32) : Bool × WinVolume :=
  let word := clust.toNat % 65536
  match v.fsType with
  | .fat12 =>
      let bc := bc12 clust
      match v.moveWindow (v.sect12 bc) with
      | (false, v) => (false, v)
      | (true, v) =>
          let p := bc.toNat % 512
          let v := { v with win := Function.update v.win p (low12 clust.toNat (v.win p) val) }
          let bc := bc + 1
          match { v with winflag := true }.moveWindow (v.sect12 bc) with
          | (false, v) => (false, v)
          | (true, v) =>
              let p := bc.toNat % 512
              (true, { v with
                win := Function.update v.win p (high12 clust.toNat (v.win p) val)
                winflag := true })
  | .fat16 =>
      match v.moveWindow (v.fatbase + clust / (SECTOR_SIZE / 2)) with
      | (false, v) => (false, v)
      | (true, v) => (true, { v with win := st16 v.win (word * 2 % 512) (val.setWidth 16), winflag := true })
  | .fat32 =>
      match v.moveWindow (v.fatbase + clust / (SECTOR_SIZE / 4)) with
      | (false, v) => (false, v)
      | (true, v) => (true, { v with win := st32 v.win (word * 4 % 512) val, winflag := true })

end WinVolume

/-! ### The window as a cache -/

/-- The FATs lie behind the boot sector and have numbers, and the FSInfo sector lies before them. -/
structure FatLayout.Placed (l : FatLayout) : Prop where
  boot : l.fatbase ≠ 0
  copies : 1 ≤ l.nFats.toNat
  below : l.fatbase.toNat + l.nFats.toNat * l.sectsFat.toNat < 2 ^ 32
  fsInfo : l.fsiSector < l.fatbase

/-- A sector of the first FAT. -/
def FatLayout.InFat (l : FatLayout) (s : U32) : Prop :=
  l.fatbase.toNat ≤ s.toNat ∧ s.toNat < l.fatbase.toNat + l.sectsFat.toNat

/-- A sector that comes into the window: it is of the first FAT, or behind the last one. -/
def FatLayout.Primary (l : FatLayout) (s : U32) : Prop :=
  l.InFat s ∨ l.fatbase.toNat + l.nFats.toNat * l.sectsFat.toNat ≤ s.toNat

instance (l : FatLayout) (s : U32) : Decidable (l.InFat s) := inferInstanceAs (Decidable (_ ∧ _))

instance (l : FatLayout) (s : U32) : Decidable (l.Primary s) := inferInstanceAs (Decidable (_ ∨ _))

theorem FatLayout.Placed.primary_ne_zero {l : FatLayout} (h : l.Placed) {s : U32} (hs : l.Primary s) : s ≠ 0 := by
  rintro rfl
  have hboot : l.fatbase.toNat ≠ 0 := fun hzero => h.boot (BitVec.eq_of_toNat_eq hzero)
  rcases hs with ⟨hle, -⟩ | hle
  · exact hboot (Nat.le_zero.mp hle)
  · exact hboot (Nat.eq_zero_of_add_eq_zero_right (Nat.le_zero.mp hle))

/-- The sector at the same place of the copy `k` of the FAT. -/
def FatLayout.copySect (l : FatLayout) (s : U32) (k : Nat) : U32 := s + BitVec.ofNat 32 k * l.sectsFat

/-- The numbers of the sectors of the copies do not wrap around. -/
theorem FatLayout.Placed.copySect_toNat {l : FatLayout} (h : l.Placed) {s : U32} (hs : l.InFat s) {k : Nat}
    (hk : k < l.nFats.toNat) : (l.copySect s k).toNat = s.toNat + k * l.sectsFat.toNat := by
  have hmul : (k + 1) * l.sectsFat.toNat ≤ l.nFats.toNat * l.sectsFat.toNat := Nat.mul_le_mul_right _ hk
  rw [Nat.add_mul, Nat.one_mul] at hmul
  have hbelow := h.below
  have hlt := hs.2
  have hle : k ≤ k * l.sectsFat.toNat := Nat.le_mul_of_pos_right k (by have := hs.1; omega)
  unfold FatLayout.copySect
  rw [BitVec.toNat_add, BitVec.toNat_mul, BitVec.toNat_ofNat, Nat.mod_eq_of_lt (a := k) (by omega),
    Nat.mod_eq_of_lt (a := k * _) (by omega), Nat.mod_eq_of_lt (by omega)]

/-- The copies are not asked for. -/
theorem FatLayout.Placed.copySect_not_primary {l : FatLayout} (h : l.Placed) {s : U32} (hs : l.InFat s) {k : Nat}
    (hpos : 1 ≤ k) (hk : k < l.nFats.toNat) : ¬ l.Primary (l.copySect s k) := by
  have hval := h.copySect_toNat hs hk
  have hmul : (k + 1) * l.sectsFat.toNat ≤ l.nFats.toNat * l.sectsFat.toNat := Nat.mul_le_mul_right _ hk
  have hone : l.sectsFat.toNat ≤ k * l.sectsFat.toNat := Nat.le_mul_of_pos_left _ hpos
  rw [Nat.add_mul, Nat.one_mul] at hmul
  have hlt := hs.2
  have hle := hs.1
  rintro (⟨-, hin⟩ | hbehind)
  · omega
  · omega

namespace WinVolume

/-- The one line of the cache; sector `0` is never in the window. -/
def lines (v : WinVolume) : Unit → Option (Line U32 ByteMap) :=
  fun _ => if v.winsect = 0 then none else some ⟨v.winsect, v.win, v.winflag⟩

/-- The sectors of the drive that come into the window. -/
def main (v : WinVolume) : U32 → ByteMap := fun s => if v.Primary s then v.disk s else fun _ => 0

/-- The window and the drive together show the sectors `L`. -/
structure Shows (v : WinVolume) (L : U32 → ByteMap) : Prop where
  placed : v.Placed
  coherent : Coherent v.lines v.main L
  primary : v.winsect ≠ 0 → v.Primary v.winsect
  unloaded : v.winsect = 0 → v.winflag = false

/-- What every operation leaves as it is. -/
structure Next (v v' : WinVolume) : Prop where
  layout : v'.toFatLayout = v.toFatLayout
  ok : v'.ok = v.ok
  accesses : v.accesses ≤ v'.accesses

namespace Next

variable {v v' v'' : WinVolume}

theorem refl (v : WinVolume) : Next v v := ⟨rfl, rfl, le_rfl⟩

theorem trans (h₁ : Next v v') (h₂ : Next v' v'') : Next v v'' :=
  ⟨h₂.layout.trans h₁.layout, h₂.ok.trans h₁.ok, h₁.accesses.trans h₂.accesses⟩

end Next

/-- The drive fails no transfer from here on. -/
def Works (v : WinVolume) : Prop := ∀ n, v.accesses ≤ n → v.ok n = true

theorem Next.works {v v' : WinVolume} (h : Next v v') (hworks : v.Works) : v'.Works := by
  intro n hn
  rw [h.ok]
  exact hworks n (h.accesses.trans hn)

section Window

variable {v v' : WinVolume} {L : U32 → ByteMap} {sector : U32}

/-! #### Transfers -/

theorem diskWrite_next (v : WinVolume) (buffer : ByteMap) (sect : U32) : Next v (v.diskWrite buffer sect).2 := by
  unfold diskWrite
  split
  · exact ⟨rfl, rfl, Nat.le_succ _⟩
  · exact ⟨rfl, rfl, Nat.le_succ _⟩

theorem lines_of_loaded (h : v.winsect ≠ 0) : v.lines () = some ⟨v.winsect, v.win, v.winflag⟩ := if_neg h

theorem line_eq {l : Line U32 ByteMap} {i : Unit} (h : v.lines i = some l) :
    v.winsect ≠ 0 ∧ l = ⟨v.winsect, v.win, v.winflag⟩ := by
  unfold lines at h
  split at h
  · cases h
  · rename_i hne
    exact ⟨hne, (Option.some.inj h).symm⟩

/-- A write to a sector that comes into the window. -/
theorem main_update (hs : v.Primary sector) (buffer : ByteMap) :
    { v with disk := Function.update v.disk sector buffer }.main = Function.update v.main sector buffer := by
  funext s
  unfold main
  by_cases hsect : s = sector
  · subst hsect
    rw [Function.update_self]
    exact (if_pos hs).trans (Function.update_self ..)
  · rw [Function.update_of_ne hsect]
    show (if v.Primary s then Function.update v.disk sector buffer s else _) = _
    rw [Function.update_of_ne hsect]

/-- The window and the drive are what counts. -/
theorem Shows.congr (h : v.Shows L) (hnext : Next v v') (hsect : v'.winsect = v.winsect) (hwin : v'.win = v.win)
    (hflag : v'.winflag = v.winflag) (hdisk : ∀ s, v.Primary s → v'.disk s = v.disk s) : v'.Shows L := by
  have hlines : v'.lines = v.lines := by
    unfold lines
    rw [hsect, hwin, hflag]
  have hmain : v'.main = v.main := by
    funext s
    unfold main
    rw [hnext.layout]
    split
    · rename_i hs
      exact hdisk s hs
    · rfl
  refine ⟨?_, ?_, ?_, ?_⟩
  · rw [hnext.layout]
    exact h.placed
  · rw [hlines, hmain]
    exact h.coherent
  · rw [hsect, hnext.layout]
    exact h.primary
  · rw [hsect, hflag]
    exact h.unloaded

/-- The window holds what is shown of its sector. -/
theorem Shows.win_eq (h : v.Shows L) (hne : v.winsect ≠ 0) : v.win = L v.winsect :=
  h.coherent.holds () _ (lines_of_loaded hne)

/-- Changing the bytes of the window changes what is shown of its sector. -/
theorem Shows.store (h : v.Shows L) (hne : v.winsect ≠ 0) (win : ByteMap) :
    { v with win := win, winflag := true }.Shows (Function.update L v.winsect win) := by
  have hlines : { v with win := win, winflag := true }.lines =
      Function.update v.lines () (some ⟨v.winsect, win, true⟩) := by
    funext u
    rw [Function.update_self]
    exact if_neg hne
  refine ⟨h.placed, ?_, h.primary, ?_⟩
  · rw [hlines]
    exact h.coherent.write (lines_of_loaded hne) win
  · intro hzero
    exact absurd hzero hne

/-- The sector of a clean window is on the drive. -/
theorem Shows.main_eq (h : v.Shows L) (hclean : v.winflag = false) : v.main = L := by
  refine h.coherent.backing_eq ?_
  intro i l hl hdirty
  obtain ⟨-, rfl⟩ := line_eq hl
  rw [hclean] at hdirty
  cases hdirty

theorem copySect_succ (l : FatLayout) (s : U32) (k : Nat) : l.copySect (s + l.sectsFat) k = l.copySect s (k + 1) := by
  unfold FatLayout.copySect
  rw [BitVec.ofNat_add, BitVec.add_mul, BitVec.one_mul, BitVec.add_assoc, BitVec.add_comm l.sectsFat]

/-- The loop over the other FATs touches the copies of the sector only. -/
theorem reflect_spec (n : Nat) (wsect : U32) (v : WinVolume) :
    Next v (v.reflect n wsect) ∧ (v.reflect n wsect).winsect = v.winsect ∧ (v.reflect n wsect).win = v.win ∧
      (v.reflect n wsect).winflag = v.winflag ∧
      ∀ s, (∀ k, 1 ≤ k → k ≤ n → s ≠ v.copySect wsect k) → (v.reflect n wsect).disk s = v.disk s := by
  induction n generalizing wsect v with
  | zero => exact ⟨.refl v, rfl, rfl, rfl, fun _ _ => rfl⟩
  | succ n ih =>
      obtain ⟨hnext, hsect, hwin, hflag, hdisk⟩ := ih (wsect + v.sectsFat) (v.diskWrite v.win (wsect + v.sectsFat)).2
      have hwrite := diskWrite_next v v.win (wsect + v.sectsFat)
      have hfields : (v.diskWrite v.win (wsect + v.sectsFat)).2.winsect = v.winsect ∧
          (v.diskWrite v.win (wsect + v.sectsFat)).2.win = v.win ∧
          (v.diskWrite v.win (wsect + v.sectsFat)).2.winflag = v.winflag ∧
          ∀ s ≠ wsect + v.sectsFat, (v.diskWrite v.win (wsect + v.sectsFat)).2.disk s = v.disk s := by
        unfold diskWrite
        split
        · exact ⟨rfl, rfl, rfl, fun s hs => Function.update_of_ne hs ..⟩
        · exact ⟨rfl, rfl, rfl, fun _ _ => rfl⟩
      obtain ⟨hs, hw, hf, hd⟩ := hfields
      refine ⟨hwrite.trans hnext, hsect.trans hs, hwin.trans hw, hflag.trans hf, ?_⟩
      intro s hfar
      refine (hdisk s ?_).trans (hd s ?_)
      · intro k hpos hk
        rw [hwrite.layout, copySect_succ]
        exact hfar (k + 1) (by omega) (by omega)
      · have hone := hfar 1 le_rfl (by omega)
        unfold FatLayout.copySect at hone
        rwa [BitVec.one_mul] at hone

/-- The loop writes the window, wherever it writes. -/
theorem reflect_disk (n : Nat) (wsect : U32) (v : WinVolume) (s : U32) :
    (v.reflect n wsect).disk s = v.disk s ∨ (v.reflect n wsect).disk s = v.win := by
  induction n generalizing wsect v with
  | zero => exact Or.inl rfl
  | succ n ih =>
      have hwrite : (v.diskWrite v.win (wsect + v.sectsFat)).2.win = v.win ∧
          ((v.diskWrite v.win (wsect + v.sectsFat)).2.disk s = v.disk s ∨
            (v.diskWrite v.win (wsect + v.sectsFat)).2.disk s = v.win) := by
        unfold diskWrite
        split
        · refine ⟨rfl, ?_⟩
          by_cases hs : s = wsect + v.sectsFat
          · exact Or.inr (by rw [hs]; exact Function.update_self ..)
          · exact Or.inl (Function.update_of_ne hs ..)
        · exact ⟨rfl, Or.inl rfl⟩
      rcases ih (wsect + v.sectsFat) (v.diskWrite v.win (wsect + v.sectsFat)).2 with hsame | hwin
      · rcases hwrite.2 with h | h
        · exact Or.inl (hsame.trans h)
        · exact Or.inr (hsame.trans h)
      · exact Or.inr (hwin.trans hwrite.1)

/-- On a drive that works, the copies of the sector hold the window then. -/
theorem reflect_copies (n : Nat) (wsect : U32) (hworks : v.Works) {k : Nat} (hpos : 1 ≤ k) (hk : k ≤ n) :
    (v.reflect n wsect).disk (v.copySect wsect k) = v.win := by
  induction n generalizing wsect v k with
  | zero => omega
  | succ n ih =>
      have hwrite : v.diskWrite v.win (wsect + v.sectsFat) = (true, { v with
          accesses := v.accesses + 1, disk := Function.update v.disk (wsect + v.sectsFat) v.win }) :=
        if_pos (hworks v.accesses le_rfl)
      have hnext := diskWrite_next v v.win (wsect + v.sectsFat)
      show (reflect n (wsect + v.sectsFat) (v.diskWrite v.win (wsect + v.sectsFat)).2).disk _ = v.win
      by_cases hone : k = 1
      · -- The first one, which the other ones can only write again.
        subst hone
        have hplace : v.copySect wsect 1 = wsect + v.sectsFat := by
          unfold FatLayout.copySect
          rw [BitVec.one_mul]
        have hdone : (v.diskWrite v.win (wsect + v.sectsFat)).2.disk (v.copySect wsect 1) = v.win := by
          rw [hwrite, hplace]
          exact Function.update_self ..
        have hwin : (v.diskWrite v.win (wsect + v.sectsFat)).2.win = v.win := by rw [hwrite]
        rcases reflect_disk n (wsect + v.sectsFat) (v.diskWrite v.win (wsect + v.sectsFat)).2 (v.copySect wsect 1)
          with h | h
        · exact h.trans hdone
        · exact h.trans hwin
      · obtain ⟨k, rfl⟩ : ∃ j, k = j + 1 := ⟨k - 1, by omega⟩
        have hcopy := ih (v := (v.diskWrite v.win (wsect + v.sectsFat)).2) (wsect + v.sectsFat) (hnext.works hworks)
          (k := k) (by omega) (by omega)
        rw [hnext.layout, copySect_succ] at hcopy
        rw [hcopy, hwrite]

/-! #### `move_window` -/

/-- The copies of the FAT are like the first one, but for the sector of a dirty window. -/
def Mirrored (v : WinVolume) : Prop :=
  ∀ s, v.InFat s → (s = v.winsect → v.winflag = false) →
    ∀ k, 1 ≤ k → k < v.nFats.toNat → v.disk (v.copySect s k) = v.disk s

/-- A step that keeps what is shown, and on a drive that works the copies too. -/
structure Keeps (v v' : WinVolume) (L : U32 → ByteMap) : Prop where
  next : Next v v'
  shows : v'.Shows L
  mirrored : v.Works → v.Mirrored → v'.Mirrored

theorem Keeps.refl (h : v.Shows L) : Keeps v v L := ⟨.refl v, h, fun _ hm => hm⟩

theorem Keeps.trans {v'' : WinVolume} (h₁ : Keeps v v' L) (h₂ : Keeps v' v'' L) : Keeps v v'' L :=
  ⟨h₁.next.trans h₂.next, h₂.shows, fun hworks hm => h₂.mirrored (h₁.next.works hworks) (h₁.mirrored hworks hm)⟩

/-- A step that moves nothing. -/
theorem keeps_of_eq (h : v.Shows L) (hnext : Next v v') (hsect : v'.winsect = v.winsect) (hwin : v'.win = v.win)
    (hflag : v'.winflag = v.winflag) (hdisk : v'.disk = v.disk) : Keeps v v' L := by
  refine ⟨hnext, h.congr hnext hsect hwin hflag fun s _ => by rw [hdisk], ?_⟩
  intro _ hm
  unfold Mirrored
  rw [hnext.layout, hsect, hflag, hdisk]
  exact hm

/-- The window has been written to its sector. -/
theorem Shows.written (h : v.Shows L) (hne : v.winsect ≠ 0) :
    { v with disk := Function.update v.disk v.winsect v.win, winflag := false }.Shows L := by
  have hmain := main_update (v := v) (h.primary hne) v.win
  have hbacked := h.coherent.writeBack (lines_of_loaded hne)
  have hholds : (fun s => Function.update v.main v.winsect v.win s) v.winsect = L v.winsect :=
    (Function.update_self ..).trans (h.win_eq hne)
  refine ⟨h.placed, ?_, h.primary, fun hzero => absurd hzero hne⟩
  refine ⟨fun _ _ _ _ _ _ _ => rfl, ?_, ?_⟩
  · intro i l hl
    obtain ⟨-, rfl⟩ := line_eq hl
    exact h.win_eq hne
  · intro s _
    have hs : { v with disk := Function.update v.disk v.winsect v.win, winflag := false }.main s =
        Function.update v.main v.winsect v.win s := congrFun hmain s
    rw [hs]
    by_cases hsect : s = v.winsect
    · subst hsect
      exact hholds
    · refine hbacked.clean s ?_
      intro i l hl hkey
      obtain ⟨-, rfl⟩ := line_eq hl
      exact absurd hkey.symm hsect

/-- Copies of different sectors are different, and so are different copies of one sector. -/
theorem copySect_inj (h : v.Placed) {s s' : U32} (hs : v.InFat s) (hs' : v.InFat s') {k k' : Nat}
    (hk : k < v.nFats.toNat) (hk' : k' < v.nFats.toNat) (heq : v.copySect s k = v.copySect s' k') : s = s' := by
  have hval := h.copySect_toNat hs hk
  have hval' := h.copySect_toNat hs' hk'
  rw [heq, hval'] at hval
  have hgap : ∀ a b : Nat, a < b → a * v.sectsFat.toNat + v.sectsFat.toNat ≤ b * v.sectsFat.toNat := by
    intro a b hab
    have hle : (a + 1) * v.sectsFat.toNat ≤ b * v.sectsFat.toNat := Nat.mul_le_mul_right _ hab
    rwa [Nat.add_mul, Nat.one_mul] at hle
  obtain ⟨h₁, h₂⟩ := hs
  obtain ⟨h₃, h₄⟩ := hs'
  rcases lt_trichotomy k k' with hlt | rfl | hlt
  · have hstep := hgap k k' hlt
    omega
  · exact BitVec.eq_of_toNat_eq (by omega)
  · have hstep := hgap k' k hlt
    omega

/-- The sectors of the first FAT are those that `move_window` reflects. -/
theorem inFat_iff_lt (h : v.Placed) (hs : v.Primary sector) : v.InFat sector ↔ sector < v.fatbase + v.sectsFat := by
  have hone : v.sectsFat.toNat ≤ v.nFats.toNat * v.sectsFat.toNat := Nat.le_mul_of_pos_left _ h.copies
  have hbelow := h.below
  rw [BitVec.lt_def, BitVec.toNat_add, Nat.mod_eq_of_lt (by omega)]
  rcases hs with hs | hs
  · exact ⟨fun h => h.2, fun _ => hs⟩
  · constructor
    · intro hin
      exact hin.2
    · intro hlt
      omega

/-- The window has been written to its sector, and to the copies if it is of the FAT. -/
theorem mirrored_written (h : v.Shows L) (hne : v.winsect ≠ 0) (hm : v.Mirrored) {disk : U32 → ByteMap}
    (hsame : ∀ s ≠ v.winsect, (v.InFat v.winsect → ∀ k, 1 ≤ k → k < v.nFats.toNat → s ≠ v.copySect v.winsect k) →
      disk s = v.disk s)
    (hself : disk v.winsect = v.win)
    (hcopies : v.InFat v.winsect → ∀ k, 1 ≤ k → k < v.nFats.toNat → disk (v.copySect v.winsect k) = v.win) :
    ∀ s, v.InFat s → ∀ k, 1 ≤ k → k < v.nFats.toNat → disk (v.copySect s k) = disk s := by
  intro s hs k hpos hk
  by_cases hsect : s = v.winsect
  · subst hsect
    rw [hcopies hs k hpos hk, hself]
  · -- Neither the sector nor its copy is written.
    rw [hsame s hsect, hsame (v.copySect s k)]
    · exact hm s hs (fun heq => absurd heq hsect) k hpos hk
    · intro heq
      have hnot := h.placed.copySect_not_primary hs hpos hk
      rw [heq] at hnot
      exact hnot (h.primary hne)
    · intro hin k' hpos' hk' heq
      exact hsect (copySect_inj h.placed hs hin hk hk' heq)
    · intro hin k' hpos' hk' heq
      refine h.placed.copySect_not_primary hin hpos' hk' ?_
      rw [← heq]
      exact Or.inl hs

/-- A dirty window is written back. -/
theorem writeBack_dirty (h : v.Shows L) (hflag : v.winflag = true) (hok : v.ok v.accesses = true) :
    v.writeBack.1 = true ∧ Keeps v v.writeBack.2 L ∧ v.writeBack.2.winsect = v.winsect ∧
      v.writeBack.2.win = v.win ∧ v.writeBack.2.winflag = false := by
  have hne : v.winsect ≠ 0 := by
    intro hzero
    rw [h.unloaded hzero] at hflag
    cases hflag
  have hwritten := h.written hne
  have hprimary := h.primary hne
  -- The volume before the other FATs are written.
  obtain ⟨w, hw⟩ : ∃ w : WinVolume, w = { v with
      accesses := v.accesses + 1, disk := Function.update v.disk v.winsect v.win, winflag := false } := ⟨_, rfl⟩
  have hcall : v.writeBack = (true, if v.winsect < v.fatbase + v.sectsFat then
      w.reflect (v.nFats.toNat - 1) v.winsect else w) := by
    unfold writeBack diskWrite
    rw [if_pos hflag]
    dsimp only
    rw [if_pos hok, hw]
  have hnext : Next v w := by
    rw [hw]
    exact ⟨rfl, rfl, Nat.le_succ _⟩
  have hshows : w.Shows L := by
    refine hwritten.congr ?_ ?_ ?_ ?_ ?_
    · rw [hw]
      exact ⟨rfl, rfl, Nat.le_succ _⟩
    all_goals rw [hw]
    intro _ _
    rfl
  have hsect : w.winsect = v.winsect := by rw [hw]
  have hwin : w.win = v.win := by rw [hw]
  have hclean : w.winflag = false := by rw [hw]
  have hdisk : w.disk = Function.update v.disk v.winsect v.win := by rw [hw]
  rw [hcall]
  refine ⟨rfl, ?_⟩
  dsimp only
  by_cases hin : v.InFat v.winsect
  · rw [if_pos ((inFat_iff_lt h.placed hprimary).mp hin)]
    obtain ⟨hnext', hsect', hwin', hflag', hdisk'⟩ := reflect_spec (v.nFats.toNat - 1) v.winsect w
    rw [hnext.layout] at hdisk'
    refine ⟨⟨hnext.trans hnext', hshows.congr hnext' hsect' hwin' hflag' ?_, ?_⟩, hsect'.trans hsect,
      hwin'.trans hwin, hflag'.trans hclean⟩
    · intro s hs
      rw [hnext.layout] at hs
      refine hdisk' s fun k hpos hk heq => ?_
      refine h.placed.copySect_not_primary hin hpos (k := k) (by omega) ?_
      rw [← heq]
      exact hs
    · intro hworks hm s hs _
      rw [(hnext.trans hnext').layout] at hs ⊢
      refine mirrored_written h hne hm ?_ ?_ ?_ s hs
      · intro s hs hfar
        refine (hdisk' s fun k hpos hk => hfar hin k hpos (by omega)).trans ?_
        rw [hdisk]
        exact Function.update_of_ne hs ..
      · refine (hdisk' _ fun k hpos hk heq => ?_).trans ?_
        · refine h.placed.copySect_not_primary hin hpos (k := k) (by omega) ?_
          rw [← heq]
          exact hprimary
        · rw [hdisk]
          exact Function.update_self ..
      · intro _ k hpos hk
        have hcopy := reflect_copies (v.nFats.toNat - 1) v.winsect (hnext.works hworks) hpos (k := k) (by omega)
        rw [hnext.layout] at hcopy
        exact hcopy.trans hwin
  · rw [if_neg fun hlt => hin ((inFat_iff_lt h.placed hprimary).mpr hlt)]
    refine ⟨⟨hnext, hshows, ?_⟩, hsect, hwin, hclean⟩
    intro _ hm s hs _
    rw [hnext.layout] at hs ⊢
    refine mirrored_written h hne hm ?_ ?_ ?_ s hs
    · intro s hs _
      rw [hdisk]
      exact Function.update_of_ne hs ..
    · rw [hdisk]
      exact Function.update_self ..
    · intro hin'
      exact absurd hin' hin

/-- After `writeBack` the window is clean, unless the transfer has failed. -/
theorem writeBack_keeps (h : v.Shows L) : Keeps v v.writeBack.2 L ∧ v.writeBack.2.winsect = v.winsect ∧
    v.writeBack.2.win = v.win ∧ (v.writeBack.1 = true → v.writeBack.2.winflag = false) ∧
      (v.Works → v.writeBack.1 = true) := by
  by_cases hflag : v.winflag = true
  · by_cases hok : v.ok v.accesses = true
    · obtain ⟨hdone, hkeeps, hsect, hwin, hclean⟩ := writeBack_dirty h hflag hok
      exact ⟨hkeeps, hsect, hwin, fun _ => hclean, fun _ => hdone⟩
    · have hcall : v.writeBack = (false, { v with accesses := v.accesses + 1 }) := by
        unfold writeBack diskWrite
        rw [if_pos hflag]
        dsimp only
        rw [if_neg hok]
      rw [hcall]
      refine ⟨keeps_of_eq h ⟨rfl, rfl, Nat.le_succ _⟩ rfl rfl rfl rfl, rfl, rfl, nofun, ?_⟩
      intro hworks
      exact absurd (hworks _ le_rfl) hok
  · have hcall : v.writeBack = (true, v) := if_neg hflag
    rw [hcall]
    exact ⟨.refl h, rfl, rfl, fun _ => by simpa using hflag, fun _ => rfl⟩

/-- A sector comes into a clean window. -/
theorem Shows.load (h : v.Shows L) (hclean : v.winflag = false) (hother : v.winsect ≠ sector)
    (hs : v.Primary sector) : Keeps v { v with win := v.disk sector, winsect := sector, accesses := v.accesses + 1 } L := by
  have hne := h.placed.primary_ne_zero hs
  have hmain : v.main sector = v.disk sector := if_pos hs
  have hlines : { v with win := v.disk sector, winsect := sector, accesses := v.accesses + 1 }.lines =
      Function.update v.lines () (some ⟨sector, v.main sector, false⟩) := by
    funext u
    rw [Function.update_self, hmain, ← hclean]
    exact if_neg hne
  refine ⟨⟨rfl, rfl, Nat.le_succ _⟩, ⟨h.placed, ?_, fun _ => hs, fun hzero => absurd hzero hne⟩, ?_⟩
  · rw [hlines]
    refine h.coherent.refill ?_ ?_
    · intro l hl
      obtain ⟨-, rfl⟩ := line_eq hl
      rw [h.main_eq hclean]
    · intro _ l hl
      obtain ⟨-, rfl⟩ := line_eq hl
      exact hother
  · intro _ hm s hs _
    exact hm s hs fun _ => hclean

/-- The sector that is asked for comes into the window, unless a transfer fails; nothing is lost. -/
theorem moveWindow_shows (h : v.Shows L) (hs : v.Primary sector) :
    Keeps v (v.moveWindow sector).2 L ∧
      ((v.moveWindow sector).1 = true → (v.moveWindow sector).2.winsect = sector ∧
        (v.moveWindow sector).2.win = L sector) ∧
      (v.Works → (v.moveWindow sector).1 = true) := by
  have hne := h.placed.primary_ne_zero hs
  unfold moveWindow
  by_cases hother : v.winsect ≠ sector
  · rw [if_pos hother]
    obtain ⟨hkeeps, hsect, -, hclean, hdone⟩ := writeBack_keeps h
    generalize v.writeBack = r at hkeeps hsect hclean hdone
    obtain ⟨ok, w⟩ := r
    cases ok with
    | false => exact ⟨hkeeps, nofun, fun hworks => hdone hworks⟩
    | true =>
        dsimp only at hkeeps hsect hclean ⊢
        have hsw : w.Primary sector := by
          rw [hkeeps.next.layout]
          exact hs
        have hload := hkeeps.shows.load (hclean rfl) (by rwa [hsect]) hsw
        rw [if_pos hne]
        unfold diskRead
        by_cases hok : w.ok w.accesses = true
        · rw [if_pos hok]
          refine ⟨hkeeps.trans hload, fun _ => ⟨rfl, ?_⟩, fun _ => rfl⟩
          exact hload.shows.win_eq hne
        · rw [if_neg hok]
          refine ⟨hkeeps.trans (keeps_of_eq hkeeps.shows ⟨rfl, rfl, Nat.le_succ _⟩ rfl rfl rfl rfl), nofun, ?_⟩
          intro hworks
          exact absurd (hkeeps.next.works hworks _ le_rfl) hok
  · rw [if_neg hother]
    rw [not_not] at hother
    refine ⟨.refl h, fun _ => ⟨hother, ?_⟩, fun _ => rfl⟩
    rw [← hother]
    exact h.win_eq (by rwa [hother])

/-- Moving to sector `0` writes a dirty window back. -/
theorem moveWindow_zero (v : WinVolume) (hne : v.winsect ≠ 0) : v.moveWindow 0 = v.writeBack := by
  unfold moveWindow
  rw [if_pos hne]
  generalize v.writeBack = r
  obtain ⟨ok, w⟩ := r
  cases ok with
  | false => rfl
  | true => exact if_neg (not_not.mpr rfl)

/-! #### `sync` -/

/-- The FSInfo sector does not come into the window, and is no copy. -/
theorem fsInfo_apart (h : v.Placed) : ¬ v.Primary v.fsiSector ∧
    ∀ s, v.InFat s → ∀ k < v.nFats.toNat, v.copySect s k ≠ v.fsiSector := by
  have hlt := BitVec.lt_def.mp h.fsInfo
  refine ⟨?_, ?_⟩
  · rintro (⟨hle, -⟩ | hle)
    · omega
    · omega
  · intro s hs k hk heq
    have hval := h.copySect_toNat hs hk
    rw [heq] at hval
    have hle := hs.1
    omega

/-- The FSInfo sector is written from the window, which then has no sector. -/
theorem Shows.writeFsInfo (h : v.Shows L) (hclean : v.winflag = false) (win : ByteMap) :
    Keeps v { ({ v with winsect := 0, win := win }.diskWrite win v.fsiSector).2 with fsiFlag := false } L := by
  obtain ⟨hprimary, hcopy⟩ := fsInfo_apart h.placed
  -- The window is dropped first.
  have hempty : { v with winsect := 0, win := win }.Shows L := by
    refine ⟨h.placed, ?_, fun hne => absurd rfl hne, fun _ => hclean⟩
    have hmain : { v with winsect := 0, win := win }.main = L := h.main_eq hclean
    rw [hmain]
    exact Coherent.empty fun _ => rfl
  unfold diskWrite
  split
  · refine ⟨⟨rfl, rfl, Nat.le_succ _⟩, hempty.congr ⟨rfl, rfl, Nat.le_succ _⟩ rfl rfl rfl ?_, ?_⟩
    · intro s hs
      refine Function.update_of_ne ?_ ..
      rintro rfl
      exact hprimary hs
    · intro _ hm s hs _ k hpos hk
      refine (Function.update_of_ne (hcopy s hs k hk) ..).trans ((hm s hs (fun _ => hclean) k hpos hk).trans ?_)
      refine (Function.update_of_ne ?_ ..).symm
      rintro rfl
      exact hprimary (Or.inl hs)
  · refine ⟨⟨rfl, rfl, Nat.le_succ _⟩, hempty.congr ⟨rfl, rfl, Nat.le_succ _⟩ rfl rfl rfl fun _ _ => rfl, ?_⟩
    intro _ hm s hs _
    exact hm s hs fun _ => hclean

/-- `sync` writes the window back, if there is one: without, the next window would be written to sector `0`. -/
theorem sync_shows (h : v.Shows L) (hne : v.winsect ≠ 0) :
    Keeps v v.sync.2 L ∧ (v.sync.1 = 0 → v.sync.2.winflag = false) ∧ (v.Works → v.sync.1 = 0) := by
  have hmark : Keeps v { v with winflag := true } L := by
    refine ⟨⟨rfl, rfl, le_rfl⟩, ?_, ?_⟩
    · have hsame : Function.update L v.winsect v.win = L := by
        rw [h.win_eq hne, Function.update_eq_self]
      have hstore := h.store hne v.win
      rwa [hsame] at hstore
    · intro _ hm s hs hdirty
      exact hm s hs fun heq => by cases hdirty heq
  obtain ⟨hkeeps, -, -, hclean, hdone⟩ := writeBack_keeps hmark.shows
  have hcall := moveWindow_zero { v with winflag := true } hne
  unfold sync
  rw [hcall]
  generalize { v with winflag := true }.writeBack = r at hkeeps hclean hdone
  obtain ⟨ok, w⟩ := r
  have hw := hmark.trans hkeeps
  cases ok with
  | false =>
      have herror : FR_RW_ERROR ≠ 0 := by decide
      exact ⟨hw, fun hzero => absurd hzero herror, fun hworks => by cases hdone hworks⟩
  | true =>
      dsimp only at hw hclean ⊢
      split
      · have hinfo := hw.shows.writeFsInfo (hclean rfl) w.fsInfo
        refine ⟨hw.trans hinfo, fun _ => ?_, fun _ => rfl⟩
        unfold diskWrite
        split
        · exact hclean rfl
        · exact hclean rfl
      · exact ⟨hw, fun _ => hclean rfl, fun _ => rfl⟩

end Window

end WinVolume

end Fat
end FreakOS
