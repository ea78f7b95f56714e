import FreakOS.Fs.FatWindow

/-!
# The FAT as a table

What `get_cluster` and `put_cluster` of `fat_base.c` do to the entries of the FAT, which has entries of 12, 16 or 32 bits.
An entry of a FAT12 volume may lie in two sectors.

* `entryOf` — the entry of a cluster, read from the bytes of the first FAT.
* `getCluster_spec`, `putCluster_spec` — what the two functions read and write.
* `Fits` — the FAT has room for its entries, and `auto_mount` has chosen its type.
* `run_refines` — over any sequence of accesses, of which every one may fail, the volume is a table of clusters and a
  store of the sectors behind it.
* `sync_durable` — after `sync` the drive itself has the table, in every copy of the FAT.
-/

namespace FreakOS
namespace Fat

open Lib
open Memory
open Fs (FR_RW_ERROR SECTOR_SIZE)

/-! ### The bytes of the FAT -/

/-- The sector of a byte of the first FAT. -/
def FatLayout.sectOf (l : FatLayout) (i : Nat) : U32 := l.fatbase + BitVec.ofNat 32 (i / 512)

/-- The bytes of the first FAT. -/
def FatLayout.fatBytes (l : FatLayout) (L : U32 → ByteMap) : ByteMap := fun i => L (l.sectOf i) (i % 512)

/-- The entry of a cluster. -/
def FatLayout.entryOf (l : FatLayout) (L : U32 → ByteMap) (clust : U32) : U32 :=
  match l.fsType with
  | .fat12 => (ld12 (l.fatBytes L) clust.toNat).setWidth 32
  | .fat16 => (ld16 (l.fatBytes L) (2 * clust.toNat)).setWidth 32
  | .fat32 => ld32 (l.fatBytes L) (4 * clust.toNat) &&& 0x0FFFFFFF#32

/-- The bits that an entry has. -/
def FatLayout.entryMask (l : FatLayout) : U32 :=
  match l.fsType with
  | .fat12 => 0xFFF#32
  | .fat16 => 0xFFFF#32
  | .fat32 => 0x0FFFFFFF#32

/-- The sectors of a FAT hold its entries, and the type of the FAT is the one of the number of clusters. -/
structure FatLayout.Fits (l : FatLayout) : Prop where
  fat12 : l.fsType = .fat12 → l.maxClust.toNat < 0xFF7 ∧ l.maxClust.toNat * 3 ≤ l.sectsFat.toNat * 1024
  fat16 : l.fsType = .fat16 → l.maxClust.toNat < 0xFFF7 ∧ l.maxClust.toNat * 2 ≤ l.sectsFat.toNat * 512
  fat32 : l.fsType = .fat32 → l.maxClust.toNat * 4 ≤ l.sectsFat.toNat * 512

namespace FatLayout

/-- The copy `k` of the FAT, as if it were the first one. -/
def copy (l : FatLayout) (k : Nat) : FatLayout := { l with fatbase := l.copySect l.fatbase k }

theorem copy_sectOf (l : FatLayout) (k i : Nat) : (l.copy k).sectOf i = l.copySect (l.sectOf i) k := by
  unfold sectOf copy copySect
  rw [BitVec.add_assoc, BitVec.add_comm (_ * _), ← BitVec.add_assoc]

variable {l : FatLayout} {L : U32 → ByteMap} {i j : Nat}

theorem Placed.sectOf_toNat (h : l.Placed) (hi : i < l.sectsFat.toNat * 512) :
    (l.sectOf i).toNat = l.fatbase.toNat + i / 512 := by
  have hone : l.sectsFat.toNat ≤ l.nFats.toNat * l.sectsFat.toNat := Nat.le_mul_of_pos_left _ h.copies
  have hbelow := h.below
  unfold sectOf
  rw [BitVec.toNat_add, BitVec.toNat_ofNat, Nat.mod_eq_of_lt (a := i / 512) (by omega), Nat.mod_eq_of_lt (by omega)]

/-- The bytes of the FAT lie in its sectors. -/
theorem Placed.inFat_sectOf (h : l.Placed) (hi : i < l.sectsFat.toNat * 512) : l.InFat (l.sectOf i) := by
  unfold InFat
  rw [h.sectOf_toNat hi]
  omega

/-- The bytes of the FAT after a change of one of its sectors. -/
theorem Placed.fatBytes_update (h : l.Placed) (hi : i < l.sectsFat.toNat * 512) (hj : j < l.sectsFat.toNat * 512)
    (win : ByteMap) : l.fatBytes (Function.update L (l.sectOf i) win) j =
      if j / 512 = i / 512 then win (j % 512) else l.fatBytes L j := by
  unfold fatBytes
  by_cases hsame : j / 512 = i / 512
  · have hsect : l.sectOf j = l.sectOf i := by
      unfold sectOf
      rw [hsame]
    rw [if_pos hsame, hsect, Function.update_self]
  · have hsect : l.sectOf j ≠ l.sectOf i := by
      intro heq
      have hval := congrArg BitVec.toNat heq
      rw [h.sectOf_toNat hi, h.sectOf_toNat hj] at hval
      omega
    rw [if_neg hsame, Function.update_of_ne hsect]

/-- The bytes of the FAT after a change of one of them. -/
theorem Placed.fatBytes_byte (h : l.Placed) (hi : i < l.sectsFat.toNat * 512) (hj : j < l.sectsFat.toNat * 512)
    (x : U8) :
    l.fatBytes (Function.update L (l.sectOf i) (Function.update (L (l.sectOf i)) (i % 512) x)) j =
      Function.update (l.fatBytes L) i x j := by
  rw [h.fatBytes_update hi hj]
  by_cases hij : j = i
  · subst hij
    rw [if_pos rfl, Function.update_self, Function.update_self]
  · rw [Function.update_of_ne hij]
    split
    · rename_i hsame
      have hsect : l.sectOf i = l.sectOf j := by
        unfold sectOf
        rw [hsame]
      rw [Function.update_of_ne (by omega), hsect]
      rfl
    · rfl

/-- A change of `m` bytes of a sector leaves the other bytes of the FAT. -/
theorem Placed.fatBytes_apart (h : l.Placed) {m : Nat} {win : ByteMap} (hi : i < l.sectsFat.toNat * 512)
    (hwin : ∀ o, o < i % 512 ∨ i % 512 + m ≤ o → win o = L (l.sectOf i) o) (hj : j < l.sectsFat.toNat * 512)
    (hfar : j < i ∨ i + m ≤ j) : l.fatBytes (Function.update L (l.sectOf i) win) j = l.fatBytes L j := by
  rw [h.fatBytes_update hi hj]
  split
  · rename_i hsame
    rw [hwin _ (by omega)]
    unfold fatBytes sectOf
    rw [hsame]
  · rfl

/-- The bytes of a word are in one sector. -/
theorem fatBytes_near (L : U32 → ByteMap) {d : Nat} (h : i % 512 + d < 512) :
    l.fatBytes L (i + d) = L (l.sectOf i) (i % 512 + d) := by
  have hdiv : (i + d) / 512 = i / 512 := by omega
  have hmod : (i + d) % 512 = i % 512 + d := by omega
  unfold fatBytes sectOf
  rw [hdiv, hmod]

theorem ld16_fatBytes (L : U32 → ByteMap) (h : i % 512 + 1 < 512) :
    ld16 (l.fatBytes L) i = ld16 (L (l.sectOf i)) (i % 512) := by
  unfold ld16
  rw [fatBytes_near L h]
  rfl

theorem ld32_fatBytes (L : U32 → ByteMap) (h : i % 512 + 3 < 512) :
    ld32 (l.fatBytes L) i = ld32 (L (l.sectOf i)) (i % 512) := by
  unfold ld32 ld16
  rw [Nat.add_assoc i 2 1, fatBytes_near L h, fatBytes_near L (d := 2) (by omega),
    fatBytes_near L (d := 1) (by omega)]
  rfl

/-! ### Places of the entries -/

variable {clust c : U32}

theorem bc12_toNat (hc : clust.toNat < 0xFF7) : (WinVolume.bc12 clust).toNat = at12 clust.toNat := by
  unfold WinVolume.bc12 at12
  rw [BitVec.toNat_ofNat, Nat.mod_eq_of_lt (a := clust.toNat) (by omega), Nat.mod_eq_of_lt (by omega)]

/-- `fatbase + bc / SS(fs)`. -/
theorem sect12_eq (v : WinVolume) {w : WinVolume} (hl : w.toFatLayout = v.toFatLayout) {bc : U16} {i : Nat}
    (h : bc.toNat = i) : w.sect12 bc = v.sectOf i := by
  unfold WinVolume.sect12 sectOf
  rw [hl]
  congr 1
  refine BitVec.eq_of_toNat_eq ?_
  have hlt := bc.isLt
  rw [BitVec.toNat_udiv, BitVec.toNat_setWidth, BitVec.toNat_ofNat, h]
  show i % 2 ^ 32 / 512 = _
  omega

/-- `fatbase + clust / (SS(fs) / 2)` and its like. -/
theorem sectOf_mul (l : FatLayout) {n : Nat} (m : U32) (hm : n * m.toNat = 512) :
    l.fatbase + clust / m = l.sectOf (n * clust.toNat) := by
  unfold sectOf
  congr 1
  refine BitVec.eq_of_toNat_eq ?_
  have hlt := clust.isLt
  have hpos : 0 < n := Nat.pos_of_ne_zero fun hzero => by rw [hzero, Nat.zero_mul] at hm; cases hm
  have hdiv : n * clust.toNat / 512 = clust.toNat / m.toNat := by
    rw [← hm, Nat.mul_div_mul_left _ _ hpos]
  have hle : clust.toNat / m.toNat ≤ clust.toNat := Nat.div_le_self ..
  rw [BitVec.toNat_udiv, BitVec.toNat_ofNat, hdiv, Nat.mod_eq_of_lt (by omega)]

end FatLayout

/-! ### `get_cluster` -/

namespace WinVolume

section Table

variable {v : WinVolume} {L : U32 → ByteMap} {clust c val : U32}

/-- The bytes of an entry are in the FAT. -/
theorem at12_lt (hfits : v.Fits) (htype : v.fsType = .fat12) (hlt : clust < v.maxClust) :
    clust.toNat < 0xFF7 ∧ at12 clust.toNat + 1 < v.sectsFat.toNat * 512 := by
  obtain ⟨hmax, hroom⟩ := hfits.fat12 htype
  have hclust := BitVec.lt_def.mp hlt
  unfold at12
  omega

@[inherit_doc at12_lt]
theorem at16_lt (hfits : v.Fits) (htype : v.fsType = .fat16) (hlt : clust < v.maxClust) :
    clust.toNat < 0xFFF7 ∧ 2 * clust.toNat + 1 < v.sectsFat.toNat * 512 := by
  obtain ⟨hmax, hroom⟩ := hfits.fat16 htype
  have hclust := BitVec.lt_def.mp hlt
  omega

@[inherit_doc at12_lt]
theorem at32_lt (hfits : v.Fits) (htype : v.fsType = .fat32) (hlt : clust < v.maxClust) :
    4 * clust.toNat + 3 < v.sectsFat.toNat * 512 := by
  have hroom := hfits.fat32 htype
  have hclust := BitVec.lt_def.mp hlt
  omega

/-- A byte of the FAT comes into the window. -/
theorem moveWindow_fat (h : v.Shows L) {i : Nat} (hi : i < v.sectsFat.toNat * 512) :
    Keeps v (v.moveWindow (v.sectOf i)).2 L ∧
      ((v.moveWindow (v.sectOf i)).1 = true → (v.moveWindow (v.sectOf i)).2.winsect = v.sectOf i ∧
        (v.moveWindow (v.sectOf i)).2.win = L (v.sectOf i)) ∧
      (v.Works → (v.moveWindow (v.sectOf i)).1 = true) :=
  moveWindow_shows h (Or.inl (h.placed.inFat_sectOf hi))

/-- What `get_cluster` may return. -/
def Reads (v : WinVolume) (L : U32 → ByteMap) (clust : U32) (r : U32 × WinVolume) : Prop :=
  Keeps v r.2 L ∧ (r.1 = 1 ∨ r.1 = v.entryOf L clust) ∧ (v.Works → r.1 = v.entryOf L clust)

/-- A transfer has failed. -/
theorem Reads.failed {w : WinVolume} (hkeeps : Keeps v w L) (hdone : v.Works → false = true) : Reads v L clust (1, w) :=
  ⟨hkeeps, Or.inl rfl, fun hworks => by cases hdone hworks⟩

theorem getCluster_fat12 (h : v.Shows L) (hfits : v.Fits) (htype : v.fsType = .fat12) (hrange : 2 ≤ clust)
    (hlt : clust < v.maxClust) : Reads v L clust (v.getCluster clust) := by
  obtain ⟨hsmall, hroom⟩ := at12_lt hfits htype hlt
  have hbc := FatLayout.bc12_toNat hsmall
  have hbc' : (bc12 clust + 1).toNat = at12 clust.toNat + 1 := by
    rw [BitVec.toNat_add, hbc]
    unfold at12
    exact Nat.mod_eq_of_lt (by show clust.toNat * 3 / 2 + 1 < 65536; omega)
  obtain ⟨hkeeps, hwin, hdone⟩ := moveWindow_fat h (i := at12 clust.toNat) (by omega)
  unfold getCluster
  rw [if_pos ⟨hrange, hlt⟩, htype]
  dsimp only
  rw [FatLayout.sect12_eq v rfl hbc]
  generalize v.moveWindow (v.sectOf (at12 clust.toNat)) = r at hkeeps hwin hdone
  obtain ⟨ok, w⟩ := r
  cases ok with
  | false => exact .failed hkeeps hdone
  | true =>
      obtain ⟨-, hwin⟩ := hwin rfl
      dsimp only at hkeeps hwin ⊢
      rw [FatLayout.sect12_eq v hkeeps.next.layout hbc']
      obtain ⟨hkeeps', hwin', hdone'⟩ := moveWindow_fat hkeeps.shows (i := at12 clust.toNat + 1)
        (by rw [hkeeps.next.layout]; exact hroom)
      rw [hkeeps.next.layout] at hkeeps' hwin' hdone'
      generalize w.moveWindow (v.sectOf (at12 clust.toNat + 1)) = r at hkeeps' hwin' hdone'
      obtain ⟨ok, u⟩ := r
      cases ok with
      | false => exact .failed (hkeeps.trans hkeeps') fun hworks => hdone' (hkeeps.next.works hworks)
      | true =>
          obtain ⟨-, hwin'⟩ := hwin' rfl
          dsimp only at hwin' ⊢
          -- The two bytes are those of the entry.
          have hword : u.win ((bc12 clust + 1).toNat % 512) ++ w.win ((bc12 clust).toNat % 512) =
              ld16 (v.fatBytes L) (at12 clust.toNat) := by
            rw [hbc, hbc', hwin, hwin']
            rfl
          have hentry : (if clust.toNat % 2 = 1 then ld16 (v.fatBytes L) (at12 clust.toNat) >>> 4
              else ld16 (v.fatBytes L) (at12 clust.toNat) &&& 0xFFF).setWidth 32 = v.entryOf L clust := by
            unfold FatLayout.entryOf
            rw [htype]
            rfl
          rw [hword, hentry]
          exact ⟨hkeeps.trans hkeeps', Or.inr rfl, fun _ => rfl⟩

theorem getCluster_fat16 (h : v.Shows L) (hfits : v.Fits) (htype : v.fsType = .fat16) (hrange : 2 ≤ clust)
    (hlt : clust < v.maxClust) : Reads v L clust (v.getCluster clust) := by
  obtain ⟨hsmall, hroom⟩ := at16_lt hfits htype hlt
  obtain ⟨hkeeps, hwin, hdone⟩ := moveWindow_fat h (i := 2 * clust.toNat) (by omega)
  have hsect : v.fatbase + clust / (SECTOR_SIZE / 2) = v.sectOf (2 * clust.toNat) :=
    FatLayout.sectOf_mul _ _ (by decide)
  unfold getCluster
  rw [if_pos ⟨hrange, hlt⟩, htype]
  dsimp only
  rw [hsect]
  generalize v.moveWindow (v.sectOf (2 * clust.toNat)) = r at hkeeps hwin hdone
  obtain ⟨ok, w⟩ := r
  cases ok with
  | false => exact .failed hkeeps hdone
  | true =>
      obtain ⟨-, hwin⟩ := hwin rfl
      have hentry : (ld16 w.win (clust.toNat % 65536 * 2 % 512)).setWidth 32 = v.entryOf L clust := by
        unfold FatLayout.entryOf
        rw [htype]
        dsimp only at hwin ⊢
        rw [FatLayout.ld16_fatBytes L (by omega), hwin, show clust.toNat % 65536 * 2 % 512 = 2 * clust.toNat % 512 by omega]
      exact ⟨hkeeps, Or.inr hentry, fun _ => hentry⟩

theorem getCluster_fat32 (h : v.Shows L) (hfits : v.Fits) (htype : v.fsType = .fat32) (hrange : 2 ≤ clust)
    (hlt : clust < v.maxClust) : Reads v L clust (v.getCluster clust) := by
  have hroom := at32_lt hfits htype hlt
  obtain ⟨hkeeps, hwin, hdone⟩ := moveWindow_fat h (i := 4 * clust.toNat) (by omega)
  have hsect : v.fatbase + clust / (SECTOR_SIZE / 4) = v.sectOf (4 * clust.toNat) :=
    FatLayout.sectOf_mul _ _ (by decide)
  unfold getCluster
  rw [if_pos ⟨hrange, hlt⟩, htype]
  dsimp only
  rw [hsect]
  generalize v.moveWindow (v.sectOf (4 * clust.toNat)) = r at hkeeps hwin hdone
  obtain ⟨ok, w⟩ := r
  cases ok with
  | false => exact .failed hkeeps hdone
  | true =>
      obtain ⟨-, hwin⟩ := hwin rfl
      have hentry : ld32 w.win (clust.toNat % 65536 * 4 % 512) &&& 0x0FFFFFFF#32 = v.entryOf L clust := by
        unfold FatLayout.entryOf
        rw [htype]
        dsimp only at hwin ⊢
        rw [FatLayout.ld32_fatBytes L (by omega), hwin, show clust.toNat % 65536 * 4 % 512 = 4 * clust.toNat % 512 by omega]
      exact ⟨hkeeps, Or.inr hentry, fun _ => hentry⟩

/-- `get_cluster` returns the entry, or `1` after an error. -/
theorem getCluster_spec (h : v.Shows L) (hfits : v.Fits) (hrange : 2 ≤ clust) (hlt : clust < v.maxClust) :
    Reads v L clust (v.getCluster clust) := by
  cases htype : v.fsType with
  | fat12 => exact getCluster_fat12 h hfits htype hrange hlt
  | fat16 => exact getCluster_fat16 h hfits htype hrange hlt
  | fat32 => exact getCluster_fat32 h hfits htype hrange hlt

/-! ### `put_cluster` -/

/-- The window is changed. -/
theorem Keeps.store {w : WinVolume} {s : U32} (h : Keeps v w L) (hsect : w.winsect = s) (hne : s ≠ 0) (win : ByteMap) :
    Keeps v { w with win := win, winflag := true } (Function.update L s win) := by
  subst hsect
  refine ⟨h.next.trans ⟨rfl, rfl, le_rfl⟩, h.shows.store hne win, ?_⟩
  intro hworks hm s hs hclean
  exact h.mirrored hworks hm s hs fun heq => by cases hclean heq

/-- What `put_cluster` may do: when it fails, an entry that lies in two sectors may be half written. -/
structure Puts (v : WinVolume) (L : U32 → ByteMap) (clust val : U32) (r : Bool × WinVolume) (L' : U32 → ByteMap) :
    Prop where
  keeps : Keeps v r.2 L'
  frame : ∀ s, ¬ v.InFat s → L' s = L s
  others : ∀ c < v.maxClust, c ≠ clust → v.entryOf L' c = v.entryOf L c
  entry : r.1 = true → v.entryOf L' clust = val &&& v.entryMask
  failed : r.1 = false → v.fsType ≠ .fat12 → L' = L
  done : v.Works → r.1 = true

/-- The window has not come. -/
theorem Puts.refused {w : WinVolume} (hkeeps : Keeps v w L) (hdone : v.Works → false = true) :
    Puts v L clust val (false, w) L :=
  ⟨hkeeps, fun _ _ => rfl, fun _ _ _ => rfl, nofun, fun _ _ => rfl, hdone⟩

/-- Only a sector of the FAT is changed. -/
theorem frame_update (h : v.Placed) {i : Nat} (hi : i < v.sectsFat.toNat * 512) (win : ByteMap) {s : U32}
    (hs : ¬ v.InFat s) : Function.update L (v.sectOf i) win s = L s := by
  refine Function.update_of_ne ?_ ..
  rintro rfl
  exact hs (h.inFat_sectOf hi)

theorem sectOf_ne_zero (h : v.Placed) {i : Nat} (hi : i < v.sectsFat.toNat * 512) : v.sectOf i ≠ 0 :=
  h.primary_ne_zero (Or.inl (h.inFat_sectOf hi))

/-- The low bits of a word. -/
theorem setWidth_setWidth_and (val : U32) : (val.setWidth 16).setWidth 32 = val &&& 0xFFFF#32 := by
  refine BitVec.eq_of_toNat_eq ?_
  rw [BitVec.toNat_setWidth, BitVec.toNat_setWidth, BitVec.toNat_and,
    show (0xFFFF#32).toNat = 2 ^ 16 - 1 by rfl, Nat.and_two_pow_sub_one_eq_mod]
  omega

@[inherit_doc setWidth_setWidth_and]
theorem setWidth_and_and (val : U32) : (val.setWidth 16 &&& 0xFFF#16).setWidth 32 = val &&& 0xFFF#32 := by
  refine BitVec.eq_of_toNat_eq ?_
  rw [BitVec.toNat_setWidth, BitVec.toNat_and, BitVec.toNat_and, BitVec.toNat_setWidth,
    show (0xFFF#16).toNat = 2 ^ 12 - 1 by rfl, show (0xFFF#32).toNat = 2 ^ 12 - 1 by rfl,
    Nat.and_two_pow_sub_one_eq_mod, Nat.and_two_pow_sub_one_eq_mod]
  omega

theorem putCluster_fat16 (h : v.Shows L) (hfits : v.Fits) (htype : v.fsType = .fat16) (hlt : clust < v.maxClust) :
    ∃ L', Puts v L clust val (v.putCluster clust val) L' := by
  obtain ⟨hsmall, hroom⟩ := at16_lt hfits htype hlt
  obtain ⟨hkeeps, hwin, hdone⟩ := moveWindow_fat h (i := 2 * clust.toNat) (by omega)
  have hsect : v.fatbase + clust / (SECTOR_SIZE / 2) = v.sectOf (2 * clust.toNat) :=
    FatLayout.sectOf_mul _ _ (by decide)
  have hoff : clust.toNat % 65536 * 2 % 512 = 2 * clust.toNat % 512 := by omega
  unfold putCluster
  rw [htype]
  dsimp only
  rw [hsect, hoff]
  generalize v.moveWindow (v.sectOf (2 * clust.toNat)) = r at hkeeps hwin hdone
  obtain ⟨ok, w⟩ := r
  cases ok with
  | false => exact ⟨L, .refused hkeeps hdone⟩
  | true =>
      obtain ⟨hplace, hwin⟩ := hwin rfl
      dsimp only at hkeeps hplace hwin ⊢
      rw [hwin]
      refine ⟨_, hkeeps.store hplace (sectOf_ne_zero h.placed (by omega)) _,
        fun s hs => frame_update h.placed (by omega) _ hs, ?_, ?_, nofun, fun _ => rfl⟩
      · intro c hc hother
        obtain ⟨-, hroom'⟩ := at16_lt hfits htype hc
        have hne : c.toNat ≠ clust.toNat := fun heq => hother (BitVec.eq_of_toNat_eq heq)
        unfold FatLayout.entryOf
        rw [htype]
        dsimp only
        rw [ld16_congr]
        · exact h.placed.fatBytes_apart (by omega) (fun o ho => st16_apart _ ho) (by omega) (by omega)
        · exact h.placed.fatBytes_apart (by omega) (fun o ho => st16_apart _ ho) (by omega) (by omega)
      · intro _
        unfold FatLayout.entryOf FatLayout.entryMask
        rw [htype]
        dsimp only
        rw [FatLayout.ld16_fatBytes _ (by omega), Function.update_self, ld16_st16]
        exact setWidth_setWidth_and val

theorem putCluster_fat32 (h : v.Shows L) (hfits : v.Fits) (htype : v.fsType = .fat32) (hlt : clust < v.maxClust) :
    ∃ L', Puts v L clust val (v.putCluster clust val) L' := by
  have hroom := at32_lt hfits htype hlt
  obtain ⟨hkeeps, hwin, hdone⟩ := moveWindow_fat h (i := 4 * clust.toNat) (by omega)
  have hsect : v.fatbase + clust / (SECTOR_SIZE / 4) = v.sectOf (4 * clust.toNat) :=
    FatLayout.sectOf_mul _ _ (by decide)
  have hoff : clust.toNat % 65536 * 4 % 512 = 4 * clust.toNat % 512 := by omega
  unfold putCluster
  rw [htype]
  dsimp only
  rw [hsect, hoff]
  generalize v.moveWindow (v.sectOf (4 * clust.toNat)) = r at hkeeps hwin hdone
  obtain ⟨ok, w⟩ := r
  cases ok with
  | false => exact ⟨L, .refused hkeeps hdone⟩
  | true =>
      obtain ⟨hplace, hwin⟩ := hwin rfl
      dsimp only at hkeeps hplace hwin ⊢
      rw [hwin]
      refine ⟨_, hkeeps.store hplace (sectOf_ne_zero h.placed (by omega)) _,
        fun s hs => frame_update h.placed (by omega) _ hs, ?_, ?_, nofun, fun _ => rfl⟩
      · intro c hc hother
        have hroom' := at32_lt hfits htype hc
        have hne : c.toNat ≠ clust.toNat := fun heq => hother (BitVec.eq_of_toNat_eq heq)
        unfold FatLayout.entryOf
        rw [htype]
        dsimp only
        rw [ld32_congr]
        intro k hk
        exact h.placed.fatBytes_apart (by omega) (fun o ho => st32_apart _ ho) (by omega) (by omega)
      · intro _
        unfold FatLayout.entryOf FatLayout.entryMask
        rw [htype]
        dsimp only
        rw [FatLayout.ld32_fatBytes _ (by omega), Function.update_self, ld32_st32]

/-- The entries are in the sectors of the FAT. -/
theorem entryOf_congr {L' : U32 → ByteMap} (h : v.Placed) (hfits : v.Fits) (hc : c < v.maxClust)
    (hsame : ∀ s, v.InFat s → L' s = L s) : v.entryOf L' c = v.entryOf L c := by
  have hbyte : ∀ j < v.sectsFat.toNat * 512, v.fatBytes L' j = v.fatBytes L j := by
    intro j hj
    exact congrFun (hsame _ (h.inFat_sectOf hj)) _
  unfold FatLayout.entryOf
  cases htype : v.fsType with
  | fat12 =>
      obtain ⟨-, hroom⟩ := at12_lt hfits htype hc
      dsimp only
      rw [ld12_congr (hbyte _ (by omega)) (hbyte _ hroom)]
  | fat16 =>
      obtain ⟨-, hroom⟩ := at16_lt hfits htype hc
      dsimp only
      rw [ld16_congr (hbyte _ (by omega)) (hbyte _ hroom)]
  | fat32 =>
      have hroom := at32_lt hfits htype hc
      dsimp only
      rw [ld32_congr fun k hk => hbyte _ (by omega)]

/-- The bytes of the FAT after the first half of a store. -/
theorem fatBytes_low (clust val : U32) (h : v.Placed) {i j : Nat} (hi : at12 clust.toNat = i)
    (hroom : i < v.sectsFat.toNat * 512)
    (hj : j < v.sectsFat.toNat * 512) :
    v.fatBytes (Function.update L (v.sectOf i) (Function.update (L (v.sectOf i)) (i % 512)
      (low12 clust.toNat (L (v.sectOf i) (i % 512)) val))) j = st12lo (v.fatBytes L) clust.toNat val j := by
  subst hi
  exact h.fatBytes_byte hroom hj _

/-- The bytes of the FAT after the second half of a store. -/
theorem fatBytes_high (clust val : U32) (h : v.Placed) {i j : Nat} (hi : at12 clust.toNat + 1 = i)
    (hroom : i < v.sectsFat.toNat * 512)
    (hj : j < v.sectsFat.toNat * 512) :
    v.fatBytes (Function.update L (v.sectOf i) (Function.update (L (v.sectOf i)) (i % 512)
      (high12 clust.toNat (L (v.sectOf i) (i % 512)) val))) j = st12hi (v.fatBytes L) clust.toNat val j := by
  subst hi
  exact h.fatBytes_byte hroom hj _

/-- An entry of a FAT12 volume, by its field. -/
theorem entryOf_fat12 (htype : v.fsType = .fat12) (L : U32 → ByteMap) (c : U32) :
    v.entryOf L c = (ld12 (v.fatBytes L) c.toNat).setWidth 32 := by
  unfold FatLayout.entryOf
  rw [htype]

theorem putCluster_fat12 (h : v.Shows L) (hfits : v.Fits) (htype : v.fsType = .fat12) (hlt : clust < v.maxClust) :
    ∃ L', Puts v L clust val (v.putCluster clust val) L' := by
  obtain ⟨hsmall, hroom⟩ := at12_lt hfits htype hlt
  have hbc := FatLayout.bc12_toNat hsmall
  have hbc' : (bc12 clust + 1).toNat = at12 clust.toNat + 1 := by
    rw [BitVec.toNat_add, hbc]
    unfold at12
    exact Nat.mod_eq_of_lt (by show clust.toNat * 3 / 2 + 1 < 65536; omega)
  have hne : ∀ c, c ≠ clust → c.toNat ≠ clust.toNat := fun c hc heq => hc (BitVec.eq_of_toNat_eq heq)
  obtain ⟨hkeeps, hwin, hdone⟩ := moveWindow_fat h (i := at12 clust.toNat) (by omega)
  unfold putCluster
  rw [htype]
  dsimp only
  rw [FatLayout.sect12_eq v rfl hbc]
  generalize v.moveWindow (v.sectOf (at12 clust.toNat)) = r at hkeeps hwin hdone
  obtain ⟨ok, w⟩ := r
  cases ok with
  | false => exact ⟨L, .refused hkeeps hdone⟩
  | true =>
      obtain ⟨hplace, hwin⟩ := hwin rfl
      dsimp only at hkeeps hplace hwin ⊢
      rw [hbc, hwin]
      have hlow := hkeeps.store hplace (sectOf_ne_zero h.placed (by omega))
        (Function.update (L (v.sectOf (at12 clust.toNat))) (at12 clust.toNat % 512)
          (low12 clust.toNat (L (v.sectOf (at12 clust.toNat)) (at12 clust.toNat % 512)) val))
      have hframe := fun s hs => frame_update (L := L) h.placed (i := at12 clust.toNat) (by omega)
        (Function.update (L (v.sectOf (at12 clust.toNat))) (at12 clust.toNat % 512)
          (low12 clust.toNat (L (v.sectOf (at12 clust.toNat)) (at12 clust.toNat % 512)) val)) (s := s) hs
      have hbytes := fun j hj => fatBytes_low (L := L) clust val h.placed rfl (by omega) (j := j) hj
      -- What is shown after the first half.
      generalize Function.update L (v.sectOf (at12 clust.toNat)) (Function.update (L (v.sectOf (at12 clust.toNat)))
        (at12 clust.toNat % 512) (low12 clust.toNat (L (v.sectOf (at12 clust.toNat)) (at12 clust.toNat % 512)) val)) =
        M at hlow hframe hbytes
      have hothers : ∀ c < v.maxClust, c ≠ clust → v.entryOf M c = v.entryOf L c := by
        intro c hc hother
        obtain ⟨-, hroom'⟩ := at12_lt hfits htype hc
        rw [entryOf_fat12 htype, entryOf_fat12 htype,
          ld12_congr (hbytes _ (by omega)) (hbytes _ hroom'), ld12_st12lo_of_ne _ _ (hne c hother)]
      rw [FatLayout.sect12_eq v ?layout hbc']
      case layout => exact hkeeps.next.layout
      generalize ({ w with win := _, winflag := true } : WinVolume) = u at hlow ⊢
      obtain ⟨hkeeps', hwin', hdone'⟩ := moveWindow_fat hlow.shows (i := at12 clust.toNat + 1)
        (by rw [hlow.next.layout]; exact hroom)
      rw [hlow.next.layout] at hkeeps' hwin' hdone'
      generalize u.moveWindow (v.sectOf (at12 clust.toNat + 1)) = r at hkeeps' hwin' hdone'
      obtain ⟨ok, z⟩ := r
      have hz := hlow.trans hkeeps'
      cases ok with
      | false =>
          exact ⟨M, hz, hframe, hothers, nofun, fun _ hneq => absurd htype hneq,
            fun hworks => hdone' (hlow.next.works hworks)⟩
      | true =>
          obtain ⟨hplace', hwin'⟩ := hwin' rfl
          dsimp only at hz hplace' hwin' ⊢
          rw [hbc', hwin']
          have hhigh := fun j hj => fatBytes_high (L := M) clust val h.placed rfl hroom (j := j) hj
          refine ⟨_, hz.store hplace' (sectOf_ne_zero h.placed hroom) _,
            fun s hs => (frame_update h.placed hroom _ hs).trans (hframe s hs), ?_, ?_, nofun, fun _ => rfl⟩
          · intro c hc hother
            obtain ⟨-, hroom'⟩ := at12_lt hfits htype hc
            rw [← hothers c hc hother, entryOf_fat12 htype, entryOf_fat12 htype,
              ld12_congr (hhigh _ (by omega)) (hhigh _ hroom'), ld12_st12hi_of_ne _ _ (hne c hother)]
          · intro _
            have hstored : ld12 (st12hi (v.fatBytes M) clust.toNat val) clust.toNat =
                ld12 (st12hi (st12lo (v.fatBytes L) clust.toNat val) clust.toNat val) clust.toNat := by
              refine ld12_congr ?_ ?_
              · unfold st12hi
                rw [Function.update_of_ne (by omega), Function.update_of_ne (by omega)]
                exact hbytes _ (by omega)
              · unfold st12hi
                rw [Function.update_self, Function.update_self, hbytes _ hroom]
            rw [entryOf_fat12 htype, ld12_congr (hhigh _ (by omega)) (hhigh _ hroom), hstored, ld12_st12]
            unfold FatLayout.entryMask
            rw [htype]
            exact setWidth_and_and val

/-- `put_cluster` writes the entry, and no other one. -/
theorem putCluster_spec (h : v.Shows L) (hfits : v.Fits) (hlt : clust < v.maxClust) (val : U32) :
    ∃ L', Puts v L clust val (v.putCluster clust val) L' := by
  cases htype : v.fsType with
  | fat12 => exact putCluster_fat12 h hfits htype hlt
  | fat16 => exact putCluster_fat16 h hfits htype hlt
  | fat32 => exact putCluster_fat32 h hfits htype hlt

/-! ### Runs -/

/-- An access to the volume. -/
inductive VolOp
  /-- `get_cluster(fs, clust)`. -/
  | get (clust : U32)
  /-- `put_cluster(fs, clust, val)`. -/
  | put (clust val : U32)
  /-- `move_window(fs, sect)`, a change of `fs->win`, and `fs->winflag = 1`. -/
  | edit (sect : U32) (change : ByteMap → ByteMap)
  /-- `sync(fs)`. -/
  | sync

/-- What an access returns. -/
inductive Answer
  | link (val : U32)
  | done
  | failed
deriving DecidableEq, Repr

/-- `TRUE` and `FALSE`. -/
def Answer.ofBool (ok : Bool) : Answer := if ok then .done else .failed

/-- A directory, or another sector behind the FATs, is changed. -/
def edit (v : WinVolume) (sect : U32) (change : ByteMap → ByteMap) : Bool × WinVolume :=
  match v.moveWindow sect with
  | (false, v) => (false, v)
  | (true, v) => (true, { v with win := change v.win, winflag := true })

/-- One access. -/
def VolOp.exec (v : WinVolume) : VolOp → Answer × WinVolume
  | .get clust => (.link (v.getCluster clust).1, (v.getCluster clust).2)
  | .put clust val => (.ofBool (v.putCluster clust val).1, (v.putCluster clust val).2)
  | .edit sect change => (.ofBool (v.edit sect change).1, (v.edit sect change).2)
  | .sync => (.ofBool (v.sync.1 = 0), v.sync.2)

/-- A sector behind the FATs. -/
def Behind (v : WinVolume) (s : U32) : Prop := v.fatbase.toNat + v.nFats.toNat * v.sectsFat.toNat ≤ s.toNat

/-- What the callers see to: only clusters are written to, only sectors behind the FATs are changed directly, and `sync`
is called with a sector in the window. -/
def Allowed (v : WinVolume) : VolOp → Prop
  | .get _ => True
  | .put clust _ => clust < v.maxClust
  | .edit sect _ => v.Behind sect
  | .sync => v.winsect ≠ 0

/-- The volume as its users see it. -/
structure Contents where
  fat : U32 → U32
  sect : U32 → ByteMap

/-- What one access may do to the contents, when it `mayFail`.  A `put_cluster` that fails may leave its own entry half
written, if this has 12 bits. -/
def Contents.Step (l : FatLayout) (mayFail : Prop) (t : Contents) : VolOp → Answer → Contents → Prop
  | .get clust, .link val, t' =>
      (val = (if 2 ≤ clust ∧ clust < l.maxClust then t.fat clust else 1) ∨ mayFail ∧ val = 1) ∧ t' = t
  | .put clust val, .done, t' => t' = { t with fat := Function.update t.fat clust (val &&& l.entryMask) }
  | .put clust _, .failed, t' => mayFail ∧ (∃ val, t' = { t with fat := Function.update t.fat clust val }) ∧
      (l.fsType ≠ .fat12 → t' = t)
  | .edit sect change, .done, t' => t' = { t with sect := Function.update t.sect sect (change (t.sect sect)) }
  | .edit _ _, .failed, t' => mayFail ∧ t' = t
  | .sync, .done, t' => t' = t
  | .sync, .failed, t' => mayFail ∧ t' = t
  | _, _, _ => False

/-- What a sequence of accesses may do. -/
inductive Contents.Run (l : FatLayout) (mayFail : Prop) : Contents → List (VolOp × Answer) → Contents → Prop
  | nil (t : Contents) : Run l mayFail t [] t
  | cons {t t' t'' : Contents} {op : VolOp} {a : Answer} {ops : List (VolOp × Answer)} :
      t.Step l mayFail op a t' → Run l mayFail t' ops t'' → Run l mayFail t ((op, a) :: ops) t''

theorem Contents.Step.mono {l : FatLayout} {p q : Prop} {t t' : Contents} {op : VolOp} {a : Answer}
    (h : t.Step l p op a t') (hpq : p → q) : t.Step l q op a t' := by
  cases op with
  | get clust =>
      cases a with
      | link val => exact ⟨h.1.imp_right (And.imp_left hpq), h.2⟩
      | done => exact h
      | failed => exact h
  | put clust val =>
      cases a with
      | link val => exact h
      | done => exact h
      | failed => exact ⟨hpq h.1, h.2⟩
  | edit sect change =>
      cases a with
      | link val => exact h
      | done => exact h
      | failed => exact ⟨hpq h.1, h.2⟩
  | sync =>
      cases a with
      | link val => exact h
      | done => exact h
      | failed => exact ⟨hpq h.1, h.2⟩

theorem Contents.Run.mono {l : FatLayout} {p q : Prop} {t t' : Contents} {ops : List (VolOp × Answer)}
    (h : t.Run l p ops t') (hpq : p → q) : t.Run l q ops t' := by
  induction h with
  | nil t => exact .nil t
  | cons hstep _ ih => exact .cons (hstep.mono hpq) ih

/-- A sequence of accesses, with what they return. -/
inductive Runs : WinVolume → List (VolOp × Answer) → WinVolume → Prop
  | nil (v : WinVolume) : Runs v [] v
  | cons {v w : WinVolume} {op : VolOp} {ops : List (VolOp × Answer)} :
      v.Allowed op → Runs (op.exec v).2 ops w → Runs v ((op, (op.exec v).1) :: ops) w

/-- The sectors `L` are the contents `t`. -/
structure Holds (l : FatLayout) (L : U32 → ByteMap) (t : Contents) : Prop where
  fat : ∀ c < l.maxClust, l.entryOf L c = t.fat c
  sect : ∀ s, l.fatbase.toNat + l.nFats.toNat * l.sectsFat.toNat ≤ s.toNat → L s = t.sect s

/-- The volume has the contents `t`. -/
structure Has (v : WinVolume) (t : Contents) : Prop where
  fits : v.Fits
  shown : ∃ L, v.Shows L ∧ Holds v.toFatLayout L t

section Runs

variable {t t' : Contents}

theorem Has.congr {w : WinVolume} {L' : U32 → ByteMap} (h : v.Has t) (hkeeps : Keeps v w L')
    (hholds : Holds v.toFatLayout L' t') : w.Has t' := by
  refine ⟨?_, L', hkeeps.shows, ?_⟩
  · rw [hkeeps.next.layout]
    exact h.fits
  · rw [hkeeps.next.layout]
    exact hholds

/-- What an access does to the volume, beside its answer and the contents. -/
structure Stepped (v w : WinVolume) (t' : Contents) : Prop where
  has : w.Has t'
  next : Next v w
  mirrored : v.Works → v.Mirrored → w.Mirrored

theorem Has.stepped {w : WinVolume} {L' : U32 → ByteMap} (h : v.Has t) (hkeeps : Keeps v w L')
    (hholds : Holds v.toFatLayout L' t') : Stepped v w t' :=
  ⟨h.congr hkeeps hholds, hkeeps.next, hkeeps.mirrored⟩

theorem get_refines (h : v.Has t) (clust : U32) : ∃ t', t.Step v.toFatLayout (¬ v.Works) (.get clust)
    (VolOp.exec v (.get clust)).1 t' ∧ Stepped v (VolOp.exec v (.get clust)).2 t' := by
  obtain ⟨L, hshows, hholds⟩ := h.shown
  refine ⟨t, ?_⟩
  by_cases hrange : 2 ≤ clust ∧ clust < v.maxClust
  · obtain ⟨hkeeps, hval, hexact⟩ := getCluster_spec hshows h.fits hrange.1 hrange.2
    rw [hholds.fat clust hrange.2] at hval hexact
    refine ⟨⟨?_, rfl⟩, h.stepped hkeeps hholds⟩
    rw [if_pos hrange]
    by_cases hworks : v.Works
    · exact Or.inl (hexact hworks)
    · exact hval.elim (fun hone => Or.inr ⟨hworks, hone⟩) Or.inl
  · have hcall : VolOp.exec v (.get clust) = (.link 1, v) := by
      have hget : v.getCluster clust = (1, v) := if_neg hrange
      show (Answer.link (v.getCluster clust).1, (v.getCluster clust).2) = _
      rw [hget]
    rw [hcall]
    refine ⟨⟨Or.inl ?_, rfl⟩, h.stepped (.refl hshows) hholds⟩
    rw [if_neg hrange]

theorem put_refines (h : v.Has t) {clust : U32} (hlt : clust < v.maxClust) (val : U32) :
    ∃ t', t.Step v.toFatLayout (¬ v.Works) (.put clust val) (VolOp.exec v (.put clust val)).1 t' ∧
      Stepped v (VolOp.exec v (.put clust val)).2 t' := by
  obtain ⟨L, hshows, hholds⟩ := h.shown
  obtain ⟨L', hputs⟩ := putCluster_spec hshows h.fits hlt val
  -- The contents with the entry that there is now.
  have hnew : ∀ x, v.entryOf L' clust = x → Holds v.toFatLayout L' { t with fat := Function.update t.fat clust x } := by
    intro x hx
    refine ⟨?_, ?_⟩
    · intro c hc
      by_cases hsame : c = clust
      · subst hsame
        show v.entryOf L' c = Function.update t.fat c x c
        rw [hx, Function.update_self]
      · rw [hputs.others c hc hsame, hholds.fat c hc]
        exact (Function.update_of_ne hsame ..).symm
    · intro s hs
      rw [hputs.frame s (fun hin => ?_), hholds.sect s hs]
      have hone : v.sectsFat.toNat ≤ v.nFats.toNat * v.sectsFat.toNat :=
        Nat.le_mul_of_pos_left _ hshows.placed.copies
      have hbefore := hin.2
      omega
  show ∃ t', t.Step _ _ _ (.ofBool (v.putCluster clust val).1) t' ∧ Stepped v (v.putCluster clust val).2 t'
  generalize v.putCluster clust val = r at hputs
  obtain ⟨ok, w⟩ := r
  cases ok with
  | true => exact ⟨_, rfl, h.stepped hputs.keeps (hnew _ (hputs.entry rfl))⟩
  | false =>
      refine ⟨_, ⟨?_, ⟨_, rfl⟩, ?_⟩, h.stepped hputs.keeps (hnew _ rfl)⟩
      · exact fun hworks => by cases hputs.done hworks
      · intro htype
        rw [hputs.failed rfl htype, hholds.fat clust hlt, Function.update_eq_self]

theorem edit_refines (h : v.Has t) {sect : U32} (hbehind : v.Behind sect) (change : ByteMap → ByteMap) :
    ∃ t', t.Step v.toFatLayout (¬ v.Works) (.edit sect change) (VolOp.exec v (.edit sect change)).1 t' ∧
      Stepped v (VolOp.exec v (.edit sect change)).2 t' := by
  obtain ⟨L, hshows, hholds⟩ := h.shown
  obtain ⟨hkeeps, hwin, hdone⟩ := moveWindow_shows hshows (Or.inr hbehind)
  show ∃ t', t.Step _ _ _ (.ofBool (v.edit sect change).1) t' ∧ Stepped v (v.edit sect change).2 t'
  unfold edit
  generalize v.moveWindow sect = r at hkeeps hwin hdone
  obtain ⟨ok, w⟩ := r
  cases ok with
  | false =>
      exact ⟨t, ⟨fun hworks => Bool.noConfusion (hdone hworks), rfl⟩, h.stepped hkeeps hholds⟩
  | true =>
      obtain ⟨hplace, hwin⟩ := hwin rfl
      dsimp only at hplace hwin
      refine ⟨_, rfl, h.stepped (hkeeps.store hplace (hshows.placed.primary_ne_zero (Or.inr hbehind)) _) ⟨?_, ?_⟩⟩
      · intro c hc
        have hone : v.sectsFat.toNat ≤ v.nFats.toNat * v.sectsFat.toNat :=
          Nat.le_mul_of_pos_left _ hshows.placed.copies
        refine (entryOf_congr hshows.placed h.fits hc ?_).trans (hholds.fat c hc)
        intro s hs
        refine Function.update_of_ne ?_ ..
        rintro rfl
        have hbefore := hs.2
        unfold Behind at hbehind
        omega
      · intro s hs
        by_cases hsame : s = sect
        · subst hsame
          show _ = Function.update t.sect s (change (t.sect s)) s
          rw [Function.update_self, Function.update_self, hwin, hholds.sect s hs]
        · show _ = Function.update t.sect sect (change (t.sect sect)) s
          rw [Function.update_of_ne hsame, Function.update_of_ne hsame, hholds.sect s hs]

theorem sync_refines (h : v.Has t) (hne : v.winsect ≠ 0) : ∃ t', t.Step v.toFatLayout (¬ v.Works) .sync
    (VolOp.exec v .sync).1 t' ∧ Stepped v (VolOp.exec v .sync).2 t' := by
  obtain ⟨L, hshows, hholds⟩ := h.shown
  obtain ⟨hkeeps, -, hdone⟩ := sync_shows hshows hne
  refine ⟨t, ?_, h.stepped hkeeps hholds⟩
  show t.Step _ _ _ (.ofBool (v.sync.1 = 0)) t
  by_cases hzero : v.sync.1 = 0
  · rw [decide_eq_true hzero]
    rfl
  · rw [decide_eq_false hzero]
    exact ⟨fun hworks => hzero (hdone hworks), rfl⟩

/-- One access. -/
theorem step_refines (h : v.Has t) {op : VolOp} (hop : v.Allowed op) :
    ∃ t', t.Step v.toFatLayout (¬ v.Works) op (op.exec v).1 t' ∧ Stepped v (op.exec v).2 t' := by
  cases op with
  | get clust => exact get_refines h clust
  | put clust val => exact put_refines h hop val
  | edit sect change => exact edit_refines h hop change
  | sync => exact sync_refines h hop

/-- A sequence of accesses. -/
theorem runs_stepped {v w : WinVolume} {ops : List (VolOp × Answer)} (h : v.Has t) (hruns : Runs v ops w) :
    ∃ t', t.Run v.toFatLayout (¬ v.Works) ops t' ∧ Stepped v w t' := by
  induction hruns generalizing t with
  | nil v => exact ⟨t, .nil t, h, .refl v, fun _ hm => hm⟩
  | @cons v w op ops hop _ ih =>
      obtain ⟨t₁, hstep, hstepped⟩ := step_refines h hop
      obtain ⟨t₂, hrun, hrest⟩ := ih hstepped.has
      refine ⟨t₂, .cons hstep ?_, hrest.has, hstepped.next.trans hrest.next, ?_⟩
      · -- A drive that works goes on to work.
        rw [hstepped.next.layout] at hrun
        exact hrun.mono fun hfails hworks => hfails (hstepped.next.works hworks)
      · intro hworks hm
        exact hrest.mirrored (hstepped.next.works hworks) (hstepped.mirrored hworks hm)

end Runs

/-! ### The results -/

variable {t : Contents} {w : WinVolume} {ops : List (VolOp × Answer)}

/-- An empty window shows the drive. -/
theorem shows_mounted (hplaced : v.Placed) (hsect : v.winsect = 0) (hclean : v.winflag = false) : v.Shows v.main :=
  ⟨hplaced, .empty fun _ => if_pos hsect, fun hne => absurd hsect hne, fun _ => hclean⟩

/-- A volume that has been mounted has what is on the drive. -/
theorem has_mounted (hplaced : v.Placed) (hfits : v.Fits) (hsect : v.winsect = 0) (hclean : v.winflag = false) :
    v.Has ⟨v.entryOf v.disk, v.disk⟩ := by
  refine ⟨hfits, v.main, shows_mounted hplaced hsect hclean, ?_, ?_⟩
  · intro c hc
    exact entryOf_congr hplaced hfits hc fun s hs => if_pos (Or.inl hs)
  · intro s hs
    exact if_pos (Or.inr hs)

/-- Whatever is accessed, and whichever transfers fail, the volume is a table of clusters and a store of the sectors behind
it. -/
theorem run_refines (h : v.Has t) (hruns : Runs v ops w) :
    ∃ t', t.Run v.toFatLayout (¬ v.Works) ops t' ∧ w.Has t' := by
  obtain ⟨t', hrun, hstepped⟩ := runs_stepped h hruns
  exact ⟨t', hrun, hstepped.has⟩

/-- A volume of 10 clusters, with two FATs of 12 bits in the sectors 1 and 2. -/
def smallWin : WinVolume where
  fsType := .fat12
  fatbase := 1
  sectsFat := 1
  nFats := 2
  maxClust := 10
  fsiSector := 0
  lastClust := 0
  freeClust := 0xFFFFFFFF
  fsiFlag := false
  winsect := 0
  winflag := false
  win := fun _ => 0
  disk := fun _ _ => 0
  ok := fun _ => true
  accesses := 0

theorem has_smallWin : smallWin.Has ⟨smallWin.entryOf smallWin.disk, smallWin.disk⟩ :=
  has_mounted ⟨by decide, by decide, by decide, by decide⟩
    ⟨fun _ => by decide, fun h => (by cases h), fun h => (by cases h)⟩ rfl rfl

theorem run_refines_put : ∃ (t' : Contents) (w : WinVolume), Contents.Run smallWin.toFatLayout (¬ smallWin.Works)
    ⟨smallWin.entryOf smallWin.disk, smallWin.disk⟩ [(.put 3 0xABC, .done), (.get 3, .link 0xABC)] t' ∧ w.Has t' := by
  have hruns : Runs smallWin [(.put 3 0xABC, .done), (.get 3, .link 0xABC)] _ :=
    .cons (show (3 : U32) < 10 by decide) (.cons trivial (.nil _))
  obtain ⟨t', hrun, hhas⟩ := run_refines has_smallWin hruns
  exact ⟨t', _, hrun, hhas⟩

/-- An entry of a copy of the FAT. -/
theorem entryOf_copy (hplaced : v.Placed) (hfits : v.Fits) {disk : U32 → ByteMap} {k : Nat} (hc : c < v.maxClust)
    (hsame : ∀ s, v.InFat s → disk (v.copySect s k) = disk s) :
    (v.copy k).entryOf disk c = v.entryOf disk c := by
  -- The sectors of the copy, at the places of the first FAT.
  have hbytes : (v.copy k).fatBytes disk =
      v.fatBytes fun s => disk (v.copySect s k) := by
    funext i
    unfold FatLayout.fatBytes
    rw [FatLayout.copy_sectOf]
  have hentry : (v.copy k).entryOf disk c = v.entryOf (fun s => disk (v.copySect s k)) c := by
    unfold FatLayout.entryOf
    rw [hbytes]
    rfl
  rw [hentry]
  exact entryOf_congr hplaced hfits hc hsame

/-- After `sync` the drive itself has the contents, and all the FATs are the same if it works. -/
theorem sync_durable (h : v.Has t) (hruns : Runs v ops w) (hne : w.winsect ≠ 0) (hsync : w.sync.1 = 0) :
    ∃ t', t.Run v.toFatLayout (¬ v.Works) ops t' ∧ Holds v.toFatLayout w.sync.2.disk t' ∧
      (v.Works → v.Mirrored → ∀ k < v.nFats.toNat, ∀ c < v.maxClust,
        (v.copy k).entryOf w.sync.2.disk c = t'.fat c) := by
  obtain ⟨t', hrun, hhas, hnext, hmirrored⟩ := runs_stepped h hruns
  obtain ⟨L, hshows, hholds⟩ := hhas.shown
  obtain ⟨hkeeps, hclean, -⟩ := sync_shows hshows hne
  have hlayout := hkeeps.next.layout.trans hnext.layout
  have hmain := hkeeps.shows.main_eq (hclean hsync)
  rw [hnext.layout] at hholds
  -- What comes into the window is on the drive.
  have hdisk : ∀ s, v.Primary s → w.sync.2.disk s = L s := by
    intro s hs
    rw [← hmain]
    unfold main
    rw [hlayout, if_pos hs]
  have hplaced : v.Placed := h.shown.elim fun _ hL => hL.1.placed
  have hfirst : ∀ c < v.maxClust, v.entryOf w.sync.2.disk c = t'.fat c := by
    intro c hc
    exact (entryOf_congr hplaced h.fits hc fun s hs => hdisk s (Or.inl hs)).trans (hholds.fat c hc)
  refine ⟨t', hrun, ⟨hfirst, fun s hs => (hdisk s (Or.inr hs)).trans (hholds.sect s hs)⟩, ?_⟩
  intro hworks hm k hk c hc
  have hcopies := hkeeps.mirrored (hnext.works hworks) (hmirrored hworks hm)
  unfold Mirrored at hcopies
  rw [hlayout] at hcopies
  rw [← hfirst c hc]
  refine entryOf_copy hplaced h.fits hc ?_
  intro s hs
  cases k with
  | zero =>
      have hzero : v.copySect s 0 = s := by
        unfold FatLayout.copySect
        rw [BitVec.zero_mul, BitVec.add_zero]
      rw [hzero]
  | succ k => exact hcopies s hs (fun _ => hclean hsync) (k + 1) (by omega) hk

theorem sync_durable_put : ∃ (t' : Contents) (w : WinVolume), Contents.Run smallWin.toFatLayout (¬ smallWin.Works)
    ⟨smallWin.entryOf smallWin.disk, smallWin.disk⟩ [(.put 3 0xABC, .done)] t' ∧
      Holds smallWin.toFatLayout w.sync.2.disk t' ∧ (smallWin.Works → smallWin.Mirrored →
        ∀ k < smallWin.nFats.toNat, ∀ c < smallWin.maxClust,
          (smallWin.copy k).entryOf w.sync.2.disk c = t'.fat c) := by
  have hruns : Runs smallWin [(.put 3 0xABC, .done)] _ :=
    .cons (show (3 : U32) < 10 by decide) (.nil _)
  obtain ⟨t', hresult⟩ := sync_durable has_smallWin hruns (by decide) (by decide)
  exact ⟨t', _, hresult⟩

end Table

end WinVolume

end Fat
end FreakOS
