import FreakOS.Fs.FatWindow

/-!
# The directory entry of a file

What `fatbase_open` reads of a directory entry and `fatbase_sync` stores in it, and how the store gets to the drive.

* `entryFsize`, `entryOrgClust` — the size and the first cluster of a file.
* `storeEntry` — the store.
* `WinVolume.syncEntry` — `fatbase_sync` from the directory entry on.
* `syncEntry_shows` — the entry gets to the drive, and nothing else that the window and the drive show is another.
-/

namespace FreakOS
namespace Fat

open Lib
open Memory
open Fs (FR_RW_ERROR)

/-! ### The source -/

/-- `DIR_Attr` and the other fields of a directory entry. -/
def DIR_Attr : Nat := 11
@[inherit_doc DIR_Attr] def DIR_FstClusHI : Nat := 20
@[inherit_doc DIR_Attr] def DIR_WrtTime : Nat := 22
@[inherit_doc DIR_Attr] def DIR_FstClusLO : Nat := 26
@[inherit_doc DIR_Attr] def DIR_FileSize : Nat := 28

@[inherit_doc AM_RDO] def AM_ARC : U8 := 0x20#8

/-- `get_fattime()`. -/
def getFattime : U32 := 0

/-- `fsize`, as `fatbase_open` reads it from the entry at `dir`. -/
def entryFsize (win : ByteMap) (dir : Nat) : U32 := ld32 win (dir + DIR_FileSize)

/-- `org_clust`, as `fatbase_open` reads it from the entry at `dir`. -/
def entryOrgClust (win : ByteMap) (dir : Nat) : U32 := ld16 win (dir + DIR_FstClusHI) ++ ld16 win (dir + DIR_FstClusLO)

/-- `fatbase_sync` updates the directory entry. -/
def storeEntry (win : ByteMap) (dir : Nat) (fsize orgClust : U32) : ByteMap :=
  let win := Function.update win (dir + DIR_Attr) (win (dir + DIR_Attr) ||| AM_ARC)
  let win := st32 win (dir + DIR_FileSize) fsize
  let win := st16 win (dir + DIR_FstClusLO) (orgClust.setWidth 16)
  let win := st16 win (dir + DIR_FstClusHI) ((orgClust >>> 16).setWidth 16)
  st32 win (dir + DIR_WrtTime) getFattime

/-- `fatbase_sync(fp)` from the directory entry on; `dir_ptr` is a place in the window. -/
def WinVolume.syncEntry (v : WinVolume) (dirSect : U32) (dirPtr : Nat) (fsize orgClust : U32) : Int × WinVolume :=
  match v.moveWindow dirSect with
  | (false, v) => (FR_RW_ERROR, v)
  | (true, v) => { v with win := storeEntry v.win dirPtr fsize orgClust }.sync

/-! ### What is stored -/

section Entry

variable {win win' : ByteMap} {dir dir' i : Nat}

/-- The fields only depend on the 32 bytes of the entry. -/
theorem entryFsize_congr (h : ∀ k < 32, win' (dir + k) = win (dir + k)) : entryFsize win' dir = entryFsize win dir := by
  unfold entryFsize DIR_FileSize
  refine ld32_congr fun k hk => ?_
  rw [Nat.add_assoc]
  exact h (28 + k) (by omega)

@[inherit_doc entryFsize_congr]
theorem entryOrgClust_congr (h : ∀ k < 32, win' (dir + k) = win (dir + k)) :
    entryOrgClust win' dir = entryOrgClust win dir := by
  unfold entryOrgClust DIR_FstClusHI DIR_FstClusLO
  rw [ld16_congr (h 20 (by decide)) (h 21 (by decide)), ld16_congr (h 26 (by decide)) (h 27 (by decide))]

theorem entryFsize_store (win : ByteMap) (dir : Nat) (fsize orgClust : U32) :
    entryFsize (storeEntry win dir fsize orgClust) dir = fsize := by
  unfold entryFsize storeEntry DIR_FileSize DIR_FstClusLO DIR_FstClusHI DIR_WrtTime
  dsimp only
  rw [ld32_st32_apart _ (by omega), ld32_st16_apart _ (by omega), ld32_st16_apart _ (by omega), ld32_st32]

theorem entryOrgClust_store (win : ByteMap) (dir : Nat) (fsize orgClust : U32) :
    entryOrgClust (storeEntry win dir fsize orgClust) dir = orgClust := by
  unfold entryOrgClust storeEntry DIR_FileSize DIR_FstClusLO DIR_FstClusHI DIR_WrtTime
  dsimp only
  rw [ld16_st32_apart _ (by omega), ld16_st16, ld16_st32_apart _ (by omega), ld16_st16_apart _ (by omega), ld16_st16]
  exact halves_append (w := 16) orgClust

/-- The store changes the bytes of its entry only. -/
theorem storeEntry_apart (win : ByteMap) (fsize orgClust : U32) (h : i < dir ∨ dir + 32 ≤ i) :
    storeEntry win dir fsize orgClust i = win i := by
  unfold storeEntry DIR_Attr DIR_FileSize DIR_FstClusLO DIR_FstClusHI DIR_WrtTime
  rw [st32_apart _ (by omega), st16_apart _ (by omega), st16_apart _ (by omega), st32_apart _ (by omega),
    Function.update_of_ne (by omega)]

end Entry

/-! ### The way to the drive -/

namespace WinVolume

variable {v : WinVolume} {L : U32 → ByteMap} {dirSect : U32}

/-- Unless a transfer fails, the entry is on the drive in the end; and then as well as before it, the window and the drive
show nothing else that is new. -/
theorem syncEntry_shows (h : v.Shows L) (hs : v.Primary dirSect) (dirPtr : Nat) (fsize orgClust : U32) :
    ∃ L', (L' = L ∨ L' = Function.update L dirSect (storeEntry (L dirSect) dirPtr fsize orgClust)) ∧
      (v.syncEntry dirSect dirPtr fsize orgClust).2.Shows L' ∧ Next v (v.syncEntry dirSect dirPtr fsize orgClust).2 ∧
        ((v.syncEntry dirSect dirPtr fsize orgClust).1 = 0 →
          L' = Function.update L dirSect (storeEntry (L dirSect) dirPtr fsize orgClust) ∧
            (v.syncEntry dirSect dirPtr fsize orgClust).2.main = L') ∧
          (v.Works → (v.syncEntry dirSect dirPtr fsize orgClust).1 = 0) := by
  obtain ⟨hkeeps, hload, hdone⟩ := moveWindow_shows h hs
  unfold syncEntry
  generalize v.moveWindow dirSect = r at hkeeps hload hdone
  obtain ⟨ok, w⟩ := r
  cases ok with
  | false =>
      have herror : FR_RW_ERROR ≠ 0 := by decide
      exact ⟨L, Or.inl rfl, hkeeps.shows, hkeeps.next, fun hzero => absurd hzero herror, fun hworks => by cases hdone hworks⟩
  | true =>
      dsimp only at hkeeps hload ⊢
      obtain ⟨rfl, hwin⟩ := hload rfl
      have hne : w.winsect ≠ 0 := h.placed.primary_ne_zero hs
      -- `sync` marks the window first.
      have hstore := hkeeps.shows.store hne (storeEntry w.win dirPtr fsize orgClust)
      obtain ⟨hsynced, hclean, hworks⟩ := sync_shows hstore hne
      rw [hwin] at hstore hsynced hclean hworks ⊢
      have hnext : Next w { w with win := storeEntry (L w.winsect) dirPtr fsize orgClust, winflag := true } :=
        ⟨rfl, rfl, le_rfl⟩
      refine ⟨_, Or.inr rfl, hsynced.shows, hkeeps.next.trans (hnext.trans hsynced.next),
        fun hzero => ⟨rfl, hsynced.shows.main_eq (hclean hzero)⟩, fun hw => ?_⟩
      exact hworks (hkeeps.next.works hw)

end WinVolume

end Fat
end FreakOS
