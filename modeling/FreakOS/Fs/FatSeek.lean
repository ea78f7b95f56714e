import FreakOS.Fs.FilePositions

/-!
# Seeking in a FAT file

`fatbase_lseek` of `fat_base.c`, with the cluster chains that it follows and stretches, and the operations of an inode
over it.

The window of the volume and the buffer of the file are not modelled apart from the device: an entry of the FAT is
what `get_cluster` reads, a byte of a cluster is what a read of the file finds.  Every access to the device may fail.
`validate` is none and does not: the files are those of the mounted volume, and `fatbase_disk_status` is always `0`.
`curr_clust`, `curr_sect` and `sect_clust`, which only `fatbase_read` and `fatbase_write` use, are left out.

* `FatVolume`, `FatFil` — the volume, and the `FATBase_FILE` of an inode.
* `createChain`, `fatbaseLseek` — as in the source.
* `Covered` — the cluster chain of the file is long enough for an offset.
* `read_only_harmless` — the calls on a descriptor whose seeks stay within the file change nothing.
-/

namespace FreakOS
namespace Fs

open Lib
open Memory
open Krnl

/-! ### The volume -/

/-- `FR_DENIED`. -/
def FR_DENIED : Int := 6

/-- `SS(fs)`. -/
def SECTOR_SIZE : U32 := 512#32

/-- `FATBase_SuperBlock`, with the FAT and the clusters of the volume. -/
structure FatVolume where
  maxClust : U32
  /-- `sects_clust`. -/
  sectsClust : U8
  lastClust : U32
  freeClust : U32
  fsiFlag : Bool
  /-- The entries of the FAT. -/
  fat : U32 → U32
  /-- The bits that an entry has: 12, 16 or 28. -/
  entryMask : U32
  /-- The bytes of the clusters. -/
  data : U32 → Nat → U8
  /-- Which accesses to the device succeed. -/
  ok : Nat → Bool
  /-- How many bytes one that fails has moved. -/
  moved : Nat → U32
  accesses : Nat

/-- `FATBase_FILE`; the flags are `FA_READ`, `FA_WRITE`, `FA__WRITTEN`, `FA__DIRTY` and `FA__ERROR`. -/
structure FatFil where
  canRead : Bool
  canWrite : Bool
  written : Bool
  dirty : Bool
  error : Bool
  fptr : U32
  fsize : U32
  orgClust : U32
deriving DecidableEq, Repr

namespace FatVolume

/-- An access to the device. -/
def access (v : FatVolume) : Bool × FatVolume := (v.ok v.accesses, { v with accesses := v.accesses + 1 })

/-- `csize`: the bytes of a cluster. -/
def clustBytes (v : FatVolume) : U32 := v.sectsClust.setWidth 32 * SECTOR_SIZE

/-- `get_cluster(fs, clust)`. -/
def getCluster (v : FatVolume) (clust : U32) : U32 × FatVolume :=
  if 2 ≤ clust ∧ clust < v.maxClust then
    let (ok, v) := v.access
    if ok then (v.fat clust, v) else (1, v)
  else (1, v)

/-- `put_cluster(fs, clust, val)`. -/
def putCluster (v : FatVolume) (clust val : U32) : Bool × FatVolume :=
  let (ok, v) := v.access
  if ok then (true, { v with fat := Function.update v.fat clust (val &&& v.entryMask) }) else (false, v)

/-- The clusters that `create_chain` looks at, from `scl` on and around. -/
def candidates (v : FatVolume) (scl : U32) : List U32 :=
  (List.range' (scl.toNat + 1) (v.maxClust.toNat - (scl.toNat + 1)) ++ List.range' 2 (scl.toNat - 1)).map
    (BitVec.ofNat 32)

/-- The loop of `create_chain`: a free cluster, `0` if there is none, `1` after an error. -/
def findFree : List U32 → FatVolume → U32 × FatVolume
  | [], v => (0, v)
  | ncl :: rest, v =>
      let (cstat, v) := v.getCluster ncl
      if cstat = 0 then (ncl, v)
      else if cstat = 1 then (1, v)
      else findFree rest v

/-- The free cluster information after `create_chain` has taken a cluster. -/
def allocated (v : FatVolume) (ncl : U32) : FatVolume :=
  let v := { v with lastClust := ncl }
  if v.freeClust ≠ 0xFFFFFFFF#32 then { v with freeClust := v.freeClust - 1, fsiFlag := true } else v

/-- The rest of `create_chain(fs, clust)`, from `scl` on. -/
def stretch (v : FatVolume) (clust scl : U32) : U32 × FatVolume :=
  let (ncl, v) := findFree (v.candidates scl) v
  if ncl < 2 then (ncl, v)
  else
    let (ok, v) := v.putCluster ncl 0x0FFFFFFF#32
    if !ok then (1, v)
    else
      let (ok, v) := if clust ≠ 0 then v.putCluster clust ncl else (true, v)
      if !ok then (1, v)
      else
        (ncl, v.allocated ncl)

/-- `create_chain(fs, clust)`. -/
def createChain (v : FatVolume) (clust : U32) : U32 × FatVolume :=
  if clust = 0 then
    let scl := if v.lastClust = 0 ∨ v.maxClust ≤ v.lastClust then 1 else v.lastClust
    v.stretch 0 scl
  else
    let (cstat, v) := v.getCluster clust
    if cstat < 2 then (1, v)
    else if cstat < v.maxClust then (cstat, v)
    else v.stretch clust clust

end FatVolume

/-! ### `fatbase_lseek` -/

/-- How the loop of `fatbase_lseek` ends. -/
inductive SeekEnd
  /-- `break`, with the cluster and the offset in it. -/
  | found (clust ofs : U32)
  /-- `goto fk_error`. -/
  | failed
deriving DecidableEq, Repr

/-- The loop that skips the leading clusters, with the `fptr` that it leaves.  Each round takes `csize` off `ofs`. -/
def skipClusters (canWrite : Bool) : Nat → FatVolume → (clust ofs fptr : U32) → Option (SeekEnd × U32 × FatVolume)
  | 0, _, _, _, _ => none
  | fuel + 1, v, clust, ofs, fptr =>
      if ofs ≤ v.clustBytes then some (.found clust ofs, fptr, v)
      else
        let (next, v) := if canWrite then v.createChain clust else v.getCluster clust
        if next = 0 then some (.found next v.clustBytes, fptr, v)
        else if next = 1 ∨ v.maxClust ≤ next then some (.failed, fptr, v)
        else skipClusters canWrite fuel v next (ofs - v.clustBytes) (fptr + v.clustBytes)

/-- The label `fk_error`. -/
def seekError (f : FatFil) (v : FatVolume) : Int × FatFil × FatVolume := (FR_RW_ERROR, { f with error := true }, v)

/-- The end of `fatbase_lseek`: the file has grown if it is open for writing. -/
def seekDone (f : FatFil) (v : FatVolume) : Int × FatFil × FatVolume :=
  (0, if f.canWrite ∧ f.fsize < f.fptr then { f with fsize := f.fptr, written := true } else f, v)

/-- What follows the loop: the sector of the offset is read, unless the offset is at its end. -/
def seekInCluster (f : FatFil) (v : FatVolume) (fptr ofs : U32) : Int × FatFil × FatVolume :=
  let f := { f with fptr := fptr }
  let (ok, v) := if ofs &&& (SECTOR_SIZE - 1) ≠ 0 then v.access else (true, v)
  if !ok then seekError f v else seekDone { f with fptr := fptr + ofs } v

/-- `fatbase_lseek(fp, ofs)` from the start of the chain on.  Clusters have bytes, so the fuel is not used up. -/
def seekFrom (f : FatFil) (v : FatVolume) (clust ofs : U32) : Int × FatFil × FatVolume :=
  if clust = 0 then seekDone f v
  else
    match skipClusters f.canWrite (ofs.toNat + 1) v clust ofs f.fptr with
    | none => seekError f v
    | some (.failed, fptr, v) => seekError { f with fptr := fptr } v
    | some (.found _ ofs, fptr, v) => seekInCluster f v fptr ofs

/-- `fatbase_lseek(fp, ofs)` after the dirty buffer has been written back. -/
def seekClean (f : FatFil) (v : FatVolume) (ofs : U32) : Int × FatFil × FatVolume :=
  let ofs := if f.fsize < ofs ∧ !f.canWrite then f.fsize else ofs
  let f := { f with fptr := 0 }
  if ofs = 0 then seekDone f v
  else if f.orgClust = 0 then
    let (clust, v) := v.createChain 0
    if clust = 1 then seekError f v else seekFrom { f with orgClust := clust } v clust ofs
  else seekFrom f v f.orgClust ofs

/-- `fatbase_lseek(fp, ofs)`. -/
def fatbaseLseek (f : FatFil) (v : FatVolume) (ofs : U32) : Int × FatFil × FatVolume :=
  if f.error then (FR_RW_ERROR, f, v)
  else if f.dirty then
    let (ok, v) := v.access
    if !ok then seekError f v else seekClean { f with dirty := false } v ofs
  else seekClean f v ofs

/-! ### The other operations -/

/-- The `n`-th cluster of a chain. -/
def FatVolume.nthClust (v : FatVolume) (org : U32) : Nat → U32
  | 0 => org
  | n + 1 => v.fat (v.nthClust org n)

/-- A byte of a file. -/
def FatVolume.fileByte (v : FatVolume) (f : FatFil) (i : Nat) : U8 :=
  v.data (v.nthClust f.orgClust (i / v.clustBytes.toNat)) (i % v.clustBytes.toNat)

/-- `fatbase_read(fp, buff, btr, &br)`: it reads at `fptr`, and moves it. -/
def fatbaseRead (f : FatFil) (v : FatVolume) (btr : U32) : (Int × List U8) × FatFil × FatVolume :=
  if f.error then ((FR_RW_ERROR, []), f, v)
  else if !f.canRead then ((FR_DENIED, []), f, v)
  else
    let remain := f.fsize - f.fptr
    let n := if remain < btr then remain else btr
    let moved := v.moved v.accesses
    let (ok, v') := v.access
    if !ok then ((FR_RW_ERROR, []), { f with fptr := f.fptr + if moved < n then moved else n, error := true }, v')
    else
      let bytes := (List.range n.toNat).map fun i => v.fileByte f (f.fptr.toNat + i)
      ((0, bytes), { f with fptr := f.fptr + n }, v')

/-- The volume with the `FATBase_FILE`s and the directory entries of its files, by inode. -/
structure FatState where
  vol : FatVolume
  fil : U32 → FatFil
  /-- `DIR_FileSize`. -/
  dirSize : U32 → U32
  /-- `DIR_FstClusHI` and `DIR_FstClusLO`. -/
  dirClust : U32 → U32

namespace FatState

/-- An operation on the `FATBase_FILE` of an inode. -/
def onFil {α : Type} (d : FatState) (inode : U32) (op : FatFil → FatVolume → α × FatFil × FatVolume) : α × FatState :=
  let (r, f, v) := op (d.fil inode) d.vol
  (r, { d with fil := Function.update d.fil inode f, vol := v })

/-- `fat_read(inode, buf, len, &copied)`. -/
def read (inode len : U32) (d : FatState) : (Int × List U8) × FatState :=
  d.onFil inode fun f v => fatbaseRead f v len

/-- `fat_lseek(inode, off)`. -/
def lseek (inode off : U32) (d : FatState) : Int × FatState := d.onFil inode fun f v => fatbaseLseek f v off

/-- `fat_stat(inode, &stat)`: the size is that of the directory entry. -/
def stat (inode : U32) (d : FatState) : (Int × U32) × FatState :=
  let (ok, v) := d.vol.access
  if !ok then ((-INODE_INTERNAL_ERR, 0), { d with vol := v }) else ((0, d.dirSize inode), { d with vol := v })

/-- `fatbase_sync(fp)` from the directory entry on. -/
def syncEntry (inode : U32) (d : FatState) : Int × FatState :=
  let (ok, v) := d.vol.access
  if !ok then (FR_RW_ERROR, { d with vol := v })
  else
    let f := d.fil inode
    let (ok, v) := v.access
    (if ok then 0 else FR_RW_ERROR, { d with
      vol := v
      fil := Function.update d.fil inode { f with written := false }
      dirSize := Function.update d.dirSize inode f.fsize
      dirClust := Function.update d.dirClust inode f.orgClust })

/-- `fat_sync(inode)`. -/
def sync (inode : U32) (d : FatState) : Int × FatState :=
  let f := d.fil inode
  if !f.written then (0, d)
  else if f.dirty then
    let (ok, v) := d.vol.access
    if !ok then (FR_RW_ERROR, { d with vol := v })
    else syncEntry inode { d with vol := v, fil := Function.update d.fil inode { f with dirty := false } }
  else syncEntry inode d

/-- `fat_file_op`, with any `iop_write`. -/
def ops (write : U32 → Option (List U8 → FatState → (Int × U32) × FatState)) : INodeOps FatState where
  read := fun inode => some (read inode)
  write := write
  lseek := fun inode => some (lseek inode)
  stat := fun inode => some (stat inode)
  sync := fun inode => some (sync inode)

end FatState

/-! ### Seeks that stay within the file -/

/-- The chain from a cluster on is long enough for an offset. -/
def FatVolume.Reaches (v : FatVolume) (clust ofs : U32) : Prop :=
  ∀ n, (n + 1) * v.clustBytes.toNat < ofs.toNat →
    2 ≤ v.nthClust clust n ∧ v.nthClust clust n < v.maxClust ∧
      2 ≤ v.fat (v.nthClust clust n) ∧ v.fat (v.nthClust clust n) < v.maxClust

/-- An offset is in the file, and in its cluster chain. -/
def Covered (f : FatFil) (v : FatVolume) (ofs : U32) : Prop :=
  ofs ≤ f.fsize ∧ (ofs ≠ 0 → f.orgClust ≠ 0) ∧ v.Reaches f.orgClust ofs

/-- Two volumes have the same FAT and the same clusters. -/
structure SameVolume (v v' : FatVolume) : Prop where
  fat : v'.fat = v.fat
  data : v'.data = v.data
  maxClust : v'.maxClust = v.maxClust
  sectsClust : v'.sectsClust = v.sectsClust

namespace SameVolume

variable {v v' v'' : FatVolume}

theorem refl (v : FatVolume) : SameVolume v v := ⟨rfl, rfl, rfl, rfl⟩

theorem trans (h₁ : SameVolume v v') (h₂ : SameVolume v' v'') : SameVolume v v'' :=
  ⟨h₂.fat.trans h₁.fat, h₂.data.trans h₁.data, h₂.maxClust.trans h₁.maxClust, h₂.sectsClust.trans h₁.sectsClust⟩

theorem access (v : FatVolume) : SameVolume v v.access.2 := ⟨rfl, rfl, rfl, rfl⟩

theorem clustBytes (h : SameVolume v v') : v'.clustBytes = v.clustBytes := by
  unfold FatVolume.clustBytes
  rw [h.sectsClust]

theorem nthClust (h : SameVolume v v') (clust : U32) (n : Nat) : v'.nthClust clust n = v.nthClust clust n := by
  induction n with
  | zero => rfl
  | succ n ih =>
      show v'.fat (v'.nthClust clust n) = v.fat (v.nthClust clust n)
      rw [h.fat, ih]

theorem reaches (h : SameVolume v v') {clust ofs : U32} (hreach : v.Reaches clust ofs) : v'.Reaches clust ofs := by
  intro n hn
  rw [h.clustBytes] at hn
  rw [h.nthClust, h.fat, h.maxClust]
  exact hreach n hn

end SameVolume

section Seek

variable {v v' : FatVolume} {f : FatFil}

theorem Covered.transfer {g : FatFil} {ofs : U32} (h : Covered f v ofs) (hsame : SameVolume v v')
    (hsize : g.fsize = f.fsize) (horg : g.orgClust = f.orgClust) : Covered g v' ofs := by
  unfold Covered
  rw [hsize, horg]
  exact ⟨h.1, h.2.1, hsame.reaches h.2.2⟩

theorem nthClust_fat (v : FatVolume) (clust : U32) (n : Nat) :
    v.nthClust (v.fat clust) n = v.nthClust clust (n + 1) := by
  induction n with
  | zero => rfl
  | succ n ih =>
      show v.fat (v.nthClust (v.fat clust) n) = v.fat (v.nthClust clust (n + 1))
      rw [ih]

/-- `get_cluster` reads, or fails. -/
theorem getCluster_same (v : FatVolume) (clust : U32) :
    SameVolume v (v.getCluster clust).2 ∧ ((v.getCluster clust).1 = 1 ∨ (v.getCluster clust).1 = v.fat clust) := by
  unfold FatVolume.getCluster
  split
  · unfold FatVolume.access
    dsimp only
    split
    · exact ⟨⟨rfl, rfl, rfl, rfl⟩, Or.inr rfl⟩
    · exact ⟨⟨rfl, rfl, rfl, rfl⟩, Or.inl rfl⟩
  · exact ⟨.refl v, Or.inl rfl⟩

/-- `create_chain` follows a cluster that has a successor. -/
theorem createChain_same {clust : U32} (hclust : 2 ≤ clust) (hnext : 2 ≤ v.fat clust) (hlt : v.fat clust < v.maxClust) :
    SameVolume v (v.createChain clust).2 ∧ ((v.createChain clust).1 = 1 ∨ (v.createChain clust).1 = v.fat clust) := by
  obtain ⟨hsame, hget⟩ := getCluster_same v clust
  have hne : clust ≠ 0 := by
    rintro rfl
    exact absurd hclust (by decide)
  unfold FatVolume.createChain
  rw [if_neg hne]
  dsimp only
  rcases hget with hget | hget
  · rw [hget, if_pos (by decide)]
    exact ⟨hsame, Or.inl rfl⟩
  · rw [hget, if_neg (by rwa [BitVec.not_lt]), hsame.maxClust, if_pos hlt]
    exact ⟨hsame, Or.inr rfl⟩

/-- The loop of `fatbase_lseek` follows a chain that is long enough, and changes nothing. -/
theorem skipClusters_same {canWrite : Bool} {fuel : Nat} {clust ofs fptr fptr' : U32} {e : SeekEnd}
    (hreach : v.Reaches clust ofs) (hcall : skipClusters canWrite fuel v clust ofs fptr = some (e, fptr', v')) :
    SameVolume v v' ∧ ∀ c o, e = .found c o → fptr' + o = fptr + ofs := by
  induction fuel generalizing v clust ofs fptr with
  | zero => cases hcall
  | succ fuel ih =>
      unfold skipClusters at hcall
      split at hcall
      · obtain ⟨rfl, hrest⟩ := Prod.mk.inj (Option.some.inj hcall)
        obtain ⟨rfl, rfl⟩ := Prod.mk.inj hrest
        refine ⟨.refl v, ?_⟩
        intro c o heq
        obtain ⟨-, rfl⟩ := SeekEnd.found.inj heq
        rfl
      · rename_i hbig
        have hbytes : v.clustBytes.toNat < ofs.toNat := by
          rw [BitVec.not_le] at hbig
          exact hbig
        obtain ⟨h1, h2, h3, h4⟩ := hreach 0 (by simpa using hbytes)
        change 2 ≤ clust at h1
        change 2 ≤ v.fat clust at h3
        change v.fat clust < v.maxClust at h4
        -- The next cluster, in either mode.
        have hnext : SameVolume v (if canWrite then v.createChain clust else v.getCluster clust).2 ∧
            ((if canWrite then v.createChain clust else v.getCluster clust).1 = 1 ∨
              (if canWrite then v.createChain clust else v.getCluster clust).1 = v.fat clust) := by
          cases canWrite
          · exact getCluster_same v clust
          · exact createChain_same h1 h3 h4
        generalize (if canWrite then v.createChain clust else v.getCluster clust) = p at hcall hnext
        obtain ⟨next, w⟩ := p
        obtain ⟨hsame, hnext⟩ := hnext
        dsimp only at hcall hsame hnext
        split at hcall
        · rename_i hzero
          rcases hnext with rfl | rfl
          · exact absurd hzero (by decide)
          · rw [hzero] at h3
            exact absurd h3 (by decide)
        · split at hcall
          · obtain ⟨rfl, hrest⟩ := Prod.mk.inj (Option.some.inj hcall)
            obtain ⟨rfl, rfl⟩ := Prod.mk.inj hrest
            exact ⟨hsame, fun c o heq => by cases heq⟩
          · rename_i hgood
            obtain rfl : next = v.fat clust := hnext.resolve_left fun h => hgood (Or.inl h)
            have hreach' : w.Reaches (v.fat clust) (ofs - w.clustBytes) := by
              refine hsame.reaches ?_
              intro n hn
              rw [hsame.clustBytes, BitVec.toNat_sub_of_le (by rw [BitVec.le_def]; omega)] at hn
              rw [nthClust_fat]
              refine hreach (n + 1) ?_
              rw [Nat.add_mul (n + 1) 1]
              omega
            obtain ⟨hsame', hsum⟩ := ih hreach' hcall
            refine ⟨hsame.trans hsame', ?_⟩
            intro c o heq
            rw [hsum c o heq]
            bv_omega

/-- What a seek may do to the file: its size and its first cluster stay, and after a success it is at the offset. -/
def SeekKeeps (f : FatFil) (v : FatVolume) (ofs : U32) (r : Int × FatFil × FatVolume) : Prop :=
  SameVolume v r.2.2 ∧ r.2.1.fsize = f.fsize ∧ r.2.1.orgClust = f.orgClust ∧ (r.1 = 0 → r.2.1.fptr = ofs)

theorem SeekKeeps.after {ofs : U32} {r : Int × FatFil × FatVolume} (h : SeekKeeps f v' ofs r)
    (hsame : SameVolume v v') : SeekKeeps f v ofs r :=
  ⟨hsame.trans h.1, h.2⟩

theorem seekDone_keeps (f : FatFil) (v : FatVolume) (hle : f.fptr ≤ f.fsize) :
    SeekKeeps f v f.fptr (seekDone f v) := by
  unfold seekDone
  rw [if_neg]
  · exact ⟨.refl v, rfl, rfl, fun _ => rfl⟩
  · rintro ⟨-, hlt⟩
    rw [BitVec.lt_def] at hlt
    rw [BitVec.le_def] at hle
    omega

theorem seekError_keeps (f : FatFil) (v : FatVolume) (ofs : U32) : SeekKeeps f v ofs (seekError f v) := by
  refine ⟨.refl v, rfl, rfl, ?_⟩
  intro h
  exact absurd (show FR_RW_ERROR = 0 from h) (by decide)

theorem seekInCluster_keeps (f : FatFil) (v : FatVolume) {fptr ofs : U32} (hle : fptr + ofs ≤ f.fsize) :
    SeekKeeps f v (fptr + ofs) (seekInCluster f v fptr ofs) := by
  have haccess : SameVolume v (if ofs &&& (SECTOR_SIZE - 1) ≠ 0 then v.access else (true, v)).2 := by
    split
    · exact .access v
    · exact .refl v
  unfold seekInCluster
  dsimp only
  generalize (if ofs &&& (SECTOR_SIZE - 1) ≠ 0 then v.access else (true, v)) = p at haccess
  obtain ⟨ok, w⟩ := p
  cases ok
  · exact SeekKeeps.after (seekError_keeps { f with fptr := fptr } w (fptr + ofs)) haccess
  · exact SeekKeeps.after (seekDone_keeps { f with fptr := fptr + ofs } w hle) haccess

/-- From a cluster on whose chain is long enough. -/
theorem seekFrom_keeps (hzero : f.fptr = 0) {clust ofs : U32} (hclust : clust ≠ 0) (hle : ofs ≤ f.fsize)
    (hreach : v.Reaches clust ofs) : SeekKeeps f v ofs (seekFrom f v clust ofs) := by
  unfold seekFrom
  rw [if_neg hclust]
  cases hloop : skipClusters f.canWrite (ofs.toNat + 1) v clust ofs f.fptr with
  | none => exact seekError_keeps f v ofs
  | some p =>
      obtain ⟨e, fptr', w⟩ := p
      obtain ⟨hsame, hsum⟩ := skipClusters_same hreach hloop
      cases e with
      | failed => exact SeekKeeps.after (seekError_keeps { f with fptr := fptr' } w ofs) hsame
      | found c o =>
          have hplace : fptr' + o = ofs := by
            rw [hsum c o rfl, hzero]
            exact BitVec.zero_add ofs
          have hkeeps := seekInCluster_keeps f w (show fptr' + o ≤ f.fsize by rw [hplace]; exact hle)
          rw [hplace] at hkeeps
          exact hkeeps.after hsame

theorem seekClean_keeps {ofs : U32} (hcover : Covered f v ofs) : SeekKeeps f v ofs (seekClean f v ofs) := by
  obtain ⟨hle, horg, hreach⟩ := hcover
  have hclip : ¬ (f.fsize < ofs ∧ (!f.canWrite) = true) := by
    rintro ⟨hlt, -⟩
    exact BitVec.not_le.mpr hlt hle
  unfold seekClean
  rw [if_neg hclip]
  dsimp only
  split
  · rename_i hofs
    rw [hofs]
    exact seekDone_keeps { f with fptr := 0 } v (BitVec.le_def.mpr (Nat.zero_le _))
  · rename_i hofs
    rw [if_neg (horg hofs)]
    exact seekFrom_keeps (f := { f with fptr := 0 }) rfl (horg hofs) hle hreach

/-- A seek to an offset in the file and in its cluster chain allocates nothing and does not stretch the file, and when it
succeeds the file is at the offset. -/
theorem fatbaseLseek_keeps {ofs : U32} (hcover : Covered f v ofs) : SeekKeeps f v ofs (fatbaseLseek f v ofs) := by
  have h₁ : SameVolume v v.access.2 := .access v
  unfold fatbaseLseek
  dsimp only
  split
  · exact ⟨.refl v, rfl, rfl, fun h => absurd (show FR_RW_ERROR = 0 from h) (by decide)⟩
  · split
    · split
      · exact (seekError_keeps f _ ofs).after h₁
      · have hkeeps := seekClean_keeps (hcover.transfer (g := { f with dirty := false }) h₁ rfl rfl)
        exact ⟨h₁.trans hkeeps.1, hkeeps.2⟩
    · exact seekClean_keeps hcover

@[simp] theorem getCluster_sectsClust (v : FatVolume) (clust : U32) :
    (v.getCluster clust).2.sectsClust = v.sectsClust := (getCluster_same v clust).1.sectsClust

@[simp] theorem putCluster_sectsClust (v : FatVolume) (clust val : U32) :
    (v.putCluster clust val).2.sectsClust = v.sectsClust := by
  unfold FatVolume.putCluster FatVolume.access
  dsimp only
  split <;> rfl

@[simp] theorem findFree_sectsClust (candidates : List U32) (v : FatVolume) :
    (FatVolume.findFree candidates v).2.sectsClust = v.sectsClust := by
  induction candidates generalizing v with
  | nil => rfl
  | cons ncl rest ih =>
      unfold FatVolume.findFree
      dsimp only
      split
      · exact getCluster_sectsClust v ncl
      · split
        · exact getCluster_sectsClust v ncl
        · rw [ih, getCluster_sectsClust]

@[simp] theorem allocated_sectsClust (v : FatVolume) (ncl : U32) : (v.allocated ncl).sectsClust = v.sectsClust := by
  unfold FatVolume.allocated
  dsimp only
  split <;> rfl

@[simp] theorem stretch_sectsClust (v : FatVolume) (clust scl : U32) :
    (v.stretch clust scl).2.sectsClust = v.sectsClust := by
  unfold FatVolume.stretch
  dsimp only
  split
  · simp
  · split
    · simp
    · split
      · split <;> simp
      · simp

@[simp] theorem createChain_sectsClust (v : FatVolume) (clust : U32) :
    (v.createChain clust).2.sectsClust = v.sectsClust := by
  unfold FatVolume.createChain
  dsimp only
  split
  · simp
  · split
    · simp
    · split <;> simp

/-- Clusters have bytes, so the loop of `fatbase_lseek` ends. -/
theorem skipClusters_isSome {canWrite : Bool} {fuel : Nat} {clust ofs fptr : U32}
    (hpos : 0 < v.sectsClust.toNat) (hfuel : ofs.toNat < fuel) :
    (skipClusters canWrite fuel v clust ofs fptr).isSome := by
  induction fuel generalizing v clust ofs fptr with
  | zero => omega
  | succ fuel ih =>
      unfold skipClusters
      split
      · rfl
      · rename_i hbig
        have hsects : ∀ p : U32 × FatVolume, p = (if canWrite then v.createChain clust else v.getCluster clust) →
            p.2.sectsClust = v.sectsClust := by
          rintro p rfl
          cases canWrite <;> simp
        generalize (if canWrite then v.createChain clust else v.getCluster clust) = p at hsects
        obtain ⟨next, w⟩ := p
        have hw : w.sectsClust = v.sectsClust := hsects _ rfl
        have hsame : w.clustBytes = v.clustBytes := by
          unfold FatVolume.clustBytes
          rw [hw]
        -- A cluster has at least one sector, so the offset gets smaller.
        have hbytes : 0 < v.clustBytes.toNat := by
          have hlt := v.sectsClust.isLt
          simp only [FatVolume.clustBytes, SECTOR_SIZE, BitVec.toNat_mul, BitVec.toNat_setWidth, BitVec.toNat_ofNat]
          omega
        dsimp only
        split
        · rfl
        · split
          · rfl
          · refine ih (by rw [hw]; exact hpos) ?_
            rw [BitVec.not_le, BitVec.lt_def] at hbig
            rw [hsame, BitVec.toNat_sub_of_le (by rw [BitVec.le_def]; omega)]
            omega

end Seek

/-! ### Calls that do not write -/

/-- No file has another size, another cluster or another byte; a directory entry has at most been given the size and
the first cluster that its file has. -/
structure Untouched (d d' : FatState) : Prop where
  volume : SameVolume d.vol d'.vol
  fsize : ∀ i, (d'.fil i).fsize = (d.fil i).fsize
  orgClust : ∀ i, (d'.fil i).orgClust = (d.fil i).orgClust
  dirSize : ∀ i, d'.dirSize i = d.dirSize i ∨ d'.dirSize i = (d.fil i).fsize
  dirClust : ∀ i, d'.dirClust i = d.dirClust i ∨ d'.dirClust i = (d.fil i).orgClust

namespace Untouched

variable {d d' d'' : FatState}

theorem refl (d : FatState) : Untouched d d :=
  ⟨.refl _, fun _ => rfl, fun _ => rfl, fun _ => Or.inl rfl, fun _ => Or.inl rfl⟩

theorem trans (h₁ : Untouched d d') (h₂ : Untouched d' d'') : Untouched d d'' := by
  refine ⟨h₁.volume.trans h₂.volume, ?_, ?_, ?_, ?_⟩
  · intro i
    rw [h₂.fsize, h₁.fsize]
  · intro i
    rw [h₂.orgClust, h₁.orgClust]
  · intro i
    rcases h₂.dirSize i with h | h
    · rw [h]
      exact h₁.dirSize i
    · rw [h, h₁.fsize]
      exact Or.inr rfl
  · intro i
    rcases h₂.dirClust i with h | h
    · rw [h]
      exact h₁.dirClust i
    · rw [h, h₁.orgClust]
      exact Or.inr rfl

/-- The bytes of each file are the same. -/
theorem fileByte (h : Untouched d d') (i : U32) (n : Nat) :
    d'.vol.fileByte (d'.fil i) n = d.vol.fileByte (d.fil i) n := by
  unfold FatVolume.fileByte
  rw [h.volume.data, h.volume.clustBytes, h.volume.nthClust, h.orgClust]

/-- An operation on the `FATBase_FILE` of an inode that keeps its size and its first cluster. -/
theorem onFil {α : Type} (d : FatState) (inode : U32) (op : FatFil → FatVolume → α × FatFil × FatVolume)
    (hvol : SameVolume d.vol (op (d.fil inode) d.vol).2.2)
    (hsize : (op (d.fil inode) d.vol).2.1.fsize = (d.fil inode).fsize)
    (horg : (op (d.fil inode) d.vol).2.1.orgClust = (d.fil inode).orgClust) :
    Untouched d (d.onFil inode op).2 := by
  have hfil : (d.onFil inode op).2.fil = Function.update d.fil inode (op (d.fil inode) d.vol).2.1 := rfl
  refine ⟨hvol, ?_, ?_, fun _ => Or.inl rfl, fun _ => Or.inl rfl⟩
  · intro i
    rw [hfil]
    by_cases hi : i = inode
    · rw [hi, Function.update_self, hsize]
    · rw [Function.update_of_ne hi]
  · intro i
    rw [hfil]
    by_cases hi : i = inode
    · rw [hi, Function.update_self, horg]
    · rw [Function.update_of_ne hi]

theorem read (inode len : U32) (d : FatState) : Untouched d (d.read inode len).2 := by
  have hread : ∀ f v, SameVolume v (fatbaseRead f v len).2.2 ∧ (fatbaseRead f v len).2.1.fsize = f.fsize ∧
      (fatbaseRead f v len).2.1.orgClust = f.orgClust := by
    intro f v
    have h₁ : SameVolume v v.access.2 := .access v
    unfold fatbaseRead
    dsimp only
    split
    · exact ⟨.refl v, rfl, rfl⟩
    · split
      · exact ⟨.refl v, rfl, rfl⟩
      · split
        · exact ⟨h₁, rfl, rfl⟩
        · exact ⟨h₁, rfl, rfl⟩
  obtain ⟨hvol, hsize, horg⟩ := hread (d.fil inode) d.vol
  exact onFil d inode _ hvol hsize horg

theorem lseek {inode off : U32} (hcover : Covered (d.fil inode) d.vol off) : Untouched d (d.lseek inode off).2 := by
  obtain ⟨hvol, hsize, horg, -⟩ := fatbaseLseek_keeps hcover
  exact onFil d inode _ hvol hsize horg

theorem stat (inode : U32) (d : FatState) : Untouched d (d.stat inode).2 := by
  unfold FatState.stat
  dsimp only
  split
  · exact ⟨.access _, fun _ => rfl, fun _ => rfl, fun _ => Or.inl rfl, fun _ => Or.inl rfl⟩
  · exact ⟨.access _, fun _ => rfl, fun _ => rfl, fun _ => Or.inl rfl, fun _ => Or.inl rfl⟩

/-- Flags of a `FATBase_FILE` are written. -/
theorem flags (d : FatState) (inode : U32) {g : FatFil} (hsize : g.fsize = (d.fil inode).fsize)
    (horg : g.orgClust = (d.fil inode).orgClust) {v : FatVolume} (hvol : SameVolume d.vol v) :
    Untouched d { d with vol := v, fil := Function.update d.fil inode g } :=
  onFil d inode (fun _ _ => ((), g, v)) hvol hsize horg

theorem syncEntry (inode : U32) (d : FatState) : Untouched d (d.syncEntry inode).2 := by
  unfold FatState.syncEntry
  dsimp only
  split
  · exact ⟨.access _, fun _ => rfl, fun _ => rfl, fun _ => Or.inl rfl, fun _ => Or.inl rfl⟩
  · have hflags := flags d inode (g := { d.fil inode with written := false }) rfl rfl
      ((SameVolume.access d.vol).trans (.access _))
    refine ⟨hflags.volume, hflags.fsize, hflags.orgClust, ?_, ?_⟩
    · intro i
      by_cases hi : i = inode
      · subst hi
        exact Or.inr (Function.update_self ..)
      · exact Or.inl (Function.update_of_ne hi ..)
    · intro i
      by_cases hi : i = inode
      · subst hi
        exact Or.inr (Function.update_self ..)
      · exact Or.inl (Function.update_of_ne hi ..)

theorem sync (inode : U32) (d : FatState) : Untouched d (d.sync inode).2 := by
  unfold FatState.sync
  dsimp only
  split
  · exact ⟨.refl _, fun _ => rfl, fun _ => rfl, fun _ => Or.inl rfl, fun _ => Or.inl rfl⟩
  · split
    · split
      · exact ⟨.access _, fun _ => rfl, fun _ => rfl, fun _ => Or.inl rfl, fun _ => Or.inl rfl⟩
      · refine Untouched.trans ?_ (syncEntry inode _)
        exact flags d inode (g := { d.fil inode with dirty := false }) rfl rfl (.access _)
    · exact syncEntry inode d

end Untouched

/-- The calls on a descriptor, other than `file_write`. -/
inductive DescOp
  | fileRead (blen : U32)
  | fileSeek (pos : Int) (flag : U32)
  | fileFstat
  | fileFsync
  | fileClose

/-- One call. -/
def DescOp.exec {σ : Type} (ops : INodeOps σ) (files : U32) (fd : Int) : DescOp → FsKernel σ → Res (FsKernel σ)
  | .fileRead blen, x => do
      let (_, x) ← Fs.fileRead ops x files fd blen
      return x
  | .fileSeek pos flag, x => do
      let (_, x) ← Fs.fileSeek ops x files fd pos flag
      return x
  | .fileFstat, x => do
      let (_, x) ← Fs.fileFstat ops x files fd
      return x
  | .fileFsync, x => do
      let (_, x) ← Fs.fileFsync ops x files fd
      return x
  | .fileClose, x => do
      let (_, x) ← Fs.fileClose ops x files fd
      return x

/-- The offset that `file_seek` asks the driver for. -/
def seekOffset (d : FatState) (f : File) (pos : Int) (flag : U32) : U32 :=
  if flag = LSEEK_SET then BitVec.ofInt 32 pos
  else if flag = LSEEK_CUR then BitVec.ofInt 32 (pos + f.pos)
  else BitVec.ofInt 32 (pos + (d.dirSize f.inode).toNat)

/-- A seek goes to an offset in the file and in its cluster chain. -/
def DescOp.Inside (x : FsKernel FatState) (files : U32) (fd : Int) : DescOp → Prop
  | .fileSeek pos flag => ∀ fs f, x.kernel.files files = some fs → findFileWithFd fs fd = some f →
      flag = LSEEK_SET ∨ flag = LSEEK_CUR ∨ flag = LSEEK_END →
      Covered (x.disk.fil f.inode) x.disk.vol (seekOffset x.disk f pos flag)
  | _ => True

/-- One call whose seek, if it is one, stays within the file. -/
def InsideStep (ops : INodeOps FatState) (files : U32) (fd : Int) (x x' : FsKernel FatState) : Prop :=
  ∃ op : DescOp, op.Inside x files fd ∧ op.exec ops files fd x = .ok x'

section Calls

variable {write : U32 → Option (List U8 → FatState → (Int × U32) × FatState)} {x x' : FsKernel FatState} {files : U32}
  {fd : Int}

theorem fileRead_untouched {blen : U32} {r : Int × List U8}
    (hcall : fileRead (FatState.ops write) x files fd blen = .ok (r, x')) : Untouched x.disk x'.disk := by
  unfold fileRead at hcall
  obtain ⟨fs, -, hcall⟩ := Res.bind_eq_ok.mp hcall
  split at hcall
  · obtain ⟨-, rfl⟩ := Prod.mk.inj (Except.ok.inj hcall)
    exact .refl _
  · rename_i file hfind
    have hread := Untouched.read file.inode blen x.disk
    split at hcall
    · obtain ⟨-, rfl⟩ := Prod.mk.inj (Except.ok.inj hcall)
      exact .refl _
    · dsimp only [FatState.ops] at hcall
      split at hcall
      · obtain ⟨-, rfl⟩ := Prod.mk.inj (Except.ok.inj hcall)
        exact hread
      · obtain ⟨y, hmodify, hcall⟩ := Res.bind_eq_ok.mp hcall
        obtain ⟨-, rfl⟩ := Prod.mk.inj (Except.ok.inj hcall)
        rw [modifyFile_disk hmodify]
        exact hread

theorem fileFstat_untouched {r : Int × U32} (hcall : fileFstat (FatState.ops write) x files fd = .ok (r, x')) :
    Untouched x.disk x'.disk := by
  unfold fileFstat at hcall
  obtain ⟨fs, -, hcall⟩ := Res.bind_eq_ok.mp hcall
  split at hcall
  · obtain ⟨-, rfl⟩ := Prod.mk.inj (Except.ok.inj hcall)
    exact .refl _
  · rename_i file hfind
    obtain ⟨-, rfl⟩ := Prod.mk.inj (Except.ok.inj hcall)
    exact Untouched.stat file.inode x.disk

theorem fileFsync_untouched {ret : Int} (hcall : fileFsync (FatState.ops write) x files fd = .ok (ret, x')) :
    Untouched x.disk x'.disk := by
  unfold fileFsync at hcall
  obtain ⟨fs, -, hcall⟩ := Res.bind_eq_ok.mp hcall
  split at hcall
  · obtain ⟨-, rfl⟩ := Prod.mk.inj (Except.ok.inj hcall)
    exact .refl _
  · rename_i file hfind
    obtain ⟨-, rfl⟩ := Prod.mk.inj (Except.ok.inj hcall)
    exact Untouched.sync file.inode x.disk

theorem vfsClose_untouched (write : U32 → Option (List U8 → FatState → (Int × U32) × FatState))
    (x : FsKernel FatState) (inode : U32) :
    Untouched x.disk (vfsClose (FatState.ops write) x inode).2.disk := by
  unfold vfsClose
  split
  · exact .refl _
  · exact Untouched.sync inode x.disk

theorem fileClose_untouched {ret : Int} (hcall : fileClose (FatState.ops write) x files fd = .ok (ret, x')) :
    Untouched x.disk x'.disk := by
  unfold fileClose at hcall
  obtain ⟨fs, -, hcall⟩ := Res.bind_eq_ok.mp hcall
  split at hcall
  · obtain ⟨-, rfl⟩ := Prod.mk.inj (Except.ok.inj hcall)
    exact .refl _
  · rename_i file hfind
    obtain ⟨k, -, hcall⟩ := Res.bind_eq_ok.mp hcall
    obtain ⟨-, rfl⟩ := Prod.mk.inj (Except.ok.inj hcall)
    exact vfsClose_untouched write x file.inode

theorem addInt32_ofInt (p q : Int) : BitVec.ofInt 32 (addInt32 p q) = BitVec.ofInt 32 (p + q) := BitVec.ofInt_toInt

/-- The `switch` of `file_seek` at most reads the directory entry, and gives the offset that `seekOffset` says. -/
theorem seekTarget_untouched {d d' : FatState} {f : File} {pos : Int} {flag : U32} {r : Except Int Int}
    (hcall : seekTarget (FatState.ops write) d f pos flag = (r, d')) :
    Untouched d d' ∧ ∀ p, r = .ok p → (flag = LSEEK_SET ∨ flag = LSEEK_CUR ∨ flag = LSEEK_END) ∧
      BitVec.ofInt 32 p = seekOffset d f pos flag := by
  unfold seekTarget at hcall
  unfold seekOffset
  split at hcall
  · rename_i hset
    obtain ⟨rfl, rfl⟩ := Prod.mk.inj hcall
    refine ⟨.refl d, ?_⟩
    intro p hp
    obtain rfl := Except.ok.inj hp
    exact ⟨Or.inl hset, (if_pos hset).symm⟩
  · rename_i hset
    split at hcall
    · rename_i hcur
      obtain ⟨rfl, rfl⟩ := Prod.mk.inj hcall
      refine ⟨.refl d, ?_⟩
      intro p hp
      obtain rfl := Except.ok.inj hp
      rw [if_neg hset, if_pos hcur]
      exact ⟨Or.inr (Or.inl hcur), addInt32_ofInt pos f.pos⟩
    · rename_i hcur
      split at hcall
      · rename_i hend
        have hstat := Untouched.stat f.inode d
        dsimp only [FatState.ops] at hcall
        split at hcall
        · obtain ⟨rfl, rfl⟩ := Prod.mk.inj hcall
          exact ⟨hstat, fun p hp => by cases hp⟩
        · rename_i hok
          obtain ⟨rfl, rfl⟩ := Prod.mk.inj hcall
          refine ⟨hstat, ?_⟩
          intro p hp
          obtain rfl := Except.ok.inj hp
          rw [if_neg hset, if_neg hcur, addInt32_ofInt]
          refine ⟨Or.inr (Or.inr hend), ?_⟩
          -- The device answered, so the size is that of the directory entry.
          unfold FatState.stat at hok ⊢
          dsimp only at hok ⊢
          split
          · rename_i hfail
            rw [if_pos hfail] at hok
            exact absurd (show (-INODE_INTERNAL_ERR : Int) ≠ 0 by decide) hok
          · rfl
      · obtain ⟨rfl, rfl⟩ := Prod.mk.inj hcall
        exact ⟨.refl d, fun p hp => by cases hp⟩

theorem fileSeek_untouched {pos : Int} {flag : U32} {ret : Int}
    (hin : (DescOp.fileSeek pos flag).Inside x files fd)
    (hcall : fileSeek (FatState.ops write) x files fd pos flag = .ok (ret, x')) : Untouched x.disk x'.disk := by
  unfold fileSeek at hcall
  obtain ⟨fs, hfs, hcall⟩ := Res.bind_eq_ok.mp hcall
  split at hcall
  · obtain ⟨-, rfl⟩ := Prod.mk.inj (Except.ok.inj hcall)
    exact .refl _
  · rename_i file hfind
    split at hcall
    · rename_i err d htarget
      obtain ⟨-, rfl⟩ := Prod.mk.inj (Except.ok.inj hcall)
      exact (seekTarget_untouched htarget).1
    · rename_i target d htarget
      obtain ⟨hswitch, hoffset⟩ := seekTarget_untouched htarget
      obtain ⟨hflag, hoffset⟩ := hoffset target rfl
      have hcover := hin fs file (fileStruct_eq_ok.mp hfs) hfind hflag
      rw [← hoffset] at hcover
      have hseek : Untouched x.disk (d.lseek file.inode (BitVec.ofInt 32 target)).2 :=
        hswitch.trans (.lseek (hcover.transfer hswitch.volume (hswitch.fsize _) (hswitch.orgClust _)))
      dsimp only [FatState.ops] at hcall
      split at hcall
      · obtain ⟨-, rfl⟩ := Prod.mk.inj (Except.ok.inj hcall)
        exact hseek
      · obtain ⟨y, hmodify, hcall⟩ := Res.bind_eq_ok.mp hcall
        obtain ⟨-, rfl⟩ := Prod.mk.inj (Except.ok.inj hcall)
        rw [modifyFile_disk hmodify]
        exact hseek

theorem InsideStep.untouched (hstep : InsideStep (FatState.ops write) files fd x x') : Untouched x.disk x'.disk := by
  obtain ⟨op, hin, hexec⟩ := hstep
  cases op <;> obtain ⟨⟨r, y⟩, hcall, hexec⟩ := Res.bind_eq_ok.mp hexec <;> obtain rfl := Except.ok.inj hexec
  case fileRead => exact fileRead_untouched hcall
  case fileSeek => exact fileSeek_untouched hin hcall
  case fileFstat => exact fileFstat_untouched hcall
  case fileFsync => exact fileFsync_untouched hcall
  case fileClose => exact fileClose_untouched hcall

/-- Calls on a descriptor other than `file_write`, each of whose seeks goes to an offset in the file and in its cluster
chain, change no file: neither its size nor its clusters nor its bytes. -/
theorem read_only_harmless {x₀ : FsKernel FatState}
    (hrun : Relation.ReflTransGen (InsideStep (FatState.ops write) files fd) x₀ x) :
    Untouched x₀.disk x.disk ∧ ∀ inode n, x.disk.vol.fileByte (x.disk.fil inode) n =
      x₀.disk.vol.fileByte (x₀.disk.fil inode) n := by
  have hsame : Untouched x₀.disk x.disk := by
    induction hrun with
    | refl => exact .refl _
    | tail _ hstep ih => exact ih.trans hstep.untouched
  exact ⟨hsame, hsame.fileByte⟩

end Calls

/-! ### Seeks on a small volume -/

/-- The only file is the inode at `0xC0030000`, of four bytes in cluster 2; the device does not fail. -/
def smallVolume : FatState where
  vol := ⟨10, 1, 2, 7, false, fun clust => if clust = 2 then 0x0FFFFFFF else 0, 0x0FFFFFFF, fun _ _ => 7, fun _ => true,
    fun _ => 0, 0⟩
  fil := fun _ => ⟨true, true, false, false, false, 0, 4, 2⟩
  dirSize := fun _ => 4
  dirClust := fun _ => 2

@[inherit_doc smallVolume] def openSmall (x : FsKernel FatState) : Res ((Int × U32) × FsKernel FatState) :=
  let count := x.kernel.inodes 0xC0030000#32
  .ok ((0, 0xC0030000#32), x.setCount 0xC0030000#32 { count with opened := count.opened + 1 })

/-- `fat_file_op` without `iop_write`. -/
def readOnlyOps : INodeOps FatState := FatState.ops fun _ => none

/-- A descriptor for reading is moved to the third byte, and reads. -/
theorem read_only_harmless_seek : ∃ y x z fd, y.disk = smallVolume ∧
    fileOpen y 0xC0002000#32 OPEN_READ openSmall = .ok (fd, x) ∧
    Relation.ReflTransGen (InsideStep readOnlyOps 0xC0002000#32 fd) x z ∧ Untouched x.disk z.disk := by
  have heval : (do
      let a ← filesCreate (bootKernel smallImage fortyFrames)
      let fd ← fileOpen ⟨a.2, smallVolume⟩ a.1 OPEN_READ openSmall
      let fs ← fd.2.kernel.fileStruct a.1
      let y ← (DescOp.fileSeek 3 LSEEK_SET).exec readOnlyOps a.1 fd.1 fd.2
      let z ← (DescOp.fileRead 1).exec readOnlyOps a.1 fd.1 y
      return (decide (a.1 = 0xC0002000#32 ∧
        (findFileWithFd fs fd.1).map (fun f => f.inode) = some 0xC0030000#32 ∧
        fd.2.disk.vol.clustBytes = 512 ∧ (fd.2.disk.fil 0xC0030000#32).fsize = 4 ∧
        (fd.2.disk.fil 0xC0030000#32).orgClust = 2 ∧ (z.disk.fil 0xC0030000#32).fptr = 4)) : Res _) = .ok true := by
    decide +kernel
  obtain ⟨⟨a, k⟩, hcreate, heval⟩ := Res.bind_eq_ok.mp heval
  obtain ⟨⟨fd, x⟩, hopen, heval⟩ := Res.bind_eq_ok.mp heval
  obtain ⟨fs, hfs, heval⟩ := Res.bind_eq_ok.mp heval
  obtain ⟨y, hseek, heval⟩ := Res.bind_eq_ok.mp heval
  obtain ⟨z, hread, heval⟩ := Res.bind_eq_ok.mp heval
  obtain ⟨rfl, hinode, hbytes, hsize, horg, -⟩ := of_decide_eq_true (Except.ok.inj heval)
  have hin : (DescOp.fileSeek 3 LSEEK_SET).Inside x 0xC0002000#32 fd := by
    intro gs f hgs hfind _
    obtain rfl := Option.some.inj ((fileStruct_eq_ok.mp hfs).symm.trans hgs)
    rw [hfind, Option.map_some] at hinode
    rw [Option.some.inj hinode, show seekOffset x.disk f 3 LSEEK_SET = 3 from rfl]
    refine ⟨?_, ?_, ?_⟩
    · rw [hsize]
      decide
    · rw [horg]
      decide
    · intro n hn
      rw [hbytes] at hn
      change (n + 1) * 512 < 3 at hn
      omega
  have hrun : Relation.ReflTransGen (InsideStep readOnlyOps 0xC0002000#32 fd) x z :=
    (Relation.ReflTransGen.single ⟨.fileSeek 3 LSEEK_SET, hin, hseek⟩).tail ⟨.fileRead 1, trivial, hread⟩
  exact ⟨_, x, z, fd, rfl, hopen, hrun, (read_only_harmless hrun).1⟩

/-- A descriptor for reading is moved behind the end of its file: the file is stretched, and a cluster is taken. -/
theorem read_only_stretches : ∃ y x x' fd, y.disk = smallVolume ∧
    fileOpen y 0xC0002000#32 OPEN_READ openSmall = .ok (fd, x) ∧
    (DescOp.fileSeek 1000 LSEEK_SET).exec readOnlyOps 0xC0002000#32 fd x = .ok x' ∧
    (x.disk.fil 0xC0030000#32).fsize = 4 ∧ (x'.disk.fil 0xC0030000#32).fsize = 1000 ∧
    x.disk.vol.fat 2 = 0x0FFFFFFF ∧ x'.disk.vol.fat 2 = 3 := by
  have heval : (do
      let a ← filesCreate (bootKernel smallImage fortyFrames)
      let fd ← fileOpen ⟨a.2, smallVolume⟩ a.1 OPEN_READ openSmall
      let x' ← (DescOp.fileSeek 1000 LSEEK_SET).exec readOnlyOps a.1 fd.1 fd.2
      return decide (a.1 = 0xC0002000#32 ∧ (fd.2.disk.fil 0xC0030000#32).fsize = 4 ∧
        (x'.disk.fil 0xC0030000#32).fsize = 1000 ∧ fd.2.disk.vol.fat 2 = 0x0FFFFFFF ∧ x'.disk.vol.fat 2 = 3) :
          Res _) = .ok true := by
    decide +kernel
  obtain ⟨⟨a, k⟩, hcreate, heval⟩ := Res.bind_eq_ok.mp heval
  obtain ⟨⟨fd, x⟩, hopen, heval⟩ := Res.bind_eq_ok.mp heval
  obtain ⟨x', hseek, heval⟩ := Res.bind_eq_ok.mp heval
  obtain ⟨rfl, hsize, hsize', hfat, hfat'⟩ := of_decide_eq_true (Except.ok.inj heval)
  exact ⟨_, x, x', fd, rfl, hopen, hseek, hsize, hsize', hfat, hfat'⟩

end Fs
end FreakOS
