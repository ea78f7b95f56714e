import FreakOS.Fs.FatEntry
import FreakOS.Fs.FatTruncate

/-!
# Reading and writing a FAT file

`fatbase_read`, `fatbase_write`, `fatbase_lseek` and `fatbase_sync` of `fat_base.c`, with the buffer of the file, the sectors
of the volume and the directory entries.

A transfer of a sector may fail, and then moves nothing.  Bytes that a failing `fatbase_read` has moved behind `*br` are left
out.  The FAT and the directories are what `move_window` shows of them, in the window or on the drive.

* `IoVolume`, `FatIo` — `FATBase_SuperBlock` with the sectors of the clusters, and the whole `FATBase_FILE`.
* `ioRead`, `ioWrite`, `ioLseek`, `ioSync` — as in the source.
-/

namespace FreakOS
namespace Fs

open Lib
open Memory
open Fat (clust2sect storeEntry FsType U16)

/-- `FR_INVALID_OBJECT`. -/
def FR_INVALID_OBJECT : Int := 12

/-- `FATBase_SuperBlock`, with the sectors of the clusters. -/
structure IoVolume where
  /-- The FAT, and the state of the device. -/
  vol : FatVolume
  fsType : FsType
  database : U32
  disk : U32 → ByteMap
  /-- The sectors of the directories, as the window and the drive show them. -/
  dir : U32 → ByteMap
  /-- `fs_type` is not `0`. -/
  mounted : Bool
  id : U16

/-- `FATBase_FILE`. -/
structure FatIo extends FatFp where
  /-- `fs` is not `NULL`. -/
  bound : Bool
  id : U16
  sectClust : U8
  currSect : U32
  dirSect : U32
  /-- `dir_ptr`, by its place in the window. -/
  dirPtr : Nat
  buffer : ByteMap

/-- The place of the directory entry. -/
def FatIo.slot (f : FatIo) : U32 × Nat := (f.dirSect, f.dirPtr)

namespace IoVolume

/-- A transfer. -/
def access (v : IoVolume) : Bool × IoVolume :=
  let (ok, vol) := v.vol.access
  (ok, { v with vol := vol })

/-- `fatbase_disk_read(drive, buffer, sect, 1)`. -/
def diskRead (v : IoVolume) (sect : U32) : Option ByteMap × IoVolume :=
  let (ok, v) := v.access
  (if ok then some (v.disk sect) else none, v)

/-- `fatbase_disk_write(drive, buffer, sect, 1)`. -/
def diskWrite (v : IoVolume) (buffer : ByteMap) (sect : U32) : Bool × IoVolume :=
  let (ok, v) := v.access
  if ok then (true, { v with disk := Function.update v.disk sect buffer }) else (false, v)

/-- `fatbase_disk_read(drive, rbuff, sect, n)`: the bytes, unless a transfer fails. -/
def diskReads : Nat → U32 → IoVolume → Option (List U8) × IoVolume
  | 0, _, v => (some [], v)
  | n + 1, sect, v =>
      match v.diskRead sect with
      | (none, v) => (none, v)
      | (some bytes, v) =>
          match diskReads n (sect + 1) v with
          | (none, v) => (none, v)
          | (some rest, v) => (some ((List.range 512).map bytes ++ rest), v)

/-- The first sector of a buffer. -/
def firstSector (data : List U8) : ByteMap := fun i => data.getD i 0

/-- `fatbase_disk_write(drive, wbuff, sect, n)`. -/
def diskWrites : Nat → U32 → List U8 → IoVolume → Bool × IoVolume
  | 0, _, _, v => (true, v)
  | n + 1, sect, data, v =>
      match v.diskWrite (firstSector data) sect with
      | (false, v) => (false, v)
      | (true, v) => diskWrites n (sect + 1) (data.drop 512) v

/-- `clust2sect(fs, clust)`. -/
def sect (v : IoVolume) (clust : U32) : U32 := clust2sect v.vol.maxClust v.vol.sectsClust v.database clust

/-- `get_cluster(fs, clust)`. -/
def getCluster (v : IoVolume) (clust : U32) : U32 × IoVolume :=
  let (next, vol) := v.vol.getCluster clust
  (next, { v with vol := vol })

/-- `create_chain(fs, clust)`. -/
def createChain (v : IoVolume) (clust : U32) : U32 × IoVolume :=
  let (next, vol) := v.vol.createChain clust
  (next, { v with vol := vol })

end IoVolume

/-! ### `fatbase_read` -/

/-- `validate(fs, id)`; `fatbase_disk_status` is always `0`. -/
def validate (f : FatIo) (v : IoVolume) : Bool := f.bound && v.mounted && f.id = v.id

/-- Where the next sector is. -/
inductive NextSect
  | at (sect : U32)
  /-- The disk is full. -/
  | full
  /-- `goto fr_error` or `goto fw_error`. -/
  | failed
deriving DecidableEq, Repr

/-- On the sector boundary, `fatbase_read` goes to the next sector. -/
def nextReadSect (f : FatIo) (v : IoVolume) : NextSect × FatIo × IoVolume :=
  let f := { f with sectClust := f.sectClust - 1 }
  if f.sectClust ≠ 0 then (.at (f.currSect + 1), f, v)
  else
    let (clust, v) := if f.fptr = 0 then (f.orgClust, v) else v.getCluster f.currClust
    if clust < 2 ∨ v.vol.maxClust ≤ clust then (.failed, f, v)
    else (.at (v.sect clust), { f with currClust := clust, sectClust := v.vol.sectsClust }, v)

/-- The buffer is written back if it is dirty. -/
def flush (f : FatIo) (v : IoVolume) : Bool × FatIo × IoVolume :=
  if f.dirty then
    match v.diskWrite f.buffer f.currSect with
    | (false, v) => (false, f, v)
    | (true, v) => (true, { f with dirty := false }, v)
  else (true, f, v)

/-- `cc`: how many sectors are moved directly. -/
def directSects (f : FatIo) (left : Nat) : Nat := min (left / 512) f.sectClust.toNat

/-- `sect_clust` and `curr_sect` after `cc` sectors have been moved directly. -/
def skipSects (f : FatIo) (cc : Nat) : FatIo :=
  { f with sectClust := f.sectClust - BitVec.ofNat 8 (cc - 1), currSect := f.currSect + BitVec.ofNat 32 (cc - 1) }

/-- What comes of a sector boundary. -/
inductive Boundary
  | failed
  | full
  /-- So many bytes are moved directly; those that are read. -/
  | direct (count : Nat) (bytes : List U8)
  /-- The sector is in the buffer. -/
  | buffered
deriving DecidableEq, Repr

/-- `fatbase_read` at a sector: as many sectors as possible are read directly, or one into the buffer. -/
def readSector (f : FatIo) (v : IoVolume) (sect : U32) (btr : Nat) : Boundary × FatIo × IoVolume :=
  let f := { f with currSect := sect }
  if btr / 512 ≠ 0 then
    let cc := directSects f btr
    match v.diskReads cc sect with
    | (none, v) => (.failed, f, v)
    | (some bytes, v) => (.direct (cc * 512) bytes, skipSects f cc, v)
  else
    match v.diskRead sect with
    | (none, v) => (.failed, f, v)
    | (some buffer, v) => (.buffered, { f with buffer := buffer }, v)

/-- `fatbase_read` on a sector boundary. -/
def readBoundary (f : FatIo) (v : IoVolume) (btr : Nat) : Boundary × FatIo × IoVolume :=
  match nextReadSect f v with
  | (.failed, f, v) => (.failed, f, v)
  | (.full, f, v) => (.full, f, v)
  | (.at sect, f, v) =>
      match flush f v with
      | (false, f, v) => (.failed, f, v)
      | (true, f, v) => readSector f v sect btr

/-- `fptr & (SS(fs) - 1)`. -/
def FatIo.inSect (f : FatIo) : Nat := f.fptr.toNat % 512

/-- `fptr` moves on. -/
def FatIo.advance (f : FatIo) (count : Nat) : FatIo := { f with fptr := f.fptr + BitVec.ofNat 32 count }

/-- The bytes that are copied from the buffer, or to it. -/
def FatIo.fraction (f : FatIo) (left : Nat) : Nat := min (512 - f.inSect) left

/-- The loop of `fatbase_read`. -/
def readLoop : Nat → FatIo → IoVolume → Nat → (Int × List U8) × FatIo × IoVolume
  | 0, f, v, _ => ((0, []), f, v)
  | fuel + 1, f, v, btr =>
      if btr = 0 then ((0, []), f, v)
      else
        let (b, f, v) := if f.inSect = 0 then readBoundary f v btr else (.buffered, f, v)
        match b with
        | .failed => ((FR_RW_ERROR, []), { f with error := true }, v)
        | .full => ((FR_RW_ERROR, []), { f with error := true }, v)
        | .direct rcnt bytes =>
            let ((res, rest), f, v) := readLoop fuel (f.advance rcnt) v (btr - rcnt)
            ((res, bytes ++ rest), f, v)
        | .buffered =>
            let rcnt := f.fraction btr
            let bytes := (List.range rcnt).map fun i => f.buffer (f.inSect + i)
            let ((res, rest), f, v) := readLoop fuel (f.advance rcnt) v (btr - rcnt)
            ((res, bytes ++ rest), f, v)

/-- `fatbase_read(fp, buff, btr, &br)`; each round moves a byte at least. -/
def ioRead (f : FatIo) (v : IoVolume) (btr : U32) : (Int × List U8) × FatIo × IoVolume :=
  if !validate f v then ((FR_INVALID_OBJECT, []), f, v)
  else if f.error then ((FR_RW_ERROR, []), f, v)
  else if !f.canRead then ((FR_DENIED, []), f, v)
  else
    let remain := f.fsize - f.fptr
    let btr := if remain < btr then remain else btr
    readLoop (btr.toNat + 1) f v btr.toNat

/-! ### `fatbase_write` -/

/-- On the sector boundary, `fatbase_write` goes to the next sector. -/
def nextWriteSect (f : FatIo) (v : IoVolume) : NextSect × FatIo × IoVolume :=
  let f := { f with sectClust := f.sectClust - 1 }
  if f.sectClust ≠ 0 then (.at (f.currSect + 1), f, v)
  else
    let (clust, f, v) :=
      if f.fptr = 0 then
        if f.orgClust = 0 then
          let (clust, v) := v.createChain 0
          (clust, { f with orgClust := clust }, v)
        else (f.orgClust, f, v)
      else
        let (clust, v) := v.createChain f.currClust
        (clust, f, v)
    if clust = 0 then (.full, f, v)
    else if clust = 1 ∨ v.vol.maxClust ≤ clust then (.failed, f, v)
    else (.at (v.sect clust), { f with currClust := clust, sectClust := v.vol.sectsClust }, v)

/-- `fatbase_write` at a sector: as many sectors as possible are written directly, or one comes into the buffer. -/
def writeSector (f : FatIo) (v : IoVolume) (sect : U32) (data : List U8) : Boundary × FatIo × IoVolume :=
  let f := { f with currSect := sect }
  if data.length / 512 ≠ 0 then
    let cc := directSects f data.length
    match v.diskWrites cc sect data with
    | (false, v) => (.failed, f, v)
    | (true, v) => (.direct (cc * 512) [], skipSects f cc, v)
  else if f.fptr < f.fsize then
    match v.diskRead sect with
    | (none, v) => (.failed, f, v)
    | (some buffer, v) => (.buffered, { f with buffer := buffer }, v)
  else (.buffered, f, v)

/-- `fatbase_write` on a sector boundary. -/
def writeBoundary (f : FatIo) (v : IoVolume) (data : List U8) : Boundary × FatIo × IoVolume :=
  match nextWriteSect f v with
  | (.failed, f, v) => (.failed, f, v)
  | (.full, f, v) => (.full, f, v)
  | (.at sect, f, v) =>
      match flush f v with
      | (false, f, v) => (.failed, f, v)
      | (true, f, v) => writeSector f v sect data

/-- `memcpy(&fp->buffer[ofs], wbuff, wcnt)`. -/
def patch (buffer : ByteMap) (ofs wcnt : Nat) (data : List U8) : ByteMap :=
  fun i => if ofs ≤ i ∧ i < ofs + wcnt then data.getD (i - ofs) 0 else buffer i

/-- The end of `fatbase_write`. -/
def writeDone (f : FatIo) : FatIo := { f with fsize := if f.fsize < f.fptr then f.fptr else f.fsize, written := true }

/-- The loop of `fatbase_write`, with what follows it. -/
def writeLoop : Nat → FatIo → IoVolume → List U8 → (Int × Nat) × FatIo × IoVolume
  | 0, f, v, _ => ((0, 0), writeDone f, v)
  | fuel + 1, f, v, data =>
      if data.length = 0 then ((0, 0), writeDone f, v)
      else
        let (b, f, v) := if f.inSect = 0 then writeBoundary f v data else (.buffered, f, v)
        match b with
        | .failed => ((FR_RW_ERROR, 0), { f with error := true }, v)
        | .full => ((0, 0), writeDone f, v)
        | .direct wcnt _ =>
            let ((res, bw), f, v) := writeLoop fuel (f.advance wcnt) v (data.drop wcnt)
            ((res, wcnt + bw), f, v)
        | .buffered =>
            let wcnt := f.fraction data.length
            let f := { f with buffer := patch f.buffer f.inSect wcnt data, dirty := true }
            let ((res, bw), f, v) := writeLoop fuel (f.advance wcnt) v (data.drop wcnt)
            ((res, wcnt + bw), f, v)

/-- `fatbase_write(fp, buff, btw, &bw)`. -/
def ioWrite (f : FatIo) (v : IoVolume) (data : List U8) : (Int × Nat) × FatIo × IoVolume :=
  if !validate f v then ((FR_INVALID_OBJECT, 0), f, v)
  else if f.error then ((FR_RW_ERROR, 0), f, v)
  else if !f.canWrite then ((FR_DENIED, 0), f, v)
  else if f.fsize + BitVec.ofNat 32 data.length < f.fsize then ((0, 0), f, v)
  else writeLoop (data.length + 1) f v data

/-! ### `fatbase_lseek` -/

/-- The loop of `fatbase_lseek` that skips the leading clusters. -/
def seekLoop : Nat → FatIo → IoVolume → (clust ofs : U32) → SeekEnd × FatIo × IoVolume
  | 0, f, v, _, _ => (.failed, f, v)
  | fuel + 1, f, v, clust, ofs =>
      let f := { f with currClust := clust }
      if ofs ≤ v.vol.clustBytes then (.found clust ofs, f, v)
      else
        let (next, v) := if f.canWrite then v.createChain clust else v.getCluster clust
        if next = 0 then (.found next v.vol.clustBytes, f, v)
        else if next = 1 ∨ v.vol.maxClust ≤ next then (.failed, f, v)
        else seekLoop fuel { f with fptr := f.fptr + v.vol.clustBytes } v next (ofs - v.vol.clustBytes)

/-- The end of `fatbase_lseek`. -/
def ioSeekDone (f : FatIo) : FatIo :=
  if f.canWrite ∧ f.fsize < f.fptr then { f with fsize := f.fptr, written := true } else f

/-- `fatbase_lseek(fp, ofs)` from the start of the chain on. -/
def ioSeekFrom (f : FatIo) (v : IoVolume) (clust ofs : U32) : Int × FatIo × IoVolume :=
  if clust = 0 then (0, ioSeekDone f, v)
  else
    match seekLoop (ofs.toNat + 1) f v clust ofs with
    | (.failed, f, v) => (FR_RW_ERROR, { f with error := true }, v)
    | (.found clust ofs, f, v) =>
        let csect : U8 := ((ofs - 1) / SECTOR_SIZE).setWidth 8
        let f := { f with currSect := v.sect clust + csect.setWidth 32 }
        let (ok, f, v) :=
          if ofs.toNat % 512 ≠ 0 then
            match v.diskRead f.currSect with
            | (none, v) => (false, f, v)
            | (some buffer, v) => (true, { f with buffer := buffer }, v)
          else (true, f, v)
        if !ok then (FR_RW_ERROR, { f with error := true }, v)
        else (0, ioSeekDone { f with sectClust := v.vol.sectsClust - csect, fptr := f.fptr + ofs }, v)

/-- `fatbase_lseek(fp, ofs)` after the dirty buffer has been written back. -/
def ioSeekClean (f : FatIo) (v : IoVolume) (ofs : U32) : Int × FatIo × IoVolume :=
  let ofs := if f.fsize < ofs ∧ !f.canWrite then f.fsize else ofs
  let f := { f with fptr := 0, sectClust := 1 }
  if ofs = 0 then (0, ioSeekDone f, v)
  else if f.orgClust = 0 then
    let (clust, v) := v.createChain 0
    if clust = 1 then (FR_RW_ERROR, { f with error := true }, v) else ioSeekFrom { f with orgClust := clust } v clust ofs
  else ioSeekFrom f v f.orgClust ofs

/-- `fatbase_lseek(fp, ofs)`. -/
def ioLseek (f : FatIo) (v : IoVolume) (ofs : U32) : Int × FatIo × IoVolume :=
  if !validate f v then (FR_INVALID_OBJECT, f, v)
  else if f.error then (FR_RW_ERROR, f, v)
  else
    match flush f v with
    | (false, f, v) => (FR_RW_ERROR, { f with error := true }, v)
    | (true, f, v) => ioSeekClean f v ofs

/-! ### `fatbase_sync` -/

/-- `sync(fs)`; whether the FSInfo sector gets to the drive is not looked at. -/
def IoVolume.sync (v : IoVolume) : Int × IoVolume :=
  let (ok, v) := v.access
  if !ok then (FR_RW_ERROR, v)
  else if v.fsType = .fat32 ∧ v.vol.fsiFlag then
    let (_, v) := v.access
    (0, { v with vol := { v.vol with fsiFlag := false } })
  else (0, v)

/-- `fatbase_sync(fp)` from the directory entry on. -/
def ioSyncEntry (f : FatIo) (v : IoVolume) : Int × FatIo × IoVolume :=
  let (ok, v) := v.access
  if !ok then (FR_RW_ERROR, f, v)
  else
    let win := storeEntry (v.dir f.dirSect) f.dirPtr f.fsize f.orgClust
    let (res, v) := { v with dir := Function.update v.dir f.dirSect win }.sync
    (res, { f with written := false }, v)

/-- `fatbase_sync(fp)`. -/
def ioSync (f : FatIo) (v : IoVolume) : Int × FatIo × IoVolume :=
  if !validate f v then (FR_INVALID_OBJECT, f, v)
  else if f.written then
    match flush f v with
    | (false, f, v) => (FR_RW_ERROR, f, v)
    | (true, f, v) => ioSyncEntry f v
  else (0, f, v)

end Fs
end FreakOS
