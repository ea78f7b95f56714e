import FreakOS.Base
import FreakOS.Lib.WriteBackCache

/-!
# The block cache

`bcache.c`: sixteen sector slots, shared by all block devices, between the file systems and the disks.

The devices are outside this file: `Hardware` says which of the requests they serve fail, and `request` is
what a device does with one sector.  A failed request leaves the disk as it is; a failed read may leave
anything in the buffer it was to fill.  The lock around the cache and the messages it prints are not part
of the model (nor is `devid`, which is only printed).

* `bcacheRw`, `diskIOBCache`, `syncAllBcache` — the code.
* `Event`, `logicalOf` — the history of a run, and the content that it gives every sector.
* `lastWritten` — the same in terms of whole requests, for runs in which nothing fails.
-/

namespace FreakOS
namespace Driver

open Lib

/-- `SECTSIZE`. -/
def SECTSIZE : Nat := 512
/-- `N_BCACHE`. -/
def N_BCACHE : Nat := 16

/-- The bytes of one sector. -/
abbrev Sector := Fin SECTSIZE → BitVec 8

/-- A sector of a device: the address of the `BlockDevice_t` and the sector number. -/
abbrev SectorId := U32 × U32

/-- `IO_Type_e`. -/
inductive IOType where
  | ioRead
  | ioWrite
deriving DecidableEq, Repr

/-- `BlockCache_t`. -/
structure BlockCache where
  data : Sector
  dev : U32
  secno : U32
  time : U32
  occupied : Bool
  modified : Bool

/-- What an observer of the cache and the devices sees. -/
inductive Event where
  /-- A write request for a sector was sent to its device. -/
  | issued (sector : SectorId) (data : Sector)
  /-- A write of a sector was answered with success. -/
  | acked (sector : SectorId) (data : Sector)

/-- The cache and the disks.  `served` counts the requests that the devices have handled; `log`, newest
event first, is a history variable that no code reads. -/
structure Sys where
  slots : Fin N_BCACHE → BlockCache
  disk : SectorId → Sector
  served : Nat
  log : List Event

/-- Which requests fail, by their number.  `readFails n` is what a failing read leaves in the buffer. -/
structure Hardware where
  readFails : Nat → Option Sector
  writeFails : Nat → Bool

/-- `initBlockCache`; `data` is what the allocated buffers happen to contain. -/
def initBlockCache (disk : SectorId → Sector) (data : Fin N_BCACHE → Sector) : Sys where
  slots i := ⟨data i, NULL, NULL, 0, false, false⟩
  disk := disk
  served := 0
  log := []

/-- `blockdev->ops.request` for one sector. -/
def request (hw : Hardware) (s : Sys) (io : IOType) (dev secno : U32) (buffer : Sector) :
    Nat × Sector × Sys :=
  match io with
  | .ioRead =>
      match hw.readFails s.served with
      | none => (0, s.disk (dev, secno), { s with served := s.served + 1 })
      | some left => (1, left, { s with served := s.served + 1 })
  | .ioWrite =>
      let s' := { s with served := s.served + 1, log := .issued (dev, secno) buffer :: s.log }
      if hw.writeFails s.served then (1, buffer, s')
      else (0, buffer, { s' with disk := Function.update s.disk (dev, secno) buffer })

/-- `disk_io_direct_oneblock(blockdev, buffer, secno, write)`. -/
def diskIoDirectOneblock (hw : Hardware) (s : Sys) (blockdev : U32) (buffer : Sector) (secno : U32)
    (write : IOType) : Res (Nat × Sector × Sys) :=
  if blockdev = NULL then .error (.panic "blockdev is NULL in disk_io!")
  else
    let (err, buffer', s') := request hw s write blockdev secno buffer
    .ok (if err ≠ 0 then 1 else 0, buffer', s')

/-- The first loop of `bcache_rw`: the slot that is occupied by the sector. -/
def findHit (slots : Fin N_BCACHE → BlockCache) (blockdev secno : U32) : Option (Fin N_BCACHE) :=
  (List.finRange N_BCACHE).find? fun i =>
    (slots i).occupied && decide ((slots i).dev = blockdev) && decide ((slots i).secno = secno)

/-- What the second loop of `bcache_rw` ends with. -/
inductive Scan where
  | free (i : Fin N_BCACHE)
  | victim (max : Fin N_BCACHE)

/-- The second loop of `bcache_rw`, over the remaining slots: stop at one that is not occupied, and
remember the one with the largest time. -/
def scanSlots (slots : Fin N_BCACHE → BlockCache) (max : Fin N_BCACHE) : List (Fin N_BCACHE) → Scan
  | [] => .victim max
  | i :: is =>
      if (slots i).occupied = false then .free i
      else if (slots i).time > (slots max).time then scanSlots slots i is
      else scanSlots slots max is

/-- The loop at `update_time`. -/
def updateTime (slots : Fin N_BCACHE → BlockCache) : Fin N_BCACHE → BlockCache := fun i =>
  if (slots i).occupied then { slots i with time := (slots i).time + 1 } else slots i

/-- The way out of `bcache_rw` through `update_time`, with a write noted in the history. -/
def finishRw (s : Sys) (slots : Fin N_BCACHE → BlockCache) (blockdev secno : U32) (buffer : Sector)
    (write : IOType) : Sys :=
  { s with
    slots := updateTime slots
    log := match write with
      | .ioWrite => .acked (blockdev, secno) buffer :: s.log
      | .ioRead => s.log }

/-- The part of `bcache_rw` that both miss paths share: slot `i` has been given to the sector, and is
loaded from the disk before it is read or written. -/
def loadSlot (hw : Hardware) (s : Sys) (i : Fin N_BCACHE) (blockdev : U32) (buffer : Sector)
    (secno : U32) (write : IOType) : Res (Nat × Sector × Sys) := do
  let slot := s.slots i
  let (err, data, s') ← diskIoDirectOneblock hw s blockdev slot.data secno .ioRead
  if err ≠ 0 then
    return (1, buffer, { s' with slots := Function.update s.slots i { slot with data := data } })
  match write with
  | .ioWrite =>
      let slot' := { slot with data := buffer, modified := true, time := 0 }
      return (0, buffer, finishRw s' (Function.update s.slots i slot') blockdev secno buffer write)
  | .ioRead =>
      let slot' := { slot with data := data, modified := false, time := 0 }
      return (0, data, finishRw s' (Function.update s.slots i slot') blockdev secno buffer write)

/-- `bcache_rw(blockdev, buffer, secno, write)`: the answer, the buffer and the state afterwards. -/
def bcacheRw (hw : Hardware) (s : Sys) (blockdev : U32) (buffer : Sector) (secno : U32)
    (write : IOType) : Res (Nat × Sector × Sys) :=
  match findHit s.slots blockdev secno with
  | some i =>
      match write with
      | .ioWrite =>
          let slot' := { s.slots i with data := buffer, modified := true, time := 0 }
          return (0, buffer, finishRw s (Function.update s.slots i slot') blockdev secno buffer write)
      | .ioRead =>
          let slot' := { s.slots i with time := 0 }
          return (0, (s.slots i).data,
            finishRw s (Function.update s.slots i slot') blockdev secno buffer write)
  | none =>
      match scanSlots s.slots ⟨0, by decide⟩ (List.finRange N_BCACHE) with
      | .free i =>
          let slot' := { s.slots i with occupied := true, secno := secno, dev := blockdev }
          loadSlot hw { s with slots := Function.update s.slots i slot' } i blockdev buffer secno write
      | .victim max => do
          let slot := s.slots max
          let slot' := { slot with time := 0, occupied := true, secno := secno, dev := blockdev }
          if slot.modified then
            let (err, _, s') ← diskIoDirectOneblock hw s slot.dev slot.data slot.secno .ioWrite
            if err ≠ 0 then
              return (1, buffer, s')
            loadSlot hw { s' with slots := Function.update s'.slots max slot' } max blockdev buffer
              secno write
          else
            loadSlot hw { s with slots := Function.update s.slots max slot' } max blockdev buffer
              secno write

/-- `IOrequest_t`, without its buffer. -/
structure IOrequest where
  ioType : IOType
  secno : U32
  nsecs : U32

/-- The loop of `diskIO_BCache`, with `n` sectors to go from number `i` on. -/
def diskIOLoop (hw : Hardware) (blockdev : U32) (req : IOrequest) (s : Sys) (buffer : Nat → Sector)
    (i : Nat) : Nat → Res (Nat × (Nat → Sector) × Sys)
  | 0 => .ok (0, buffer, s)
  | n + 1 => do
      let (err, sector, s') ←
        bcacheRw hw s blockdev (buffer i) (req.secno + BitVec.ofNat 32 i) req.ioType
      if err ≠ 0 then
        return (1, Function.update buffer i sector, s')
      diskIOLoop hw blockdev req s' (Function.update buffer i sector) (i + 1) n

/-- `diskIO_BCache(blockdev, in_req)`; the buffer is a sequence of sectors. -/
def diskIOBCache (hw : Hardware) (s : Sys) (blockdev : U32) (req : IOrequest) (buffer : Nat → Sector) :
    Res (Nat × (Nat → Sector) × Sys) :=
  if blockdev = NULL then .error (.panic "blockdev is NULL in disk_io!")
  else diskIOLoop hw blockdev req s buffer 0 req.nsecs.toNat

/-- The loop of `sync_all_bcache` over the remaining slots. -/
def syncLoop (hw : Hardware) (s : Sys) : List (Fin N_BCACHE) → Res (Nat × Sys)
  | [] => .ok (0, s)
  | i :: is =>
      if (s.slots i).occupied && (s.slots i).modified then do
        let slot := s.slots i
        let (err, _, s') ← diskIoDirectOneblock hw s slot.dev slot.data slot.secno .ioWrite
        if err ≠ 0 then
          return (1, s')
        syncLoop hw s' is
      else syncLoop hw s is

/-- `sync_all_bcache()`. -/
def syncAllBcache (hw : Hardware) (s : Sys) : Res (Nat × Sys) :=
  syncLoop hw s (List.finRange N_BCACHE)

/-! ### Runs and the content they give the disks -/

/-- A call of one of the two functions that other code uses. -/
inductive Call where
  | io (blockdev : U32) (req : IOrequest) (buffer : Nat → Sector)
  | sync

/-- The calls that do not panic at once. -/
def Call.DevOk : Call → Prop
  | .io blockdev _ _ => blockdev ≠ NULL
  | .sync => True

/-- The state after one call. -/
def Call.exec (hw : Hardware) (s : Sys) : Call → Res Sys
  | .io blockdev req buffer => do
      let (_, _, s') ← diskIOBCache hw s blockdev req buffer
      return s'
  | .sync => do
      let (_, s') ← syncAllBcache hw s
      return s'

/-- The state after a sequence of calls, newest first. -/
def execCalls (hw : Hardware) (s : Sys) : List Call → Res Sys
  | [] => .ok s
  | call :: older => do
      let s' ← execCalls hw s older
      call.exec hw s'

/-- The logical content of the sectors: the last write that was answered with success, else what was on the
disk at first. -/
def logicalOf (disk : SectorId → Sector) : List Event → SectorId → Sector
  | [] => disk
  | .acked sector data :: older => Function.update (logicalOf disk older) sector data
  | .issued _ _ :: older => logicalOf disk older

/-- The same for whole requests: the data that the last write request covering the sector has for it. -/
def lastWritten (disk : SectorId → Sector) : List Call → SectorId → Sector
  | [], k => disk k
  | .io blockdev req buffer :: older, k =>
      if req.ioType = .ioWrite ∧ k.1 = blockdev ∧ k.2 - req.secno < req.nsecs then
        buffer (k.2 - req.secno).toNat
      else lastWritten disk older k
  | .sync :: older, k => lastWritten disk older k

end Driver
end FreakOS
