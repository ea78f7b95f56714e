import FreakOS.Lib.FueledLoop
import FreakOS.Fs.IoBuffer

/-!
# `sysfile_write`

`sysfile_write` copies a user buffer chunk by chunk into a buffer of the kernel, and hands each chunk to the inode.  It
trusts the count that the inode reports: `stdout_write` takes `copied` by value and reports nothing, and a write that
fails leaves `alen` at what was asked for.

* `Sink`, `sinkOps` — the inodes that can be written to, with what they are handed and what they accept.
* `writeRound`, `sysfileWrite` — the loop.
* `WriteExact` — the call writes the whole buffer, and counts what the inode accepts.
* `WriteMade`, `writeFails` — which writes a call makes, and which of them fail.
-/

namespace FreakOS
namespace Fs

open Lib
open Memory
open Krnl

/-! ### Inodes that are written to -/

/-- FAT files and the console, with a log of the writes of a call. -/
structure Sink where
  fat : FatDisk
  console : List U8
  /-- The bytes that have been handed to an inode. -/
  passed : List U8
  /-- The bytes that an inode has accepted. -/
  accepted : List U8
  /-- A write has failed. -/
  failed : Bool

/-- `stdout_write(inode, buffer, len, copied)`: every byte goes to `consolePutc`.  The caller's count is not written, for
`copied` is no pointer here. -/
def stdoutWrite (buf : List U8) (d : Sink) : (Int × U32) × Sink :=
  ((0, 0), { d with
    console := d.console ++ buf
    passed := d.passed ++ buf
    accepted := d.accepted ++ buf })

/-- `fat_write` of an inode, with the log. -/
def fatSinkWrite (inode : U32) (buf : List U8) (d : Sink) : (Int × U32) × Sink :=
  let out := fatWrite inode buf d.fat
  (out.1, { d with
    fat := out.2
    passed := d.passed ++ buf
    accepted := if out.1.1 = 0 then d.accepted ++ buf.take out.1.2.toNat else d.accepted
    failed := d.failed || decide (out.1.1 ≠ 0) })

/-- `iop_write` of `stdout` and of the FAT files; the other operations are not used here. -/
def sinkOps (stdout : U32) : INodeOps Sink where
  read := fun _ => none
  write := fun inode => some (if inode = stdout then stdoutWrite else fatSinkWrite inode)
  lseek := fun _ => none
  stat := fun _ => none
  sync := fun _ => none

/-! ### The system call -/

/-- The variables of `sysfile_write`, with memory and the inodes. -/
structure WriteState where
  x : FsKernel Sink
  mem : Bytes
  base : U32
  len : U32
  copied : U32

/-- `base += alen, len -= alen, copied += alen;`. -/
def WriteState.advance (alen : U32) (s : WriteState) : WriteState :=
  { s with base := s.base + alen, len := s.len - alen, copied := s.copied + alen }

/-- The first `n` bytes from an address on. -/
def bytesAt (mem : Bytes) (a : U32) (n : Nat) : List U8 := (List.range n).map fun i => mem (byteAddr a i)

/-- One round of the loop of `sysfile_write`. -/
def writeRound (stdout : U32) (mm : MemMap) (files : U32) (fd : Int) (buffer : U32) (s : WriteState) :
    Res (Next WriteState (Int × WriteState)) :=
  if s.len = 0 then .ok (.leave (0, s))
  else
    let want := chunkLen s.len
    let copy := copyFromUser (some mm) s.mem buffer s.base want false
    if !copy.1 then .ok (.leave (-E_INVAL, s))
    else do
      let write ← fileWrite (sinkOps stdout) s.x files fd (bytesAt copy.2 buffer want.toNat)
      let ret := write.1.1
      -- `file_write` writes to `alen` only when it succeeds.
      let alen := if ret = 0 then write.1.2 else want
      let s := { s with mem := copy.2, x := write.2 }
      let s := if alen ≠ 0 then s.advance alen else s
      if ret ≠ 0 ∨ alen = 0 then return .leave (ret, s) else return .again s

/-- `sysfile_write(fd, base, len)`, where `kmalloc` returns `buffer`. -/
def sysfileWrite (stdout : U32) (mm : MemMap) (files : U32) (fd : Int) (buffer : U32) (x : FsKernel Sink) (mem : Bytes)
    (base len : U32) (fuel : Nat) : Res (Option (Int × WriteState)) :=
  let start : WriteState := ⟨x, mem, base, len, 0⟩
  if len = 0 then .ok (some (0, start))
  else do
    let fs ← x.kernel.fileStruct files
    if !fileTestRw fs fd false true then return some (-E_INVAL, start)
    else if buffer = NULL then return some (-E_NOMEM, start)
    else
      let out ← runLoop (writeRound stdout mm files fd buffer) fuel start
      return out.map fun r => (ioResult r.1 r.2.copied, r.2)

/-! ### What the inode gets -/

/-- The volume has room for `len` bytes from the file pointer on, in a file of less than 4 GiB. -/
def VolumeRoom (d : FatDisk) (inode : U32) (len : Nat) : Prop :=
  (d.file inode).fptr + len < 2 ^ 32 ∧ ∀ j, (d.file inode).fptr + len ≤ (d.answer (d.calls + j)).limit

/-- The call writes the whole buffer when nothing hinders it, and returns the number of the bytes accepted. -/
structure WriteExact (stdout : U32) (mm : MemMap) (inode buffer : U32) (d : FatDisk) (mem : Bytes) (base len : U32)
    (r : Int × WriteState) : Prop where
  whole : buffer ≠ NULL → BufferAccepted mm base len false → r.2.x.disk.failed = false →
    (inode ≠ stdout → VolumeRoom d inode len.toNat) →
    r.1 = len.toNat ∧ r.2.x.disk.passed = bytesAt mem base len.toNat
  counted : 0 ≤ r.1 → r.1 = r.2.x.disk.accepted.length

/-! ### Which writes fail -/

/-- The chunk behind the first `c` bytes. -/
def chunkAt (len c : Nat) : Nat := min (len - c) 4096

/-- The size of the file after `c` bytes. -/
def sizeAt (f : FatFile) (c : Nat) : Nat := max f.content.length (f.fptr + c)

/-- What the `j`-th write takes of the chunk behind the first `c` bytes, when it does not fail: nothing of a chunk that
together with the file is too large, and otherwise what the volume has room for. -/
def writeTakes (d : FatDisk) (inode : U32) (len j c : Nat) : Nat :=
  if 2 ^ 32 ≤ sizeAt (d.file inode) c + chunkAt len c then 0
  else min (chunkAt len c) ((d.answer (d.calls + j)).limit - ((d.file inode).fptr + c))

/-- The `j`-th write fails, behind the first `c` bytes. -/
def writeFails (d : FatDisk) (inode : U32) (len j c : Nat) : Bool :=
  (d.file inode).error ||
    (decide (sizeAt (d.file inode) c + chunkAt len c < 2 ^ 32) && (d.answer (d.calls + j)).fails.isSome)

/-- What the first `j` writes take, when they do not fail. -/
def writtenBefore (d : FatDisk) (inode : U32) (len : Nat) : Nat → Nat
  | 0 => 0
  | j + 1 => writtenBefore d inode len j + writeTakes d inode len j (writtenBefore d inode len j)

/-- A call makes the `j`-th write: the writes before it have gone well, and the next chunk is legal. -/
def WriteMade (d : FatDisk) (inode base : U32) (len j : Nat) : Prop :=
  (∀ i, i < j → writeFails d inode len i (writtenBefore d inode len i) = false ∧
    0 < writeTakes d inode len i (writtenBefore d inode len i)) ∧
  writtenBefore d inode len j < len ∧
  writtenBefore d inode len j + chunkAt len (writtenBefore d inode len j) ≤ userRoom base

/-- The calls of `sysfile_write` that write what they should.  On `stdout` these are the calls that write nothing. -/
def WritesClean (stdout : U32) (d : FatDisk) (inode buffer base len : U32) : Prop :=
  len = 0 ∨ buffer = NULL ∨
    if inode = stdout then userRoom base < min len.toNat 4096
    else
      (∀ j, WriteMade d inode base len.toNat j →
        writeFails d inode len.toNat j (writtenBefore d inode len.toNat j) = true →
        2 ^ 31 ≤ writtenBefore d inode len.toNat j + chunkAt len.toNat (writtenBefore d inode len.toNat j)) ∧
      (len.toNat ≤ userRoom base → VolumeRoom d inode len.toNat →
        (∀ j, WriteMade d inode base len.toNat j →
          writeFails d inode len.toNat j (writtenBefore d inode len.toNat j) = false) →
        len.toNat < 2 ^ 31 ∧ (d.file inode).content.length + min len.toNat 4096 < 2 ^ 32)

section Patterns

variable {d : FatDisk} {inode base : U32} {len : Nat}

theorem writtenBefore_mono (d : FatDisk) (inode : U32) (len : Nat) {i j : Nat} (h : i ≤ j) :
    writtenBefore d inode len i ≤ writtenBefore d inode len j := by
  induction h with
  | refl => exact le_rfl
  | step _ ih => exact ih.trans (Nat.le_add_right _ _)

theorem writeTakes_le (d : FatDisk) (inode : U32) (len j c : Nat) : writeTakes d inode len j c ≤ chunkAt len c := by
  unfold writeTakes
  split
  · exact Nat.zero_le _
  · exact Nat.min_le_left _ _

/-- The writes before one that is made are made. -/
theorem WriteMade.of_le {i j : Nat} (h : WriteMade d inode base len j) (hij : i ≤ j) :
    WriteMade d inode base len i := by
  obtain ⟨hgood, hlen, hroom⟩ := h
  have hmono := writtenBefore_mono d inode len hij
  refine ⟨fun k hk => hgood k (hk.trans_le hij), by omega, ?_⟩
  unfold chunkAt at hroom ⊢
  omega

/-- The writes made fail only where the count gets too large to be returned. -/
def FailsUncounted (d : FatDisk) (inode base : U32) (len : Nat) : Prop :=
  ∀ j, WriteMade d inode base len j → writeFails d inode len j (writtenBefore d inode len j) = true →
    2 ^ 31 ≤ writtenBefore d inode len j + chunkAt len (writtenBefore d inode len j)

/-- No write that is made fails. -/
def NoneFails (d : FatDisk) (inode base : U32) (len : Nat) : Prop :=
  ∀ j, WriteMade d inode base len j → writeFails d inode len j (writtenBefore d inode len j) = false

theorem FailsUncounted.of_noneFails (h : NoneFails d inode base len) : FailsUncounted d inode base len := by
  intro j hmade hfails
  rw [h j hmade] at hfails
  cases hfails

variable {j : Nat}

/-- The call ends before the `j`-th write. -/
theorem noneFails_of_not_made
    (hgood : ∀ i, i < j → writeFails d inode len i (writtenBefore d inode len i) = false ∧
      0 < writeTakes d inode len i (writtenBefore d inode len i))
    (hnot : ¬ WriteMade d inode base len j) : NoneFails d inode base len := by
  intro k hmade
  by_cases hk : k < j
  · exact (hgood k hk).1
  · exact absurd (hmade.of_le (by omega)) hnot

/-- The call ends with the `j`-th write, which takes nothing. -/
theorem noneFails_of_takes_zero
    (hgood : ∀ i, i < j → writeFails d inode len i (writtenBefore d inode len i) = false ∧
      0 < writeTakes d inode len i (writtenBefore d inode len i))
    (hfails : writeFails d inode len j (writtenBefore d inode len j) = false)
    (hzero : writeTakes d inode len j (writtenBefore d inode len j) = 0) : NoneFails d inode base len := by
  intro k hmade
  rcases Nat.lt_trichotomy k j with hk | rfl | hk
  · exact (hgood k hk).1
  · exact hfails
  · have := (hmade.1 j hk).2
    omega

/-- The call ends with the `j`-th write, which fails. -/
theorem failsUncounted_of_fails
    (hgood : ∀ i, i < j → writeFails d inode len i (writtenBefore d inode len i) = false ∧
      0 < writeTakes d inode len i (writtenBefore d inode len i))
    (hmade : WriteMade d inode base len j)
    (hfails : writeFails d inode len j (writtenBefore d inode len j) = true) :
    ¬ NoneFails d inode base len ∧ (FailsUncounted d inode base len ↔
      2 ^ 31 ≤ writtenBefore d inode len j + chunkAt len (writtenBefore d inode len j)) := by
  refine ⟨fun hnone => ?_, fun h => h j hmade hfails, fun h k hmade' hfails' => ?_⟩
  · rw [hnone j hmade] at hfails
    cases hfails
  · rcases Nat.lt_trichotomy k j with hk | rfl | hk
    · rw [(hgood k hk).1] at hfails'
      cases hfails'
    · exact h
    · rw [(hmade'.1 j hk).1] at hfails
      cases hfails

end Patterns

/-! ### One inode write -/

/-- `file_write` hands the buffer to the inode, and forwards its count when it reports no error. -/
theorem fileWrite_of_op {σ : Type} {ops : INodeOps σ} {inode : U32} {write : List U8 → σ → (Int × U32) × σ}
    (hop : ops.write inode = some write) {x : FsKernel σ} {files : U32} {fd : Int} {readable : Bool}
    (h : FdOn x.kernel files fd inode readable true) (buf : List U8) :
    ∃ x', x'.disk = (write buf x.disk).2 ∧ FdOn x'.kernel files fd inode readable true ∧
      fileWrite ops x files fd buf = .ok
        (if (write buf x.disk).1.1 = 0 then (0, (write buf x.disk).1.2) else (-FILE_OP_FAILED, 0), x') := by
  obtain ⟨fs, f, hfs, hfind, rfl, hreadable, hwritable⟩ := id h
  have hcall : fileWrite ops x files fd buf =
      if (write buf x.disk).1.1 ≠ 0 then .ok ((-FILE_OP_FAILED, 0), x.setDisk (write buf x.disk).2)
      else
        (x.setDisk (write buf x.disk).2).modifyFile files f.node (advancePos (BitVec.ofNat 32 buf.length)) >>= fun x' =>
          .ok ((0, (write buf x.disk).1.2), x') := by
    unfold fileWrite
    rw [fileStruct_eq_ok.mpr hfs, Res.ok_bind, hfind]
    simp only [hwritable, Bool.not_true, Bool.false_eq_true, if_false, hop]
    rfl
  by_cases hret : (write buf x.disk).1.1 = 0
  · obtain ⟨x', hmodify⟩ := modifyFile_ok (x := x.setDisk (write buf x.disk).2) (by exact hfs) f.node
      (advancePos (BitVec.ofNat 32 buf.length))
    rw [if_neg (not_not.mpr hret), hmodify, Res.ok_bind] at hcall
    refine ⟨x', modifyFile_disk hmodify, h.touched (fileWrite_touched hcall), ?_⟩
    rw [hcall, if_pos hret]
  · rw [if_pos hret] at hcall
    refine ⟨x.setDisk (write buf x.disk).2, rfl, h, ?_⟩
    rw [hcall, if_neg hret]

/-! ### One round -/

section Rounds

variable {stdout : U32} {mm : MemMap} {files inode buffer base len : U32} {fd : Int} {readable : Bool} {mem : Bytes}
  {s : WriteState}

/-- The loop is behind the first `copied` bytes of the user buffer. -/
structure Writing (files : U32) (fd : Int) (inode : U32) (readable : Bool) (mem : Bytes) (base len : U32)
    (s : WriteState) : Prop where
  fd : FdOn s.x.kernel files fd inode readable true
  place : s.base = byteAddr base s.copied.toNat
  left : s.len.toNat + s.copied.toNat = len.toNat
  room : s.copied.toNat ≤ userRoom base
  user : ∀ a, UserByte a → s.mem a = mem a

/-- The operation of the inode. -/
def sinkWrite (stdout inode : U32) : List U8 → Sink → (Int × U32) × Sink :=
  if inode = stdout then stdoutWrite else fatSinkWrite inode

/-- A chunk has been copied into the buffer, and handed to the inode. -/
def WriteState.handed (mem : Bytes) (x : FsKernel Sink) (s : WriteState) : WriteState := { s with mem := mem, x := x }

theorem Writing.handed (h : Writing files fd inode readable mem base len s) {x' : FsKernel Sink}
    (hfd : FdOn x'.kernel files fd inode readable true) {mem' : Bytes} (huser : ∀ a, UserByte a → mem' a = s.mem a) :
    Writing files fd inode readable mem base len (s.handed mem' x') :=
  ⟨hfd, h.place, h.left, h.room, fun a ha => (huser a ha).trans (h.user a ha)⟩

theorem Writing.advance (h : Writing files fd inode readable mem base len s) {n : U32} (hle : n.toNat ≤ s.len.toNat)
    (hroom : s.copied.toNat + n.toNat ≤ userRoom base) :
    (s.advance n).copied.toNat = s.copied.toNat + n.toNat ∧
      Writing files fd inode readable mem base len (s.advance n) := by
  have hlt := len.isLt
  have hleft := h.left
  have hcopied : (s.copied + n).toNat = s.copied.toNat + n.toNat := by
    rw [BitVec.toNat_add]
    omega
  refine ⟨hcopied, h.fd, ?_, ?_, ?_, h.user⟩
  · show s.base + n = byteAddr base (s.copied + n).toNat
    rw [hcopied, ← byteAddr_byteAddr, ← h.place, add_eq_byteAddr]
  · show (s.len - n).toNat + (s.copied + n).toNat = len.toNat
    rw [hcopied, BitVec.toNat_sub_of_le (BitVec.le_def.mpr hle)]
    omega
  · show (s.copied + n).toNat ≤ userRoom base
    rw [hcopied]
    exact hroom

theorem Writing.check (mm : MemMap) (h : Writing files fd inode readable mem base len s) (hlen : s.len ≠ 0) :
    (checkUserMem (some mm) s.base (chunkLen s.len) false).1 = true ↔
      s.copied.toNat + (chunkLen s.len).toNat ≤ userRoom base := by
  have hchunk := chunkLen_toNat s.len
  rw [checkUserMem_chunk mm s.base (chunkLen_pos hlen) (by omega), h.place,
    inUserSpace_byteAddr h.room (chunkLen_pos hlen)]

/-- A chunk that is not legal ends the loop. -/
theorem writeRound_refused (mm : MemMap) (h : Writing files fd inode readable mem base len s) (hlen : s.len ≠ 0)
    (hfull : userRoom base < s.copied.toNat + (chunkLen s.len).toNat) :
    writeRound stdout mm files fd buffer s = .ok (.leave (-E_INVAL, s)) := by
  have hcheck : (checkUserMem (some mm) s.base (chunkLen s.len) false).1 = false := by
    rw [← Bool.not_eq_true, h.check mm hlen]
    omega
  unfold writeRound
  rw [if_neg hlen]
  simp [copyFromUser, hcheck]

/-- A legal chunk is handed to the inode. -/
theorem writeRound_legal (mm : MemMap) (hbuf : KernelBuffer buffer) (h : Writing files fd inode readable mem base len s)
    (hlen : s.len ≠ 0) (hroom : s.copied.toNat + (chunkLen s.len).toNat ≤ userRoom base) {out : (Int × U32) × Sink}
    (hout : out = sinkWrite stdout inode
      (bytesAt mem (byteAddr base s.copied.toNat) (chunkLen s.len).toNat) s.x.disk) :
    ∃ x' mem', x'.disk = out.2 ∧ FdOn x'.kernel files fd inode readable true ∧
      (∀ a, UserByte a → mem' a = s.mem a) ∧
      writeRound stdout mm files fd buffer s = .ok
        (if out.1.1 ≠ 0 then .leave (-FILE_OP_FAILED, (s.handed mem' x').advance (chunkLen s.len))
        else if out.1.2 = 0 then .leave (0, s.handed mem' x')
        else .again ((s.handed mem' x').advance out.1.2)) := by
  have hchunk := chunkLen_toNat s.len
  have hwant : chunkLen s.len ≠ 0 := by
    intro hzero
    have hpos := chunkLen_pos hlen
    rw [hzero] at hpos
    exact absurd hpos (Nat.lt_irrefl 0)
  -- The chunk lies in user space, and the buffer does not.
  have huser : ∀ i, i < (chunkLen s.len).toNat → UserByte (byteAddr s.base i) := by
    intro i hi
    rw [h.place, byteAddr_byteAddr]
    exact (userByte_byteAddr (by omega)).2
  have hsep : ∀ i j, i < (chunkLen s.len).toNat → j < (chunkLen s.len).toNat →
      byteAddr buffer i ≠ byteAddr s.base j :=
    fun i j hi hj => (hbuf.ne_userByte (by omega) (huser j hj)).symm
  have hbytes : bytesAt (memcpy s.mem buffer s.base (chunkLen s.len).toNat) buffer (chunkLen s.len).toNat =
      bytesAt mem (byteAddr base s.copied.toNat) (chunkLen s.len).toNat := by
    refine List.map_congr_left fun i hi => ?_
    have hlt := List.mem_range.mp hi
    rw [memcpy_copied (by omega) hsep hlt, h.user _ (huser i hlt), h.place]
  have hop : (sinkOps stdout).write inode = some (sinkWrite stdout inode) := rfl
  obtain ⟨x', hdisk, hfd, hcall⟩ := fileWrite_of_op hop h.fd
    (bytesAt mem (byteAddr base s.copied.toNat) (chunkLen s.len).toNat)
  rw [← hout] at hdisk hcall
  refine ⟨x', memcpy s.mem buffer s.base (chunkLen s.len).toNat, hdisk, hfd, ?_, ?_⟩
  · intro a ha
    exact memcpy_of_ne fun i hi => hbuf.ne_userByte (by omega) ha
  · have hcode : ¬ -FILE_OP_FAILED = 0 := by decide
    unfold writeRound
    rw [if_neg hlen]
    simp only [copyFromUser, (h.check mm hlen).mpr hroom, Bool.not_true, Bool.false_eq_true, if_false, hbytes, hcall,
      Res.ok_bind]
    by_cases hret : out.1.1 = 0
    · by_cases hcount : out.1.2 = 0
      · simp only [hret, hcount, if_true, ne_eq, not_true_eq_false, if_false, or_true]
        rfl
      · simp only [hret, hcount, if_true, ne_eq, not_true_eq_false, not_false_eq_true, if_false, or_false]
        rfl
    · simp only [hret, hcode, hwant, if_false, ne_eq, not_false_eq_true, if_true, true_or]
      rfl

/-! ### FAT files -/

/-- The file object after `j` writes, which have taken `c` bytes. -/
structure FatAt (d : FatDisk) (inode : U32) (j c : Nat) (e : FatDisk) : Prop where
  error : (e.file inode).error = (d.file inode).error
  pos : (d.file inode).error = false →
    (e.file inode).fptr = (d.file inode).fptr + c ∧ (e.file inode).content.length = sizeAt (d.file inode) c
  answer : e.answer = d.answer
  calls : e.calls = d.calls + j

theorem overwrite_length {content bytes : List U8} {n : Nat} (h : n ≤ content.length) :
    (overwrite content n bytes).length = max content.length (n + bytes.length) := by
  simp only [overwrite, List.length_append, List.length_take, List.length_drop]
  omega

variable {d : FatDisk} {n j c : Nat} {e : Sink} {buf : List U8}

/-- A write that fails. -/
theorem fatSinkWrite_fails (h : FatAt d inode j c e.fat) (hbuf : buf.length = chunkAt n c)
    (hfails : writeFails d inode n j c = true) :
    (fatSinkWrite inode buf e).1.1 ≠ 0 ∧ (fatSinkWrite inode buf e).2.failed = true ∧
      (fatSinkWrite inode buf e).2.accepted = e.accepted := by
  have hcode : (fatWrite inode buf e.fat).1.1 = FR_RW_ERROR := by
    by_cases herror : (d.file inode).error = true
    · simp [fatWrite, h.error.trans herror]
    · have herr : (d.file inode).error = false := by simpa using herror
      obtain ⟨-, hsize⟩ := h.pos herr
      simp only [writeFails, herr, Bool.false_or, Bool.and_eq_true, decide_eq_true_eq, Option.isSome_iff_exists] at hfails
      obtain ⟨hsmall, k, hk⟩ := hfails
      have hnext : e.fat.next.fails = some k := by rw [FatDisk.next, h.answer, h.calls, hk]
      have hroom : ¬ 2 ^ 32 ≤ (e.fat.file inode).content.length + buf.length := by omega
      simp only [fatWrite, h.error, herr, Bool.false_eq_true, if_false, if_neg hroom, hnext]
  refine ⟨?_, ?_, ?_⟩
  · show (fatWrite inode buf e.fat).1.1 ≠ 0
    rw [hcode]
    decide
  · show (e.failed || decide ((fatWrite inode buf e.fat).1.1 ≠ 0)) = true
    rw [hcode]
    simp [FR_RW_ERROR]
  · show (if (fatWrite inode buf e.fat).1.1 = 0 then _ else e.accepted) = e.accepted
    rw [hcode, if_neg (by decide)]

/-- A write that does not fail. -/
structure Took (d : FatDisk) (inode : U32) (n j c : Nat) (buf : List U8) (e : Sink) (out : (Int × U32) × Sink) : Prop where
  code : out.1.1 = 0
  count : out.1.2.toNat = writeTakes d inode n j c
  failed : out.2.failed = e.failed
  passed : out.2.passed = e.passed ++ buf
  accepted : out.2.accepted.length = e.accepted.length + writeTakes d inode n j c
  fat : 0 < writeTakes d inode n j c → FatAt d inode (j + 1) (c + writeTakes d inode n j c) out.2.fat

theorem fatSinkWrite_takes (h : FatAt d inode j c e.fat) (hbuf : buf.length = chunkAt n c)
    (hfails : writeFails d inode n j c = false) : Took d inode n j c buf e (fatSinkWrite inode buf e) := by
  simp only [writeFails, Bool.or_eq_false_iff, Bool.and_eq_false_imp, decide_eq_true_eq,
    Option.isSome_eq_false_iff, Option.isNone_iff_eq_none] at hfails
  obtain ⟨herr, hgood⟩ := hfails
  obtain ⟨hfptr, hsize⟩ := h.pos herr
  have hchunk : chunkAt n c ≤ 4096 := Nat.min_le_right _ _
  by_cases hlarge : 2 ^ 32 ≤ sizeAt (d.file inode) c + chunkAt n c
  · -- The file would get too large.
    have htakes : writeTakes d inode n j c = 0 := by simp only [writeTakes, if_pos hlarge]
    have hwrite : fatWrite inode buf e.fat = ((0, 0), e.fat) := by
      simp only [fatWrite, h.error, herr, Bool.false_eq_true, if_false, hsize, hbuf, if_pos hlarge]
    refine ⟨?_, ?_, ?_, rfl, ?_, fun hpos => by omega⟩
    · show (fatWrite inode buf e.fat).1.1 = 0
      rw [hwrite]
    · show (fatWrite inode buf e.fat).1.2.toNat = _
      rw [hwrite, htakes]
      rfl
    · show (e.failed || decide ((fatWrite inode buf e.fat).1.1 ≠ 0)) = e.failed
      rw [hwrite]
      simp
    · simp [fatSinkWrite, hwrite, htakes]
  · have hnext : e.fat.next = d.answer (d.calls + j) := by rw [FatDisk.next, h.answer, h.calls]
    have hnone := hgood (by omega)
    have htakes : writeTakes d inode n j c =
        (buf.take ((d.answer (d.calls + j)).limit - ((d.file inode).fptr + c))).length := by
      rw [writeTakes, if_neg hlarge, List.length_take, hbuf, Nat.min_comm]
    have hle := writeTakes_le d inode n j c
    have hwrite : fatWrite inode buf e.fat = ((0, BitVec.ofNat 32 (writeTakes d inode n j c)),
        e.fat.put inode { e.fat.file inode with
          content := overwrite (e.fat.file inode).content (e.fat.file inode).fptr
            (buf.take ((d.answer (d.calls + j)).limit - ((d.file inode).fptr + c)))
          fptr := (e.fat.file inode).fptr + writeTakes d inode n j c }) := by
      simp only [fatWrite, h.error, herr, Bool.false_eq_true, if_false, hsize, hbuf, if_neg hlarge, hnext, hnone,
        hfptr, htakes]
    have hcount : (BitVec.ofNat 32 (writeTakes d inode n j c)).toNat = writeTakes d inode n j c := by
      rw [BitVec.toNat_ofNat]
      omega
    refine ⟨?_, ?_, ?_, rfl, ?_, fun _ => ⟨?_, ?_, ?_, ?_⟩⟩
    · show (fatWrite inode buf e.fat).1.1 = 0
      rw [hwrite]
    · show (fatWrite inode buf e.fat).1.2.toNat = _
      rw [hwrite]
      exact hcount
    · show (e.failed || decide ((fatWrite inode buf e.fat).1.1 ≠ 0)) = e.failed
      rw [hwrite]
      simp
    · simp only [fatSinkWrite, hwrite, if_true, hcount, List.length_append, List.length_take, hbuf]
      omega
    · show ((fatWrite inode buf e.fat).2.file inode).error = _
      rw [hwrite]
      simp only [FatDisk.put, Function.update_self]
      exact h.error
    · intro _
      show ((fatWrite inode buf e.fat).2.file inode).fptr = _ ∧
        ((fatWrite inode buf e.fat).2.file inode).content.length = _
      rw [hwrite]
      simp only [FatDisk.put, Function.update_self]
      rw [overwrite_length (by rw [hfptr, hsize]; exact Nat.le_max_right _ _), ← htakes, hsize, hfptr]
      unfold sizeAt
      omega
    · show (fatWrite inode buf e.fat).2.answer = _
      rw [hwrite]
      exact h.answer
    · show (fatWrite inode buf e.fat).2.calls = _
      rw [hwrite]
      show e.fat.calls + 1 = _
      rw [h.calls, Nat.add_assoc]

/-- The condition on the writes to a FAT file. -/
def FatClean (d : FatDisk) (inode base len : U32) : Prop :=
  FailsUncounted d inode base len.toNat ∧
    (len.toNat ≤ userRoom base → VolumeRoom d inode len.toNat → NoneFails d inode base len.toNat →
      len.toNat < 2 ^ 31 ∧ (d.file inode).content.length + min len.toNat 4096 < 2 ^ 32)

/-- The `j` writes so far have taken what has been copied. -/
structure FatLive (files : U32) (fd : Int) (inode : U32) (readable : Bool) (mem : Bytes) (base len : U32) (d : FatDisk)
    (j : Nat) (s : WriteState) : Prop where
  writing : Writing files fd inode readable mem base len s
  copied : s.copied.toNat = writtenBefore d inode len.toNat j
  good : ∀ i, i < j → writeFails d inode len.toNat i (writtenBefore d inode len.toNat i) = false ∧
    0 < writeTakes d inode len.toNat i (writtenBefore d inode len.toNat i)
  fat : FatAt d inode j s.copied.toNat s.x.disk.fat
  accepted : s.x.disk.accepted.length = s.copied.toNat
  failed : s.x.disk.failed = false
  passed : VolumeRoom d inode len.toNat → s.x.disk.passed = bytesAt mem base s.copied.toNat

section FatEnds

variable (hlen0 : len ≠ 0) (h : FatLive files fd inode readable mem base len d j s)

include h

theorem FatLive.chunk : (chunkLen s.len).toNat = chunkAt len.toNat s.copied.toNat := by
  have hleft := h.writing.left
  rw [chunkLen_toNat, chunkAt]
  omega

/-- The next write is made when there is something left to write and the chunk is legal. -/
theorem FatLive.made_iff : WriteMade d inode base len.toNat j ↔
    s.len ≠ 0 ∧ s.copied.toNat + (chunkLen s.len).toNat ≤ userRoom base := by
  have hleft := h.writing.left
  have hlen : s.len ≠ 0 ↔ s.copied.toNat < len.toNat := by
    constructor
    · intro hne
      have : s.len.toNat ≠ 0 := fun h0 => hne (BitVec.eq_of_toNat_eq h0)
      omega
    · intro hlt hzero
      rw [hzero, show (0 : U32).toNat = 0 from rfl] at hleft
      omega
  rw [WriteMade, ← h.copied, ← h.chunk, hlen]
  exact and_iff_right h.good

/-- A write has failed, and the chunk has been counted. -/
theorem FatLive.fails (hlen : s.len ≠ 0) (hroom : s.copied.toNat + (chunkLen s.len).toNat ≤ userRoom base)
    (hfails : writeFails d inode len.toNat j s.copied.toNat = true) {t : WriteState}
    (hcopied : t.copied.toNat = s.copied.toNat + (chunkLen s.len).toNat)
    (haccepted : t.x.disk.accepted = s.x.disk.accepted) (hfailed : t.x.disk.failed = true) :
    WriteExact stdout mm inode buffer d mem base len (ioResult (-FILE_OP_FAILED) t.copied, t) ↔
      FatClean d inode base len := by
  have hmade := h.made_iff.mpr ⟨hlen, hroom⟩
  have hlength := h.accepted
  have hchunk := h.chunk
  have hpos := chunkLen_pos hlen
  rw [h.copied] at hfails hcopied hlength hchunk
  obtain ⟨hnone, huncounted⟩ := failsUncounted_of_fails h.good hmade hfails
  rw [← hchunk] at huncounted
  have hresult := ioResult_cases (-FILE_OP_FAILED) t.copied
  rw [FatClean, huncounted]
  constructor
  · intro hexact
    refine ⟨?_, fun _ _ hnone' => absurd hnone' hnone⟩
    by_contra hsmall
    have hret := hexact.counted (by dsimp only; omega)
    dsimp only at hret
    rw [haccepted] at hret
    omega
  · intro hclean
    refine ⟨fun _ _ hgood => ?_, fun hnonneg => ?_⟩
    · dsimp only at hgood
      rw [hfailed] at hgood
      cases hgood
    · dsimp only at hnonneg
      omega

include hlen0

/-- The chunk is not legal. -/
theorem FatLive.refused (hfull : userRoom base < s.copied.toNat + (chunkLen s.len).toNat) :
    WriteExact stdout mm inode buffer d mem base len (ioResult (-E_INVAL) s.copied, s) ↔ FatClean d inode base len := by
  have hchunk := chunkLen_toNat s.len
  have hleft := h.writing.left
  have hnone : NoneFails d inode base len.toNat :=
    noneFails_of_not_made h.good (by rw [h.made_iff]; omega)
  have hresult := ioResult_cases (-E_INVAL) s.copied
  have hneg : -E_INVAL < 0 := by decide
  have haccepted := h.accepted
  refine ⟨fun _ => ⟨.of_noneFails hnone, fun hroom => by omega⟩, fun _ => ⟨?_, ?_⟩⟩
  · intro _ hlegal
    rw [bufferAccepted_iff mm false hlen0] at hlegal
    omega
  · intro hnonneg
    dsimp only at hnonneg ⊢
    omega

/-- Everything has been written. -/
theorem FatLive.done (hnull : buffer ≠ NULL) (hinode : inode ≠ stdout) (hlen : s.len = 0) :
    WriteExact stdout mm inode buffer d mem base len (ioResult 0 s.copied, s) ↔ FatClean d inode base len := by
  have hleft := h.writing.left
  have hroom := h.writing.room
  rw [hlen, show (0 : U32).toNat = 0 from rfl] at hleft
  have hpos : len.toNat ≠ 0 := fun h0 => hlen0 (BitVec.eq_of_toNat_eq h0)
  have hnone : NoneFails d inode base len.toNat :=
    noneFails_of_not_made h.good (by rw [h.made_iff]; exact fun hmade => hmade.1 hlen)
  have hresult := ioResult_cases 0 s.copied
  have haccepted := h.accepted
  -- The first write was not too large.
  have hsize : (d.file inode).content.length + min len.toNat 4096 < 2 ^ 32 := by
    have hj : 0 < j := by
      by_contra hzero
      have hcopied := h.copied
      rw [show j = 0 by omega, writtenBefore] at hcopied
      omega
    have htakes := (h.good 0 hj).2
    rw [writtenBefore, writeTakes] at htakes
    split at htakes
    · omega
    · rename_i hsmall
      unfold sizeAt chunkAt at hsmall
      omega
  constructor
  · intro hexact
    refine ⟨.of_noneFails hnone, fun _ hvolume _ => ⟨?_, hsize⟩⟩
    have hret := (hexact.whole hnull ((bufferAccepted_iff mm false hlen0).mpr (by omega)) h.failed fun _ => hvolume).1
    dsimp only at hret
    omega
  · intro hclean
    refine ⟨fun _ _ _ hvolume => ?_, fun hnonneg => ?_⟩
    · have hvol := hvolume hinode
      have hsmall := (hclean.2 (by omega) hvol hnone).1
      refine ⟨?_, ?_⟩
      · dsimp only
        omega
      · rw [h.passed hvol, show s.copied.toNat = len.toNat by omega]
    · dsimp only at hnonneg ⊢
      omega

/-- A write has taken nothing. -/
theorem FatLive.stopped (hnull : buffer ≠ NULL) (hinode : inode ≠ stdout) (hlen : s.len ≠ 0)
    (hfails : writeFails d inode len.toNat j s.copied.toNat = false)
    (hzero : writeTakes d inode len.toNat j s.copied.toNat = 0) {t : WriteState} (hcopied : t.copied = s.copied)
    (haccepted : t.x.disk.accepted.length = s.x.disk.accepted.length) (hfailed : t.x.disk.failed = false) :
    WriteExact stdout mm inode buffer d mem base len (ioResult 0 t.copied, t) ↔ FatClean d inode base len := by
  have hleft := h.writing.left
  have hlength := h.accepted
  have hchunk := h.chunk
  have hpos := chunkLen_pos hlen
  have hwant := chunkLen_toNat s.len
  have hnone : NoneFails d inode base len.toNat :=
    noneFails_of_takes_zero h.good (h.copied ▸ hfails) (h.copied ▸ hzero)
  have hresult := ioResult_cases 0 s.copied
  -- With room in the volume, the file is too large for the chunk.
  have hlarge : VolumeRoom d inode len.toNat → 2 ^ 32 ≤ (d.file inode).content.length + min len.toNat 4096 := by
    rintro ⟨hfile, hlimit⟩
    have := hlimit j
    unfold writeTakes at hzero
    split at hzero
    · rename_i hsize
      unfold sizeAt at hsize
      omega
    · omega
  constructor
  · intro hexact
    refine ⟨.of_noneFails hnone, fun hroom hvolume _ => ?_⟩
    have hret := (hexact.whole hnull ((bufferAccepted_iff mm false hlen0).mpr hroom) hfailed fun _ => hvolume).1
    dsimp only at hret
    rw [hcopied] at hret
    omega
  · intro hclean
    refine ⟨fun _ hlegal _ hvolume => ?_, fun hnonneg => ?_⟩
    · have hvol := hvolume hinode
      have := (hclean.2 ((bufferAccepted_iff mm false hlen0).mp hlegal) hvol hnone).2
      have := hlarge hvol
      omega
    · dsimp only at hnonneg ⊢
      rw [hcopied] at hnonneg ⊢
      omega

end FatEnds

theorem bytesAt_append (mem : Bytes) (a : U32) (m n : Nat) :
    bytesAt mem a m ++ bytesAt mem (byteAddr a m) n = bytesAt mem a (m + n) := by
  unfold bytesAt
  rw [List.range_add, List.map_append, List.map_map]
  simp only [Function.comp_def, byteAddr_byteAddr]

/-- A write has taken something. -/
theorem FatLive.next (h : FatLive files fd inode readable mem base len d j s) {out : (Int × U32) × Sink}
    (htook : Took d inode len.toNat j s.copied.toNat
      (bytesAt mem (byteAddr base s.copied.toNat) (chunkLen s.len).toNat) s.x.disk out)
    (hfails : writeFails d inode len.toNat j s.copied.toNat = false) (hpos : 0 < out.1.2.toNat) {t : WriteState}
    (hx : t.x.disk = out.2) (hcopied : t.copied.toNat = s.copied.toNat + out.1.2.toNat)
    (hwriting : Writing files fd inode readable mem base len t) :
    FatLive files fd inode readable mem base len d (j + 1) t := by
  have hcount := htook.count
  have hnext : t.copied.toNat = writtenBefore d inode len.toNat (j + 1) := by
    rw [hcopied, hcount, h.copied]
    rfl
  refine ⟨hwriting, hnext, ?_, ?_, ?_, ?_, ?_⟩
  · intro i hi
    rcases Nat.lt_succ_iff_lt_or_eq.mp hi with hlt | rfl
    · exact h.good i hlt
    · rw [← h.copied]
      exact ⟨hfails, by omega⟩
  · rw [hx, hcopied, hcount]
    exact htook.fat (by omega)
  · rw [hx, htook.accepted, h.accepted, hcopied, hcount]
  · rw [hx, htook.failed, h.failed]
  · rintro hvolume
    -- With room in the volume, the write has taken the whole chunk.
    have hfull : out.1.2.toNat = (chunkLen s.len).toNat := by
      have hleft := h.writing.left
      have hlimit := hvolume.2 j
      have hchunk := h.chunk
      have hle := Nat.min_le_left (len.toNat - s.copied.toNat) 4096
      rw [hcount] at hpos ⊢
      unfold writeTakes at hpos ⊢
      split at hpos
      · omega
      · rename_i hsmall
        rw [if_neg hsmall]
        unfold chunkAt at hchunk ⊢
        omega
    rw [hx, htook.passed, h.passed hvolume, bytesAt_append, hcopied, hfull]

/-- A call that writes to a FAT file. -/
theorem FatLive.returns (mm : MemMap) (hbuf : KernelBuffer buffer) (hlen0 : len ≠ 0) (hnull : buffer ≠ NULL)
    (hinode : inode ≠ stdout) (h : FatLive files fd inode readable mem base len d j s) :
    ∃ r, Returns (writeRound stdout mm files fd buffer) s r ∧
      (WriteExact stdout mm inode buffer d mem base len (ioResult r.1 r.2.copied, r.2) ↔
        FatClean d inode base len) := by
  refine Returns.of_measure (I := fun t => ∃ j, FatLive files fd inode readable mem base len d j t)
    (fun t => t.len.toNat) ?_ ⟨j, h⟩
  rintro t ⟨j, ht⟩
  by_cases hlen : t.len = 0
  · exact Or.inl ⟨(0, t), Returns.of_leave (by simp [writeRound, hlen]), ht.done hlen0 hnull hinode hlen⟩
  · have hchunk := chunkLen_toNat t.len
    by_cases hroom : t.copied.toNat + (chunkLen t.len).toNat ≤ userRoom base
    · obtain ⟨out, hout⟩ : ∃ out, out = fatSinkWrite inode
        (bytesAt mem (byteAddr base t.copied.toNat) (chunkLen t.len).toNat) t.x.disk := ⟨_, rfl⟩
      have hop : sinkWrite stdout inode = fatSinkWrite inode := if_neg hinode
      obtain ⟨x', mem', hx, hfd, huser, hround⟩ := writeRound_legal mm hbuf ht.writing hlen hroom
        (show out = sinkWrite stdout inode _ t.x.disk by rw [hop]; exact hout)
      have hbytes : (bytesAt mem (byteAddr base t.copied.toNat) (chunkLen t.len).toNat).length =
          chunkAt len.toNat t.copied.toNat := by
        rw [bytesAt, List.length_map, List.length_range, ht.chunk]
      have hhanded := ht.writing.handed hfd huser
      have hcopied₀ : (t.handed mem' x').copied = t.copied := rfl
      cases hfails : writeFails d inode len.toNat j t.copied.toNat with
      | true =>
          obtain ⟨hcode, hfailed, haccepted⟩ := fatSinkWrite_fails ht.fat hbytes hfails
          rw [← hout] at hcode hfailed haccepted
          rw [if_pos hcode] at hround
          refine Or.inl ⟨_, Returns.of_leave hround, ht.fails hlen hroom hfails ?_ ?_ ?_⟩
          · exact (hhanded.advance (show (chunkLen t.len).toNat ≤ t.len.toNat by omega) hroom).1
          · exact (congrArg Sink.accepted hx).trans haccepted
          · exact (congrArg Sink.failed hx).trans hfailed
      | false =>
          have htook := fatSinkWrite_takes ht.fat hbytes hfails
          rw [← hout] at htook
          rw [if_neg (not_not.mpr htook.code)] at hround
          by_cases hzero : out.1.2 = 0
          · rw [if_pos hzero] at hround
            have htakes : writeTakes d inode len.toNat j t.copied.toNat = 0 := by
              rw [← htook.count, hzero]
              rfl
            refine Or.inl ⟨_, Returns.of_leave hround, ht.stopped hlen0 hnull hinode hlen hfails htakes rfl ?_ ?_⟩
            · exact (congrArg (fun e => e.accepted.length) hx).trans (htook.accepted.trans (by rw [htakes, Nat.add_zero]))
            · exact (congrArg Sink.failed hx).trans (htook.failed.trans ht.failed)
          · rw [if_neg hzero] at hround
            have hpos := Nat.pos_of_ne_zero fun h0 => hzero (BitVec.eq_of_toNat_eq h0)
            have hle := htook.count.trans_le (writeTakes_le d inode len.toNat j t.copied.toNat)
            rw [← ht.chunk] at hle
            obtain ⟨hcopied, hwriting⟩ := hhanded.advance (show out.1.2.toNat ≤ t.len.toNat by omega)
              (show t.copied.toNat + out.1.2.toNat ≤ userRoom base by omega)
            rw [hcopied₀] at hcopied
            have hleft := hwriting.left
            have hleft' := ht.writing.left
            refine Or.inr ⟨_, hround, ⟨j + 1, ht.next htook hfails hpos hx hcopied hwriting⟩, ?_⟩
            omega
    · refine Or.inl ⟨_, Returns.of_leave (writeRound_refused mm ht.writing hlen (by omega)), ?_⟩
      exact ht.refused hlen0 (Nat.lt_of_not_le hroom)

/-! ### The console -/

/-- The first chunk goes to the console, and the call returns 0. -/
theorem stdout_returns (mm : MemMap) (hbuf : KernelBuffer buffer) (hlen0 : len ≠ 0)
    (h : Writing files fd stdout readable mem base len s) (hcopied : s.copied = 0)
    (hstart : s.x.disk.accepted = []) {d : FatDisk} :
    ∃ r, Returns (writeRound stdout mm files fd buffer) s r ∧
      (WriteExact stdout mm stdout buffer d mem base len (ioResult r.1 r.2.copied, r.2) ↔
        userRoom base < min len.toNat 4096) := by
  have hleft := h.left
  rw [hcopied, show (0 : U32).toNat = 0 from rfl] at hleft
  have hlen : s.len ≠ 0 := fun hzero => hlen0 (BitVec.eq_of_toNat_eq (by rw [← hleft, hzero]; rfl))
  have hchunk := chunkLen_toNat s.len
  have hpos := chunkLen_pos hlen
  have hsum : s.copied.toNat = 0 := by rw [hcopied]; rfl
  by_cases hroom : s.copied.toNat + (chunkLen s.len).toNat ≤ userRoom base
  · obtain ⟨x', mem', hx, hfd, huser, hround⟩ := writeRound_legal mm hbuf h hlen hroom
      (show stdoutWrite (bytesAt mem (byteAddr base s.copied.toNat) (chunkLen s.len).toNat) s.x.disk =
        sinkWrite stdout stdout _ s.x.disk by rw [sinkWrite, if_pos rfl])
    simp only [stdoutWrite, ne_eq, not_true_eq_false, if_false, if_true] at hround
    refine ⟨_, Returns.of_leave hround, ?_⟩
    refine iff_of_false (fun hexact => ?_) (by omega)
    have hcount := hexact.counted (by simp [WriteState.handed, hcopied, ioResult])
    have haccepted : (s.handed mem' x').x.disk.accepted.length = (chunkLen s.len).toNat := by
      show x'.disk.accepted.length = _
      rw [hx]
      simp [stdoutWrite, hstart, bytesAt]
    rw [haccepted] at hcount
    simp only [WriteState.handed, hcopied, ioResult, ne_eq, not_true_eq_false, if_false] at hcount
    omega
  · refine ⟨_, Returns.of_leave (writeRound_refused mm h hlen (Nat.lt_of_not_le hroom)), ?_⟩
    refine iff_of_true ⟨fun _ hlegal => ?_, fun hnonneg => ?_⟩ (by omega)
    · rw [bufferAccepted_iff mm false hlen0] at hlegal
      omega
    · simp only [hcopied, ioResult, ne_eq, not_true_eq_false, if_false] at hnonneg
      exact absurd hnonneg (by decide)

end Rounds

/-! ### Every call -/

/-- The file pointer lies in the file, unless a call has failed. -/
def FatFile.Sound (f : FatFile) : Prop := f.error = false → f.fptr ≤ f.content.length

section Sound

variable {d : FatDisk} {inode : U32}

theorem sound_put {i : U32} {f : FatFile} (h : (d.file i).Sound) (hf : f.Sound) : ((d.put inode f).file i).Sound := by
  unfold FatDisk.put
  by_cases hi : i = inode
  · subst hi
    simpa using hf
  · simpa [hi] using h

/-- Reads, writes and seeks keep it there. -/
theorem fatRead_sound (h : ∀ i, (d.file i).Sound) (len i : U32) : ((fatRead inode len d).2.file i).Sound := by
  unfold fatRead
  dsimp only
  split
  · exact h i
  · split
    · exact sound_put (h i) fun herror => nomatch herror
    · refine sound_put (h i) fun herror => ?_
      have := h inode herror
      simp only [List.length_take, List.length_drop]
      omega

theorem fatWrite_sound (h : ∀ i, (d.file i).Sound) (buf : List U8) (i : U32) :
    ((fatWrite inode buf d).2.file i).Sound := by
  unfold fatWrite
  dsimp only
  split
  · exact h i
  · split
    · exact h i
    · split
      · exact sound_put (h i) fun herror => nomatch herror
      · refine sound_put (h i) fun herror => ?_
        have hfptr := h inode herror
        show _ ≤ (overwrite _ _ _).length
        rw [overwrite_length hfptr]
        exact Nat.le_max_right _ _

theorem fatLseek_sound (h : ∀ i, (d.file i).Sound) (off i : U32) : ((fatLseek inode off d).2.file i).Sound := by
  unfold fatLseek
  dsimp only
  split
  · exact h i
  · split
    · exact sound_put (h i) fun herror => nomatch herror
    · split
      · rename_i hle
        exact sound_put (h i) fun _ => hle
      · refine sound_put (h i) fun _ => ?_
        simp only [List.length_append, List.length_map, List.length_range]
        omega

end Sound

/-- The inodes before the call, without a log. -/
def Sink.start (d : FatDisk) (console : List U8) : Sink := ⟨d, console, [], [], false⟩

/-- `sysfile_write` ends with a result. -/
def SysfileWrite (stdout : U32) (mm : MemMap) (files : U32) (fd : Int) (buffer : U32) (x : FsKernel Sink) (mem : Bytes)
    (base len : U32) (r : Int × WriteState) : Prop :=
  ∃ n, ∀ fuel, n ≤ fuel → sysfileWrite stdout mm files fd buffer x mem base len fuel = .ok (some r)

section Calls

variable {k : Kernel} {d : FatDisk} {console : List U8} {stdout files inode : U32} {fd : Int} {readable : Bool}
  {mm : MemMap} {buffer base len : U32} {mem : Bytes}

theorem SysfileWrite.unique {x : FsKernel Sink} {r r' : Int × WriteState}
    (h : SysfileWrite stdout mm files fd buffer x mem base len r)
    (h' : SysfileWrite stdout mm files fd buffer x mem base len r') : r = r' := by
  obtain ⟨n, hn⟩ := h
  obtain ⟨n', hn'⟩ := h'
  exact Option.some.inj (Except.ok.inj ((hn (max n n') (by omega)).symm.trans (hn' (max n n') (by omega))))

theorem sysfileWrite_of_returns {x : FsKernel Sink} (hfd : FdOn x.kernel files fd inode readable true) (hlen : len ≠ 0)
    (hbuffer : buffer ≠ NULL) {r : Int × WriteState}
    (hret : Returns (writeRound stdout mm files fd buffer) ⟨x, mem, base, len, 0⟩ r) :
    SysfileWrite stdout mm files fd buffer x mem base len (ioResult r.1 r.2.copied, r.2) := by
  obtain ⟨n, hn⟩ := hret
  obtain ⟨fs, f, hfs, hfind, -, -, hwritable⟩ := hfd
  refine ⟨n, fun fuel hfuel => ?_⟩
  have htest : fileTestRw fs fd false true = true := by simp [fileTestRw, hfind, hwritable]
  unfold sysfileWrite
  dsimp only
  rw [if_neg hlen, fileStruct_eq_ok.mpr hfs, Res.ok_bind, htest, if_neg (by simp), if_neg hbuffer, hn fuel hfuel]
  rfl

/-- A call without a length, or without a buffer. -/
theorem sysfileWrite_at_once (mem : Bytes) (hfd : FdOn k files fd inode readable true) (h : len = 0 ∨ buffer = NULL) :
    ∃ r, SysfileWrite stdout mm files fd buffer ⟨k, Sink.start d console⟩ mem base len r ∧
      WriteExact stdout mm inode buffer d mem base len r := by
  by_cases hlen : len = 0
  · refine ⟨(0, ⟨⟨k, Sink.start d console⟩, mem, base, len, 0⟩), ⟨0, fun fuel _ => by simp [sysfileWrite, hlen]⟩, ?_⟩
    subst hlen
    exact ⟨fun _ _ _ _ => ⟨rfl, rfl⟩, fun _ => rfl⟩
  · have hbuffer := h.resolve_left hlen
    obtain ⟨fs, f, hfs, hfind, -, -, hwritable⟩ := hfd
    have htest : fileTestRw fs fd false true = true := by simp [fileTestRw, hfind, hwritable]
    refine ⟨(-E_NOMEM, ⟨⟨k, Sink.start d console⟩, mem, base, len, 0⟩), ⟨0, fun fuel _ => ?_⟩, ?_⟩
    · unfold sysfileWrite
      dsimp only
      rw [if_neg hlen, fileStruct_eq_ok.mpr hfs, Res.ok_bind, htest, if_neg (by simp), if_pos hbuffer]
      rfl
    · have hneg : -E_NOMEM < 0 := by decide
      exact ⟨fun hne => absurd hbuffer hne, fun hnonneg => absurd hneg (not_lt.mpr hnonneg)⟩

theorem writing_start {x : FsKernel Sink} (mem : Bytes) (hfd : FdOn x.kernel files fd inode readable true) :
    Writing files fd inode readable mem base len ⟨x, mem, base, len, 0⟩ :=
  ⟨hfd, (byteAddr_zero base).symm, Nat.add_zero _, Nat.zero_le _, fun _ _ => rfl⟩

theorem fatLive_start (mem : Bytes) (hfd : FdOn k files fd inode readable true) (hsound : (d.file inode).Sound) :
    FatLive files fd inode readable mem base len d 0 ⟨⟨k, Sink.start d console⟩, mem, base, len, 0⟩ where
  writing := writing_start mem hfd
  copied := rfl
  good := fun i hi => absurd hi (Nat.not_lt_zero i)
  fat := ⟨rfl, fun herror => ⟨rfl, (Nat.max_eq_left (hsound herror)).symm⟩, rfl, rfl⟩
  accepted := rfl
  failed := rfl
  passed := fun _ => rfl

end Calls

/-- `sysfile_write` to a FAT file or to `stdout` ends.  It hands the whole buffer to the inode when nothing hinders it,
and returns the number of the bytes that the inode accepts, exactly under the condition `WritesClean`. -/
theorem sysfileWrite_exact_iff {k : Kernel} {files inode : U32} {fd : Int} {readable : Bool}
    (hfd : FdOn k files fd inode readable true) (stdout : U32) {d : FatDisk}
    (hsound : inode ≠ stdout → (d.file inode).Sound) (console : List U8) (mm : MemMap) {buffer : U32}
    (hbuffer : buffer = NULL ∨ KernelBuffer buffer) (mem : Bytes) (base len : U32) :
    (∃ r, SysfileWrite stdout mm files fd buffer ⟨k, Sink.start d console⟩ mem base len r ∧
      WriteExact stdout mm inode buffer d mem base len r) ↔ WritesClean stdout d inode buffer base len := by
  by_cases honce : len = 0 ∨ buffer = NULL
  · exact iff_of_true (sysfileWrite_at_once mem hfd honce) (honce.imp_right Or.inl)
  · push Not at honce
    obtain ⟨hlen, hnull⟩ := honce
    have hbuf := hbuffer.resolve_left hnull
    have hrun : ∃ r, Returns (writeRound stdout mm files fd buffer) ⟨⟨k, Sink.start d console⟩, mem, base, len, 0⟩ r ∧
        (WriteExact stdout mm inode buffer d mem base len (ioResult r.1 r.2.copied, r.2) ↔
          WritesClean stdout d inode buffer base len) := by
      unfold WritesClean
      rw [or_iff_right hlen, or_iff_right hnull]
      by_cases hinode : inode = stdout
      · subst hinode
        rw [if_pos rfl]
        exact stdout_returns mm hbuf hlen (writing_start mem hfd) rfl rfl
      · rw [if_neg hinode]
        exact (fatLive_start mem hfd (hsound hinode)).returns mm hbuf hlen hnull hinode
    obtain ⟨r, hret, hiff⟩ := hrun
    have hcall := sysfileWrite_of_returns hfd hlen hnull hret
    rw [← hiff]
    constructor
    · rintro ⟨r', hcall', hexact⟩
      rwa [hcall'.unique hcall] at hexact
    · exact fun hexact => ⟨_, hcall, hexact⟩

/-! ### A file of four bytes, and the console -/

/-- Five thousand bytes are written over the file and behind it, in two chunks. -/
theorem sysfileWrite_exact_two_chunks : ∃ r,
    SysfileWrite 0xC0040000#32 writablePages 0xC0002000#32 0 smallBuffer
      ⟨oneKernel false true, Sink.start (fourByteDisk none) []⟩ (fun _ => 65) 0x200000#32 5000#32 r ∧
    WriteExact 0xC0040000#32 writablePages 0xC0030000#32 smallBuffer (fourByteDisk none) (fun _ => 65)
      0x200000#32 5000#32 r := by
  refine (sysfileWrite_exact_iff (oneKernel_fdOn false true) 0xC0040000#32 (d := fourByteDisk none)
    (fun _ _ => Nat.zero_le _) [] writablePages (Or.inr smallBuffer_ok) (fun _ => 65) 0x200000#32 5000#32).mpr
    (Or.inr (Or.inr ?_))
  rw [if_neg (by decide)]
  refine ⟨fun j _ hfails => ?_, fun _ _ _ => ⟨by decide, by decide⟩⟩
  simp [writeFails, fourByteDisk] at hfails

/-- A write of four bytes to the console prints them and returns 0.  A write of four bytes to the file, on a device that
fails, returns 4. -/
theorem sysfileWrite_miscounts :
    (∃ r, SysfileWrite 0xC0030000#32 writablePages 0xC0002000#32 0 smallBuffer
        ⟨oneKernel false true, Sink.start (fourByteDisk none) []⟩ (fun _ => 65) 0x200000#32 4#32 r ∧
      r.1 = 0 ∧ r.2.x.disk.console = [65, 65, 65, 65] ∧ r.2.x.disk.accepted = [65, 65, 65, 65] ∧
      ¬ WriteExact 0xC0030000#32 writablePages 0xC0030000#32 smallBuffer (fourByteDisk none) (fun _ => 65)
        0x200000#32 4#32 r) ∧
    ∃ r, SysfileWrite 0xC0040000#32 writablePages 0xC0002000#32 0 smallBuffer
        ⟨oneKernel false true, Sink.start (fourByteDisk (some 0)) []⟩ (fun _ => 65) 0x200000#32 4#32 r ∧
      r.1 = 4 ∧ r.2.x.disk.accepted = [] ∧
      ¬ WriteExact 0xC0040000#32 writablePages 0xC0030000#32 smallBuffer (fourByteDisk (some 0)) (fun _ => 65)
        0x200000#32 4#32 r := by
  have hconsole : ((runLoop (writeRound 0xC0030000#32 writablePages 0xC0002000#32 0 smallBuffer) 1
      ⟨⟨oneKernel false true, Sink.start (fourByteDisk none) []⟩, fun _ => 65, 0x200000#32, 4#32, 0⟩).toOption.bind
        fun out => out.map fun r => (ioResult r.1 r.2.copied, r.2.x.disk.console, r.2.x.disk.accepted)) =
      some (0, [65, 65, 65, 65], [65, 65, 65, 65]) := by
    decide +kernel
  have hfile : ((runLoop (writeRound 0xC0040000#32 writablePages 0xC0002000#32 0 smallBuffer) 1
      ⟨⟨oneKernel false true, Sink.start (fourByteDisk (some 0)) []⟩, fun _ => 65, 0x200000#32, 4#32, 0⟩).toOption.bind
        fun out => out.map fun r => (ioResult r.1 r.2.copied, r.2.x.disk.accepted)) = some (4, []) := by
    decide +kernel
  constructor
  · obtain ⟨out, hout, heval⟩ := Option.bind_eq_some_iff.mp hconsole
    obtain ⟨r, rfl, hr⟩ := Option.map_eq_some_iff.mp heval
    obtain ⟨hret, hr⟩ := Prod.mk.inj hr
    obtain ⟨hprinted, haccepted⟩ := Prod.mk.inj hr
    refine ⟨_, sysfileWrite_of_returns (oneKernel_fdOn false true) (by decide) (by decide)
      (Returns.of_runLoop (Res.toOption_eq_some.mp hout)), hret, hprinted, haccepted, fun hexact => ?_⟩
    have hcount := hexact.counted (le_of_eq hret.symm)
    simp only [hret, haccepted] at hcount
    exact absurd hcount (by decide)
  · obtain ⟨out, hout, heval⟩ := Option.bind_eq_some_iff.mp hfile
    obtain ⟨r, rfl, hr⟩ := Option.map_eq_some_iff.mp heval
    obtain ⟨hret, haccepted⟩ := Prod.mk.inj hr
    refine ⟨_, sysfileWrite_of_returns (oneKernel_fdOn false true) (by decide) (by decide)
      (Returns.of_runLoop (Res.toOption_eq_some.mp hout)), hret, haccepted, fun hexact => ?_⟩
    have hcount := hexact.counted (by dsimp only; omega)
    simp only [hret, haccepted] at hcount
    exact absurd hcount (by decide)

end Fs
end FreakOS
