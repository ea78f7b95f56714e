import FreakOS.Lib.FueledLoop
import FreakOS.Memory.UserStore
import FreakOS.Fs.IoBuffer

/-!
# `sysfile_read`

`sysfile_read` reads a FAT file chunk by chunk into a buffer of the kernel, and copies each chunk to the user.  A read
that fails leaves `alen` at what was asked for, a chunk that lies outside user space is given up, and a page of the user
that is missing is a page fault in the kernel.

* `filePlaced` — what a read leaves in the buffer, whether it fails or not.
* `readRound`, `sysfileRead` — the loop, with the bytes that the inode has given.
* `ReadExact` — the user gets what the inode gave.
* `ReadsFit`, `ReadsRefused` — the patterns of failing reads on which this is so, as far as the pages of the user go.
* `readRound_guarded` — the loop goes as if no store met a page fault that stops the machine, up to the first one that does.
-/

namespace FreakOS
namespace Fs

open Lib
open Memory
open Krnl

/-! ### The system call -/

/-- What `fat_read` puts into the buffer, also when it fails on the way. -/
def fatPlaced (inode len : U32) (d : FatDisk) : List U8 :=
  let f := d.file inode
  if f.error then []
  else
    let bytes := (f.content.drop f.fptr).take len.toNat
    match d.next.fails with
    | some n => bytes.take n
    | none => bytes

/-- What `file_read` puts into the buffer. -/
def filePlaced (x : FsKernel FatDisk) (files : U32) (fd : Int) (blen : U32) : List U8 :=
  match (x.kernel.files files).bind fun fs => findFileWithFd fs fd with
  | none => []
  | some file => if file.readable then fatPlaced file.inode blen x.disk else []

/-- The variables of `sysfile_read`, with memory and the file systems. -/
structure ReadState where
  x : FsKernel FatDisk
  mem : Bytes
  base : U32
  len : U32
  copied : U32
  /-- The bytes that the inode reads have given. -/
  produced : List U8
  /-- The number of inode reads. -/
  reads : Nat

/-- `file_read` has put bytes into the buffer, and has returned `bytes`. -/
def ReadState.fetch (buffer : U32) (placed bytes : List U8) (x : FsKernel FatDisk) (s : ReadState) : ReadState :=
  { s with
    x := x
    mem := storeBytes s.mem buffer placed
    produced := s.produced ++ bytes
    reads := s.reads + 1 }

/-- `if (copyToUser(mm, base, buffer, alen)) { base += alen, len -= alen, copied += alen; }`. -/
def ReadState.deliver (u : UserSpace) (buffer alen : U32) (s : ReadState) : Res ReadState := do
  let out ← u.copyToUser s.mem s.base buffer alen
  if out.1 then return { s with mem := out.2, base := s.base + alen, len := s.len - alen, copied := s.copied + alen }
  else return s

/-- One round of the loop of `sysfile_read`. -/
def readRound (u : UserSpace) (files : U32) (fd : Int) (buffer : U32) (s : ReadState) :
    Res (Next ReadState (Int × ReadState)) :=
  if s.len = 0 then .ok (.leave (0, s))
  else do
    let want := chunkLen s.len
    let read ← fileRead fatOps s.x files fd want
    let ret := read.1.1
    -- `file_read` writes to `alen` only when it succeeds.
    let alen := if ret = 0 then BitVec.ofNat 32 read.1.2.length else want
    let s := s.fetch buffer (filePlaced s.x files fd want) read.1.2 read.2
    let s ← if alen ≠ 0 then s.deliver u buffer alen else pure s
    if ret ≠ 0 ∨ alen = 0 then return .leave (ret, s) else return .again s

/-- `sysfile_read(fd, base, len)`, where `kmalloc` returns `buffer`. -/
def sysfileRead (u : UserSpace) (files : U32) (fd : Int) (buffer : U32) (x : FsKernel FatDisk) (mem : Bytes)
    (base len : U32) (fuel : Nat) : Res (Option (Int × ReadState)) :=
  let start : ReadState := ⟨x, mem, base, len, 0, [], 0⟩
  if len = 0 then .ok (some (0, start))
  else do
    let fs ← x.kernel.fileStruct files
    if !fileTestRw fs fd true false then return some (-E_INVAL, start)
    else if buffer = NULL then return some (-E_NOMEM, start)
    else
      let out ← runLoop (readRound u files fd buffer) fuel start
      return out.map fun r => (ioResult r.1 r.2.copied, r.2)

/-! ### What the user gets -/

/-- What is left of the file. -/
def restBytes (d : FatDisk) (inode : U32) : List U8 := (d.file inode).content.drop (d.file inode).fptr

/-- The call has returned the bytes that the inode gave, or an error and nothing. -/
structure ReadExact (mm : MemMap) (inode buffer : U32) (d : FatDisk) (mem : Bytes) (base len : U32)
    (r : Int × ReadState) : Prop where
  delivered : 0 ≤ r.1 → r.1 = r.2.produced.length ∧ HoldsBytes r.2.mem base r.2.produced ∧
    SameOutside mem r.2.mem base r.2.produced.length
  refused : r.1 < 0 → SameOutside mem r.2.mem base 0
  whole : buffer ≠ NULL → (∀ j, j < r.2.reads → callFails d inode j = false) → UserMemOk mm base len true →
    r.1 = min len.toNat (restBytes d inode).length
  illegal : len ≠ 0 → ¬ UserMemOk mm base (chunkLen len) true → r.1 < 0

/-! ### Patterns of failing reads -/

/-- The reads of a call that does not meet a failing one: up to the last chunk, or to the end of the file. -/
def readCount (len rest : Nat) : Nat := if len ≤ rest then (len + 4095) / 4096 else (rest + 4095) / 4096 + 1

/-- The first of `n` reads that fails. -/
def firstFailure (fails : Nat → Bool) (n : Nat) : Option Nat := (List.range n).find? fails

/-- The number of bytes that is read before a read fails, or before the call ends. -/
def readsGiven (fails : Nat → Bool) (len rest : Nat) : Nat :=
  match firstFailure fails (readCount len rest) with
  | none => min len rest
  | some q => min (4096 * q) (min len rest)

/-- What is read before a read fails has room in the user buffer, and the chunk of the read that fails has not. -/
def ReadsFit (fails : Nat → Bool) (copied len rest room : Nat) : Prop :=
  match firstFailure fails (readCount len rest) with
  | none => copied + min len rest ≤ room ∧ copied + min len rest < 2 ^ 31
  | some q =>
      copied + min (4096 * q) (min len rest) ≤ room ∧ copied + min (4096 * q) (min len rest) < 2 ^ 31 ∧
        room < copied + min len (min (4096 * q) (min len rest) + 4096)

/-- A read fails before the file is so short that the rest of it has room in the user buffer. -/
def ReadsRefused (fails : Nat → Bool) (want rest room : Nat) : Prop :=
  ∃ q, fails q = true ∧ (q = 0 ∨ (q - 1) * want + room < rest)

theorem firstFailure_succ (fails : Nat → Bool) (n : Nat) :
    firstFailure fails (n + 1) =
      if fails 0 then some 0 else (firstFailure (fun j => fails (j + 1)) n).map (· + 1) := by
  unfold firstFailure
  rw [List.range_succ_eq_map, List.find?_cons, List.find?_map]
  cases h : fails 0
  · rfl
  · rfl

section Patterns

variable {fails : Nat → Bool} {copied len rest room : Nat}

theorem readCount_zero (rest : Nat) : readCount 0 rest = 0 := by simp [readCount]

theorem readsGiven_done (rest : Nat) : readsGiven fails 0 rest = 0 := by
  simp [readsGiven, readCount_zero, firstFailure]

theorem readsGiven_end (len : Nat) : readsGiven fails len 0 = 0 := by
  unfold readsGiven
  split
  · exact Nat.min_zero len
  · omega

theorem readsFit_done : ReadsFit fails copied 0 rest room ↔ copied ≤ room ∧ copied < 2 ^ 31 := by
  simp [ReadsFit, readCount_zero, firstFailure]

/-- A call has to read, as long as there are bytes to read. -/
theorem readCount_eq_succ (rest : Nat) (hlen : 0 < len) : ∃ n, readCount len rest = n + 1 := by
  refine ⟨readCount len rest - 1, ?_⟩
  unfold readCount
  split <;> omega

theorem readsFit_failing (hlen : 0 < len) (hfail : fails 0 = true) :
    ReadsFit fails copied len rest room ↔
      copied ≤ room ∧ copied < 2 ^ 31 ∧ room < copied + min len 4096 := by
  obtain ⟨n, hn⟩ := readCount_eq_succ rest hlen
  simp [ReadsFit, hn, firstFailure_succ, hfail]

theorem readsGiven_failing (hlen : 0 < len) (hfail : fails 0 = true) : readsGiven fails len rest = 0 := by
  obtain ⟨n, hn⟩ := readCount_eq_succ rest hlen
  simp [readsGiven, hn, firstFailure_succ, hfail]

theorem readsFit_end (hlen : 0 < len) (hgood : fails 0 = false) :
    ReadsFit fails copied len 0 room ↔ copied ≤ room ∧ copied < 2 ^ 31 := by
  have hcount : readCount len 0 = 0 + 1 := by
    unfold readCount
    rw [if_neg (by omega)]
  simp [ReadsFit, hcount, firstFailure, List.range_succ, hgood]

/-- One read gives `m` bytes, and the others are those of a shorter call. -/
theorem readCount_next {m : Nat} (hm : m = min (min len 4096) rest) (hpos : 0 < m) :
    readCount len rest = readCount (len - m) (rest - m) + 1 := by
  unfold readCount
  split <;> split <;> omega

theorem readsGiven_next (hgood : fails 0 = false) {m : Nat} (hm : m = min (min len 4096) rest) (hpos : 0 < m) :
    readsGiven fails len rest = m + readsGiven (fun j => fails (j + 1)) (len - m) (rest - m) := by
  unfold readsGiven
  rw [readCount_next hm hpos, firstFailure_succ, hgood]
  cases firstFailure (fun j => fails (j + 1)) (readCount (len - m) (rest - m)) with
  | none =>
      change min len rest = m + min (len - m) (rest - m)
      omega
  | some q =>
      change min (4096 * (q + 1)) (min len rest) = m + min (4096 * q) (min (len - m) (rest - m))
      omega

/-- The next read gives `m` bytes. -/
theorem readsFit_next (hgood : fails 0 = false) {m : Nat} (hm : m = min (min len 4096) rest) (hpos : 0 < m) :
    ReadsFit fails copied len rest room ↔
      ReadsFit (fun j => fails (j + 1)) (copied + m) (len - m) (rest - m) room := by
  have hmin : min len rest = m + min (len - m) (rest - m) := by omega
  unfold ReadsFit
  rw [readCount_next hm hpos, firstFailure_succ, hgood]
  cases firstFailure (fun j => fails (j + 1)) (readCount (len - m) (rest - m)) with
  | none =>
      change (_ ∧ _) ↔ (_ ∧ _)
      rw [hmin, Nat.add_assoc]
  | some q =>
      change (_ ∧ _ ∧ _) ↔ (_ ∧ _ ∧ _)
      -- What is read until the failing read is the chunk of `m` bytes, and what is read after it.
      have hgiven : min (4096 * (q + 1)) (min len rest) = m + min (4096 * q) (min (len - m) (rest - m)) := by omega
      rw [hgiven]
      omega

theorem readsFit_room (h : ReadsFit fails copied len rest room) (hgood : fails 0 = false) {m : Nat}
    (hm : m = min (min len 4096) rest) (hpos : 0 < m) : copied + m ≤ room := by
  rw [readsFit_next hgood hm hpos] at h
  unfold ReadsFit at h
  split at h
  · omega
  · omega

end Patterns

section Refused

variable {fails : Nat → Bool} {want rest room : Nat}

theorem readsRefused_failing (hfail : fails 0 = true) : ReadsRefused fails want rest room := ⟨0, hfail, Or.inl rfl⟩

/-- The rest of the file has room in the user buffer. -/
theorem not_readsRefused (hgood : fails 0 = false) (hroom : rest ≤ room) : ¬ ReadsRefused fails want rest room := by
  rintro ⟨q, hq, hzero | hlt⟩
  · rw [hzero, hgood] at hq
    cases hq
  · omega

/-- The next read gives `m` bytes, and the user has no room for them. -/
theorem readsRefused_next (hgood : fails 0 = false) {m : Nat} (hm : m = min want rest) (hfull : room < m) :
    ReadsRefused fails want rest room ↔ ReadsRefused (fun j => fails (j + 1)) want (rest - m) room := by
  constructor
  · rintro ⟨q, hq, hlt⟩
    cases q with
    | zero =>
        rw [hgood] at hq
        cases hq
    | succ q =>
        refine ⟨q, hq, ?_⟩
        cases q with
        | zero => exact Or.inl rfl
        | succ q =>
            have hmul : (q + 1) * want = q * want + want := Nat.succ_mul q want
            simp only [Nat.add_sub_cancel, hmul] at hlt ⊢
            omega
  · rintro ⟨q, hq, hlt⟩
    refine ⟨q + 1, hq, Or.inr ?_⟩
    cases q with
    | zero =>
        simp only [Nat.add_sub_cancel, Nat.zero_mul]
        omega
    | succ q =>
        have hmul : (q + 1) * want = q * want + want := Nat.succ_mul q want
        simp only [Nat.add_sub_cancel, hmul] at hlt ⊢
        omega

end Refused

/-! ### One inode read -/

theorem fatPlaced_length (inode len : U32) (d : FatDisk) : (fatPlaced inode len d).length ≤ len.toNat := by
  unfold fatPlaced
  dsimp only
  split
  · exact Nat.zero_le _
  · split
    · simp only [List.length_take]
      omega
    · simp only [List.length_take]
      omega

theorem filePlaced_length (x : FsKernel FatDisk) (files : U32) (fd : Int) (blen : U32) :
    (filePlaced x files fd blen).length ≤ blen.toNat := by
  unfold filePlaced
  split
  · exact Nat.zero_le _
  · split
    · exact fatPlaced_length _ _ _
    · exact Nat.zero_le _

/-- A read of a FAT file. -/
inductive FatReadEnd (x : FsKernel FatDisk) (files : U32) (fd : Int) (inode want : U32) (writable : Bool) : Prop
  | failed (x' : FsKernel FatDisk) (hfails : callFails x.disk inode 0 = true)
      (hcall : fileRead fatOps x files fd want = .ok ((-FILE_OP_FAILED, []), x'))
      (hfd : FdOn x'.kernel files fd inode true writable)
  | given (x' : FsKernel FatDisk) (bytes : List U8) (hgood : callFails x.disk inode 0 = false)
      (hbytes : bytes = (restBytes x.disk inode).take want.toNat)
      (hcall : fileRead fatOps x files fd want = .ok ((0, bytes), x'))
      (hplaced : filePlaced x files fd want = bytes)
      (hfd : FdOn x'.kernel files fd inode true writable)
      (hnext : ∀ j, callFails x'.disk inode j = callFails x.disk inode (j + 1))
      (hrest : restBytes x'.disk inode = (restBytes x.disk inode).drop bytes.length)

theorem fileRead_fat {x : FsKernel FatDisk} {files inode : U32} {fd : Int} {writable : Bool}
    (h : FdOn x.kernel files fd inode true writable) (want : U32) : FatReadEnd x files fd inode want writable := by
  obtain ⟨fs, f, hfs, hfind, rfl, hreadable, -⟩ := id h
  have hcall : fileRead fatOps x files fd want =
      if (fatRead f.inode want x.disk).1.1 ≠ 0 then
        .ok ((-FILE_OP_FAILED, []), x.setDisk (fatRead f.inode want x.disk).2)
      else
        (x.setDisk (fatRead f.inode want x.disk).2).modifyFile files f.node (advancePos want) >>= fun x' =>
          .ok ((0, (fatRead f.inode want x.disk).1.2), x') := by
    unfold fileRead
    rw [fileStruct_eq_ok.mpr hfs, Res.ok_bind, hfind]
    simp only [hreadable, Bool.not_true, Bool.false_eq_true, if_false]
    rfl
  by_cases herror : (x.disk.file f.inode).error = true
  · refine .failed (x.setDisk (fatRead f.inode want x.disk).2) (by simp [callFails, herror]) ?_ h
    rw [hcall, if_pos (by simp [fatRead, herror, FR_RW_ERROR])]
  · have herr : (x.disk.file f.inode).error = false := by simpa using herror
    cases hfails : x.disk.next.fails with
    | some n =>
        refine .failed (x.setDisk (fatRead f.inode want x.disk).2) ?_ ?_ h
        · simp only [callFails, Nat.add_zero]
          rw [show x.disk.answer x.disk.calls = x.disk.next from rfl, hfails]
          simp
        · rw [hcall, if_pos (by simp [fatRead, herr, hfails, FR_RW_ERROR])]
    | none =>
        have hread : fatRead f.inode want x.disk =
            ((0, (restBytes x.disk f.inode).take want.toNat), x.disk.put f.inode { x.disk.file f.inode with
              fptr := (x.disk.file f.inode).fptr + ((restBytes x.disk f.inode).take want.toNat).length }) := by
          simp [fatRead, herr, hfails, restBytes]
        rw [if_neg (by rw [hread]; simp)] at hcall
        obtain ⟨x', hmodify⟩ := modifyFile_ok (x := x.setDisk (fatRead f.inode want x.disk).2) (by exact hfs) f.node
          (advancePos want)
        have hdisk := modifyFile_disk hmodify
        rw [hmodify, Res.ok_bind] at hcall
        rw [hread] at hcall hdisk
        refine .given x' _ ?_ rfl hcall ?_ (h.touched (fileRead_touched hcall)) ?_ ?_
        · simp only [callFails, Nat.add_zero]
          rw [show x.disk.answer x.disk.calls = x.disk.next from rfl, hfails, herr]
          rfl
        · unfold filePlaced
          rw [hfs, Option.bind_some, hfind]
          simp [hreadable, fatPlaced, herr, hfails, restBytes]
        · intro j
          rw [hdisk]
          simp only [callFails, FsKernel.setDisk, FatDisk.put, Function.update_self]
          rw [Nat.add_assoc, Nat.add_comm 1 j]
        · rw [hdisk]
          simp only [restBytes, FsKernel.setDisk, FatDisk.put, Function.update_self, List.drop_drop]

/-! ### One round -/

namespace ReadState

variable (mm : MemMap) (buffer n : U32) (s : ReadState)

/-- What `deliver` leaves when every store lands. -/
def landed : ReadState :=
  let out := copyToUser (some mm) s.mem s.base buffer n
  if out.1 then { s with mem := out.2, base := s.base + n, len := s.len - n, copied := s.copied + n } else s

@[simp] theorem landed_x : (s.landed mm buffer n).x = s.x := by
  unfold landed
  dsimp only
  split <;> rfl

@[simp] theorem landed_produced : (s.landed mm buffer n).produced = s.produced := by
  unfold landed
  dsimp only
  split <;> rfl

@[simp] theorem landed_reads : (s.landed mm buffer n).reads = s.reads := by
  unfold landed
  dsimp only
  split <;> rfl

variable {u : UserSpace} {buffer n s}

/-- A chunk that the check refuses is not stored. -/
theorem deliver_refused (h : (checkUserMem (some u.mm) s.base n true).1 = false) : s.deliver u buffer n = .ok s := by
  simp [deliver, UserSpace.copyToUser, h, pure, Except.pure]

theorem deliver_lands (h : u.StoresLand s.base n.toNat) :
    s.deliver u buffer n = .ok (s.landed u.mm buffer n) := by
  cases hcheck : (checkUserMem (some u.mm) s.base n true).1 with
  | false =>
      rw [deliver_refused hcheck]
      simp [landed, Memory.copyToUser, hcheck]
  | true =>
      simp [deliver, landed, UserSpace.copyToUser, Memory.copyToUser, hcheck, UserSpace.memcpy_lands h, pure,
        Except.pure]

theorem deliver_stops (hcheck : (checkUserMem (some u.mm) s.base n true).1 = true) {i : Nat} (hi : i < n.toNat)
    (h : u.lands (byteAddr s.base i) = false) : ∃ e, s.deliver u buffer n = .error e := by
  unfold deliver UserSpace.copyToUser
  rw [hcheck, if_neg (by decide), UserSpace.memcpy_stops hi h]
  exact ⟨_, rfl⟩

end ReadState

section Rounds

variable {u : UserSpace} {files inode buffer base len : U32} {fd : Int} {writable : Bool} {s : ReadState}

/-- The outcomes of a round that reads. -/
inductive RoundEnd (files : U32) (fd : Int) (inode buffer : U32) (writable : Bool) (s : ReadState) : Prop
  | failed (x' : FsKernel FatDisk) (hfails : callFails s.x.disk inode 0 = true)
      (hfd : FdOn x'.kernel files fd inode true writable)
      (hround : ∀ u, readRound u files fd buffer s =
        (s.fetch buffer (filePlaced s.x files fd (chunkLen s.len)) [] x').deliver u buffer (chunkLen s.len) >>=
          fun t => .ok (.leave (-FILE_OP_FAILED, t)))
  | ended (x' : FsKernel FatDisk) (hgood : callFails s.x.disk inode 0 = false) (hrest : restBytes s.x.disk inode = [])
      (hfd : FdOn x'.kernel files fd inode true writable)
      (hround : ∀ u, readRound u files fd buffer s = .ok (.leave (0, s.fetch buffer [] [] x')))
  | given (x' : FsKernel FatDisk) (bytes : List U8) (hgood : callFails s.x.disk inode 0 = false)
      (hbytes : bytes = (restBytes s.x.disk inode).take (min s.len.toNat 4096)) (hpos : 0 < bytes.length)
      (hfd : FdOn x'.kernel files fd inode true writable)
      (hnext : ∀ j, callFails x'.disk inode j = callFails s.x.disk inode (j + 1))
      (hrest : restBytes x'.disk inode = (restBytes s.x.disk inode).drop bytes.length)
      (hround : ∀ u, readRound u files fd buffer s =
        (s.fetch buffer bytes bytes x').deliver u buffer (BitVec.ofNat 32 bytes.length) >>= fun t => .ok (.again t))

theorem readRound_cases (buffer : U32) (h : FdOn s.x.kernel files fd inode true writable) (hlen : s.len ≠ 0) :
    RoundEnd files fd inode buffer writable s := by
  have hlenPos : 0 < s.len.toNat := Nat.pos_of_ne_zero (fun h0 => hlen (BitVec.eq_of_toNat_eq h0))
  have hchunk := chunkLen_toNat s.len
  have hwant : chunkLen s.len ≠ 0 := by
    intro hzero
    rw [hzero] at hchunk
    change 0 = _ at hchunk
    omega
  cases fileRead_fat h (chunkLen s.len) with
  | failed x' hfails hcall hfd =>
      refine .failed x' hfails hfd fun u => ?_
      unfold readRound
      dsimp only
      rw [if_neg hlen, hcall, Res.ok_bind]
      have hcode : ¬ -FILE_OP_FAILED = 0 := by decide
      simp only [hcode, if_false, ne_eq, hwant, not_false_eq_true, if_true, true_or]
      rfl
  | given x' bytes hgood hbytes hcall hplaced hfd hnext hrest =>
      rw [hchunk] at hbytes
      have hround : ∀ u, readRound u files fd buffer s =
          if BitVec.ofNat 32 bytes.length = 0 then .ok (.leave (0, s.fetch buffer bytes bytes x'))
          else (s.fetch buffer bytes bytes x').deliver u buffer (BitVec.ofNat 32 bytes.length) >>=
            fun t => .ok (.again t) := by
        intro u
        unfold readRound
        dsimp only
        rw [if_neg hlen, hcall, Res.ok_bind, hplaced]
        by_cases hzero : BitVec.ofNat 32 bytes.length = 0
        · simp [hzero, pure, Except.pure]
        · simp only [if_true, ne_eq, hzero, not_false_eq_true, not_true_eq_false, false_or, if_false]
          rfl
      have hle : bytes.length ≤ 4096 := by
        rw [hbytes, List.length_take]
        omega
      cases bytes with
      | nil =>
          refine .ended x' hgood ?_ hfd hround
          have := congrArg List.length hbytes
          rw [List.length_take, List.length_nil] at this
          exact List.length_eq_zero_iff.mp (by omega)
      | cons b bytes =>
          refine .given x' (b :: bytes) hgood hbytes (Nat.succ_pos _) hfd hnext hrest fun u => ?_
          rw [hround, if_neg]
          intro hzero
          have := congrArg BitVec.toNat hzero
          rw [BitVec.toNat_ofNat] at this
          change _ = 0 at this
          rw [List.length_cons] at this hle
          omega

/-- The loop has copied a part of the buffer, and goes on behind it. -/
structure Copying (files : U32) (fd : Int) (inode : U32) (writable : Bool) (base len : U32) (s : ReadState) : Prop where
  fd : FdOn s.x.kernel files fd inode true writable
  place : s.base = byteAddr base s.copied.toNat
  left : s.len.toNat + s.copied.toNat = len.toNat
  room : s.copied.toNat ≤ userRoom base

/-- A chunk has been copied. -/
structure Delivered (buffer base : U32) (n : Nat) (s s' : ReadState) : Prop where
  room : s.copied.toNat + n ≤ userRoom base
  copied : s'.copied.toNat = s.copied.toNat + n
  bytes : ∀ i, i < n → s'.mem (byteAddr base (s.copied.toNat + i)) = s.mem (byteAddr buffer i)
  same : ∀ a, UserByte a → (∀ i, i < n → a ≠ byteAddr base (s.copied.toNat + i)) → s'.mem a = s.mem a

/-- The user takes the chunk, or has no room for it. -/
theorem Copying.landed (mm : MemMap) (hbuf : KernelBuffer buffer)
    (h : Copying files fd inode writable base len s) {n : U32} (hpos : 0 < n.toNat) (hle : n.toNat ≤ 4096)
    (hlen : n.toNat ≤ s.len.toNat) :
    (Delivered buffer base n.toNat s (s.landed mm buffer n) ∧
      Copying files fd inode writable base len (s.landed mm buffer n) ∧
      (checkUserMem (some mm) s.base n true).1 = true) ∨
    (userRoom base < s.copied.toNat + n.toNat ∧ s.landed mm buffer n = s ∧
      (checkUserMem (some mm) s.base n true).1 = false) := by
  have hcheck : (checkUserMem (some mm) s.base n true).1 = true ↔ s.copied.toNat + n.toNat ≤ userRoom base := by
    rw [checkUserMem_chunk mm s.base hpos hle, h.place, inUserSpace_byteAddr h.room hpos]
  by_cases hroom : s.copied.toNat + n.toNat ≤ userRoom base
  · have hdeliver : s.landed mm buffer n = { s with
        mem := memcpy s.mem s.base buffer n.toNat
        base := s.base + n
        len := s.len - n
        copied := s.copied + n } := by
      simp [ReadState.landed, copyToUser, hcheck.mpr hroom]
    have hlenLt := len.isLt
    have hsum := h.left
    have hcopied : (s.copied + n).toNat = s.copied.toNat + n.toNat := by
      rw [BitVec.toNat_add]
      omega
    -- The chunk lies in user space, and the buffer does not.
    have hsep : ∀ i j, i < n.toNat → j < n.toNat → byteAddr s.base i ≠ byteAddr buffer j := by
      intro i j hi hj
      rw [h.place, byteAddr_byteAddr]
      exact hbuf.ne_userByte (by omega) (userByte_byteAddr (by omega)).2
    rw [hdeliver]
    refine Or.inl ⟨⟨hroom, hcopied, ?_, ?_⟩, ⟨h.fd, ?_, ?_, ?_⟩, hcheck.mpr hroom⟩
    · intro i hi
      rw [← byteAddr_byteAddr, ← h.place]
      exact memcpy_copied (by omega) hsep hi
    · intro a _ hout
      refine memcpy_of_ne fun i hi => ?_
      rw [h.place, byteAddr_byteAddr]
      exact hout i hi
    · show s.base + n = byteAddr base (s.copied + n).toNat
      rw [hcopied, ← byteAddr_byteAddr, ← h.place, add_eq_byteAddr]
    · show (s.len - n).toNat + (s.copied + n).toNat = len.toNat
      rw [hcopied, BitVec.toNat_sub_of_le (BitVec.le_def.mpr hlen)]
      omega
    · show (s.copied + n).toNat ≤ userRoom base
      omega
  · have hrefused : (checkUserMem (some mm) s.base n true).1 = false := by
      rw [← Bool.not_eq_true, hcheck]
      exact hroom
    refine Or.inr ⟨by omega, ?_, hrefused⟩
    simp [ReadState.landed, copyToUser, hrefused]

/-- The buffer is no user memory. -/
theorem fetch_mem (hbuf : KernelBuffer buffer) {placed bytes : List U8} (hplaced : placed.length ≤ 4096)
    (x' : FsKernel FatDisk) {a : U32} (ha : UserByte a) : (s.fetch buffer placed bytes x').mem a = s.mem a :=
  storeBytes_of_ne fun _ hi => hbuf.ne_userByte (by omega) ha

/-- Different bytes of the buffer that the user has room for. -/
theorem byteAddr_ne {i j : Nat} (hne : i ≠ j) (hi : i < userRoom base) (hj : j < userRoom base) :
    byteAddr base i ≠ byteAddr base j := by
  intro heq
  have hti := (userByte_byteAddr hi).1
  have htj := (userByte_byteAddr hj).1
  rw [heq, htj] at hti
  omega

theorem Copying.fetch (h : Copying files fd inode writable base len s) (buffer : U32) {x' : FsKernel FatDisk}
    (hfd : FdOn x'.kernel files fd inode true writable) (placed bytes : List U8) :
    Copying files fd inode writable base len (s.fetch buffer placed bytes x') := ⟨hfd, h.place, h.left, h.room⟩

/-- The length of a chunk that a read has given. -/
theorem given_length {bytes rest : List U8} {n : Nat} (hbytes : bytes = rest.take (min n 4096)) :
    bytes.length = min (min n 4096) rest.length ∧ (BitVec.ofNat 32 bytes.length).toNat = bytes.length := by
  have hlen : bytes.length = min (min n 4096) rest.length := by rw [hbytes, List.length_take]
  refine ⟨hlen, ?_⟩
  rw [BitVec.toNat_ofNat]
  omega

/-! ### After the first byte -/

/-- A part of the buffer has been copied; its first byte is `b`. -/
structure Begun (files : U32) (fd : Int) (inode : U32) (writable : Bool) (base len : U32) (b : U8) (s : ReadState) :
    Prop where
  copying : Copying files fd inode writable base len s
  pos : 0 < s.copied.toNat
  first : s.mem base = b

variable {b : U8}

theorem Begun.fetch (hbuf : KernelBuffer buffer) (h : Begun files fd inode writable base len b s)
    {x' : FsKernel FatDisk} (hfd : FdOn x'.kernel files fd inode true writable) {placed : List U8}
    (hplaced : placed.length ≤ 4096) (bytes : List U8) :
    Begun files fd inode writable base len b (s.fetch buffer placed bytes x') := by
  refine ⟨h.copying.fetch buffer hfd _ _, h.pos, ?_⟩
  have huser : UserByte (byteAddr base 0) := (userByte_byteAddr (h.pos.trans_le h.copying.room)).2
  rw [byteAddr_zero] at huser
  rw [fetch_mem hbuf hplaced x' huser, h.first]

theorem Begun.landed (mm : MemMap) (hbuf : KernelBuffer buffer) (h : Begun files fd inode writable base len b s)
    {n : U32} (hpos : 0 < n.toNat) (hle : n.toNat ≤ 4096) (hlen : n.toNat ≤ s.len.toNat) :
    Begun files fd inode writable base len b (s.landed mm buffer n) := by
  rcases h.copying.landed mm hbuf hpos hle hlen with ⟨hdone, hcopying, -⟩ | ⟨-, hsame, -⟩
  · have hroom := hdone.room
    have hstart := h.pos
    have huser := (userByte_byteAddr (show 0 < userRoom base by omega)).2
    refine ⟨hcopying, by rw [hdone.copied]; omega, ?_⟩
    rw [← byteAddr_zero base, hdone.same _ huser, byteAddr_zero, h.first]
    intro i hi
    exact byteAddr_ne (by omega) (by omega) (by omega)
  · rw [hsame]
    exact h

/-- Once a part is copied, the call ends with a part of the buffer, whatever the reads do. -/
theorem Begun.returns (hall : ∀ va, u.lands va = true) (hbuf : KernelBuffer buffer)
    (h : Begun files fd inode writable base len b s) :
    ∃ r, Returns (readRound u files fd buffer) s r ∧ Begun files fd inode writable base len b r.2 ∧
      s.produced.length ≤ r.2.produced.length := by
  refine Returns.of_measure (I := fun t => Begun files fd inode writable base len b t ∧
    s.produced.length ≤ t.produced.length) (fun t => (restBytes t.x.disk inode).length) ?_ ⟨h, le_rfl⟩
  intro t ⟨ht, hle⟩
  by_cases hlen : t.len = 0
  · exact Or.inl ⟨(0, t), Returns.of_leave (by simp [readRound, hlen]), ht, hle⟩
  · have hchunk := chunkLen_toNat t.len
    cases readRound_cases buffer ht.copying.fd hlen with
    | failed x' hfails hfd hround =>
        have hplaced := filePlaced_length t.x files fd (chunkLen t.len)
        have hround := hround u
        rw [ReadState.deliver_lands fun _ _ => hall _, Res.ok_bind] at hround
        refine Or.inl ⟨_, Returns.of_leave hround, ?_, ?_⟩
        · exact (ht.fetch hbuf hfd (by omega) _).landed u.mm hbuf (chunkLen_pos hlen) (by omega)
            (show (chunkLen t.len).toNat ≤ t.len.toNat by omega)
        · simpa [ReadState.fetch] using hle
    | ended x' hgood hrest hfd hround =>
        refine Or.inl ⟨_, Returns.of_leave (hround u), ?_, ?_⟩
        · exact ht.fetch hbuf hfd (Nat.zero_le _) _
        · simpa [ReadState.fetch] using hle
    | given x' bytes hgood hbytes hpos hfd hnext hrest hround =>
        obtain ⟨hbytesLen, hword⟩ := given_length hbytes
        have hround := hround u
        rw [ReadState.deliver_lands fun _ _ => hall _, Res.ok_bind] at hround
        refine Or.inr ⟨_, hround, ⟨?_, ?_⟩, ?_⟩
        · exact (ht.fetch hbuf hfd (by omega) _).landed u.mm hbuf (by omega) (by omega)
            (show _ ≤ t.len.toNat by omega)
        · simp only [ReadState.landed_produced, ReadState.fetch, List.length_append]
          omega
        · simp only [ReadState.landed_x, ReadState.fetch, hrest, List.length_drop]
          omega

/-! ### A buffer whose first chunk lies in user space -/

/-- The bytes that the inode has given are in the user buffer. -/
structure Taken (mem : Bytes) (base : U32) (s : ReadState) : Prop where
  length : s.produced.length = s.copied.toNat
  held : HoldsBytes s.mem base s.produced
  same : SameOutside mem s.mem base s.produced.length

variable {mem : Bytes}

/-- A read that gives nothing writes to no user byte. -/
theorem Taken.fetch_nil (hbuf : KernelBuffer buffer) (h : Taken mem base s) (hroom : s.copied.toNat ≤ userRoom base)
    (x' : FsKernel FatDisk) {placed : List U8} (hplaced : placed.length ≤ 4096) :
    Taken mem base (s.fetch buffer placed [] x') := by
  have hproduced : (s.fetch buffer placed [] x').produced = s.produced := List.append_nil _
  have hlength := h.length
  refine ⟨?_, ?_, ?_⟩
  · rw [hproduced]
    exact h.length
  · rw [hproduced]
    intro i hi
    rw [fetch_mem hbuf hplaced x' (userByte_byteAddr (by omega)).2]
    exact h.held i hi
  · rw [hproduced]
    intro a ha hout
    rw [fetch_mem hbuf hplaced x' ha]
    exact h.same a ha hout

/-- A chunk that the inode has given, and that is delivered, adds to them. -/
theorem Taken.deliver (hbuf : KernelBuffer buffer) (h : Taken mem base s) {x' : FsKernel FatDisk} {bytes : List U8}
    (hle : bytes.length ≤ 4096) {s' : ReadState} (hproduced : s'.produced = s.produced ++ bytes)
    (hdone : Delivered buffer base bytes.length (s.fetch buffer bytes bytes x') s') : Taken mem base s' := by
  have hlength := h.length
  have hcopied : (s.fetch buffer bytes bytes x').copied.toNat = s.copied.toNat := rfl
  have hroom := hdone.room
  rw [hcopied] at hroom
  have hnew : s'.produced.length = s.produced.length + bytes.length := by rw [hproduced, List.length_append]
  refine ⟨?_, ?_, ?_⟩
  · rw [hnew, hdone.copied, hcopied]
    omega
  · intro i hi
    rw [hnew] at hi
    by_cases hold : i < s.produced.length
    · rw [hdone.same _ (userByte_byteAddr (by omega)).2, fetch_mem hbuf hle x' (userByte_byteAddr (by omega)).2,
        h.held i hold]
      · simp [hproduced, hold]
      · intro j hj
        exact byteAddr_ne (by omega) (by omega) (by omega)
    · obtain ⟨j, rfl⟩ : ∃ j, i = s.copied.toNat + j := ⟨i - s.copied.toNat, by omega⟩
      have hj : j < bytes.length := by omega
      have hbytes := hdone.bytes j hj
      rw [hcopied] at hbytes
      rw [hbytes]
      refine (storeBytes_holds (by omega) j hj).trans ?_
      simp [hproduced, ← hlength]
  · intro a ha hout
    rw [hnew] at hout
    rw [hdone.same a ha, fetch_mem hbuf hle x' ha]
    · exact h.same a ha fun i hi => hout i (by omega)
    · intro i hi
      exact hout _ (by omega)

/-- What `sysfile_read` returns after the loop. -/
def readResult (r : Int × ReadState) : Int := ioResult r.1 r.2.copied

theorem readResult_eq (r : Int × ReadState) :
    (r.2.copied.toNat = 0 ∧ readResult r = r.1) ∨
    (0 < r.2.copied.toNat ∧ r.2.copied.toNat < 2 ^ 31 ∧ readResult r = r.2.copied.toNat) ∨
    (2 ^ 31 ≤ r.2.copied.toNat ∧ readResult r < 0) := ioResult_cases r.1 r.2.copied

/-- The result is not what was promised: another number than that of the bytes given, or an error although the first
of them has been copied. -/
def Spoilt (base : U32) (b : U8) (r : Int × ReadState) : Prop :=
  if 0 ≤ readResult r then readResult r ≠ r.2.produced.length else UserByte base ∧ r.2.mem base = b

/-- The bytes that the reads of the call give. -/
def givenAtStart (d : FatDisk) (inode len : U32) : Nat :=
  readsGiven (callFails d inode) len.toNat (restBytes d inode).length

/-- The condition on the reads, as it stands at the beginning. -/
def FitsAtStart (d : FatDisk) (inode base len : U32) : Prop :=
  ReadsFit (callFails d inode) 0 len.toNat (restBytes d inode).length (userRoom base)

/-- The end of a call whose first chunk lies in user space, when all stores land. -/
structure FittingEnd (mm : MemMap) (inode buffer : U32) (d : FatDisk) (mem : Bytes) (base len : U32)
    (r : Int × ReadState) : Prop where
  fits : FitsAtStart d inode base len → 0 ≤ readResult r ∧ r.2.copied.toNat = givenAtStart d inode len ∧
    (UserMemOk mm base (chunkLen len) true → ReadExact mm inode buffer d mem base len (readResult r, r.2))
  spoilt : ¬ FitsAtStart d inode base len → Spoilt base ((restBytes d inode).headD 0) r

/-- No chunk has been given up, and no read has failed. -/
structure Live (files : U32) (fd : Int) (inode : U32) (writable : Bool) (d : FatDisk) (mem : Bytes) (base len : U32)
    (s : ReadState) : Prop where
  copying : Copying files fd inode writable base len s
  taken : Taken mem base s
  produced : s.produced = (restBytes d inode).take s.copied.toNat
  rest : restBytes s.x.disk inode = (restBytes d inode).drop s.copied.toNat
  fails : ∀ j, callFails s.x.disk inode j = callFails d inode (s.reads + j)
  fits : FitsAtStart d inode base len ↔ ReadsFit (callFails s.x.disk inode) s.copied.toNat s.len.toNat
    (restBytes s.x.disk inode).length (userRoom base)
  given : givenAtStart d inode len =
    s.copied.toNat + readsGiven (callFails s.x.disk inode) s.len.toNat (restBytes s.x.disk inode).length

variable {d : FatDisk}

/-- The call ends with what it has copied. -/
theorem Taken.readExact (h : Taken mem base s) (hsmall : s.copied.toNat < 2 ^ 31) {code : Int} (hcode : code ≤ 0)
    (hwhole : buffer ≠ NULL → (∀ j, j < s.reads → callFails d inode j = false) →
      code = 0 ∧ s.copied.toNat = min len.toNat (restBytes d inode).length)
    (hlegal : UserMemOk mm base (chunkLen len) true) :
    ReadExact mm inode buffer d mem base len (readResult (code, s), s) := by
  have hlength := h.length
  have hresult := readResult_eq (code, s)
  dsimp only at hresult
  refine ⟨?_, ?_, ?_, ?_⟩
  · intro hnonneg
    exact ⟨by rw [hlength]; omega, h.held, h.same⟩
  · intro hneg
    have hzero : s.produced.length = 0 := by omega
    exact hzero ▸ h.same
  · intro hbuf hgood _
    obtain ⟨rfl, hcopied⟩ := hwhole hbuf hgood
    show readResult (0, s) = _
    omega
  · exact fun _ hillegal => absurd hlegal hillegal

/-- The first byte of the file is the first byte of the user buffer. -/
theorem Live.begun (h : Live files fd inode writable d mem base len s) (hpos : 0 < s.copied.toNat) :
    Begun files fd inode writable base len ((restBytes d inode).headD 0) s := by
  refine ⟨h.copying, hpos, ?_⟩
  have hlength := h.taken.length
  have hheld := h.taken.held 0 (by omega)
  rw [byteAddr_zero] at hheld
  rw [hheld]
  have hproduced := h.produced
  cases hrest : restBytes d inode with
  | nil =>
      rw [hrest, List.take_nil] at hproduced
      rw [hproduced] at hlength
      simp at hlength
      omega
  | cons b rest =>
      rw [hrest] at hproduced
      obtain ⟨n, hn⟩ : ∃ n, s.copied.toNat = n + 1 := ⟨s.copied.toNat - 1, by omega⟩
      simp [hproduced, hn]

theorem userByte_base (h : 0 < userRoom base) : UserByte base := by
  have := (userByte_byteAddr h).2
  rwa [byteAddr_zero] at this

/-- More than `INT32_MAX` bytes have been copied, and they are the bytes that have been given. -/
theorem Begun.spoilt (h : Begun files fd inode writable base len b s) {code : Int}
    (hwrong : s.copied.toNat < 2 ^ 31 → s.copied.toNat ≠ s.produced.length) : Spoilt base b (code, s) := by
  have hpos := h.pos
  have hroom := h.copying.room
  have hresult := readResult_eq (code, s)
  dsimp only at hresult
  unfold Spoilt
  split
  · rename_i hnonneg
    show readResult (code, s) ≠ s.produced.length
    have := hwrong (by omega)
    omega
  · exact ⟨userByte_base (by omega), h.first⟩

/-- Another number of bytes has been copied than has been given. -/
theorem spoilt_of_ne (hpos : 0 < s.copied.toNat) (hsmall : s.copied.toNat < 2 ^ 31)
    (hne : s.copied.toNat ≠ s.produced.length) {code : Int} : Spoilt base b (code, s) := by
  have hresult := readResult_eq (code, s)
  dsimp only at hresult
  unfold Spoilt
  rw [if_pos (by omega)]
  show readResult (code, s) ≠ s.produced.length
  omega

/-- The call ends with the bytes that have been given. -/
theorem Taken.fittingEnd (h : Taken mem base s)
    (hbegun : 0 < s.copied.toNat → Begun files fd inode writable base len ((restBytes d inode).headD 0) s)
    (hfits : FitsAtStart d inode base len ↔ s.copied.toNat < 2 ^ 31) (hgiven : givenAtStart d inode len = s.copied.toNat)
    {code : Int} (hcode : code ≤ 0) (hsome : FitsAtStart d inode base len → code = 0 ∨ 0 < s.copied.toNat)
    (hwhole : (∀ j, j < s.reads → callFails d inode j = false) →
      code = 0 ∧ s.copied.toNat = min len.toNat (restBytes d inode).length) :
    FittingEnd mm inode buffer d mem base len (code, s) where
  fits := by
    intro hF
    have hsmall := hfits.mp hF
    have hresult := readResult_eq (code, s)
    dsimp only at hresult
    refine ⟨?_, hgiven.symm, h.readExact hsmall hcode fun _ => hwhole⟩
    rcases hsome hF with rfl | hpos
    · omega
    · omega
  spoilt := by
    intro hF
    have hmany := mt hfits.mpr hF
    exact (hbegun (by omega)).spoilt fun hsmall => absurd hsmall hmany

section LiveRounds

variable (mm : MemMap) (hbuf : KernelBuffer buffer) (h : Live files fd inode writable d mem base len s)

include h

theorem Live.length_le : s.copied.toNat ≤ (restBytes d inode).length := by
  rw [← h.taken.length, h.produced, List.length_take]
  omega

theorem Live.rest_length : (restBytes s.x.disk inode).length = (restBytes d inode).length - s.copied.toNat := by
  rw [h.rest, List.length_drop]

/-- Nothing is left to read. -/
theorem Live.done (hlen : s.len = 0) : FittingEnd mm inode buffer d mem base len (0, s) := by
  have hleft := h.copying.left
  have hfits := h.fits
  have hgiven := h.given
  have hle := h.length_le
  rw [hlen, show (0 : U32).toNat = 0 from rfl] at hleft hfits hgiven
  rw [readsFit_done] at hfits
  rw [readsGiven_done] at hgiven
  refine h.taken.fittingEnd h.begun (hfits.trans (and_iff_right h.copying.room)) hgiven le_rfl (fun _ => Or.inl rfl) ?_
  exact fun _ => ⟨rfl, by omega⟩

include hbuf

/-- The file has ended. -/
theorem Live.ended (hlen : s.len ≠ 0) {x' : FsKernel FatDisk} (hgood : callFails s.x.disk inode 0 = false)
    (hrest : restBytes s.x.disk inode = []) (hfd : FdOn x'.kernel files fd inode true writable) :
    FittingEnd mm inode buffer d mem base len (0, s.fetch buffer [] [] x') := by
  have hlenPos : 0 < s.len.toNat := Nat.pos_of_ne_zero fun h0 => hlen (BitVec.eq_of_toNat_eq h0)
  have hleft := h.copying.left
  have hfits := h.fits
  have hgiven := h.given
  have hle := h.length_le
  have hrestLen := h.rest_length
  rw [hrest, List.length_nil] at hfits hgiven hrestLen
  rw [readsFit_end hlenPos hgood] at hfits
  rw [readsGiven_end] at hgiven
  refine (h.taken.fetch_nil hbuf h.copying.room x' (Nat.zero_le _)).fittingEnd
    (fun hpos => (h.begun hpos).fetch hbuf hfd (Nat.zero_le _) []) (hfits.trans (and_iff_right h.copying.room)) hgiven le_rfl
    (fun _ => Or.inl rfl) (fun _ => ⟨rfl, ?_⟩)
  show s.copied.toNat = _
  omega

/-- A read has failed. -/
theorem Live.failed (hfirst : min len.toNat 4096 ≤ userRoom base) (hlen : s.len ≠ 0) {x' : FsKernel FatDisk}
    (hfails : callFails s.x.disk inode 0 = true) (hfd : FdOn x'.kernel files fd inode true writable) {placed : List U8}
    (hplaced : placed.length ≤ 4096) :
    FittingEnd mm inode buffer d mem base len
      (-FILE_OP_FAILED, (s.fetch buffer placed [] x').landed mm buffer (chunkLen s.len)) := by
  have hlenPos : 0 < s.len.toNat := Nat.pos_of_ne_zero fun h0 => hlen (BitVec.eq_of_toNat_eq h0)
  have hfits := h.fits
  have hgiven := h.given
  have hleft := h.copying.left
  have hchunk := chunkLen_toNat s.len
  have hwant := chunkLen_pos hlen
  have htaken := h.taken.fetch_nil hbuf h.copying.room x' hplaced
  have hcopied : (s.fetch buffer placed [] x').copied = s.copied := rfl
  have hbegun := fun hpos => (h.begun hpos).fetch hbuf hfd hplaced []
  rw [readsFit_failing hlenPos hfails] at hfits
  rw [readsGiven_failing hlenPos hfails] at hgiven
  rcases (h.copying.fetch buffer hfd placed []).landed mm hbuf hwant (by omega)
    (show (chunkLen s.len).toNat ≤ s.len.toNat by omega) with ⟨hdone, -⟩ | ⟨hfull, hsame, -⟩
  · -- What the buffer holds is copied and counted, though the inode has given nothing.
    have hroom := hdone.room
    have hcopied' := hdone.copied
    have hproduced := htaken.length
    rw [hcopied] at hroom hcopied' hproduced
    rw [← ReadState.landed_produced mm buffer (chunkLen s.len)] at hproduced
    refine ⟨fun hF => absurd (hfits.mp hF) (by omega), fun _ => ?_⟩
    by_cases hzero : s.copied.toNat = 0
    · exact spoilt_of_ne (by omega) (by omega) (by omega)
    · refine ((hbegun (by omega)).landed mm hbuf hwant (by omega)
        (show (chunkLen s.len).toNat ≤ s.len.toNat by omega)).spoilt fun _ => ?_
      omega
  · rw [hcopied] at hfull
    rw [hsame]
    refine htaken.fittingEnd hbegun ?_ hgiven (by decide) (fun _ => Or.inr ?_) ?_
    · exact hfits.trans ⟨fun hF => hF.2.1, fun hF => ⟨h.copying.room, hF, by omega⟩⟩
    · show 0 < s.copied.toNat
      omega
    · intro hgood
      have := hgood s.reads (Nat.lt_succ_self _)
      rw [← Nat.add_zero s.reads, ← h.fails 0, hfails] at this
      cases this

end LiveRounds

/-- A chunk has been delivered. -/
theorem Live.deliver (hbuf : KernelBuffer buffer) (h : Live files fd inode writable d mem base len s)
    {x' : FsKernel FatDisk} {bytes : List U8} (hgood : callFails s.x.disk inode 0 = false)
    (hbytes : bytes = (restBytes s.x.disk inode).take (min s.len.toNat 4096)) (hpos : 0 < bytes.length)
    (hnext : ∀ j, callFails x'.disk inode j = callFails s.x.disk inode (j + 1))
    (hrest : restBytes x'.disk inode = (restBytes s.x.disk inode).drop bytes.length) {s' : ReadState}
    (hcopying : Copying files fd inode writable base len s') (hx : s'.x = x')
    (hproduced : s'.produced = s.produced ++ bytes) (hreads : s'.reads = s.reads + 1)
    (hdone : Delivered buffer base bytes.length (s.fetch buffer bytes bytes x') s') :
    Live files fd inode writable d mem base len s' := by
  obtain ⟨hlength, -⟩ := given_length hbytes
  have hcopied : s'.copied.toNat = s.copied.toNat + bytes.length := hdone.copied
  have hleft := h.copying.left
  have hleft' := hcopying.left
  have hlen : s'.len.toNat = s.len.toNat - bytes.length := by omega
  have hnext' : callFails x'.disk inode = fun j => callFails s.x.disk inode (j + 1) := funext hnext
  refine ⟨hcopying, h.taken.deliver hbuf (by omega) hproduced hdone, ?_, ?_, ?_, ?_, ?_⟩
  · have htake : bytes = ((restBytes d inode).drop s.copied.toNat).take bytes.length := by
      rw [← h.rest, hlength]
      conv_lhs => rw [hbytes]
      rw [← List.take_eq_take_min]
    rw [hproduced, hcopied, List.take_add, ← htake, ← h.produced]
  · rw [hx, hrest, h.rest, List.drop_drop, hcopied]
  · intro j
    rw [hx, hnext, h.fails, hreads, Nat.add_assoc, Nat.add_comm 1 j]
  · rw [h.fits, readsFit_next hgood hlength hpos, hx, hrest, List.length_drop, hcopied, hlen, hnext']
  · rw [h.given, readsGiven_next hgood hlength hpos, hx, hrest, List.length_drop, hcopied, hlen, hnext', Nat.add_assoc]

/-- A chunk has been given up, behind a part that has been copied. -/
theorem Live.lost (h : Live files fd inode writable d mem base len s)
    (hfirst : min len.toNat 4096 ≤ userRoom base) (hgood : callFails s.x.disk inode 0 = false) {m : Nat}
    (hm : m = min (min s.len.toNat 4096) (restBytes s.x.disk inode).length) (hpos : 0 < m)
    (hfull : userRoom base < s.copied.toNat + m) : ¬ FitsAtStart d inode base len ∧ 0 < s.copied.toNat := by
  have hleft := h.copying.left
  refine ⟨?_, by omega⟩
  intro hF
  have := readsFit_room (h.fits.mp hF) hgood hm hpos
  omega

/-- A call whose first chunk lies in user space. -/
theorem Live.returns (hall : ∀ va, u.lands va = true) (hbuf : KernelBuffer buffer)
    (hfirst : min len.toNat 4096 ≤ userRoom base) (h : Live files fd inode writable d mem base len s) :
    ∃ r, Returns (readRound u files fd buffer) s r ∧ FittingEnd u.mm inode buffer d mem base len r := by
  refine Returns.of_measure (fun t => (restBytes t.x.disk inode).length) ?_ h
  intro t ht
  by_cases hlen : t.len = 0
  · exact Or.inl ⟨(0, t), Returns.of_leave (by simp [readRound, hlen]), ht.done u.mm hlen⟩
  · have hchunk := chunkLen_toNat t.len
    cases readRound_cases buffer ht.copying.fd hlen with
    | failed x' hfails hfd hround =>
        have hplaced := filePlaced_length t.x files fd (chunkLen t.len)
        have hround := hround u
        rw [ReadState.deliver_lands fun _ _ => hall _, Res.ok_bind] at hround
        exact Or.inl ⟨_, Returns.of_leave hround, ht.failed u.mm hbuf hfirst hlen hfails hfd (by omega)⟩
    | ended x' hgood hrest hfd hround =>
        exact Or.inl ⟨_, Returns.of_leave (hround u), ht.ended u.mm hbuf hlen hgood hrest hfd⟩
    | given x' bytes hgood hbytes hpos hfd hnext hrest hround =>
        obtain ⟨hlength, hword⟩ := given_length hbytes
        have hleft : (BitVec.ofNat 32 bytes.length).toNat ≤ t.len.toNat := by omega
        have hround := hround u
        rw [ReadState.deliver_lands fun _ _ => hall _, Res.ok_bind] at hround
        rcases (ht.copying.fetch buffer hfd bytes bytes).landed u.mm hbuf
          (n := BitVec.ofNat 32 bytes.length) (by omega) (by omega) hleft with
          ⟨hdone, hcopying, -⟩ | ⟨hfull, hsame, -⟩
        · rw [hword] at hdone
          refine Or.inr ⟨_, hround, ht.deliver hbuf hgood hbytes hpos hnext hrest hcopying ?_ ?_ ?_ hdone, ?_⟩
          · exact ReadState.landed_x ..
          · exact ReadState.landed_produced ..
          · exact ReadState.landed_reads ..
          · simp only [ReadState.landed_x, ReadState.fetch, hrest, List.length_drop]
            omega
        · rw [hword] at hfull
          obtain ⟨hF, hbegun⟩ := ht.lost hfirst hgood hlength hpos hfull
          rw [hsame] at hround
          obtain ⟨r, hret, hbegun', hproduced⟩ :=
            ((ht.begun hbegun).fetch hbuf hfd (show bytes.length ≤ 4096 by omega) bytes).returns hall hbuf
          refine Or.inl ⟨r, Returns.of_again hround hret, fun hF' => absurd hF' hF, fun _ => hbegun'.spoilt fun _ => ?_⟩
          -- More has been given than the user has room for.
          have hroom := hbegun'.copying.room
          have htaken := ht.taken.length
          simp only [ReadState.fetch, List.length_append] at hproduced hfull
          omega

/-! ### A buffer whose first chunk lies outside user space -/

/-- The condition on the reads, as it stands at the beginning. -/
def RefusedAtStart (d : FatDisk) (inode base len : U32) : Prop :=
  ReadsRefused (callFails d inode) (min len.toNat 4096) (restBytes d inode).length (userRoom base)

/-- Nothing has been copied. -/
structure Starved (files : U32) (fd : Int) (inode : U32) (writable : Bool) (d : FatDisk) (mem : Bytes) (base len : U32)
    (s : ReadState) : Prop where
  copying : Copying files fd inode writable base len s
  none : s.copied.toNat = 0
  same : SameOutside mem s.mem base 0
  fits : RefusedAtStart d inode base len ↔ ReadsRefused (callFails s.x.disk inode) (min len.toNat 4096)
    (restBytes s.x.disk inode).length (userRoom base)

/-- The end of a call whose first chunk lies outside user space, when all stores land. -/
structure StarvedEnd (mm : MemMap) (inode buffer : U32) (d : FatDisk) (mem : Bytes) (base len : U32)
    (r : Int × ReadState) : Prop where
  refused : RefusedAtStart d inode base len →
    r.2.copied.toNat = 0 ∧ ReadExact mm inode buffer d mem base len (readResult r, r.2)
  given : ¬ RefusedAtStart d inode base len → 0 ≤ readResult r

/-- An error, and nothing copied. -/
theorem readExact_of_refused (mm : MemMap) (hlen0 : len ≠ 0) (hfirst : userRoom base < min len.toNat 4096)
    {r : Int × ReadState} (hneg : r.1 < 0) (hsame : SameOutside mem r.2.mem base 0) :
    ReadExact mm inode buffer d mem base len r := by
  refine ⟨fun hnonneg => absurd hneg (by omega), fun _ => hsame, ?_, fun _ _ => hneg⟩
  intro _ _ hlegal
  have hpos : 0 < len.toNat := Nat.pos_of_ne_zero fun h0 => hlen0 (BitVec.eq_of_toNat_eq h0)
  have hroom := (inUserSpace_iff_room hpos).mp hlegal.1
  omega

/-- A call whose first chunk lies outside user space. -/
theorem Starved.returns (hall : ∀ va, u.lands va = true) (hbuf : KernelBuffer buffer) (hlen0 : len ≠ 0)
    (hfirst : userRoom base < min len.toNat 4096) (h : Starved files fd inode writable d mem base len s) :
    ∃ r, Returns (readRound u files fd buffer) s r ∧ StarvedEnd u.mm inode buffer d mem base len r := by
  refine Returns.of_measure (fun t => (restBytes t.x.disk inode).length) ?_ h
  intro t ht
  have hleft := ht.copying.left
  have hnone := ht.none
  have hfits := ht.fits
  have hlen : t.len ≠ 0 := by
    rintro hzero
    rw [hzero, hnone] at hleft
    exact hlen0 (BitVec.eq_of_toNat_eq hleft.symm)
  have hchunk := chunkLen_toNat t.len
  cases readRound_cases buffer ht.copying.fd hlen with
  | failed x' hfails hfd hround =>
      have hplaced := filePlaced_length t.x files fd (chunkLen t.len)
      have hround := hround u
      rw [ReadState.deliver_lands fun _ _ => hall _, Res.ok_bind] at hround
      refine Or.inl ⟨_, Returns.of_leave hround, ?_⟩
      rcases (ht.copying.fetch buffer hfd (filePlaced t.x files fd (chunkLen t.len)) []).landed u.mm hbuf
        (chunkLen_pos hlen) (by omega) (show (chunkLen t.len).toNat ≤ t.len.toNat by omega) with
        ⟨hdone, -⟩ | ⟨-, hsame, -⟩
      · have hroom : t.copied.toNat + (chunkLen t.len).toNat ≤ userRoom base := hdone.room
        omega
      · rw [hsame]
        refine ⟨fun _ => ⟨hnone, ?_⟩, fun hF => absurd (hfits.mpr (readsRefused_failing hfails)) hF⟩
        have hresult := readResult_eq (-FILE_OP_FAILED, t.fetch buffer (filePlaced t.x files fd (chunkLen t.len)) [] x')
        have hcopied : (t.fetch buffer (filePlaced t.x files fd (chunkLen t.len)) [] x').copied = t.copied := rfl
        simp only [hcopied, FILE_OP_FAILED] at hresult
        refine readExact_of_refused u.mm hlen0 hfirst (by simp only [FILE_OP_FAILED]; omega) ?_
        intro a ha hout
        exact (fetch_mem hbuf (by omega) x' ha).trans (ht.same a ha hout)
  | ended x' hgood hrest hfd hround =>
      have hresult := readResult_eq (0, t.fetch buffer [] [] x')
      have hcopied : (t.fetch buffer [] [] x').copied = t.copied := rfl
      simp only [hcopied] at hresult
      refine Or.inl ⟨_, Returns.of_leave (hround u), fun hF => absurd (hfits.mp hF) ?_, fun _ => by omega⟩
      rw [hrest]
      exact not_readsRefused hgood (Nat.zero_le _)
  | given x' bytes hgood hbytes hpos hfd hnext hrest hround =>
      obtain ⟨hlength, hword⟩ := given_length hbytes
      have hle : (BitVec.ofNat 32 bytes.length).toNat ≤ t.len.toNat := by omega
      have hcopied : (t.fetch buffer bytes bytes x').copied = t.copied := rfl
      have hround := hround u
      rw [ReadState.deliver_lands fun _ _ => hall _, Res.ok_bind] at hround
      rcases (ht.copying.fetch buffer hfd bytes bytes).landed u.mm hbuf (by omega) (by omega) hle with
        ⟨hdone, hcopying, -⟩ | ⟨hfull, hsame, -⟩
      · -- The file has ended before the chunk is full, and its rest is copied.
        have hroom := hdone.room
        have hcopied' := hdone.copied
        rw [hcopied] at hroom hcopied'
        have hbegun : Begun files fd inode writable base len _ _ := ⟨hcopying, by omega, rfl⟩
        obtain ⟨r, hret, hbegun', -⟩ := hbegun.returns hall hbuf
        refine Or.inl ⟨r, Returns.of_again hround hret, fun hF => absurd (hfits.mp hF) ?_, fun _ => ?_⟩
        · exact not_readsRefused hgood (by omega)
        · have hend := hbegun'.copying.room
          have hsome := hbegun'.pos
          have hresult := readResult_eq r
          omega
      · rw [hcopied] at hfull
        rw [hsame] at hround
        refine Or.inr ⟨_, hround, ⟨ht.copying.fetch buffer hfd bytes bytes, hnone, ?_, ?_⟩, ?_⟩
        · intro a ha hout
          exact (fetch_mem hbuf (by omega) x' ha).trans (ht.same a ha hout)
        · have hm : bytes.length = min (min len.toNat 4096) (restBytes t.x.disk inode).length := by omega
          rw [hfits, readsRefused_next hgood hm (by omega)]
          show _ ↔ ReadsRefused (callFails x'.disk inode) _ (restBytes x'.disk inode).length _
          rw [hrest, List.length_drop,
            show callFails x'.disk inode = fun j => callFails t.x.disk inode (j + 1) from funext hnext]
        · show (restBytes x'.disk inode).length < _
          rw [hrest, List.length_drop]
          omega

/-! ### Pages that are missing -/

/-- How much has been copied when a round is over. -/
def copiedAfter : Next ReadState (Int × ReadState) → Nat
  | .again s => s.copied.toNat
  | .leave r => r.2.copied.toNat

/-- A chunk is delivered as if all pages were there, or the machine stops at a byte of it. -/
theorem Copying.guardedRound (u : UserSpace) (hbuf : KernelBuffer buffer) {t : ReadState}
    (h : Copying files fd inode writable base len t) {n : U32} (hpos : 0 < n.toNat) (hle : n.toNat ≤ 4096)
    (hlen : n.toNat ≤ t.len.toNat) (hcopied : s.copied = t.copied) {next : ReadState → Next ReadState (Int × ReadState)}
    (hround : readRound u files fd buffer s = t.deliver u buffer n >>= fun t => .ok (next t))
    (hnext : ∀ t, copiedAfter (next t) = t.copied.toNat) (hagain : ∀ t s', next t = .again s' → s' = t) :
    GuardedRound (readRound u files fd buffer) (Copying files fd inode writable base len)
      (fun n => u.StoresLand base (copiedAfter n)) s (next (t.landed u.mm buffer n)) := by
  have hbefore : copiedAfter (.again s) = t.copied.toNat := congrArg BitVec.toNat hcopied
  have haddr : ∀ i, byteAddr t.base i = byteAddr base (t.copied.toNat + i) := by
    intro i
    rw [h.place, byteAddr_byteAddr]
  rcases h.landed u.mm hbuf hpos hle hlen with ⟨hdone, hcopying, hcheck⟩ | ⟨-, hsame, hcheck⟩
  · have hafter := hdone.copied
    refine ⟨?_, ?_, ?_, ?_⟩
    · intro s' hs'
      exact hagain _ _ hs' ▸ hcopying
    · intro hall i hi
      exact hall i (by rw [hnext]; omega)
    · intro hall
      rw [hround, ReadState.deliver_lands, Res.ok_bind]
      intro i hi
      rw [haddr]
      exact hall _ (by rw [hnext]; omega)
    · intro hall hnot
      unfold UserSpace.StoresLand at hnot
      push Not at hnot
      obtain ⟨i, hi, hstop⟩ := hnot
      rw [hnext] at hi
      -- The byte is one of the chunk.
      have hnew : t.copied.toNat ≤ i := by
        by_contra hold
        exact hstop (hall i (by omega))
      obtain ⟨j, rfl⟩ := Nat.exists_eq_add_of_le hnew
      rw [← haddr] at hstop
      have hj : j < n.toNat := by omega
      obtain ⟨e, he⟩ : ∃ e, t.deliver u buffer n = .error e := ReadState.deliver_stops hcheck hj (by simpa using hstop)
      refine ⟨e, ?_⟩
      rw [hround, he]
      rfl
  · rw [hsame]
    refine ⟨?_, ?_, ?_, ?_⟩
    · intro s' hs'
      exact hagain _ _ hs' ▸ h
    · intro hall i hi
      exact hall i (by rw [hnext]; omega)
    · intro _
      rw [hround, ReadState.deliver_refused hcheck, Res.ok_bind]
    · intro hall hnot
      refine absurd ?_ hnot
      rwa [hnext, ← hbefore]

/-- The rounds go as if all pages were there, up to the first one with a store that stops the machine. -/
theorem readRound_guarded (u : UserSpace) (hbuf : KernelBuffer buffer) (h : Copying files fd inode writable base len s)
    {n : Next ReadState (Int × ReadState)} (hround : readRound u.resident files fd buffer s = .ok n) :
    GuardedRound (readRound u files fd buffer) (Copying files fd inode writable base len)
      (fun n => u.StoresLand base (copiedAfter n)) s n := by
  -- A round that leaves the loop without a copy.
  have hquiet : ∀ {s' : ReadState} {code : Int}, s'.copied = s.copied →
      readRound u files fd buffer s = .ok (.leave (code, s')) → GuardedRound (readRound u files fd buffer)
        (Copying files fd inode writable base len) (fun n => u.StoresLand base (copiedAfter n)) s (.leave (code, s')) := by
    intro s' code hcopied hcall
    have heq : copiedAfter (.again s) = copiedAfter (.leave (code, s')) := congrArg BitVec.toNat hcopied.symm
    refine ⟨fun _ hs' => (by cases hs'), ?_, fun _ => hcall, ?_⟩
    · intro hall
      rwa [heq]
    · intro hall hnot
      rw [heq] at hall
      exact absurd hall hnot
  by_cases hlen : s.len = 0
  · have hleave : ∀ u, readRound u files fd buffer s = .ok (.leave (0, s)) := by
      intro u
      simp [readRound, hlen]
    obtain rfl := Except.ok.inj ((hleave _).symm.trans hround)
    exact hquiet rfl (hleave u)
  · have hchunk := chunkLen_toNat s.len
    cases readRound_cases buffer h.fd hlen with
    | failed x' hfails hfd hcall =>
        have hcall' := hcall u.resident
        rw [ReadState.deliver_lands fun _ _ => u.resident_lands _, Res.ok_bind, hround] at hcall'
        obtain rfl := Except.ok.inj hcall'
        exact (h.fetch buffer hfd _ _).guardedRound (s := s) u hbuf (chunkLen_pos hlen) (by omega)
          (show (chunkLen s.len).toNat ≤ s.len.toNat by omega) rfl (hcall u) (fun _ => rfl) (fun _ _ hs' => by cases hs')
    | ended x' hgood hrest hfd hcall =>
        obtain rfl := Except.ok.inj ((hcall _).symm.trans hround)
        exact hquiet rfl (hcall u)
    | given x' bytes hgood hbytes hpos hfd hnext hrest hcall =>
        obtain ⟨hlength, hword⟩ := given_length hbytes
        have hcall' := hcall u.resident
        rw [ReadState.deliver_lands fun _ _ => u.resident_lands _, Res.ok_bind, hround] at hcall'
        obtain rfl := Except.ok.inj hcall'
        exact (h.fetch buffer hfd _ _).guardedRound (s := s) u hbuf (by omega) (by omega)
          (show (BitVec.ofNat 32 bytes.length).toNat ≤ s.len.toNat by omega) rfl (hcall u) (fun _ => rfl)
          (fun _ _ hs' => (Next.again.inj hs').symm)

end Rounds

/-! ### Every call -/

/-- The calls of `sysfile_read` that return what the inode gave. -/
def ReadsClean (u : UserSpace) (d : FatDisk) (inode buffer base len : U32) : Prop :=
  len = 0 ∨ buffer = NULL ∨
    if min len.toNat 4096 ≤ userRoom base then
      UserMemOk u.mm base (chunkLen len) true ∧
        ReadsFit (callFails d inode) 0 len.toNat (restBytes d inode).length (userRoom base) ∧
        u.StoresLand base (readsGiven (callFails d inode) len.toNat (restBytes d inode).length)
    else ReadsRefused (callFails d inode) (min len.toNat 4096) (restBytes d inode).length (userRoom base)

/-- `sysfile_read` ends with a result. -/
def SysfileRead (u : UserSpace) (files : U32) (fd : Int) (buffer : U32) (x : FsKernel FatDisk) (mem : Bytes)
    (base len : U32) (r : Int × ReadState) : Prop :=
  ∃ n, ∀ fuel, n ≤ fuel → sysfileRead u files fd buffer x mem base len fuel = .ok (some r)

section Calls

variable {u : UserSpace} {x : FsKernel FatDisk} {files inode : U32} {fd : Int} {writable : Bool} {buffer base len : U32}
  {mem : Bytes}

/-- The call ends when its loop does. -/
theorem sysfileRead_iff (hfd : FdOn x.kernel files fd inode true writable) (hlen : len ≠ 0) (hbuffer : buffer ≠ NULL)
    (r : Int × ReadState) : SysfileRead u files fd buffer x mem base len r ↔
      ∃ r', Returns (readRound u files fd buffer) ⟨x, mem, base, len, 0, [], 0⟩ r' ∧ r = (readResult r', r'.2) := by
  obtain ⟨fs, f, hfs, hfind, -, hreadable, -⟩ := hfd
  have htest : fileTestRw fs fd true false = true := by simp [fileTestRw, hfind, hreadable]
  have hcall : ∀ fuel, sysfileRead u files fd buffer x mem base len fuel =
      runLoop (readRound u files fd buffer) fuel ⟨x, mem, base, len, 0, [], 0⟩ >>= fun out =>
        .ok (out.map fun r => (readResult r, r.2)) := by
    intro fuel
    unfold sysfileRead
    dsimp only
    rw [if_neg hlen, fileStruct_eq_ok.mpr hfs, Res.ok_bind, htest, if_neg (by simp), if_neg hbuffer]
    rfl
  constructor
  · rintro ⟨n, hn⟩
    have hrun := hn n le_rfl
    rw [hcall] at hrun
    obtain ⟨out, hout, hrun⟩ := Res.bind_eq_ok.mp hrun
    obtain ⟨r', rfl, rfl⟩ := Option.map_eq_some_iff.mp (Except.ok.inj hrun)
    exact ⟨r', Returns.of_runLoop hout, rfl⟩
  · rintro ⟨r', ⟨n, hn⟩, rfl⟩
    refine ⟨n, fun fuel hfuel => ?_⟩
    rw [hcall, hn fuel hfuel]
    rfl

/-- Nothing has been read yet. -/
theorem copying_start (mem : Bytes) (base len : U32) (hfd : FdOn x.kernel files fd inode true writable) :
    Copying files fd inode writable base len ⟨x, mem, base, len, 0, [], 0⟩ :=
  ⟨hfd, (byteAddr_zero base).symm, Nat.add_zero _, Nat.zero_le _⟩

theorem live_start (mem : Bytes) (hfd : FdOn x.kernel files fd inode true writable) :
    Live files fd inode writable x.disk mem base len ⟨x, mem, base, len, 0, [], 0⟩ where
  copying := copying_start mem base len hfd
  taken := ⟨rfl, fun i hi => absurd hi (Nat.not_lt_zero i), fun _ _ _ => rfl⟩
  produced := rfl
  rest := rfl
  fails := fun j => by rw [Nat.zero_add]
  fits := Iff.rfl
  given := (Nat.zero_add _).symm

theorem starved_start (mem : Bytes) (hfd : FdOn x.kernel files fd inode true writable) :
    Starved files fd inode writable x.disk mem base len ⟨x, mem, base, len, 0, [], 0⟩ where
  copying := copying_start mem base len hfd
  none := rfl
  same := fun _ _ _ => rfl
  fits := Iff.rfl

/-- A call without a length, or without a buffer. -/
theorem sysfileRead_at_once (mem : Bytes) (hfd : FdOn x.kernel files fd inode true writable) (h : len = 0 ∨ buffer = NULL) :
    ∃ r, SysfileRead u files fd buffer x mem base len r ∧ ReadExact u.mm inode buffer x.disk mem base len r := by
  by_cases hlen : len = 0
  · refine ⟨(0, ⟨x, mem, base, len, 0, [], 0⟩), ⟨0, fun fuel _ => by simp [sysfileRead, hlen]⟩, ?_⟩
    refine ⟨fun _ => ⟨rfl, fun i hi => absurd hi (Nat.not_lt_zero i), fun _ _ _ => rfl⟩, fun _ _ _ _ => rfl, ?_, ?_⟩
    · intro _ _ _
      rw [hlen]
      exact (Nat.cast_zero.symm.trans (congrArg Nat.cast (Nat.zero_min _).symm))
    · exact fun hne => absurd hlen hne
  · have hbuffer := h.resolve_left hlen
    obtain ⟨fs, f, hfs, hfind, -, hreadable, -⟩ := hfd
    have htest : fileTestRw fs fd true false = true := by simp [fileTestRw, hfind, hreadable]
    refine ⟨(-E_NOMEM, ⟨x, mem, base, len, 0, [], 0⟩), ⟨0, fun fuel _ => ?_⟩, ?_⟩
    · unfold sysfileRead
      dsimp only
      rw [if_neg hlen, fileStruct_eq_ok.mpr hfs, Res.ok_bind, htest, if_neg (by simp), if_pos hbuffer]
      rfl
    · have hneg : -E_NOMEM < 0 := by decide
      exact ⟨fun hnonneg => absurd hneg (not_lt.mpr hnonneg), fun _ _ _ _ => rfl, fun hne => absurd hbuffer hne,
        fun _ _ => hneg⟩

/-- A spoilt result is wrong, when the user buffer did not begin with the first byte of the file. -/
theorem Spoilt.not_readExact {r : Int × ReadState} {b : U8} (h : Spoilt base b r) (hfirst : mem base ≠ b) {d : FatDisk} :
    ¬ ReadExact u.mm inode buffer d mem base len (readResult r, r.2) := by
  intro hexact
  unfold Spoilt at h
  split at h
  · rename_i hnonneg
    exact h (hexact.delivered hnonneg).1
  · rename_i hneg
    refine hfirst (Eq.trans ?_ h.2)
    exact (hexact.refused (by dsimp only; omega) base h.1 fun i hi => absurd hi (Nat.not_lt_zero i)).symm

/-- A call whose loop ends with `r` when all pages are there.  It returns that, or stops the machine. -/
theorem sysfileRead_guarded (hfd : FdOn x.kernel files fd inode true writable) (hlen : len ≠ 0) (hnull : buffer ≠ NULL)
    (hbuf : KernelBuffer buffer) {r : Int × ReadState}
    (hret : Returns (readRound u.resident files fd buffer) ⟨x, mem, base, len, 0, [], 0⟩ r) :
    (u.StoresLand base r.2.copied.toNat → SysfileRead u files fd buffer x mem base len (readResult r, r.2)) ∧
      ∀ r', SysfileRead u files fd buffer x mem base len r' →
        u.StoresLand base r.2.copied.toNat ∧ r' = (readResult r, r.2) := by
  obtain ⟨hlands, hstops⟩ := Returns.guarded (fun s n h hround => readRound_guarded u hbuf h hround) hret
    (copying_start mem base len hfd) (fun i hi => absurd hi (Nat.not_lt_zero i))
  refine ⟨fun hall => (sysfileRead_iff hfd hlen hnull _).mpr ⟨r, hlands hall, rfl⟩, fun r' h => ?_⟩
  obtain ⟨r'', hret', rfl⟩ := (sysfileRead_iff hfd hlen hnull _).mp h
  by_cases hall : u.StoresLand base r.2.copied.toNat
  · rw [hret'.unique (hlands hall)]
    exact ⟨hall, rfl⟩
  · exact absurd hret' (hstops hall r'')

/-- A call returns what the inode gave when the condition holds. -/
theorem sysfileRead_clean (hfd : FdOn x.kernel files fd inode true writable)
    (hbuffer : buffer = NULL ∨ KernelBuffer buffer) (hclean : ReadsClean u x.disk inode buffer base len) (mem : Bytes) :
    ∃ r, SysfileRead u files fd buffer x mem base len r ∧ ReadExact u.mm inode buffer x.disk mem base len r := by
  by_cases honce : len = 0 ∨ buffer = NULL
  · exact sysfileRead_at_once mem hfd honce
  · push Not at honce
    obtain ⟨hlen, hnull⟩ := honce
    have hbuf := hbuffer.resolve_left hnull
    have hclean := (hclean.resolve_left hlen).resolve_left hnull
    by_cases hfirst : min len.toNat 4096 ≤ userRoom base
    · rw [if_pos hfirst] at hclean
      obtain ⟨hlegal, hfits, hlands⟩ := hclean
      obtain ⟨r, hret, hend⟩ := (live_start mem hfd).returns u.resident_lands hbuf hfirst
      obtain ⟨-, hcopied, hexact⟩ := hend.fits hfits
      exact ⟨_, (sysfileRead_guarded hfd hlen hnull hbuf hret).1 (hcopied ▸ hlands), hexact hlegal⟩
    · rw [if_neg hfirst] at hclean
      obtain ⟨r, hret, hend⟩ := (starved_start mem hfd).returns u.resident_lands hbuf hlen (Nat.lt_of_not_le hfirst)
      obtain ⟨hcopied, hexact⟩ := hend.refused hclean
      refine ⟨_, (sysfileRead_guarded hfd hlen hnull hbuf hret).1 ?_, hexact⟩
      rw [hcopied]
      exact fun i hi => absurd hi (Nat.not_lt_zero i)

/-- When the condition does not hold, a call stops the machine or does not return what the inode gave, unless the user
buffer held the first byte of the file before. -/
theorem sysfileRead_wrong (hfd : FdOn x.kernel files fd inode true writable)
    (hbuffer : buffer = NULL ∨ KernelBuffer buffer) (hclean : ¬ ReadsClean u x.disk inode buffer base len)
    (hfresh : mem base ≠ (restBytes x.disk inode).headD 0) {r : Int × ReadState}
    (hcall : SysfileRead u files fd buffer x mem base len r) : ¬ ReadExact u.mm inode buffer x.disk mem base len r := by
  unfold ReadsClean at hclean
  push Not at hclean
  obtain ⟨hlen, hnull, hclean⟩ := hclean
  have hbuf := hbuffer.resolve_left hnull
  have hpos := chunkLen_pos hlen
  have hchunk := chunkLen_toNat len
  by_cases hfirst : min len.toNat 4096 ≤ userRoom base
  · rw [if_pos hfirst] at hclean
    obtain ⟨r', hret, hend⟩ := (live_start mem hfd).returns u.resident_lands hbuf hfirst
    obtain ⟨hlands, rfl⟩ := (sysfileRead_guarded hfd hlen hnull hbuf hret).2 r hcall
    by_cases hfits : FitsAtStart x.disk inode base len
    · obtain ⟨hnonneg, hcopied, -⟩ := hend.fits hfits
      -- The first chunk is not legal, and the call has returned no error.
      intro hexact
      refine absurd (hexact.illegal hlen fun hlegal => hclean ⟨hlegal, hfits, ?_⟩) (not_lt.mpr hnonneg)
      rwa [hcopied] at hlands
    · exact (hend.spoilt hfits).not_readExact hfresh
  · rw [if_neg hfirst] at hclean
    obtain ⟨r', hret, hend⟩ := (starved_start mem hfd).returns u.resident_lands hbuf hlen (Nat.lt_of_not_le hfirst)
    obtain ⟨-, rfl⟩ := (sysfileRead_guarded hfd hlen hnull hbuf hret).2 r hcall
    intro hexact
    refine absurd (hexact.illegal hlen fun hlegal => hfirst ?_) (not_lt.mpr (hend.given hclean))
    rw [← hchunk]
    exact (inUserSpace_iff_room hpos).mp hlegal.1

end Calls

/-- On every user memory `sysfile_read` of a FAT file ends, and gives the user what the inode gave, exactly under the
condition `ReadsClean`. -/
theorem sysfileRead_exact_iff {x : FsKernel FatDisk} {files inode : U32} {fd : Int} {writable : Bool}
    (hfd : FdOn x.kernel files fd inode true writable) (u : UserSpace) {buffer : U32}
    (hbuffer : buffer = NULL ∨ KernelBuffer buffer) (base len : U32) :
    (∀ mem, ∃ r, SysfileRead u files fd buffer x mem base len r ∧
      ReadExact u.mm inode buffer x.disk mem base len r) ↔ ReadsClean u x.disk inode buffer base len := by
  constructor
  · intro hall
    by_contra hclean
    -- A user memory that does not begin with the first byte of the file.
    obtain ⟨r, hcall, hexact⟩ := hall fun _ => (restBytes x.disk inode).headD 0 + 1
    exact sysfileRead_wrong hfd hbuffer hclean (by simp) hcall hexact
  · exact fun hclean mem => sysfileRead_clean hfd hbuffer hclean mem

/-! ### Two files -/

/-- Two pages that the process may write to.  The first one is present. -/
def writableSpace : UserSpace where
  mm := writablePages
  inv := ⟨⟨by decide, by decide⟩, rfl, fun _ h => by cases h⟩
  user := by
    intro vma hvma
    obtain rfl := List.mem_singleton.mp hvma
    exact ⟨rfl, rfl, rfl⟩
  present page := decide (page = 0x200)
  frames _ := true

theorem writableSpace_allows {x : Nat} (hlo : 0x200000 ≤ x) (hhi : x < 0x202000) :
    ByteAllowed writableSpace.mm.vmaList true x :=
  ⟨_, List.mem_singleton.mpr rfl, ⟨hlo, hhi⟩, by decide⟩

theorem writableSpace_lands {n : Nat} (hn : n ≤ 0x2000) : writableSpace.StoresLand 0x200000#32 n := by
  intro i hi
  have haddr : (byteAddr 0x200000#32 i).toNat = 0x200000 + i := byteAddr_toNat (by simp; omega)
  refine writableSpace.lands_iff.mpr (Or.inr ⟨writableSpace_allows ?_ ?_, rfl⟩)
  · omega
  · omega

/-- A file of five thousand bytes, on a device that works. -/
def longFileDisk : FatDisk := ⟨fun _ => ⟨List.replicate 5000 7, 0, false, 5000⟩, fun _ => ⟨none, 8, fun _ => 0⟩, 0⟩

/-- The whole file is read, in two chunks; the second one goes on to a page that is missing. -/
theorem sysfileRead_exact_two_chunks : ∃ r,
    SysfileRead writableSpace 0xC0002000#32 0 smallBuffer ⟨oneKernel true false, longFileDisk⟩ (fun _ => 7)
      0x200000#32 6000#32 r ∧
      ReadExact writableSpace.mm 0xC0030000#32 smallBuffer longFileDisk (fun _ => 7) 0x200000#32 6000#32 r := by
  have hrest : (restBytes longFileDisk 0xC0030000#32).length = 5000 := by
    have hcontent : restBytes longFileDisk 0xC0030000#32 = List.replicate 5000 7 := List.drop_zero
    rw [hcontent, List.length_replicate]
  have hgood : ∀ n, firstFailure (callFails longFileDisk 0xC0030000#32) n = none := by
    intro n
    exact List.find?_eq_none.mpr fun _ _ => Bool.false_ne_true
  refine (sysfileRead_exact_iff (x := ⟨_, longFileDisk⟩) (oneKernel_fdOn true false) writableSpace (Or.inr smallBuffer_ok)
    0x200000#32 6000#32).mpr (Or.inr (Or.inr ?_)) (fun _ => 7)
  rw [if_pos (by decide), hrest]
  refine ⟨⟨⟨by decide, by decide⟩, fun x hlo hhi => writableSpace_allows hlo (Nat.lt_trans hhi (by decide)), ?_⟩, ?_, ?_⟩
  · rintro - x - - ⟨vma, hvma, hstack, -⟩
    obtain rfl := List.mem_singleton.mp hvma
    exact hstack rfl
  · unfold ReadsFit
    rw [hgood]
    exact ⟨by decide, by decide⟩
  · unfold readsGiven
    rw [hgood]
    exact writableSpace_lands (by decide)

/-- The first read of the device fails.  What the buffer of the kernel held is copied to the user, and counted. -/
theorem sysfileRead_counts_failed_read : ∃ r,
    SysfileRead writableSpace 0xC0002000#32 0 smallBuffer ⟨oneKernel true false, fourByteDisk (some 0)⟩ (fun _ => 7)
      0x200000#32 4#32 r ∧
    r.1 = 4 ∧ r.2.produced = [] ∧
      ¬ ReadExact writableSpace.mm 0xC0030000#32 smallBuffer (fourByteDisk (some 0)) (fun _ => 7) 0x200000#32 4#32 r := by
  have heval : ((runLoop (readRound writableSpace 0xC0002000#32 0 smallBuffer) 1
      ⟨⟨oneKernel true false, fourByteDisk (some 0)⟩, fun _ => 7, 0x200000#32, 4#32, 0, [], 0⟩).toOption.bind
        fun out => out.map fun r => (readResult r, r.2.produced)) = some (4, []) := by
    decide +kernel
  obtain ⟨out, hout, heval⟩ := Option.bind_eq_some_iff.mp heval
  obtain ⟨r, rfl, hr⟩ := Option.map_eq_some_iff.mp heval
  obtain ⟨hcode, hproduced⟩ := Prod.mk.inj hr
  have hcall := (sysfileRead_iff (oneKernel_fdOn true false) (by decide) (by decide) _).mpr
    ⟨r, Returns.of_runLoop (Res.toOption_eq_some.mp hout), rfl⟩
  refine ⟨_, hcall, hcode, hproduced, fun hexact => ?_⟩
  have := (hexact.delivered (by dsimp only; omega)).1
  simp only [hcode, hproduced] at this
  exact absurd this (by decide)

end Fs
end FreakOS
