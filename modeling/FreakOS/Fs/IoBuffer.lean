import FreakOS.Memory.LegalStr
import FreakOS.Fs.FilePositions

/-!
# Chunks of user buffers

`sysfile_read` and `sysfile_write` move a user buffer in chunks of at most `IOBUF_SIZE` bytes through a buffer of the
kernel.

* `chunkLen` — the length of the next chunk.
* `userRoom` — how many bytes from an address on the check of a chunk accepts.
* `storeBytes` — bytes that the kernel writes into its buffer.
* `checkUserMem_chunk` — for chunks the check compares with the bounds of user space only: user space begins above
  every length of a chunk, and the loop of `checkUserMem` compares an address with the length.
-/

namespace FreakOS
namespace Fs

open Memory
open Krnl

/-- `IOBUF_SIZE`. -/
def IOBUF_SIZE : U32 := 4096#32

/-- `if ((alen = IOBUF_SIZE) > len) alen = len;`. -/
def chunkLen (len : U32) : U32 := if IOBUF_SIZE > len then len else IOBUF_SIZE

/-- `file_test_rw(fd, readable, writeable)`. -/
def fileTestRw (fs : FileStruct) (fd : Int) (readable writeable : Bool) : Bool :=
  match findFileWithFd fs fd with
  | none => false
  | some file => if readable && !file.readable then false else if writeable && !file.writable then false else true

/-- Bytes are stored from an address on. -/
def storeBytes (mem : Bytes) (a : U32) : List U8 → Bytes
  | [] => mem
  | b :: bytes => storeBytes (Function.update mem a b) (a + 1) bytes

/-- The bytes from `base` to the end of user space. -/
def userRoom (base : U32) : Nat := if USER_BASE.toNat ≤ base.toNat then USER_TOP.toNat - base.toNat else 0

/-- Addresses of users. -/
def UserByte (a : U32) : Prop := USER_BASE.toNat ≤ a.toNat ∧ a.toNat < USER_TOP.toNat

/-- What `kmalloc(IOBUF_SIZE)` returns when it does not fail. -/
def KernelBuffer (buffer : U32) : Prop :=
  KERNEL_BASE.toNat ≤ buffer.toNat ∧ buffer.toNat + IOBUF_SIZE.toNat ≤ 2 ^ 32

/-- Memory holds bytes from an address on. -/
def HoldsBytes (mem : Bytes) (base : U32) (bytes : List U8) : Prop :=
  ∀ i (hi : i < bytes.length), mem (byteAddr base i) = bytes[i]

/-- No user byte has changed, but for the first `n` from `base` on. -/
def SameOutside (mem mem' : Bytes) (base : U32) (n : Nat) : Prop :=
  ∀ a, UserByte a → (∀ i, i < n → a ≠ byteAddr base i) → mem' a = mem a

/-- `checkUserMem` accepts every chunk of the buffer.  It accepts more than is legal: see `checkUserMem_chunk`. -/
def BufferAccepted (mm : MemMap) (base len : U32) (write : Bool) : Prop :=
  ∀ j, 4096 * j < len.toNat →
    (checkUserMem (some mm) (byteAddr base (4096 * j)) (BitVec.ofNat 32 (min (len.toNat - 4096 * j) 4096)) write).1 = true

/-- `if (copied != 0) return copied; return ret;` in a function that returns an `int`. -/
def ioResult (ret : Int) (copied : U32) : Int := if copied ≠ 0 then copied.toInt else ret

/-- The `j`-th call from here on fails for the file. -/
def callFails (d : FatDisk) (inode : U32) (j : Nat) : Bool :=
  (d.file inode).error || (d.answer (d.calls + j)).fails.isSome

/-! ### Lengths and addresses -/

theorem chunkLen_toNat (len : U32) : (chunkLen len).toNat = min len.toNat 4096 := by
  unfold chunkLen IOBUF_SIZE
  split
  · rename_i h
    simp only [gt_iff_lt, BitVec.lt_def, BitVec.toNat_ofNat] at h
    omega
  · rename_i h
    simp only [gt_iff_lt, BitVec.lt_def, BitVec.toNat_ofNat] at h
    change 4096 = _
    omega

theorem chunkLen_pos {n : U32} (h : n ≠ 0) : 0 < (chunkLen n).toNat := by
  rw [chunkLen_toNat]
  have : n.toNat ≠ 0 := fun h0 => h (BitVec.eq_of_toNat_eq h0)
  omega

theorem byteAddr_toNat {a : U32} {i : Nat} (h : a.toNat + i < 2 ^ 32) : (byteAddr a i).toNat = a.toNat + i := by
  simp only [byteAddr, BitVec.toNat_add, BitVec.toNat_ofNat]
  omega

/-- The check of a chunk. -/
theorem checkUserMem_chunk (mm : MemMap) (a : U32) {n : U32} (hpos : 0 < n.toNat) (hle : n.toNat ≤ 4096)
    (write : Bool) : (checkUserMem (some mm) a n write).1 = true ↔ InUserSpace a n := by
  unfold checkUserMem
  by_cases hin : InUserSpace a n
  · have haccess := (isUserCanAccess_iff hpos).mpr hin
    have hbase := hin.1
    rw [show USER_BASE.toNat = 0x200000 from rfl] at hbase
    have hstart : ¬ a < n := by
      rw [BitVec.lt_def]
      omega
    unfold checkUserLoop
    simp [haccess, hstart, hin]
  · have haccess : isUserCanAccess a (a + n) = false := by
      rw [← Bool.not_eq_true, isUserCanAccess_iff hpos]
      exact hin
    simp [haccess, hin]

theorem inUserSpace_iff_room {base n : U32} (hpos : 0 < n.toNat) :
    InUserSpace base n ↔ n.toNat ≤ userRoom base := by
  unfold InUserSpace userRoom
  split <;> omega

/-- A chunk behind an accepted part of the buffer. -/
theorem inUserSpace_byteAddr {base n : U32} {c : Nat} (hc : c ≤ userRoom base) (hpos : 0 < n.toNat) :
    InUserSpace (byteAddr base c) n ↔ c + n.toNat ≤ userRoom base := by
  cases Nat.eq_zero_or_pos c with
  | inl h =>
      subst h
      rw [byteAddr_zero, inUserSpace_iff_room hpos, Nat.zero_add]
  | inr h =>
      have hlt := base.isLt
      unfold userRoom at hc ⊢
      unfold InUserSpace
      split at hc
      · rename_i hbase
        have htop : USER_TOP.toNat = 0xB0000000 := rfl
        rw [if_pos hbase, byteAddr_toNat (by omega)]
        omega
      · omega

/-- The accepted part of a buffer lies in user space. -/
theorem userByte_byteAddr {base : U32} {i : Nat} (h : i < userRoom base) :
    (byteAddr base i).toNat = base.toNat + i ∧ UserByte (byteAddr base i) := by
  have hlt := base.isLt
  have htop : USER_TOP.toNat = 0xB0000000 := rfl
  unfold userRoom at h
  split at h
  · have heq : (byteAddr base i).toNat = base.toNat + i := byteAddr_toNat (by omega)
    refine ⟨heq, ?_⟩
    unfold UserByte
    omega
  · omega

/-- User addresses are not in the buffer of the kernel. -/
theorem KernelBuffer.ne_userByte {buffer a : U32} (h : KernelBuffer buffer) {i : Nat} (hi : i < 4096)
    (ha : UserByte a) : a ≠ byteAddr buffer i := by
  intro heq
  obtain ⟨hbase, hend⟩ := h
  have hbuf : (byteAddr buffer i).toNat = buffer.toNat + i := by
    rw [show IOBUF_SIZE.toNat = 4096 from rfl] at hend
    exact byteAddr_toNat (by omega)
  have htop := ha.2
  rw [heq, hbuf, show USER_TOP.toNat = 0xB0000000 from rfl] at htop
  rw [show KERNEL_BASE.toNat = 0xC0000000 from rfl] at hbase
  omega

/-- A buffer is accepted as far as the user has room. -/
theorem bufferAccepted_iff {base len : U32} (mm : MemMap) (write : Bool) (hlen : len ≠ 0) :
    BufferAccepted mm base len write ↔ len.toNat ≤ userRoom base := by
  have hpos : len.toNat ≠ 0 := fun h0 => hlen (BitVec.eq_of_toNat_eq h0)
  have hchunk : ∀ j, 4096 * j ≤ userRoom base → 4096 * j < len.toNat →
      ((checkUserMem (some mm) (byteAddr base (4096 * j)) (BitVec.ofNat 32 (min (len.toNat - 4096 * j) 4096)) write).1 =
          true ↔
        4096 * j + min (len.toNat - 4096 * j) 4096 ≤ userRoom base) := by
    intro j hroom hlt
    have hn : (BitVec.ofNat 32 (min (len.toNat - 4096 * j) 4096)).toNat = min (len.toNat - 4096 * j) 4096 := by
      rw [BitVec.toNat_ofNat]
      omega
    rw [checkUserMem_chunk mm _ (by omega) (by omega), inUserSpace_byteAddr hroom (by omega), hn]
  constructor
  · intro hlegal
    -- Chunk by chunk, the user has room for what lies before.
    have hall : ∀ j, 4096 * j < len.toNat → 4096 * j + min (len.toNat - 4096 * j) 4096 ≤ userRoom base := by
      intro j
      induction j with
      | zero => exact fun hlt => (hchunk 0 (Nat.zero_le _) hlt).mp (hlegal 0 hlt)
      | succ j ih =>
          intro hlt
          have hbefore := ih (by omega)
          exact (hchunk (j + 1) (by omega) hlt).mp (hlegal (j + 1) hlt)
    have := hall ((len.toNat - 1) / 4096) (by omega)
    omega
  · intro hroom j hlt
    exact (hchunk j (by omega) hlt).mpr (by omega)

/-- A count of at most `INT32_MAX` is returned as it is, and another one as an error. -/
theorem ioResult_cases (ret : Int) (copied : U32) :
    (copied.toNat = 0 ∧ ioResult ret copied = ret) ∨
    (0 < copied.toNat ∧ copied.toNat < 2 ^ 31 ∧ ioResult ret copied = copied.toNat) ∨
    (2 ^ 31 ≤ copied.toNat ∧ ioResult ret copied < 0) := by
  unfold ioResult
  have hlt := copied.isLt
  by_cases hzero : copied = 0
  · exact Or.inl ⟨by rw [hzero]; rfl, if_neg (not_not.mpr hzero)⟩
  · have hpos : copied.toNat ≠ 0 := fun h0 => hzero (BitVec.eq_of_toNat_eq h0)
    rw [if_pos hzero, BitVec.toInt_eq_toNat_cond]
    split <;> omega

/-! ### Stored bytes -/

section Stores

variable {mem : Bytes} {dst : U32} {bytes : List U8}

theorem storeBytes_of_ne {a : U32} (ha : ∀ i, i < bytes.length → a ≠ byteAddr dst i) :
    storeBytes mem dst bytes a = mem a := by
  induction bytes generalizing mem dst with
  | nil => rfl
  | cons b bytes ih =>
      unfold storeBytes
      rw [ih]
      · exact Function.update_of_ne (by simpa using ha 0 (by simp)) _ _
      · intro i hi
        rw [byteAddr_succ]
        exact ha (i + 1) (by simpa using hi)

theorem storeBytes_holds (hlen : bytes.length ≤ 2 ^ 32) : HoldsBytes (storeBytes mem dst bytes) dst bytes := by
  induction bytes generalizing mem dst with
  | nil => exact fun i hi => absurd hi (by simp)
  | cons b bytes ih =>
      rw [List.length_cons] at hlen
      intro i hi
      unfold storeBytes
      cases i with
      | zero =>
          rw [storeBytes_of_ne]
          · simp
          · intro j hj heq
            rw [byteAddr_succ] at heq
            have := byteAddr_inj (by omega) (by omega) heq
            omega
      | succ i =>
          rw [← byteAddr_succ]
          exact ih (by omega) i (by simpa using hi)

end Stores

/-! ### Entries of a table -/

theorem findFileWithFd_updateEntry {fs : FileStruct} {fd : Int} {f : File} (h : findFileWithFd fs fd = some f)
    (node : U32) {g : File → File} (hg : ∀ f, (g f).fd = f.fd) :
    findFileWithFd { fs with fileList := updateEntry fs.fileList node g } fd =
      some (if f.node = node then g f else f) := by
  unfold findFileWithFd at h ⊢
  dsimp only
  rw [updateEntry, List.find?_map]
  have hpred : ((fun f : File => decide (fd = f.fd)) ∘ fun f => if f.node = node then g f else f) =
      fun f => decide (fd = f.fd) := by
    funext f
    dsimp only [Function.comp_apply]
    split
    · rw [hg]
    · rfl
  rw [hpred, h, Option.map_some]

/-- A descriptor of a table, with its inode and its rights. -/
def FdOn (k : Kernel) (files : U32) (fd : Int) (inode : U32) (readable writable : Bool) : Prop :=
  ∃ fs f, k.files files = some fs ∧ findFileWithFd fs fd = some f ∧ f.inode = inode ∧ f.readable = readable ∧
    f.writable = writable

/-- The calls on a descriptor leave it to its inode, with its rights. -/
theorem FdOn.touched {k k' : Kernel} {files inode : U32} {fd : Int} {readable writable : Bool}
    (h : FdOn k files fd inode readable writable) (ht : Touched k files fd k') :
    FdOn k' files fd inode readable writable := by
  cases ht with
  | same => exact h
  | @moved fs' file g hfs' hfind' hg =>
      obtain ⟨fs, f, hfs, hfind, hinode, hreadable, hwritable⟩ := h
      obtain rfl : fs' = fs := Option.some.inj (hfs'.symm.trans hfs)
      obtain rfl : file = f := Option.some.inj (hfind'.symm.trans hfind)
      refine ⟨_, g file, Function.update_self .., ?_, ?_, ?_, ?_⟩
      · rw [findFileWithFd_updateEntry hfind _ hg.fd, if_pos rfl]
      · rw [hg.inode, hinode]
      · rw [hg.readable, hreadable]
      · rw [hg.writable, hwritable]

/-! ### A file of four bytes -/

/-- Descriptor 0, on the inode at `0xC0030000`. -/
def oneEntry (readable writable : Bool) : File :=
  ⟨0xC0002010#32, .opened, readable, writable, 0, 0, 0xC0030000#32, 1⟩

@[inherit_doc oneEntry] def oneKernel (readable writable : Bool) : Kernel :=
  (bootKernel smallImage fortyFrames).setFileStruct 0xC0002000#32 ⟨0, [oneEntry readable writable], 1, 1⟩

theorem oneKernel_fdOn (readable writable : Bool) :
    FdOn (oneKernel readable writable) 0xC0002000#32 0 0xC0030000#32 readable writable :=
  ⟨⟨0, [oneEntry readable writable], 1, 1⟩, oneEntry readable writable, by simp [oneKernel, Kernel.setFileStruct], rfl,
    rfl, rfl, rfl⟩

/-- The file has four bytes, its volume has room for two clusters of 4096, and the calls fail or not. -/
def fourByteDisk (fails : Option Nat) : FatDisk :=
  ⟨fun _ => ⟨[1, 2, 3, 4], 0, false, 4⟩, fun _ => ⟨fails, 8192, fun _ => 0⟩, 0⟩

/-- Two pages that a user may read and write. -/
def writablePages : MemMap := ⟨[⟨0, 0x200000, 0x202000, VMM_READ ||| VMM_WRITE⟩], none, 0, 1, 0⟩

/-- A buffer of the kernel. -/
def smallBuffer : U32 := 0xC0010000#32

theorem smallBuffer_ok : KernelBuffer smallBuffer := by
  unfold KernelBuffer smallBuffer
  decide

end Fs
end FreakOS
