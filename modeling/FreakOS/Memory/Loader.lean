import FreakOS.Lib.Resumption
import FreakOS.Memory.PageFault

/-!
# Loading a program

`load_icode` of `task.c` with `sysfile_read` of `sysfile.c`, up to the point where the new memory map is
installed, and the arguments that are then written to the new stack.

The file systems are not modelled.  They answer `file_seek` and `file_read`, and the task may have to wait for an
answer, so the loader is a program with questions (`Lib.Prog`).  What a failed `file_read` has put in the buffer
is part of its answer.  `file_read` leaves the length as it was when it fails, and `sysfile_read` copies that
much from the buffer.

Two things can go on in the source that the model does not follow (`Fault.wildPointer`): a `memset` that runs
past the end of its page, and a page of a segment at or above `KERNEL_BASE`, which would replace the mapping
through which the kernel itself reaches its memory.

* `sysfileRead`, `loadIcodeRead` — reading into a page or into a structure on the stack.
* `loadFilePart`, `loadBss`, `loadSegment`, `loadSegments` — the program headers.
* `mapIcode` — the new memory map, or the error paths.
* `pushArgs` — `argc` and `argv`.
* `loadIcode` — all of it.
-/

namespace FreakOS
namespace Memory

open Lib

/-! ### Files -/

/-- A call of the file system. -/
inductive FileCall where
  /-- `file_seek(fd, offset, LSEEK_SET)`. -/
  | seek (offset : U32)
  /-- `file_read(fd, buffer, len, &alen)` at a position. -/
  | read (pos len : U32)

/-- What has been put in the buffer, and the code that is returned. -/
structure FileAnswer where
  bytes : List U8
  ret : Int

/-- A part of the loader. -/
abbrev Load := Prog Machine Fault FileCall FileAnswer

/-- Run a function of the kernel. -/
def Load.call {α : Type} (f : Machine → Res (α × Machine)) : Load α := Prog.lift f

/-- Change the memory. -/
def Load.write (f : Machine → Machine) : Load Unit := Prog.lift fun s => .ok ((), f s)

/-- The frame at a kernel address. -/
def frameAt (kva : U32) : Nat := ((kva - KERNEL_BASE) >>> 12).toNat

/-- The first bytes of a frame. -/
def frameBytes (words : FrameWords) (len : Nat) : List U8 := (List.range len).map (frameByte words)

/-- `IOBUF_SIZE`. -/
def IOBUF_SIZE : U32 := 4096#32

/-- Where a read goes to: a place in a page, or a variable of the caller. -/
abbrev Dest := Option (Nat × Nat)

/-- Copy to the destination, behind what has been copied before. -/
def putBytes (dest : Dest) (copied : Nat) (bytes : List U8) (s : Machine) : Machine :=
  match dest with
  | none => s
  | some (page, off) => s.fillFrame page (writeBytes (s.mem page) (off + copied) bytes)

/-- The loop of `sysfile_read`: what has been copied, and the last code. -/
def sysfileReadLoop (dest : Dest) (buffer : Nat) : Nat → U32 → U32 → List U8 → Load (List U8 × Int)
  | 0, _, _, _ => .stop .outOfFuel
  | fuel + 1, pos, len, copied =>
      if len = 0 then pure (copied, 0)
      else do
        let want := if IOBUF_SIZE > len then len else IOBUF_SIZE
        let answer ← Prog.query (.read pos want)
        let got := answer.bytes.take want.toNat
        .write fun s => s.fillFrame buffer (writeBytes (s.mem buffer) 0 got)
        let alen := if answer.ret = 0 then got.length else want.toNat
        let bytes ← .call fun s => .ok (frameBytes (s.mem buffer) alen, s)
        .write (putBytes dest copied.length bytes)
        if answer.ret ≠ 0 ∨ alen = 0 then return (copied ++ bytes, answer.ret)
        else
          let pos := pos + BitVec.ofNat 32 alen
          sysfileReadLoop dest buffer fuel pos (len - BitVec.ofNat 32 alen) (copied ++ bytes)

/-- `sysfile_read(fd, base, len)` at a position, for a file that is open for reading. -/
def sysfileRead (dest : Dest) (pos len : U32) : Load (List U8 × Int) :=
  if len = 0 then pure ([], 0)
  else do
    let buffer ← .call fun s => kmalloc s IOBUF_SIZE
    let (copied, ret) ← sysfileReadLoop dest (frameAt buffer) (len.toNat + 1) pos len []
    .call fun s => (kfree s buffer IOBUF_SIZE).map ((), ·)
    return (copied, if copied.length ≠ 0 then copied.length else ret)

/-- `load_icode_read(fd, buf, len, offset)`; the bytes are what `buf` has got. -/
def loadIcodeRead (dest : Dest) (len offset : U32) : Load (List U8 × Int) := do
  let answer ← Prog.query (.seek offset)
  if answer.ret ≠ 0 then return ([], answer.ret)
  else
    let (bytes, ret) ← sysfileRead dest offset len
    if ret ≠ len.toNat then return (bytes, if ret < 0 then ret else -1) else return (bytes, 0)

/-! ### ELF files -/

/-- The little-endian number in `n` bytes from `off` on. -/
def leWord (bytes : List U8) (off : Nat) : Nat → Nat
  | 0 => 0
  | n + 1 => (bytes[off]?.getD 0).toNat + 256 * leWord bytes (off + 1) n

/-- The fields of an `ELF_Header_t` that are read. -/
structure ElfHeader where
  magic : U32
  entry : U32
  phoff : U32
  phnum : Nat

/-- The fields of an `ELF_SectionHeader_t` that are read. -/
structure ProgramHeader where
  type : U32
  offset : U32
  va : U32
  filesz : U32
  memsz : U32
  flags : U32

def sizeofElfHeader : U32 := 52#32

def sizeofProgramHeader : U32 := 32#32

def ElfHeader.decode (bytes : List U8) : ElfHeader where
  magic := BitVec.ofNat 32 (leWord bytes 0 4)
  entry := BitVec.ofNat 32 (leWord bytes 24 4)
  phoff := BitVec.ofNat 32 (leWord bytes 28 4)
  phnum := leWord bytes 44 2

def ProgramHeader.decode (bytes : List U8) : ProgramHeader where
  type := BitVec.ofNat 32 (leWord bytes 0 4)
  offset := BitVec.ofNat 32 (leWord bytes 4 4)
  va := BitVec.ofNat 32 (leWord bytes 8 4)
  filesz := BitVec.ofNat 32 (leWord bytes 16 4)
  memsz := BitVec.ofNat 32 (leWord bytes 20 4)
  flags := BitVec.ofNat 32 (leWord bytes 24 4)

/-- `ELF_MAGIC`. -/
def ELF_MAGIC : U32 := 0x464C457F#32
/-- `ELF_PT_LOAD`. -/
def ELF_PT_LOAD : U32 := 1#32
/-- `ELF_PF_X`. -/
def ELF_PF_X : U32 := 1#32
/-- `ELF_PF_W`. -/
def ELF_PF_W : U32 := 2#32
/-- `ELF_PF_R`. -/
def ELF_PF_R : U32 := 4#32
/-- `E_INVAL_ELF`. -/
def E_INVAL_ELF : Int := 14
/-- `USTACK_TOP`. -/
def USTACK_TOP : U32 := USER_TOP
/-- `USTACK_SIZE`. -/
def USTACK_SIZE : U32 := 256 * PGSIZE
/-- `EXEC_MAX_ARG_NUM`. -/
def EXEC_MAX_ARG_NUM : Nat := 32
/-- `EXEC_MAX_ARG_LEN`. -/
def EXEC_MAX_ARG_LEN : Nat := 4095

/-! ### Segments -/

/-- The variables of the loops of `load_icode`. -/
structure Cursor where
  start : U32
  la : U32
  page : Option Nat

/-- `pgdir_alloc_page` for a page of a segment. -/
def segmentPage (pgdir : Nat) (la perm : U32) : Load (Option Nat) :=
  if la < KERNEL_BASE then .call fun s => pgdirAllocPage s pgdir la perm else .stop .wildPointer

/-- `memset(page2kva(page) + off, 0, size)`. -/
def clearBytes (page : Option Nat) (off size : U32) : Load Unit :=
  match page with
  | none => .stop .wildPointer
  | some page =>
      if off.toNat + size.toNat ≤ 4096 then
        .write fun s => s.fillFrame page (writeBytes (s.mem page) off.toNat (List.replicate size.toNat 0))
      else .stop .wildPointer

/-- The number of bytes from `start` to the end of its page at `la`, or to `stop`. -/
def chunkSize (start la stop : U32) : U32 :=
  let size := PGSIZE - (start - la)
  if stop < la + PGSIZE then size - (la + PGSIZE - stop) else size

/-- The rounds that a loop over pages can take. -/
def segmentFuel : Nat := 2 ^ 20

/-- The loop over the part of a segment that is in the file. -/
def loadFilePart (pgdir : Nat) (perm stop : U32) : Nat → Cursor → U32 → Load (Int × Cursor)
  | 0, _, _ => .stop .outOfFuel
  | fuel + 1, c, offset =>
      if c.start < stop then do
        let page ← segmentPage pgdir c.la perm
        match page with
        | none => return (-E_NOMEM, c)
        | some page =>
            let size := chunkSize c.start c.la stop
            let (_, ret) ← loadIcodeRead (some (page, (c.start - c.la).toNat)) size offset
            if ret ≠ 0 then return (ret, c)
            else loadFilePart pgdir perm stop fuel ⟨c.start + size, c.la + PGSIZE, some page⟩ (offset + size)
      else pure (0, c)

/-- What follows it: the rest of the last page is cleared. -/
def clearTail (stop : U32) (c : Cursor) : Load Cursor :=
  if c.start < c.la then
    if c.start = stop then pure c
    else do
      let off := c.start + PGSIZE - c.la
      let size := if stop < c.la then PGSIZE - off - (c.la - stop) else PGSIZE - off
      clearBytes c.page off size
      return { c with start := c.start + size }
  else pure c

/-- The loop over the part of a segment that is not in the file. -/
def loadBss (pgdir : Nat) (perm stop : U32) : Nat → Cursor → Load Int
  | 0, _ => .stop .outOfFuel
  | fuel + 1, c =>
      if c.start < stop then do
        let page ← segmentPage pgdir c.la perm
        match page with
        | none => return -E_NOMEM
        | some page =>
            let size := chunkSize c.start c.la stop
            clearBytes (some page) (c.start - c.la) size
            loadBss pgdir perm stop fuel ⟨c.start + size, c.la + PGSIZE, some page⟩
      else pure 0

/-- The flags of the area of a segment. -/
def segmentFlags (flags : U32) : U32 :=
  (if flags &&& ELF_PF_X ≠ 0 then VMM_EXEC else 0) ||| (if flags &&& ELF_PF_W ≠ 0 then VMM_WRITE else 0) |||
    (if flags &&& ELF_PF_R ≠ 0 then VMM_READ else 0)

/-- The body of the loop over the program headers, with a header that has been read. -/
def loadSegment (ph : ProgramHeader) (mm : MemMap) : Load (Int × MemMap) :=
  if ph.type ≠ ELF_PT_LOAD then pure (0, mm)
  else if ph.filesz > ph.memsz then pure (-E_INVAL_ELF, mm)
  else if ph.filesz = 0 then pure (0, mm)
  else do
    let vmFlags := segmentFlags ph.flags
    let perm := pagePerm vmFlags
    let (ret, mm) ← .call fun s => do
      let (ret, mm, s) ← mmMap s mm ph.va ph.memsz vmFlags
      return ((ret, mm), s)
    if ret ≠ 0 then return (ret, mm)
    else
      let c : Cursor := ⟨ph.va, roundDown ph.va PGSIZE, none⟩
      let (ret, c) ← loadFilePart mm.dir perm (ph.va + ph.filesz) segmentFuel c ph.offset
      if ret ≠ 0 then return (ret, mm)
      else
        let c ← clearTail (ph.va + ph.memsz) c
        let ret ← loadBss mm.dir perm (ph.va + ph.memsz) segmentFuel c
        return (ret, mm)

/-- The loop over the program headers: `left` of them are still to come. -/
def loadSegments (elf : ElfHeader) : Nat → MemMap → Load (Int × MemMap)
  | 0, mm => pure (0, mm)
  | left + 1, mm => do
      let phnum := elf.phnum - (left + 1)
      let (bytes, ret) ← loadIcodeRead none sizeofProgramHeader
        (elf.phoff + sizeofProgramHeader * BitVec.ofNat 32 phnum)
      if ret ≠ 0 then return (ret, mm)
      else
        let (ret, mm) ← loadSegment (.decode bytes) mm
        if ret ≠ 0 then return (ret, mm) else loadSegments elf left mm

/-! ### The stack -/

/-- `assert(pgdir_alloc_page(mm->pgdir, USTACK_TOP - n * PGSIZE, PTE_USER) != NULL, …)`. -/
def stackPage (mm : MemMap) (n : U32) : Load Unit := do
  let page ← .call fun s => pgdirAllocPage s mm.dir (USTACK_TOP - n * PGSIZE) PTE_USER
  match page with
  | none => .stop (.panic "pgdir_alloc_page err!")
  | some _ => pure ()

/-- The area of the stack, and its four uppermost pages. -/
def loadStack (mm : MemMap) : Load (Int × MemMap) := do
  let (ret, mm) ← .call fun s => do
    let (ret, mm, s) ← mmMap s mm (USTACK_TOP - USTACK_SIZE) USTACK_SIZE (VMM_READ ||| VMM_WRITE ||| VMM_STACK)
    return ((ret, mm), s)
  if ret ≠ 0 then return (ret, mm)
  else
    stackPage mm 1
    stackPage mm 2
    stackPage mm 3
    stackPage mm 4
    return (0, mm)

/-! ### The memory map -/

/-- A program that has been loaded: the address of its memory map, the map, and where it starts. -/
structure Image where
  node : U32
  mm : MemMap
  entry : U32

/-- The label `bad_pgdir_cleanup_mm`. -/
def badPgdirCleanupMm (node : U32) (mm : MemMap) (ret : Int) : Load (Int × Option Image) := do
  .call fun s => do
    let (_, s) ← mmDestroy s node mm
    return ((), s)
  return (ret, none)

/-- The label `bad_elf_cleanup_pgdir`. -/
def badElfCleanupPgdir (node : U32) (mm : MemMap) (ret : Int) : Load (Int × Option Image) := do
  .call fun s => (putPgdir s mm).map ((), ·)
  badPgdirCleanupMm node mm ret

/-- The label `bad_cleanup_mmap`. -/
def badCleanupMmap (node : U32) (mm : MemMap) (ret : Int) : Load (Int × Option Image) := do
  .call fun s => (exitMmap s (some mm)).map ((), ·)
  badElfCleanupPgdir node mm ret

/-- `load_icode(fd, argc, kargv)` up to `mm_ref_inc(mm)`. -/
def mapIcode : Load (Int × Option Image) := do
  let node ← .call fun s => kmalloc s sizeofMemMap
  let pgdir ← .call setupPgdir
  match pgdir with
  | none => badPgdirCleanupMm node mmCreate (-E_NOMEM)
  | some pgdir =>
      let mm := { mmCreate with pgdir := page2kva pgdir }
      let (bytes, ret) ← loadIcodeRead none sizeofElfHeader 0
      let elf := ElfHeader.decode bytes
      if ret ≠ 0 then badElfCleanupPgdir node mm ret
      else if elf.magic ≠ ELF_MAGIC then badElfCleanupPgdir node mm (-E_INVAL_ELF)
      else
        let (ret, mm) ← loadSegments elf elf.phnum mm
        if ret ≠ 0 then badCleanupMmap node mm ret
        else
          let (ret, mm) ← loadStack mm
          if ret ≠ 0 then badCleanupMmap node mm ret
          else return (0, some ⟨node, { mm with ref := mm.ref + 1 }, elf.entry⟩)

/-! ### Arguments -/

/-- A string of `kargv`. -/
structure Arg where
  bytes : List U8
  noNul : 0 ∉ bytes
  length_le : bytes.length ≤ EXEC_MAX_ARG_LEN

/-- A byte that the kernel writes at an address of the new map.  A page that is missing is a page fault in the
kernel, and one that cannot be resolved stops the machine. -/
def kernelStore (va : U32) (byte : U8) (mm : MemMap) (s : Machine) : Res (MemMap × Machine) :=
  let store (s : Machine) (page : Nat) : Machine :=
    s.fillFrame page (writeBytes (s.mem page) (va.toNat % 4096) [byte])
  match target (look s mm.dir (pgdIndex va) (pteIndex va)) with
  | some page => .ok (mm, store s page)
  | none => do
      let (ret, s, mm) ← doPgfault s mm 2 va
      if ret ≠ 0 then .error (.panic "PageFault in kernel! System halted\n")
      else
        match target (look s mm.dir (pgdIndex va) (pteIndex va)) with
        | some page => return (mm, store s page)
        | none => .error .wildPointer

/-- Bytes that the kernel writes from an address on. -/
def kernelWrite : U32 → List U8 → MemMap → Machine → Res (MemMap × Machine)
  | _, [], mm, s => .ok (mm, s)
  | va, byte :: rest, mm, s => do
      let (mm, s) ← kernelStore va byte mm s
      kernelWrite (va + 1) rest mm s

/-- The bytes of a word, the lowest one first. -/
def leBytes (word : U32) : List U8 :=
  [word.extractLsb' 0 8, word.extractLsb' 8 8, word.extractLsb' 16 8, word.extractLsb' 24 8]

/-- `argv_size`: the strings with their terminators. -/
def argvSize (args : List Arg) : U32 := BitVec.ofNat 32 (args.map fun a => a.bytes.length + 1).sum

/-- The first `stacktop`. -/
def argsTop (args : List Arg) : U32 := USTACK_TOP - (argvSize args / 4 + 1) * 4

/-- The loop that copies the strings: the next string goes to `str`, and its address to `slot`. -/
def pushStrings : List Arg → U32 → U32 → MemMap → Machine → Res (MemMap × Machine)
  | [], _, _, mm, s => .ok (mm, s)
  | arg :: rest, str, slot, mm, s => do
      let (mm, s) ← kernelWrite str (arg.bytes ++ [0]) mm s
      let (mm, s) ← kernelWrite slot (leBytes str) mm s
      pushStrings rest (str + BitVec.ofNat 32 (arg.bytes.length + 1)) (slot + 4) mm s

/-- `uargv`. -/
def argvBase (args : List Arg) : U32 := argsTop args - BitVec.ofNat 32 args.length * 4

/-- The arguments on the new stack; the stack pointer is the last address. -/
def pushArgs (args : List Arg) (mm : MemMap) (s : Machine) : Res (MemMap × Machine) := do
  let (mm, s) ← pushStrings args (argsTop args) (argvBase args) mm s
  kernelWrite (argvBase args - 4) (leBytes (BitVec.ofNat 32 args.length)) mm s

/-- `load_icode(fd, argc, kargv)`, apart from the fields of the task. -/
def loadIcode (args : List Arg) : Load (Int × Option Image) := do
  let (ret, image) ← mapIcode
  match image with
  | none => return (ret, none)
  | some image =>
      let mm ← .call fun s => pushArgs args image.mm s
      return (0, some { image with mm := mm })

end Memory
end FreakOS
