import FreakOS.Memory.KernelStore

/-!
# The arguments of a new program

`load_icode` adds the lengths of the strings, rounds the sum up, and puts the strings above and the pointers and `argc`
below the address that it gets.  The second loop adds the same lengths again.  Whatever the arguments are, the areas do
not meet, the sum of the lengths is far below the size of the stack, and `user_start` finds what it looks for.

* `ArgsAt` — what `user_start` finds.
* `Building.pushStrings` — the loop that copies the strings.
* `argsTop_toNat`, `userEsp_toNat` — the addresses.
* `loadIcode_lays_out_args` — every run of `load_icode` that succeeds.
-/

namespace FreakOS
namespace Memory

open Lib
open Lib.Extent
open Lib.Prog (Meets Ends)

/-! ### What user code finds -/

/-- The word that user code reads at an address. -/
def userWord (s : Machine) (pgdir : Nat) (va : U32) : Option U32 := do
  let b0 ← userByte s pgdir va
  let b1 ← userByte s pgdir (va + 1)
  let b2 ← userByte s pgdir (va + 2)
  let b3 ← userByte s pgdir (va + 3)
  return b3 ++ b2 ++ b1 ++ b0

/-- `user_start`: the `argc` and the `argv` that it hands to `umain`. -/
def userStart (s : Machine) (pgdir : Nat) (esp : U32) : Option (U32 × U32) :=
  (userWord s pgdir esp).map fun argc => (argc, esp + 4)

/-- The areas of the strings with their terminators. -/
def strAreas (argv : List U32) (args : List Arg) : List Extent :=
  List.zipWith (fun ptr arg => ⟨ptr.toNat, ptr.toNat + (arg.bytes.length + 1)⟩) argv args

/-- The area of `argc`, the area of `argv`, and those of the strings. -/
def argAreas (esp : U32) (args : List Arg) (argv : List U32) : List Extent :=
  ⟨esp.toNat, esp.toNat + 4⟩ :: ⟨esp.toNat + 4, esp.toNat + 4 + 4 * args.length⟩ :: strAreas argv args

/-- The addresses of the stack. -/
def stackArea : Extent := ⟨(USTACK_TOP - USTACK_SIZE).toNat, USTACK_TOP.toNat⟩

/-- `user_start` finds the arguments at the stack pointer. -/
structure ArgsAt (s : Machine) (pgdir : Nat) (esp : U32) (args : List Arg) (argv : List U32) : Prop where
  start : userStart s pgdir esp = some (BitVec.ofNat 32 args.length, esp + 4)
  length : argv.length = args.length
  pointers : ∀ (i : Nat) (ptr : U32), argv[i]? = some ptr → userWord s pgdir (byteAddr (esp + 4) (4 * i)) = some ptr
  strings : ∀ (i : Nat) (ptr : U32) (arg : Arg), argv[i]? = some ptr → args[i]? = some arg →
    UserBytes s pgdir ptr (arg.bytes ++ [0])
  aligned : esp.toNat % 4 = 0
  apart : (argAreas esp args argv).Pairwise Apart
  inStack : ∀ e ∈ argAreas esp args argv, stackArea.lo ≤ e.lo ∧ e.hi ≤ stackArea.hi

theorem leBytes_word (w : U32) :
    w.extractLsb' 24 8 ++ w.extractLsb' 16 8 ++ w.extractLsb' 8 8 ++ w.extractLsb' 0 8 = w := by
  -- A frame that holds the word everywhere is its bytes.
  have hword := congrFun (wordsOf_frameByte fun _ => w) 0
  simpa [wordsOf, frameByte] using hword

theorem userWord_of_bytes {s : Machine} {d : Nat} {va w : U32} (h : UserBytes s d va (leBytes w)) :
    userWord s d va = some w := by
  have h0 : userByte s d va = some (w.extractLsb' 0 8) := by
    rw [← h 0 _ rfl, byteAddr_zero]
  have h1 : userByte s d (va + 1) = some (w.extractLsb' 8 8) := h 1 _ rfl
  have h2 : userByte s d (va + 2) = some (w.extractLsb' 16 8) := h 2 _ rfl
  have h3 : userByte s d (va + 3) = some (w.extractLsb' 24 8) := h 3 _ rfl
  unfold userWord
  rw [h0, h1, h2, h3]
  exact congrArg some (leBytes_word w)

/-! ### Addresses -/

theorem byteAddr_toNat {a : U32} {i : Nat} (h : a.toNat + i < 2 ^ 32) : (byteAddr a i).toNat = a.toNat + i := by
  simp only [byteAddr, BitVec.toNat_add, BitVec.toNat_ofNat]
  omega

/-- The bytes of the strings with their terminators. -/
def argBytes (args : List Arg) : Nat := (args.map fun a => a.bytes.length + 1).sum

theorem argBytes_le (args : List Arg) : argBytes args ≤ args.length * (EXEC_MAX_ARG_LEN + 1) := by
  induction args with
  | nil => exact Nat.zero_le _
  | cons arg rest ih =>
      have hlen := arg.length_le
      have hsum : argBytes (arg :: rest) = arg.bytes.length + 1 + argBytes rest := rfl
      rw [hsum, List.length_cons, Nat.succ_mul]
      omega

/-- The addresses of the strings, from `str` on. -/
def strPtrs : U32 → List Arg → List U32
  | _, [] => []
  | str, arg :: rest => str :: strPtrs (byteAddr str (arg.bytes.length + 1)) rest

/-- `tf->user_esp`. -/
def userEsp (args : List Arg) : U32 := argvBase args - 4

section Layout

variable {args : List Arg}

/-- The strings of 32 arguments fill at most 32 of the 256 pages of the stack. -/
theorem argBytes_bound (hargs : args.length ≤ EXEC_MAX_ARG_NUM) : argBytes args ≤ 0x20000 := by
  have hle := argBytes_le args
  have hmul := Nat.mul_le_mul_right (EXEC_MAX_ARG_LEN + 1) hargs
  have hmax : EXEC_MAX_ARG_NUM * (EXEC_MAX_ARG_LEN + 1) = 0x20000 := rfl
  omega

theorem four_toNat : (4 : U32).toNat = 4 := rfl

theorem argsTop_toNat (hargs : args.length ≤ EXEC_MAX_ARG_NUM) :
    (argsTop args).toNat = USTACK_TOP.toNat - (argBytes args / 4 + 1) * 4 := by
  have hbound := argBytes_bound hargs
  have hsize : (argvSize args).toNat = argBytes args := by
    unfold argvSize
    rw [BitVec.toNat_ofNat]
    exact Nat.mod_eq_of_lt (by show argBytes args < _; omega)
  have hwords : (argvSize args / 4 + 1).toNat = argBytes args / 4 + 1 := by
    rw [BitVec.toNat_add, BitVec.toNat_udiv, hsize, four_toNat, show (1 : U32).toNat = 1 from rfl]
    omega
  have hround : ((argvSize args / 4 + 1) * 4).toNat = (argBytes args / 4 + 1) * 4 := by
    rw [BitVec.toNat_mul, hwords, four_toNat]
    omega
  unfold argsTop
  rw [BitVec.toNat_sub, hround, show USTACK_TOP.toNat = 0xB0000000 from rfl]
  omega

theorem argvBase_toNat (hargs : args.length ≤ EXEC_MAX_ARG_NUM) :
    (argvBase args).toNat = (argsTop args).toNat - 4 * args.length := by
  have hbound := argBytes_bound hargs
  have htop := argsTop_toNat hargs
  have hnum : args.length ≤ 32 := hargs
  rw [show USTACK_TOP.toNat = 0xB0000000 from rfl] at htop
  unfold argvBase
  rw [BitVec.toNat_sub, BitVec.toNat_mul, BitVec.toNat_ofNat, four_toNat]
  omega

theorem userEsp_toNat (hargs : args.length ≤ EXEC_MAX_ARG_NUM) :
    (userEsp args).toNat = (argvBase args).toNat - 4 := by
  have hbound := argBytes_bound hargs
  have htop := argsTop_toNat hargs
  have hbase := argvBase_toNat hargs
  have hnum : args.length ≤ 32 := hargs
  rw [show USTACK_TOP.toNat = 0xB0000000 from rfl] at htop
  unfold userEsp
  rw [BitVec.toNat_sub, four_toNat]
  omega

/-! ### The areas -/

theorem argBytes_cons (arg : Arg) (rest : List Arg) : argBytes (arg :: rest) = arg.bytes.length + 1 + argBytes rest :=
  rfl

/-- The strings are one after the other. -/
theorem strAreas_apart (args : List Arg) (str : U32) (hstr : str.toNat + argBytes args < 2 ^ 32) :
    (strAreas (strPtrs str args) args).Pairwise Apart ∧
      ∀ e ∈ strAreas (strPtrs str args) args, str.toNat ≤ e.lo ∧ e.hi ≤ str.toNat + argBytes args := by
  induction args generalizing str with
  | nil => exact ⟨List.Pairwise.nil, by simp [strAreas, strPtrs]⟩
  | cons arg rest ih =>
      rw [argBytes_cons] at hstr ⊢
      have hnext : (byteAddr str (arg.bytes.length + 1)).toNat = str.toNat + (arg.bytes.length + 1) :=
        byteAddr_toNat (by omega)
      obtain ⟨hapart, hin⟩ := ih (byteAddr str (arg.bytes.length + 1)) (by omega)
      rw [hnext] at hin
      have hcons : strAreas (strPtrs str (arg :: rest)) (arg :: rest) =
          ⟨str.toNat, str.toNat + (arg.bytes.length + 1)⟩ ::
            strAreas (strPtrs (byteAddr str (arg.bytes.length + 1)) rest) rest := rfl
      rw [hcons]
      constructor
      · refine List.pairwise_cons.mpr ⟨?_, hapart⟩
        intro e he
        exact Or.inl (hin e he).1
      · intro e he
        rcases List.mem_cons.mp he with rfl | he
        · exact ⟨le_rfl, by dsimp only; omega⟩
        · obtain ⟨hlo, hhi⟩ := hin e he
          exact ⟨by omega, by omega⟩

theorem mem_strAreas {argv : List U32} {i : Nat} {ptr : U32} {arg : Arg} (hptr : argv[i]? = some ptr)
    (harg : args[i]? = some arg) : ⟨ptr.toNat, ptr.toNat + (arg.bytes.length + 1)⟩ ∈ strAreas argv args := by
  refine List.mem_of_getElem? (i := i) ?_
  unfold strAreas
  rw [List.getElem?_zipWith, hptr, harg]

theorem strPtrs_length (str : U32) (args : List Arg) : (strPtrs str args).length = args.length := by
  induction args generalizing str with
  | nil => rfl
  | cons arg rest ih => rw [strPtrs, List.length_cons, List.length_cons, ih]

end Layout

/-! ### Copying -/

section Copying

variable {lo hi d : Nat} {s s' : Machine} {mm mm' : MemMap}

theorem UserBytes.keep {va : U32} {bytes : List U8} {A : Set Nat} (h : UserBytes s d va bytes)
    (hkept : KeptOutside s s' d A) (hva : va.toNat + bytes.length ≤ 0xC0000000)
    (hout : ∀ x, va.toNat ≤ x → x < va.toNat + bytes.length → x ∉ A) : UserBytes s' d va bytes := by
  intro i b hb
  obtain ⟨hi', -⟩ := List.getElem?_eq_some_iff.mp hb
  have haddr : (byteAddr va i).toNat = va.toNat + i := byteAddr_toNat (by omega)
  refine hkept _ b ?_ ?_ (h i b hb)
  · simp only [pgdIndex, Fin.val_ofNat]
    omega
  · rw [haddr]
    exact hout _ (by omega) (by omega)

/-- The loop that copies the strings, by induction on them.  The pointers are below the strings, and later rounds
write above the strings and pointers of earlier ones. -/
theorem Building.pushStrings {args : List Arg} (h : Building lo hi mm s) {str slot : U32}
    (hslot : slot.toNat + 4 * args.length ≤ str.toNat) (hstr : str.toNat + argBytes args ≤ 0xC0000000)
    (hcall : pushStrings args str slot mm s = .ok (mm', s')) :
    Building lo hi mm' s' ∧ SameAreas mm mm' ∧
      (∀ (i : Nat) (ptr : U32) (arg : Arg), (strPtrs str args)[i]? = some ptr → args[i]? = some arg →
        UserBytes s' mm.dir (byteAddr slot (4 * i)) (leBytes ptr) ∧ UserBytes s' mm.dir ptr (arg.bytes ++ [0])) ∧
      KeptOutside s s' mm.dir
        (Set.Ico slot.toNat (slot.toNat + 4 * args.length) ∪ Set.Ico str.toNat (str.toNat + argBytes args)) := by
  induction args generalizing str slot mm s with
  | nil =>
      obtain ⟨rfl, rfl⟩ := Prod.mk.inj (Except.ok.inj hcall)
      refine ⟨h, SameAreas.refl mm, ?_, KeptOutside.refl s _ _⟩
      intro i ptr arg hptr
      simp [strPtrs] at hptr
  | cons arg rest ih =>
      rw [argBytes_cons, List.length_cons] at *
      obtain ⟨⟨mm₁, s₁⟩, hstring, hcall⟩ := Res.bind_eq_ok.mp hcall
      obtain ⟨⟨mm₂, s₂⟩, hpointer, hrest⟩ := Res.bind_eq_ok.mp hcall
      dsimp only at hpointer hrest
      have hlen : (arg.bytes ++ [0]).length = arg.bytes.length + 1 := by simp
      have hnext : (byteAddr str (arg.bytes.length + 1)).toNat = str.toNat + (arg.bytes.length + 1) :=
        byteAddr_toNat (by omega)
      have hslot' : (byteAddr slot 4).toNat = slot.toNat + 4 := byteAddr_toNat (by omega)
      have hwordLen : (leBytes str).length = 4 := rfl
      obtain ⟨h₁, hsame₁, hbytes₁, hkept₁⟩ := h.kernelWrite (by omega) hstring
      obtain ⟨h₂, hsame₂, hbytes₂, hkept₂⟩ := h₁.kernelWrite (by omega) hpointer
      have hrest : Memory.pushStrings rest (byteAddr str (arg.bytes.length + 1)) (byteAddr slot 4) mm₂ s₂ =
          .ok (mm', s') := hrest
      obtain ⟨h₃, hsame₃, hargs₃, hkept₃⟩ := ih h₂ (by omega) (by omega) hrest
      have hsame₁₂ := hsame₁.trans hsame₂
      rw [hsame₁.dir_eq] at hbytes₂ hkept₂
      rw [hsame₁₂.dir_eq] at hargs₃ hkept₃
      rw [hlen] at hkept₁
      rw [hwordLen] at hkept₂
      rw [hnext, hslot'] at hkept₃
      refine ⟨h₃, hsame₁₂.trans hsame₃, ?_, ((hkept₁.trans hkept₂).trans hkept₃).mono ?_⟩
      · intro i ptr arg' hptr harg
        cases i with
        | zero =>
            obtain rfl : str = ptr := by simpa [strPtrs] using hptr
            obtain rfl : arg = arg' := by simpa using harg
            constructor
            · rw [Nat.mul_zero, byteAddr_zero]
              refine hbytes₂.keep hkept₃ (by omega) ?_
              rintro x hle hlt (⟨hlo, hhi⟩ | ⟨hlo, hhi⟩)
              · omega
              · omega
            · have hmid := hbytes₁.keep hkept₂ (by omega) (by rintro x hle hlt ⟨hlo, hhi⟩; omega)
              refine hmid.keep hkept₃ (by omega) ?_
              rintro x hle hlt (⟨hlo, hhi⟩ | ⟨hlo, hhi⟩)
              · omega
              · omega
        | succ i =>
            obtain ⟨hpointer', hstring'⟩ := hargs₃ i ptr arg' (by simpa [strPtrs] using hptr) (by simpa using harg)
            rw [byteAddr_byteAddr, show 4 + 4 * i = 4 * (i + 1) by omega] at hpointer'
            exact ⟨hpointer', hstring'⟩
      · rintro x ((⟨hlo, hhi⟩ | ⟨hlo, hhi⟩) | (⟨hlo, hhi⟩ | ⟨hlo, hhi⟩))
        · exact Or.inr ⟨hlo, by omega⟩
        · exact Or.inl ⟨hlo, by omega⟩
        · exact Or.inl ⟨by omega, by omega⟩
        · exact Or.inr ⟨by omega, by omega⟩

/-- The three areas are in the stack, one above the other. -/
theorem argAreas_apart {args : List Arg} (hargs : args.length ≤ EXEC_MAX_ARG_NUM) :
    (argAreas (userEsp args) args (strPtrs (argsTop args) args)).Pairwise Apart ∧
      ∀ e ∈ argAreas (userEsp args) args (strPtrs (argsTop args) args), stackArea.lo ≤ e.lo ∧ e.hi ≤ stackArea.hi := by
  have hbound := argBytes_bound hargs
  have htop := argsTop_toNat hargs
  have hbase := argvBase_toNat hargs
  have hesp := userEsp_toNat hargs
  have hnum : args.length ≤ 32 := hargs
  have hlo : stackArea.lo = 0xAFF00000 := rfl
  have hhi : stackArea.hi = 0xB0000000 := rfl
  rw [show USTACK_TOP.toNat = 0xB0000000 from rfl] at htop
  obtain ⟨hapart, hin⟩ := strAreas_apart args (argsTop args) (by omega)
  unfold argAreas
  constructor
  · refine List.pairwise_cons.mpr ⟨?_, List.pairwise_cons.mpr ⟨?_, hapart⟩⟩
    · intro e he
      left
      rcases List.mem_cons.mp he with rfl | he
      · exact le_rfl
      · have habove := (hin e he).1
        dsimp only
        omega
    · intro e he
      have habove := (hin e he).1
      left
      dsimp only
      omega
  · intro e he
    rcases List.mem_cons.mp he with rfl | he
    · exact ⟨by dsimp only; omega, by dsimp only; omega⟩
    rcases List.mem_cons.mp he with rfl | he
    · exact ⟨by dsimp only; omega, by dsimp only; omega⟩
    · obtain ⟨hbelow, habove⟩ := hin e he
      exact ⟨by omega, by omega⟩

/-- The arguments on the new stack. -/
theorem Building.pushArgs {args : List Arg} (h : Building lo hi mm s) (hargs : args.length ≤ EXEC_MAX_ARG_NUM)
    (hcall : pushArgs args mm s = .ok (mm', s')) :
    SameAreas mm mm' ∧ ArgsAt s' mm.dir (userEsp args) args (strPtrs (argsTop args) args) := by
  have hbound := argBytes_bound hargs
  have htop := argsTop_toNat hargs
  have hbase := argvBase_toNat hargs
  have hesp := userEsp_toNat hargs
  have hnum : args.length ≤ 32 := hargs
  rw [show USTACK_TOP.toNat = 0xB0000000 from rfl] at htop
  obtain ⟨⟨mm₁, s₁⟩, hstrings, hargc⟩ := Res.bind_eq_ok.mp hcall
  obtain ⟨h₁, hsame₁, hat, -⟩ := h.pushStrings (by omega) (by omega) hstrings
  have hwordLen : (leBytes (BitVec.ofNat 32 args.length)).length = 4 := rfl
  have hargc : Memory.kernelWrite (userEsp args) (leBytes (BitVec.ofNat 32 args.length)) mm₁ s₁ = .ok (mm', s') := hargc
  obtain ⟨-, hsame₂, hbytes, hkept⟩ := h₁.kernelWrite (by omega) hargc
  rw [hsame₁.dir_eq] at hbytes hkept
  rw [hwordLen] at hkept
  have hargv : userEsp args + 4 = argvBase args := BitVec.sub_add_cancel ..
  obtain ⟨hapart, hin⟩ := argAreas_apart hargs
  have hlength := strPtrs_length (argsTop args) args
  refine ⟨hsame₁.trans hsame₂, ⟨?_, hlength, ?_, ?_, ?_, hapart, hin⟩⟩
  · unfold userStart
    rw [userWord_of_bytes hbytes]
    rfl
  · intro i ptr hptr
    obtain ⟨hi', -⟩ := List.getElem?_eq_some_iff.mp hptr
    rw [hlength] at hi'
    obtain ⟨hword, -⟩ := hat i ptr _ hptr (List.getElem?_eq_getElem hi')
    rw [hargv]
    have haddr : (byteAddr (argvBase args) (4 * i)).toNat = (argvBase args).toNat + 4 * i := byteAddr_toNat (by omega)
    have hptrLen : (leBytes ptr).length = 4 := rfl
    refine userWord_of_bytes (hword.keep hkept (by omega) ?_)
    rintro x hle hlt ⟨hlo, hhi⟩
    omega
  · intro i ptr arg hptr harg
    obtain ⟨-, hstring⟩ := hat i ptr arg hptr harg
    have hlen : (arg.bytes ++ [0]).length = arg.bytes.length + 1 := by simp
    obtain ⟨-, hstrIn⟩ := strAreas_apart args (argsTop args) (by omega)
    obtain ⟨habove, hbelow⟩ := hstrIn _ (mem_strAreas hptr harg)
    dsimp only at habove hbelow
    refine hstring.keep hkept (by omega) ?_
    rintro x hle hlt ⟨hlo, hhi⟩
    omega
  · omega

end Copying

/-! ### Every run -/

/-- **Arguments are handed over intact.**  Let memory be in order, and let at most `EXEC_MAX_ARG_NUM` strings of at most
`EXEC_MAX_ARG_LEN` bytes be given.  In every run of `load_icode` that returns 0, whatever the file system answers and
whatever the other tasks do that leaves the new address space in order: there is a program with an area for the stack,
and through its directory `user_start` finds `argc` at the stack pointer and behind it the pointers to copies of the
strings with their terminators; the areas of `argc`, of the pointers and of the strings are pairwise apart and lie in
the stack, and the stack pointer is aligned. -/
theorem loadIcode_lays_out_args (lo hi : Nat) (args : List Arg) (hargs : args.length ≤ EXEC_MAX_ARG_NUM)
    (s s' : Machine) (dirs : Set Nat) (hs : Paged lo hi s dirs) (image : Option Image)
    (hend : Ends (Respects lo hi) (loadIcode args) s (0, image) s') :
    ∃ im, image = some im ∧ HasStack im.mm ∧
      ∃ argv, ArgsAt s' im.mm.dir (userEsp args) args argv := by
  have hmeets : Meets (Respects lo hi) (fun s => ∃ role, Frames lo hi s role) (loadIcode args) (fun r s => r.1 = 0 →
      ∃ im, r.2 = some im ∧ HasStack im.mm ∧ ∃ argv, ArgsAt s im.mm.dir (userEsp args) args argv) := by
    unfold loadIcode
    refine Meets.bind meets_mapIcode fun r => ?_
    obtain ⟨ret, image⟩ := r
    cases image with
    | none =>
        refine Meets.pure fun s hmapped hret => ?_
        rcases hmapped with ⟨hne, -⟩ | ⟨im, him, -⟩
        · exact absurd hret hne
        · cases him
    | some im =>
        refine Meets.bind (Q := fun mm s => HasStack mm ∧ ∃ argv, ArgsAt s mm.dir (userEsp args) args argv)
          (Meets.lift ?_) fun mm => Meets.pure fun s hs _ => ⟨_, rfl, hs⟩
        intro s mm s' hmapped hcall
        rcases hmapped with ⟨-, hnone⟩ | ⟨im', him, hloaded⟩
        · cases hnone
        · obtain rfl : im = im' := Option.some.inj (Prod.mk.inj him).2
          obtain ⟨hsame, hat⟩ := hloaded.toBuilding.pushArgs hargs hcall
          rw [← hsame.dir_eq] at hat
          refine ⟨?_, _, hat⟩
          rw [hsame]
          exact hloaded.stack
  obtain ⟨role, hframes, -⟩ := hs
  exact hmeets s _ s' ⟨role, hframes⟩ hend rfl

/-- A file that is an ELF header without program headers. -/
def emptyElf : FileCall → FileAnswer
  | .seek _ => ⟨[], 0⟩
  | .read _ _ => ⟨[0x7F, 0x45, 0x4C, 0x46] ++ List.replicate 48 0, 0⟩

/-- The arguments `ls` and `a`. -/
def lsArgs : List Arg := [⟨[0x6C, 0x73], by decide, by decide⟩, ⟨[0x61], by decide, by decide⟩]

/-- The loader has returned 0 and a program. -/
def isLoaded (r : Res ((Int × Option Image) × Machine)) : Bool :=
  match r with
  | .ok ((ret, some _), _) => ret == 0
  | _ => false

theorem loadIcode_lays_out_ls : ∃ im s', Ends (Respects 2 12) (loadIcode lsArgs) twelveFrames (0, some im) s' ∧
    HasStack im.mm ∧ ∃ argv, ArgsAt s' im.mm.dir (userEsp lsArgs) lsArgs argv := by
  have hloaded : isLoaded (Prog.run emptyElf (loadIcode lsArgs) twelveFrames) = true := by decide +kernel
  cases hrun : Prog.run emptyElf (loadIcode lsArgs) twelveFrames with
  | error e =>
      rw [hrun] at hloaded
      cases hloaded
  | ok r =>
      obtain ⟨⟨ret, image⟩, s'⟩ := r
      rw [hrun] at hloaded
      cases image with
      | none => cases hloaded
      | some im =>
          obtain rfl : ret = 0 := by simpa [isLoaded] using hloaded
          have hend := Ends.of_run (Respects.refl 2 12) hrun
          have hboot : Booted 2 12 twelveFrames := booted_of_memmapInit (n := 10) rfl (by decide)
          obtain ⟨role, h⟩ := pagingInv_of_run hboot .refl
          obtain ⟨im', him, hstack, hat⟩ := loadIcode_lays_out_args 2 12 lsArgs (by decide) twelveFrames s' ∅
            ⟨role, h.frames, h.dirs⟩ (some im) hend
          obtain rfl := Option.some.inj him
          exact ⟨im, s', hend, hstack, hat⟩

end Memory
end FreakOS
