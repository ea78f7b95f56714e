import FreakOS.Memory.UserMem

/-!
# Copying a string in from user memory

`copyLegalStr` of `vmm.c` copies a string whose length it does not know.  It works on one page-bounded chunk
at a time: the chunk is checked, scanned for its NUL, and copied.

The result carries the accesses of the call in order (`StrEvent`), next to what the function returns.

* `strnlen`, `copyLegalStr` — the functions of the source.
* `chunkOff`, `ChunkAccepted` — the chunks of a string, by number.
* `copyLegalLoop_spec` — one round, and the rest of the string from the next page on.
* `copyLegalStr_bounded_checked_copy` — the string copy as a whole.
-/

namespace FreakOS
namespace Memory

/-- `strnlen(s, len)`. -/
def strnlen (mem : Bytes) (s : U32) : Nat → Nat
  | 0 => 0
  | len + 1 => if mem s = 0 then 0 else strnlen mem (s + 1) len + 1

/-- What `copyLegalStr` does: a call of `checkUserMem` with its answer, a byte read, a byte written. -/
inductive StrEvent where
  | check (addr len : U32) (accepted : Bool)
  | read (addr : U32)
  | write (addr : U32)
deriving DecidableEq, Repr

/-- Byte `i` of what begins at an address. -/
def byteAddr (a : U32) (i : Nat) : U32 := a + BitVec.ofNat 32 i

/-- The accesses of `strnlen(src, len)`: it stops behind the NUL. -/
def scanEvents (mem : Bytes) (src : U32) (len : Nat) : List StrEvent :=
  (List.range (min (strnlen mem src len + 1) len)).map fun i => .read (byteAddr src i)

/-- The accesses of `memcpy(dst, src, len)`. -/
def copyEvents (dst src : U32) (len : Nat) : List StrEvent :=
  (List.range len).flatMap fun i => [.read (byteAddr src i), .write (byteAddr dst i)]

/-- The outcome of `copyLegalStr`. -/
structure StrCopy where
  ret : Bool
  mem : Bytes
  mm : Option MemMap
  events : List StrEvent

theorem isUserCanAccess_self (a : U32) : isUserCanAccess a a = false := by
  simp [isUserCanAccess]

theorem isKernelCanAccess_self (a : U32) : isKernelCanAccess a a = false := by
  simp [isKernelCanAccess]

/-- An empty range is refused. -/
theorem checkUserMem_zero (mm : Option MemMap) (a : U32) (write : Bool) :
    (checkUserMem mm a 0 write).1 = false := by
  cases mm with
  | none => simp [checkUserMem, isKernelCanAccess_self]
  | some m => simp [checkUserMem, isUserCanAccess_self]

/-- The loop of `copyLegalStr`. -/
def copyLegalLoop (mm : Option MemMap) (mem : Bytes) (dst src maxn part : U32) : StrCopy :=
  let part := if part > maxn then maxn else part
  let answer := checkUserMem mm src part false
  if _hcheck : answer.1 = false then ⟨false, mem, answer.2, [.check src part false]⟩
  else
    let alen := strnlen mem src part.toNat
    let seen := .check src part true :: scanEvents mem src part.toNat
    if alen < part.toNat then
      ⟨true, memcpy mem dst src (alen + 1), answer.2, seen ++ copyEvents dst src (alen + 1)⟩
    else if _hlast : part = maxn then ⟨false, mem, answer.2, seen⟩
    else
      let rest := copyLegalLoop answer.2 (memcpy mem dst src part.toNat) (dst + part) (src + part)
        (maxn - part) PGSIZE
      { rest with events := seen ++ copyEvents dst src part.toNat ++ rest.events }
termination_by maxn.toNat
decreasing_by
  have hle : part ≤ maxn := by
    show (if _ > maxn then maxn else _) ≤ maxn
    split
    · exact BitVec.le_refl _
    · rename_i h
      exact BitVec.not_lt.mp h
  have hpos : part ≠ 0 := by
    intro hzero
    apply _hcheck
    show (checkUserMem mm src part false).1 = false
    rw [hzero, checkUserMem_zero]
  rw [BitVec.toNat_sub_of_le hle]
  have h1 : part.toNat ≠ 0 := fun h => hpos (BitVec.eq_of_toNat_eq h)
  have h2 := BitVec.le_def.mp hle
  omega

/-- `copyLegalStr(mm, dst, src, maxn)`. -/
def copyLegalStr (mm : Option MemMap) (mem : Bytes) (dst src maxn : U32) : StrCopy :=
  copyLegalLoop mm mem dst src maxn (roundDown (src + PGSIZE) PGSIZE - src)

/-! ### The chunks of a string -/

/-- The bytes from an address to the end of its page. -/
def firstPart (src : U32) : Nat := 4096 - src.toNat % 4096

/-- Where chunk `j` of a string begins, counted from the start of the string. -/
def chunkOff (src : U32) (j : Nat) : Nat := j * 4096 - src.toNat % 4096

/-- `checkUserMem` accepts chunk `j` of the `maxn` bytes from `src` on. -/
def ChunkAccepted (mm : Option MemMap) (src : U32) (maxn j : Nat) : Prop :=
  (checkUserMem mm (byteAddr src (chunkOff src j))
    (BitVec.ofNat 32 (min (chunkOff src (j + 1)) maxn - chunkOff src j)) false).1 = true

/-- The string at `src` ends at index `k`. -/
def NulAt (mem : Bytes) (src : U32) (k : Nat) : Prop :=
  mem (byteAddr src k) = 0 ∧ ∀ i, i < k → mem (byteAddr src i) ≠ 0

/-- The buffer at `dst` and the string at `src`, with its NUL, have no byte in common. -/
def Separate (mem : Bytes) (dst src : U32) (maxn : Nat) : Prop :=
  ∀ i j, i < maxn → j < maxn → (∀ l, l < j → mem (byteAddr src l) ≠ 0) → byteAddr dst i ≠ byteAddr src j

/-- Every byte that is read lies in a range that has been accepted before: by a check of the list, or by one
of `accepted`. -/
def ReadsChecked : List (U32 × U32) → List StrEvent → Prop
  | _, [] => True
  | accepted, .check addr len ok :: rest =>
      ReadsChecked (if ok then (addr, len) :: accepted else accepted) rest
  | accepted, .read addr :: rest =>
      (∃ r ∈ accepted, ∃ i, i < r.2.toNat ∧ addr = byteAddr r.1 i) ∧ ReadsChecked accepted rest
  | accepted, .write _ :: rest => ReadsChecked accepted rest

/-- The event is a write. -/
def StrEvent.isWrite : StrEvent → Bool
  | .write _ => true
  | _ => false

/-- The number of bytes written. -/
def writeCount (events : List StrEvent) : Nat := events.countP StrEvent.isWrite

@[simp] theorem byteAddr_zero (a : U32) : byteAddr a 0 = a := by simp [byteAddr]

theorem byteAddr_byteAddr (a : U32) (i j : Nat) : byteAddr (byteAddr a i) j = byteAddr a (i + j) := by
  simp only [byteAddr, BitVec.ofNat_add]
  rw [BitVec.add_assoc]

theorem byteAddr_succ (a : U32) (i : Nat) : byteAddr (a + 1) i = byteAddr a (i + 1) := by
  rw [Nat.add_comm, ← byteAddr_byteAddr]
  rfl

theorem byteAddr_inj {a : U32} {i j : Nat} (hi : i < 2 ^ 32) (hj : j < 2 ^ 32)
    (h : byteAddr a i = byteAddr a j) : i = j := by
  have h' := congrArg BitVec.toNat h
  simp only [byteAddr, BitVec.toNat_add, BitVec.toNat_ofNat] at h'
  have := a.isLt
  omega

/-! ### `strnlen` and `memcpy` -/

section Bytes

variable {mem : Bytes} {dst src : U32}

theorem strnlen_le (mem : Bytes) (src : U32) (len : Nat) : strnlen mem src len ≤ len := by
  induction len generalizing src with
  | zero => rfl
  | succ len ih =>
      unfold strnlen
      split
      · omega
      · have := ih (src + 1)
        omega

theorem strnlen_nonzero {len i : Nat} (hi : i < strnlen mem src len) : mem (byteAddr src i) ≠ 0 := by
  induction len generalizing src i with
  | zero => simp [strnlen] at hi
  | succ len ih =>
      unfold strnlen at hi
      split at hi
      · omega
      · rename_i hnz
        cases i with
        | zero => simpa using hnz
        | succ i =>
            rw [← byteAddr_succ]
            exact ih (by omega)

theorem strnlen_nul {len : Nat} (hlt : strnlen mem src len < len) :
    NulAt mem src (strnlen mem src len) := by
  refine ⟨?_, fun i hi => strnlen_nonzero hi⟩
  induction len generalizing src with
  | zero => omega
  | succ len ih =>
      unfold strnlen at hlt ⊢
      split
      · rename_i hz
        simpa using hz
      · rename_i hnz
        rw [if_neg hnz] at hlt
        rw [← byteAddr_succ]
        exact ih (by omega)

theorem NulAt.unique {i j : Nat} (hi : NulAt mem src i) (hj : NulAt mem src j) : i = j := by
  by_contra hne
  by_cases hlt : i < j
  · exact hj.2 i hlt hi.1
  · exact hi.2 j (by omega) hj.1

theorem memcpy_of_ne {n : Nat} {a : U32} (ha : ∀ i, i < n → a ≠ byteAddr dst i) :
    memcpy mem dst src n a = mem a := by
  induction n generalizing mem dst src with
  | zero => rfl
  | succ n ih =>
      unfold memcpy
      rw [ih]
      · exact Function.update_of_ne (by simpa using ha 0 (by omega)) _ _
      · intro i hi
        rw [byteAddr_succ]
        exact ha (i + 1) (by omega)

/-- Between separate ranges `memcpy` copies. -/
theorem memcpy_copied {n i : Nat} (hn : n ≤ 2 ^ 32)
    (hsep : ∀ i j, i < n → j < n → byteAddr dst i ≠ byteAddr src j) (hi : i < n) :
    memcpy mem dst src n (byteAddr dst i) = mem (byteAddr src i) := by
  induction n generalizing mem dst src i with
  | zero => omega
  | succ n ih =>
      unfold memcpy
      cases i with
      | zero =>
          rw [memcpy_of_ne]
          · simp
          · intro j hj heq
            rw [byteAddr_succ] at heq
            have := byteAddr_inj (by omega) (by omega) heq
            omega
      | succ i =>
          rw [← byteAddr_succ, ih (by omega) ?_ (by omega), byteAddr_succ]
          · refine Function.update_of_ne ?_ _ _
            intro heq
            exact hsep 0 (i + 1) (by omega) hi (by simpa using heq.symm)
          · intro j k hj hk
            rw [byteAddr_succ, byteAddr_succ]
            exact hsep (j + 1) (k + 1) (by omega) (by omega)

end Bytes

/-! ### Checks and the lookup cache -/

/-- A map that is `NULL` or keeps its invariant. -/
def MapOk (mm : Option MemMap) : Prop := ∀ m, mm = some m → m.Inv

/-- The same address space: both are `NULL`, or both have the same areas. -/
def SameSpace (mm mm' : Option MemMap) : Prop := mm'.map MemMap.vmaList = mm.map MemMap.vmaList

theorem checkUserLoop_snd {mm : MemMap} (h : mm.Inv) (len : U32) (write : Bool) (start : U32) :
    (checkUserLoop mm len write start).2.Inv ∧
      (checkUserLoop mm len write start).2.vmaList = mm.vmaList := by
  induction hn : 2 ^ 32 - start.toNat using Nat.strong_induction_on generalizing mm start with
  | _ n ih =>
      have hfound := findVma_inv h start
      have hlist := findVma_vmaList mm start
      rw [checkUserLoop]
      split
      · split
        · rename_i hfind
          rw [hfind] at hfound hlist
          exact ⟨hfound, hlist⟩
        · rename_i vma mm' hfind
          rw [hfind] at hfound hlist
          split
          · exact ⟨hfound, hlist⟩
          · split
            · exact ⟨hfound, hlist⟩
            · split
              · exact ⟨hfound, hlist⟩
              · have hlt := lt_vmEnd_of_findVma hfind
                have hbound := vma.vmEnd.isLt
                simp only [BitVec.lt_def] at hlt
                obtain ⟨hinv, hsame⟩ := ih (2 ^ 32 - vma.vmEnd.toNat) (by omega) hfound vma.vmEnd rfl
                exact ⟨hinv, hsame.trans hlist⟩
      · exact ⟨h, rfl⟩

/-- A check leaves the address space as it is. -/
theorem checkUserMem_snd {mm : Option MemMap} (h : MapOk mm) (addr len : U32) (write : Bool) :
    MapOk (checkUserMem mm addr len write).2 ∧ SameSpace mm (checkUserMem mm addr len write).2 := by
  cases mm with
  | none => exact ⟨h, rfl⟩
  | some m =>
      unfold checkUserMem
      dsimp only
      split
      · exact ⟨h, rfl⟩
      · obtain ⟨hinv, hlist⟩ := checkUserLoop_snd (h m rfl) len write addr
        refine ⟨?_, ?_⟩
        · intro m' hm'
          obtain rfl := Option.some.inj hm'
          exact hinv
        · exact congrArg some hlist

/-- The answer of a check depends on the areas only. -/
theorem checkUserMem_congr {mm mm' : Option MemMap} (h : MapOk mm) (h' : MapOk mm')
    (hsame : SameSpace mm mm') (addr len : U32) (write : Bool) :
    (checkUserMem mm' addr len write).1 = (checkUserMem mm addr len write).1 := by
  by_cases hpos : 0 < len.toNat
  · cases mm with
    | none =>
        cases mm' with
        | none => rfl
        | some m' => simp [SameSpace] at hsame
    | some m =>
        cases mm' with
        | none => simp [SameSpace] at hsame
        | some m' =>
            have hlist : m'.vmaList = m.vmaList := Option.some.inj hsame
            rw [Bool.eq_iff_iff, checkUserMem_iff m (h m rfl) addr len hpos,
              checkUserMem_iff m' (h' m' rfl) addr len hpos, hlist]
  · obtain rfl : len = 0 := BitVec.eq_of_toNat_eq (by simpa using hpos)
    rw [checkUserMem_zero, checkUserMem_zero]

/-! ### Events -/

section Events

variable {accepted : List (U32 × U32)} {mem : Bytes} {dst src : U32}

theorem readsChecked_append_scan {n : Nat} {rest : List StrEvent} {len : U32} (hmem : (src, len) ∈ accepted)
    (hn : n ≤ len.toNat) (hrest : ReadsChecked accepted rest) :
    ReadsChecked accepted (((List.range n).map fun i => StrEvent.read (byteAddr src i)) ++ rest) := by
  induction n generalizing rest with
  | zero => exact hrest
  | succ n ih =>
      rw [List.range_succ, List.map_append, List.append_assoc]
      exact ih (by omega) ⟨⟨_, hmem, n, show n < len.toNat by omega, rfl⟩, hrest⟩

theorem readsChecked_append_copy {n : Nat} {rest : List StrEvent} {len : U32} (hmem : (src, len) ∈ accepted)
    (hn : n ≤ len.toNat) (hrest : ReadsChecked accepted rest) :
    ReadsChecked accepted (copyEvents dst src n ++ rest) := by
  unfold copyEvents
  induction n generalizing rest with
  | zero => exact hrest
  | succ n ih =>
      rw [List.range_succ, List.flatMap_append, List.append_assoc]
      exact ih (by omega) ⟨⟨_, hmem, n, show n < len.toNat by omega, rfl⟩, hrest⟩

theorem ReadsChecked.mono {events : List StrEvent} {accepted' : List (U32 × U32)}
    (h : ReadsChecked accepted events) (hsub : ∀ r ∈ accepted, r ∈ accepted') :
    ReadsChecked accepted' events := by
  induction events generalizing accepted accepted' with
  | nil => trivial
  | cons e rest ih =>
      cases e with
      | check addr len ok =>
          refine ih h ?_
          intro r hr
          cases ok with
          | false => exact hsub r hr
          | true =>
              rcases List.mem_cons.mp hr with rfl | hr
              · simp
              · exact List.mem_cons_of_mem _ (hsub r hr)
      | read addr =>
          obtain ⟨⟨r, hr, hin⟩, hrest⟩ := h
          exact ⟨⟨r, hsub r hr, hin⟩, ih hrest hsub⟩
      | write addr => exact ih h hsub

theorem writeCount_append (xs ys : List StrEvent) : writeCount (xs ++ ys) = writeCount xs + writeCount ys := by
  simp [writeCount]

@[simp] theorem writeCount_scanEvents (len : Nat) : writeCount (scanEvents mem src len) = 0 := by
  unfold writeCount scanEvents
  rw [List.countP_eq_zero]
  intro e he
  obtain ⟨i, -, rfl⟩ := List.mem_map.mp he
  exact Bool.false_ne_true

@[simp] theorem writeCount_copyEvents (n : Nat) : writeCount (copyEvents dst src n) = n := by
  unfold copyEvents
  induction n with
  | zero => rfl
  | succ n ih =>
      rw [List.range_succ, List.flatMap_append, writeCount_append, ih]
      rfl

@[simp] theorem write_mem_scanEvents (len : Nat) (a : U32) :
    ¬ StrEvent.write a ∈ scanEvents mem src len := by
  simp [scanEvents]

@[simp] theorem write_mem_copyEvents (n : Nat) (a : U32) :
    StrEvent.write a ∈ copyEvents dst src n ↔ ∃ i, i < n ∧ a = byteAddr dst i := by
  simp [copyEvents]

@[simp] theorem check_mem_scanEvents (len : Nat) (a l : U32) (ok : Bool) :
    ¬ StrEvent.check a l ok ∈ scanEvents mem src len := by
  simp [scanEvents]

@[simp] theorem check_mem_copyEvents (n : Nat) (a l : U32) (ok : Bool) :
    ¬ StrEvent.check a l ok ∈ copyEvents dst src n := by
  simp [copyEvents]

end Events

/-! ### One round of the loop -/

section Rest

variable {mem : Bytes} {dst src : U32} {maxn p : Nat}

/-- A byte of the string behind `p` that has been copied is where it was. -/
theorem memcpy_rest (hsep : Separate mem dst src maxn) {j : Nat} (hj : j < maxn - p)
    (hbefore : ∀ l, l < p + j → mem (byteAddr src l) ≠ 0) :
    memcpy mem dst src p (byteAddr (byteAddr src p) j) = mem (byteAddr src (p + j)) := by
  rw [byteAddr_byteAddr, memcpy_of_ne]
  intro i hi heq
  exact hsep i (p + j) (by omega) (by omega) hbefore heq.symm

/-- The copied part is free of NULs, so the rest is as far free of NULs as it was. -/
theorem prefix_rest (hsep : Separate mem dst src maxn)
    (hclean : ∀ i, i < p → mem (byteAddr src i) ≠ 0) {j : Nat} (hj : j ≤ maxn - p) :
    (∀ l, l < j → memcpy mem dst src p (byteAddr (byteAddr src p) l) ≠ 0) ↔
      ∀ l, l < p + j → mem (byteAddr src l) ≠ 0 := by
  induction j with
  | zero =>
      constructor
      · intro _ l hl
        exact hclean l hl
      · intro _ l hl
        omega
  | succ j ih =>
      have ih' := ih (by omega)
      constructor
      · intro hnew l hl
        have hold := ih'.mp fun l hl => hnew l (by omega)
        by_cases heq : l = p + j
        · rw [heq, ← memcpy_rest hsep (by omega) hold]
          exact hnew j (by omega)
        · exact hold l (by omega)
      · intro hold l hl
        have hnew := ih'.mpr fun l hl => hold l (by omega)
        by_cases heq : l = j
        · rw [heq, memcpy_rest hsep (by omega) fun l hl => hold l (by omega)]
          exact hold (p + j) (by omega)
        · exact hnew l (by omega)

/-- The string that is left, in the memory that has got the first part's bytes. -/
theorem nulAt_rest (hsep : Separate mem dst src maxn)
    (hclean : ∀ i, i < p → mem (byteAddr src i) ≠ 0) (k : Nat) (hk : k < maxn - p) :
    NulAt (memcpy mem dst src p) (byteAddr src p) k ↔ NulAt mem src (p + k) := by
  have hbefore := prefix_rest hsep hclean (j := k) (by omega)
  constructor
  · intro hnul
    have hold := hbefore.mp hnul.2
    refine ⟨?_, hold⟩
    rw [← memcpy_rest hsep hk hold]
    exact hnul.1
  · intro hnul
    refine ⟨?_, hbefore.mpr hnul.2⟩
    rw [memcpy_rest hsep hk hnul.2]
    exact hnul.1

end Rest

theorem firstPart_pos (src : U32) : 0 < firstPart src ∧ firstPart src ≤ 4096 := by
  unfold firstPart
  omega

/-- The next page is reached aligned. -/
theorem byteAddr_firstPart_mod (src : U32) : (byteAddr src (firstPart src)).toNat % 4096 = 0 := by
  have := src.isLt
  simp only [byteAddr, firstPart, BitVec.toNat_add, BitVec.toNat_ofNat]
  omega

theorem firstPart_next (src : U32) : firstPart (byteAddr src (firstPart src)) = 4096 := by
  have := byteAddr_firstPart_mod src
  unfold firstPart at *
  omega

theorem chunkOff_next (src : U32) (j : Nat) :
    chunkOff src (j + 1) = firstPart src + chunkOff (byteAddr src (firstPart src)) j := by
  have hmod := byteAddr_firstPart_mod src
  have := src.isLt
  unfold chunkOff
  rw [hmod]
  unfold firstPart
  omega

theorem chunkOff_zero (src : U32) : chunkOff src 0 = 0 := by
  unfold chunkOff
  omega

theorem chunkOff_one (src : U32) : chunkOff src 1 = firstPart src := by
  unfold chunkOff firstPart
  omega

theorem chunkAccepted_zero_iff (mm : Option MemMap) (src : U32) (maxn : Nat) :
    ChunkAccepted mm src maxn 0 ↔
      (checkUserMem mm src (BitVec.ofNat 32 (min (firstPart src) maxn)) false).1 = true := by
  unfold ChunkAccepted
  rw [chunkOff_zero, chunkOff_one, byteAddr_zero, Nat.sub_zero]

theorem chunkAccepted_succ_iff {mm mm' : Option MemMap} (h : MapOk mm) (h' : MapOk mm')
    (hsame : SameSpace mm mm') (src : U32) {maxn : Nat} (hlt : firstPart src < maxn) (j : Nat) :
    ChunkAccepted mm src maxn (j + 1) ↔
      ChunkAccepted mm' (byteAddr src (firstPart src)) (maxn - firstPart src) j := by
  unfold ChunkAccepted
  rw [checkUserMem_congr h h' hsame, chunkOff_next, chunkOff_next src (j + 1), byteAddr_byteAddr]
  have hlen : min (firstPart src + chunkOff (byteAddr src (firstPart src)) (j + 1)) maxn -
      (firstPart src + chunkOff (byteAddr src (firstPart src)) j) =
      min (chunkOff (byteAddr src (firstPart src)) (j + 1)) (maxn - firstPart src) -
        chunkOff (byteAddr src (firstPart src)) j := by omega
  rw [hlen]

/-- Why `copyLegalStr` returns 1: the string ends below `maxn`, and its chunks are accepted. -/
def StrLegal (mm : Option MemMap) (mem : Bytes) (src : U32) (maxn : Nat) : Prop :=
  ∃ k, k < maxn ∧ NulAt mem src k ∧ ∀ j, chunkOff src j ≤ k → ChunkAccepted mm src maxn j

/-- What holds of every outcome, wherever the buffer is. -/
structure StrChecked (mm : Option MemMap) (mem : Bytes) (dst : U32) (maxn : Nat) (r : StrCopy) : Prop where
  writes : writeCount r.events ≤ maxn
  written : ∀ a, StrEvent.write a ∈ r.events → ∃ i, i < maxn ∧ a = byteAddr dst i
  unchanged : ∀ a, ¬ StrEvent.write a ∈ r.events → r.mem a = mem a
  answers : ∀ a l ok, StrEvent.check a l ok ∈ r.events → (checkUserMem mm a l false).1 = ok
  checked : ReadsChecked [] r.events

/-- What the outcome is, for a buffer of its own. -/
structure StrCopied (mm : Option MemMap) (mem : Bytes) (dst src : U32) (maxn : Nat) (r : StrCopy) : Prop where
  ret : r.ret = true ↔ StrLegal mm mem src maxn
  copied : r.ret = true → ∀ k, NulAt mem src k → ∀ i, i ≤ k → r.mem (byteAddr dst i) = mem (byteAddr src i)

section Round

variable {mm mm' : Option MemMap} {mem : Bytes} {dst src : U32} {maxn : Nat}

/-- A first chunk that is refused: nothing is read or written. -/
theorem strChecked_refused {part : U32} (hcheck : (checkUserMem mm src part false).1 = false) :
    StrChecked mm mem dst maxn ⟨false, mem, mm', [.check src part false]⟩ := by
  refine ⟨?_, ?_, fun _ _ => rfl, ?_, trivial⟩
  · exact Nat.zero_le _
  · intro a ha
    simp at ha
  · intro a l ok hmem
    obtain ⟨rfl, rfl, rfl⟩ : a = src ∧ l = part ∧ ok = false := by simpa using hmem
    exact hcheck

/-- A chunk that is accepted, scanned, and copied from its start on. -/
theorem strChecked_copied (mm' : Option MemMap) {part : U32} (hcheck : (checkUserMem mm src part false).1 = true) {n : Nat}
    (hn : n ≤ part.toNat) (hpart : part.toNat ≤ maxn) (ret : Bool) :
    StrChecked mm mem dst maxn ⟨ret, memcpy mem dst src n, mm',
      .check src part true :: scanEvents mem src part.toNat ++ copyEvents dst src n⟩ := by
  refine ⟨?_, ?_, ?_, ?_, ?_⟩
  · show writeCount ((_ :: scanEvents mem src part.toNat) ++ _) ≤ maxn
    rw [List.cons_append, ← List.singleton_append, writeCount_append, writeCount_append]
    simp only [writeCount_scanEvents, writeCount_copyEvents]
    show 0 + (0 + n) ≤ maxn
    omega
  · intro a ha
    simp only [List.cons_append, List.mem_cons, reduceCtorEq, List.mem_append, write_mem_scanEvents,
      write_mem_copyEvents, false_or] at ha
    obtain ⟨i, hi, heq⟩ := ha
    exact ⟨i, by omega, heq⟩
  · intro a ha
    simp only [List.cons_append, List.mem_cons, reduceCtorEq, List.mem_append, write_mem_scanEvents,
      write_mem_copyEvents, false_or, not_exists, not_and] at ha
    exact memcpy_of_ne ha
  · intro a l ok hmem
    simp only [List.cons_append, List.mem_cons, List.mem_append, check_mem_scanEvents, check_mem_copyEvents,
      or_false, StrEvent.check.injEq] at hmem
    obtain ⟨rfl, rfl, rfl⟩ := hmem
    exact hcheck
  · show ReadsChecked [(src, part)] (scanEvents mem src part.toNat ++ copyEvents dst src n)
    unfold scanEvents
    refine readsChecked_append_scan (List.mem_singleton.mpr rfl) (by omega) ?_
    rw [← List.append_nil (copyEvents dst src n)]
    exact readsChecked_append_copy (List.mem_singleton.mpr rfl) hn trivial

/-- A whole chunk, followed by the rest of the string. -/
theorem strChecked_append {part : U32} {r : StrCopy} {n : Nat} (h : MapOk mm) (h' : MapOk mm')
    (hsame : SameSpace mm mm') (hcheck : (checkUserMem mm src part false).1 = true)
    (hn : part.toNat + n = maxn)
    (hrest : StrChecked mm' (memcpy mem dst src part.toNat) (dst + part) n r) :
    StrChecked mm mem dst maxn { r with
      events := (.check src part true :: scanEvents mem src part.toNat ++
        copyEvents dst src part.toNat ++ r.events) } := by
  have hfirst : StrChecked mm mem dst maxn ⟨true, memcpy mem dst src part.toNat, mm',
      .check src part true :: scanEvents mem src part.toNat ++ copyEvents dst src part.toNat⟩ :=
    strChecked_copied _ hcheck le_rfl (by omega) true
  have hcount : writeCount (.check src part true :: scanEvents mem src part.toNat ++
      copyEvents dst src part.toNat) = part.toNat := by
    rw [List.cons_append, ← List.singleton_append, writeCount_append, writeCount_append,
      writeCount_scanEvents, writeCount_copyEvents]
    show 0 + (0 + part.toNat) = part.toNat
    omega
  refine ⟨?_, ?_, ?_, ?_, ?_⟩
  · show writeCount (_ ++ r.events) ≤ maxn
    rw [writeCount_append, hcount]
    have := hrest.writes
    omega
  · intro a ha
    rcases List.mem_append.mp ha with ha | ha
    · exact hfirst.written a ha
    · obtain ⟨i, hi, rfl⟩ := hrest.written a ha
      refine ⟨part.toNat + i, by omega, ?_⟩
      rw [← byteAddr_byteAddr]
      simp [byteAddr]
  · intro a ha
    have hsplit := fun hin => ha (List.mem_append.mpr hin)
    show r.mem a = mem a
    rw [hrest.unchanged a fun hin => hsplit (Or.inr hin)]
    exact hfirst.unchanged a fun hin => hsplit (Or.inl hin)
  · intro a l ok hmem
    rcases List.mem_append.mp hmem with hmem | hmem
    · exact hfirst.answers a l ok hmem
    · rw [← checkUserMem_congr h h' hsame]
      exact hrest.answers a l ok hmem
  · show ReadsChecked [(src, part)] (scanEvents mem src part.toNat ++ copyEvents dst src part.toNat ++ r.events)
    rw [List.append_assoc]
    unfold scanEvents
    refine readsChecked_append_scan (List.mem_singleton.mpr rfl) (by omega) ?_
    exact readsChecked_append_copy (List.mem_singleton.mpr rfl) le_rfl
      (hrest.checked.mono fun r hr => absurd hr (List.not_mem_nil))

/-- The string ends in its first chunk. -/
theorem strCopied_found (hmaxn : maxn < 2 ^ 32) (hsep : Separate mem dst src maxn) {part k : Nat}
    (hpart : part = min (firstPart src) maxn) (hk : k < part) (hnul : NulAt mem src k)
    (hcheck : ChunkAccepted mm src maxn 0) (events : List StrEvent) :
    StrCopied mm mem dst src maxn ⟨true, memcpy mem dst src (k + 1), mm', events⟩ := by
  refine ⟨?_, ?_⟩
  · refine iff_of_true rfl ⟨k, by omega, hnul, ?_⟩
    intro j hj
    cases j with
    | zero => exact hcheck
    | succ j =>
        have := chunkOff_next src j
        omega
  · intro _ k' hnul' i hi
    obtain rfl := hnul.unique hnul'
    refine memcpy_copied (by omega) ?_ (by omega)
    intro a b ha hb
    exact hsep a b (by omega) (by omega) fun l hl => hnul.2 l (by omega)

/-- The string goes on behind its first chunk. -/
theorem strCopied_rest {r : StrCopy} (h : MapOk mm) (h' : MapOk mm') (hsame : SameSpace mm mm')
    (hmaxn : maxn < 2 ^ 32) (hsep : Separate mem dst src maxn) (hlt : firstPart src < maxn)
    (hclean : ∀ i, i < firstPart src → mem (byteAddr src i) ≠ 0) (hcheck : ChunkAccepted mm src maxn 0)
    (hframe : ∀ a, (∀ i, i < maxn - firstPart src → a ≠ byteAddr dst (firstPart src + i)) →
      r.mem a = memcpy mem dst src (firstPart src) a)
    (hrest : StrCopied mm' (memcpy mem dst src (firstPart src)) (byteAddr dst (firstPart src))
      (byteAddr src (firstPart src)) (maxn - firstPart src) r) (events : List StrEvent) :
    StrCopied mm mem dst src maxn { r with events := events } := by
  set p := firstPart src with hp
  have hbeyond : ∀ k, NulAt mem src k → p ≤ k := by
    intro k hnul
    by_contra hk
    exact hclean k (by omega) hnul.1
  refine ⟨?_, ?_⟩
  · refine hrest.ret.trans ?_
    constructor
    · rintro ⟨k, hk, hnul, hchunks⟩
      refine ⟨p + k, by omega, (nulAt_rest hsep hclean k hk).mp hnul, ?_⟩
      intro j hj
      cases j with
      | zero => exact hcheck
      | succ j =>
          rw [chunkAccepted_succ_iff h h' hsame src hlt]
          rw [chunkOff_next, ← hp] at hj
          exact hchunks j (by omega)
    · rintro ⟨k, hk, hnul, hchunks⟩
      have hpk := hbeyond k hnul
      refine ⟨k - p, by omega, (nulAt_rest hsep hclean (k - p) (by omega)).mpr ?_, ?_⟩
      · rwa [Nat.add_sub_cancel' hpk]
      · intro j hj
        rw [← chunkAccepted_succ_iff h h' hsame src hlt]
        refine hchunks (j + 1) ?_
        rw [chunkOff_next, ← hp]
        omega
  · intro hret k hnul i hi
    obtain ⟨k', hk', hnul', -⟩ := hrest.ret.mp hret
    have hk := NulAt.unique hnul ((nulAt_rest hsep hclean k' hk').mp hnul')
    show r.mem (byteAddr dst i) = mem (byteAddr src i)
    by_cases hin : i < p
    · rw [hframe]
      · refine memcpy_copied (by omega) ?_ hin
        intro a b ha hb
        exact hsep a b (by omega) (by omega) fun l hl => hclean l (by omega)
      · intro j hj heq
        have := byteAddr_inj (by omega) (by omega) heq
        omega
    · have hcopied := hrest.copied hret k' hnul' (i - p) (by omega)
      rw [byteAddr_byteAddr, byteAddr_byteAddr, Nat.add_sub_cancel' (by omega)] at hcopied
      rw [hcopied, memcpy_of_ne]
      intro j hj heq
      exact hsep j i (by omega) (by omega) (fun l hl => hnul.2 l (by omega)) heq.symm

end Round

/-- The loop as one equation, for `part` up to the end of the page of `src`. -/
theorem copyLegalLoop_eq (mm : Option MemMap) (mem : Bytes) (dst src maxn part : U32) :
    copyLegalLoop mm mem dst src maxn part =
      let part := if part > maxn then maxn else part
      let answer := checkUserMem mm src part false
      if answer.1 = false then ⟨false, mem, answer.2, [.check src part false]⟩
      else
        let alen := strnlen mem src part.toNat
        let seen := .check src part true :: scanEvents mem src part.toNat
        if alen < part.toNat then
          ⟨true, memcpy mem dst src (alen + 1), answer.2, seen ++ copyEvents dst src (alen + 1)⟩
        else if part = maxn then ⟨false, mem, answer.2, seen⟩
        else
          let rest := copyLegalLoop answer.2 (memcpy mem dst src part.toNat) (dst + part) (src + part)
            (maxn - part) PGSIZE
          { rest with events := seen ++ copyEvents dst src part.toNat ++ rest.events } := by
  rw [copyLegalLoop]
  rfl

theorem min_part_toNat (part maxn : U32) :
    (if part > maxn then maxn else part).toNat = min part.toNat maxn.toNat := by
  split
  · rename_i h
    have := BitVec.lt_def.mp h
    omega
  · rename_i h
    have := BitVec.le_def.mp (BitVec.not_lt.mp h)
    omega

theorem add_eq_byteAddr (a b : U32) : a + b = byteAddr a b.toNat := by
  simp [byteAddr]

/-- One call of the loop, from any address on to the end of its page and further. -/
theorem copyLegalLoop_spec {mm : Option MemMap} (h : MapOk mm) (mem : Bytes) (dst src maxn part : U32)
    (hpart : part.toNat = firstPart src) :
    StrChecked mm mem dst maxn.toNat (copyLegalLoop mm mem dst src maxn part) ∧
      (Separate mem dst src maxn.toNat →
        StrCopied mm mem dst src maxn.toNat (copyLegalLoop mm mem dst src maxn part)) := by
  induction hn : maxn.toNat using Nat.strong_induction_on generalizing mm mem dst src maxn part with
  | _ n ih =>
      subst hn
      have hmaxn := maxn.isLt
      have hpos := firstPart_pos src
      rw [copyLegalLoop_eq]
      dsimp only
      have hmin := min_part_toNat part maxn
      rw [hpart] at hmin
      set chunk := if part > maxn then maxn else part with hchunk
      obtain ⟨h', hsame⟩ := checkUserMem_snd h src chunk false
      have haccept : ChunkAccepted mm src maxn.toNat 0 ↔ (checkUserMem mm src chunk false).1 = true := by
        rw [chunkAccepted_zero_iff, ← hmin, BitVec.ofNat_toNat, BitVec.setWidth_eq]
      by_cases hcheck : (checkUserMem mm src chunk false).1 = false
      · rw [if_pos hcheck]
        refine ⟨strChecked_refused hcheck, fun _ => ⟨?_, fun hret => absurd hret Bool.false_ne_true⟩⟩
        refine iff_of_false Bool.false_ne_true ?_
        rintro ⟨k, -, -, hchunks⟩
        have hfirst := haccept.mp (hchunks 0 (by rw [chunkOff_zero]; omega))
        rw [hcheck] at hfirst
        exact Bool.false_ne_true hfirst
      · rw [if_neg hcheck]
        have htrue : (checkUserMem mm src chunk false).1 = true := by simpa using hcheck
        by_cases hfound : strnlen mem src chunk.toNat < chunk.toNat
        · rw [if_pos hfound]
          have hnul := strnlen_nul hfound
          exact ⟨strChecked_copied _ htrue (by omega) (by omega) true,
            fun hsep => strCopied_found hmaxn hsep hmin hfound hnul (haccept.mpr htrue) _⟩
        · rw [if_neg hfound]
          have hclean : ∀ i, i < chunk.toNat → mem (byteAddr src i) ≠ 0 := by
            intro i hi
            have := strnlen_le mem src chunk.toNat
            exact strnlen_nonzero (show i < strnlen mem src chunk.toNat by omega)
          by_cases hlast : chunk = maxn
          · rw [if_pos hlast]
            refine ⟨?_, fun _ => ⟨?_, fun hret => absurd hret Bool.false_ne_true⟩⟩
            · have hnone : StrChecked mm mem dst maxn.toNat _ :=
                strChecked_copied (checkUserMem mm src chunk false).2 htrue (Nat.zero_le _) (by omega) false
              simpa [copyEvents, memcpy] using hnone
            · refine iff_of_false Bool.false_ne_true ?_
              rintro ⟨k, hk, hnul, -⟩
              exact hclean k (by rw [hlast]; exact hk) hnul.1
          · rw [if_neg hlast]
            -- The budget reaches beyond the page, so the chunk is the rest of the page.
            have hne : chunk.toNat ≠ maxn.toNat := fun heq => hlast (BitVec.eq_of_toNat_eq heq)
            have hwhole : chunk.toNat = firstPart src := by omega
            have hsub : (maxn - chunk).toNat = maxn.toNat - firstPart src := by
              rw [BitVec.toNat_sub_of_le (BitVec.le_def.mpr (by omega)), hwhole]
            have hnext : PGSIZE.toNat = firstPart (src + chunk) := by
              rw [add_eq_byteAddr, hwhole, firstPart_next]
              rfl
            have hih := ih (maxn - chunk).toNat (by omega) h' (memcpy mem dst src chunk.toNat) (dst + chunk)
              (src + chunk) (maxn - chunk) PGSIZE hnext rfl
            refine ⟨strChecked_append h h' hsame htrue (by omega) hih.1, ?_⟩
            intro hsep
            rw [hwhole] at hclean
            rw [hsub, add_eq_byteAddr, add_eq_byteAddr, hwhole] at hih
            rw [add_eq_byteAddr, add_eq_byteAddr, hwhole]
            refine strCopied_rest h h' hsame hmaxn hsep (by omega) hclean (haccept.mpr htrue) ?_ (hih.2 ?_) _
            · intro a ha
              refine hih.1.unchanged a ?_
              intro hwrite
              obtain ⟨i, hi, heq⟩ := hih.1.written a hwrite
              rw [byteAddr_byteAddr] at heq
              exact ha i hi heq
            · -- The rest of the buffer is still apart from the rest of the string.
              intro i j hi hj hbefore
              rw [byteAddr_byteAddr, byteAddr_byteAddr]
              exact hsep (firstPart src + i) (firstPart src + j) (by omega) (by omega)
                ((prefix_rest hsep hclean (by omega)).mp hbefore)

theorem firstPart_word (src : U32) : (roundDown (src + PGSIZE) PGSIZE - src).toNat = firstPart src := by
  have hsrc := src.isLt
  unfold firstPart
  rw [BitVec.toNat_sub, roundDown_toNat, BitVec.toNat_add, show PGSIZE.toNat = 4096 from rfl]
  omega

/-- **A bounded and checked string copy.**  For every map that is `NULL` or reached from `mm_create`, every
memory, source, buffer and bound, `copyLegalStr` returns.  Every byte that it reads lies in a range that
`checkUserMem` has accepted before, it writes at most `maxn` bytes and only into `dst[0 .. maxn)`, and
nothing else changes.  For a buffer apart from the string it returns 1 exactly when the string has its NUL
at an index `k < maxn` and every page-bounded chunk up to the one that holds index `k` is accepted, and then
`dst[0 .. k]` is `src[0 .. k]`. -/
theorem copyLegalStr_bounded_checked_copy (mm : Option MemMap) (mem : Bytes) (dst src maxn : U32)
    (hrun : ∀ m, mm = some m → Relation.ReflTransGen VmaStep mmCreate m) :
    StrChecked mm mem dst maxn.toNat (copyLegalStr mm mem dst src maxn) ∧
      (Separate mem dst src maxn.toNat →
        StrCopied mm mem dst src maxn.toNat (copyLegalStr mm mem dst src maxn)) :=
  copyLegalLoop_spec (fun m hm => inv_of_vmaRun (hrun m hm)) mem dst src maxn _ (firstPart_word src)

/-- The string "ab" at the end of a page; its NUL is on the next one. -/
def stringAtPageEnd : Bytes := fun a =>
  if a = 0x200FFE#32 then 97#8 else if a = 0x200FFF#32 then 98#8 else 0#8

/-- A map with two pages that may be read. -/
def twoReadPages : MemMap := ⟨[⟨0, 0x200000, 0x202000, VMM_READ⟩], none, 0, 1, 0⟩

theorem twoReadPages_run : Relation.ReflTransGen VmaStep mmCreate twoReadPages :=
  Relation.ReflTransGen.single (.insert ⟨0, 0x200000, 0x202000, VMM_READ⟩ rfl)

theorem strLegal_twoReadPages : StrLegal (some twoReadPages) stringAtPageEnd 0x200FFE#32 16 := by
  refine ⟨2, by decide, ⟨by decide, by decide⟩, fun j hj => ?_⟩
  -- The string has a byte of each of the first two chunks.
  have hchunks : j = 0 ∨ j = 1 := by
    unfold chunkOff at hj
    rw [show (0x200FFE#32).toNat = 0x200FFE from rfl] at hj
    omega
  have hinv := inv_of_vmaRun twoReadPages_run
  rcases hchunks with rfl | rfl
  · refine (checkUserMem_iff _ hinv _ _ (by decide) _).mpr ⟨⟨by decide, by decide⟩, fun x hlo hhi => ?_⟩
    exact absurd (Nat.lt_of_le_of_lt hlo hhi) (by decide)
  · refine (checkUserMem_iff _ hinv _ _ (by decide) _).mpr ⟨⟨by decide, by decide⟩, fun x hlo hhi => ?_⟩
    exact absurd (Nat.lt_of_le_of_lt hlo hhi) (by decide)

/-- The string is copied, with its NUL. -/
theorem copyLegalStr_across_page :
    (copyLegalStr (some twoReadPages) stringAtPageEnd 0xC0002000#32 0x200FFE#32 16#32).ret = true ∧
      (copyLegalStr (some twoReadPages) stringAtPageEnd 0xC0002000#32 0x200FFE#32 16#32).mem 0xC0002000#32 = 97 ∧
      (copyLegalStr (some twoReadPages) stringAtPageEnd 0xC0002000#32 0x200FFE#32 16#32).mem 0xC0002001#32 = 98 ∧
      (copyLegalStr (some twoReadPages) stringAtPageEnd 0xC0002000#32 0x200FFE#32 16#32).mem 0xC0002002#32 = 0 := by
  have hspec := (copyLegalStr_bounded_checked_copy (some twoReadPages) stringAtPageEnd 0xC0002000#32 0x200FFE#32 16#32
    (fun m hm => Option.some.inj hm ▸ twoReadPages_run)).2 ?_
  · have hret := hspec.ret.mpr strLegal_twoReadPages
    have hbytes := hspec.copied hret 2 ⟨by decide, by decide⟩
    exact ⟨hret, hbytes 0 (by decide), hbytes 1 (by decide), hbytes 2 (by decide)⟩
  · intro i j hi hj _ heq
    have h := congrArg BitVec.toNat heq
    simp only [byteAddr, BitVec.toNat_add, BitVec.toNat_ofNat] at h hi hj
    omega

end Memory
end FreakOS
