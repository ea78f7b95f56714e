import Mathlib.Data.List.GetD
import FreakOS.Fs.FatIo

/-!
# What a FAT file holds

The sectors of a file, and where its pointer stands among them.

* `IoVolume.fileSect` — the sectors of a file, in the order of its bytes.
* `shown`, `fileByte` — the bytes of a file, of which a sector may be in the buffer only.
* `IoFile` — `curr_clust`, `curr_sect`, `sect_clust` and the buffer belong to `fptr`.
* `readLoop_spec` — `fatbase_read` returns the bytes of the file, whichever transfers fail.
-/

namespace FreakOS
namespace Fs

open Lib
open Memory
open Fat (clust2sect)

/-! ### Sectors of clusters -/

namespace IoVolume

/-- The sectors of a cluster. -/
def C (v : IoVolume) : Nat := v.vol.sectsClust.toNat

/-- The sectors of the clusters have numbers. -/
def Placed (v : IoVolume) : Prop := v.database.toNat + v.vol.maxClust.toNat * v.C < 2 ^ 32

/-- The sector `q` of a file with the clusters `l`. -/
def fileSect (v : IoVolume) (l : List U32) (q : Nat) : U32 := v.sect (l.getD (q / v.C) 0) + BitVec.ofNat 32 (q % v.C)

section Sectors

variable {v : IoVolume} {l m : List U32} {clust : U32} {q r : Nat}

theorem sect_toNat (h : v.Placed) (hin : v.vol.Inside clust) :
    (v.sect clust).toNat = v.database.toNat + (clust.toNat - 2) * v.C := by
  have hge : 2 ≤ clust.toNat := BitVec.le_def.mp hin.1
  have hlt : clust.toNat < v.vol.maxClust.toNat := BitVec.lt_def.mp hin.2
  have hsub : (clust - 2).toNat = clust.toNat - 2 := BitVec.toNat_sub_of_le hin.1
  have hmax : (v.vol.maxClust - 2).toNat = v.vol.maxClust.toNat - 2 :=
    BitVec.toNat_sub_of_le (BitVec.le_def.mpr (by show 2 ≤ _; omega))
  have hmul : (clust.toNat - 2) * v.C ≤ v.vol.maxClust.toNat * v.C := Nat.mul_le_mul_right _ (by omega)
  have hwidth : (v.vol.sectsClust.setWidth 32).toNat = v.C := by
    have hbyte := v.vol.sectsClust.isLt
    unfold C
    rw [BitVec.toNat_setWidth]
    exact Nat.mod_eq_of_lt (by omega)
  unfold Placed at h
  unfold sect clust2sect
  rw [if_neg, BitVec.toNat_add, BitVec.toNat_mul, hsub, hwidth, Nat.mod_eq_of_lt (a := _ * _) (by omega),
    Nat.add_comm, Nat.mod_eq_of_lt (by omega)]
  rw [ge_iff_le, BitVec.le_def, hsub, hmax]
  omega

/-- The number of a sector of a file. -/
theorem fileSect_toNat (h : v.Placed) (hpos : 0 < v.C) (hchain : v.vol.OnChain l) (hq : q / v.C < l.length) :
    (v.fileSect l q).toNat = v.database.toNat + (l[q / v.C].toNat - 2) * v.C + q % v.C := by
  have hin := hchain.inside _ (List.getElem_mem hq)
  have hval := sect_toNat h hin
  have hlt : l[q / v.C].toNat < v.vol.maxClust.toNat := BitVec.lt_def.mp hin.2
  have hge : 2 ≤ l[q / v.C].toNat := BitVec.le_def.mp hin.1
  have hmod : q % v.C < v.C := Nat.mod_lt _ hpos
  have hmul : (l[q / v.C].toNat - 2 + 1) * v.C ≤ v.vol.maxClust.toNat * v.C := Nat.mul_le_mul_right _ (by omega)
  rw [Nat.add_mul, Nat.one_mul] at hmul
  unfold Placed at h
  unfold fileSect
  rw [List.getD_eq_getElem _ _ hq, BitVec.toNat_add, hval, BitVec.toNat_ofNat, Nat.mod_eq_of_lt (a := q % v.C) (by omega),
    Nat.mod_eq_of_lt (by omega)]

/-- The sectors of chains that have no cluster in common are different. -/
theorem fileSect_ne (h : v.Placed) (hpos : 0 < v.C) (hl : v.vol.OnChain l) (hm : v.vol.OnChain m)
    (hq : q / v.C < l.length) (hr : r / v.C < m.length) (hne : l[q / v.C] ≠ m[r / v.C]) :
    v.fileSect l q ≠ v.fileSect m r := by
  intro heq
  have hval := congrArg BitVec.toNat heq
  rw [fileSect_toNat h hpos hl hq, fileSect_toNat h hpos hm hr] at hval
  have hge₁ : 2 ≤ l[q / v.C].toNat := BitVec.le_def.mp (hl.inside _ (List.getElem_mem hq)).1
  have hge₂ : 2 ≤ m[r / v.C].toNat := BitVec.le_def.mp (hm.inside _ (List.getElem_mem hr)).1
  -- The cluster is the quotient.
  have hdiv : ∀ a : Nat, ∀ k, ((a - 2) * v.C + k % v.C) / v.C = a - 2 := by
    intro a k
    rw [Nat.add_comm, Nat.add_mul_div_right _ _ hpos, Nat.div_eq_of_lt (Nat.mod_lt _ hpos), Nat.zero_add]
  have hquot : ((l[q / v.C].toNat - 2) * v.C + q % v.C) / v.C = ((m[r / v.C].toNat - 2) * v.C + r % v.C) / v.C := by
    congr 1
    omega
  rw [hdiv, hdiv] at hquot
  exact hne (BitVec.eq_of_toNat_eq (by omega))

/-- The sectors of one file are different. -/
theorem fileSect_inj (h : v.Placed) (hpos : 0 < v.C) (hl : v.vol.OnChain l) (hq : q / v.C < l.length)
    (hr : r / v.C < l.length) (heq : v.fileSect l q = v.fileSect l r) : q = r := by
  by_cases hclust : q / v.C = r / v.C
  · have hval := congrArg BitVec.toNat heq
    rw [fileSect_toNat h hpos hl hq, fileSect_toNat h hpos hl hr] at hval
    simp only [hclust] at hval
    have hq' := Nat.div_add_mod q v.C
    have hr' := Nat.div_add_mod r v.C
    rw [hclust] at hq'
    omega
  · refine absurd heq (fileSect_ne h hpos hl hl hq hr ?_)
    intro hsame
    exact hclust ((List.Nodup.getElem_inj_iff hl.nodup).mp hsame)

/-- Sectors of one cluster. -/
theorem div_mod_add {j : Nat} (hin : q % v.C + j < v.C) : (q + j) / v.C = q / v.C ∧ (q + j) % v.C = q % v.C + j := by
  have hpos : 0 < v.C := Nat.zero_lt_of_lt hin
  have hsplit : q + j = q % v.C + j + v.C * (q / v.C) := by
    have hval := Nat.div_add_mod q v.C
    omega
  rw [hsplit, Nat.add_mul_div_left _ _ hpos, Nat.add_mul_mod_self_left, Nat.div_eq_of_lt hin, Nat.mod_eq_of_lt hin,
    Nat.zero_add]
  exact ⟨rfl, rfl⟩

/-- The sectors of a cluster follow one another. -/
theorem fileSect_add (v : IoVolume) (l : List U32) {j : Nat} (hin : q % v.C + j < v.C) :
    v.fileSect l (q + j) = v.fileSect l q + BitVec.ofNat 32 j := by
  obtain ⟨hdiv, hmod⟩ := div_mod_add hin
  unfold fileSect
  rw [hdiv, hmod, BitVec.ofNat_add, BitVec.add_assoc]

/-- The next sector of a file, at the end of a cluster. -/
theorem div_mod_last (hpos : 0 < v.C) (hlast : ¬ q % v.C + 1 < v.C) :
    (q + 1) / v.C = q / v.C + 1 ∧ (q + 1) % v.C = 0 := by
  have hlt := Nat.mod_lt q hpos
  have hval := Nat.div_add_mod q v.C
  have heq : q + 1 = v.C * (q / v.C + 1) := by
    rw [Nat.mul_add, Nat.mul_one]
    omega
  rw [heq]
  exact ⟨Nat.mul_div_cancel_left _ hpos, Nat.mul_mod_right ..⟩

theorem fileSect_first (v : IoVolume) (l : List U32) (hmod : q % v.C = 0) (hq : q / v.C < l.length) :
    v.fileSect l q = v.sect l[q / v.C] := by
  unfold fileSect
  rw [hmod, List.getD_eq_getElem _ _ hq]
  exact BitVec.add_zero _

end Sectors

end IoVolume

/-! ### The bytes of a file -/

/-- The sectors of the drive, with the one of a dirty buffer. -/
def shown (f : FatIo) (v : IoVolume) : U32 → ByteMap :=
  if f.dirty then Function.update v.disk f.currSect f.buffer else v.disk

/-- A byte of a file with the clusters `l`. -/
def ioByte (f : FatIo) (v : IoVolume) (l : List U32) (i : Nat) : U8 := shown f v (v.fileSect l (i / 512)) (i % 512)

/-- The pointers of the file are at its sector `q`. -/
structure Stands (f : FatIo) (v : IoVolume) (l : List U32) (q : Nat) : Prop where
  clust : l[q / v.C]? = some f.currClust
  sect : f.currSect = v.fileSect l q
  left : f.sectClust.toNat = v.C - q % v.C

/-- A file with the clusters `l`. -/
structure IoFile (f : FatIo) (v : IoVolume) (l : List U32) : Prop where
  file : FileIn v.vol f.toFatFil l
  wf : v.vol.WellFormed
  placed : v.Placed
  valid : validate f v = true
  error : f.error = false
  top : f.fptr.toNat = 0 → f.sectClust = 1 ∧ f.dirty = false
  stands : f.fptr.toNat ≠ 0 → Stands f v l ((f.fptr.toNat - 1) / 512)
  loaded : f.inSect ≠ 0 → f.dirty = false → f.buffer = v.disk f.currSect

/-- The volume some transfers later. -/
def IoVolume.after (v : IoVolume) (n : Nat) : IoVolume := { v with vol := v.vol.after n }

section Reading

variable {f : FatIo} {v : IoVolume} {l : List U32} {q : Nat}

theorem IoVolume.after_after (v : IoVolume) (m n : Nat) : (v.after m).after n = v.after (m + n) := by
  unfold after
  rw [FatVolume.after_after]

theorem C_pos (hwf : v.vol.WellFormed) : 0 < v.C := hwf.sects

/-- `csize`. -/
theorem clustBytes_eq (v : IoVolume) : v.vol.clustBytes.toNat = v.C * 512 := by
  have hbyte := v.vol.sectsClust.isLt
  unfold FatVolume.clustBytes IoVolume.C
  rw [BitVec.toNat_mul, BitVec.toNat_setWidth]
  show _ % _ * 512 % _ = _
  rw [Nat.mod_eq_of_lt (a := v.vol.sectsClust.toNat) (by omega), Nat.mod_eq_of_lt (by omega)]

/-- The bytes of a file are in its clusters. -/
theorem IoFile.in_clusters (h : IoFile f v l) {i : Nat} (hi : i < f.fsize.toNat) : i / 512 / v.C < l.length := by
  have hsize := h.file.size
  rw [clustBytes_eq] at hsize
  rw [Nat.div_div_eq_div_mul, Nat.mul_comm 512]
  refine (Nat.div_lt_iff_lt_mul (Nat.mul_pos (C_pos h.wf) (by decide))).mpr ?_
  omega

theorem getCluster_after (v : FatVolume) (clust : U32) : ∃ n, (v.getCluster clust).2 = v.after n ∧
    ((v.getCluster clust).1 = 1 ∨ (v.getCluster clust).1 = v.fat clust) ∧
      (v.Works → v.Inside clust → (v.getCluster clust).1 = v.fat clust) := by
  unfold FatVolume.getCluster
  split
  · unfold FatVolume.access
    dsimp only
    split
    · exact ⟨1, rfl, Or.inr rfl, fun _ _ => rfl⟩
    · rename_i hok
      exact ⟨1, rfl, Or.inl rfl, fun hworks => absurd (hworks _ le_rfl) hok⟩
  · rename_i hout
    exact ⟨0, rfl, Or.inl rfl, fun _ hin => absurd hin hout⟩

/-- `fatbase_read` finds the next sector of the file, or fails. -/
theorem nextReadSect_spec (h : IoFile f v l) (hsect : f.inSect = 0) (hlt : f.fptr.toNat < f.fsize.toNat) :
    ∃ n k c, (nextReadSect f v).2 = ({ f with sectClust := k, currClust := c }, v.after n) ∧
      ((nextReadSect f v).1 = .failed ∧ ¬ v.vol.Works ∨
        (nextReadSect f v).1 = .at (v.fileSect l (f.fptr.toNat / 512)) ∧
          l[f.fptr.toNat / 512 / v.C]? = some c ∧ k.toNat = v.C - f.fptr.toNat / 512 % v.C) := by
  have hC := C_pos h.wf
  have hin := h.in_clusters hlt
  have hbyte := v.vol.sectsClust.isLt
  unfold FatIo.inSect at hsect
  unfold nextReadSect
  dsimp only
  by_cases hzero : f.fptr.toNat = 0
  · -- The top of the file.
    have hptr : f.fptr = 0 := BitVec.eq_of_toNat_eq hzero
    have hone := (h.top hzero).1
    rw [hzero] at hin ⊢
    simp only [Nat.zero_div] at hin
    have horg : f.orgClust = l[0] := by
      rw [h.file.org, ← List.head_eq_getElem_zero (List.ne_nil_of_length_pos hin), List.headD_eq_head?_getD,
        List.head?_eq_some_head (List.ne_nil_of_length_pos hin)]
      rfl
    have hinside := h.file.chain.inside _ (List.getElem_mem hin)
    rw [if_neg (by rw [hone]; decide), if_pos hptr, horg]
    dsimp only
    rw [if_neg (not_or.mpr ⟨BitVec.not_lt.mpr hinside.1, BitVec.not_le.mpr hinside.2⟩)]
    refine ⟨0, v.vol.sectsClust, l[0], rfl, Or.inr ⟨?_, ?_, ?_⟩⟩
    · rw [IoVolume.fileSect_first v l (by rw [Nat.zero_div]; exact Nat.zero_mod _) (by simpa using hin)]
      simp only [Nat.zero_div]
    · simp only [Nat.zero_div, List.getElem?_eq_getElem hin]
    · rw [Nat.zero_div, Nat.zero_mod]
      rfl
  · obtain ⟨hclust, hcurr, hleft⟩ := h.stands hzero
    -- The pointer is behind the sector `q`.
    obtain ⟨q, hq⟩ : ∃ q, (f.fptr.toNat - 1) / 512 = q := ⟨_, rfl⟩
    have hnext : f.fptr.toNat / 512 = q + 1 := by omega
    rw [hq] at hclust hcurr hleft
    rw [hnext] at hin ⊢
    have hmod := Nat.mod_lt q hC
    have hsub : (f.sectClust - 1).toNat = v.C - q % v.C - 1 := by
      rw [BitVec.toNat_sub_of_le (BitVec.le_def.mpr (by show 1 ≤ _; omega)), hleft]
      rfl
    by_cases hlast : q % v.C + 1 < v.C
    · obtain ⟨hdiv, hmod'⟩ := IoVolume.div_mod_add hlast
      have hne : f.sectClust - 1 ≠ 0 := by
        intro heq
        rw [heq] at hsub
        change 0 = _ at hsub
        omega
      rw [if_pos hne]
      refine ⟨0, f.sectClust - 1, f.currClust, rfl, Or.inr ⟨?_, ?_, ?_⟩⟩
      · rw [hcurr, IoVolume.fileSect_add v l hlast]
        rfl
      · rw [hdiv]
        exact hclust
      · rw [hsub, hmod']
        omega
    · obtain ⟨hdiv, hmod'⟩ := IoVolume.div_mod_last hC hlast
      have heq : f.sectClust - 1 = 0 := BitVec.eq_of_toNat_eq (by rw [hsub]; show _ = 0; omega)
      have hptr : f.fptr ≠ 0 := fun hptr => hzero (by rw [hptr]; rfl)
      rw [if_neg (not_not.mpr heq), if_neg hptr]
      rw [hdiv] at hin
      have hold : q / v.C < l.length := by omega
      have hcurrClust : f.currClust = l[q / v.C] := by
        rw [List.getElem?_eq_getElem hold] at hclust
        exact (Option.some.inj hclust).symm
      have hlink : v.vol.fat l[q / v.C] = l[q / v.C + 1] := h.file.chain.next_getElem hold hin
      have hinside := h.file.chain.inside _ (List.getElem_mem hin)
      obtain ⟨n, hafter, hval, hworks⟩ := getCluster_after v.vol l[q / v.C]
      have hcall : v.getCluster f.currClust = ((v.vol.getCluster l[q / v.C]).1, v.after n) := by
        unfold IoVolume.getCluster IoVolume.after
        rw [hcurrClust, ← hafter]
      have hmax : (v.after n).vol.maxClust = v.vol.maxClust := rfl
      rw [hcall]
      dsimp only
      rw [hmax]
      rw [hlink] at hval hworks
      generalize (v.vol.getCluster l[q / v.C]).1 = r at hval hworks
      by_cases hok : r = l[q / v.C + 1]
      · subst hok
        rw [if_neg (not_or.mpr ⟨BitVec.not_lt.mpr hinside.1, BitVec.not_le.mpr hinside.2⟩)]
        refine ⟨n, v.vol.sectsClust, l[q / v.C + 1], rfl, Or.inr ⟨?_, ?_, ?_⟩⟩
        · rw [IoVolume.fileSect_first v l hmod' (by rw [hdiv]; exact hin)]
          simp only [hdiv]
          rfl
        · simp only [hdiv, List.getElem?_eq_getElem hin]
        · rw [hmod']
          rfl
      · obtain rfl : r = 1 := hval.resolve_right hok
        rw [if_pos (Or.inl (by decide))]
        refine ⟨n, f.sectClust - 1, f.currClust, rfl, Or.inl ⟨rfl, fun hw => hok ?_⟩⟩
        exact hworks hw (h.file.chain.inside _ (List.getElem_mem hold))

/-! #### Transfers -/

theorem IoVolume.access_eq (v : IoVolume) : v.access = (v.vol.ok v.vol.accesses, v.after 1) := rfl

theorem diskRead_spec (v : IoVolume) (sect : U32) :
    v.diskRead sect = (some (v.disk sect), v.after 1) ∨ v.diskRead sect = (none, v.after 1) ∧ ¬ v.vol.Works := by
  unfold IoVolume.diskRead
  rw [v.access_eq]
  dsimp only
  by_cases hok : v.vol.ok v.vol.accesses = true
  · rw [if_pos hok]
    exact Or.inl rfl
  · rw [if_neg hok]
    exact Or.inr ⟨rfl, fun hworks => hok (hworks _ le_rfl)⟩

/-- The buffer is written back, or the transfer fails. -/
theorem flush_spec (f : FatIo) (v : IoVolume) :
    (∃ n, flush f v = (true, { f with dirty := false }, { v.after n with disk := shown f v })) ∨
      flush f v = (false, f, v.after 1) ∧ ¬ v.vol.Works := by
  unfold flush shown
  by_cases hdirty : f.dirty = true
  · rw [if_pos hdirty, if_pos hdirty]
    unfold IoVolume.diskWrite
    rw [v.access_eq]
    dsimp only
    by_cases hok : v.vol.ok v.vol.accesses = true
    · rw [if_pos hok]
      exact Or.inl ⟨1, rfl⟩
    · rw [if_neg hok]
      exact Or.inr ⟨rfl, fun hworks => hok (hworks _ le_rfl)⟩
  · rw [if_neg hdirty, if_neg hdirty]
    refine Or.inl ⟨0, ?_⟩
    have hclean : f.dirty = false := by simpa using hdirty
    have hsame : { f with dirty := false } = f := by rw [← hclean]
    rw [hsame]
    rfl

theorem map_range_congr {α : Type} {g h : Nat → α} {k : Nat} (hsame : ∀ i < k, g i = h i) :
    (List.range k).map g = (List.range k).map h :=
  List.map_congr_left fun i hi => hsame i (List.mem_range.mp hi)

/-- Sectors one behind the other are read. -/
theorem diskReads_spec (n : Nat) (sect : U32) (v : IoVolume) :
    v.diskReads n sect =
        (some ((List.range (n * 512)).map fun i => v.disk (sect + BitVec.ofNat 32 (i / 512)) (i % 512)), v.after n) ∨
      ∃ m, v.diskReads n sect = (none, v.after m) ∧ ¬ v.vol.Works := by
  induction n generalizing sect v with
  | zero =>
      refine Or.inl ?_
      rw [Nat.zero_mul]
      rfl
  | succ n ih =>
      unfold IoVolume.diskReads
      rcases diskRead_spec v sect with hread | ⟨hread, hfails⟩
      · rw [hread]
        dsimp only
        rcases ih (sect + 1) (v.after 1) with hrest | ⟨m, hrest, hfails⟩
        · rw [hrest]
          refine Or.inl ?_
          have hlen : (n + 1) * 512 = 512 + n * 512 := by omega
          have hafter : (v.after 1).after n = v.after (n + 1) := by
            rw [v.after_after, Nat.add_comm]
          have hfirst : (List.range 512).map (v.disk sect) =
              (List.range 512).map fun i => v.disk (sect + BitVec.ofNat 32 (i / 512)) (i % 512) := by
            refine map_range_congr fun i hi => ?_
            rw [Nat.div_eq_of_lt hi, Nat.mod_eq_of_lt hi]
            exact congrFun (congrArg v.disk (BitVec.add_zero sect).symm) i
          have hrest : ((List.range (n * 512)).map fun i =>
              (v.after 1).disk (sect + 1 + BitVec.ofNat 32 (i / 512)) (i % 512)) =
              (List.range (n * 512)).map ((fun i => v.disk (sect + BitVec.ofNat 32 (i / 512)) (i % 512)) ∘ (512 + ·)) := by
            refine map_range_congr fun i _ => ?_
            have hdiv : (512 + i) / 512 = 1 + i / 512 := by omega
            have hmod : (512 + i) % 512 = i % 512 := by omega
            show v.disk _ _ = v.disk _ _
            rw [hdiv, hmod, BitVec.ofNat_add, ← BitVec.add_assoc]
            rfl
          dsimp only
          rw [hlen, List.range_add, List.map_append, List.map_map, hafter, hfirst, hrest]
        · rw [hrest]
          refine Or.inr ⟨1 + m, ?_, fun hworks => hfails fun k hk => hworks k ((Nat.le_succ _).trans hk)⟩
          rw [← v.after_after]
      · rw [hread]
        exact Or.inr ⟨1, rfl, hfails⟩

/-! #### The loop of `fatbase_read` -/

/-- What reading leaves as it is: the bytes that are shown, and everything that is not shown. -/
structure Reading (f : FatIo) (v : IoVolume) (g : FatIo) (w : IoVolume) : Prop where
  vol : ∃ n disk, w = { v.after n with disk := disk }
  disk : w.disk = v.disk ∨ w.disk = shown f v
  shown : shown g w = shown f v
  fil : g.toFatFil = { f.toFatFil with fptr := g.fptr, dirty := g.dirty, error := g.error }
  slot : g.slot = f.slot
  valid : validate g w = validate f v
  dirty : g.dirty = true → f.dirty = true

namespace Reading

variable {g e : FatIo} {w u : IoVolume}

theorem trans (h₁ : Reading f v g w) (h₂ : Reading g w e u) : Reading f v e u := by
  obtain ⟨n, disk, rfl⟩ := h₁.vol
  obtain ⟨m, disk', rfl⟩ := h₂.vol
  refine ⟨⟨n + m, disk', ?_⟩, ?_, h₂.shown.trans h₁.shown, ?_, h₂.slot.trans h₁.slot, h₂.valid.trans h₁.valid,
    h₁.dirty ∘ h₂.dirty⟩
  · rw [← v.after_after]
    rfl
  · rcases h₂.disk with h | h
    · rcases h₁.disk with h' | h'
      · exact Or.inl (h.trans h')
      · exact Or.inr (h.trans h')
    · exact Or.inr (h.trans h₁.shown)
  · rw [h₂.fil, h₁.fil]

/-- The volume is another one in its sectors and the state of the device only. -/
theorem alike (h : Reading f v g w) : Alike v.vol w.vol ∧ w.vol.fat = v.vol.fat ∧ w.database = v.database ∧
    (v.vol.Works → w.vol.Works) := by
  obtain ⟨n, disk, rfl⟩ := h.vol
  exact ⟨.after v.vol n, rfl, rfl, fun hworks k hk => hworks k ((Nat.le_add_right ..).trans hk)⟩

theorem fileSect (h : Reading f v g w) (l : List U32) (q : Nat) : w.fileSect l q = v.fileSect l q := by
  obtain ⟨n, disk, rfl⟩ := h.vol
  rfl

theorem C (h : Reading f v g w) : w.C = v.C := by
  obtain ⟨n, disk, rfl⟩ := h.vol
  rfl

theorem ioByte (h : Reading f v g w) (l : List U32) (i : Nat) : ioByte g w l i = ioByte f v l i := by
  unfold Fs.ioByte
  rw [h.shown, h.fileSect]

/-- The file after a step of the loop. -/
theorem ioFile (h : Reading f v g w) (hfile : IoFile f v l) (herror : g.error = false) (hle : g.fptr ≤ g.fsize)
    (hpos : g.fptr.toNat ≠ 0) (hstands : Stands g w l ((g.fptr.toNat - 1) / 512))
    (hloaded : g.inSect ≠ 0 → g.dirty = false → g.buffer = w.disk g.currSect) : IoFile g w l := by
  obtain ⟨halike, hfat, hdatabase, -⟩ := h.alike
  have hwf := hfile.wf
  refine ⟨?_, ⟨?_, ?_, ?_, ?_⟩, ?_, h.valid.trans hfile.valid, herror, fun hzero => absurd hzero hpos, fun _ => hstands,
    hloaded⟩
  · refine hfile.file.transfer halike hfat ?_ ?_ fun _ => hle
    · rw [h.fil]
    · rw [h.fil]
  · rw [halike.sectsClust]
    exact hwf.sects
  · rw [halike.maxClust, halike.entryMask]
    exact hwf.entry
  · unfold FatVolume.chainEnd
    rw [halike.maxClust, halike.entryMask]
    exact hwf.mark
  · intro clust hin
    rw [hfat]
    exact hwf.reserved clust ((halike.inside clust).mp hin)
  · unfold IoVolume.Placed
    rw [hdatabase, halike.maxClust, h.C]
    exact hfile.placed

end Reading

/-- What may come of a sector boundary at the byte `p` of the file. -/
inductive ReadsAt (f : FatIo) (v : IoVolume) (l : List U32) (btr : Nat) (g : FatIo) (w : IoVolume) : Boundary → Prop
  | failed (hfails : ¬ v.vol.Works) : ReadsAt f v l btr g w .failed
  | direct (cc : Nat) (hpos : 0 < cc) (hle : cc * 512 ≤ btr) (hclean : g.dirty = false)
      (hstands : Stands g w l (f.fptr.toNat / 512 + (cc - 1))) : ReadsAt f v l btr g w
        (.direct (cc * 512) ((List.range (cc * 512)).map fun i => ioByte f v l (f.fptr.toNat + i)))
  | buffered (hclean : g.dirty = false) (hstands : Stands g w l (f.fptr.toNat / 512))
      (hloaded : g.buffer = w.disk g.currSect) : ReadsAt f v l btr g w .buffered

/-- The pointers move on, and the buffer stays. -/
theorem reading_next (f : FatIo) (v : IoVolume) (n : Nat) (k : U8) (c : U32) :
    Reading f v { f with sectClust := k, currClust := c } (v.after n) :=
  ⟨⟨n, v.disk, rfl⟩, Or.inl rfl, rfl, rfl, rfl, rfl, id⟩

theorem reading_flush (f : FatIo) (v : IoVolume) (n : Nat) :
    Reading f v { f with dirty := false } { v.after n with disk := shown f v } :=
  ⟨⟨n, shown f v, rfl⟩, Or.inr rfl, rfl, rfl, rfl, rfl, fun h => absurd (show false = true from h) (by decide)⟩

/-- With a clean buffer, the pointers and the buffer do not matter for what is shown. -/
theorem reading_clean (hclean : f.dirty = false) (n : Nat) (k : U8) (s : U32) (buffer : ByteMap) :
    Reading f v { f with sectClust := k, currSect := s, buffer := buffer } (v.after n) := by
  refine ⟨⟨n, v.disk, rfl⟩, Or.inl rfl, ?_, rfl, rfl, rfl, id⟩
  have hdirty : ¬ f.dirty = true := by simp [hclean]
  exact (if_neg hdirty).trans (if_neg hdirty).symm

theorem shown_clean (hclean : f.dirty = false) : shown f v = v.disk := if_neg (by simp [hclean])

/-- `fatbase_read` at the sector `q` of the file. -/
theorem readSector_spec (hclean : f.dirty = false) (hsect : f.fptr.toNat = q * 512) (hC : 0 < v.C)
    (hclust : l[q / v.C]? = some f.currClust) (hleft : f.sectClust.toNat = v.C - q % v.C) {btr : Nat} (hpos : 0 < btr) :
    ∃ b g w, readSector f v (v.fileSect l q) btr = (b, g, w) ∧ Reading f v g w ∧ g.fptr = f.fptr ∧
      g.error = f.error ∧ ReadsAt f v l btr g w b := by
  have hq : f.fptr.toNat / 512 = q := by omega
  have hmod := Nat.mod_lt q hC
  unfold readSector
  dsimp only
  by_cases hbig : btr / 512 ≠ 0
  · rw [if_pos hbig]
    obtain ⟨cc, hcc⟩ : ∃ cc, directSects { f with currSect := v.fileSect l q } btr = cc := ⟨_, rfl⟩
    rw [hcc]
    change min (btr / 512) f.sectClust.toNat = cc at hcc
    have hone : 0 < cc := by omega
    have hsmall : ∀ j < cc, q % v.C + j < v.C := fun j hj => by omega
    rcases diskReads_spec cc (v.fileSect l q) v with hread | ⟨m, hread, hfails⟩
    · rw [hread]
      refine ⟨_, _, _, rfl, reading_clean hclean .., rfl, rfl, ?_⟩
      have hbytes : ((List.range (cc * 512)).map fun i =>
          v.disk (v.fileSect l q + BitVec.ofNat 32 (i / 512)) (i % 512)) =
          (List.range (cc * 512)).map fun i => ioByte f v l (f.fptr.toNat + i) := by
        refine map_range_congr fun i hi => ?_
        have hdiv : (f.fptr.toNat + i) / 512 = q + i / 512 := by omega
        have hrem : (f.fptr.toNat + i) % 512 = i % 512 := by omega
        unfold ioByte
        rw [hdiv, hrem, IoVolume.fileSect_add v l (hsmall (i / 512) (by omega)), shown_clean hclean]
      rw [hbytes]
      obtain ⟨hdiv, hmod'⟩ := IoVolume.div_mod_add (hsmall (cc - 1) (by omega))
      refine .direct cc hone (by omega) hclean ⟨?_, ?_, ?_⟩
      · rw [hq]
        show l[(q + (cc - 1)) / v.C]? = _
        rw [hdiv]
        exact hclust
      · rw [hq]
        exact (IoVolume.fileSect_add v l (hsmall (cc - 1) (by omega))).symm
      · rw [hq]
        show (f.sectClust - BitVec.ofNat 8 (cc - 1)).toNat = v.C - (q + (cc - 1)) % v.C
        have hbyte := f.sectClust.isLt
        have hval : (BitVec.ofNat 8 (cc - 1)).toNat = cc - 1 := by
          rw [BitVec.toNat_ofNat]
          exact Nat.mod_eq_of_lt (by omega)
        rw [BitVec.toNat_sub_of_le (BitVec.le_def.mpr (by rw [hval]; omega)), hval, hmod']
        omega
    · rw [hread]
      exact ⟨_, _, _, rfl, reading_clean hclean .., rfl, rfl, .failed hfails⟩
  · rw [if_neg hbig]
    rcases diskRead_spec v (v.fileSect l q) with hread | ⟨hread, hfails⟩
    · rw [hread]
      refine ⟨_, _, _, rfl, reading_clean hclean .., rfl, rfl, .buffered hclean ⟨?_, ?_, ?_⟩ rfl⟩
      · rw [hq]
        exact hclust
      · rw [hq]
        rfl
      · rw [hq]
        exact hleft
    · rw [hread]
      exact ⟨_, _, _, rfl, reading_clean hclean .., rfl, rfl, .failed hfails⟩

/-- What comes of a boundary is the same before and after a flush. -/
theorem ReadsAt.before {g e : FatIo} {w u : IoVolume} {btr : Nat} {b : Boundary} (hreading : Reading f v e u)
    (hptr : e.fptr = f.fptr) (h : ReadsAt e u l btr g w b) : ReadsAt f v l btr g w b := by
  cases h with
  | failed hfails => exact .failed fun hworks => hfails (hreading.alike.2.2.2 hworks)
  | direct cc hpos hle hclean hstands =>
      have hbytes : ((List.range (cc * 512)).map fun i => ioByte e u l (e.fptr.toNat + i)) =
          (List.range (cc * 512)).map fun i => ioByte f v l (f.fptr.toNat + i) := by
        refine map_range_congr fun i _ => ?_
        rw [hreading.ioByte, hptr]
      rw [hbytes]
      rw [hptr] at hstands
      exact .direct cc hpos hle hclean hstands
  | buffered hclean hstands hloaded =>
      rw [hptr] at hstands
      exact .buffered hclean hstands hloaded

theorem readBoundary_spec (h : IoFile f v l) (hsect : f.inSect = 0) (hlt : f.fptr.toNat < f.fsize.toNat) (btr : Nat)
    (hpos : 0 < btr) : ∃ b g w, readBoundary f v btr = (b, g, w) ∧ Reading f v g w ∧ g.fptr = f.fptr ∧
      g.error = f.error ∧ ReadsAt f v l btr g w b := by
  obtain ⟨n, k, c, hnext, hcase⟩ := nextReadSect_spec h hsect hlt
  unfold readBoundary
  generalize nextReadSect f v = r at hnext hcase
  obtain ⟨next, f₁, v₁⟩ := r
  obtain ⟨rfl, rfl⟩ := Prod.mk.inj hnext
  have hstep := reading_next f v n k c
  rcases hcase with ⟨rfl, hfails⟩ | ⟨rfl, hclust, hleft⟩
  · exact ⟨_, _, _, rfl, hstep, rfl, rfl, .failed hfails⟩
  · dsimp only
    rcases flush_spec { f with sectClust := k, currClust := c } (v.after n) with ⟨m, hflush⟩ | ⟨hflush, hfails⟩
    · rw [hflush]
      dsimp only
      have hflushed := hstep.trans (reading_flush { f with sectClust := k, currClust := c } (v.after n) m)
      unfold FatIo.inSect at hsect
      obtain ⟨b, g, w, hcall, hreading, hptr, herror, hreads⟩ := readSector_spec (l := l) (q := f.fptr.toNat / 512)
        (f := { f with sectClust := k, currClust := c, dirty := false })
        (v := { (v.after n).after m with disk := shown { f with sectClust := k, currClust := c } (v.after n) })
        rfl (by show f.fptr.toNat = _; omega) (show 0 < v.C from C_pos h.wf) hclust hleft hpos
      exact ⟨b, g, w, hcall, hflushed.trans hreading, hptr, herror, hreads.before hflushed rfl⟩
    · rw [hflush]
      refine ⟨_, _, _, rfl, hstep.trans ⟨⟨1, v.disk, rfl⟩, Or.inl rfl, rfl, rfl, rfl, rfl, id⟩, rfl, rfl, .failed ?_⟩
      exact fun hworks => hfails (hstep.alike.2.2.2 hworks)

/-- What a call of `fatbase_read` at most leaves: it has moved `k` bytes. -/
structure ReadDone (f : FatIo) (v : IoVolume) (l : List U32) (btr k : Nat) (r : (Int × List U8) × FatIo × IoVolume) :
    Prop where
  le : k ≤ btr
  bytes : r.1.2 = (List.range k).map fun i => ioByte f v l (f.fptr.toNat + i)
  fptr : r.2.1.fptr.toNat = f.fptr.toNat + k
  reading : Reading f v r.2.1 r.2.2
  outcome : r.1.1 = 0 ∧ k = btr ∧ IoFile r.2.1 r.2.2 l ∨
    r.1.1 = FR_RW_ERROR ∧ r.2.1.error = true ∧ ¬ v.vol.Works

theorem advance_toNat (g : FatIo) {k : Nat} (hle : g.fptr.toNat + k < 2 ^ 32) :
    (g.advance k).fptr.toNat = g.fptr.toNat + k := by
  show (g.fptr + BitVec.ofNat 32 k).toNat = _
  rw [BitVec.toNat_add, BitVec.toNat_ofNat, Nat.mod_eq_of_lt (a := k) (by omega), Nat.mod_eq_of_lt hle]

/-- Moving `fptr` moves no byte. -/
theorem reading_advance (g : FatIo) (w : IoVolume) (k : Nat) : Reading g w (g.advance k) w :=
  ⟨⟨0, w.disk, rfl⟩, Or.inl rfl, rfl, rfl, rfl, rfl, id⟩

/-- The bytes of one round, and those of the following ones. -/
theorem ReadDone.cons {g : FatIo} {w : IoVolume} {btr k m : Nat} {r : (Int × List U8) × FatIo × IoVolume}
    (hreading : Reading f v g w) (hptr : g.fptr.toNat = f.fptr.toNat + m) (hm : m ≤ btr)
    (h : ReadDone g w l (btr - m) k r) :
    ReadDone f v l btr (m + k)
      ((r.1.1, ((List.range m).map fun i => ioByte f v l (f.fptr.toNat + i)) ++ r.1.2), r.2) := by
  refine ⟨by have := h.le; omega, ?_, ?_, hreading.trans h.reading, ?_⟩
  · show _ ++ r.1.2 = _
    rw [h.bytes, List.range_add, List.map_append, List.map_map]
    congr 1
    refine map_range_congr fun i _ => ?_
    rw [hreading.ioByte, hptr, Nat.add_assoc]
    rfl
  · rw [h.fptr, hptr, Nat.add_assoc]
  · rcases h.outcome with ⟨hok, hall, hfile⟩ | ⟨herr, hset, hfails⟩
    · exact Or.inl ⟨hok, by omega, hfile⟩
    · exact Or.inr ⟨herr, hset, fun hworks => hfails (hreading.alike.2.2.2 hworks)⟩

/-- The file after one round of the loop has moved `m` bytes. -/
theorem IoFile.round {g : FatIo} {w : IoVolume} {m : Nat} (h : IoFile f v l) (hreading : Reading f v g w)
    (hptr : g.fptr = f.fptr) (herror : g.error = f.error) (hpos : 0 < m) (hle : f.fptr.toNat + m ≤ f.fsize.toNat)
    (hstands : Stands g w l ((f.fptr.toNat + m - 1) / 512))
    (hloaded : (f.fptr.toNat + m) % 512 ≠ 0 → g.dirty = false → g.buffer = w.disk g.currSect) :
    IoFile (g.advance m) w l ∧ Reading f v (g.advance m) w ∧ (g.advance m).fptr.toNat = f.fptr.toNat + m ∧
      (g.advance m).fsize = f.fsize := by
  have hsize := f.fsize.isLt
  have hstep := hreading.trans (reading_advance g w m)
  have hval : (g.advance m).fptr.toNat = f.fptr.toNat + m := by rw [advance_toNat g (by rw [hptr]; omega), hptr]
  have hfsize : (g.advance m).fsize = f.fsize := by
    rw [hstep.fil]
  refine ⟨hstep.ioFile h (herror.trans h.error) ?_ (by omega) ?_ ?_, hstep, hval, hfsize⟩
  · rw [BitVec.le_def, hval, hfsize]
    exact hle
  · rw [hval]
    exact ⟨hstands.clust, hstands.sect, hstands.left⟩
  · unfold FatIo.inSect
    rw [hval]
    exact hloaded

/-- The bytes that come from the buffer. -/
theorem buffer_bytes {g : FatIo} {w : IoVolume} {m : Nat} (hreading : Reading f v g w) (hptr : g.fptr = f.fptr)
    (hstands : Stands g w l (f.fptr.toNat / 512)) (hloaded : g.dirty = false → g.buffer = w.disk g.currSect)
    (hm : f.fptr.toNat % 512 + m ≤ 512) : ((List.range m).map fun i => g.buffer (g.inSect + i)) =
      (List.range m).map fun i => ioByte f v l (f.fptr.toNat + i) := by
  refine map_range_congr fun i hi => ?_
  have hdiv : (f.fptr.toNat + i) / 512 = f.fptr.toNat / 512 := by omega
  have hmod : (f.fptr.toNat + i) % 512 = f.fptr.toNat % 512 + i := by omega
  have hshown : shown g w g.currSect = g.buffer := by
    unfold shown
    by_cases hdirty : g.dirty = true
    · rw [if_pos hdirty, Function.update_self]
    · rw [if_neg hdirty, hloaded (by simpa using hdirty)]
  rw [← hreading.ioByte]
  unfold ioByte FatIo.inSect
  rw [hdiv, hmod, ← hstands.sect, hshown, hptr]

/-- `fatbase_read` returns the bytes of the file from `fptr` on, or fails after some of them. -/
theorem readLoop_spec {fuel : Nat} (btr : Nat) (h : IoFile f v l) (hle : f.fptr.toNat + btr ≤ f.fsize.toNat)
    (hfuel : btr < fuel) : ∃ k, ReadDone f v l btr k (readLoop fuel f v btr) := by
  induction fuel generalizing f v btr with
  | zero => omega
  | succ fuel ih =>
      unfold readLoop
      by_cases hdone : btr = 0
      · rw [if_pos hdone]
        subst hdone
        exact ⟨0, le_rfl, rfl, rfl, ⟨⟨0, v.disk, rfl⟩, Or.inl rfl, rfl, rfl, rfl, rfl, id⟩, Or.inl ⟨rfl, rfl, h⟩⟩
      · rw [if_neg hdone]
        have hsize := f.fsize.isLt
        -- On a boundary the next sector is found; elsewhere the buffer has it.
        obtain ⟨b, g, w, hcall, hreading, hptr, herror, hreads⟩ : ∃ b g w,
            (if f.inSect = 0 then readBoundary f v btr else (.buffered, f, v)) = (b, g, w) ∧ Reading f v g w ∧
              g.fptr = f.fptr ∧ g.error = f.error ∧ (f.inSect = 0 ∧ ReadsAt f v l btr g w b ∨ b = .buffered ∧
                Stands g w l (f.fptr.toNat / 512) ∧ (g.dirty = false → g.buffer = w.disk g.currSect)) := by
          by_cases hsect : f.inSect = 0
          · rw [if_pos hsect]
            obtain ⟨b, g, w, hcall, hreading, hptr, herror, hreads⟩ := readBoundary_spec h hsect (by omega) btr (by omega)
            exact ⟨b, g, w, hcall, hreading, hptr, herror, Or.inl ⟨hsect, hreads⟩⟩
          · rw [if_neg hsect]
            unfold FatIo.inSect at hsect
            refine ⟨_, _, _, rfl, ⟨⟨0, v.disk, rfl⟩, Or.inl rfl, rfl, rfl, rfl, rfl, id⟩, rfl, rfl,
              Or.inr ⟨rfl, ?_, h.loaded hsect⟩⟩
            have hstands := h.stands (by omega)
            rwa [show (f.fptr.toNat - 1) / 512 = f.fptr.toNat / 512 by omega] at hstands
        rw [hcall]
        -- From the buffer, what is left of the sector.
        have hbuffered : Stands g w l (f.fptr.toNat / 512) → (g.dirty = false → g.buffer = w.disk g.currSect) →
            ∃ k, ReadDone f v l btr k
              (let rcnt := g.fraction btr
               let bytes := (List.range rcnt).map fun i => g.buffer (g.inSect + i)
               let r := readLoop fuel (g.advance rcnt) w (btr - rcnt)
               ((r.1.1, bytes ++ r.1.2), r.2)) := by
          intro hstands hloaded
          obtain ⟨m, hm⟩ : ∃ m, g.fraction btr = m := ⟨_, rfl⟩
          have hmin : min (512 - f.fptr.toNat % 512) btr = m := by
            rw [← hm, ← hptr]
            rfl
          have hmle : m ≤ btr := by omega
          have hbytes := buffer_bytes (m := m) hreading hptr hstands hloaded (by omega)
          obtain ⟨hround, hstep, hval, hfsize⟩ := h.round hreading hptr herror (m := m) (by omega) (by omega)
            (by rwa [show (f.fptr.toNat + m - 1) / 512 = f.fptr.toNat / 512 by omega]) fun _ => hloaded
          obtain ⟨k, hk⟩ := ih (btr - m) hround (by rw [hval, hfsize]; omega) (by omega)
          rw [hm]
          dsimp only
          rw [hbytes]
          exact ⟨m + k, hk.cons hstep hval hmle⟩
        rcases hreads with ⟨hsect, hreads⟩ | ⟨rfl, hstands, hloaded⟩
        · unfold FatIo.inSect at hsect
          cases hreads with
          | failed hfails =>
              refine ⟨0, Nat.zero_le _, rfl, congrArg BitVec.toNat hptr, ?_, Or.inr ⟨rfl, rfl, hfails⟩⟩
              exact hreading.trans ⟨⟨0, w.disk, rfl⟩, Or.inl rfl, rfl, rfl, rfl, rfl, id⟩
          | direct cc hpos hfit hclean hstands =>
              obtain ⟨hround, hstep, hval, hfsize⟩ := h.round hreading hptr herror (m := cc * 512) (by omega) (by omega)
                (by rwa [show (f.fptr.toNat + cc * 512 - 1) / 512 = f.fptr.toNat / 512 + (cc - 1) by omega])
                fun hin => absurd hin (by omega)
              obtain ⟨k, hk⟩ := ih (btr - cc * 512) hround (by rw [hval, hfsize]; omega) (by omega)
              exact ⟨cc * 512 + k, hk.cons hstep hval hfit⟩
          | buffered hclean hstands hloaded => exact hbuffered hstands fun _ => hloaded
        · exact hbuffered hstands hloaded

end Reading

end Fs
end FreakOS
