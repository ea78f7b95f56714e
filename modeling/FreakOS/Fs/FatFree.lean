import Mathlib.Order.Interval.Finset.Nat
import Mathlib.Algebra.Order.Interval.Finset.SuccPred
import FreakOS.Fs.FatTableChains
import FreakOS.Fs.SeekRefusal

/-!
# Counting free clusters

`free_clust`, which `create_chain` and `remove_chain` keep, and `fatbase_getfree`, which counts the free entries of
the FAT when `free_clust` is not known.

* `freeSet` — the free clusters of a volume.
* `free_count_run` — over any run of `create_chain` and `remove_chain`, `free_clust` is their number.
* `getFree` — `fatbase_getfree` of a mounted volume, as in the source.
* `getFree_counts` — it counts the free entries in the bytes of the FAT.
-/

namespace FreakOS
namespace Fat

open Lib
open Memory
open Fs

/-! ### `free_clust` -/

/-- The free clusters among those below `maxClust`. -/
def freeSet (maxClust : U32) (fat : U32 → U32) : Finset Nat :=
  (Finset.Ico 2 maxClust.toNat).filter fun c => fat (BitVec.ofNat 32 c) = 0

section FreeSet

variable {m b : U32} {fat fat' : U32 → U32}

theorem mem_freeSet (m : U32) (fat : U32 → U32) (c : U32) : c.toNat ∈ freeSet m fat ↔ (2 ≤ c ∧ c < m) ∧ fat c = 0 := by
  unfold freeSet
  rw [Finset.mem_filter, Finset.mem_Ico, BitVec.ofNat_toNat, BitVec.setWidth_eq, BitVec.le_def, BitVec.lt_def]
  rfl

theorem mem_freeSet_cluster {c : Nat} (h : c ∈ freeSet m fat) : ∃ d : U32, d.toNat = c := by
  have hlt := (Finset.mem_Ico.mp (Finset.mem_filter.mp h).1).2
  have hmax := m.isLt
  refine ⟨BitVec.ofNat 32 c, ?_⟩
  rw [BitVec.toNat_ofNat]
  exact Nat.mod_eq_of_lt (by omega)

/-- A cluster is taken. -/
theorem freeSet_take (hb : 2 ≤ b ∧ b < m) (hfree : fat b = 0) (hused : fat' b ≠ 0)
    (hsame : ∀ c, c ≠ b → (fat' c = 0 ↔ fat c = 0)) :
    (freeSet m fat').card + 1 = (freeSet m fat).card := by
  have hmem : b.toNat ∈ freeSet m fat := (mem_freeSet m fat b).mpr ⟨hb, hfree⟩
  have herase : freeSet m fat' = (freeSet m fat).erase b.toNat := by
    ext c
    rw [Finset.mem_erase]
    constructor
    · intro hc
      obtain ⟨d, rfl⟩ := mem_freeSet_cluster hc
      rw [mem_freeSet] at hc ⊢
      have hne : d ≠ b := by
        rintro rfl
        exact hused hc.2
      exact ⟨fun heq => hne (BitVec.eq_of_toNat_eq heq), hc.1, (hsame d hne).mp hc.2⟩
    · rintro ⟨hne, hc⟩
      obtain ⟨d, rfl⟩ := mem_freeSet_cluster hc
      rw [mem_freeSet] at hc ⊢
      exact ⟨hc.1, (hsame d fun heq => hne (congrArg BitVec.toNat heq)).mpr hc.2⟩
  rw [herase, Finset.card_erase_add_one hmem]

/-- A cluster is given back. -/
theorem freeSet_give (hb : 2 ≤ b ∧ b < m) (hused : fat b ≠ 0) (hfree : fat' b = 0)
    (hsame : ∀ c, c ≠ b → (fat' c = 0 ↔ fat c = 0)) :
    (freeSet m fat').card = (freeSet m fat).card + 1 :=
  (freeSet_take hb hfree hused fun c hc => (hsame c hc).symm).symm

/-- There is a number that no count reaches. -/
theorem freeSet_card_lt (m : U32) (fat : U32 → U32) : (freeSet m fat).card ≤ m.toNat - 2 := by
  unfold freeSet
  refine (Finset.card_filter_le _ _).trans_eq ?_
  rw [Nat.card_Ico]

end FreeSet

/-- `free_clust` is the number of free clusters. -/
def Counted (v : FatVolume) : Prop := v.freeClust.toNat = (freeSet v.maxClust v.fat).card

section Count

variable {v w : FatVolume} {clust : U32} {l : List U32}

theorem Counted.known (h : Counted v) : v.freeClust ≠ 0xFFFFFFFF#32 := by
  intro heq
  have hcount := freeSet_card_lt v.maxClust v.fat
  have hmax := v.maxClust.isLt
  unfold Counted at h
  rw [heq] at h
  change 4294967295 = _ at h
  omega

theorem Counted.after (h : Counted v) (n : Nat) : Counted (v.after n) := h

theorem putCluster_freeClust (v : FatVolume) (clust val : U32) : (v.putCluster clust val).2.freeClust = v.freeClust := by
  unfold FatVolume.putCluster FatVolume.access
  dsimp only
  split <;> rfl

theorem allocated_maxClust (v : FatVolume) (ncl : U32) : (v.allocated ncl).maxClust = v.maxClust :=
  (alike_allocated v ncl).maxClust

/-- A cluster has been taken, and is counted. -/
theorem Counted.allocated (h : Counted v) {b : U32} (hfree : w.freeClust = v.freeClust)
    (hset : (freeSet w.maxClust w.fat).card + 1 = (freeSet v.maxClust v.fat).card) : Counted (w.allocated b) := by
  have hknown := h.known
  unfold Counted at h ⊢
  rw [allocated_fat, allocated_maxClust]
  have hval : (w.allocated b).freeClust = v.freeClust - 1 := by
    unfold FatVolume.allocated
    dsimp only
    rw [hfree, if_pos hknown]
  rw [hval, BitVec.toNat_sub_of_le (BitVec.le_def.mpr (by show 1 ≤ _; omega))]
  show v.freeClust.toNat - 1 = _
  omega

/-- What `create_chain` does when it takes a cluster. -/
theorem stretch_counts (hgood : v.Good) (hclust : clust ≠ 0 → v.Inside clust ∧ v.fat clust ≠ 0)
    {scl : U32} (hpos : 1 ≤ scl.toNat)
    (hscl : scl = 1 ∨ scl < v.maxClust) (h : Counted v) :
    (v.stretch clust scl).2.Good ∧ Counted (v.stretch clust scl).2 := by
  rcases hasRoom_or_full v with hroom | hfull
  · obtain ⟨c, hin, hzero⟩ := hroom.exists_free Nat.one_pos
    have hlt : scl < v.maxClust := by
      refine hscl.elim ?_ id
      rintro rfl
      have hlow : 2 ≤ c.toNat := BitVec.le_def.mp hin.1
      exact BitVec.lt_def.mpr (lt_trans (show 1 < c.toNat from hlow) (BitVec.lt_def.mp hin.2))
    obtain ⟨b, n, hfind, hmem, hfree⟩ := findFree_finds hgood (fun c => (mem_candidates hpos hlt c).mp)
      ⟨c, (mem_candidates hpos hlt c).mpr hin, hzero⟩
    have hb : v.Inside b := (mem_candidates hpos hlt b).mp hmem
    have hne : b ≠ clust := by
      rintro rfl
      exact (hclust (inside_ne_zero hb)).2 hfree
    obtain ⟨u, hput, hu, halike, hfat⟩ := putCluster_end (hgood.after n) b
    have hfreeClust : u.freeClust = v.freeClust := by
      have := putCluster_freeClust (v.after n) b 0x0FFFFFFF#32
      rw [hput] at this
      exact this
    -- The free set has lost the cluster.
    have hset : ∀ e : FatVolume, Alike v e → e.fat = linkedFat v clust b →
        (freeSet e.maxClust e.fat).card + 1 = (freeSet v.maxClust v.fat).card := by
      intro e he hlinked
      rw [he.maxClust, hlinked]
      refine freeSet_take hb hfree ?_ ?_
      · rw [linkedFat_new hne]
        intro hzero
        exact absurd (two_le_of_ended hb hgood.mark) (by rw [hzero]; decide)
      · intro d hd
        by_cases hlink : clust ≠ 0 ∧ d = clust
        · obtain ⟨hnz, rfl⟩ := hlink
          rw [linkedFat_clust hnz]
          exact ⟨fun hz => absurd hz (inside_ne_zero hb), fun hz => absurd hz (hclust hnz).2⟩
        · rw [linkedFat_of_ne hd fun hnz heq => hlink ⟨hnz, heq⟩]
    have halike' : Alike v u := (Alike.after v n).trans halike
    unfold FatVolume.stretch
    rw [hfind]
    dsimp only
    rw [if_neg (BitVec.not_lt.mpr hb.1), hput]
    dsimp only
    rw [if_neg (by decide)]
    by_cases hzero : clust = 0
    · rw [if_neg (not_not.mpr hzero)]
      have hlinked : u.fat = linkedFat v clust b := by
        unfold linkedFat
        rw [if_pos hzero]
        exact hfat
      refine ⟨(alike_allocated u b).good hu fun c hc => ?_, h.allocated hfreeClust (hset u halike' hlinked)⟩
      rw [allocated_fat]
      exact hu.reserved c hc
    · rw [if_pos hzero, hu.putCluster clust b, halike'.entryMask, hgood.entry b hb.2]
      dsimp only
      rw [if_neg (by decide)]
      have hall := halike'.trans (alike_putCluster u 1 (Function.update u.fat clust b))
      have hlinked : Function.update u.fat clust b = linkedFat v clust b := by
        unfold linkedFat
        rw [if_neg hzero, hfat]
        rfl
      have hgood' : ({ u.after 1 with fat := Function.update u.fat clust b } : FatVolume).Good :=
        good_linked hgood hall hlinked hb hne
      refine ⟨(alike_allocated _ b).good hgood' fun c hc => ?_, h.allocated hfreeClust (hset _ hall hlinked)⟩
      rw [allocated_fat]
      exact hgood'.reserved c hc
  · obtain ⟨n, hcall⟩ := stretch_full hgood clust hpos hscl hfull
    rw [hcall]
    exact ⟨hgood.after n, h⟩

/-- Where `create_chain` starts to look for a new chain. -/
theorem start_inside (v : FatVolume) : 1 ≤ (if v.lastClust = 0 ∨ v.maxClust ≤ v.lastClust then 1 else v.lastClust).toNat ∧
    ((if v.lastClust = 0 ∨ v.maxClust ≤ v.lastClust then 1 else v.lastClust) = 1 ∨
      (if v.lastClust = 0 ∨ v.maxClust ≤ v.lastClust then 1 else v.lastClust) < v.maxClust) := by
  split
  · exact ⟨by decide, Or.inl rfl⟩
  · rename_i hlast
    obtain ⟨hzero, hmax⟩ := not_or.mp hlast
    exact ⟨Nat.pos_of_ne_zero fun hz => hzero (BitVec.eq_of_toNat_eq hz), Or.inr (BitVec.not_le.mp hmax)⟩

/-- `create_chain` keeps `free_clust` exact, with any argument. -/
theorem createChain_counts (hgood : v.Good) (h : Counted v) (clust : U32) :
    (v.createChain clust).2.Good ∧ Counted (v.createChain clust).2 := by
  unfold FatVolume.createChain
  by_cases hzero : clust = 0
  · rw [if_pos hzero]
    exact stretch_counts hgood (fun hne => absurd rfl hne) (start_inside v).1 (start_inside v).2 h
  · rw [if_neg hzero]
    by_cases hin : v.Inside clust
    · rw [hgood.getCluster hin]
      dsimp only
      split
      · exact ⟨hgood.after 1, h⟩
      · rename_i hbig
        split
        · exact ⟨hgood.after 1, h⟩
        · refine stretch_counts (hgood.after 1) (fun _ => ⟨hin, fun hz => hbig ?_⟩) ?_ (Or.inr hin.2) h
          · rw [show v.fat clust = 0 from hz]
            decide
          · exact le_trans (by decide) (BitVec.le_def.mp hin.1)
    · have hcall : v.getCluster clust = (1, v) := if_neg hin
      rw [hcall]
      exact ⟨hgood, h⟩

/-! ### `remove_chain` -/

/-- One round of the loop. -/
theorem removeClusters_gives (hgood : v.Good) (h : Counted v) (hin : v.Inside clust) (hused : v.fat clust ≠ 0) :
    ∃ w, w.Good ∧ Alike v w ∧ w.fat = Function.update v.fat clust 0 ∧ Counted w ∧
      ∀ fuel, FatVolume.removeClusters (fuel + 1) v clust = FatVolume.removeClusters fuel w (v.fat clust) := by
  have hput := (hgood.after 1).putCluster clust 0
  rw [show (0 : U32) &&& (v.after 1).entryMask = 0 from BitVec.zero_and] at hput
  generalize hu : ({ (v.after 1).after 1 with fat := Function.update (v.after 1).fat clust 0 } : FatVolume) = u at hput
  have halike : Alike v u := by
    rw [← hu]
    exact (Alike.after v 1).trans (alike_putCluster (v.after 1) 1 _)
  have hfat : u.fat = Function.update v.fat clust 0 := by
    rw [← hu]
    rfl
  have hfree : u.freeClust = v.freeClust := by
    rw [← hu]
    rfl
  have hset : (freeSet u.maxClust u.fat).card = (freeSet v.maxClust v.fat).card + 1 := by
    rw [halike.maxClust, hfat]
    refine freeSet_give hin hused (Function.update_self ..) fun c hc => ?_
    rw [Function.update_of_ne hc]
  have hreleased : u.released.freeClust = v.freeClust + 1 := by
    unfold FatVolume.released
    rw [hfree, if_pos h.known]
  refine ⟨u.released, (halike.trans (alike_released u)).good hgood ?_, halike.trans (alike_released u), ?_, ?_, ?_⟩
  · intro c hc
    rw [released_fat, hfat]
    by_cases heq : c = clust
    · rw [heq, Function.update_self]
      decide
    · rw [Function.update_of_ne heq]
      exact hgood.reserved c hc
  · rw [released_fat, hfat]
  · have hcount := freeSet_card_lt u.maxClust u.fat
    have hmax := u.maxClust.isLt
    unfold Counted at h ⊢
    rw [hreleased, released_fat, (alike_released u).maxClust, hset, BitVec.toNat_add, ← h]
    exact Nat.mod_eq_of_lt (by rw [← h] at hset; show v.freeClust.toNat + 1 < _; omega)
  · intro fuel
    conv_lhs => unfold FatVolume.removeClusters
    rw [if_pos (show 2 ≤ clust ∧ clust < v.maxClust from hin), hgood.getCluster hin]
    dsimp only
    rw [if_neg (hgood.reserved clust hin), hput]
    rfl

/-- The loop of `remove_chain` keeps `free_clust` exact on a chain. -/
theorem removeClusters_counts (hgood : v.Good) (h : Counted v) (hchain : v.OnChain (clust :: l)) {fuel : Nat}
    (hfuel : l.length + 1 < fuel) :
    (FatVolume.removeClusters fuel v clust).2.Good ∧ Counted (FatVolume.removeClusters fuel v clust).2 := by
  have hused : v.fat clust ≠ 0 := by
    intro hzero
    exact absurd (hchain.two_le List.mem_cons_self) (by rw [hzero]; decide)
  obtain ⟨w, hw, halike, hfat, hcounted, hstep⟩ := removeClusters_gives hgood h (hchain.inside clust List.mem_cons_self) hused
  obtain ⟨fuel, rfl⟩ : ∃ n, fuel = n + 1 := ⟨fuel - 1, by omega⟩
  rw [hstep]
  induction l generalizing v w clust fuel with
  | nil =>
      obtain ⟨fuel, rfl⟩ : ∃ n, fuel = n + 1 := ⟨fuel - 1, by simp at hfuel; omega⟩
      unfold FatVolume.removeClusters
      rw [if_neg]
      · exact ⟨hw, hcounted⟩
      · rintro ⟨-, hlt⟩
        rw [halike.maxClust] at hlt
        exact BitVec.not_le.mpr hlt (Chained.last_ended (l := []) hchain)
  | cons d l ih =>
      have hnodup := hchain.nodup
      rw [Chained.next_eq (l := []) hchain]
      have hrest : w.OnChain (d :: l) := by
        refine halike.onChain (Chained.right (l := [clust]) hchain) fun c hc => ?_
        rw [hfat, Function.update_of_ne]
        rintro rfl
        exact (List.nodup_cons.mp hnodup).1 hc
      have hused' : w.fat d ≠ 0 := by
        intro hzero
        exact absurd (hrest.two_le List.mem_cons_self) (by rw [hzero]; decide)
      obtain ⟨u, hu, halike', hfat', hcounted', hstep'⟩ :=
        removeClusters_gives hw hcounted (hrest.inside d List.mem_cons_self) hused'
      rw [List.length_cons] at hfuel
      obtain ⟨fuel, rfl⟩ : ∃ n, fuel = n + 1 := ⟨fuel - 1, by omega⟩
      rw [hstep']
      exact ih hw hcounted hrest hused' u hu halike' hfat' hcounted' hstep' fuel (by omega)

/-! ### Runs -/

/-- Calls one after the other, where `remove_chain` gets the first cluster of a chain. -/
inductive ChainCalls : FatVolume → List ChainOp → FatVolume → Prop
  | nil (v : FatVolume) : ChainCalls v [] v
  | create {v w : FatVolume} {ops : List ChainOp} (clust : U32) (hrest : ChainCalls (v.createChain clust).2 ops w) :
      ChainCalls v (.create clust :: ops) w
  | remove {v w : FatVolume} {ops : List ChainOp} {clust : U32} {l : List U32} (hchain : v.OnChain (clust :: l))
      (hrest : ChainCalls (v.removeChain clust).2 ops w) : ChainCalls v (.remove clust :: ops) w

/-- The volume is full when no cluster is counted. -/
theorem createChain_full_iff (hgood : v.Good) (h : Counted v) : (v.createChain 0).1 = 0 ↔ v.freeClust = 0 := by
  have hcount : v.freeClust = 0 ↔ freeSet v.maxClust v.fat = ∅ := by
    rw [← Finset.card_eq_zero, ← h]
    exact ⟨fun hz => congrArg BitVec.toNat hz, fun hz => BitVec.eq_of_toNat_eq hz⟩
  rw [hcount]
  rcases hasRoom_or_full v with hroom | hfull
  · obtain ⟨b, w, hcall, hw, halike, hchain, -⟩ := createChain_new hgood hroom Nat.one_pos
    obtain ⟨c, hin, hzero⟩ := hroom.exists_free Nat.one_pos
    rw [hcall]
    refine ⟨fun hb => absurd hb (inside_ne_zero (hchain.inside b List.mem_cons_self)), fun hempty => ?_⟩
    have hmem := (mem_freeSet v.maxClust v.fat c).mpr ⟨hin, hzero⟩
    rw [hempty] at hmem
    exact absurd hmem (Finset.notMem_empty _)
  · obtain ⟨n, hcall⟩ := stretch_full hgood 0 (start_inside v).1 (start_inside v).2 hfull
    have hcreate : v.createChain 0 = (0, v.after n) := by
      unfold FatVolume.createChain
      rw [if_pos rfl]
      exact hcall
    rw [hcreate]
    refine ⟨fun _ => Finset.eq_empty_of_forall_notMem fun c hc => ?_, fun _ => rfl⟩
    obtain ⟨d, rfl⟩ := mem_freeSet_cluster hc
    rw [mem_freeSet] at hc
    exact hfull d hc.1 hc.2

/-- Over any run of `create_chain` and `remove_chain`, `free_clust` is the number of free clusters; `create_chain` finds the
volume full when it is zero, and only then. -/
theorem free_count_run {ops : List ChainOp} (hgood : v.Good) (h : Counted v) (hcalls : ChainCalls v ops w) :
    w.Good ∧ Counted w ∧ ((w.createChain 0).1 = 0 ↔ w.freeClust = 0) := by
  induction hcalls with
  | nil v => exact ⟨hgood, h, createChain_full_iff hgood h⟩
  | create clust hrest ih =>
      obtain ⟨hgood', h'⟩ := createChain_counts hgood h clust
      exact ih hgood' h'
  | remove hchain hrest ih =>
      obtain ⟨hgood', h'⟩ := removeClusters_counts hgood h hchain (Nat.lt_succ_of_le (length_le_maxClust hchain))
      exact ih hgood' h'

/-- The small volume, with its seven free clusters counted. -/
def countedSmall : FatVolume := { smallOn (fun _ => true) 0 with freeClust := 7 }

theorem free_count_run_small : ∃ w, w.Good ∧ Counted w ∧ ((w.createChain 0).1 = 0 ↔ w.freeClust = 0) := by
  have hchain : countedSmall.OnChain [2] := by
    refine ⟨List.isChain_singleton 2, ?_, ?_⟩
    · intro c hc
      rw [List.mem_singleton.mp hc]
      exact ⟨by decide, show 2#32 < 10#32 by decide⟩
    · intro c hc
      obtain rfl : 2 = c := by simpa using hc
      exact show (10 : U32) ≤ 0x0FFFFFFF#32 by decide
  have hcalls : ChainCalls countedSmall [.remove 2, .create 0] _ := .remove hchain (.create 0 (.nil _))
  exact ⟨_, free_count_run (v := countedSmall) ⟨⟨(wellFormed_small _ 0).sects, (wellFormed_small _ 0).entry,
    (wellFormed_small _ 0).mark, (wellFormed_small _ 0).reserved⟩, fun _ _ => rfl⟩ (show _ = _ by decide) hcalls⟩

end Count

/-! ### `fatbase_getfree` -/

namespace WinVolume

/-- The loop of `fatbase_getfree` over the clusters of a FAT12 volume. -/
def countFat12 : Nat → U32 → U32 → WinVolume → U32 × WinVolume
  | 0, _, n, v => (n, v)
  | fuel + 1, clust, n, v =>
      let (val, v) := v.getCluster clust
      let n := if val.setWidth 16 = 0#16 then n + 1 else n
      let clust := clust + 1
      if clust < v.maxClust then countFat12 fuel clust n v else (n, v)

/-- The loop of `fatbase_getfree` over the entries of the other volumes.  `f` is a byte, and `0` again behind a sector. -/
def scanEntries : Nat → U32 → U32 → U8 → Nat → WinVolume → Option U32 × WinVolume
  | 0, n, _, _, _, v => (some n, v)
  | rounds + 1, n, sect, f, p, v =>
      match if f = 0 then v.moveWindow sect else (true, v) with
      | (false, v) => (none, v)
      | (true, v) =>
          let sect := if f = 0 then sect + 1 else sect
          let p := if f = 0 then 0 else p
          if v.fsType = .fat16 then
            scanEntries rounds (if ld16 v.win p = 0 then n + 1 else n) sect (f + 1) (p + 2) v
          else scanEntries rounds (if ld32 v.win p = 0 then n + 1 else n) sect (f + 2) (p + 4) v

/-- `fatbase_getfree(drv, nclust, fatfs)`, when the volume is mounted. -/
def getFree (v : WinVolume) : Except Int U32 × WinVolume :=
  if v.freeClust ≤ v.maxClust - 2 then (.ok v.freeClust, v)
  else
    let (n, v) :=
      if v.fsType = .fat12 then
        let (n, v) := countFat12 v.maxClust.toNat 2 0 v
        (some n, v)
      else scanEntries ((v.maxClust - 1).toNat + 1) 0 v.fatbase 0 0 v
    match n with
    | none => (.error FR_RW_ERROR, v)
    | some n => (.ok n, { v with freeClust := n, fsiFlag := if v.fsType = .fat32 then true else v.fsiFlag })

end WinVolume

/-! ### What the loops count -/

section Entries

/-- The size of an entry in `WORD`s; a FAT12 volume is not scanned so. -/
def FatLayout.words (l : FatLayout) : Nat := if l.fsType = .fat16 then 1 else 2

/-- The bytes of an entry are all zero. -/
def FatLayout.Blank (l : FatLayout) (b : ByteMap) (p : Nat) : Prop :=
  if l.fsType = .fat16 then ld16 b p = 0 else ld32 b p = 0

instance (l : FatLayout) (b : ByteMap) (p : Nat) : Decidable (l.Blank b p) := by
  unfold FatLayout.Blank
  infer_instance

/-- A free entry. -/
def FatLayout.IsFree (l : FatLayout) (L : U32 → ByteMap) (i : Nat) : Prop :=
  2 ≤ i ∧ l.entryOf L (BitVec.ofNat 32 i) = 0

instance (l : FatLayout) (L : U32 → ByteMap) : DecidablePred (l.IsFree L) := fun _ => inferInstanceAs (Decidable (_ ∧ _))

/-- What a formatted FAT has: the first two entries are of no cluster, and the bits that an entry does not have are
clear in the free ones. -/
structure FatLayout.Formatted (l : FatLayout) (L : U32 → ByteMap) : Prop where
  reserved : ∀ i < 2, ¬ l.Blank (l.fatBytes L) (2 * l.words * i)
  blank : ∀ c : U32, 2 ≤ c → c < l.maxClust → l.entryOf L c = 0 → l.Blank (l.fatBytes L) (2 * l.words * c.toNat)

variable {v w : WinVolume} {L : U32 → ByteMap}

/-- The free clusters, counted one after the other. -/
theorem freeSet_card (l : FatLayout) (L : U32 → ByteMap) :
    (freeSet l.maxClust (l.entryOf L)).card = Nat.count (l.IsFree L) l.maxClust.toNat := by
  rw [Nat.count_eq_card_filter_range]
  congr 1
  ext i
  rw [Finset.mem_filter, Finset.mem_range]
  unfold freeSet FatLayout.IsFree
  rw [Finset.mem_filter, Finset.mem_Ico]
  tauto

theorem count_lt (l : FatLayout) (L : U32 → ByteMap) {i : Nat} (m : U32) (h : i ≤ m.toNat) :
    Nat.count (l.IsFree L) i < 2 ^ 32 :=
  lt_of_le_of_lt ((Nat.count_le ..).trans h) m.isLt

/-- The counter after an entry. -/
theorem counted_succ (l : FatLayout) (L : U32 → ByteMap) {n : U32} {i : Nat} {m : U32} (hi : i < m.toNat) {p : Prop}
    [Decidable p] (hn : n.toNat ≤ Nat.count (l.IsFree L) i) (hp : p → l.IsFree L i) :
    (if p then n + 1 else n).toNat ≤ Nat.count (l.IsFree L) (i + 1) ∧
      (n.toNat = Nat.count (l.IsFree L) i → (l.IsFree L i → p) →
        (if p then n + 1 else n).toNat = Nat.count (l.IsFree L) (i + 1)) := by
  have hlt := count_lt l L m hi.le
  rw [Nat.count_succ]
  by_cases h : p
  · have hval : (n + 1).toNat = n.toNat + 1 := by
      rw [BitVec.toNat_add]
      have hlt' := count_lt l L m hi
      rw [Nat.count_succ, if_pos (hp h)] at hlt'
      exact Nat.mod_eq_of_lt (by show n.toNat + 1 < _; omega)
    rw [if_pos h, if_pos (hp h), hval]
    exact ⟨by omega, fun heq _ => by rw [heq]⟩
  · rw [if_neg h]
    refine ⟨by omega, fun heq hfree => ?_⟩
    rw [if_neg fun hf => h (hfree hf), heq]
    rfl

/-- The count over a FAT12 volume, where a transfer that fails leaves a free cluster out. -/
theorem countFat12_spec {fuel : Nat} {clust n : U32} (h : v.Shows L) (hfits : v.Fits) (htype : v.fsType = .fat12)
    (hlow : 2 ≤ clust) (hlt : clust < v.maxClust) (hfuel : v.maxClust.toNat ≤ clust.toNat + fuel)
    (hn : n.toNat ≤ Nat.count (v.IsFree L) clust.toNat) :
    WinVolume.Keeps v (WinVolume.countFat12 fuel clust n v).2 L ∧
      (WinVolume.countFat12 fuel clust n v).1.toNat ≤ Nat.count (v.IsFree L) v.maxClust.toNat ∧
      (v.Works → n.toNat = Nat.count (v.IsFree L) clust.toNat →
        (WinVolume.countFat12 fuel clust n v).1.toNat = Nat.count (v.IsFree L) v.maxClust.toNat) := by
  induction fuel generalizing v clust n with
  | zero =>
      have := BitVec.lt_def.mp hlt
      omega
  | succ fuel ih =>
      obtain ⟨hkeeps, hread, hdone⟩ := WinVolume.getCluster_spec h hfits hlow hlt
      have hnat : BitVec.ofNat 32 clust.toNat = clust := by rw [BitVec.ofNat_toNat, BitVec.setWidth_eq]
      have hnext : (clust + 1).toNat = clust.toNat + 1 := by
        have hmax := v.maxClust.isLt
        have := BitVec.lt_def.mp hlt
        rw [BitVec.toNat_add]
        exact Nat.mod_eq_of_lt (by show clust.toNat + 1 < _; omega)
      -- Sixteen bits of an entry are all of it.
      have hword : (v.entryOf L clust).setWidth 16 = 0#16 ↔ v.entryOf L clust = 0 := by
        have hsmall := (ld12 (v.fatBytes L) clust.toNat).isLt
        rw [← BitVec.toNat_inj, ← BitVec.toNat_inj, WinVolume.entryOf_fat12 htype, BitVec.toNat_setWidth,
          BitVec.toNat_setWidth]
        show _ % 2 ^ 32 % 2 ^ 16 = 0 ↔ _ % 2 ^ 32 = 0
        omega
      unfold WinVolume.countFat12
      generalize v.getCluster clust = r at hkeeps hread hdone
      obtain ⟨val, w⟩ := r
      dsimp only at hkeeps hread hdone ⊢
      have hfree : val.setWidth 16 = 0#16 → v.IsFree L clust.toNat := by
        intro hzero
        rcases hread with rfl | rfl
        · cases hzero
        · exact ⟨BitVec.le_def.mp hlow, by rw [hnat]; exact hword.mp hzero⟩
      have hseen : v.Works → v.IsFree L clust.toNat → val.setWidth 16 = 0#16 := by
        rintro hworks ⟨-, hzero⟩
        rw [hnat] at hzero
        rw [hdone hworks]
        exact hword.mpr hzero
      obtain ⟨hle, heq⟩ := counted_succ v.toFatLayout L (BitVec.lt_def.mp hlt) hn hfree
      rw [← hnext] at hle heq
      generalize (if val.setWidth 16 = 0#16 then n + 1 else n) = n' at hle heq ⊢
      rw [← hkeeps.next.layout] at hfits htype hle
      rw [hkeeps.next.layout]
      split
      · rename_i hmore
        rw [← hkeeps.next.layout] at hmore hfuel
        have hlow' : 2 ≤ clust + 1 := by
          have := BitVec.le_def.mp hlow
          exact BitVec.le_def.mpr (by rw [hnext]; exact Nat.le_succ_of_le this)
        obtain ⟨hkeeps', hle', heq'⟩ := ih hkeeps.shows hfits htype hlow' hmore (by omega) hle
        rw [hkeeps.next.layout] at hle' heq'
        refine ⟨hkeeps.trans hkeeps', hle', fun hworks hcount => heq' (hkeeps.next.works hworks) ?_⟩
        exact heq hcount (hseen hworks)
      · rename_i hmore
        have hend : clust.toNat + 1 = v.maxClust.toNat := by
          have := BitVec.lt_def.mp hlt
          have := BitVec.le_def.mp (BitVec.not_lt.mp hmore)
          omega
        rw [hkeeps.next.layout, hnext, hend] at hle
        rw [hnext, hend] at heq
        exact ⟨hkeeps, hle, fun hworks hcount => heq hcount (hseen hworks)⟩

/-! ### The scan -/

/-- One entry. -/
theorem scanEntries_succ (rounds : Nat) (n sect : U32) (f : U8) (p : Nat) (v : WinVolume) :
    WinVolume.scanEntries (rounds + 1) n sect f p v =
      match if f = 0 then v.moveWindow sect else (true, v) with
      | (false, w) => (none, w)
      | (true, w) => WinVolume.scanEntries rounds (if w.Blank w.win (if f = 0 then 0 else p) then n + 1 else n)
          (if f = 0 then sect + 1 else sect) (f + BitVec.ofNat 8 w.words) ((if f = 0 then 0 else p) + 2 * w.words) w := by
  conv_lhs => unfold WinVolume.scanEntries
  generalize (if f = 0 then v.moveWindow sect else (true, v)) = r
  obtain ⟨ok, w⟩ := r
  cases ok with
  | false => rfl
  | true =>
      dsimp only
      unfold FatLayout.Blank FatLayout.words
      by_cases htype : w.fsType = .fat16
      · simp only [if_pos htype]
        rfl
      · simp only [if_neg htype]
        rfl

/-- The scan is at entry `i`. -/
structure ScansAt (v : WinVolume) (L : U32 → ByteMap) (i : Nat) (sect : U32) (f : U8) (p : Nat) : Prop where
  shows : v.Shows L
  place : f = BitVec.ofNat 8 (i * v.words)
  start : f = 0 → sect = v.sectOf (2 * v.words * i)
  inside : f ≠ 0 → sect = v.sectOf (2 * v.words * i) + 1 ∧ p = 2 * v.words * i % 512 ∧ v.win = L (v.sectOf (2 * v.words * i))

/-- `f` counts the `WORD`s of a sector. -/
theorem ScansAt.f_iff {i : Nat} {sect : U32} {f : U8} {p : Nat} (h : ScansAt v L i sect f p) :
    f = 0 ↔ 2 * v.words * i % 512 = 0 := by
  have hval : f.toNat = i * v.words % 256 := by
    rw [h.place, BitVec.toNat_ofNat]
  have hzero : f = 0 ↔ f.toNat = 0 := ⟨fun heq => congrArg BitVec.toNat heq, fun heq => BitVec.eq_of_toNat_eq heq⟩
  have hmul : 2 * v.words * i = 2 * (i * v.words) := by ring
  rw [hzero, hval, hmul]
  omega

theorem words_cases (l : FatLayout) : l.words = 1 ∨ l.words = 2 := by
  unfold FatLayout.words
  split
  · exact Or.inl rfl
  · exact Or.inr rfl

/-- The bytes of an entry, in the window. -/
theorem blank_window (l : FatLayout) (L : U32 → ByteMap) (i : Nat) :
    l.Blank (L (l.sectOf (2 * l.words * i))) (2 * l.words * i % 512) ↔ l.Blank (l.fatBytes L) (2 * l.words * i) := by
  unfold FatLayout.Blank FatLayout.words
  split
  · rw [FatLayout.ld16_fatBytes L (by omega)]
  · rw [FatLayout.ld32_fatBytes L (by omega)]

/-- The sector of the next entry. -/
theorem sectOf_next (l : FatLayout) (i : Nat) :
    (2 * l.words * (i + 1) % 512 = 0 → l.sectOf (2 * l.words * (i + 1)) = l.sectOf (2 * l.words * i) + 1) ∧
      (2 * l.words * (i + 1) % 512 ≠ 0 → l.sectOf (2 * l.words * (i + 1)) = l.sectOf (2 * l.words * i) ∧
        2 * l.words * (i + 1) % 512 = 2 * l.words * i % 512 + 2 * l.words) := by
  unfold FatLayout.sectOf
  obtain hwords | hwords := words_cases l
  all_goals rw [hwords]
  · refine ⟨fun hzero => ?_, fun hne => ⟨?_, by omega⟩⟩
    · rw [show 2 * 1 * (i + 1) / 512 = 2 * 1 * i / 512 + 1 by omega, BitVec.ofNat_add, ← BitVec.add_assoc]
      rfl
    · rw [show 2 * 1 * (i + 1) / 512 = 2 * 1 * i / 512 by omega]
  · refine ⟨fun hzero => ?_, fun hne => ⟨?_, by omega⟩⟩
    · rw [show 2 * 2 * (i + 1) / 512 = 2 * 2 * i / 512 + 1 by omega, BitVec.ofNat_add, ← BitVec.add_assoc]
      rfl
    · rw [show 2 * 2 * (i + 1) / 512 = 2 * 2 * i / 512 by omega]

/-- The sector of an entry is in the window, and the next entry is found from there. -/
theorem ScansAt.next {i : Nat} {sect : U32} {p : Nat} (hshows : v.Shows L) (hwin : v.win = L (v.sectOf (2 * v.words * i)))
    (hsect : sect = v.sectOf (2 * v.words * i) + 1) (hp : p = 2 * v.words * i % 512) :
    ScansAt v L (i + 1) sect (BitVec.ofNat 8 (i * v.words) + BitVec.ofNat 8 v.words) (p + 2 * v.words) := by
  obtain ⟨hwrap, hsame⟩ := sectOf_next v.toFatLayout i
  have hplace : BitVec.ofNat 8 (i * v.words) + BitVec.ofNat 8 v.words = BitVec.ofNat 8 ((i + 1) * v.words) := by
    rw [← BitVec.ofNat_add, Nat.add_mul, Nat.one_mul]
  have hf : BitVec.ofNat 8 ((i + 1) * v.words) = 0 ↔ 2 * v.words * (i + 1) % 512 = 0 := by
    have hzero : BitVec.ofNat 8 ((i + 1) * v.words) = 0 ↔ (i + 1) * v.words % 256 = 0 := by
      rw [← BitVec.toNat_inj, BitVec.toNat_ofNat]
      rfl
    have hmul : 2 * v.words * (i + 1) = 2 * ((i + 1) * v.words) := by ring
    rw [hzero, hmul]
    omega
  rw [hplace]
  refine ⟨hshows, rfl, fun hzero => ?_, fun hne => ?_⟩
  · rw [hsect, hwrap (hf.mp hzero)]
  · obtain ⟨hsect', hoff⟩ := hsame fun heq => hne (hf.mpr heq)
    rw [hsect', hoff, hsect, hp]
    exact ⟨rfl, rfl, hwin⟩

/-- The bytes of the entries of a volume that is not FAT12 are in its FAT. -/
theorem entry_room (hfits : v.Fits) (htype : v.fsType ≠ .fat12) {i : Nat} (hi : i < v.maxClust.toNat) :
    2 * v.words * i < v.sectsFat.toNat * 512 := by
  unfold FatLayout.words
  cases h : v.fsType with
  | fat12 => exact absurd h htype
  | fat16 =>
      have := (hfits.fat16 h).2
      rw [if_pos rfl]
      omega
  | fat32 =>
      have := hfits.fat32 h
      rw [if_neg (by decide)]
      omega

/-- The sector of the entry comes into the window, if it is not there. -/
theorem ScansAt.fetch {i : Nat} {sect : U32} {f : U8} {p : Nat} (h : ScansAt v L i sect f p) (hfits : v.Fits)
    (htype : v.fsType ≠ .fat12) (hi : i < v.maxClust.toNat) :
    WinVolume.Keeps v (if f = 0 then v.moveWindow sect else (true, v)).2 L ∧
      ((if f = 0 then v.moveWindow sect else (true, v)).1 = true →
        (if f = 0 then v.moveWindow sect else (true, v)).2.win = L (v.sectOf (2 * v.words * i))) ∧
      (v.Works → (if f = 0 then v.moveWindow sect else (true, v)).1 = true) := by
  by_cases hf : f = 0
  · rw [if_pos hf, h.start hf]
    obtain ⟨hkeeps, hwin, hdone⟩ := WinVolume.moveWindow_fat h.shows (entry_room hfits htype hi)
    exact ⟨hkeeps, fun hok => (hwin hok).2, hdone⟩
  · rw [if_neg hf]
    exact ⟨.refl h.shows, fun _ => (h.inside hf).2.2, fun _ => rfl⟩

/-- The place of the entry in the window, and the next sector. -/
theorem ScansAt.place_eq {i : Nat} {sect : U32} {f : U8} {p : Nat} (h : ScansAt v L i sect f p) :
    (if f = 0 then sect + 1 else sect) = v.sectOf (2 * v.words * i) + 1 ∧
      (if f = 0 then 0 else p) = 2 * v.words * i % 512 := by
  by_cases hf : f = 0
  · rw [if_pos hf, if_pos hf, h.start hf, h.f_iff.mp hf]
    exact ⟨rfl, rfl⟩
  · rw [if_neg hf, if_neg hf]
    exact ⟨(h.inside hf).1, (h.inside hf).2.1⟩

/-- On a formatted volume the scan takes the free entries for free, and no others. -/
theorem FatLayout.Formatted.blank_iff {l : FatLayout} (h : l.Formatted L) (htype : l.fsType ≠ .fat12) {i : Nat}
    (hi : i < l.maxClust.toNat) : l.Blank (l.fatBytes L) (2 * l.words * i) ↔ l.IsFree L i := by
  have hmax := l.maxClust.isLt
  have hnat : (BitVec.ofNat 32 i).toNat = i := Nat.mod_eq_of_lt (by omega)
  constructor
  · intro hblank
    refine ⟨Nat.le_of_not_lt fun hlt => h.reserved i hlt hblank, ?_⟩
    unfold Blank words at hblank
    unfold entryOf
    cases hfat : l.fsType with
    | fat12 => exact absurd hfat htype
    | fat16 =>
        rw [hfat, if_pos rfl, if_pos rfl] at hblank
        dsimp only
        rw [hnat, hblank]
        rfl
    | fat32 =>
        rw [hfat, if_neg (by decide), if_neg (by decide)] at hblank
        dsimp only
        rw [hnat, hblank]
        rfl
  · rintro ⟨hlow, hzero⟩
    have hblank := h.blank (BitVec.ofNat 32 i) (BitVec.le_def.mpr (by rw [hnat]; exact hlow))
      (BitVec.lt_def.mpr (by rw [hnat]; exact hi)) hzero
    rwa [hnat] at hblank

/-- The scan counts the free entries, unless a transfer fails. -/
theorem scanEntries_spec {rounds i p : Nat} {n sect : U32} {f : U8} (h : ScansAt v L i sect f p) (hfits : v.Fits)
    (htype : v.fsType ≠ .fat12) (hformat : v.Formatted L) (hi : i + rounds = v.maxClust.toNat)
    (hn : n.toNat = Nat.count (v.IsFree L) i) :
    WinVolume.Keeps v (WinVolume.scanEntries rounds n sect f p v).2 L ∧
      (∀ m, (WinVolume.scanEntries rounds n sect f p v).1 = some m → m.toNat = Nat.count (v.IsFree L) v.maxClust.toNat) ∧
      (v.Works → (WinVolume.scanEntries rounds n sect f p v).1 ≠ none) := by
  induction rounds generalizing v i p n sect f with
  | zero =>
      refine ⟨.refl h.shows, ?_, fun _ => nofun⟩
      rintro m ⟨⟩
      rw [hn, ← hi]
      rfl
  | succ rounds ih =>
      have hlt : i < v.maxClust.toNat := by omega
      obtain ⟨hkeeps, hwin, hdone⟩ := h.fetch hfits htype hlt
      obtain ⟨hsect, hp⟩ := h.place_eq
      rw [scanEntries_succ, hsect, hp, h.place]
      rw [h.place] at hkeeps hwin hdone
      generalize (if BitVec.ofNat 8 (i * v.words) = 0 then v.moveWindow sect else (true, v)) = r at hkeeps hwin hdone
      obtain ⟨ok, w⟩ := r
      cases ok with
      | false => exact ⟨hkeeps, nofun, fun hworks => absurd (hdone hworks) Bool.false_ne_true⟩
      | true =>
          dsimp only at hkeeps hwin ⊢
          have hblank : w.Blank w.win (2 * v.words * i % 512) ↔ v.IsFree L i := by
            rw [hwin rfl, hkeeps.next.layout]
            exact (blank_window v.toFatLayout L i).trans (hformat.blank_iff htype hlt)
          obtain ⟨-, hcount⟩ := counted_succ v.toFatLayout L hlt hn.le hblank.mp
          have hnext := ScansAt.next (v := w) (i := i) hkeeps.shows (by rw [hkeeps.next.layout]; exact hwin rfl) rfl rfl
          rw [← hkeeps.next.layout] at hfits htype hformat
          have hrest := ih hnext hfits htype hformat (by rw [hkeeps.next.layout]; omega)
            (by rw [hkeeps.next.layout]; exact hcount hn hblank.mpr)
          rw [hkeeps.next.layout] at hrest ⊢
          obtain ⟨hkeeps', hm, hsome⟩ := hrest
          exact ⟨hkeeps.trans hkeeps', hm, fun hworks => hsome (hkeeps.next.works hworks)⟩

/-- The clusters below `2` are not counted. -/
theorem count_two (l : FatLayout) (L : U32 → ByteMap) : Nat.count (l.IsFree L) 2 = 0 := by
  rw [Nat.count_eq_card_filter_range, Finset.card_eq_zero, Finset.filter_eq_empty_iff]
  rintro i hi ⟨hlow, -⟩
  have := Finset.mem_range.mp hi
  omega

/-- The count over a FAT12 volume, which may have no clusters. -/
theorem countFat12_all (h : v.Shows L) (hfits : v.Fits) (htype : v.fsType = .fat12) (hmax : 2 ≤ v.maxClust) :
    WinVolume.Keeps v (WinVolume.countFat12 v.maxClust.toNat 2 0 v).2 L ∧
      (WinVolume.countFat12 v.maxClust.toNat 2 0 v).1.toNat ≤ Nat.count (v.IsFree L) v.maxClust.toNat ∧
      (v.Works → (WinVolume.countFat12 v.maxClust.toNat 2 0 v).1.toNat = Nat.count (v.IsFree L) v.maxClust.toNat) := by
  have hzero : (0 : U32).toNat = Nat.count (v.IsFree L) (2 : U32).toNat := (count_two v.toFatLayout L).symm
  by_cases hlt : 2 < v.maxClust
  · have hfuel : v.maxClust.toNat ≤ (2 : U32).toNat + v.maxClust.toNat := Nat.le_add_left ..
    obtain ⟨hkeeps, hle, heq⟩ := countFat12_spec h hfits htype (BitVec.le_refl 2) hlt hfuel hzero.le
    exact ⟨hkeeps, hle, fun hworks => heq hworks hzero⟩
  · have hval : v.maxClust = 2 := BitVec.le_antisymm (BitVec.not_lt.mp hlt) hmax
    have hread : v.getCluster 2 = (1, v) := by
      unfold WinVolume.getCluster
      rw [hval]
      rfl
    have hcall : WinVolume.countFat12 v.maxClust.toNat 2 0 v = (0, v) := by
      rw [hval]
      show WinVolume.countFat12 2 2 0 v = _
      unfold WinVolume.countFat12
      rw [hread]
      dsimp only
      rw [hval]
      rfl
    have hnone : Nat.count (v.IsFree L) v.maxClust.toNat = 0 := by
      rw [hval]
      exact count_two v.toFatLayout L
    rw [hcall, hnone]
    exact ⟨.refl h, le_rfl, fun _ => rfl⟩

/-- `free_clust` is the number of free entries in the bytes of the FAT, or not known. -/
def Known (v : WinVolume) (L : U32 → ByteMap) : Prop :=
  v.freeClust ≤ v.maxClust - 2 → v.freeClust.toNat = (freeSet v.maxClust (v.entryOf L)).card

/-- `fatbase_getfree` returns the number of free entries in the bytes of the FAT, and has it in `free_clust` from then on.
When a transfer fails it may return an error, or on a FAT12 volume a smaller number. -/
theorem getFree_counts (h : v.Shows L) (hfits : v.Fits) (hmax : 2 ≤ v.maxClust) (hformat : v.fsType ≠ .fat12 → v.Formatted L)
    (hknown : Known v L) :
    WinVolume.Keeps v v.getFree.2 L ∧
      (v.getFree.1 = .error FR_RW_ERROR ∧ ¬ v.Works ∨
        ∃ n, v.getFree.1 = .ok n ∧ v.getFree.2.freeClust = n ∧ n.toNat ≤ (freeSet v.maxClust (v.entryOf L)).card ∧
          (v.fsType ≠ .fat12 ∨ v.Works → n.toNat = (freeSet v.maxClust (v.entryOf L)).card)) := by
  unfold WinVolume.getFree
  by_cases hvalid : v.freeClust ≤ v.maxClust - 2
  · rw [if_pos hvalid]
    exact ⟨.refl h, Or.inr ⟨v.freeClust, rfl, rfl, (hknown hvalid).le, fun _ => hknown hvalid⟩⟩
  · rw [if_neg hvalid, freeSet_card]
    by_cases htype : v.fsType = .fat12
    · obtain ⟨hkeeps, hle, heq⟩ := countFat12_all h hfits htype hmax
      rw [if_pos htype]
      generalize WinVolume.countFat12 v.maxClust.toNat 2 0 v = r at hkeeps hle heq
      obtain ⟨n, w⟩ := r
      dsimp only at hkeeps hle heq ⊢
      refine ⟨hkeeps.trans (WinVolume.keeps_of_eq hkeeps.shows ⟨rfl, rfl, le_rfl⟩ rfl rfl rfl rfl),
        Or.inr ⟨n, rfl, rfl, hle, ?_⟩⟩
      rintro (hother | hworks)
      · exact absurd htype hother
      · exact heq hworks
    · have hrounds : (v.maxClust - 1).toNat + 1 = v.maxClust.toNat := by
        have hlow : 2 ≤ v.maxClust.toNat := BitVec.le_def.mp hmax
        rw [BitVec.toNat_sub_of_le (BitVec.le_def.mpr (by show 1 ≤ _; omega))]
        show v.maxClust.toNat - 1 + 1 = _
        omega
      have hstart : ScansAt v L 0 v.fatbase 0 0 := by
        refine ⟨h, ?_, fun _ => ?_, fun hne => absurd rfl hne⟩
        · rw [Nat.zero_mul]
          rfl
        · unfold FatLayout.sectOf
          rw [Nat.mul_zero, Nat.zero_div]
          exact (BitVec.add_zero _).symm
      have hscan := scanEntries_spec (n := 0) hstart hfits htype (hformat htype) (Nat.zero_add _) rfl
      rw [if_neg htype, hrounds]
      obtain ⟨hkeeps, hm, hsome⟩ := hscan
      generalize WinVolume.scanEntries v.maxClust.toNat 0 v.fatbase 0 0 v = r at hkeeps hm hsome
      obtain ⟨n, w⟩ := r
      cases n with
      | none =>
          exact ⟨hkeeps, Or.inl ⟨rfl, fun hworks => hsome hworks rfl⟩⟩
      | some n =>
          exact ⟨hkeeps.trans (WinVolume.keeps_of_eq hkeeps.shows ⟨rfl, rfl, le_rfl⟩ rfl rfl rfl rfl),
            Or.inr ⟨n, rfl, rfl, (hm n rfl).le, fun _ => hm n rfl⟩⟩

/-- A volume with 298 clusters, whose FAT has two sectors.  All but two of the clusters are free. -/
def smallWin16 : WinVolume := { WinVolume.smallWin with
  fsType := .fat16
  sectsFat := 2
  maxClust := 300
  disk := fun _ i => if i < 4 then 0xFF else 0 }

theorem formatted_smallWin16 : smallWin16.Formatted smallWin16.main := by
  refine ⟨by decide, fun c _ hlt _ => ?_⟩
  have hall : ∀ n < 300, smallWin16.entryOf smallWin16.main (BitVec.ofNat 32 n) = 0 →
      smallWin16.Blank (smallWin16.fatBytes smallWin16.main) (2 * smallWin16.words * n) := by
    decide +kernel
  have hc := hall c.toNat (BitVec.lt_def.mp hlt)
  rw [BitVec.ofNat_toNat, BitVec.setWidth_eq] at hc
  exact hc ‹_›

/-- The scan counts 254 free clusters in the first sector, and 42 in the second one. -/
theorem getFree_counts_small : smallWin16.getFree.1 = .ok 296 ∧
    WinVolume.Keeps smallWin16 smallWin16.getFree.2 smallWin16.main ∧
    (smallWin16.getFree.1 = .error FR_RW_ERROR ∧ ¬ smallWin16.Works ∨
      ∃ n, smallWin16.getFree.1 = .ok n ∧ smallWin16.getFree.2.freeClust = n ∧
        n.toNat ≤ (freeSet 300 (smallWin16.entryOf smallWin16.main)).card ∧
        (smallWin16.fsType ≠ .fat12 ∨ smallWin16.Works →
          n.toNat = (freeSet 300 (smallWin16.entryOf smallWin16.main)).card)) :=
  ⟨by decide +kernel, getFree_counts (WinVolume.shows_mounted ⟨by decide, by decide, by decide, by decide⟩ rfl rfl)
    ⟨fun h => (by cases h), fun _ => by decide, fun h => (by cases h)⟩ (by decide) (fun _ => formatted_smallWin16)
    (fun h => absurd h (by decide))⟩

end Entries

end Fat
end FreakOS
