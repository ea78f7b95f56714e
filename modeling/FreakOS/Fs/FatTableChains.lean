import FreakOS.Fs.FatChains
import FreakOS.Fs.FatTable

/-!
# Cluster chains in the bytes of the FAT

`create_chain` and `remove_chain` of `fat_base.c` over the `get_cluster` and `put_cluster` that work on the sectors of the
drive.

* `WinVolume.createChain`, `WinVolume.removeChain` — as in the source.
* `Sim` — the bytes of the FAT are the entries of a `FatVolume`.
* `chains_refine` — on a drive that works, any sequence of calls does to the bytes what it does to the entries.
-/

namespace FreakOS
namespace Fat

open Lib
open Memory
open Fs (FatVolume)

/-! ### The source -/

namespace WinVolume

/-- The clusters that `create_chain` looks at, from `scl` on and around. -/
def candidates (v : WinVolume) (scl : U32) : List U32 :=
  (List.range' (scl.toNat + 1) (v.maxClust.toNat - (scl.toNat + 1)) ++ List.range' 2 (scl.toNat - 1)).map
    (BitVec.ofNat 32)

/-- The loop of `create_chain`: a free cluster, `0` if there is none, `1` after an error. -/
def findFree : List U32 → WinVolume → U32 × WinVolume
  | [], v => (0, v)
  | ncl :: rest, v =>
      let (cstat, v) := v.getCluster ncl
      if cstat = 0 then (ncl, v)
      else if cstat = 1 then (1, v)
      else findFree rest v

/-- The free cluster information after `create_chain` has taken a cluster. -/
def allocated (v : WinVolume) (ncl : U32) : WinVolume :=
  let v := { v with lastClust := ncl }
  if v.freeClust ≠ 0xFFFFFFFF#32 then { v with freeClust := v.freeClust - 1, fsiFlag := true } else v

/-- The rest of `create_chain(fs, clust)`, from `scl` on. -/
def stretch (v : WinVolume) (clust scl : U32) : U32 × WinVolume :=
  let (ncl, v) := findFree (v.candidates scl) v
  if ncl < 2 then (ncl, v)
  else
    let (ok, v) := v.putCluster ncl 0x0FFFFFFF#32
    if !ok then (1, v)
    else
      let (ok, v) := if clust ≠ 0 then v.putCluster clust ncl else (true, v)
      if !ok then (1, v) else (ncl, v.allocated ncl)

/-- `create_chain(fs, clust)`. -/
def createChain (v : WinVolume) (clust : U32) : U32 × WinVolume :=
  if clust = 0 then
    let scl := if v.lastClust = 0 ∨ v.maxClust ≤ v.lastClust then 1 else v.lastClust
    v.stretch 0 scl
  else
    let (cstat, v) := v.getCluster clust
    if cstat < 2 then (1, v)
    else if cstat < v.maxClust then (cstat, v)
    else v.stretch clust clust

/-- The free cluster information after `remove_chain` has given a cluster back. -/
def released (v : WinVolume) : WinVolume :=
  if v.freeClust ≠ 0xFFFFFFFF#32 then { v with freeClust := v.freeClust + 1, fsiFlag := true } else v

/-- The loop of `remove_chain`. -/
def removeClusters : Nat → WinVolume → U32 → Bool × WinVolume
  | 0, v, _ => (false, v)
  | fuel + 1, v, clust =>
      if 2 ≤ clust ∧ clust < v.maxClust then
        let (nxt, v) := v.getCluster clust
        if nxt = 1 then (false, v)
        else
          let (ok, v) := v.putCluster clust 0
          if !ok then (false, v) else removeClusters fuel v.released nxt
      else (true, v)

/-- `remove_chain(fs, clust)`.  Each round makes a cluster free, so no more than `max_clust` are made. -/
def removeChain (v : WinVolume) (clust : U32) : Bool × WinVolume := removeClusters (v.maxClust.toNat + 1) v clust

end WinVolume

/-! ### The free cluster information -/

namespace WinVolume

/-- `last_clust`, `free_clust` and `fsi_flag`. -/
def info (v : WinVolume) : U32 × U32 × Bool := (v.lastClust, v.freeClust, v.fsiFlag)

theorem diskWrite_info (v : WinVolume) (buffer : ByteMap) (sect : U32) : (v.diskWrite buffer sect).2.info = v.info := by
  unfold diskWrite
  split
  · rfl
  · rfl

theorem reflect_info (n : Nat) (wsect : U32) (v : WinVolume) : (v.reflect n wsect).info = v.info := by
  induction n generalizing wsect v with
  | zero => rfl
  | succ n ih => exact (ih ..).trans (diskWrite_info ..)

theorem writeBack_info (v : WinVolume) : v.writeBack.2.info = v.info := by
  have hwrite := diskWrite_info v v.win v.winsect
  unfold writeBack
  split
  · dsimp only
    generalize v.diskWrite v.win v.winsect = r at hwrite
    obtain ⟨ok, w⟩ := r
    cases ok with
    | false => exact hwrite
    | true =>
        dsimp only
        split
        · exact (reflect_info ..).trans hwrite
        · exact hwrite
  · rfl

/-- The window has nothing to do with it. -/
theorem moveWindow_info (v : WinVolume) (sector : U32) : (v.moveWindow sector).2.info = v.info := by
  have hback := writeBack_info v
  unfold moveWindow
  split
  · generalize v.writeBack = r at hback
    obtain ⟨ok, w⟩ := r
    cases ok with
    | false => exact hback
    | true =>
        dsimp only
        split
        · have hread : (w.diskRead sector).2.info = w.info := rfl
          generalize w.diskRead sector = r at hread
          obtain ⟨win, z⟩ := r
          cases win with
          | none => exact hread.trans hback
          | some win => exact hread.trans hback
        · exact hback
  · rfl

/-- What follows a `move_window`. -/
theorem andThen_info {α : Type} (v : WinVolume) (sector : U32) (fail : α) {next : WinVolume → α × WinVolume}
    (hnext : ∀ w, (next w).2.info = w.info) :
    (match v.moveWindow sector with | (false, w) => (fail, w) | (true, w) => next w).2.info = v.info := by
  have hmove := moveWindow_info v sector
  generalize v.moveWindow sector = r at hmove
  obtain ⟨ok, w⟩ := r
  cases ok with
  | false => exact hmove
  | true => exact (hnext w).trans hmove

theorem getCluster_info (v : WinVolume) (clust : U32) : (v.getCluster clust).2.info = v.info := by
  unfold getCluster
  split
  · cases v.fsType with
    | fat12 => exact andThen_info v _ 1 fun w => andThen_info w _ 1 fun _ => rfl
    | fat16 => exact andThen_info v _ 1 fun _ => rfl
    | fat32 => exact andThen_info v _ 1 fun _ => rfl
  · rfl

theorem putCluster_info (v : WinVolume) (clust val : U32) : (v.putCluster clust val).2.info = v.info := by
  unfold putCluster
  cases v.fsType with
  | fat12 => exact andThen_info v _ false fun _ => andThen_info _ _ false fun _ => rfl
  | fat16 => exact andThen_info v _ false fun _ => rfl
  | fat32 => exact andThen_info v _ false fun _ => rfl

end WinVolume

/-! ### The simulation -/

/-- The bytes of the FAT are the entries of a volume, and neither drive fails. -/
structure Sim (v : WinVolume) (u : FatVolume) : Prop where
  fits : v.Fits
  shown : ∃ L, v.Shows L ∧ ∀ c < v.maxClust, v.entryOf L c = u.fat c
  maxClust : u.maxClust = v.maxClust
  entryMask : u.entryMask = v.entryMask
  lastClust : u.lastClust = v.lastClust
  freeClust : u.freeClust = v.freeClust
  fsiFlag : u.fsiFlag = v.fsiFlag
  works : v.Works
  works' : u.Works

section Sim

variable {v w : WinVolume} {u z : FatVolume} {clust val : U32}

/-- What an operation returns on the two volumes, and what it leaves. -/
structure SimPair {α : Type} (v : WinVolume) (r : α × WinVolume) (r' : α × FatVolume) : Prop where
  result : r.1 = r'.1
  sim : Sim r.2 r'.2
  layout : r.2.toFatLayout = v.toFatLayout

theorem SimPair.after {α : Type} {r : α × WinVolume} {r' : α × FatVolume} (h : SimPair w r r')
    (hlayout : w.toFatLayout = v.toFatLayout) : SimPair v r r' := ⟨h.result, h.sim, h.layout.trans hlayout⟩

theorem Sim.pair {α : Type} (h : Sim v u) (x : α) : SimPair v (x, v) (x, u) := ⟨rfl, h, rfl⟩

/-- The free cluster information is not in the bytes. -/
theorem Sim.taken (h : Sim v u) (last : U32) : Sim { v with lastClust := last } { u with lastClust := last } := by
  obtain ⟨L, hshows, hfat⟩ := h.shown
  exact ⟨h.fits, ⟨L, hshows.congr ⟨rfl, rfl, le_rfl⟩ rfl rfl rfl fun _ _ => rfl, hfat⟩, h.maxClust, h.entryMask, rfl,
    h.freeClust, h.fsiFlag, h.works, h.works'⟩

@[inherit_doc Sim.taken]
theorem Sim.counted (h : Sim v u) (free : U32) :
    Sim { v with freeClust := free, fsiFlag := true } { u with freeClust := free, fsiFlag := true } := by
  obtain ⟨L, hshows, hfat⟩ := h.shown
  exact ⟨h.fits, ⟨L, hshows.congr ⟨rfl, rfl, le_rfl⟩ rfl rfl rfl fun _ _ => rfl, hfat⟩, h.maxClust, h.entryMask,
    h.lastClust, rfl, rfl, h.works, h.works'⟩

/-- An access to the device of the abstract volume. -/
theorem Sim.access (h : Sim v u) : u.access = (true, u.after 1) := by
  unfold FatVolume.access FatVolume.after
  rw [h.works' _ le_rfl]

/-- The two volumes after an operation that keeps the information. -/
theorem Sim.step {L : U32 → ByteMap} (h : Sim v u) (hkeeps : WinVolume.Keeps v w L) (hinfo : w.info = v.info)
    {fat : U32 → U32} (hfat : ∀ c < v.maxClust, v.entryOf L c = fat c) : Sim w { u.after 1 with fat := fat } := by
  have hlayout := hkeeps.next.layout
  obtain ⟨hlast, hrest⟩ := Prod.mk.inj hinfo
  obtain ⟨hfree, hflag⟩ := Prod.mk.inj hrest
  refine ⟨?_, ⟨L, hkeeps.shows, ?_⟩, ?_, ?_, ?_, ?_, ?_, hkeeps.next.works h.works, ?_⟩
  · rw [hlayout]
    exact h.fits
  · rw [hlayout]
    exact hfat
  · rw [hlayout]
    exact h.maxClust
  · rw [hlayout]
    exact h.entryMask
  · exact h.lastClust.trans hlast.symm
  · exact h.freeClust.trans hfree.symm
  · exact h.fsiFlag.trans hflag.symm
  · intro n hn
    exact h.works' n ((Nat.le_succ _).trans hn)

theorem Sim.getCluster (h : Sim v u) (clust : U32) : SimPair v (v.getCluster clust) (u.getCluster clust) := by
  obtain ⟨L, hshows, hfat⟩ := h.shown
  by_cases hrange : 2 ≤ clust ∧ clust < v.maxClust
  · have hcall : u.getCluster clust = (u.fat clust, u.after 1) := by
      unfold FatVolume.getCluster
      rw [h.maxClust, if_pos hrange, h.access]
      rfl
    obtain ⟨hkeeps, -, hval⟩ := WinVolume.getCluster_spec hshows h.fits hrange.1 hrange.2
    rw [hcall]
    exact ⟨(hval h.works).trans (hfat clust hrange.2), h.step hkeeps (WinVolume.getCluster_info v clust) hfat,
      hkeeps.next.layout⟩
  · have hleft : v.getCluster clust = (1, v) := if_neg hrange
    have hright : u.getCluster clust = (1, u) := by
      unfold FatVolume.getCluster
      rw [h.maxClust, if_neg hrange]
    rw [hleft, hright]
    exact h.pair 1

theorem Sim.putCluster (h : Sim v u) (hlt : clust < v.maxClust) (val : U32) :
    SimPair v (v.putCluster clust val) (u.putCluster clust val) := by
  obtain ⟨L, hshows, hfat⟩ := h.shown
  obtain ⟨L', hputs⟩ := WinVolume.putCluster_spec hshows h.fits hlt val
  have hdone := hputs.done h.works
  have hcall : u.putCluster clust val =
      (true, { u.after 1 with fat := Function.update u.fat clust (val &&& u.entryMask) }) := by
    unfold FatVolume.putCluster
    rw [h.access]
    rfl
  rw [hcall]
  refine ⟨hdone, h.step hputs.keeps (WinVolume.putCluster_info v clust val) ?_, hputs.keeps.next.layout⟩
  intro c hc
  by_cases hsame : c = clust
  · subst hsame
    rw [Function.update_self, hputs.entry hdone, h.entryMask]
  · rw [Function.update_of_ne hsame, hputs.others c hc hsame, hfat c hc]

/-- A cluster whose entry is no error is in the volume. -/
theorem inside_of_getCluster (clust : U32) (hne : (v.getCluster clust).1 ≠ 1) : 2 ≤ clust ∧ clust < v.maxClust := by
  by_contra hout
  refine hne ?_
  unfold WinVolume.getCluster
  rw [if_neg hout]

/-! ### `create_chain` and `remove_chain` -/

theorem two_not_le : ¬ (2 : U32) ≤ 0 ∧ ¬ (2 : U32) ≤ 1 := by decide

theorem Sim.findFree (h : Sim v u) (cs : List U32) : SimPair v (WinVolume.findFree cs v) (FatVolume.findFree cs u) ∧
    (2 ≤ (WinVolume.findFree cs v).1 → (WinVolume.findFree cs v).1 < v.maxClust) := by
  induction cs generalizing v u with
  | nil => exact ⟨h.pair 0, fun hge => absurd hge two_not_le.1⟩
  | cons ncl cs ih =>
      have hget := h.getCluster ncl
      have hinside := inside_of_getCluster (v := v) ncl
      unfold WinVolume.findFree FatVolume.findFree
      generalize v.getCluster ncl = r at hget hinside
      generalize u.getCluster ncl = r' at hget
      obtain ⟨cstat, w⟩ := r
      obtain ⟨cstat', z⟩ := r'
      obtain ⟨rfl, hsim, hlayout⟩ := hget
      dsimp only at hsim hlayout hinside ⊢
      by_cases hzero : cstat = 0
      · rw [if_pos hzero, if_pos hzero]
        subst hzero
        exact ⟨⟨rfl, hsim, hlayout⟩, fun _ => (hinside (by decide)).2⟩
      · rw [if_neg hzero, if_neg hzero]
        by_cases hone : cstat = 1
        · rw [if_pos hone, if_pos hone]
          exact ⟨⟨rfl, hsim, hlayout⟩, fun hge => absurd hge two_not_le.2⟩
        · rw [if_neg hone, if_neg hone]
          obtain ⟨hrest, hlt⟩ := ih hsim
          rw [hlayout] at hlt
          exact ⟨hrest.after hlayout, hlt⟩

theorem Sim.allocated (h : Sim v u) (ncl : U32) :
    Sim (v.allocated ncl) (u.allocated ncl) ∧ (v.allocated ncl).toFatLayout = v.toFatLayout := by
  unfold WinVolume.allocated FatVolume.allocated
  dsimp only
  by_cases hknown : v.freeClust ≠ 0xFFFFFFFF#32
  · rw [if_pos hknown, if_pos (by rw [h.freeClust]; exact hknown), h.freeClust]
    exact ⟨(h.taken ncl).counted _, rfl⟩
  · rw [if_neg hknown, if_neg (by rw [h.freeClust]; exact hknown)]
    exact ⟨h.taken ncl, rfl⟩

theorem Sim.released (h : Sim v u) : Sim v.released u.released ∧ v.released.toFatLayout = v.toFatLayout := by
  unfold WinVolume.released FatVolume.released
  rw [h.freeClust]
  split
  · exact ⟨h.counted _, rfl⟩
  · exact ⟨h, rfl⟩

theorem Sim.stretch (h : Sim v u) {scl : U32} (hclust : clust ≠ 0 → clust < v.maxClust) :
    SimPair v (v.stretch clust scl) (u.stretch clust scl) := by
  have hcands : u.candidates scl = v.candidates scl := by
    unfold FatVolume.candidates WinVolume.candidates
    rw [h.maxClust]
  unfold WinVolume.stretch FatVolume.stretch
  rw [hcands]
  obtain ⟨hfree, hlt⟩ := h.findFree (v.candidates scl)
  generalize WinVolume.findFree (v.candidates scl) v = r at hfree hlt
  generalize FatVolume.findFree (v.candidates scl) u = r' at hfree
  obtain ⟨ncl, v₁⟩ := r
  obtain ⟨ncl', u₁⟩ := r'
  obtain ⟨rfl, h₁, hlayout₁⟩ := hfree
  dsimp only at h₁ hlayout₁ hlt ⊢
  by_cases hsmall : ncl < 2
  · rw [if_pos hsmall, if_pos hsmall]
    exact ⟨rfl, h₁, hlayout₁⟩
  · rw [if_neg hsmall, if_neg hsmall]
    have hin : ncl < v₁.maxClust := by
      rw [hlayout₁]
      exact hlt (BitVec.not_lt.mp hsmall)
    have hmark := h₁.putCluster hin 0x0FFFFFFF#32
    generalize v₁.putCluster ncl 0x0FFFFFFF#32 = r at hmark
    generalize u₁.putCluster ncl 0x0FFFFFFF#32 = r' at hmark
    obtain ⟨ok, v₂⟩ := r
    obtain ⟨ok', u₂⟩ := r'
    obtain ⟨rfl, h₂, hlayout₂⟩ := hmark
    dsimp only at h₂ hlayout₂ ⊢
    cases ok with
    | false => exact ⟨rfl, h₂, hlayout₂.trans hlayout₁⟩
    | true =>
        have hlink : SimPair v₂ (if clust ≠ 0 then v₂.putCluster clust ncl else (true, v₂))
            (if clust ≠ 0 then u₂.putCluster clust ncl else (true, u₂)) := by
          by_cases hzero : clust ≠ 0
          · rw [if_pos hzero, if_pos hzero]
            refine h₂.putCluster ?_ ncl
            rw [hlayout₂, hlayout₁]
            exact hclust hzero
          · rw [if_neg hzero, if_neg hzero]
            exact h₂.pair true
        generalize (if clust ≠ 0 then v₂.putCluster clust ncl else (true, v₂)) = r at hlink
        generalize (if clust ≠ 0 then u₂.putCluster clust ncl else (true, u₂)) = r' at hlink
        obtain ⟨ok, v₃⟩ := r
        obtain ⟨ok', u₃⟩ := r'
        obtain ⟨rfl, h₃, hlayout₃⟩ := hlink
        dsimp only at h₃ hlayout₃
        have hlayout := hlayout₃.trans (hlayout₂.trans hlayout₁)
        cases ok with
        | false => exact ⟨rfl, h₃, hlayout⟩
        | true =>
            obtain ⟨h₄, hlayout₄⟩ := h₃.allocated ncl
            exact ⟨rfl, h₄, hlayout₄.trans hlayout⟩

/-- `create_chain` does to the bytes what it does to the entries. -/
theorem Sim.createChain (h : Sim v u) (clust : U32) : SimPair v (v.createChain clust) (u.createChain clust) := by
  unfold WinVolume.createChain FatVolume.createChain
  by_cases hzero : clust = 0
  · rw [if_pos hzero, if_pos hzero, h.lastClust, h.maxClust]
    exact h.stretch fun hne => absurd rfl hne
  · rw [if_neg hzero, if_neg hzero]
    have hget := h.getCluster clust
    have hinside := inside_of_getCluster (v := v) clust
    generalize v.getCluster clust = r at hget hinside
    generalize u.getCluster clust = r' at hget
    obtain ⟨cstat, v₁⟩ := r
    obtain ⟨cstat', u₁⟩ := r'
    obtain ⟨rfl, h₁, hlayout⟩ := hget
    dsimp only at h₁ hlayout hinside ⊢
    by_cases hsmall : cstat < 2
    · rw [if_pos hsmall, if_pos hsmall]
      exact ⟨rfl, h₁, hlayout⟩
    · rw [if_neg hsmall, if_neg hsmall, h₁.maxClust]
      by_cases hlink : cstat < v₁.maxClust
      · rw [if_pos hlink, if_pos hlink]
        exact ⟨rfl, h₁, hlayout⟩
      · rw [if_neg hlink, if_neg hlink]
        refine (h₁.stretch fun _ => ?_).after hlayout
        rw [hlayout]
        refine (hinside ?_).2
        rintro rfl
        exact hsmall (by decide)

theorem Sim.removeClusters (h : Sim v u) (fuel : Nat) (clust : U32) :
    SimPair v (WinVolume.removeClusters fuel v clust) (FatVolume.removeClusters fuel u clust) := by
  induction fuel generalizing v u clust with
  | zero => exact h.pair false
  | succ fuel ih =>
      unfold WinVolume.removeClusters FatVolume.removeClusters
      rw [h.maxClust]
      by_cases hrange : 2 ≤ clust ∧ clust < v.maxClust
      · rw [if_pos hrange, if_pos hrange]
        have hget := h.getCluster clust
        generalize v.getCluster clust = r at hget
        generalize u.getCluster clust = r' at hget
        obtain ⟨nxt, v₁⟩ := r
        obtain ⟨nxt', u₁⟩ := r'
        obtain ⟨rfl, h₁, hlayout₁⟩ := hget
        dsimp only at h₁ hlayout₁ ⊢
        by_cases hone : nxt = 1
        · rw [if_pos hone, if_pos hone]
          exact ⟨rfl, h₁, hlayout₁⟩
        · rw [if_neg hone, if_neg hone]
          have hput := h₁.putCluster (show clust < _ by rw [hlayout₁]; exact hrange.2) 0
          generalize v₁.putCluster clust 0 = r at hput
          generalize u₁.putCluster clust 0 = r' at hput
          obtain ⟨ok, v₂⟩ := r
          obtain ⟨ok', u₂⟩ := r'
          obtain ⟨rfl, h₂, hlayout₂⟩ := hput
          dsimp only at h₂ hlayout₂ ⊢
          cases ok with
          | false => exact ⟨rfl, h₂, hlayout₂.trans hlayout₁⟩
          | true =>
              obtain ⟨h₃, hlayout₃⟩ := h₂.released
              exact (ih h₃ nxt).after (hlayout₃.trans (hlayout₂.trans hlayout₁))
      · rw [if_neg hrange, if_neg hrange]
        exact h.pair true

/-- `remove_chain` does to the bytes what it does to the entries. -/
theorem Sim.removeChain (h : Sim v u) (clust : U32) : SimPair v (v.removeChain clust) (u.removeChain clust) := by
  unfold WinVolume.removeChain FatVolume.removeChain
  rw [h.maxClust]
  exact h.removeClusters _ clust

end Sim

/-! ### Sequences of calls -/

/-- A call that changes the chains. -/
inductive ChainOp
  /-- `create_chain(fs, clust)`. -/
  | create (clust : U32)
  /-- `remove_chain(fs, clust)`. -/
  | remove (clust : U32)
deriving DecidableEq, Repr

/-- The results of a sequence of calls, with `0` and `1` for `FALSE` and `TRUE`, on either kind of volume. -/
def chainRun {σ : Type} (create : σ → U32 → U32 × σ) (remove : σ → U32 → Bool × σ) : List ChainOp → σ → List U32 × σ
  | [], v => ([], v)
  | .create clust :: ops, v =>
      let (ncl, v) := create v clust
      let (rest, v) := chainRun create remove ops v
      (ncl :: rest, v)
  | .remove clust :: ops, v =>
      let (ok, v) := remove v clust
      let (rest, v) := chainRun create remove ops v
      ((if ok then 1 else 0) :: rest, v)

section Chains

variable {v : WinVolume} {u : FatVolume}

/-- Whatever chains are created and removed, the bytes of the FAT stay the entries of the volume. -/
theorem chains_refine (h : Sim v u) (ops : List ChainOp) :
    (chainRun WinVolume.createChain WinVolume.removeChain ops v).1 =
        (chainRun FatVolume.createChain FatVolume.removeChain ops u).1 ∧
      Sim (chainRun WinVolume.createChain WinVolume.removeChain ops v).2
        (chainRun FatVolume.createChain FatVolume.removeChain ops u).2 := by
  induction ops generalizing v u with
  | nil => exact ⟨rfl, h⟩
  | cons op ops ih =>
      cases op with
      | create clust =>
          obtain ⟨hresult, hsim, -⟩ := h.createChain clust
          obtain ⟨hrest, hend⟩ := ih hsim
          exact ⟨congrArg₂ List.cons hresult hrest, hend⟩
      | remove clust =>
          obtain ⟨hresult, hsim, -⟩ := h.removeChain clust
          obtain ⟨hrest, hend⟩ := ih hsim
          exact ⟨congrArg₂ List.cons (congrArg (fun ok : Bool => if ok then (1 : U32) else 0) hresult) hrest, hend⟩

/-- The entries of the small volume. -/
def smallTable : FatVolume where
  maxClust := 10
  sectsClust := 1
  lastClust := 0
  freeClust := 0xFFFFFFFF
  fsiFlag := false
  fat := WinVolume.smallWin.entryOf WinVolume.smallWin.disk
  entryMask := 0xFFF
  data := fun _ _ => 0
  ok := fun _ => true
  moved := fun _ => 0
  accesses := 0

theorem sim_small : Sim WinVolume.smallWin smallTable := by
  obtain ⟨hfits, L, hshows, hholds⟩ := WinVolume.has_smallWin
  exact ⟨hfits, ⟨L, hshows, hholds.fat⟩, rfl, rfl, rfl, rfl, rfl, fun _ _ => rfl, fun _ _ => rfl⟩

theorem chains_refine_small :
    (chainRun WinVolume.createChain WinVolume.removeChain [.create 0, .create 2, .remove 2] WinVolume.smallWin).1 =
        (chainRun FatVolume.createChain FatVolume.removeChain [.create 0, .create 2, .remove 2] smallTable).1 ∧
      Sim (chainRun WinVolume.createChain WinVolume.removeChain [.create 0, .create 2, .remove 2] WinVolume.smallWin).2
        (chainRun FatVolume.createChain FatVolume.removeChain [.create 0, .create 2, .remove 2] smallTable).2 :=
  chains_refine sim_small _

end Chains

end Fat
end FreakOS
