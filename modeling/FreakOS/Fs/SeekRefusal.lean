import FreakOS.Fs.EndSeek
import FreakOS.Fs.FatSeek
import FreakOS.Fs.FatTruncate

/-!
# Seeks to places that do not exist

`file_seek` with the counter that it raises and lowers, on a FAT descriptor.  It does not look at the position that it
computes: `fatbase_lseek` gets it as a `uint32_t`.

* `fileSeekCounted`, `fileSeekCounted_eq` — the counter is put back on every path.
* `OutOfRange`, `InvalidSeek` — positions that are no `int32_t`, or negative, and seeks without a position.
* `fatbaseLseek_refuses_iff` — when the driver refuses and changes nothing.
* `fatbaseLseek_succeeds` — on a sound volume it seeks everywhere, up to the last free cluster.
* `seek_refused_iff` — and so when `file_seek` does.
-/

namespace FreakOS
namespace Fs

open Memory
open Krnl

/-! ### The counter -/

/-- The entry after `file_open_inc`. -/
def openInc (f : File) : File := { f with openCount := f.openCount + 1 }

/-- The entry after `file_open_dec`. -/
def openDec (f : File) : File := { f with openCount := f.openCount - 1 }

/-- The entry after a seek. -/
def sought (pos : Int) (f : File) : File := { f with pos := pos }

/-- `file_seek` between `file_open_inc` and the label `failed`. -/
def seekBody {σ : Type} (ops : INodeOps σ) (x : FsKernel σ) (files : U32) (file : File) (pos : Int) (flag : U32) :
    Res (Int × FsKernel σ) :=
  match seekTarget ops x.disk file pos flag with
  | (.error ret, d) => .ok (ret, x.setDisk d)
  | (.ok pos, d) =>
      match ops.lseek file.inode with
      | none => .ok (-FILE_INVAL_OP, x.setDisk d)
      | some lseek =>
          let (ret, d) := lseek (BitVec.ofInt 32 pos) d
          if ret ≠ 0 then .ok (-FILE_OP_FAILED, x.setDisk d)
          else do
            let x ← (x.setDisk d).modifyFile files file.node (sought pos)
            return (0, x)

/-- `file_seek(fd, pos, flag)`. -/
def fileSeekCounted {σ : Type} (ops : INodeOps σ) (x : FsKernel σ) (files : U32) (fd pos : Int) (flag : U32) :
    Res (Int × FsKernel σ) := do
  let fs ← x.kernel.fileStruct files
  match findFileWithFd fs fd with
  | none => return (-FILE_INVAL, x)
  | some file =>
      let x ← x.modifyFile files file.node openInc
      let (ret, x) ← seekBody ops x files file pos flag
      let x ← x.modifyFile files file.node openDec
      return (ret, x)

section Counter

variable {σ : Type} {ops : INodeOps σ} {x : FsKernel σ} {files : U32}

theorem updateEntry_updateEntry (list : List File) (node : U32) {g h : File → File} (hnode : ∀ f, (g f).node = f.node) :
    updateEntry (updateEntry list node g) node h = updateEntry list node (h ∘ g) := by
  unfold updateEntry
  rw [List.map_map]
  refine List.map_congr_left fun f _ => ?_
  by_cases hf : f.node = node
  · simp only [Function.comp_apply, if_pos hf]
    rw [if_pos ((hnode f).trans hf)]
  · simp only [Function.comp_apply, if_neg hf]

theorem updateEntry_id (list : List File) (node : U32) : updateEntry list node id = list := by
  unfold updateEntry
  simp

/-- The entry of a descriptor has been written to. -/
def FsKernel.withEntry (x : FsKernel σ) (files : U32) (fs : FileStruct) (node : U32) (g : File → File) : FsKernel σ :=
  x.setKernel (x.kernel.setFileStruct files { fs with fileList := updateEntry fs.fileList node g })

variable {fs : FileStruct} {node : U32} {g h : File → File}

theorem modifyFile_withEntry (hfs : x.kernel.files files = some fs) (node : U32) (g : File → File) :
    x.modifyFile files node g = .ok (x.withEntry files fs node g) := by
  unfold FsKernel.modifyFile
  rw [fileStruct_eq_ok.mpr hfs]
  rfl

theorem modifyFile_setDisk (hfs : x.kernel.files files = some fs) (d : σ) (node : U32) (g : File → File) :
    (x.setDisk d).modifyFile files node g = .ok ((x.setDisk d).withEntry files fs node g) :=
  modifyFile_withEntry (x := x.setDisk d) hfs node g

theorem withEntry_files (x : FsKernel σ) (files : U32) (fs : FileStruct) (node : U32) (g : File → File) :
    (x.withEntry files fs node g).kernel.files files =
      some { fs with fileList := updateEntry fs.fileList node g } := Function.update_self ..

/-- Two writes to an entry are one. -/
theorem modifyFile_again (x : FsKernel σ) (files : U32) (fs : FileStruct) (node : U32) (g h : File → File)
    (hnode : ∀ f, (g f).node = f.node) :
    (x.withEntry files fs node g).modifyFile files node h = .ok (x.withEntry files fs node (h ∘ g)) := by
  rw [modifyFile_withEntry (withEntry_files x files fs node g)]
  unfold FsKernel.withEntry
  simp only [updateEntry_updateEntry _ _ hnode]
  simp only [FsKernel.setKernel, Kernel.setFileStruct, Function.update_idem]

theorem setDisk_withEntry (x : FsKernel σ) (files : U32) (fs : FileStruct) (node : U32) (g : File → File) (d : σ) :
    (x.withEntry files fs node g).setDisk d = (x.setDisk d).withEntry files fs node g := rfl

/-- A write that changes nothing. -/
theorem withEntry_id (hfs : x.kernel.files files = some fs) : x.withEntry files fs node id = x := by
  unfold FsKernel.withEntry Kernel.setFileStruct
  rw [updateEntry_id, ← hfs, Function.update_eq_self]
  rfl

theorem openDec_openInc : openDec ∘ openInc = id := by
  funext f
  show ({ f with openCount := f.openCount + 1 - 1 } : File) = f
  rw [Int.add_sub_cancel]

theorem openDec_sought (pos : Int) : openDec ∘ (sought pos ∘ openInc) = sought pos := by
  funext f
  show ({ f with pos := pos, openCount := f.openCount + 1 - 1 } : File) = sought pos f
  rw [Int.add_sub_cancel]
  rfl

/-- On the paths to `failed` the entry gets back its counter. -/
theorem openDec_refused (hfs : x.kernel.files files = some fs) (node : U32) (d : σ) :
    ((x.withEntry files fs node openInc).setDisk d).modifyFile files node openDec = .ok (x.setDisk d) := by
  rw [setDisk_withEntry, modifyFile_again _ _ _ _ openInc openDec fun _ => rfl, openDec_openInc]
  rw [withEntry_id (x := x.setDisk d) hfs]

theorem sought_counted (x : FsKernel σ) (files : U32) (fs : FileStruct) (node : U32) (d : σ) (pos : Int) :
    ((x.withEntry files fs node openInc).setDisk d).modifyFile files node (sought pos) =
      .ok ((x.setDisk d).withEntry files fs node (sought pos ∘ openInc)) := by
  rw [setDisk_withEntry, modifyFile_again _ _ _ _ openInc (sought pos) fun _ => rfl]

/-- After a seek too. -/
theorem openDec_sought_counted (x : FsKernel σ) (files : U32) (fs : FileStruct) (node : U32) (pos : Int) :
    (x.withEntry files fs node (sought pos ∘ openInc)).modifyFile files node openDec =
      .ok (x.withEntry files fs node (sought pos)) := by
  rw [modifyFile_again _ _ _ _ (sought pos ∘ openInc) openDec fun _ => rfl, openDec_sought]

/-- On every path the counter is lowered again, so it plays no part in what is modelled without it. -/
theorem fileSeekCounted_eq (ops : INodeOps σ) (x : FsKernel σ) (files : U32) (fd pos : Int) (flag : U32) :
    fileSeekCounted ops x files fd pos flag = fileSeek ops x files fd pos flag := by
  unfold fileSeekCounted fileSeek
  cases hstruct : x.kernel.fileStruct files with
  | error e => rfl
  | ok fs =>
      have hfs := fileStruct_eq_ok.mp hstruct
      rw [Res.ok_bind, Res.ok_bind]
      cases findFileWithFd fs fd with
      | none => rfl
      | some file =>
          dsimp only
          unfold seekBody
          rw [modifyFile_withEntry hfs, Res.ok_bind, show (x.withEntry files fs file.node openInc).disk = x.disk from rfl]
          cases seekTarget ops x.disk file pos flag with
          | mk target d =>
              cases target with
              | error ret => simp only [Res.ok_bind, openDec_refused hfs]
              | ok target =>
                  dsimp only
                  cases ops.lseek file.inode with
                  | none => simp only [Res.ok_bind, openDec_refused hfs]
                  | some lseek =>
                      dsimp only
                      cases lseek (BitVec.ofInt 32 target) d with
                      | mk ret d =>
                          dsimp only
                          by_cases hzero : ret ≠ 0
                          · simp only [if_pos hzero, Res.ok_bind, openDec_refused hfs]
                          · simp only [if_neg hzero]
                            have hplain := modifyFile_setDisk hfs d file.node (sought target)
                            simp only [sought_counted, Res.ok_bind, pure, Except.pure, openDec_sought_counted]
                            rw [show (fun f : File => { f with pos := target }) = sought target from rfl, hplain,
                              Res.ok_bind]

end Counter

/-! ### What the driver refuses -/

section Driver

variable {f : FatFil} {v : FatVolume}

/-- A call has succeeded, or has set the error flag. -/
def DoneOrGivenUp (r : Int × FatFil × FatVolume) : Prop := r.1 = 0 ∨ r.2.1.error = true

theorem seekInCluster_ends (f : FatFil) (v : FatVolume) (fptr ofs : U32) : DoneOrGivenUp (seekInCluster f v fptr ofs) := by
  unfold seekInCluster
  dsimp only
  generalize (if ofs &&& (SECTOR_SIZE - 1) ≠ 0 then v.access else (true, v)) = p
  obtain ⟨ok, w⟩ := p
  cases ok with
  | false => exact .inr rfl
  | true => exact .inl rfl

theorem seekFrom_ends (f : FatFil) (v : FatVolume) (clust ofs : U32) : DoneOrGivenUp (seekFrom f v clust ofs) := by
  unfold seekFrom
  split
  · exact .inl rfl
  · split
    · exact .inr rfl
    · exact .inr rfl
    · exact seekInCluster_ends f _ _ _

theorem seekClean_ends (f : FatFil) (v : FatVolume) (ofs : U32) : DoneOrGivenUp (seekClean f v ofs) := by
  unfold seekClean
  dsimp only
  generalize (if f.fsize < ofs ∧ (!f.canWrite) = true then f.fsize else ofs) = place
  by_cases hplace : place = 0
  · rw [if_pos hplace]
    exact .inl rfl
  · rw [if_neg hplace]
    by_cases horg : f.orgClust = 0
    · rw [if_pos horg]
      by_cases hclust : (v.createChain 0).1 = 1
      · rw [if_pos hclust]
        exact .inr rfl
      · rw [if_neg hclust]
        exact seekFrom_ends _ _ _ _
    · rw [if_neg horg]
      exact seekFrom_ends _ _ _ _

/-- Behind its tests `fatbase_lseek` does not refuse any more. -/
theorem fatbaseLseek_ends (ofs : U32) (herror : f.error = false) : DoneOrGivenUp (fatbaseLseek f v ofs) := by
  unfold fatbaseLseek FatVolume.access
  dsimp only
  rw [herror, if_neg Bool.false_ne_true]
  by_cases hdirty : f.dirty = true
  · rw [if_pos hdirty]
    cases v.ok v.accesses with
    | false => exact .inr rfl
    | true => exact seekClean_ends _ _ _
  · rw [if_neg hdirty]
    exact seekClean_ends _ _ _

/-- The driver refuses a seek and changes nothing when the file has been given up. -/
theorem fatbaseLseek_refuses_iff (f : FatFil) (v : FatVolume) (ofs : U32) :
    ((fatbaseLseek f v ofs).1 ≠ 0 ∧ (fatbaseLseek f v ofs).2.1 = f ∧ (fatbaseLseek f v ofs).2.2.fat = v.fat) ↔
      f.error = true := by
  cases herror : f.error with
  | true =>
      have hcall : fatbaseLseek f v ofs = (FR_RW_ERROR, f, v) := by
        unfold fatbaseLseek
        rw [herror]
        rfl
      rw [hcall]
      exact ⟨fun _ => rfl, fun _ => ⟨show FR_RW_ERROR ≠ 0 by decide, rfl, rfl⟩⟩
  | false =>
      refine iff_of_false ?_ Bool.false_ne_true
      intro h
      cases fatbaseLseek_ends ofs herror with
      | inl hzero => exact h.1 hzero
      | inr hset =>
          rw [h.2.1, herror] at hset
          cases hset

end Driver

/-! ### Seeks on a sound volume -/

section Sound

open FatVolume

variable {v : FatVolume} {f : FatFil} {l pre rest : List U32} {clust ofs : U32}

/-- The loop of `create_chain` finds nothing when the clusters that it looks at are in use. -/
theorem findFree_full (hgood : v.Good) {cs : List U32} (hin : ∀ c ∈ cs, v.Inside c) (hfull : ∀ c ∈ cs, v.fat c ≠ 0) :
    ∃ n, findFree cs v = (0, v.after n) := by
  induction cs generalizing v with
  | nil => exact ⟨0, rfl⟩
  | cons c cs ih =>
      have hc := hin c List.mem_cons_self
      unfold findFree
      rw [hgood.getCluster hc]
      dsimp only
      rw [if_neg (hfull c List.mem_cons_self), if_neg (hgood.reserved c hc)]
      obtain ⟨n, hfind⟩ := ih (hgood.after 1) (fun c hc => hin c (List.mem_cons_of_mem _ hc))
        fun c hc => hfull c (List.mem_cons_of_mem _ hc)
      exact ⟨1 + n, hfind.trans (congrArg (Prod.mk 0) (v.after_after 1 n))⟩

/-- The search starts at a cluster of the volume, or at cluster 1. -/
theorem inside_of_mem_candidates {scl c : U32} (hpos : 1 ≤ scl.toNat) (hscl : scl = 1 ∨ scl < v.maxClust)
    (hc : c ∈ v.candidates scl) : v.Inside c := by
  have hmax := v.maxClust.isLt
  unfold candidates at hc
  rw [List.mem_map] at hc
  obtain ⟨n, hn, rfl⟩ := hc
  rw [List.mem_append, List.mem_range'_1, List.mem_range'_1] at hn
  have hscl' : scl.toNat = 1 ∨ scl.toNat < v.maxClust.toNat := by
    cases hscl with
    | inl h => exact .inl (congrArg BitVec.toNat h)
    | inr h => exact .inr (BitVec.lt_def.mp h)
  unfold Inside
  rw [BitVec.le_def, BitVec.lt_def, BitVec.toNat_ofNat, Nat.mod_eq_of_lt (by omega)]
  show 2 ≤ n ∧ _
  omega

theorem stretch_full (hgood : v.Good) (clust : U32) {scl : U32} (hpos : 1 ≤ scl.toNat)
    (hscl : scl = 1 ∨ scl < v.maxClust) (hfull : ∀ c, v.Inside c → v.fat c ≠ 0) :
    ∃ n, v.stretch clust scl = (0, v.after n) := by
  have hin : ∀ c ∈ v.candidates scl, v.Inside c := fun c hc => inside_of_mem_candidates hpos hscl hc
  obtain ⟨n, hfind⟩ := findFree_full hgood hin fun c hc => hfull c (hin c hc)
  refine ⟨n, ?_⟩
  unfold stretch
  rw [hfind]
  rfl

/-- A volume has a free cluster or has none. -/
theorem hasRoom_or_full (v : FatVolume) : v.HasRoom 1 ∨ ∀ c, v.Inside c → v.fat c ≠ 0 := by
  by_cases hfree : ∃ c, v.Inside c ∧ v.fat c = 0
  · obtain ⟨c, hc⟩ := hfree
    refine .inl ⟨[c], List.nodup_singleton c, le_rfl, ?_⟩
    intro b hb
    rw [List.mem_singleton.mp hb]
    exact hc
  · exact .inr fun c hin hzero => hfree ⟨c, hin, hzero⟩

/-- `create_chain` of a new chain, room or not. -/
theorem createChain_start (hgood : v.Good) : (∃ n, v.createChain 0 = (0, v.after n)) ∨
    ∃ b w, v.createChain 0 = (b, w) ∧ w.Good ∧ w.OnChain [b] := by
  cases hasRoom_or_full v with
  | inl hroom =>
      obtain ⟨b, w, hcall, hw, -, hchain, -⟩ := createChain_new hgood hroom Nat.one_pos
      exact .inr ⟨b, w, hcall, hw, hchain⟩
  | inr hfull =>
      refine .inl ?_
      unfold createChain
      rw [if_pos rfl]
      by_cases hlast : v.lastClust = 0 ∨ v.maxClust ≤ v.lastClust
      · rw [if_pos hlast]
        exact stretch_full hgood 0 le_rfl (.inl rfl) hfull
      · rw [if_neg hlast]
        obtain ⟨hzero, hmax⟩ := not_or.mp hlast
        have hpos : 1 ≤ v.lastClust.toNat := Nat.pos_of_ne_zero fun h => hzero (BitVec.eq_of_toNat_eq h)
        exact stretch_full hgood 0 hpos (.inr (BitVec.not_le.mp hmax)) hfull

/-- `create_chain` of a cluster of a chain, room or not. -/
theorem createChain_goes_on (hgood : v.Good) (hchain : v.OnChain (pre ++ clust :: rest)) :
    (∃ n, v.createChain clust = (0, v.after n)) ∨ ∃ d rest' w, v.createChain clust = (d, w) ∧ v.Inside d ∧
      w.Good ∧ Alike v w ∧ w.OnChain (pre ++ clust :: d :: rest') := by
  have hnext : ∀ k, v.HasRoom k → (rest = [] → 0 < k) → ∃ d rest' w, v.createChain clust = (d, w) ∧ v.Inside d ∧
      w.Good ∧ Alike v w ∧ w.OnChain (pre ++ clust :: d :: rest') := by
    intro k hroom hpos
    obtain ⟨d, rest', w, hcall, hd, hw, halike, hchain', -⟩ := createChain_next hgood hchain hroom hpos
    exact ⟨d, rest', w, hcall, hd, hw, halike, hchain'⟩
  cases rest with
  | cons d rest => exact .inr (hnext 0 (HasRoom.zero v) fun h => absurd h (List.cons_ne_nil d rest))
  | nil =>
      cases hasRoom_or_full v with
      | inl hroom => exact .inr (hnext 1 hroom fun _ => Nat.one_pos)
      | inr hfull =>
          -- The chain ends at the cluster, and the search finds no other.
          have hin : v.Inside clust := hchain.inside clust (by simp)
          have hend : ¬ v.fat clust < v.maxClust := BitVec.not_lt.mpr hchain.last_ended
          have hpos : 1 ≤ clust.toNat := le_trans (by decide) (BitVec.le_def.mp hin.1)
          obtain ⟨n, hstretch⟩ := stretch_full (hgood.after 1) clust hpos (.inr hin.2) hfull
          refine .inl ⟨1 + n, ?_⟩
          unfold createChain
          rw [if_neg (inside_ne_zero hin), hgood.getCluster hin]
          dsimp only
          rw [if_neg (BitVec.not_lt.mpr (hchain.two_le (by simp))),
            if_neg (show ¬ v.fat clust < (v.after 1).maxClust from hend), hstretch, v.after_after]

/-- The loop of `fatbase_lseek` finds a cluster, if need be the last one of a volume that is full. -/
theorem skipClusters_found (hgood : v.Good) (hchain : v.OnChain (pre ++ clust :: rest)) (fptr : U32) {fuel : Nat}
    (hfuel : ofs.toNat < fuel) :
    ∃ c o p w, skipClusters true fuel v clust ofs fptr = some (.found c o, p, w) ∧ w.Good := by
  induction fuel generalizing v pre rest clust ofs fptr with
  | zero => omega
  | succ fuel ih =>
      unfold skipClusters
      by_cases hlast : ofs ≤ v.clustBytes
      · rw [if_pos hlast]
        exact ⟨clust, ofs, fptr, v, rfl, hgood⟩
      · rw [if_neg hlast, if_pos rfl]
        cases createChain_goes_on hgood hchain with
        | inl hfull =>
            obtain ⟨n, hcall⟩ := hfull
            rw [hcall]
            exact ⟨0, _, fptr, v.after n, rfl, hgood.after n⟩
        | inr hgoes =>
            obtain ⟨d, rest', w, hcall, hd, hw, halike, hchain'⟩ := hgoes
            have hrange : ¬ (d = 1 ∨ w.maxClust ≤ d) := by
              rw [halike.maxClust]
              exact not_or.mpr ⟨inside_ne_one hd, BitVec.not_le.mpr hd.2⟩
            rw [hcall]
            dsimp only
            rw [if_neg (inside_ne_zero hd), if_neg hrange]
            have hsplit : pre ++ clust :: d :: rest' = (pre ++ [clust]) ++ d :: rest' := by simp
            refine ih hw (hsplit ▸ hchain') _ ?_
            have hbytes := clustBytes_pos hgood
            have hlt : v.clustBytes.toNat < ofs.toNat := BitVec.lt_def.mp (BitVec.not_le.mp hlast)
            rw [halike.clustBytes, BitVec.toNat_sub_of_le (by rw [BitVec.le_def]; omega)]
            omega

theorem seekFrom_succeeds (hgood : v.Good) (hchain : v.OnChain (clust :: rest)) (hwrite : f.canWrite = true)
    (herror : f.error = false) (ofs : U32) : (seekFrom f v clust ofs).1 = 0 := by
  have hclust : clust ≠ 0 := inside_ne_zero (hchain.inside clust List.mem_cons_self)
  have hwhole : v.OnChain ([] ++ clust :: rest) := hchain
  obtain ⟨c, o, p, w, hskip, hw⟩ := skipClusters_found hgood hwhole f.fptr (Nat.lt_succ_self ofs.toNat)
  obtain ⟨g, u, hcall, -⟩ := seekInCluster_done hw hwrite herror p o
  unfold seekFrom
  rw [if_neg hclust, hwrite, hskip]
  dsimp only
  rw [hcall]

theorem seekClean_succeeds (hgood : v.Good) (hfile : FileOn v f l) (herror : f.error = false) (ofs : U32) :
    (seekClean f v ofs).1 = 0 := by
  have hclip : ¬ (f.fsize < ofs ∧ (!f.canWrite) = true) := by
    rw [hfile.canWrite]
    exact fun h => absurd h.2 (by decide)
  unfold seekClean
  rw [if_neg hclip]
  dsimp only
  by_cases hofs : ofs = 0
  · rw [if_pos hofs]
    rfl
  · rw [if_neg hofs]
    cases l with
    | nil =>
        rw [if_pos (show f.orgClust = 0 from hfile.org)]
        cases createChain_start hgood with
        | inl hfull =>
            obtain ⟨n, hcall⟩ := hfull
            rw [hcall]
            rfl
        | inr hnew =>
            obtain ⟨b, w, hcall, hw, hchain⟩ := hnew
            rw [hcall]
            dsimp only
            rw [if_neg (inside_ne_one (hchain.inside b List.mem_cons_self))]
            exact seekFrom_succeeds (f := { f with fptr := 0, orgClust := b }) hw hchain hfile.canWrite herror ofs
    | cons clust rest =>
        obtain rfl : clust = f.orgClust := hfile.org.symm
        rw [if_neg (inside_ne_zero (hfile.chain.inside _ List.mem_cons_self))]
        exact seekFrom_succeeds (f := { f with fptr := 0 }) hgood hfile.chain hfile.canWrite herror ofs

/-- On a sound volume a file that is not given up can be sought everywhere. -/
theorem fatbaseLseek_succeeds (hgood : v.Good) (hfile : FileOn v f l) (herror : f.error = false) (ofs : U32) :
    (fatbaseLseek f v ofs).1 = 0 := by
  have hopen : ¬ f.error = true := by
    rw [herror]
    exact Bool.false_ne_true
  unfold fatbaseLseek
  rw [if_neg hopen]
  by_cases hdirty : f.dirty = true
  · rw [if_pos hdirty, hgood.access]
    dsimp only
    rw [Bool.not_true, if_neg Bool.false_ne_true]
    have hclean : FileOn (v.after 1) { f with dirty := false } l :=
      hfile.transfer (Alike.after v 1) rfl rfl rfl rfl hfile.fptr
    exact seekClean_succeeds (hgood.after 1) hclean herror ofs
  · rw [if_neg hdirty]
    exact seekClean_succeeds hgood hfile herror ofs

end Sound

/-! ### `file_seek` -/

/-- A position that is negative, or that an `int32_t` does not hold. -/
def OutOfRange (p : Int) : Prop := p < 0 ∨ INT32_MAX < p

/-- A flag that is none of the three. -/
def UnknownFlag (flag : U32) : Prop := flag ≠ LSEEK_SET ∧ flag ≠ LSEEK_CUR ∧ flag ≠ LSEEK_END

/-- A seek to a position that is out of range, or to none. -/
def InvalidSeek (ops : INodeOps FatState) (d : FatState) (f : File) (off : Int) (flag : U32) : Prop :=
  UnknownFlag flag ∨ ops.lseek f.inode = none ∨ (flag = LSEEK_SET ∧ OutOfRange off) ∨
    (flag = LSEEK_CUR ∧ OutOfRange (f.pos + off)) ∨
    (flag = LSEEK_END ∧ OutOfRange ((d.fil f.inode).fsize.toNat + off))

/-- The inode has the operations of FAT files, or lacks them. -/
structure FatOpsOf (ops : INodeOps FatState) (inode : U32) : Prop where
  lseek : ∀ op, ops.lseek inode = some op → op = FatState.lseek inode
  stat : ∀ op, ops.stat inode = some op → op = FatState.stat inode

/-- The entry of the descriptor, the file pointer, and the size and the clusters of the file are what they were. -/
structure SeekKept (x : FsKernel FatState) (files : U32) (fd : Int) (f : File) (x' : FsKernel FatState) : Prop where
  entry : ∃ fs, x'.kernel.files files = some fs ∧ findFileWithFd fs fd = some f
  fptr : (x'.disk.fil f.inode).fptr = (x.disk.fil f.inode).fptr
  fsize : (x'.disk.fil f.inode).fsize = (x.disk.fil f.inode).fsize
  orgClust : (x'.disk.fil f.inode).orgClust = (x.disk.fil f.inode).orgClust
  fat : x'.disk.vol.fat = x.disk.vol.fat

/-- `file_seek` returns an error and keeps the place of the descriptor and the file. -/
def Refused (ops : INodeOps FatState) (x : FsKernel FatState) (files : U32) (fd : Int) (f : File) (off : Int)
    (flag : U32) : Prop :=
  ∃ ret x', fileSeekCounted ops x files fd off flag = .ok (ret, x') ∧ ret < 0 ∧ SeekKept x files fd f x'

/-- Nor does it leave a mark on the file, which could not be used any more with `FA__ERROR`. -/
def RefusedUnmarked (ops : INodeOps FatState) (x : FsKernel FatState) (files : U32) (fd : Int) (f : File) (off : Int)
    (flag : U32) : Prop :=
  ∃ ret x', fileSeekCounted ops x files fd off flag = .ok (ret, x') ∧ ret < 0 ∧ SeekKept x files fd f x' ∧
    x'.disk.fil f.inode = x.disk.fil f.inode

/-- The device works, and the chains of the file and of the volume are in order. -/
def SoundFile (d : FatState) (inode : U32) : Prop := d.vol.Good ∧ ∃ l, FileOn d.vol (d.fil inode) l

/-- The `switch` of `file_seek` does not know the flag, or does not get the size of the file. -/
def SwitchRefuses (ops : INodeOps FatState) (d : FatState) (f : File) (flag : U32) : Prop :=
  UnknownFlag flag ∨ (flag = LSEEK_END ∧ (ops.stat f.inode = none ∨ d.vol.ok d.vol.accesses = false))

/-- Why `file_seek` refuses a seek; the position is not among the reasons. -/
def SeekRefused (ops : INodeOps FatState) (d : FatState) (f : File) (flag : U32) : Prop :=
  SwitchRefuses ops d f flag ∨ ops.lseek f.inode = none ∨ (d.fil f.inode).error = true

section Refusal

variable {ops : INodeOps FatState} {x : FsKernel FatState} {files : U32} {fs : FileStruct} {fd : Int} {f : File}
  {off : Int} {flag : U32}

/-- What the `switch` of `file_seek` does. -/
inductive SwitchEnd (ops : INodeOps FatState) (d : FatState) (f : File) (flag : U32) : Except Int Int × FatState → Prop
  | refused {ret : Int} {v : FatVolume} (hneg : ret < 0) (hfat : v.fat = d.vol.fat)
      (hwhy : SwitchRefuses ops d f flag) : SwitchEnd ops d f flag (.error ret, { d with vol := v })
  | target (p : Int) (n : Nat) (hwhy : ¬ SwitchRefuses ops d f flag) :
      SwitchEnd ops d f flag (.ok p, { d with vol := d.vol.after n })

/-- `fat_stat` reads a sector. -/
theorem stat_cases (inode : U32) (d : FatState) :
    (d.vol.ok d.vol.accesses = false ∧
      FatState.stat inode d = ((-INODE_INTERNAL_ERR, 0), { d with vol := d.vol.access.2 })) ∨
    (d.vol.ok d.vol.accesses = true ∧ FatState.stat inode d = ((0, d.dirSize inode), { d with vol := d.vol.access.2 })) := by
  unfold FatState.stat FatVolume.access
  dsimp only
  cases hok : d.vol.ok d.vol.accesses with
  | false => exact .inl ⟨rfl, rfl⟩
  | true => exact .inr ⟨rfl, rfl⟩

theorem seekTarget_end (hfat : FatOpsOf ops f.inode) (d : FatState) (off : Int) (flag : U32) :
    SwitchEnd ops d f flag (seekTarget ops d f off flag) := by
  have hknown : flag ≠ LSEEK_END → ¬ UnknownFlag flag → ¬ SwitchRefuses ops d f flag := by
    intro hend hflag h
    exact h.elim hflag fun h => hend h.1
  unfold seekTarget
  by_cases hset : flag = LSEEK_SET
  · rw [if_pos hset]
    have hend : flag ≠ LSEEK_END := by
      rw [hset]
      decide
    exact .target off 0 (hknown hend fun h => h.1 hset)
  rw [if_neg hset]
  by_cases hcur : flag = LSEEK_CUR
  · rw [if_pos hcur]
    have hend : flag ≠ LSEEK_END := by
      rw [hcur]
      decide
    exact .target _ 0 (hknown hend fun h => h.2.1 hcur)
  rw [if_neg hcur]
  by_cases hend : flag = LSEEK_END
  · rw [if_pos hend]
    cases hstat : ops.stat f.inode with
    | none => exact .refused (by decide) rfl (.inr ⟨hend, .inl hstat⟩)
    | some stat =>
        obtain rfl := hfat.stat stat hstat
        dsimp only
        cases stat_cases f.inode d with
        | inl hfails =>
            rw [hfails.2]
            exact .refused (show -FILE_OP_FAILED < 0 by decide) rfl (.inr ⟨hend, .inr hfails.1⟩)
        | inr hworks =>
            rw [hworks.2]
            refine .target _ 1 ?_
            intro h
            cases h with
            | inl hflag => exact hflag.2.2 hend
            | inr h =>
                cases h.2 with
                | inl hnone =>
                    rw [hstat] at hnone
                    cases hnone
                | inr hfails =>
                    rw [hworks.1] at hfails
                    cases hfails
  · rw [if_neg hend]
    exact .refused (show -FILE_INVAL < 0 by decide) rfl (.inl ⟨hset, hcur, hend⟩)

/-- What `fatbase_lseek` does when it is called after `n` accesses. -/
def lseekAfter (d : FatState) (inode : U32) (n : Nat) (p : Int) : Int × FatFil × FatVolume :=
  fatbaseLseek (d.fil inode) (d.vol.after n) (BitVec.ofInt 32 p)

/-- What `file_seek` does: it refuses the seek before the driver is called, or the driver fails, or seeks. -/
inductive SeekCall (ops : INodeOps FatState) (x : FsKernel FatState) (f : File) (flag : U32) :
    Res (Int × FsKernel FatState) → Prop
  | refused {ret : Int} {v : FatVolume} (hneg : ret < 0) (hfat : v.fat = x.disk.vol.fat)
      (hwhy : SeekRefused ops x.disk f flag) : SeekCall ops x f flag (.ok (ret, x.setDisk { x.disk with vol := v }))
  | failed {n : Nat} {p : Int} {x' : FsKernel FatState}
      (hwhy : SeekRefused ops x.disk f flag ↔ (x.disk.fil f.inode).error = true)
      (hret : (lseekAfter x.disk f.inode n p).1 ≠ 0) (hkernel : x'.kernel = x.kernel)
      (hfil : x'.disk.fil f.inode = (lseekAfter x.disk f.inode n p).2.1)
      (hvol : x'.disk.vol = (lseekAfter x.disk f.inode n p).2.2) : SeekCall ops x f flag (.ok (-FILE_OP_FAILED, x'))
  | done {n : Nat} {p : Int} {x' : FsKernel FatState}
      (hwhy : SeekRefused ops x.disk f flag ↔ (x.disk.fil f.inode).error = true)
      (hret : (lseekAfter x.disk f.inode n p).1 = 0) : SeekCall ops x f flag (.ok (0, x'))

theorem fileSeekCounted_call (hfat : FatOpsOf ops f.inode) (hfs : x.kernel.files files = some fs)
    (hfind : findFileWithFd fs fd = some f) (off : Int) (flag : U32) :
    SeekCall ops x f flag (fileSeekCounted ops x files fd off flag) := by
  rw [fileSeekCounted_eq]
  unfold fileSeek
  rw [fileStruct_eq_ok.mpr hfs, Res.ok_bind, hfind]
  dsimp only
  have hswitch := seekTarget_end hfat x.disk off flag
  generalize seekTarget ops x.disk f off flag = switch at hswitch
  cases hswitch with
  | refused hneg hvol hwhy => exact .refused hneg hvol (.inl hwhy)
  | target p n hwhy =>
      dsimp only
      cases hlseek : ops.lseek f.inode with
      | none => exact .refused (show -FILE_INVAL_OP < 0 by decide) rfl (.inr (.inl hlseek))
      | some lseek =>
          obtain rfl := hfat.lseek lseek hlseek
          dsimp only
          -- What is left of the reasons is up to the driver.
          have hcond : SeekRefused ops x.disk f flag ↔ (x.disk.fil f.inode).error = true := by
            unfold SeekRefused
            rw [hlseek]
            tauto
          have hcall : FatState.lseek f.inode (BitVec.ofInt 32 p) { x.disk with vol := x.disk.vol.after n } =
              ((lseekAfter x.disk f.inode n p).1, { x.disk with
                fil := Function.update x.disk.fil f.inode (lseekAfter x.disk f.inode n p).2.1
                vol := (lseekAfter x.disk f.inode n p).2.2 }) := rfl
          rw [hcall]
          dsimp only
          by_cases hret : (lseekAfter x.disk f.inode n p).1 ≠ 0
          · rw [if_pos hret]
            exact .failed hcond hret rfl (Function.update_self ..) rfl
          · rw [if_neg hret, modifyFile_setDisk hfs, Res.ok_bind]
            exact .done hcond (not_not.mp hret)

/-- The driver refuses and changes nothing for its own reasons only. -/
theorem lseekAfter_refuses_iff (d : FatState) (inode : U32) (n : Nat) (p : Int) :
    ((lseekAfter d inode n p).1 ≠ 0 ∧ (lseekAfter d inode n p).2.1 = d.fil inode ∧
      (lseekAfter d inode n p).2.2.fat = d.vol.fat) ↔ (d.fil inode).error = true :=
  fatbaseLseek_refuses_iff (d.fil inode) (d.vol.after n) (BitVec.ofInt 32 p)

/-- On a sound volume the driver fails for a file only that has been given up. -/
theorem error_of_lseekAfter {d : FatState} {inode : U32} (hsound : SoundFile d inode) {n : Nat} {p : Int}
    (hret : (lseekAfter d inode n p).1 ≠ 0) : (d.fil inode).error = true := by
  obtain ⟨hgood, l, hfile⟩ := hsound
  by_contra hopen
  have hlater : FileOn (d.vol.after n) (d.fil inode) l :=
    hfile.transfer (Alike.after d.vol n) rfl rfl rfl rfl hfile.fptr
  exact hret (fatbaseLseek_succeeds (hgood.after n) hlater (Bool.eq_false_of_not_eq_true hopen) _)

theorem seekKept_of_fil {x' : FsKernel FatState} (hfs : x.kernel.files files = some fs)
    (hfind : findFileWithFd fs fd = some f) (hkernel : x'.kernel = x.kernel)
    (hfil : x'.disk.fil f.inode = x.disk.fil f.inode) (hfat : x'.disk.vol.fat = x.disk.vol.fat) :
    SeekKept x files fd f x' where
  entry := ⟨fs, by rw [hkernel]; exact hfs, hfind⟩
  fptr := by rw [hfil]
  fsize := by rw [hfil]
  orgClust := by rw [hfil]
  fat := hfat

theorem refusedUnmarked_refused (h : RefusedUnmarked ops x files fd f off flag) : Refused ops x files fd f off flag := by
  obtain ⟨ret, x', hcall, hneg, hkept, -⟩ := h
  exact ⟨ret, x', hcall, hneg, hkept⟩

theorem not_refused_of_zero {x' : FsKernel FatState} (hcall : fileSeekCounted ops x files fd off flag = .ok (0, x')) :
    ¬ Refused ops x files fd f off flag := by
  intro h
  obtain ⟨ret, y, hcall', hneg, -⟩ := h
  rw [hcall] at hcall'
  obtain ⟨rfl, -⟩ := Prod.mk.inj (Except.ok.inj hcall')
  exact absurd hneg (Int.lt_irrefl 0)

/-- `file_seek` refuses a seek and leaves no mark for one of these reasons only. -/
theorem refusedUnmarked_iff (hfat : FatOpsOf ops f.inode) (hfs : x.kernel.files files = some fs)
    (hfind : findFileWithFd fs fd = some f) (off : Int) (flag : U32) :
    RefusedUnmarked ops x files fd f off flag ↔ SeekRefused ops x.disk f flag := by
  have hrun := fileSeekCounted_call hfat hfs hfind off flag
  generalize hcall : fileSeekCounted ops x files fd off flag = r at hrun
  cases hrun with
  | refused hneg hvol hwhy =>
      exact iff_of_true ⟨_, _, hcall, hneg, seekKept_of_fil hfs hfind rfl rfl hvol, rfl⟩ hwhy
  | @failed n p x' hwhy hret hkernel hfil hvol =>
      rw [hwhy, ← lseekAfter_refuses_iff x.disk f.inode n p]
      constructor
      · intro h
        obtain ⟨ret, y, hcall', -, hkept, hsame⟩ := h
        rw [hcall] at hcall'
        obtain ⟨-, rfl⟩ := Prod.mk.inj (Except.ok.inj hcall')
        exact ⟨hret, hfil.symm.trans hsame, (congrArg FatVolume.fat hvol).symm.trans hkept.fat⟩
      · intro h
        have hsame : x'.disk.fil f.inode = x.disk.fil f.inode := hfil.trans h.2.1
        have hfat : x'.disk.vol.fat = x.disk.vol.fat := (congrArg FatVolume.fat hvol).trans h.2.2
        exact ⟨_, x', hcall, show -FILE_OP_FAILED < 0 by decide, seekKept_of_fil hfs hfind hkernel hsame hfat, hsame⟩
  | @done n p x' hwhy hret =>
      refine iff_of_false (fun h => not_refused_of_zero hcall (refusedUnmarked_refused h)) ?_
      rw [hwhy, ← lseekAfter_refuses_iff x.disk f.inode n p]
      exact fun h => h.1 hret

/-- On a sound volume it is refused for these reasons only, mark or not. -/
theorem refused_iff (hfat : FatOpsOf ops f.inode) (hfs : x.kernel.files files = some fs)
    (hfind : findFileWithFd fs fd = some f) (hsound : SoundFile x.disk f.inode) (off : Int) (flag : U32) :
    Refused ops x files fd f off flag ↔ SeekRefused ops x.disk f flag := by
  refine ⟨?_, fun h => refusedUnmarked_refused ((refusedUnmarked_iff hfat hfs hfind off flag).mpr h)⟩
  intro hrefused
  have hrun := fileSeekCounted_call hfat hfs hfind off flag
  generalize hcall : fileSeekCounted ops x files fd off flag = r at hrun
  cases hrun with
  | refused hneg hvol hwhy => exact hwhy
  | failed hwhy hret hkernel hfil hvol => exact hwhy.mpr (error_of_lseekAfter hsound hret)
  | done hwhy hret => exact absurd hrefused (not_refused_of_zero hcall)

end Refusal

/-- For every descriptor of a FAT inode, offset and flag: an invalid seek is refused without an effect if and only if
there is another reason to refuse it than its position.  On a sound volume the driver does not even fail halfway. -/
theorem seek_refused_iff {ops : INodeOps FatState} {x : FsKernel FatState} {files : U32} {fs : FileStruct} {fd : Int}
    {f : File} (hfat : FatOpsOf ops f.inode) (hfs : x.kernel.files files = some fs)
    (hfind : findFileWithFd fs fd = some f) (off : Int) (flag : U32) :
    ((InvalidSeek ops x.disk f off flag → RefusedUnmarked ops x files fd f off flag) ↔
      (InvalidSeek ops x.disk f off flag → SeekRefused ops x.disk f flag)) ∧
    (SoundFile x.disk f.inode →
      ((InvalidSeek ops x.disk f off flag → Refused ops x files fd f off flag) ↔
        (InvalidSeek ops x.disk f off flag → SeekRefused ops x.disk f flag))) := by
  constructor
  · exact imp_congr_right fun _ => refusedUnmarked_iff hfat hfs hfind off flag
  · intro hsound
    exact imp_congr_right fun _ => refused_iff hfat hfs hfind hsound off flag

/-! ### Seeks on a small volume -/

/-- A descriptor of the file of four bytes on the volume with eight clusters. -/
def smallOpen : FsKernel FatState := ⟨oneKernel true true, smallVolume⟩

theorem readOnlyOps_fat (inode : U32) : FatOpsOf readOnlyOps inode where
  lseek := fun _ h => (Option.some.inj h).symm
  stat := fun _ h => (Option.some.inj h).symm

theorem smallOpen_files :
    smallOpen.kernel.files 0xC0002000 = some ⟨0, [oneEntry true true], 1, 1⟩ := by
  simp [smallOpen, oneKernel, Kernel.setFileStruct]

theorem smallOpen_sound : SoundFile smallOpen.disk (oneEntry true true).inode := by
  have hptr : (0 : U32) ≤ 4 := by decide
  exact ⟨good_small 0, [2], fileOn_small (fun _ => true) 0 hptr⟩

/-- A flag that is not known is refused. -/
theorem seek_refused_iff_unknown :
    RefusedUnmarked readOnlyOps smallOpen 0xC0002000 0 (oneEntry true true) 0 7 ∧
      Refused readOnlyOps smallOpen 0xC0002000 0 (oneEntry true true) 0 7 := by
  have hflag : UnknownFlag 7 := by
    unfold UnknownFlag
    decide
  have hfind : findFileWithFd ⟨0, [oneEntry true true], 1, 1⟩ 0 = some (oneEntry true true) := rfl
  have hiff := seek_refused_iff (readOnlyOps_fat _) smallOpen_files hfind 0 7
  have hwhy : InvalidSeek readOnlyOps smallOpen.disk (oneEntry true true) 0 7 →
      SeekRefused readOnlyOps smallOpen.disk (oneEntry true true) 7 := fun _ => .inl (.inl hflag)
  exact ⟨hiff.1.mpr hwhy (.inl hflag), (hiff.2 smallOpen_sound).mpr hwhy (.inl hflag)⟩

/-- A seek to `-1` succeeds: the descriptor is at `-1`, and the file has taken every cluster of the volume. -/
theorem negative_seek_stretches :
    InvalidSeek readOnlyOps smallOpen.disk (oneEntry true true) (-1) LSEEK_SET ∧
      ¬ Refused readOnlyOps smallOpen 0xC0002000 0 (oneEntry true true) (-1) LSEEK_SET ∧
      ∃ x', fileSeekCounted readOnlyOps smallOpen 0xC0002000 0 (-1) LSEEK_SET = .ok (0, x') ∧
        posOf x'.kernel 0xC0002000 0 = some (-1) ∧ (x'.disk.fil 0xC0030000).fsize = 4096 := by
  have heval : (do
      let r ← fileSeekCounted readOnlyOps smallOpen 0xC0002000 0 (-1) LSEEK_SET
      return decide (r.1 = 0 ∧ posOf r.2.kernel 0xC0002000 0 = some (-1) ∧
        (r.2.disk.fil 0xC0030000).fsize = 4096) : Res Bool) = .ok true := by decide +kernel
  obtain ⟨⟨ret, x'⟩, hcall, heval⟩ := Res.bind_eq_ok.mp heval
  obtain ⟨rfl, hpos, hsize⟩ := of_decide_eq_true (Except.ok.inj heval)
  exact ⟨.inr (.inr (.inl ⟨rfl, .inl (by decide)⟩)), not_refused_of_zero hcall, x', hcall, hpos, hsize⟩

end Fs
end FreakOS
