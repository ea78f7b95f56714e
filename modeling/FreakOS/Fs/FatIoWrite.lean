import FreakOS.Fs.FatIoInv

/-!
# Writing a FAT file

`fatbase_write` on a drive that works, with room for the clusters that the file grows by.

* `Confined` — what a call on one file leaves of the other files: their links and their sectors.
* `Wrote` — the bytes of a file after some of them have been written.
* `writeLoop_spec` — `fatbase_write` writes its bytes at the pointer, and no others.
-/

namespace FreakOS
namespace Fs

open Lib
open Memory

/-! ### What `create_chain` takes -/

section Fresh

variable {v : FatVolume} {clust c : U32}

theorem findFree_fresh (cs : List U32) (v : FatVolume) : (FatVolume.findFree cs v).2.fat = v.fat ∧
    (2 ≤ (FatVolume.findFree cs v).1 → v.fat (FatVolume.findFree cs v).1 = 0) := by
  induction cs generalizing v with
  | nil => exact ⟨rfl, fun h => absurd (show (2 : U32) ≤ 0 from h) (by decide)⟩
  | cons ncl rest ih =>
      unfold FatVolume.findFree
      dsimp only
      obtain ⟨n, hafter, hval, -⟩ := getCluster_after v ncl
      have hfat : (v.getCluster ncl).2.fat = v.fat := by rw [hafter]; rfl
      split
      · rename_i hzero
        exact ⟨hfat, fun _ => (hval.resolve_left (by rw [hzero]; decide)).symm.trans hzero⟩
      · split
        · exact ⟨hfat, fun h => absurd (show (2 : U32) ≤ 1 from h) (by decide)⟩
        · obtain ⟨hrest, hfree⟩ := ih (v.getCluster ncl).2
          rw [hfat] at hrest hfree
          exact ⟨hrest, hfree⟩

theorem putCluster_fresh (v : FatVolume) (val : U32) (hne : c ≠ clust) : (v.putCluster clust val).2.fat c = v.fat c := by
  unfold FatVolume.putCluster FatVolume.access
  dsimp only
  split
  · exact Function.update_of_ne hne ..
  · rfl

theorem stretch_fresh (v : FatVolume) (clust scl : U32) :
    (∀ c, v.fat c ≠ 0 → (clust ≠ 0 → c ≠ clust) → (v.stretch clust scl).2.fat c = v.fat c) ∧
      (2 ≤ (v.stretch clust scl).1 → v.fat (v.stretch clust scl).1 = 0) := by
  obtain ⟨hfat, hfree⟩ := findFree_fresh (v.candidates scl) v
  unfold FatVolume.stretch
  generalize FatVolume.findFree (v.candidates scl) v = r at hfat hfree
  obtain ⟨ncl, u⟩ := r
  dsimp only at hfat hfree ⊢
  by_cases hsmall : ncl < 2
  · rw [if_pos hsmall]
    exact ⟨fun c _ _ => congrFun hfat c, hfree⟩
  · rw [if_neg hsmall]
    have hzero := hfree (BitVec.not_lt.mp hsmall)
    have hne : ∀ c, v.fat c ≠ 0 → c ≠ ncl := by
      rintro c hused rfl
      exact hused hzero
    have hfirst : ∀ c, v.fat c ≠ 0 → (u.putCluster ncl 0x0FFFFFFF#32).2.fat c = v.fat c :=
      fun c hused => (putCluster_fresh u _ (hne c hused)).trans (congrFun hfat c)
    generalize u.putCluster ncl 0x0FFFFFFF#32 = r at hfirst
    obtain ⟨ok, w⟩ := r
    dsimp only at hfirst ⊢
    cases ok with
    | false => exact ⟨fun c hused _ => hfirst c hused, fun h => absurd (show (2 : U32) ≤ 1 from h) (by decide)⟩
    | true =>
        rw [if_neg (by decide)]
        have hboth : ∀ c, v.fat c ≠ 0 → (clust ≠ 0 → c ≠ clust) →
            (if clust ≠ 0 then w.putCluster clust ncl else (true, w)).2.fat c = v.fat c := by
          intro c hused hc
          split
          · rename_i hzero
            exact (putCluster_fresh w _ (hc hzero)).trans (hfirst c hused)
          · exact hfirst c hused
        generalize (if clust ≠ 0 then w.putCluster clust ncl else (true, w)) = r at hboth
        obtain ⟨ok, e⟩ := r
        cases ok with
        | false => exact ⟨hboth, fun h => absurd (show (2 : U32) ≤ 1 from h) (by decide)⟩
        | true =>
            dsimp only at hboth ⊢
            rw [if_neg (by decide)]
            refine ⟨fun c hused hc => ?_, fun _ => hzero⟩
            rw [allocated_fat]
            exact hboth c hused hc

/-- Whichever transfers fail, `create_chain` changes no link but that of its argument and those of free clusters. -/
theorem createChain_fresh (v : FatVolume) (clust : U32) :
    (∀ c, v.fat c ≠ 0 → (clust ≠ 0 → c ≠ clust) → (v.createChain clust).2.fat c = v.fat c) ∧
      (2 ≤ (v.createChain clust).1 →
        clust ≠ 0 ∧ (v.createChain clust).1 = v.fat clust ∨ v.fat (v.createChain clust).1 = 0) := by
  unfold FatVolume.createChain
  by_cases hzero : clust = 0
  · subst hzero
    rw [if_pos rfl]
    obtain ⟨hsame, hfree⟩ := stretch_fresh v 0 (if v.lastClust = 0 ∨ v.maxClust ≤ v.lastClust then 1 else v.lastClust)
    exact ⟨hsame, fun h => Or.inr (hfree h)⟩
  · rw [if_neg hzero]
    obtain ⟨n, hafter, hval, -⟩ := getCluster_after v clust
    generalize v.getCluster clust = r at hafter hval
    obtain ⟨cstat, u⟩ := r
    obtain rfl : u = v.after n := hafter
    dsimp only at hval ⊢
    split
    · exact ⟨fun _ _ _ => rfl, fun h => absurd (show (2 : U32) ≤ 1 from h) (by decide)⟩
    · rename_i hbig
      have hlink : cstat = v.fat clust := hval.resolve_left fun hone => hbig (by rw [hone]; decide)
      split
      · exact ⟨fun _ _ _ => rfl, fun _ => Or.inl ⟨hzero, hlink⟩⟩
      · obtain ⟨hsame, hfree⟩ := stretch_fresh (v.after n) clust clust
        exact ⟨hsame, fun h => Or.inr (hfree h)⟩

end Fresh

/-! ### A chain that grows -/

/-- The chain `l` has become `l'`, out of free clusters. -/
structure Grown (v : FatVolume) (l : List U32) (u : FatVolume) (l' : List U32) : Prop where
  good : u.Good
  alike : Alike v u
  chain : u.OnChain l'
  kept : l <+: l'
  /-- The clusters of other chains keep their links, and stay out of this one. -/
  links : ∀ c, v.fat c ≠ 0 → c ∉ l → u.fat c = v.fat c ∧ c ∉ l'

section Grow

variable {v : FatVolume} {l : List U32} {clust : U32}

theorem Grown.refl (hgood : v.Good) (hchain : v.OnChain l) : Grown v l v l :=
  ⟨hgood, .refl v, hchain, List.prefix_rfl, fun _ _ hc => ⟨rfl, hc⟩⟩

theorem Grown.trans {u w : FatVolume} {l' l'' : List U32} (h₁ : Grown v l u l') (h₂ : Grown u l' w l'') :
    Grown v l w l'' := by
  refine ⟨h₂.good, h₁.alike.trans h₂.alike, h₂.chain, h₁.kept.trans h₂.kept, ?_⟩
  intro c hused hc
  obtain ⟨hsame, hout⟩ := h₁.links c hused hc
  obtain ⟨hsame', hout'⟩ := h₂.links c (by rwa [hsame]) hout
  exact ⟨hsame'.trans hsame, hout'⟩

/-- A file that has a cluster keeps its first one. -/
theorem Grown.headD {u : FatVolume} {l' : List U32} (h : Grown v l u l') (hne : l ≠ []) : l'.headD 0 = l.headD 0 := by
  obtain ⟨t, ht⟩ := h.kept
  obtain ⟨c, rest, rfl⟩ := List.exists_cons_of_ne_nil hne
  rw [← ht]
  rfl

/-- The first cluster of a file. -/
theorem createChain_first (hgood : v.Good) {k : Nat} (hroom : v.HasRoom k) (hpos : 0 < k) :
    ∃ b u, v.createChain 0 = (b, u) ∧ v.Inside b ∧ Grown v [] u [b] ∧ u.HasRoom (k - 1) := by
  obtain ⟨b, u, hcall, hu, halike, hchain, hroom'⟩ := createChain_new hgood hroom hpos
  have hin : v.Inside b := (halike.inside b).mp (hchain.inside b List.mem_cons_self)
  obtain ⟨hsame, hfree⟩ := createChain_fresh v 0
  rw [hcall] at hsame hfree
  have hzero : v.fat b = 0 := (hfree hin.1).resolve_left fun h => h.1 rfl
  refine ⟨b, u, hcall, hin, ⟨hu, halike, hchain, List.nil_prefix, fun c hused _ => ⟨?_, ?_⟩⟩, hroom'⟩
  · exact hsame c hused fun h => absurd rfl h
  · intro hc
    obtain rfl := List.mem_singleton.mp hc
    exact hused hzero

/-- The cluster behind one of a chain, which is a new one at its end. -/
theorem createChain_follows (hgood : v.Good) {pre rest : List U32} (hchain : v.OnChain (pre ++ clust :: rest)) {k : Nat}
    (hroom : v.HasRoom k) (hpos : rest = [] → 0 < k) :
    ∃ d rest' u k', v.createChain clust = (d, u) ∧ v.Inside d ∧
      Grown v (pre ++ clust :: rest) u (pre ++ clust :: d :: rest') ∧ u.HasRoom k' ∧
        rest.length + k ≤ rest'.length + 1 + k' := by
  obtain ⟨d, rest', u, hcall, hd, hu, halike, hchain', hcase⟩ := createChain_next hgood hchain hroom hpos
  obtain ⟨hsame, hfree⟩ := createChain_fresh v clust
  rw [hcall] at hsame hfree
  have hlinks : ∀ c, v.fat c ≠ 0 → c ∉ pre ++ clust :: rest → u.fat c = v.fat c := by
    intro c hused hc
    refine hsame c hused fun _ heq => hc ?_
    rw [heq]
    exact List.mem_append_right _ List.mem_cons_self
  rcases hcase with ⟨rfl, hroom'⟩ | ⟨rfl, rfl, hroom'⟩
  · refine ⟨d, rest', u, k, hcall, hd, ⟨hu, halike, hchain', List.prefix_rfl, fun c hused hc => ⟨hlinks c hused hc, hc⟩⟩,
      hroom', ?_⟩
    rw [List.length_cons]
  · refine ⟨d, [], u, k - 1, hcall, hd, ⟨hu, halike, hchain', ⟨[d], by simp⟩, fun c hused hc => ⟨hlinks c hused hc, ?_⟩⟩,
      hroom', ?_⟩
    · -- The link of the last cluster is no cluster, so the new one was free.
      have hempty : v.fat d = 0 := by
        refine (hfree hd.1).resolve_left ?_
        rintro ⟨-, rfl⟩
        exact not_inside_of_ended v _ hchain.last_ended hd
      intro hmem
      rcases List.mem_append.mp hmem with h | h
      · exact hc (List.mem_append_left _ h)
      · rcases List.mem_cons.mp h with rfl | h
        · exact hc (List.mem_append_right _ List.mem_cons_self)
        · obtain rfl := List.mem_singleton.mp h
          exact hused hempty
    · have := hpos rfl
      simp only [List.length_nil]
      omega

end Grow

/-! ### The next sector -/

section Next

variable {f : FatIo} {v : IoVolume} {l l' : List U32} {q : Nat}

/-- The sectors of a file stay where they are when its chain grows. -/
theorem fileSect_kept (v : IoVolume) (hkept : l <+: l') (hq : q / v.C < l.length) : v.fileSect l' q = v.fileSect l q := by
  unfold IoVolume.fileSect
  rw [List.getD_eq_getElem?_getD, List.getD_eq_getElem?_getD, getElem?_of_kept hkept hq]

/-- Where the next sector of a file is. -/
structure WriteAt (f : FatIo) (v : IoVolume) (l : List U32) (k : Nat) (u : FatVolume) (l' : List U32) (org clust : U32)
    (left : U8) : Prop where
  grown : Grown v.vol l u l'
  room : ∃ k', u.HasRoom k' ∧ l.length + k ≤ l'.length + k'
  org : org = l'.headD 0
  clust : l'[f.fptr.toNat / 512 / v.C]? = some clust
  left : left.toNat = v.C - f.fptr.toNat / 512 % v.C

/-- `fatbase_write` goes on in the sector of its pointer, with a chain that may have grown. -/
def GoesOn (f : FatIo) (v : IoVolume) (l : List U32) (k : Nat) : Prop :=
  ∃ u l' org clust left, nextWriteSect f v = (.at (v.fileSect l' (f.fptr.toNat / 512)),
    { f with orgClust := org, currClust := clust, sectClust := left }, { v with vol := u }) ∧
      WriteAt f v l k u l' org clust left

/-- The top of the file. -/
theorem goesOn_top (h : IoFile (writeDone f) v l) (hgood : v.vol.Good) (hzero : f.fptr.toNat = 0) {k : Nat}
    (hroom : v.vol.HasRoom k) (hneed : f.fptr.toNat / 512 / v.C < l.length + k) : GoesOn f v l k := by
  have horg : f.orgClust = l.headD 0 := h.file.org
  have hchain := h.file.chain
  have hptr : f.fptr = 0 := BitVec.eq_of_toNat_eq hzero
  have hone : f.sectClust = 1 := (h.top hzero).1
  unfold GoesOn nextWriteSect
  dsimp only
  rw [if_neg (by rw [hone]; decide), if_pos hptr, hzero]
  rw [hzero] at hneed
  simp only [Nat.zero_div] at hneed ⊢
  have hat : ∀ c rest, v.fileSect (c :: rest) 0 = v.sect c := by
    intro c rest
    rw [IoVolume.fileSect_first v _ (Nat.zero_mod _) (by rw [Nat.zero_div]; exact Nat.succ_pos _)]
    simp only [Nat.zero_div, List.getElem_cons_zero]
  cases l with
  | nil =>
      -- No cluster is created yet.
      obtain ⟨b, u, hcall, hin, hgrown, hroom'⟩ := createChain_first hgood hroom (by simpa using hneed)
      have hcreate : v.createChain 0 = (b, { v with vol := u }) := by
        unfold IoVolume.createChain
        rw [hcall]
      rw [if_pos (show f.orgClust = 0 from horg), hcreate]
      dsimp only
      rw [if_neg (inside_ne_zero hin), hgrown.alike.maxClust,
        if_neg (not_or.mpr ⟨inside_ne_one hin, BitVec.not_le.mpr hin.2⟩)]
      refine ⟨u, [b], b, b, v.vol.sectsClust, ?_, hgrown, ⟨k - 1, hroom', ?_⟩, rfl, ?_, ?_⟩
      · rw [hat]
        unfold IoVolume.sect
        rw [hgrown.alike.maxClust, hgrown.alike.sectsClust]
      · simp only [List.length_nil, List.length_singleton] at hneed ⊢
        omega
      · simp only [hzero, Nat.zero_div]
        rfl
      · rw [hzero, Nat.zero_div, Nat.zero_mod]
        rfl
  | cons c rest =>
      have hin := hchain.inside c List.mem_cons_self
      change f.orgClust = c at horg
      subst horg
      rw [if_neg (inside_ne_zero hin)]
      dsimp only
      rw [if_neg (inside_ne_zero hin), if_neg (not_or.mpr ⟨inside_ne_one hin, BitVec.not_le.mpr hin.2⟩)]
      refine ⟨v.vol, _, f.orgClust, f.orgClust, v.vol.sectsClust, ?_, .refl hgood hchain, ⟨k, hroom, le_rfl⟩, rfl, ?_, ?_⟩
      · rw [hat]
      · simp only [hzero, Nat.zero_div]
        rfl
      · rw [hzero, Nat.zero_div, Nat.zero_mod]
        rfl

/-- A pointer behind the sector `q`: where the file stands. -/
theorem stands_behind (h : IoFile (writeDone f) v l) (hsect : f.fptr.toNat % 512 = 0) (hnext : f.fptr.toNat / 512 = q + 1) :
    l[q / v.C]? = some f.currClust ∧ f.currSect = v.fileSect l q ∧ (f.sectClust - 1).toNat = v.C - q % v.C - 1 := by
  have hq : (f.fptr.toNat - 1) / 512 = q := by omega
  obtain ⟨hclust, hcurr, hleft⟩ := h.stands (show f.fptr.toNat ≠ 0 by omega)
  change l[(f.fptr.toNat - 1) / 512 / v.C]? = some f.currClust at hclust
  change f.currSect = v.fileSect l ((f.fptr.toNat - 1) / 512) at hcurr
  change f.sectClust.toNat = v.C - (f.fptr.toNat - 1) / 512 % v.C at hleft
  rw [hq] at hclust hcurr hleft
  have hmod := Nat.mod_lt q (C_pos h.wf)
  refine ⟨hclust, hcurr, ?_⟩
  rw [BitVec.toNat_sub_of_le (BitVec.le_def.mpr (by show 1 ≤ _; omega)), hleft]
  rfl

/-- The next sector of the cluster. -/
theorem goesOn_within (h : IoFile (writeDone f) v l) (hgood : v.vol.Good) (hsect : f.fptr.toNat % 512 = 0)
    (hnext : f.fptr.toNat / 512 = q + 1) (hlast : q % v.C + 1 < v.C) {k : Nat} (hroom : v.vol.HasRoom k) :
    GoesOn f v l k := by
  obtain ⟨hclust, hcurr, hsub⟩ := stands_behind h hsect hnext
  obtain ⟨hdiv, hmod⟩ := IoVolume.div_mod_add hlast
  have hne : f.sectClust - 1 ≠ 0 := by
    intro heq
    rw [heq] at hsub
    change 0 = _ at hsub
    omega
  unfold GoesOn nextWriteSect
  dsimp only
  rw [hnext, if_pos hne]
  refine ⟨v.vol, l, f.orgClust, f.currClust, f.sectClust - 1, ?_, .refl hgood h.file.chain, ⟨k, hroom, le_rfl⟩,
    h.file.org, ?_, ?_⟩
  · rw [hcurr, IoVolume.fileSect_add v l hlast]
    rfl
  · rw [hnext, hdiv]
    exact hclust
  · rw [hsub, hnext, hmod]
    omega

/-- The next cluster. -/
theorem goesOn_behind (h : IoFile (writeDone f) v l) (hgood : v.vol.Good) (hsect : f.fptr.toNat % 512 = 0)
    (hnext : f.fptr.toNat / 512 = q + 1) (hlast : ¬ q % v.C + 1 < v.C) {k : Nat} (hroom : v.vol.HasRoom k)
    (hneed : f.fptr.toNat / 512 / v.C < l.length + k) : GoesOn f v l k := by
  have hC := C_pos h.wf
  have hmodlt := Nat.mod_lt q hC
  obtain ⟨hclust, -, hsub⟩ := stands_behind h hsect hnext
  obtain ⟨hdiv, hmod⟩ := IoVolume.div_mod_last hC hlast
  have heq : f.sectClust - 1 = 0 := BitVec.eq_of_toNat_eq (by rw [hsub]; show _ = 0; omega)
  have hptr : f.fptr ≠ 0 := by
    intro hptr
    rw [hptr] at hnext
    exact absurd hnext (Nat.succ_ne_zero q).symm
  obtain ⟨hold, hcurrClust⟩ := List.getElem?_eq_some_iff.mp hclust
  have hsplit : l = l.take (q / v.C) ++ f.currClust :: l.drop (q / v.C + 1) := by
    rw [← hcurrClust, ← List.drop_eq_getElem_cons hold, List.take_append_drop]
  have hlen : (l.take (q / v.C)).length = q / v.C := List.length_take_of_le (by omega)
  rw [hnext, hdiv] at hneed
  obtain ⟨d, rest', u, k', hcall, hin, hgrown, hroom', hle⟩ := createChain_follows hgood (hsplit ▸ h.file.chain) hroom (by
    intro hnil
    have := List.drop_eq_nil_iff.mp hnil
    omega)
  have hcreate : v.createChain f.currClust = (d, { v with vol := u }) := by
    unfold IoVolume.createChain
    rw [hcall]
  rw [← hsplit] at hgrown
  generalize hl' : l.take (q / v.C) ++ f.currClust :: d :: rest' = l' at hgrown
  have hlen' : l'.length = q / v.C + (rest'.length + 2) := by
    rw [← hl', List.length_append, hlen, List.length_cons, List.length_cons]
  have hget : l'[q / v.C + 1]? = some d := by
    rw [← hl', List.getElem?_append_right (by rw [hlen]; omega), hlen, Nat.add_sub_cancel_left]
    rfl
  obtain ⟨hin', hd⟩ := List.getElem?_eq_some_iff.mp hget
  unfold GoesOn nextWriteSect
  dsimp only
  rw [hnext, if_neg (not_not.mpr heq), if_neg hptr, hcreate]
  dsimp only
  rw [if_neg (inside_ne_zero hin), hgrown.alike.maxClust,
    if_neg (not_or.mpr ⟨inside_ne_one hin, BitVec.not_le.mpr hin.2⟩)]
  refine ⟨u, l', f.orgClust, d, v.vol.sectsClust, ?_, hgrown, ⟨k', hroom', ?_⟩, ?_, ?_, ?_⟩
  · rw [IoVolume.fileSect_first v l' hmod (by rw [hdiv]; exact hin')]
    simp only [hdiv, hd]
    unfold IoVolume.sect
    rw [hgrown.alike.maxClust, hgrown.alike.sectsClust]
  · rw [List.length_drop] at hle
    omega
  · exact h.file.org.trans (hgrown.headD (List.ne_nil_of_length_pos (by omega))).symm
  · rw [hnext, hdiv]
    exact hget
  · rw [hnext, hmod]
    rfl

/-- `fatbase_write` finds the next sector of the file, and takes a cluster for it if there is none. -/
theorem nextWriteSect_spec (h : IoFile (writeDone f) v l) (hgood : v.vol.Good) (hsect : f.inSect = 0) {k : Nat}
    (hroom : v.vol.HasRoom k) (hneed : f.fptr.toNat / 512 / v.C < l.length + k) : GoesOn f v l k := by
  unfold FatIo.inSect at hsect
  by_cases hzero : f.fptr.toNat = 0
  · exact goesOn_top h hgood hzero hroom hneed
  · obtain ⟨q, hnext⟩ : ∃ q, f.fptr.toNat / 512 = q + 1 := ⟨f.fptr.toNat / 512 - 1, by omega⟩
    by_cases hlast : q % v.C + 1 < v.C
    · exact goesOn_within h hgood hsect hnext hlast hroom
    · exact goesOn_behind h hgood hsect hnext hlast hroom hneed

end Next

/-! ### What is spared -/

/-- A call on a file changes the sectors of its clusters only, and takes free clusters only. -/
structure Confined (v : IoVolume) (l : List U32) (w : IoVolume) (l' : List U32) : Prop where
  grown : Grown v.vol l w.vol l'
  database : w.database = v.database
  mounted : w.mounted = v.mounted
  id : w.id = v.id
  dir : w.dir = v.dir
  disk : ∀ s, (∀ q, q / v.C < l'.length → s ≠ v.fileSect l' q) → w.disk s = v.disk s

namespace Confined

variable {v w u : IoVolume} {l l' l'' : List U32}

theorem C (h : Confined v l w l') : w.C = v.C := congrArg BitVec.toNat h.grown.alike.sectsClust

theorem fileSect (h : Confined v l w l') (m : List U32) (q : Nat) : w.fileSect m q = v.fileSect m q := by
  unfold IoVolume.fileSect IoVolume.sect
  rw [h.C, h.database, h.grown.alike.maxClust, h.grown.alike.sectsClust]

theorem placed (h : Confined v l w l') (hplaced : v.Placed) : w.Placed := by
  unfold IoVolume.Placed
  rw [h.C, h.database, h.grown.alike.maxClust]
  exact hplaced

/-- Nothing but the state of the device and the sectors of the file is another. -/
theorem same (hgood : v.vol.Good) (hchain : v.vol.OnChain l) (n : Nat) {disk : U32 → ByteMap}
    (hdisk : ∀ s, (∀ q, q / v.C < l.length → s ≠ v.fileSect l q) → disk s = v.disk s) :
    Confined v l { v.after n with disk := disk } l :=
  ⟨⟨hgood.after n, .after v.vol n, hchain, List.prefix_rfl, fun _ _ hc => ⟨rfl, hc⟩⟩, rfl, rfl, rfl, rfl, hdisk⟩

/-- `sync` changes the FSInfo flag only. -/
theorem synced (hgood : v.vol.Good) (hchain : v.vol.OnChain l) (n : Nat) (fsiFlag : Bool) :
    Confined v l { v with vol := { v.vol.after n with fsiFlag := fsiFlag } } l := by
  obtain ⟨hwell, hworks⟩ := hgood.after n
  refine ⟨⟨⟨⟨hwell.sects, hwell.entry, hwell.mark, hwell.reserved⟩, hworks⟩, ⟨rfl, rfl, rfl, rfl, rfl, Nat.le_add_right ..⟩,
    ⟨hchain.steps, hchain.inside, hchain.stops⟩, List.prefix_rfl, fun _ _ hc => ⟨rfl, hc⟩⟩, rfl, rfl, rfl, rfl,
    fun _ _ => rfl⟩

theorem refl (hgood : v.vol.Good) (hchain : v.vol.OnChain l) : Confined v l v l := same hgood hchain 0 fun _ _ => rfl

theorem trans (h₁ : Confined v l w l') (h₂ : Confined w l' u l'') : Confined v l u l'' := by
  refine ⟨h₁.grown.trans h₂.grown, h₂.database.trans h₁.database, h₂.mounted.trans h₁.mounted, h₂.id.trans h₁.id,
    h₂.dir.trans h₁.dir, ?_⟩
  intro s hs
  refine (h₂.disk s ?_).trans (h₁.disk s ?_)
  · intro q hq
    rw [h₁.C] at hq
    rw [h₁.fileSect]
    exact hs q hq
  · intro q hq
    rw [← fileSect_kept v h₂.grown.kept hq]
    exact hs q (hq.trans_le h₂.grown.kept.length_le)

/-- The clusters of another file. -/
theorem other (h : Confined v l w l') {m : List U32} (hchain : v.vol.OnChain m) (hdisj : m.Disjoint l) :
    w.vol.OnChain m ∧ m.Disjoint l' := by
  have hlinks : ∀ c ∈ m, w.vol.fat c = v.vol.fat c ∧ c ∉ l' := by
    intro c hc
    refine h.grown.links c ?_ (hdisj hc)
    intro hzero
    exact absurd (hchain.two_le hc) (by rw [hzero]; decide)
  exact ⟨h.grown.alike.onChain hchain fun c hc => (hlinks c hc).1, fun c hc => (hlinks c hc).2⟩

/-- The sectors of another file. -/
theorem other_sect (h : Confined v l w l') (hplaced : v.Placed) (hpos : 0 < v.C) {m : List U32} (hchain : v.vol.OnChain m)
    (hdisj : m.Disjoint l) {q : Nat} (hq : q / v.C < m.length) : w.disk (v.fileSect m q) = v.disk (v.fileSect m q) := by
  refine h.disk _ fun r hr => ?_
  obtain ⟨hchain', hout⟩ := h.other hchain hdisj
  have hne : m[q / v.C] ≠ l'[r / v.C] := by
    intro heq
    exact hout (List.getElem_mem hq) (heq ▸ List.getElem_mem hr)
  have hC := h.C
  have hplaced' := h.placed hplaced
  rw [← h.fileSect, ← h.fileSect]
  rw [← hC] at hpos hq hr
  simp only [← hC] at hne
  exact IoVolume.fileSect_ne hplaced' hpos hchain' h.grown.chain hq hr hne

end Confined

/-! ### One round of the loop -/

section Round

variable {f g : FatIo} {v w : IoVolume} {l l' : List U32} {q : Nat} {data : List U8}

theorem diskWrite_works (hworks : v.vol.Works) (buffer : ByteMap) (sect : U32) :
    v.diskWrite buffer sect = (true, { v.after 1 with disk := Function.update v.disk sect buffer }) := by
  unfold IoVolume.diskWrite
  rw [v.access_eq, hworks _ le_rfl]
  rfl

theorem ofNat_add_ne {sect : U32} {i j : Nat} (hi : i < 2 ^ 32) (hj : j < 2 ^ 32) (hne : i ≠ j) :
    sect + BitVec.ofNat 32 i ≠ sect + BitVec.ofNat 32 j := by
  intro heq
  have hval := congrArg BitVec.toNat ((BitVec.add_right_inj sect).mp heq)
  rw [BitVec.toNat_ofNat, BitVec.toNat_ofNat, Nat.mod_eq_of_lt hi, Nat.mod_eq_of_lt hj] at hval
  exact hne hval

/-- Sectors one behind the other are written. -/
theorem diskWrites_spec (n : Nat) (sect : U32) (data : List U8) (v : IoVolume) (hworks : v.vol.Works) (hn : n < 2 ^ 32) :
    ∃ m disk, IoVolume.diskWrites n sect data v = (true, { v.after m with disk := disk }) ∧
      (∀ j < n, ∀ i, disk (sect + BitVec.ofNat 32 j) i = data.getD (j * 512 + i) 0) ∧
      ∀ s, (∀ j < n, s ≠ sect + BitVec.ofNat 32 j) → disk s = v.disk s := by
  induction n generalizing sect data v with
  | zero => exact ⟨0, v.disk, rfl, fun j hj => absurd hj (Nat.not_lt_zero j), fun _ _ => rfl⟩
  | succ n ih =>
      have hnext : ∀ j, sect + 1 + BitVec.ofNat 32 j = sect + BitVec.ofNat 32 (1 + j) := by
        intro j
        rw [BitVec.ofNat_add, ← BitVec.add_assoc]
        rfl
      obtain ⟨m, disk, hcall, hput, hsame⟩ := ih (sect + 1) (data.drop 512)
        { v.after 1 with disk := Function.update v.disk sect (IoVolume.firstSector data) }
        (fun k hk => hworks k ((Nat.le_succ _).trans hk)) (by omega)
      refine ⟨1 + m, disk, ?_, ?_, ?_⟩
      · unfold IoVolume.diskWrites
        rw [diskWrite_works hworks]
        dsimp only
        rw [hcall]
        unfold IoVolume.after
        dsimp only
        rw [FatVolume.after_after]
      · intro j hj i
        cases j with
        | zero =>
            have hzero : sect + BitVec.ofNat 32 0 = sect := BitVec.add_zero sect
            rw [hzero, hsame sect, Nat.zero_mul, Nat.zero_add]
            · show Function.update v.disk sect _ sect i = _
              rw [Function.update_self]
              rfl
            · intro j hj
              rw [hnext, ← hzero, BitVec.add_assoc, BitVec.zero_add]
              exact ofNat_add_ne (by decide) (by omega) (by omega)
        | succ j =>
            rw [Nat.add_comm j 1, ← hnext, hput j (by omega), List.getD_eq_getElem?_getD, List.getD_eq_getElem?_getD,
              List.getElem?_drop]
            congr 2
            omega
      · intro s hs
        rw [hsame s fun j hj => by rw [hnext]; exact hs (1 + j) (by omega)]
        refine Function.update_of_ne ?_ ..
        have := hs 0 (Nat.succ_pos n)
        rwa [show sect + BitVec.ofNat 32 0 = sect from BitVec.add_zero sect] at this

/-- A file after bytes have been written at its pointer. -/
structure Wrote (f : FatIo) (v : IoVolume) (l : List U32) (data : List U8) (g : FatIo) (w : IoVolume) (l' : List U32) :
    Prop where
  confined : Confined v l w l'
  file : IoFile (writeDone g) w l'
  fptr : g.fptr.toNat = f.fptr.toNat + data.length
  fsize : g.fsize = f.fsize
  canRead : g.canRead = f.canRead
  canWrite : g.canWrite = f.canWrite
  slot : g.slot = f.slot
  bytes : ∀ i, i < max f.fsize.toNat g.fptr.toNat → ioByte g w l' i =
    if f.fptr.toNat ≤ i ∧ i < f.fptr.toNat + data.length then data.getD (i - f.fptr.toNat) 0 else ioByte f v l i

theorem Wrote.refl (h : IoFile (writeDone f) v l) (hgood : v.vol.Good) : Wrote f v l [] f v l := by
  refine ⟨.refl hgood h.file.chain, h, rfl, rfl, rfl, rfl, rfl, fun i _ => ?_⟩
  rw [if_neg]
  rintro ⟨h₁, h₂⟩
  rw [List.length_nil] at h₂
  omega

theorem Wrote.trans {e : FatIo} {u : IoVolume} {l'' : List U32} {more : List U8} (h₁ : Wrote f v l data g w l')
    (h₂ : Wrote g w l' more e u l'') : Wrote f v l (data ++ more) e u l'' := by
  have hptr := h₂.fptr
  rw [h₁.fptr] at hptr
  refine ⟨h₁.confined.trans h₂.confined, h₂.file, ?_, h₂.fsize.trans h₁.fsize, h₂.canRead.trans h₁.canRead,
    h₂.canWrite.trans h₁.canWrite, h₂.slot.trans h₁.slot, ?_⟩
  · rw [hptr, List.length_append, Nat.add_assoc]
  · intro i hi
    rw [h₂.bytes i (by rwa [h₁.fsize]), h₁.fptr, List.length_append]
    by_cases hnew : f.fptr.toNat + data.length ≤ i ∧ i < f.fptr.toNat + data.length + more.length
    · rw [if_pos hnew, if_pos (by omega), List.getD_eq_getElem?_getD, List.getD_eq_getElem?_getD,
        List.getElem?_append_right (by omega)]
      congr 2
      omega
    · rw [if_neg hnew, h₁.bytes i (by rw [h₁.fptr]; omega)]
      by_cases hold : f.fptr.toNat ≤ i ∧ i < f.fptr.toNat + data.length
      · rw [if_pos hold, if_pos (by omega), List.getD_eq_getElem?_getD, List.getD_eq_getElem?_getD,
          List.getElem?_append_left (by omega)]
      · rw [if_neg hold, if_neg (by omega)]

/-- The file at the sector of its pointer, with what the buffer must hold of it. -/
structure AtSector (f : FatIo) (v : IoVolume) (l : List U32) (g : FatIo) (w : IoVolume) (l' : List U32) : Prop where
  confined : Confined v l w l'
  fil : g.toFatFil = { f.toFatFil with dirty := g.dirty, orgClust := l'.headD 0 }
  slot : g.slot = f.slot
  valid : validate g w = validate f v
  bytes : ∀ i, i < max f.fsize.toNat f.fptr.toNat → ioByte g w l' i = ioByte f v l i
  stands : Stands g w l' (f.fptr.toNat / 512)
  buffer : ∀ i < 512, f.fptr.toNat / 512 * 512 + i < max f.fsize.toNat f.fptr.toNat →
    g.buffer i = shown g w g.currSect i

theorem writeDone_fsize (f : FatIo) : (writeDone f).fsize.toNat = max f.fsize.toNat f.fptr.toNat := by
  show (if f.fsize < f.fptr then f.fptr else f.fsize).toNat = _
  split
  · rename_i hlt
    exact (max_eq_right (le_of_lt (BitVec.lt_def.mp hlt))).symm
  · rename_i hle
    exact (max_eq_left (BitVec.le_def.mp (BitVec.not_lt.mp hle))).symm

/-- The file after `m` bytes, when its pointers are at the last of their sectors. -/
theorem IoFile.wrote (h : IoFile (writeDone f) v l) (hconf : Confined v l w l') {g : FatIo} {m : Nat} (hpos : 0 < m)
    (hlt : f.fptr.toNat + m < 2 ^ 32) (hfil : g.toFatFil = { f.toFatFil with dirty := g.dirty, orgClust := l'.headD 0 })
    (hvalid : validate g w = validate f v) (hstands : Stands g w l' ((f.fptr.toNat + m - 1) / 512))
    (hloaded : (f.fptr.toNat + m) % 512 ≠ 0 → g.dirty = false → g.buffer = w.disk g.currSect) :
    IoFile (writeDone (g.advance m)) w l' ∧ (g.advance m).fptr.toNat = f.fptr.toNat + m := by
  have hptr : g.fptr = f.fptr := by rw [hfil]
  have hval : (g.advance m).fptr.toNat = f.fptr.toNat + m := by rw [advance_toNat g (by rw [hptr]; exact hlt), hptr]
  have hfsize : (g.advance m).fsize = f.fsize := by
    show g.fsize = f.fsize
    rw [hfil]
  have hC := C_pos h.wf
  have hCw := hconf.C
  have hgood := hconf.grown.good
  refine ⟨⟨⟨?_, hconf.grown.chain, ?_, ?_⟩, hgood.toWellFormed, hconf.placed h.placed, ?_, ?_, ?_, ?_, ?_⟩, hval⟩
  · show g.orgClust = l'.headD 0
    rw [hfil]
  · -- The chain holds the old size, and the sector of the pointer.
    have hold := h.file.size
    have hin := (List.getElem?_eq_some_iff.mp hstands.clust).1
    rw [hCw, Nat.div_div_eq_div_mul, Nat.mul_comm 512, Nat.div_lt_iff_lt_mul (Nat.mul_pos hC (by decide))] at hin
    have hlen := Nat.mul_le_mul_right (v.C * 512) hconf.grown.kept.length_le
    rw [clustBytes_eq] at hold ⊢
    rw [hCw]
    rw [writeDone_fsize] at hold
    rw [writeDone_fsize, hval, hfsize]
    omega
  · intro _
    show (g.advance m).fptr ≤ if (g.advance m).fsize < (g.advance m).fptr then (g.advance m).fptr else (g.advance m).fsize
    split
    · exact BitVec.le_refl _
    · rename_i hle
      exact BitVec.not_lt.mp hle
  · exact hvalid.trans h.valid
  · have herror : f.error = false := h.error
    show g.error = false
    rw [hfil]
    exact herror
  · intro hzero
    change (g.advance m).fptr.toNat = 0 at hzero
    omega
  · intro _
    show Stands (writeDone (g.advance m)) w l' (((g.advance m).fptr.toNat - 1) / 512)
    rw [hval]
    exact ⟨hstands.clust, hstands.sect, hstands.left⟩
  · intro hsect
    unfold FatIo.inSect at hsect
    change (g.advance m).fptr.toNat % 512 ≠ 0 at hsect
    rw [hval] at hsect
    exact hloaded hsect

/-- What is left of a sector is copied into the buffer. -/
theorem AtSector.patched (data : List U8) (hat : AtSector f v l g w l') (h : IoFile (writeDone f) v l) {m : Nat}
    (hpos : 0 < m)
    (hfit : f.fptr.toNat % 512 + m ≤ 512) (hm : m ≤ data.length) (hlt : f.fptr.toNat + m < 2 ^ 32) :
    Wrote f v l (data.take m)
      ({ g with buffer := patch g.buffer g.inSect m data, dirty := true }.advance m) w l' := by
  have hptr : g.fptr = f.fptr := by rw [hat.fil]
  have hsect : g.inSect = f.fptr.toNat % 512 := by
    unfold FatIo.inSect
    rw [hptr]
  have hC := C_pos h.wf
  have hlen : (data.take m).length = m := List.length_take_of_le hm
  have hfsize : g.fsize = f.fsize := by rw [hat.fil]
  obtain ⟨hfile, hval⟩ := h.wrote hat.confined (g := { g with buffer := patch g.buffer g.inSect m data, dirty := true })
    hpos hlt (by rw [hat.fil]) hat.valid
    (by
      rw [show (f.fptr.toNat + m - 1) / 512 = f.fptr.toNat / 512 by omega]
      exact ⟨hat.stands.clust, hat.stands.sect, hat.stands.left⟩)
    fun _ hdirty => absurd (show true = false from hdirty) (by decide)
  refine ⟨hat.confined, hfile, by rw [hval, hlen], ?_, ?_, ?_, hat.slot, ?_⟩
  · exact hfsize
  · show g.canRead = f.canRead
    rw [hat.fil]
  · show g.canWrite = f.canWrite
    rw [hat.fil]
  · intro i hi
    rw [hval] at hi
    rw [hlen]
    have hshown : ioByte ({ g with buffer := patch g.buffer g.inSect m data, dirty := true }.advance m) w l' i =
        Function.update w.disk g.currSect (patch g.buffer g.inSect m data) (w.fileSect l' (i / 512)) (i % 512) := rfl
    rw [hshown, hsect, hat.stands.sect]
    by_cases hsame : i / 512 = f.fptr.toNat / 512
    · -- In the sector of the pointer.
      rw [hsame, Function.update_self]
      unfold patch
      by_cases hnew : f.fptr.toNat ≤ i ∧ i < f.fptr.toNat + m
      · rw [if_pos (by omega), if_pos hnew, List.getD_eq_getElem?_getD, List.getD_eq_getElem?_getD,
          List.getElem?_take_of_lt (by omega)]
        congr 2
        omega
      · rw [if_neg (by omega), if_neg hnew, ← hat.bytes i (by omega),
          hat.buffer (i % 512) (Nat.mod_lt _ (by decide)) (by omega)]
        unfold ioByte
        rw [hsame, hat.stands.sect]
    · -- The other sectors stay.
      have hin : i / 512 / w.C < l'.length := hfile.in_clusters (by
        rw [writeDone_fsize, hval]
        exact hfsize ▸ hi)
      have hne : w.fileSect l' (i / 512) ≠ w.fileSect l' (f.fptr.toNat / 512) := by
        intro heq
        refine hsame (IoVolume.fileSect_inj (hat.confined.placed h.placed) (hat.confined.C ▸ hC) hat.confined.grown.chain
          hin ?_ heq)
        exact (List.getElem?_eq_some_iff.mp hat.stands.clust).1
      rw [Function.update_of_ne hne, if_neg (by omega), ← hat.bytes i (by omega)]
      unfold ioByte shown
      split
      · rw [hat.stands.sect, Function.update_of_ne hne]
      · rfl

/-- The sector of a dirty buffer is one of the file. -/
theorem shown_outside (h : IoFile (writeDone f) v l) {s : U32} (hs : ∀ q, q / v.C < l.length → s ≠ v.fileSect l q) :
    shown f v s = v.disk s := by
  unfold shown
  split
  · rename_i hdirty
    have hpos : f.fptr.toNat ≠ 0 := by
      intro hzero
      have hclean : f.dirty = false := (h.top hzero).2
      rw [hclean] at hdirty
      exact absurd hdirty (by decide)
    obtain ⟨hclust, hcurr, -⟩ := h.stands hpos
    change f.currSect = v.fileSect l ((f.fptr.toNat - 1) / 512) at hcurr
    rw [hcurr]
    exact Function.update_of_ne (hs _ (List.getElem?_eq_some_iff.mp hclust).1) ..
  · rfl

/-- On a boundary: the buffer has been written back, and the chain reaches the sector of the pointer. -/
structure AtBoundary (f : FatIo) (v : IoVolume) (l : List U32) (g : FatIo) (w : IoVolume) (l' : List U32) : Prop where
  confined : Confined v l w l'
  fil : g.toFatFil = { f.toFatFil with dirty := false, orgClust := l'.headD 0 }
  slot : g.slot = f.slot
  valid : validate g w = validate f v
  disk : w.disk = shown f v
  clust : l'[f.fptr.toNat / 512 / v.C]? = some g.currClust
  left : g.sectClust.toNat = v.C - f.fptr.toNat / 512 % v.C

theorem flush_works (f : FatIo) (hworks : v.vol.Works) :
    ∃ n, flush f v = (true, { f with dirty := false }, { v.after n with disk := shown f v }) := by
  rcases flush_spec f v with hflush | ⟨-, hfails⟩
  · exact hflush
  · exact absurd hworks hfails

/-- `fatbase_write` on a sector boundary, up to the transfer. -/
theorem writeBoundary_starts (data : List U8) (h : IoFile (writeDone f) v l) (hgood : v.vol.Good) (hsect : f.inSect = 0)
    {k : Nat}
    (hroom : v.vol.HasRoom k) (hneed : f.fptr.toNat / 512 / v.C < l.length + k) :
    ∃ g w l' k', writeBoundary f v data = writeSector g w (v.fileSect l' (f.fptr.toNat / 512)) data ∧
      AtBoundary f v l g w l' ∧ w.vol.HasRoom k' ∧ l.length + k ≤ l'.length + k' := by
  obtain ⟨u, l', org, clust, left, hnext, hwrite⟩ := nextWriteSect_spec h hgood hsect hroom hneed
  obtain ⟨k', hroom', hle⟩ := hwrite.room
  obtain ⟨n, hflush⟩ := flush_works { f with orgClust := org, currClust := clust, sectClust := left }
    (v := { v with vol := u }) hwrite.grown.good.works
  refine ⟨{ f with orgClust := org, currClust := clust, sectClust := left, dirty := false },
    { ({ v with vol := u } : IoVolume).after n with disk := shown f v }, l', k', ?_,
    ⟨?_, ?_, rfl, rfl, rfl, hwrite.clust, hwrite.left⟩, hroom', hle⟩
  · unfold writeBoundary
    rw [hnext]
    dsimp only
    rw [hflush]
    rfl
  · have hgrown := hwrite.grown
    refine ⟨⟨hgrown.good.after n, hgrown.alike.trans (.after u n), hgrown.chain, hgrown.kept, hgrown.links⟩, rfl, rfl, rfl,
      rfl, ?_⟩
    intro s hs
    refine shown_outside h fun q hq => ?_
    rw [← fileSect_kept v hgrown.kept hq]
    exact hs q (hq.trans_le hgrown.kept.length_le)
  · show _ = { f.toFatFil with dirty := false, orgClust := l'.headD 0 }
    rw [← hwrite.org]

namespace AtBoundary

/-- A byte of the file, on the drive. -/
theorem byte (hat : AtBoundary f v l g w l') (h : IoFile (writeDone f) v l) {i : Nat}
    (hi : i < max f.fsize.toNat f.fptr.toNat) : w.disk (v.fileSect l' (i / 512)) (i % 512) = ioByte f v l i := by
  have hin : i / 512 / v.C < l.length := h.in_clusters (by rwa [writeDone_fsize])
  rw [hat.disk, fileSect_kept v hat.confined.grown.kept hin]
  rfl

/-- One sector comes into the buffer. -/
theorem buffered (hat : AtBoundary f v l g w l') (h : IoFile (writeDone f) v l) (hsect : f.fptr.toNat % 512 = 0) (n : Nat)
    {buffer : ByteMap} (hload : f.fptr < f.fsize → buffer = w.disk (v.fileSect l' (f.fptr.toNat / 512))) :
    AtSector f v l { g with currSect := v.fileSect l' (f.fptr.toNat / 512), buffer := buffer } (w.after n) l' := by
  have hclean : g.dirty = false := by rw [hat.fil]
  have hconf : Confined v l (w.after n) l' :=
    hat.confined.trans (.same hat.confined.grown.good hat.confined.grown.chain n fun _ _ => rfl)
  have hshown : shown { g with currSect := v.fileSect l' (f.fptr.toNat / 512), buffer := buffer } (w.after n) = w.disk :=
    shown_clean hclean
  refine ⟨hconf, ?_, hat.slot, hat.valid, ?_, ⟨?_, ?_, ?_⟩, ?_⟩
  · show g.toFatFil = { f.toFatFil with dirty := g.dirty, orgClust := l'.headD 0 }
    rw [hclean, hat.fil]
  · intro i hi
    rw [← hat.byte h hi]
    unfold ioByte
    rw [hshown, hconf.fileSect]
  · rw [hconf.C]
    exact hat.clust
  · rw [hconf.fileSect]
  · rw [hconf.C]
    exact hat.left
  · intro i hi hlt
    by_cases hold : f.fptr < f.fsize
    · rw [hshown]
      exact congrFun (hload hold) i
    · have := BitVec.le_def.mp (BitVec.not_lt.mp hold)
      omega

/-- Some sectors are written directly. -/
theorem direct (hat : AtBoundary f v l g w l') (h : IoFile (writeDone f) v l) (hsect : f.fptr.toNat % 512 = 0) {cc : Nat}
    (hpos : 0 < cc) (hleft : cc ≤ g.sectClust.toNat) (hfit : cc * 512 ≤ data.length)
    (hlt : f.fptr.toNat + data.length < 2 ^ 32) (n : Nat) {disk : U32 → ByteMap}
    (hput : ∀ j < cc, ∀ i, disk (v.fileSect l' (f.fptr.toNat / 512) + BitVec.ofNat 32 j) i = data.getD (j * 512 + i) 0)
    (hsame : ∀ s, (∀ j < cc, s ≠ v.fileSect l' (f.fptr.toNat / 512) + BitVec.ofNat 32 j) → disk s = w.disk s) :
    Wrote f v l (data.take (cc * 512))
      ((skipSects { g with currSect := v.fileSect l' (f.fptr.toNat / 512) } cc).advance (cc * 512))
      { w.after n with disk := disk } l' := by
  obtain ⟨q, hq⟩ : ∃ q, f.fptr.toNat / 512 = q := ⟨_, rfl⟩
  have hptr : f.fptr.toNat = q * 512 := by omega
  have hclust := hat.clust
  have hcount := hat.left
  rw [hq] at hput hsame hclust hcount ⊢
  have hC := C_pos h.wf
  have hmod := Nat.mod_lt q hC
  have hin := (List.getElem?_eq_some_iff.mp hclust).1
  have hclean : g.dirty = false := by rw [hat.fil]
  have hlen : (data.take (cc * 512)).length = cc * 512 := List.length_take_of_le hfit
  -- The sectors follow one another in the cluster.
  have hsmall : ∀ j < cc, q % v.C + j < v.C := fun j hj => by omega
  have hadd : ∀ j < cc, v.fileSect l' q + BitVec.ofNat 32 j = v.fileSect l' (q + j) :=
    fun j hj => (IoVolume.fileSect_add v l' (hsmall j hj)).symm
  have hclustOf : ∀ j < cc, (q + j) / v.C = q / v.C := fun j hj => (IoVolume.div_mod_add (hsmall j hj)).1
  have hconf : Confined v l { w.after n with disk := disk } l' := by
    refine hat.confined.trans (.same hat.confined.grown.good hat.confined.grown.chain n fun s hs => ?_)
    refine hsame s fun j hj => ?_
    rw [hadd j hj, ← hat.confined.fileSect]
    refine hs _ ?_
    rw [hat.confined.C, hclustOf j hj]
    exact hin
  have hlast := IoVolume.div_mod_add (hsmall (cc - 1) (by omega))
  obtain ⟨hfile, hval⟩ := h.wrote hconf (g := skipSects { g with currSect := v.fileSect l' q } cc) (m := cc * 512)
    (by omega) (by omega)
    (by
      show g.toFatFil = { f.toFatFil with dirty := g.dirty, orgClust := l'.headD 0 }
      rw [hclean, hat.fil])
    hat.valid
    (by
      rw [show (f.fptr.toNat + cc * 512 - 1) / 512 = q + (cc - 1) by omega]
      refine ⟨?_, ?_, ?_⟩
      · rw [hconf.C, hlast.1]
        exact hclust
      · rw [hconf.fileSect]
        exact hadd (cc - 1) (by omega)
      · rw [hconf.C, hlast.2]
        show (g.sectClust - BitVec.ofNat 8 (cc - 1)).toNat = _
        have hbyte := g.sectClust.isLt
        have hval : (BitVec.ofNat 8 (cc - 1)).toNat = cc - 1 := by
          rw [BitVec.toNat_ofNat]
          exact Nat.mod_eq_of_lt (by omega)
        rw [BitVec.toNat_sub_of_le (BitVec.le_def.mpr (by rw [hval]; omega)), hval]
        omega)
    fun hne => absurd hne (by omega)
  have hfsize : g.fsize = f.fsize := by rw [hat.fil]
  refine ⟨hconf, hfile, by rw [hval, hlen], hfsize, ?_, ?_, hat.slot, ?_⟩
  · show g.canRead = f.canRead
    rw [hat.fil]
  · show g.canWrite = f.canWrite
    rw [hat.fil]
  · intro i hi
    have hin' : i / 512 / v.C < l'.length := by
      have := hfile.in_clusters (i := i) (by
        rw [writeDone_fsize]
        exact hfsize ▸ hi)
      rwa [hconf.C] at this
    rw [hval] at hi
    rw [hlen]
    have hshown : ioByte ((skipSects { g with currSect := v.fileSect l' q } cc).advance (cc * 512))
        { w.after n with disk := disk } l' i = disk (v.fileSect l' (i / 512)) (i % 512) := by
      unfold ioByte
      rw [hconf.fileSect]
      have hstill : ((skipSects { g with currSect := v.fileSect l' q } cc).advance (cc * 512)).dirty = false := hclean
      exact congrFun (congrFun (shown_clean hstill) _) _
    rw [hshown]
    by_cases hnew : f.fptr.toNat ≤ i ∧ i < f.fptr.toNat + cc * 512
    · have hj : i / 512 = q + (i / 512 - q) := by omega
      have hlt : i / 512 - q < cc := by omega
      rw [if_pos hnew, hj, ← hadd _ hlt, hput _ hlt, List.getD_eq_getElem?_getD, List.getD_eq_getElem?_getD,
        List.getElem?_take_of_lt (by omega)]
      congr 2
      omega
    · rw [if_neg hnew, ← hat.byte h (by omega), hsame]
      intro j hj heq
      rw [hadd j hj, ← hat.confined.fileSect, ← hat.confined.fileSect] at heq
      rw [← hat.confined.C] at hin' hC
      have := IoVolume.fileSect_inj (hat.confined.placed h.placed) hC hat.confined.grown.chain hin' (by
        rw [hat.confined.C, hclustOf j hj]
        exact hin) heq
      omega

end AtBoundary

/-- `fatbase_write` on a sector boundary. -/
theorem writeBoundary_spec (h : IoFile (writeDone f) v l) (hgood : v.vol.Good) (hsect : f.inSect = 0) {k : Nat}
    (hroom : v.vol.HasRoom k) (hneed : f.fptr.toNat / 512 / v.C < l.length + k)
    (hlt : f.fptr.toNat + data.length < 2 ^ 32) :
    ∃ b g w l' k', writeBoundary f v data = (b, g, w) ∧ w.vol.HasRoom k' ∧ l.length + k ≤ l'.length + k' ∧
      ((∃ m, b = .direct m [] ∧ 0 < m ∧ m ≤ data.length ∧ Wrote f v l (data.take m) (g.advance m) w l') ∨
        b = .buffered ∧ AtSector f v l g w l') := by
  obtain ⟨g, w, l', k', hcall, hat, hroom', hle⟩ := writeBoundary_starts data h hgood hsect hroom hneed
  have hworks := hat.confined.grown.good.works
  have hmod := Nat.mod_lt (f.fptr.toNat / 512) (C_pos h.wf)
  have hleft := hat.left
  have hbyte := g.sectClust.isLt
  rw [hcall]
  unfold writeSector
  dsimp only
  by_cases hbig : data.length / 512 ≠ 0
  · rw [if_pos hbig]
    obtain ⟨cc, hcc⟩ : ∃ cc, directSects { g with currSect := v.fileSect l' (f.fptr.toNat / 512) } data.length = cc :=
      ⟨_, rfl⟩
    rw [hcc]
    change min (data.length / 512) g.sectClust.toNat = cc at hcc
    obtain ⟨n, disk, hwrites, hput, hsame⟩ := diskWrites_spec cc (v.fileSect l' (f.fptr.toNat / 512)) data w hworks
      (by omega)
    rw [hwrites]
    refine ⟨_, _, _, l', k', rfl, hroom', hle, Or.inl ⟨cc * 512, rfl, by omega, by omega, ?_⟩⟩
    exact hat.direct h hsect (by omega) (by omega) (by omega) hlt n hput hsame
  · rw [if_neg hbig]
    have hfptr : g.fptr = f.fptr := by rw [hat.fil]
    have hfsize : g.fsize = f.fsize := by rw [hat.fil]
    rw [hfptr, hfsize]
    by_cases hload : f.fptr < f.fsize
    · have hread : w.diskRead (v.fileSect l' (f.fptr.toNat / 512)) =
          (some (w.disk (v.fileSect l' (f.fptr.toNat / 512))), w.after 1) :=
        (diskRead_spec w _).resolve_right fun hfails => hfails.2 hworks
      rw [if_pos hload, hread]
      exact ⟨_, _, _, l', k', rfl, hroom', hle, Or.inr ⟨rfl, hat.buffered h hsect 1 fun _ => rfl⟩⟩
    · rw [if_neg hload]
      exact ⟨_, _, _, l', k', rfl, hroom', hle, Or.inr ⟨rfl, hat.buffered h hsect 0 fun hlt => absurd hlt hload⟩⟩

/-- Within a sector, the buffer has it. -/
theorem atSector_within (h : IoFile (writeDone f) v l) (hgood : v.vol.Good) (hsect : f.inSect ≠ 0) :
    AtSector f v l f v l := by
  unfold FatIo.inSect at hsect
  obtain ⟨hclust, hcurr, hleft⟩ := h.stands (show f.fptr.toNat ≠ 0 by omega)
  have hq : ((writeDone f).fptr.toNat - 1) / 512 = f.fptr.toNat / 512 := by
    show (f.fptr.toNat - 1) / 512 = _
    omega
  rw [hq] at hclust hcurr hleft
  have horg : f.orgClust = l.headD 0 := h.file.org
  refine ⟨.refl hgood h.file.chain, ?_, rfl, rfl, fun _ _ => rfl, ⟨hclust, hcurr, hleft⟩, fun i _ _ => ?_⟩
  · rw [← horg]
  · unfold shown
    split
    · rw [Function.update_self]
    · rename_i hclean
      exact congrFun (h.loaded hsect (show f.dirty = false by simpa using hclean)) i

/-- `fatbase_write` writes its bytes at the pointer of the file. -/
theorem writeLoop_spec {k : Nat} (fuel : Nat) (data : List U8) (h : IoFile (writeDone f) v l) (hgood : v.vol.Good)
    (hroom : v.vol.HasRoom k)
    (hneed : 0 < data.length → (f.fptr.toNat + data.length - 1) / 512 / v.C < l.length + k)
    (hlt : f.fptr.toNat + data.length < 2 ^ 32) (hfuel : data.length < fuel) :
    ∃ g w l', writeLoop fuel f v data = ((0, data.length), writeDone g, w) ∧ Wrote f v l data g w l' := by
  induction fuel generalizing f v l data k with
  | zero => omega
  | succ fuel ih =>
      unfold writeLoop
      by_cases hdone : data.length = 0
      · rw [if_pos hdone]
        obtain rfl := List.length_eq_zero_iff.mp hdone
        exact ⟨f, v, l, rfl, .refl h hgood⟩
      · rw [if_neg hdone]
        have hfirst : f.fptr.toNat / 512 / v.C < l.length + k := by
          refine lt_of_le_of_lt (Nat.div_le_div_right (Nat.div_le_div_right ?_)) (hneed (by omega))
          omega
        -- The rest of the bytes, after the first `m`.
        have hrest : ∀ {m : Nat} {g : FatIo} {w : IoVolume} {l' : List U32} {k' : Nat}, 0 < m → m ≤ data.length →
            Wrote f v l (data.take m) g w l' → w.vol.HasRoom k' → l.length + k ≤ l'.length + k' →
              ∃ e u l'', writeLoop fuel g w (data.drop m) = ((0, data.length - m), writeDone e, u) ∧
                Wrote f v l data e u l'' := by
          intro m g w l' k' hpos hm hwrote hroom' hle
          have hval := hwrote.fptr
          rw [List.length_take_of_le hm] at hval
          obtain ⟨e, u, l'', hcall, hmore⟩ := ih (data.drop m) hwrote.file hwrote.confined.grown.good hroom' (by
            intro hleft
            rw [List.length_drop] at hleft ⊢
            rw [hval, hwrote.confined.C]
            refine lt_of_eq_of_lt ?_ ((hneed (by omega)).trans_le hle)
            congr 2
            omega) (by rw [List.length_drop, hval]; omega) (by rw [List.length_drop]; omega)
          rw [List.length_drop] at hcall
          have hall := hwrote.trans hmore
          rw [List.take_append_drop] at hall
          exact ⟨e, u, l'', hcall, hall⟩
        have hsum : ∀ m, m ≤ data.length → m + (data.length - m) = data.length := fun m hm => by omega
        obtain ⟨b, g, w, l', k', hcall, hroom', hle, hcase⟩ : ∃ b g w l' k',
            (if f.inSect = 0 then writeBoundary f v data else (.buffered, f, v)) = (b, g, w) ∧ w.vol.HasRoom k' ∧
              l.length + k ≤ l'.length + k' ∧
                ((∃ m, b = .direct m [] ∧ 0 < m ∧ m ≤ data.length ∧ Wrote f v l (data.take m) (g.advance m) w l') ∨
                  b = .buffered ∧ AtSector f v l g w l') := by
          by_cases hsect : f.inSect = 0
          · rw [if_pos hsect]
            exact writeBoundary_spec h hgood hsect hroom hfirst hlt
          · rw [if_neg hsect]
            exact ⟨_, f, v, l, k, rfl, hroom, le_rfl, Or.inr ⟨rfl, atSector_within h hgood hsect⟩⟩
        rw [hcall]
        rcases hcase with ⟨m, rfl, hpos, hm, hwrote⟩ | ⟨rfl, hat⟩
        · obtain ⟨e, u, l'', hloop, hall⟩ := hrest hpos hm hwrote hroom' hle
          refine ⟨e, u, l'', ?_, hall⟩
          dsimp only
          rw [hloop]
          dsimp only
          rw [hsum m hm]
        · have hptr : g.fptr = f.fptr := by rw [hat.fil]
          obtain ⟨m, hm⟩ : ∃ m, g.fraction data.length = m := ⟨_, rfl⟩
          have hmin : min (512 - f.fptr.toNat % 512) data.length = m := by
            rw [← hm, ← hptr]
            rfl
          have hsmall := Nat.mod_lt f.fptr.toNat (show 0 < 512 by decide)
          have hwrote := hat.patched data h (m := m) (by omega) (by omega) (by omega) (by omega)
          obtain ⟨e, u, l'', hloop, hall⟩ := hrest (by omega) (by omega) hwrote hroom' hle
          refine ⟨e, u, l'', ?_, hall⟩
          dsimp only
          rw [hm, hloop]
          dsimp only
          rw [hsum m (by omega)]

end Round

end Fs
end FreakOS
