import FreakOS.Krnl.TaskSteps

/-!
# Task ids

`get_new_tid` derives the id of a new task from the number of tasks.  So the id that a task has got is used again when
as many older tasks have left the list as younger ones have joined it, and one more.

* `UniqueTids` — no two tasks on the list have the same id.
* `Watched` — a kernel of which it is known, for each task, how many older ones have been reaped since it was forked.
* `Watched.Aged` — the id of a task is the number of older tasks, those on the list and those reaped since.
* `Spaced` — no task has outlived exactly one older task more than there are younger ones.
* `task_ids_unique` — in runs in which every `do_fork` starts from a `Spaced` state the ids are unique, and so `find_task`
  and the value of `do_fork` name one task; the first `do_fork` from another state gives an id away twice.
* `task_ids_collide` — a run in which a child is reaped before its younger sibling, and the next child gets
  the id of that sibling.
-/

namespace FreakOS
namespace Krnl

open Lib
open Memory

/-- No two tasks on the list have the same id. -/
def UniqueTids (k : Kernel) : Prop :=
  ∀ a b t u, a ∈ k.taskList → b ∈ k.taskList → k.tasks a = some t → k.tasks b = some u → t.tid = u.tid → a = b

/-- The id for the next task, which is the number of tasks, is not taken. -/
def FreshTid (k : Kernel) : Prop :=
  k.taskCount < MAX_TASKS → ∀ a t, a ∈ k.taskList → k.tasks a = some t → t.tid ≠ k.taskCount

/-- One step of a run. -/
def TaskStep (k k' : Kernel) : Prop := ∃ saved op ret, k.exec saved op = .ok (ret, k')

/-! ### Ages -/

/-- The tasks behind `a` are older: `add_task` puts a task at the front of the list. -/
def olderThan (list : List U32) (a : U32) : List U32 := (list.dropWhile (· ≠ a)).tail

@[inherit_doc olderThan] def youngerThan (list : List U32) (a : U32) : List U32 := list.takeWhile (· ≠ a)

/-- The kernel in a run, with what has happened to the tasks that are older than a task. -/
structure Watched where
  kernel : Kernel
  /-- How many older tasks have left the list since the task joined it. -/
  outlived : U32 → Nat

/-- A task has also outlived the older ones that a step takes off the list.  One that joins has outlived none. -/
def Watched.next (w : Watched) (k' : Kernel) : Watched where
  kernel := k'
  outlived a :=
    if a ∈ w.kernel.taskList then w.outlived a + (olderThan w.kernel.taskList a).countP (· ∉ k'.taskList) else 0

/-- No task has outlived exactly one older task more than there are younger ones on the list. -/
def Spaced (w : Watched) : Prop :=
  w.kernel.taskCount < MAX_TASKS →
    ∀ a ∈ w.kernel.taskList, w.outlived a ≠ (youngerThan w.kernel.taskList a).length + 1

/-- One step of a run; a `do_fork` starts from a state with `Spaced`. -/
def SpacedStep (w w' : Watched) : Prop :=
  ∃ saved op ret k', w.kernel.exec saved op = .ok (ret, k') ∧ w' = w.next k' ∧
    (∀ flags stack frame, op = .fork flags stack frame → Spaced w)

section Ages

variable {list : List U32} {a b : U32}

theorem olderThan_cons_self (list : List U32) (a : U32) : olderThan (a :: list) a = list := by
  unfold olderThan
  rw [List.dropWhile_cons_of_neg (by simp), List.tail_cons]

theorem olderThan_cons_of_ne (list : List U32) (h : b ≠ a) : olderThan (b :: list) a = olderThan list a := by
  unfold olderThan
  rw [List.dropWhile_cons_of_pos (by simpa using h)]

theorem mem_of_mem_olderThan (h : b ∈ olderThan list a) : b ∈ list :=
  (List.dropWhile_sublist _).subset (List.mem_of_mem_tail h)

/-- Every other task on the list is younger or older. -/
theorem length_by_age (ha : a ∈ list) : list.length = (youngerThan list a).length + 1 + (olderThan list a).length := by
  induction list with
  | nil => simp at ha
  | cons b list ih =>
      by_cases hb : b = a
      · subst hb
        rw [olderThan_cons_self, youngerThan, List.takeWhile_cons_of_neg (by simp)]
        simp [Nat.add_comm]
      · have hrest := ih (List.mem_of_ne_of_mem (Ne.symm hb) ha)
        rw [olderThan_cons_of_ne list hb, youngerThan, List.takeWhile_cons_of_pos (by simpa using hb), List.length_cons,
          List.length_cons]
        unfold youngerThan at hrest
        omega

theorem olderThan_filter {p : U32 → Bool} (ha : p a = true) (list : List U32) :
    olderThan (list.filter p) a = (olderThan list a).filter p := by
  induction list with
  | nil => rfl
  | cons b list ih =>
      by_cases hb : b = a
      · subst hb
        rw [List.filter_cons_of_pos ha, olderThan_cons_self, olderThan_cons_self]
      · rw [olderThan_cons_of_ne list hb, ← ih]
        by_cases hpb : p b
        · rw [List.filter_cons_of_pos hpb, olderThan_cons_of_ne _ hb]
        · rw [List.filter_cons_of_neg hpb]

/-- An older task is on the list still, or has been outlived. -/
theorem olderThan_filter_length {p : U32 → Bool} (ha : p a = true) (list : List U32) :
    (olderThan (list.filter p) a).length + (olderThan list a).countP (· ∉ list.filter p) = (olderThan list a).length := by
  have hgone : (olderThan list a).countP (· ∉ list.filter p) = (olderThan list a).countP fun b => ¬ p b := by
    refine List.countP_congr fun b hb => ?_
    simp [mem_of_mem_olderThan hb]
  rw [hgone, olderThan_filter ha, ← List.countP_eq_length_filter]
  exact (List.length_eq_countP_add_countP p).symm

end Ages

section Ids

variable {lo hi : Nat} {m₀ : Pmm} {k k' : Kernel} {used : List Extent}

theorem UniqueTids.shrunk (h : UniqueTids k) (hk : TaskInv lo hi m₀ k used) (hshrunk : Shrunk lo hi m₀ k k') :
    UniqueTids k' := by
  intro a b t' u' _ _ ht' hu' htid
  obtain ⟨t, ht, hcore⟩ := hshrunk.tasks a t' ht'
  obtain ⟨u, hu, hcore'⟩ := hshrunk.tasks b u' hu'
  refine h a b t u ((hk.live a).mpr (by simp [ht])) ((hk.live b).mpr (by simp [hu])) ht hu ?_
  rw [(Task.core_inj hcore).1, htid, (Task.core_inj hcore').1]

/-- The new task is the only one with its id. -/
theorem Forked.only {a : U32} {t : Task} (hforked : Forked lo hi m₀ k a t k')
    (hfresh : ∀ b u, b ∈ k.taskList → k.tasks b = some u → u.tid ≠ k.taskCount) {b : U32} {u : Task}
    (hb : b ∈ k'.taskList) (hu : k'.tasks b = some u) (htid : u.tid = t.tid) : b = a := by
  by_contra hne
  obtain ⟨v, hv, hcore⟩ := exists_of_map_eq (hforked.others b hne) hu
  rw [hforked.taskList] at hb
  refine hfresh b v (List.mem_of_ne_of_mem hne hb) hv ?_
  rw [(Task.core_inj hcore).1, htid, hforked.tid]

theorem UniqueTids.forked (h : UniqueTids k) {a : U32} {t : Task} (hforked : Forked lo hi m₀ k a t k')
    (hfresh : ∀ b u, b ∈ k.taskList → k.tasks b = some u → u.tid ≠ k.taskCount) : UniqueTids k' := by
  intro x y t' u' hx hy ht' hu' htid
  by_cases hxa : x = a
  · subst hxa
    obtain rfl := Option.some.inj (hforked.self.symm.trans ht')
    exact (hforked.only hfresh hy hu' htid.symm).symm
  · by_cases hya : y = a
    · subst hya
      obtain rfl := Option.some.inj (hforked.self.symm.trans hu')
      exact hforked.only hfresh hx ht' htid
    · obtain ⟨v, hv, hcore⟩ := exists_of_map_eq (hforked.others x hxa) ht'
      obtain ⟨w, hw, hcore'⟩ := exists_of_map_eq (hforked.others y hya) hu'
      rw [hforked.taskList] at hx hy
      refine h x y v w (List.mem_of_ne_of_mem hxa hx) (List.mem_of_ne_of_mem hya hy) hv hw ?_
      rw [(Task.core_inj hcore).1, htid, (Task.core_inj hcore').1]

/-- A task has as its id the number of the older tasks, of those on the list and of those it has outlived. -/
structure Watched.Aged (w : Watched) : Prop where
  count : w.kernel.taskCount.toNat = w.kernel.taskList.length
  tid : ∀ a t, a ∈ w.kernel.taskList → w.kernel.tasks a = some t →
    t.tid.toNat = (olderThan w.kernel.taskList a).length + w.outlived a

/-- The id for the next task is taken by one that has outlived one older task more than there are younger ones. -/
theorem Watched.Aged.spaced_iff {w : Watched} (h : w.Aged) (hk : TaskInv lo hi m₀ w.kernel used) :
    Spaced w ↔ FreshTid w.kernel := by
  refine imp_congr_right fun _ => ?_
  have hiff : ∀ a t, a ∈ w.kernel.taskList → w.kernel.tasks a = some t →
      (w.outlived a = (youngerThan w.kernel.taskList a).length + 1 ↔ t.tid = w.kernel.taskCount) := by
    intro a t ha ht
    have htid := h.tid a t ha ht
    have hlength := length_by_age ha
    rw [← BitVec.toNat_inj, htid, h.count]
    omega
  constructor
  · intro hspaced a t ha ht heq
    exact hspaced a ha ((hiff a t ha ht).mpr heq)
  · intro hfresh a ha heq
    obtain ⟨t, ht⟩ := Option.isSome_iff_exists.mp ((hk.live a).mp ha)
    exact hfresh a t ha ht ((hiff a t ha ht).mp heq)

/-- At most one task leaves the list: those younger than it have outlived it. -/
theorem Watched.Aged.shrunk {w : Watched} (h : w.Aged) (hk : TaskInv lo hi m₀ w.kernel used)
    (hshrunk : Shrunk lo hi m₀ w.kernel k') : (w.next k').Aged := by
  obtain ⟨used', hk'⟩ := hshrunk.inv
  have hcount := h.count
  have hlist : ∃ p : U32 → Bool, k'.taskList = w.kernel.taskList.filter p ∧
      k'.taskCount.toNat = k'.taskList.length := by
    rcases hshrunk.list with ⟨hsame, hnum⟩ | ⟨r, hr, hless, hnum⟩
    · refine ⟨fun _ => true, ?_, ?_⟩
      · rw [hsame, List.filter_true]
      · rw [hnum, hsame, hcount]
    · refine ⟨(· != r), ?_, ?_⟩
      · rw [hless, hk.nodup.erase_eq_filter]
      · have hpos := List.length_pos_of_mem hr
        rw [hnum, hless, List.length_erase_of_mem hr, ← hcount]
        exact BitVec.toNat_sub_of_le (BitVec.le_def.mpr (by rw [hcount]; exact hpos))
  obtain ⟨p, hlist, hcount'⟩ := hlist
  refine ⟨hcount', ?_⟩
  intro a t' ha ht'
  obtain ⟨t, ht, hcore⟩ := hshrunk.tasks a t' ht'
  obtain ⟨hold, hp⟩ : a ∈ w.kernel.taskList ∧ p a = true := List.mem_filter.mp (hlist ▸ ha)
  have htid := h.tid a t hold ht
  have hlength := olderThan_filter_length hp w.kernel.taskList
  rw [← (Task.core_inj hcore).1, htid]
  show _ = (olderThan k'.taskList a).length + if a ∈ w.kernel.taskList then _ else _
  rw [if_pos hold, hlist]
  omega

/-- A task that joins is younger than all others. -/
theorem Watched.Aged.forked {w : Watched} (h : w.Aged) {a : U32} {t : Task} (hcount : w.kernel.taskCount < MAX_TASKS)
    (hforked : Forked lo hi m₀ w.kernel a t k') : (w.next k').Aged := by
  have hsmall : w.kernel.taskCount.toNat < MAX_TASKS.toNat := hcount
  have hmax : MAX_TASKS.toNat < 2 ^ 32 := MAX_TASKS.isLt
  refine ⟨?_, ?_⟩
  · show k'.taskCount.toNat = k'.taskList.length
    rw [hforked.taskCount, hforked.taskList, List.length_cons, ← h.count, BitVec.toNat_add]
    show (_ + 1) % _ = _
    omega
  · intro b u hb hu
    show _ = (olderThan k'.taskList b).length + if b ∈ w.kernel.taskList then _ else _
    change b ∈ k'.taskList at hb
    rw [hforked.taskList] at hb ⊢
    by_cases hba : b = a
    · subst hba
      obtain rfl := Option.some.inj (hforked.self.symm.trans hu)
      rw [if_neg hforked.fresh, olderThan_cons_self, hforked.tid, h.count]
      rfl
    · have hold := List.mem_of_ne_of_mem hba hb
      obtain ⟨v, hv, hcore⟩ := exists_of_map_eq (hforked.others b hba) hu
      have hnone : (olderThan w.kernel.taskList b).countP (· ∉ a :: w.kernel.taskList) = 0 := by
        refine List.countP_eq_zero.mpr fun c hc => ?_
        simp [mem_of_mem_olderThan hc]
      rw [if_pos hold, hnone, olderThan_cons_of_ne _ (Ne.symm hba), ← (Task.core_inj hcore).1, h.tid b v hold hv]
      rfl

/-- One step keeps the invariant of the list, the ages and the ids. -/
theorem SpacedStep.unique {w w' : Watched} (hstep : SpacedStep w w') (hk : TaskInv lo hi m₀ w.kernel used)
    (haged : w.Aged) (h : UniqueTids w.kernel) :
    (∃ used', TaskInv lo hi m₀ w'.kernel used') ∧ w'.Aged ∧ UniqueTids w'.kernel := by
  obtain ⟨saved, op, ret, k', hcall, rfl, hop⟩ := hstep
  rcases exec_cases hk hcall with hshrunk | ⟨flags, stack, frame, a, t, rfl, hcount, -, hforked⟩
  · exact ⟨hshrunk.inv, haged.shrunk hk hshrunk, h.shrunk hk hshrunk⟩
  · have hfresh := (haged.spaced_iff hk).mp (hop flags stack frame rfl)
    exact ⟨hforked.inv, haged.forked hcount hforked, h.forked hforked (hfresh hcount)⟩

/-- The loop of `find_task` stops at a task that alone has the id. -/
theorem findTaskIn_eq {list : List U32} {a : U32} {t : Task} (hlive : ∀ b ∈ list, ∃ u, k.tasks b = some u)
    (ha : a ∈ list) (ht : k.tasks a = some t)
    (honly : ∀ b u, b ∈ list → k.tasks b = some u → t.tid = u.tid → b = a) :
    findTaskIn k t.tid list = .ok a := by
  induction list with
  | nil => simp at ha
  | cons b rest ih =>
      obtain ⟨u, hu⟩ := hlive b (List.mem_cons_self ..)
      have hread : k.task b = .ok u := task_eq_ok.mpr hu
      unfold findTaskIn
      rw [hread, Res.ok_bind]
      by_cases htid : t.tid = u.tid
      · rw [if_pos htid, honly b u (List.mem_cons_self ..) hu htid]
        rfl
      · have hne : a ≠ b := by
          rintro rfl
          exact htid (congrArg Task.tid (Option.some.inj (ht.symm.trans hu)))
        rw [if_neg htid]
        refine ih (fun c hc => hlive c (List.mem_cons_of_mem _ hc)) (List.mem_of_ne_of_mem hne ha) ?_
        intro c v hc hv
        exact honly c v (List.mem_cons_of_mem _ hc) hv

theorem UniqueTids.findTask (h : UniqueTids k) (hk : TaskInv lo hi m₀ k used) {a : U32} {t : Task}
    (ha : a ∈ k.taskList) (ht : k.tasks a = some t) : findTask k t.tid = .ok a := by
  refine findTaskIn_eq ?_ ha ht ?_
  · intro b hb
    exact Option.isSome_iff_exists.mp ((hk.live b).mp hb)
  · intro b u hb hu htid
    exact (h a b t u ha hb ht hu htid).symm

/-- The kernel as the scheduler takes over; no task has been reaped. -/
def bootWatched (k : Kernel) : Watched := ⟨k, fun _ => 0⟩

/-- The scheduler takes over with `idle_task` and `init_task` on the list. -/
theorem initTask_aged {image : KernelImage} {s : Machine} {arg : U32} (hledger : Ledger lo hi m₀ s used)
    (hcall : initTask image s arg = .ok k) :
    (∃ used', TaskInv lo hi m₀ k used') ∧ (bootWatched k).Aged ∧ UniqueTids k := by
  obtain ⟨idle, files, k₁, k₂, ret, init, halone, hfork, hret, -, rfl⟩ := initTask_cases hledger hcall
  obtain ⟨used₁, hinv⟩ := halone.inv
  have hids : UniqueTids k₁ := by
    intro a b t u ha hb _ _ _
    rw [halone.taskList, List.mem_singleton] at ha hb
    rw [ha, hb]
  have hidle : ∀ b u, b ∈ k₁.taskList → k₁.tasks b = some u → b = idle ∧ u.tid = 0 := by
    intro b u hb hu
    rw [halone.taskList, List.mem_singleton] at hb
    subst hb
    rw [halone.tasks, Function.update_self] at hu
    rw [← Option.some.inj hu]
    exact ⟨rfl, rfl⟩
  have haged : (bootWatched k₁).Aged := by
    refine ⟨by simp [bootWatched, halone.taskCount, halone.taskList], ?_⟩
    intro b u hb hu
    obtain ⟨rfl, htid⟩ := hidle b u hb hu
    simp [bootWatched, halone.taskList, htid, olderThan_cons_self]
  have hfresh : ∀ b u, b ∈ k₁.taskList → k₁.tasks b = some u → u.tid ≠ k₁.taskCount := by
    intro b u hb hu
    rw [(hidle b u hb hu).2, halone.taskCount]
    exact show (0#32) ≠ 1 by decide
  rcases doFork_cases hinv hfork with ⟨hneg, -⟩ | ⟨hcount, a, t, -, hforked⟩
  · exact absurd hneg hret
  · obtain ⟨used₂, hinv₂⟩ := hforked.inv
    have hids₂ : UniqueTids k₂ := hids.forked hforked hfresh
    have haged₂ := haged.forked hcount hforked
    refine ⟨⟨used₂, hinv₂.grow rfl rfl rfl (fun _ hu => hu) hinv₂.ledger⟩, ⟨haged₂.count, ?_⟩, hids₂⟩
    intro b u hb hu
    have hnone : ((bootWatched k₁).next k₂).outlived b = 0 := by
      show (if b ∈ k₁.taskList then 0 + _ else 0) = 0
      split
      · rw [Nat.zero_add]
        refine List.countP_eq_zero.mpr fun c hc => ?_
        have hold : c ∈ k₁.taskList := mem_of_mem_olderThan hc
        simp [hforked.taskList, hold]
      · rfl
    have htid := haged₂.tid b u hb hu
    rw [hnone] at htid
    exact htid

theorem initTask_unique {image : KernelImage} {s : Machine} {arg : U32} (hledger : Ledger lo hi m₀ s used)
    (hcall : initTask image s arg = .ok k) : (∃ used', TaskInv lo hi m₀ k used') ∧ UniqueTids k :=
  ⟨(initTask_aged hledger hcall).1, (initTask_aged hledger hcall).2.2⟩

theorem aged_of_run {image : KernelImage} {s : Machine} {arg : U32} {k₀ : Kernel} {w : Watched}
    (hledger : Ledger lo hi m₀ s used) (hinit : initTask image s arg = .ok k₀)
    (hrun : Relation.ReflTransGen SpacedStep (bootWatched k₀) w) :
    (∃ used', TaskInv lo hi m₀ w.kernel used') ∧ w.Aged ∧ UniqueTids w.kernel := by
  induction hrun with
  | refl => exact initTask_aged hledger hinit
  | tail _ hstep ih =>
      obtain ⟨⟨used', hinv⟩, haged, hids⟩ := ih
      exact hstep.unique hinv haged hids

/-- Where every `do_fork` of a run from `initTask` on starts from a state in which no task has outlived exactly one older
task more than there are younger ones, the tasks on the list have different ids, and `find_task` returns the task with the
id.  A further `do_fork` returns the id of the new task alone, and leaves the ids different, exactly if it starts from such
a state too. -/
theorem task_ids_unique (image : KernelImage) (s : Machine) (arg : U32) (k₀ : Kernel) {w : Watched}
    (hledger : Ledger lo hi m₀ s used) (hinit : initTask image s arg = .ok k₀)
    (hrun : Relation.ReflTransGen SpacedStep (bootWatched k₀) w) :
    UniqueTids w.kernel ∧
      (∀ a t, a ∈ w.kernel.taskList → w.kernel.tasks a = some t → findTask w.kernel t.tid = .ok a) ∧
      (∀ flags stack frame ret k', doFork w.kernel flags stack frame = .ok (ret, k') → 0 ≤ ret →
        ∃ a t, k'.taskList = a :: w.kernel.taskList ∧ k'.tasks a = some t ∧ t.tid.toInt = ret ∧
          (Spaced w ↔ UniqueTids k') ∧
          (Spaced w ↔ ∀ b u, b ∈ k'.taskList → k'.tasks b = some u → u.tid.toInt = ret → b = a)) := by
  obtain ⟨⟨used', hinv⟩, haged, hids⟩ := aged_of_run hledger hinit hrun
  refine ⟨hids, fun a t ha ht => hids.findTask hinv ha ht, ?_⟩
  intro flags stack frame ret k' hcall hret
  rcases doFork_cases hinv hcall with ⟨hneg, -⟩ | ⟨hcount, a, t, rfl, hforked⟩
  · omega
  · have hspaced := haged.spaced_iff hinv
    -- A task that has the id for the next one keeps it.
    have hfresh : (∀ b u, b ∈ k'.taskList → k'.tasks b = some u → u.tid.toInt = t.tid.toInt → b = a) →
        FreshTid w.kernel := by
      intro honly _ b u hb hu htid
      have hba : b ≠ a := fun heq => hforked.fresh (heq ▸ hb)
      obtain ⟨v, hv, hcore⟩ := exists_of_map_eq (hforked.others b hba).symm hu
      refine hba (honly b v (hforked.taskList ▸ List.mem_cons_of_mem _ hb) hv ?_)
      rw [(Task.core_inj hcore).1, htid, hforked.tid]
    have honly : FreshTid w.kernel →
        ∀ b u, b ∈ k'.taskList → k'.tasks b = some u → u.tid.toInt = t.tid.toInt → b = a :=
      fun h b u hb hu htid => hforked.only (h hcount) hb hu (BitVec.eq_of_toInt_eq htid)
    refine ⟨a, t, hforked.taskList, hforked.self, rfl, hspaced.trans ⟨fun h => ?_, fun h => ?_⟩,
      hspaced.trans ⟨honly, hfresh⟩⟩
    · exact hids.forked hforked (h hcount)
    · refine hfresh fun b u hb hu htid => ?_
      exact h b a u t hb (hforked.taskList ▸ List.mem_cons_self) hu hforked.self (BitVec.eq_of_toInt_eq htid)

end Ids

/-! ### Runs on a small machine -/

/-- Addresses for the runs below. -/
def smallImage : KernelImage := ⟨0xC0100000#32, 0xC0001000#32, 0xC0002000#32, 0xC0003000#32, 0x1000#32⟩

/-- Forty free frames from frame 2 on. -/
def fortyFrames : Machine :=
  ⟨⟨Function.update (memmapInitLoop reservedPages.pages 2 40) 2 ⟨2, 40, 0⟩, [2], 40⟩, 42, fun _ _ => 0, 0⟩

set_option maxRecDepth 4000 in
theorem fortyFrames_ledger : Ledger 2 42 reservedPages fortyFrames [] := by
  have hinit : ffMemmapInit (ffFreeAreaInit reservedPages) 2 40 = .ok fortyFrames.pmm := rfl
  exact ⟨ffInv_of_run hinit .refl, le_rfl, by decide⟩

/-- The steps `ops`, one after the other. -/
def Kernel.execAll (saved : Context) : List Op → Kernel → Res Kernel
  | [], k => .ok k
  | op :: ops, k => do
      let (_, k) ← k.exec saved op
      Kernel.execAll saved ops k

theorem taskSteps_of_execAll {saved : Context} {ops : List Op} {k k' : Kernel}
    (hcall : Kernel.execAll saved ops k = .ok k') : Relation.ReflTransGen TaskStep k k' := by
  induction ops generalizing k with
  | nil =>
      obtain rfl := Except.ok.inj hcall
      exact .refl
  | cons op ops ih =>
      obtain ⟨⟨ret, k₁⟩, hstep, hcall⟩ := Res.bind_eq_ok.mp hcall
      exact (ih hcall).head ⟨saved, op, ret, hstep⟩

/-- The ids on the list. -/
def Kernel.tids (k : Kernel) : List (Option U32) := k.taskList.map fun a => (k.tasks a).map Task.tid

/-- The trap frame and the registers for the runs below. -/
def noFrame : InterruptFrame := ⟨0, 0, 0, 0, 0, 0, 0, 0, 0, 0, 0, 0, 0, 0, 0, 0, 0, 0, 0⟩
@[inherit_doc noFrame] def noContext : Context := ⟨0, 0, 0, 0, 0, 0, 0, 0⟩

/-- The steps `ops`, one after the other, as long as each of them starts with an id for the next task that is not taken. -/
def Kernel.execFresh (saved : Context) : List Op → Kernel → Option Kernel
  | [], k => some k
  | op :: ops, k =>
      if some k.taskCount ∈ k.tids then none
      else (k.exec saved op).toOption.bind fun r => Kernel.execFresh saved ops r.2

theorem spacedSteps_of_execFresh {lo hi : Nat} {m₀ : Pmm} {used : List Extent} {saved : Context} {ops : List Op} {w : Watched}
    {k' : Kernel} (hk : TaskInv lo hi m₀ w.kernel used) (haged : w.Aged) (h : UniqueTids w.kernel)
    (hcall : Kernel.execFresh saved ops w.kernel = some k') :
    ∃ w', Relation.ReflTransGen SpacedStep w w' ∧ w'.kernel = k' := by
  induction ops generalizing w used with
  | nil => exact ⟨w, .refl, Option.some.inj hcall⟩
  | cons op ops ih =>
      unfold Kernel.execFresh at hcall
      split at hcall
      · cases hcall
      · rename_i hnew
        obtain ⟨r, hr, hcall⟩ := Option.bind_eq_some_iff.mp hcall
        have hfresh : FreshTid w.kernel := by
          intro _ a t ha ht htid
          exact hnew (List.mem_map.mpr ⟨a, ha, by rw [ht, Option.map_some, htid]⟩)
        have hstep : SpacedStep w (w.next r.2) :=
          ⟨saved, op, r.1, r.2, Res.toOption_eq_some.mp hr, rfl, fun _ _ _ _ => (haged.spaced_iff hk).mpr hfresh⟩
        obtain ⟨⟨used', hk'⟩, haged', h'⟩ := hstep.unique hk haged h
        obtain ⟨w', hrun, hend⟩ := ih hk' haged' h' hcall
        exact ⟨w', hrun.head hstep, hend⟩

/-- `init_task` forks two children; the second one exits and is reaped, and the next child may have its id. -/
theorem task_ids_unique_last_reaped : ∃ k₀ w, initTask smallImage fortyFrames 0 = .ok k₀ ∧
    Relation.ReflTransGen SpacedStep (bootWatched k₀) w ∧ w.kernel.taskList.length = 4 ∧
    UniqueTids w.kernel := by
  have heval : ((initTask smallImage fortyFrames 0).toOption.bind fun k₀ =>
      (k₀.execFresh noContext [.schedule, .fork 0 0 noFrame, .fork 0 0 noFrame, .schedule, .schedule, .exit 0,
        .wait 0 0, .fork 0 0 noFrame]).map fun k => k.taskList.length) = some 4 := by
    decide +kernel
  obtain ⟨k₀, hinit, heval⟩ := Option.bind_eq_some_iff.mp heval
  obtain ⟨k, hsteps, hlength⟩ := Option.map_eq_some_iff.mp heval
  have hinit := Res.toOption_eq_some.mp hinit
  obtain ⟨⟨used, hk⟩, haged, hids⟩ := initTask_aged fortyFrames_ledger hinit
  obtain ⟨w, hrun, rfl⟩ := spacedSteps_of_execFresh (w := bootWatched k₀) hk haged hids hsteps
  exact ⟨k₀, w, hinit, hrun, hlength, (task_ids_unique smallImage fortyFrames 0 k₀ fortyFrames_ledger hinit hrun).1⟩

/-- `init_task` forks two children; the first one exits and is reaped, and the next child gets the id of the
second one. -/
theorem task_ids_collide : ∃ k₀ k a b t u, initTask smallImage fortyFrames 0 = .ok k₀ ∧
    Relation.ReflTransGen TaskStep k₀ k ∧ a ∈ k.taskList ∧ b ∈ k.taskList ∧ a ≠ b ∧
    k.tasks a = some t ∧ k.tasks b = some u ∧ t.tid = u.tid := by
  have heval : (do
      let k₀ ← initTask smallImage fortyFrames 0
      let k ← k₀.execAll noContext [.schedule, .fork 0 0 noFrame, .fork 0 0 noFrame, .schedule, .exit 0,
        .schedule, .wait 0 0, .fork 0 0 noFrame]
      let t ← k.task 0xC0008000#32
      let u ← k.task 0xC000C000#32
      return (k.taskList.take 2, t.tid, u.tid) : Res _) =
        .ok ([0xC0008000#32, 0xC000C000#32], 3, 3) := by
    decide +kernel
  obtain ⟨k₀, hinit, heval⟩ := Res.bind_eq_ok.mp heval
  obtain ⟨k, hrun, heval⟩ := Res.bind_eq_ok.mp heval
  obtain ⟨t, ht, heval⟩ := Res.bind_eq_ok.mp heval
  obtain ⟨u, hu, heval⟩ := Res.bind_eq_ok.mp heval
  obtain ⟨hlist, htids⟩ := Prod.mk.inj (Except.ok.inj heval)
  obtain ⟨htid, htid'⟩ := Prod.mk.inj htids
  have hmem : ∀ a ∈ [0xC0008000#32, 0xC000C000#32], a ∈ k.taskList := by
    intro a ha
    rw [← hlist] at ha
    exact List.mem_of_mem_take ha
  exact ⟨k₀, k, _, _, t, u, hinit, taskSteps_of_execAll hrun, hmem _ (by decide), hmem _ (by decide), by decide,
    task_eq_ok.mp ht, task_eq_ok.mp hu, htid.trans htid'.symm⟩

end Krnl
end FreakOS
