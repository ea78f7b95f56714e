import FreakOS.Krnl.Stdin

/-!
# What readers of `stdin` get

`_stdin_do_write` stores a character before it looks whether there is room.  In a full buffer the cell of the write
position is that of the oldest character, which is then lost.

* `FifoInv` — what has been accepted has been read, or is in the buffer, in the order of arrival.
* `Spares` — the character that arrives does no harm: the buffer is not full, or its oldest character is the same.
* `stdin_fifo_run` — in every run in which the characters do no harm, readers get what has been accepted.
-/

namespace FreakOS
namespace Krnl

open Lib
open Memory
open FreakOS.Krnl.System

namespace StdinSystem

/-- What a task has read, in all of its reads. -/
def readBy (s : StdinSystem) (a : U32) : List (BitVec 8) := (s.taken.filter fun x => x.1 = a).map Prod.snd

/-- Nothing is lost, and the positions are at most the length of the buffer apart. -/
structure FifoInv (s : StdinSystem) : Prop where
  fifo : s.accepted = s.taken.map Prod.snd ++ s.unread
  le : s.rpos ≤ s.wpos
  fits : s.wpos ≤ s.rpos + STDIN_BUF_LEN
  /-- What a read has put into its buffer is what its task has read last. -/
  reads : ∀ a, (s.reads a).chars <:+ s.readBy a

/-- An arriving character does no harm in a step. -/
def Spares (s : StdinSystem) (act : StdinAct) : Prop :=
  ∀ c, act = .write c → c ≠ 0 → s.Full → s.unread.head? = some c

section Fifo

variable {s s' : StdinSystem} {saved : Context}

namespace FifoInv

theorem full_iff (h : FifoInv s) : s.Full ↔ s.wpos = s.rpos + STDIN_BUF_LEN := by
  have hle := h.le
  have hfits := h.fits
  unfold Full STDIN_BUF_LEN at *
  omega

/-- A step that leaves the buffer and the reads alone. -/
theorem of_sys (h : FifoInv s) (sys : System) : FifoInv { s with sys := sys } := ⟨h.fifo, h.le, h.fits, h.reads⟩

theorem finish (h : FifoInv s) : FifoInv s.finish := ⟨h.fifo, h.le, h.fits, h.reads⟩

theorem start (h : FifoInv s) (len : U32) : FifoInv (s.start len) := by
  refine ⟨h.fifo, h.le, h.fits, fun a => ?_⟩
  by_cases ha : a = s.current
  · subst ha
    have hnil : ((s.start len).reads s.current).chars = [] := by simp [StdinSystem.start]
    rw [hnil]
    exact List.nil_suffix
  · have hsame : (s.start len).reads a = s.reads a := Function.update_of_ne ha _ _
    rw [hsame]
    exact h.reads a

/-- The oldest character is read. -/
theorem take (h : FifoInv s) (hstep : TakeStep s s') : FifoInv s' := by
  obtain ⟨hsome, htake⟩ := hstep
  obtain rfl := take_eq_ok htake
  have hfits := h.fits
  refine ⟨?_, hsome, by dsimp only; omega, fun a => ?_⟩
  · have hpop : s.unread = s.buffer (s.rpos % STDIN_BUF_LEN) :: ringList STDIN_BUF_LEN s.buffer (s.rpos + 1) s.wpos :=
      ringList_pop _ hsome
    dsimp only [StdinSystem.unread]
    rw [h.fifo, hpop]
    simp
  · unfold StdinSystem.readBy
    dsimp only
    rw [List.filter_append, List.map_append]
    by_cases ha : a = s.current
    · subst ha
      rw [Function.update_self]
      have hlast : [(s.current, s.buffer (s.rpos % STDIN_BUF_LEN))].filter (fun x => decide (x.1 = s.current)) =
          [(s.current, s.buffer (s.rpos % STDIN_BUF_LEN))] := by
        simp
      rw [hlast]
      obtain ⟨before, hbefore⟩ := h.reads s.current
      exact ⟨before, by rw [← List.append_assoc, hbefore]; rfl⟩
    · rw [Function.update_of_ne ha]
      have hlast : [(s.current, s.buffer (s.rpos % STDIN_BUF_LEN))].filter (fun x => decide (x.1 = a)) = [] := by
        simp [Ne.symm ha]
      rw [hlast, List.map_nil, List.append_nil]
      exact h.reads a

theorem takes (h : FifoInv s) (hsteps : Relation.ReflTransGen TakeStep s s') : FifoInv s' := by
  induction hsteps with
  | refl => exact h
  | tail _ hstep ih => exact ih.take hstep

/-- What a store into a full buffer does: the oldest character is replaced. -/
theorem store_full (h : FifoInv s) {c : BitVec 8} (hfull : s.Full) (hcall : s.store c = .ok s') :
    s'.unread = s.unread ↔ s.unread.head? = some c := by
  rcases store_eq_ok hcall with ⟨hroom, -⟩ | ⟨-, rfl⟩
  · exact absurd hfull hroom
  · exact ringList_overwrite_eq_iff (by decide) (h.full_iff.mp hfull)

/-- A character is stored, and does no harm. -/
theorem store (h : FifoInv s) {c : BitVec 8} (hspares : s.Full → s.unread.head? = some c)
    (hcall : s.store c = .ok s') : FifoInv s' := by
  have hle := h.le
  rcases store_eq_ok hcall with ⟨hroom, rfl⟩ | ⟨hfull, rfl⟩
  · have hlt : s.wpos < s.rpos + STDIN_BUF_LEN := by
      have hfits := h.fits
      have hne : s.wpos ≠ s.rpos + STDIN_BUF_LEN := fun heq => hroom (h.full_iff.mpr heq)
      omega
    refine ⟨?_, by dsimp only; omega, by dsimp only; omega, h.reads⟩
    have hpush : StdinSystem.unread { s with
        buffer := Function.update s.buffer (s.wpos % STDIN_BUF_LEN) c
        wpos := s.wpos + 1
        accepted := s.accepted ++ [c] } = s.unread ++ [c] := ringList_push hle hlt
    rw [hpush, ← List.append_assoc, ← h.fifo]
  · refine ⟨?_, hle, h.fits, h.reads⟩
    rw [(h.store_full hfull hcall).mpr (hspares hfull)]
    exact h.fifo

/-- One step in which the character does no harm. -/
theorem step {act : StdinAct} (h : FifoInv s) (hspares : s.Spares act) (hstep : Stepped s saved act s') :
    FifoInv s' := by
  have hsleep : ∀ {s₁ s₂ : StdinSystem}, FifoInv s₁ → s₁.sleep = .ok s₂ → FifoInv s₂ := by
    intro s₁ s₂ h₁ hcall
    obtain ⟨sys, -, rfl⟩ := sleep_eq_ok hcall
    exact h₁.of_sys sys
  cases hstep with
  | writeNul => exact h
  | @write c s₁ sys hc hstore hkeyboard => exact (h.store (hspares c rfl hc) hstore).of_sys sys
  | readAll hpc hidle htakes hret => exact ((h.start _).takes htakes).finish
  | readSleep hpc hidle htakes hret hnone hcall => exact hsleep ((h.start _).takes htakes) hcall
  | wokenAll hpc hflags htakes hret => exact ((h.of_sys _).takes htakes).finish
  | wokenSleep hpc hflags htakes hret hnone hcall => exact hsleep ((h.of_sys _).takes htakes) hcall
  | wokenBreak hpc hflags => exact (h.of_sys _).finish
  | other hact hstep => exact h.of_sys _

end FifoInv

theorem bootStdin_fifo (k : Kernel) (v : Nat → Int) (buffer : Nat → BitVec 8) : FifoInv (bootStdin k v buffer) :=
  ⟨by simp [bootStdin, StdinSystem.unread], le_rfl, Nat.zero_le _, fun _ => List.nil_suffix⟩

/-- A step in which the character that arrives does no harm. -/
def SparedStep (s s' : StdinSystem) : Prop :=
  ∃ saved act, s.step saved act = some (.ok s') ∧ s.Spares act

/-- **What readers get.**  In every run of writes and reads in which no character arrives in a full buffer whose oldest
character is another one: the characters that have been read are those that were accepted, in the order of arrival and
each once, and the others are in the buffer; the positions are at most the length of the buffer apart; and what a read
has got is what its task has read last.  In such a state the condition is exact: a character that arrives in the full
buffer leaves what is unread as it is only where the oldest character is the same. -/
theorem stdin_fifo_run (k : Kernel) (v : Nat → Int) (buffer : Nat → BitVec 8)
    (hrun : Relation.ReflTransGen SparedStep (bootStdin k v buffer) s) :
    s.accepted = s.taken.map Prod.snd ++ s.unread ∧
      (0 ≤ (s.wpos : Int) - s.rpos ∧ (s.wpos : Int) - s.rpos ≤ STDIN_BUF_LEN) ∧
      (∀ a, (s.reads a).chars <:+ s.readBy a) ∧
      ∀ saved c s', c ≠ 0 → s.Full → s.step saved (.write c) = some (.ok s') →
        (s'.unread = s.unread ↔ s.Spares (.write c)) := by
  have h : FifoInv s := by
    induction hrun with
    | refl => exact bootStdin_fifo k v buffer
    | tail _ hstep ih =>
        obtain ⟨saved, act, hstep, hspares⟩ := hstep
        exact ih.step hspares (stepped_of_step hstep)
  have hle := h.le
  have hfits := h.fits
  refine ⟨h.fifo, ⟨by omega, by omega⟩, h.reads, ?_⟩
  intro saved c s' hc hfull hstep
  have hspares : s.Spares (.write c) ↔ s.unread.head? = some c := by
    constructor
    · intro hall
      exact hall c rfl hc hfull
    · rintro hhead c' heq - -
      cases heq
      exact hhead
  rw [hspares]
  cases stepped_of_step hstep with
  | writeNul => exact absurd rfl hc
  | write _ hstore hkeyboard =>
      have hstored := h.store_full hfull hstore
      exact hstored

end Fifo

/-! ### A buffer that runs full -/

instance (s : StdinSystem) : Decidable s.Full := inferInstanceAs (Decidable (¬ _))

instance (s : StdinSystem) (act : StdinAct) : Decidable (s.Spares act) :=
  match act with
  | .write c => decidable_of_iff (c ≠ 0 → s.Full → s.unread.head? = some c) (by simp [Spares])
  | .read _ => .isTrue (by simp [Spares])
  | .woken => .isTrue (by simp [Spares])
  | .other _ => .isTrue (by simp [Spares])

/-- `init_task` asks for two characters while there is none, gets them, and a third one arrives. -/
theorem stdin_fifo_three_chars : ∃ k₀ s, initTask smallImage fortyFrames 0 = .ok k₀ ∧
    Relation.ReflTransGen SparedStep (bootStdin k₀ (fun _ => 0) fun _ => 0) s ∧
    s.taken.map Prod.snd = [97, 98] ∧ s.accepted = s.taken.map Prod.snd ++ s.unread := by
  have heval : (bootSteps (fun s act => decide (s.Spares act)) [.other (.call .yield), .read 2, .other .next, .write 97,
      .write 98, .other (.call .yield), .woken, .write 99]).map (fun x => x.2.taken.map Prod.snd) = some [97, 98] := by
    decide +kernel
  obtain ⟨⟨k₀, s⟩, hboot, htaken⟩ := Option.map_eq_some_iff.mp heval
  obtain ⟨hinit, hsteps⟩ := bootSteps_eq_some hboot
  have hrun : Relation.ReflTransGen SparedStep (bootStdin k₀ (fun _ => 0) fun _ => 0) s :=
    Relation.ReflTransGen.mono (fun _ _ ⟨saved, act, hstep, hok⟩ => ⟨saved, act, hstep, of_decide_eq_true hok⟩) _ _
      (run_of_steps hsteps)
  exact ⟨k₀, s, hinit, hrun, htaken, (stdin_fifo_run k₀ _ _ hrun).1⟩

/-- The buffer after `n` characters `'a'` have arrived in `s`. -/
def filled (s : StdinSystem) (n : Nat) : StdinSystem :=
  { s with
    buffer := fun p => if p < n then 97 else s.buffer p
    wpos := n
    accepted := List.replicate n 97 }

/-- Another `'a'` arrives. -/
theorem filled_step {s : StdinSystem} (hqueue : s.sys.stdinQueue = []) (hrpos : s.rpos = 0) (saved : Context) {n : Nat}
    (hn : n < STDIN_BUF_LEN) : (s.filled n).step saved (.write 97) = some (.ok (s.filled (n + 1))) := by
  have hbuffer : Function.update (fun p => if p < n then 97 else s.buffer p) (n % STDIN_BUF_LEN) 97 =
      fun p => if p < n + 1 then (97 : BitVec 8) else s.buffer p := by
    rw [Nat.mod_eq_of_lt hn]
    funext p
    by_cases hp : p = n
    · simp [hp]
    · have hiff : p < n + 1 ↔ p < n := by omega
      simp [hp, hiff]
  have hroom : n - s.rpos < STDIN_BUF_LEN := by omega
  -- The positions are far from the end of `int32_t`.
  have hint : ¬ (n : Int) = INT_MAX := by
    unfold STDIN_BUF_LEN at hn
    unfold INT_MAX
    omega
  have hstore : (s.filled n).store 97 = .ok (s.filled (n + 1)) := by
    unfold store
    dsimp only [filled]
    rw [if_pos hroom, if_neg hint, hbuffer, ← List.replicate_succ']
  have hnil : ¬ (s.filled (n + 1)).sys.stdinQueue ≠ [] := not_not.mpr hqueue
  simp only [step, doWrite]
  rw [if_pos (by decide), hstore]
  simp only [Res.ok_bind, if_neg hnil]
  rfl

/-- A full buffer of `'a'` is reached. -/
theorem filled_run {s : StdinSystem} (hqueue : s.sys.stdinQueue = []) (hrpos : s.rpos = 0) (hstart : s = s.filled 0)
    {n : Nat} (hn : n ≤ STDIN_BUF_LEN) : Relation.ReflTransGen StdinStep s (s.filled n) := by
  induction n with
  | zero => exact hstart ▸ .refl
  | succ n ih => exact .tail (ih (by omega)) ⟨noContext, .write 97, filled_step hqueue hrpos noContext (by omega)⟩

/-- A read of one character, while there is one. -/
theorem read_one {s : StdinSystem} (saved : Context) (hpc : s.sys.pc s.current = .run)
    (hidle : s.current ≠ s.sys.kernel.idleTask) (hsome : s.rpos < s.wpos) (hint : ¬ (s.rpos : Int) = INT_MAX) :
    ∃ s', s.step saved (.read 1) = some (.ok s') ∧
      s'.taken = s.taken ++ [(s.current, s.buffer (s.rpos % STDIN_BUF_LEN))] := by
  have hcall : s.doRead 1 = (s.start 1).tryAgain 0 := rfl
  have hstart : (s.start 1).rpos < (s.start 1).wpos := hsome
  simp only [step]
  rw [if_pos ⟨hpc, hidle⟩, hcall]
  have hint' : ¬ ((s.start 1).rpos : Int) = INT_MAX := hint
  unfold tryAgain take
  rw [if_pos hstart, if_neg hint']
  exact ⟨_, rfl, rfl⟩

/-- With 2048 characters `'a'` unread, `'b'` arrives, and the next character that is read is `'b'`: the first `'a'` is
lost. -/
theorem stdin_full_overwritten : ∃ k₀ s s₁ s₂, initTask smallImage fortyFrames 0 = .ok k₀ ∧
    Relation.ReflTransGen StdinStep (bootStdin k₀ (fun _ => 0) fun _ => 0) s ∧ s.wpos - s.rpos = STDIN_BUF_LEN ∧
    s.accepted = List.replicate STDIN_BUF_LEN 97 ∧ s.step noContext (.write 98) = some (.ok s₁) ∧
    s₁.accepted = s.accepted ∧ s₁.unread ≠ s.unread ∧ s₁.step noContext (.read 1) = some (.ok s₂) ∧
    s₂.taken.map Prod.snd = [98] := by
  have heval : (bootSteps (fun _ _ => true) [.other (.call .yield)]).map (fun x => decide (
      x.2.sys.stdinQueue = [] ∧ x.2.rpos = 0 ∧ x.2.wpos = 0 ∧ x.2.accepted = [] ∧ x.2.taken = [] ∧
      x.2.sys.pc x.2.current = .run ∧ x.2.current ≠ x.2.sys.kernel.idleTask)) = some true := by
    decide +kernel
  obtain ⟨⟨k₀, s₀⟩, hsteps, heval⟩ := Option.map_eq_some_iff.mp heval
  obtain ⟨hqueue, hrpos, hwpos, haccepted, htaken, hpc, hidle⟩ := of_decide_eq_true heval
  obtain ⟨hinit, hsteps⟩ := bootSteps_eq_some hsteps
  have hstart : s₀ = s₀.filled 0 := by
    unfold filled
    cases s₀
    simp_all
  have hboot : Relation.ReflTransGen StdinStep (bootStdin k₀ (fun _ => 0) fun _ => 0) s₀ := stdinSteps_of_steps hsteps
  dsimp only at hqueue hrpos hwpos htaken hpc hidle
  have hfull : ¬ STDIN_BUF_LEN - s₀.rpos < STDIN_BUF_LEN := by omega
  -- `'b'` is stored in the first cell.
  obtain ⟨s₁, hs₁⟩ : ∃ s₁, s₁ = { s₀.filled STDIN_BUF_LEN with
      buffer := Function.update (s₀.filled STDIN_BUF_LEN).buffer 0 98 } := ⟨_, rfl⟩
  have hwrite : (s₀.filled STDIN_BUF_LEN).step noContext (.write 98) = some (.ok s₁) := by
    rw [hs₁]
    simp only [step, doWrite, store, filled, if_neg hfull, Res.ok_bind, hqueue, Nat.mod_self]
    rfl
  have hrpos₁ : s₁.rpos = 0 := hs₁ ▸ hrpos
  have hwpos₁ : s₁.wpos = STDIN_BUF_LEN := hs₁ ▸ rfl
  have hfirst : s₁.buffer (s₁.rpos % STDIN_BUF_LEN) = 98 := by
    rw [hrpos₁, hs₁]
    simp
  obtain ⟨s₂, hread, htaken₂⟩ := read_one (s := s₁) noContext (hs₁ ▸ hpc) (hs₁ ▸ hidle)
    (by rw [hrpos₁, hwpos₁]; decide) (by rw [hrpos₁]; decide)
  refine ⟨k₀, s₀.filled STDIN_BUF_LEN, s₁, s₂, hinit, hboot.trans (filled_run hqueue hrpos hstart le_rfl), ?_, rfl, hwrite,
    ?_, ?_, hread, ?_⟩
  · exact congrArg (STDIN_BUF_LEN - ·) hrpos
  · rw [hs₁]
  · intro heq
    have hhead : s₁.unread.head? = (s₀.filled STDIN_BUF_LEN).unread.head? := congrArg List.head? heq
    have hlt : s₁.rpos < s₁.wpos := by
      rw [hrpos₁, hwpos₁]
      decide
    have hlt₀ : (s₀.filled STDIN_BUF_LEN).rpos < (s₀.filled STDIN_BUF_LEN).wpos := by
      rw [filled, hrpos]
      exact (by decide : 0 < STDIN_BUF_LEN)
    have hold : (s₀.filled STDIN_BUF_LEN).buffer ((s₀.filled STDIN_BUF_LEN).rpos % STDIN_BUF_LEN) = 97 := by
      have hzero : (s₀.filled STDIN_BUF_LEN).rpos = 0 := hrpos
      rw [hzero]
      rfl
    rw [unread, ringList_pop _ hlt, unread, ringList_pop _ hlt₀, hfirst, hold] at hhead
    exact absurd (Option.some.inj hhead) (by decide)
  · have hnil : s₁.taken = [] := hs₁ ▸ htaken
    rw [htaken₂, hnil, hfirst]
    rfl

end StdinSystem

end Krnl
end FreakOS
