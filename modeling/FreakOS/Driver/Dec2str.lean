import FreakOS.Base
import FreakOS.Lib.CString
import FreakOS.Lib.FueledLoop
import FreakOS.Lib.Numerals

/-!
# Numerals on the console

`dec2str` of `console.c`.  It stores the digits as division finds them and reverses them in place.  `str` is the memory
from the first byte of the buffer on; `int` is a word, with the negation of the processor.

* `convert`, `dec2str` — as in the source.
* `Prints` — what a call leaves in the buffer.
* `dec2str_numeral` — it is the numeral of the number, from which the number can be read.
-/

namespace FreakOS
namespace Dec2str

open Lib

/-- The memory from `str` on. -/
abbrev Memory := Nat → Char8

/-- `index`. -/
def index : List Char8 :=
  [0x30, 0x31, 0x32, 0x33, 0x34, 0x35, 0x36, 0x37, 0x38, 0x39, 0x41, 0x42, 0x43, 0x44, 0x45, 0x46, 0]

/-- `'-'`. -/
def minus : Char8 := 0x2D

/-- A round of the `do` loop, with `str`, `i` and `unum`. -/
def convert (radix : U32) : Memory × Nat × U32 → Res (Next (Memory × Nat × U32) (Memory × Nat))
  | (str, i, unum) =>
      match index[(unum % radix).toNat]? with
      | none => .error .wildPointer
      | some c =>
          let str := Function.update str i c
          if unum / radix = 0 then .ok (.leave (str, i + 1)) else .ok (.again (str, i + 1, unum / radix))

/-- The buffer, `i` and `unum` before the `do` loop. -/
def sign (num : U32) (str : Memory) (radix : U32) : Memory × Nat × U32 :=
  if radix = 10 ∧ num.slt 0 then (Function.update str 0 minus, 1, -num) else (str, 0, num)

/-- The end of `dec2str`, after the `do` loop: the terminator, and the reversal from `k` on. -/
def finish (str : Memory) (i : Nat) : Memory :=
  let str := Function.update str i 0
  let k := if str 0 = minus then 1 else 0
  Segment.swapEnds str (i - 1 + k) k ((i - 1) / 2 + 1 - k)

/-- `dec2str(num, str, radix)`; nothing when the fuel is gone. -/
def dec2str (fuel : Nat) (num : U32) (str : Memory) (radix : U32) : Res (Option Memory) := do
  let done ← runLoop (convert radix) fuel (sign num str radix)
  return done.map fun (str, i) => finish str i

/-- The memory from a place on begins with these bytes. -/
def Holds (str : Memory) (start : Nat) (bytes : List Char8) : Prop :=
  ∀ j (h : j < bytes.length), str (start + j) = bytes[j]

/-- `dec2str` returns, with this string in the buffer and all behind it as before. -/
def Prints (num radix : U32) (s : CString) : Prop :=
  ∀ str, ∃ n str', (∀ fuel, n ≤ fuel → dec2str fuel num str radix = .ok (some str')) ∧
    Holds str' 0 (s.bytes ++ [0]) ∧ ∀ x, s.bytes.length < x → str' x = str x

/-- The number that is to be printed: with a sign in radix 10 only. -/
def number (radix num : U32) : Int := if radix = 10 then num.toInt else num.toNat

/-- The character of a digit. -/
def digitChar (d : Nat) : Char8 := if d < 10 then BitVec.ofNat 8 (0x30 + d) else BitVec.ofNat 8 (0x41 + (d - 10))

/-- The digit of a character. -/
def digitValue (c : Char8) : Nat := if c.toNat < 0x41 then c.toNat - 0x30 else c.toNat - 0x41 + 10

/-- Read a numeral, with or without `'-'`. -/
def read (b : Nat) : List Char8 → Int
  | [] => 0
  | c :: bytes =>
      if c = minus then -(Numeral.value b (bytes.map digitValue) : Int)
      else Numeral.value b ((c :: bytes).map digitValue)

/-- The canonical numeral of a number. -/
def IsNumeral (b : Nat) (v : Int) (bytes : List Char8) : Prop :=
  ∃ ds, Numeral.Canonical b ds ∧ Numeral.value b ds = v.natAbs ∧
    bytes = (if v < 0 then [minus] else []) ++ ds.map digitChar

section Digits

variable {b d : Nat}

theorem index_digit : ∀ d < 16, index[d]? = some (digitChar d) := by decide

theorem digitValue_digitChar : ∀ d < 16, digitValue (digitChar d) = d := by decide

theorem digitChar_ne : ∀ d < 16, digitChar d ≠ minus ∧ digitChar d ≠ 0 := by decide

theorem map_digitValue {ds : List Nat} (h : ∀ d ∈ ds, d < 16) : (ds.map digitChar).map digitValue = ds := by
  rw [List.map_map]
  conv_rhs => rw [← List.map_id ds]
  exact List.map_congr_left fun d hd => digitValue_digitChar d (h d hd)

theorem read_minus (b : Nat) (bytes : List Char8) :
    read b (minus :: bytes) = -(Numeral.value b (bytes.map digitValue) : Int) := by
  rw [read, if_pos rfl]

theorem read_digits {c : Char8} (hc : c ≠ minus) (b : Nat) (bytes : List Char8) :
    read b (c :: bytes) = Numeral.value b ((c :: bytes).map digitValue) := by
  rw [read, if_neg hc]

/-- A numeral is read as its number. -/
theorem IsNumeral.read_eq {b : Nat} (hb : b ≤ 16) {v : Int} {bytes : List Char8} (h : IsNumeral b v bytes) :
    read b bytes = v := by
  obtain ⟨ds, hcanonical, hvalue, rfl⟩ := h
  have hlt : ∀ d ∈ ds, d < 16 := fun d hd => Nat.lt_of_lt_of_le (hcanonical.lt d hd) hb
  by_cases hneg : v < 0
  · rw [if_pos hneg]
    rw [List.singleton_append, read_minus, map_digitValue hlt, hvalue]
    omega
  · rw [if_neg hneg, List.nil_append]
    cases hds : ds with
    | nil => exact absurd hds hcanonical.nonempty
    | cons d rest =>
        have hd : digitChar d ≠ minus := (digitChar_ne d (hlt d (hds ▸ List.mem_cons_self))).1
        rw [List.map_cons, read_digits hd, ← List.map_cons, ← hds, map_digitValue hlt, hvalue]
        omega

/-- The bytes of a numeral are no terminators. -/
theorem IsNumeral.no_nul {b : Nat} (hb : b ≤ 16) {v : Int} {bytes : List Char8} (h : IsNumeral b v bytes) :
    0 ∉ bytes := by
  obtain ⟨ds, hcanonical, -, rfl⟩ := h
  intro hmem
  rw [List.mem_append] at hmem
  cases hmem with
  | inl hsign =>
      split at hsign
      · exact absurd (List.mem_singleton.mp hsign) (by decide)
      · exact List.not_mem_nil hsign
  | inr hdigit =>
      obtain ⟨d, hd, hzero⟩ := List.mem_map.mp hdigit
      exact (digitChar_ne d (Nat.lt_of_lt_of_le (hcanonical.lt d hd) hb)).2 hzero

end Digits

section Memory

variable {str : Memory} {start : Nat} {c : Char8} {bytes s t : List Char8}

theorem holds_cons : Holds str start (c :: bytes) ↔ str start = c ∧ Holds str (start + 1) bytes := by
  constructor
  · intro h
    refine ⟨h 0 (Nat.zero_lt_succ _), fun j hj => ?_⟩
    rw [Nat.add_assoc, Nat.add_comm 1 j]
    exact h (j + 1) (Nat.succ_lt_succ hj)
  · intro h j hj
    obtain ⟨hc, hbytes⟩ := h
    cases j with
    | zero => exact hc
    | succ j =>
        have hplace : start + (j + 1) = start + 1 + j := by omega
        show str (start + (j + 1)) = _
        rw [hplace]
        exact hbytes j (Nat.lt_of_succ_lt_succ hj)

/-- Memory begins with one terminated string. -/
theorem holds_unique (hs : 0 ∉ s) (ht : 0 ∉ t) (hholds : Holds str start (s ++ [0]))
    (hholds' : Holds str start (t ++ [0])) : s = t := by
  induction s generalizing t start with
  | nil =>
      cases t with
      | nil => rfl
      | cons d t =>
          have hzero := (holds_cons.mp hholds).1
          have hd := (holds_cons.mp hholds').1
          exact absurd List.mem_cons_self (hzero ▸ hd ▸ ht)
  | cons c s ih =>
      cases t with
      | nil =>
          have hc := (holds_cons.mp hholds).1
          have hzero := (holds_cons.mp hholds').1
          exact absurd List.mem_cons_self (hzero ▸ hc ▸ hs)
      | cons d t =>
          obtain ⟨hc, hrest⟩ := holds_cons.mp hholds
          obtain ⟨hd, hrest'⟩ := holds_cons.mp hholds'
          rw [← hc, ← hd, ih (fun h => hs (List.mem_cons_of_mem c h)) (fun h => ht (List.mem_cons_of_mem d h)) hrest
            hrest']

end Memory

section Loop

variable {radix : U32}

/-- The `do` loop stores the digits of `unum`. -/
theorem convert_returns (h2 : 2 ≤ radix.toNat) (h16 : radix.toNat ≤ 16) (str : Memory) (i : Nat) (unum : U32) :
    ∃ str', Returns (convert radix) (str, i, unum) (str', i + (Numeral.produced radix.toNat unum.toNat).length) ∧
      Holds str' i ((Numeral.produced radix.toNat unum.toNat).map digitChar) ∧
        ∀ x, x < i ∨ i + (Numeral.produced radix.toNat unum.toNat).length ≤ x → str' x = str x := by
  induction hn : unum.toNat using Nat.strong_induction_on generalizing str i unum with
  | _ n ih =>
      have hmod : (unum % radix).toNat = n % radix.toNat := by rw [BitVec.toNat_umod, hn]
      have hdiv : (unum / radix).toNat = n / radix.toNat := by rw [BitVec.toNat_udiv, hn]
      have hdigit : n % radix.toNat < 16 := Nat.lt_of_lt_of_le (Nat.mod_lt _ (by omega)) h16
      have hindex : index[(unum % radix).toNat]? = some (digitChar (n % radix.toNat)) := by
        rw [hmod]
        exact index_digit _ hdigit
      rw [Numeral.produced_cons h2 n]
      by_cases hlast : unum / radix = 0
      · have hzero : n / radix.toNat = 0 := by rw [← hdiv, hlast]; rfl
        rw [if_pos hzero]
        refine ⟨Function.update str i (digitChar (n % radix.toNat)), .of_leave ?_, ?_, ?_⟩
        · unfold convert
          simp only [hindex]
          rw [if_pos hlast]
          rfl
        · intro j hj
          obtain rfl : j = 0 := Nat.lt_one_iff.mp hj
          exact Function.update_self ..
        · intro x hx
          refine Function.update_of_ne ?_ _ _
          simp only [List.length_cons, List.length_nil] at hx
          omega
      · have hpos : n / radix.toNat ≠ 0 := by
          intro hzero
          exact hlast (BitVec.eq_of_toNat_eq (hdiv.trans hzero))
        have hless : n / radix.toNat < n := Nat.div_lt_self (Nat.pos_of_ne_zero fun h => hpos (by simp [h])) (by omega)
        obtain ⟨str', hret, hholds, hframe⟩ := ih (n / radix.toNat) hless
          (Function.update str i (digitChar (n % radix.toNat))) (i + 1) (unum / radix) hdiv
        rw [if_neg hpos]
        refine ⟨str', ?_, ?_, ?_⟩
        · rw [List.length_cons, ← Nat.add_assoc, Nat.add_right_comm]
          refine .of_again ?_ hret
          unfold convert
          simp only [hindex]
          rw [if_neg hlast]
        · rw [List.map_cons, holds_cons, hframe i (.inl (Nat.lt_succ_self i))]
          exact ⟨Function.update_self .., hholds⟩
        · intro x hx
          rw [List.length_cons] at hx
          rw [hframe x (by omega)]
          exact Function.update_of_ne (by omega) _ _

/-- The end of the function reverses the digits and puts the terminator behind them. -/
theorem finish_holds {str : Memory} {k : Nat} {bytes : List Char8} (hk : (if str 0 = minus then 1 else 0) = k)
    (hnonempty : bytes ≠ []) (hholds : Holds str k bytes) :
    Holds (finish str (k + bytes.length)) k (bytes.reverse ++ [0]) ∧
      ∀ x, x < k ∨ k + bytes.length < x → finish str (k + bytes.length) x = str x := by
  have hlen : 0 < bytes.length := List.length_pos_of_ne_nil hnonempty
  have hk1 : k ≤ 1 := by
    rw [← hk]
    split <;> omega
  have hend : Function.update str (k + bytes.length) 0 0 = str 0 := Function.update_of_ne (by omega) _ _
  have hfinish : ∀ x, finish str (k + bytes.length) x =
      if k ≤ x ∧ x < k + bytes.length then str (k + bytes.length - 1 + k - x)
      else Function.update str (k + bytes.length) 0 x := by
    intro x
    unfold finish
    simp only [hend, hk]
    rw [Segment.reversed _ (by omega) (by omega)]
    refine (if_congr (by omega) rfl rfl).trans (ite_congr rfl (fun hin => ?_) fun _ => rfl)
    exact Function.update_of_ne (by omega) _ _
  refine ⟨fun j hj => ?_, fun x hx => ?_⟩
  · rw [hfinish]
    rw [List.length_append, List.length_reverse, List.length_singleton] at hj
    by_cases hin : j < bytes.length
    · have hplace : k + bytes.length - 1 + k - (k + j) = k + (bytes.length - 1 - j) := by omega
      rw [if_pos (by omega), hplace, hholds _ (by omega), List.getElem_append_left (by simpa using hin),
        List.getElem_reverse]
    · obtain rfl : j = bytes.length := by omega
      rw [if_neg (by omega), Function.update_self, List.getElem_append_right (by simp)]
      simp
  · rw [hfinish, if_neg (by omega)]
    exact Function.update_of_ne (by omega) _ _

end Loop

section Call

variable {num radix : U32}

/-- `unum` is the magnitude of the number, also of the least one. -/
theorem sign_eq (num : U32) (str : Memory) (radix : U32) :
    ∃ unum : U32, unum.toNat = (number radix num).natAbs ∧
      sign num str radix =
        if number radix num < 0 then (Function.update str 0 minus, 1, unum) else (str, 0, unum) := by
  have hlt := num.isLt
  have hslt : num.slt 0 = decide (num.toInt < 0) := by rw [BitVec.slt_eq_decide]; rfl
  have hint : num.toInt = if 2 * num.toNat < 2 ^ 32 then (num.toNat : Int) else num.toNat - 2 ^ 32 := by
    rw [BitVec.toInt_eq_toNat_cond]
    rfl
  unfold sign number
  by_cases hradix : radix = 10
  · by_cases hneg : num.toInt < 0
    · refine ⟨-num, ?_, ?_⟩
      · rw [if_pos hradix, BitVec.toNat_neg]
        split at hint <;> omega
      · rw [if_pos ⟨hradix, by rw [hslt]; exact decide_eq_true hneg⟩, if_pos hradix, if_pos hneg]
    · refine ⟨num, ?_, ?_⟩
      · rw [if_pos hradix]
        split at hint <;> omega
      · rw [if_neg fun h => hneg (of_decide_eq_true (hslt ▸ h.2)), if_pos hradix, if_neg hneg]
  · refine ⟨num, ?_, ?_⟩
    · rw [if_neg hradix]
      rfl
    · rw [if_neg fun h => hradix h.1, if_neg hradix, if_neg (Int.not_lt.mpr (Int.natCast_nonneg _))]

theorem number_inj {num num' : U32} (h : number radix num = number radix num') : num = num' := by
  unfold number at h
  split at h
  · exact BitVec.toInt_inj.mp h
  · exact BitVec.eq_of_toNat_eq (Int.ofNat_inj.mp h)

/-- The string that `dec2str` prints. -/
def printed (b : Nat) (v : Int) : List Char8 :=
  (if v < 0 then [minus] else []) ++ (Numeral.digits b v.natAbs).map digitChar

theorem printed_isNumeral {b : Nat} (h2 : 2 ≤ b) (v : Int) : IsNumeral b v (printed b v) :=
  ⟨_, Numeral.canonical_digits h2 _, Numeral.value_digits _ _, rfl⟩

theorem IsNumeral.eq_printed {b : Nat} (h2 : 2 ≤ b) {v : Int} {bytes : List Char8} (h : IsNumeral b v bytes) :
    bytes = printed b v := by
  obtain ⟨ds, hcanonical, hvalue, rfl⟩ := h
  unfold printed
  rw [← hvalue, ← hcanonical.eq_digits h2]

theorem dec2str_of_returns {str str' : Memory} {i : Nat}
    (h : Returns (convert radix) (sign num str radix) (str', i)) :
    ∃ n, ∀ fuel, n ≤ fuel → dec2str fuel num str radix = .ok (some (finish str' i)) := by
  obtain ⟨n, hn⟩ := h
  refine ⟨n, fun fuel hfuel => ?_⟩
  unfold dec2str
  rw [hn fuel hfuel]
  rfl

/-- `dec2str` terminates, and prints the numeral. -/
theorem dec2str_printed (h2 : 2 ≤ radix.toNat) (h16 : radix.toNat ≤ 16) (num : U32) (str : Memory) :
    ∃ n str', (∀ fuel, n ≤ fuel → dec2str fuel num str radix = .ok (some str')) ∧
      Holds str' 0 (printed radix.toNat (number radix num) ++ [0]) ∧
        ∀ x, (printed radix.toNat (number radix num)).length < x → str' x = str x := by
  obtain ⟨unum, hunum, hsign⟩ := sign_eq num str radix
  have hnonempty : (Numeral.produced radix.toNat unum.toNat).map digitChar ≠ [] := by
    rw [Ne, List.map_eq_nil_iff]
    exact Numeral.produced_ne_nil _ _
  have hreverse : (Numeral.digits radix.toNat (number radix num).natAbs).map digitChar =
      ((Numeral.produced radix.toNat unum.toNat).map digitChar).reverse := by
    rw [← hunum, ← List.map_reverse]
    rfl
  by_cases hneg : number radix num < 0
  · rw [if_pos hneg] at hsign
    obtain ⟨str', hret, hholds, hframe⟩ := convert_returns h2 h16 (Function.update str 0 minus) 1 unum
    have hminus : str' 0 = minus := by rw [hframe 0 (.inl Nat.zero_lt_one), Function.update_self]
    obtain ⟨hdigits, hrest⟩ := finish_holds (if_pos hminus) hnonempty hholds
    rw [List.length_map] at hdigits hrest
    obtain ⟨n, hn⟩ := dec2str_of_returns (hsign ▸ hret)
    have hprinted : printed radix.toNat (number radix num) =
        minus :: ((Numeral.produced radix.toNat unum.toNat).map digitChar).reverse := by
      unfold printed
      rw [if_pos hneg, hreverse, List.singleton_append]
    rw [hprinted]
    refine ⟨n, _, hn, ?_, fun x hx => ?_⟩
    · rw [List.cons_append, holds_cons, hrest 0 (.inl Nat.zero_lt_one)]
      exact ⟨hminus, hdigits⟩
    · have hlen : 1 + (Numeral.produced radix.toNat unum.toNat).length < x := by
        simpa [Nat.add_comm] using hx
      rw [hrest x (.inr hlen), hframe x (.inr (Nat.le_of_lt hlen))]
      exact Function.update_of_ne (by omega) _ _
  · rw [if_neg hneg] at hsign
    obtain ⟨str', hret, hholds, hframe⟩ := convert_returns h2 h16 str 0 unum
    have hminus : str' 0 ≠ minus := by
      have hpos := List.length_pos_of_ne_nil hnonempty
      rw [hholds 0 hpos, List.getElem_map]
      exact (digitChar_ne _ (Nat.lt_of_lt_of_le (Numeral.produced_lt h2 _ (List.getElem_mem _)) h16)).1
    obtain ⟨hdigits, hrest⟩ := finish_holds (if_neg hminus) hnonempty hholds
    rw [List.length_map] at hdigits hrest
    obtain ⟨n, hn⟩ := dec2str_of_returns (hsign ▸ hret)
    have hprinted : printed radix.toNat (number radix num) =
        ((Numeral.produced radix.toNat unum.toNat).map digitChar).reverse := by
      unfold printed
      rw [if_neg hneg, hreverse, List.nil_append]
    rw [hprinted]
    refine ⟨n, _, hn, hdigits, fun x hx => ?_⟩
    have hlen : 0 + (Numeral.produced radix.toNat unum.toNat).length < x := by
      simpa using hx
    rw [hrest x (.inr hlen), hframe x (.inr (Nat.le_of_lt hlen))]

/-- The buffer holds one string. -/
theorem Prints.unique {s t : CString} (hs : Prints num radix s) (ht : Prints num radix t) : s = t := by
  obtain ⟨n, str, hrun, hholds, -⟩ := hs fun _ => 0
  obtain ⟨n', str', hrun', hholds', -⟩ := ht fun _ => 0
  obtain rfl : str = str' := by
    have hsame := (hrun (max n n') (by omega)).symm.trans (hrun' (max n n') (by omega))
    exact Option.some.inj (Except.ok.inj hsame)
  exact CString.ext (holds_unique s.no_nul t.no_nul hholds hholds')

/-- The string of a number in radix 10 has room in the 32 bytes of `consoleWriteDec`. -/
theorem consoleWriteDec_fits (num : U32) : (printed 10 (number 10 num)).length < 32 := by
  have hlt := num.isLt
  have hmagnitude : (number 10 num).natAbs < 10 ^ 10 := by
    have hint : num.toInt = if 2 * num.toNat < 2 ^ 32 then (num.toNat : Int) else num.toNat - 2 ^ 32 := by
      rw [BitVec.toInt_eq_toNat_cond]
      rfl
    unfold number
    rw [if_pos rfl]
    split at hint <;> omega
  have hdigits : (Numeral.digits 10 (number 10 num).natAbs).length ≤ 10 := by
    unfold Numeral.digits Numeral.produced
    rw [List.length_reverse]
    split
    · decide
    · exact (Nat.digits_length_le_iff (by decide) _).mpr hmagnitude
  unfold printed
  rw [List.length_append, List.length_map]
  split
  · exact Nat.lt_of_le_of_lt (Nat.add_le_add_left hdigits 1) (by decide)
  · exact Nat.lt_of_le_of_lt (Nat.add_le_add_left hdigits 0) (by decide)

end Call

/-- In every radix from 2 to 16, `dec2str` prints the canonical numeral of each number, which is read as the number, and
prints different strings for different numbers. -/
theorem dec2str_numeral (radix : U32) (h2 : 2 ≤ radix.toNat) (h16 : radix.toNat ≤ 16) :
    (∀ num, ∃ s, Prints num radix s ∧ IsNumeral radix.toNat (number radix num) s.bytes ∧
      read radix.toNat s.bytes = number radix num) ∧
      ∀ num num' s, Prints num radix s → Prints num' radix s → num = num' := by
  have hprints : ∀ num, ∃ s, Prints num radix s ∧ IsNumeral radix.toNat (number radix num) s.bytes := by
    intro num
    have hnumeral := printed_isNumeral h2 (number radix num)
    exact ⟨⟨_, hnumeral.no_nul h16⟩, dec2str_printed h2 h16 num, hnumeral⟩
  refine ⟨fun num => ?_, fun num num' s h h' => ?_⟩
  · obtain ⟨s, hs, hnumeral⟩ := hprints num
    exact ⟨s, hs, hnumeral, hnumeral.read_eq h16⟩
  · obtain ⟨t, ht, hnumeral⟩ := hprints num
    obtain ⟨t', ht', hnumeral'⟩ := hprints num'
    have hsame : number radix num = number radix num' := by
      rw [← hnumeral.read_eq h16, ← hnumeral'.read_eq h16, ht.unique h, ht'.unique h']
    exact number_inj hsame

/-- `dec2str_numeral` for decimal numerals. -/
theorem dec2str_numeral_ten :
    (∀ num, ∃ s, Prints num 10 s ∧ IsNumeral 10 (number 10 num) s.bytes ∧ read 10 s.bytes = number 10 num) ∧
      ∀ num num' s, Prints num 10 s → Prints num' 10 s → num = num' :=
  dec2str_numeral 10 (by decide) (by decide)

example : printed 10 (number 10 0x80000000) = [0x2D, 0x32, 0x31, 0x34, 0x37, 0x34, 0x38, 0x33, 0x36, 0x34, 0x38] := by
  decide

end Dec2str
end FreakOS
