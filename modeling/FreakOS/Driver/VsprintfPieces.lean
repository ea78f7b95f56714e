import FreakOS.Driver.Vsprintf

/-!
# The language of formats

What a format of `vsprintf` means, piece by piece, without the interpreter: a piece spells a part of the format, takes words
from the arguments, and stands for some bytes.

* `Piece` — a byte, or a directive with its flags, its field width, its precision and its conversion.
* `field`, `numberField` — the bytes of a conversion.
* `vsprintf_pieces` — `vsprintf` stores the bytes of the pieces that the format spells.
* `number_reads` — a number can be read from what is printed of it.
-/

namespace FreakOS
namespace Vsprintf

open Lib

/-! ### Pieces -/

/-- A flag. -/
inductive Flag where
  | left
  | plus
  | space
  | special
  | zeropad
deriving DecidableEq, Repr

def Flag.char : Flag → Char8
  | .left => byte '-'
  | .plus => byte '+'
  | .space => byte ' '
  | .special => byte '#'
  | .zeropad => byte '0'

def Flag.set (f : Flags) : Flag → Flags
  | .left => { f with left := true }
  | .plus => { f with plus := true }
  | .space => { f with space := true }
  | .special => { f with special := true }
  | .zeropad => { f with zeropad := true }

/-- A field width or a precision: a numeral, or the word of a `*`. -/
inductive Count where
  | numeral (n : Nat)
  | star (a : U32)
deriving DecidableEq, Repr

namespace Count

def fmt : Count → List Char8
  | .numeral n => (Numeral.digits 10 n).map (digitChar false)
  | .star _ => [byte '*']

def args : Count → List U32
  | .numeral _ => []
  | .star a => [a]

def value : Count → Int
  | .numeral n => n
  | .star a => a.toInt

/-- It is no `int` at the end of the range. -/
def Fits (c : Count) : Prop := c.value.natAbs + 48 < 2 ^ 31

end Count

/-- What stands between the `%` and the conversion. -/
structure Head where
  flags : List Flag
  width : Option Count
  /-- Behind a `.` there may be no number. -/
  precision : Option (Option Count)
  qualifier : Option Char8
deriving DecidableEq, Repr

namespace Head

def fmt (h : Head) : List Char8 :=
  h.flags.map Flag.char ++ ((h.width.elim [] Count.fmt) ++
    ((h.precision.elim [] fun p => byte '.' :: p.elim [] Count.fmt) ++ h.qualifier.toList))

def args (h : Head) : List U32 :=
  h.width.elim [] Count.args ++ (h.precision.elim [] fun p => p.elim [] Count.args)

/-- The flags as they are written. -/
def written (h : Head) : Flags := h.flags.foldl Flag.set ⟨false, false, false, false, false, false, false⟩

/-- A negative field width is a flag too. -/
def flagSet (h : Head) : Flags :=
  if h.width.elim false fun w => w.value < 0 then { h.written with left := true } else h.written

/-- The field width; `-1` if there is none. -/
def widthInt (h : Head) : Int := h.width.elim (-1) fun w => w.value.natAbs

/-- The precision; `-1` if there is none. -/
def precisionInt (h : Head) : Int := h.precision.elim (-1) fun p => p.elim 0 fun p => max p.value 0

structure Fits (h : Head) : Prop where
  width : ∀ w ∈ h.width, w.Fits ∧ w ≠ .numeral 0
  precision : ∀ p ∈ h.precision, ∀ c ∈ p, c.Fits
  qualifier : ∀ c ∈ h.qualifier, c = byte 'h' ∨ c = byte 'l' ∨ c = byte 'L'

end Head

/-- A conversion with its argument. -/
inductive Conv where
  | char (a : U32)
  | string (a : U32)
  | octal (a : U32)
  | pointer (a : U32)
  | hex (small : Bool) (a : U32)
  | decimal (i : Bool) (a : U32)
  | unsigned (a : U32)
  | count (ip : U32)
  | other (c : Char8)
deriving DecidableEq, Repr

def Conv.fmt : Conv → Char8
  | .char _ => byte 'c'
  | .string _ => byte 's'
  | .octal _ => byte 'o'
  | .pointer _ => byte 'p'
  | .hex small _ => if small then byte 'x' else byte 'X'
  | .decimal i _ => if i then byte 'i' else byte 'd'
  | .unsigned _ => byte 'u'
  | .count _ => byte 'n'
  | .other c => c

def Conv.args : Conv → List U32
  | .char a | .string a | .octal a | .pointer a | .hex _ a | .decimal _ a | .unsigned a | .count a => [a]
  | .other _ => []

/-- The bytes that continue a head, whatever it has. -/
def reserved : List Char8 := "-+ #0123456789*.hlL".toList.map byte

/-- The bytes of the conversions that take an argument. -/
def conversions : List Char8 := "csopxXdiun".toList.map byte

def Conv.Fits (strings : U32 → CString) : Conv → Prop
  | .string a => (strings a).bytes.length < 2 ^ 31
  | .other c => c ∉ reserved ∧ c ∉ conversions
  | _ => True

/-! ### What pieces stand for -/

/-- A field: `head` and `body`, filled up to the width. -/
def field (width : Nat) (left zero : Bool) (head body : List Char8) : List Char8 :=
  let fill := width - (head.length + body.length)
  if left then head ++ body ++ List.replicate fill (byte ' ')
  else if zero then head ++ List.replicate fill (byte '0') ++ body
  else List.replicate fill (byte ' ') ++ head ++ body

/-- The number that a word stands for. -/
def intOf (f : Flags) (a : U32) : Int := if f.sign then a.toInt else a.toNat

/-- The sign of a number. -/
def signText (f : Flags) (x : Int) : List Char8 :=
  if x < 0 then [byte '-'] else if f.plus then [byte '+'] else if f.space then [byte ' '] else []

/-- What `#` puts before the digits. -/
def prefixText (f : Flags) (base : Nat) : List Char8 :=
  if f.special then
    if base = 8 then [byte '0'] else if base = 16 then [byte '0', if f.small then byte 'x' else byte 'X'] else []
  else []

/-- The digits of a number, at least `precision` of them. -/
def digitsText (small : Bool) (base precision n : Nat) : List Char8 :=
  List.replicate (precision - (Numeral.digits base n).length) (byte '0') ++ (Numeral.digits base n).map (digitChar small)

/-- The field of a number. -/
def numberField (f : Flags) (base width precision : Nat) (a : U32) : List Char8 :=
  field width f.left f.zeropad (signText f (intOf f a) ++ prefixText f base)
    (digitsText f.small base precision (intOf f a).natAbs)

/-- The bytes of a conversion. -/
def Conv.text (strings : U32 → CString) (h : Head) : Conv → List Char8
  | .char a => field h.widthInt.toNat h.flagSet.left false [] [a.setWidth 8]
  | .string a =>
      let s := (strings a).bytes
      field h.widthInt.toNat h.flagSet.left false []
        (if h.precisionInt < 0 then s else s.take h.precisionInt.toNat)
  | .octal a => numberField h.flagSet 8 h.widthInt.toNat h.precisionInt.toNat a
  | .pointer a =>
      if h.width = none then numberField { h.flagSet with zeropad := true } 16 8 h.precisionInt.toNat a
      else numberField h.flagSet 16 h.widthInt.toNat h.precisionInt.toNat a
  | .hex small a =>
      numberField { h.flagSet with small := small } 16 h.widthInt.toNat h.precisionInt.toNat a
  | .decimal _ a => numberField { h.flagSet with sign := true } 10 h.widthInt.toNat h.precisionInt.toNat a
  | .unsigned a => numberField h.flagSet 10 h.widthInt.toNat h.precisionInt.toNat a
  | .count _ => []
  | .other c => if c = byte '%' then [c] else [byte '%', c]

/-- A piece of a format. -/
inductive Piece where
  | plain (c : Char8)
  | directive (h : Head) (v : Conv)
deriving DecidableEq, Repr

namespace Piece

def fmt : Piece → List Char8
  | .plain c => [c]
  | .directive h v => byte '%' :: (h.fmt ++ [v.fmt])

def args : Piece → List U32
  | .plain _ => []
  | .directive h v => h.args ++ v.args

def text (strings : U32 → CString) : Piece → List Char8
  | .plain c => [c]
  | .directive h v => v.text strings h

/-- Where `%n` stores the number of bytes before it. -/
def stores (before : Nat) : Piece → List (U32 × U32)
  | .directive _ (.count ip) => [(ip, BitVec.ofNat 32 before)]
  | _ => []

def Fits (strings : U32 → CString) : Piece → Prop
  | .plain c => c ≠ byte '%'
  | .directive h v => h.Fits ∧ v.Fits strings

/-- What a piece adds to what is stored. -/
def write (strings : U32 → CString) (out : Out) (p : Piece) : Out :=
  ⟨out.str ++ p.text strings, out.stores ++ p.stores out.str.length⟩

end Piece

/-! ### Fields -/

/-- `number` prints the sign apart, and the digits of what is left. -/
theorem signed_spec (f : Flags) (a : U32) :
    ∃ num, signed f a = (signText f (intOf f a), num) ∧ num.toNat = (intOf f a).natAbs := by
  have hval := BitVec.toInt_eq_toNat_cond a
  unfold signed signText intOf
  by_cases hneg : f.sign ∧ a.toInt < 0
  · refine ⟨-a, ?_, ?_⟩
    · rw [if_pos hneg, if_pos hneg.1, if_pos hneg.2]
    · have hlt := a.isLt
      rw [if_pos hneg.1, BitVec.toNat_neg]
      split at hval
      · omega
      · omega
  · have hge : ¬ (if f.sign then a.toInt else (a.toNat : Int)) < 0 := by
      split
      · rename_i hsign
        exact fun hlt => hneg ⟨hsign, hlt⟩
      · omega
    refine ⟨a, ?_, ?_⟩
    · rw [if_neg hneg, if_neg hge]
    · by_cases hsign : f.sign
      · have hge : ¬ a.toInt < 0 := fun hlt => hneg ⟨hsign, hlt⟩
        rw [if_pos hsign]
        split at hval
        · omega
        · have hlt := a.isLt
          omega
      · rw [if_neg hsign]
        rfl

theorem special_spec (f : Flags) (base : U32) : special f base = prefixText f base.toNat := by
  have hbase : ∀ n < 2 ^ 32, (base = BitVec.ofNat 32 n ↔ base.toNat = n) := by
    intro n hn
    constructor
    · rintro rfl
      exact Nat.mod_eq_of_lt hn
    · intro heq
      exact BitVec.eq_of_toNat_eq (heq.trans (Nat.mod_eq_of_lt hn).symm)
  have hletter : (digitTable f.small)[33]! = if f.small then byte 'x' else byte 'X' := by
    cases f.small <;> decide
  unfold special prefixText
  rw [hletter]
  exact if_congr Iff.rfl (if_congr (hbase 8 (by decide)) rfl (if_congr (hbase 16 (by decide)) rfl rfl)) rfl

/-- The digits, in the order of division. -/
theorem digitsTmp_spec (small : Bool) {base num : U32} (hlow : 2 ≤ base.toNat) (hhigh : base.toNat ≤ 36) :
    digitsTmp small base num = .ok ((Numeral.produced base.toNat num.toNat).map (digitChar small)) := by
  unfold digitsTmp
  by_cases hzero : num = 0
  · rw [if_pos hzero, hzero]
    cases small <;> rfl
  · have hne : num.toNat ≠ 0 := fun h => hzero (BitVec.eq_of_toNat_eq h)
    have hroom : num.toNat < base.toNat ^ 36 :=
      lt_of_lt_of_le (lt_trans num.isLt (by decide : 2 ^ 32 < 2 ^ 36)) (Nat.pow_le_pow_left hlow 36)
    unfold Numeral.produced
    rw [if_neg hzero, if_neg hne, tmpDigits_spec small hlow hhigh hroom]

theorem digitsSize_spec (f : Flags) (base : U32) {sign : List Char8} (hsign : sign.length ≤ 1) {size : Int}
    (hsize : -1 ≤ size ∧ size < 2 ^ 31) :
    digitsSize f base sign size = .ok (size - sign.length - (prefixText f base.toNat).length) := by
  have hrest : ∀ n : Int, -2 ≤ n → n < 2 ^ 31 →
      (if f.special then if base = 16 then int (n - 2) else if base = 8 then int (n - 1) else .ok n else .ok n) =
        .ok (n - (prefixText f base.toNat).length) := by
    intro n hlow hhigh
    unfold prefixText
    by_cases hspecial : f.special = true
    · rw [if_pos hspecial, if_pos hspecial]
      by_cases hhex : base = 16
      · subst hhex
        exact int_ok (by omega) (by omega)
      · by_cases hoct : base = 8
        · subst hoct
          exact int_ok (by omega) (by omega)
        · have hne : ∀ n : U32, base ≠ n → base.toNat ≠ n.toNat := fun n h heq => h (BitVec.eq_of_toNat_eq heq)
          have hzero : n = n - ([] : List Char8).length := (sub_zero n).symm
          rw [if_neg hhex, if_neg hoct, if_neg (show base.toNat ≠ 8 from hne 8 hoct),
            if_neg (show base.toNat ≠ 16 from hne 16 hhex),
            ← hzero]
    · rw [if_neg hspecial, if_neg hspecial]
      exact congrArg Except.ok (sub_zero n).symm
  unfold digitsSize
  cases sign with
  | nil =>
      show (if f.special then _ else _) = _
      rw [hrest size (by omega) hsize.2]
      exact congrArg Except.ok (congrArg (· - _) (sub_zero size).symm)
  | cons c sign =>
      have hlen : (c :: sign).length = 1 := by
        rw [List.length_cons] at hsign ⊢
        omega
      dsimp only
      rw [if_pos (List.cons_ne_nil _ _), int_ok (by omega) (by omega), Res.ok_bind, hrest _ (by omega) (by omega), hlen]
      rfl

theorem signText_length (f : Flags) (x : Int) : (signText f x).length ≤ 1 := by
  unfold signText
  split
  · exact le_rfl
  · split
    · exact le_rfl
    · split
      · exact le_rfl
      · exact Nat.zero_le 1

theorem prefixText_length (f : Flags) (base : Nat) : (prefixText f base).length ≤ 2 := by
  unfold prefixText
  split
  · split
    · exact Nat.le_succ 1
    · split
      · exact le_rfl
      · exact Nat.zero_le 2
  · exact Nat.zero_le 2

theorem padIf_spec (p : Bool) (c : Char8) (str : List Char8) {size : Int} (hsize : -2 ^ 31 < size) :
    padIf p c str size =
      .ok (str ++ List.replicate (if p then size.toNat else 0) c, if p then min 0 size - 1 else size) := by
  unfold padIf
  cases p with
  | false =>
      show _ = Except.ok (str ++ [], size)
      rw [List.append_nil]
      rfl
  | true => exact (padDown_spec c str (by decide) hsize (by decide)).trans (by rw [sub_zero]; rfl)

/-- There are no more than 32 digits. -/
theorem digits_length {base n : Nat} (hlow : 2 ≤ base) (hn : n < 2 ^ 32) : (Numeral.digits base n).length ≤ 32 := by
  unfold Numeral.digits Numeral.produced
  rw [List.length_reverse]
  split
  · decide
  · exact (Nat.digits_length_le_iff (by omega) n).mpr (lt_of_lt_of_le hn (Nat.pow_le_pow_left hlow 32))

/-- The result is a field, of which `size` is what is left to fill. -/
theorem layout_spec (type : Flags) (str head tmp : List Char8) {size precision : Int} (width : Nat)
    (hzero : type.left = true → type.zeropad = false) (htmp : tmp.length ≤ 32)
    (hprec : tmp.length ≤ precision ∧ precision < 2 ^ 31) (hsize : -2 ^ 31 + 2 < size ∧ size < 2 ^ 31)
    (hwidth : size.toNat = width - (head.length + precision.toNat)) :
    layout type str head tmp size precision = .ok (str ++ field width type.left type.zeropad head
      (List.replicate (precision.toNat - tmp.length) (byte '0') ++ tmp.reverse)) := by
  have hbody : (List.replicate (precision.toNat - tmp.length) (byte '0') ++ tmp.reverse).length = precision.toNat := by
    rw [List.length_append, List.length_replicate, List.length_reverse]
    omega
  have hzeros : (precision - tmp.length).toNat = precision.toNat - tmp.length := by omega
  -- What is left of `size` before each of the last two loops over it.
  obtain ⟨n, hn⟩ : ∃ n, (if (!(type.zeropad || type.left)) = true then min 0 size - 1 else size) = n := ⟨_, rfl⟩
  obtain ⟨m, hm⟩ : ∃ m, (if (!type.left) = true then min 0 n - 1 else n) = m := ⟨_, rfl⟩
  have hnlow : -2 ^ 31 + 1 < n := by
    rw [← hn]
    split <;> omega
  have hmlow : -2 ^ 31 < m := by
    rw [← hm]
    split <;> omega
  unfold layout
  rw [padIf_spec _ _ _ (by omega), Res.ok_bind, hn]
  dsimp only
  rw [padIf_spec _ _ _ (by omega), Res.ok_bind, hm]
  dsimp only
  rw [padDown_spec _ _ (by omega) (by omega) (by omega), Res.ok_bind, hzeros]
  dsimp only
  rw [padDown_spec _ _ (by decide) hmlow (by decide), Res.ok_bind, sub_zero]
  unfold field
  dsimp only
  rw [hbody, ← hwidth]
  show Except.ok _ = _
  congr 1
  cases hleft : type.left with
  | true =>
      have hsame : m = size := by
        rw [← hm, ← hn]
        simp [hleft]
      rw [hsame, hzero hleft]
      simp
  | false =>
      have hnone : m.toNat = 0 := by
        rw [← hm]
        simp [hleft]
      rw [hnone]
      cases hzeropad : type.zeropad with
      | true =>
          have hsame : n = size := by
            rw [← hn]
            simp [hzeropad]
          rw [hsame]
          simp [-List.replicate_append_replicate]
      | false =>
          have hspent : n.toNat = 0 := by
            rw [← hn]
            simp [hleft, hzeropad]
          rw [hspent]
          simp

/-- The left adjustment takes the zeros away. -/
theorem field_zero (width : Nat) (left zero : Bool) (head body : List Char8) :
    field width left (zero && !left) head body = field width left zero head body := by
  cases left with
  | false => rw [Bool.not_false, Bool.and_true]
  | true => rfl

/-- `number` prints a number in its field. -/
theorem number_spec (str : List Char8) (a : U32) {base : U32} (hlow : 2 ≤ base.toNat) (hhigh : base.toNat ≤ 36)
    {size precision : Int} (hsize : -1 ≤ size ∧ size < 2 ^ 31) (hprec : -1 ≤ precision ∧ precision + 48 < 2 ^ 31)
    (f : Flags) :
    number str a base size precision f = .ok (str ++ numberField f base.toNat size.toNat precision.toNat a) := by
  obtain ⟨num, hsigned, hnum⟩ := signed_spec f a
  obtain ⟨type, htype⟩ : ∃ type, (if f.left then { f with zeropad := false } else f) = type := ⟨_, rfl⟩
  have hfields : type.left = f.left ∧ type.small = f.small ∧ type.zeropad = (f.zeropad && !f.left) ∧
      signed type a = signed f a ∧ special type base = special f base ∧
      ∀ sign size, digitsSize type base sign size = digitsSize f base sign size := by
    rw [← htype]
    by_cases hleft : f.left = true
    · rw [if_pos hleft]
      exact ⟨rfl, rfl, by simp [hleft], rfl, rfl, fun _ _ => rfl⟩
    · rw [if_neg hleft]
      exact ⟨rfl, rfl, by simp [hleft], rfl, rfl, fun _ _ => rfl⟩
  obtain ⟨hleft, hsmall, hzeropad, hsign, hprefix, hsizes⟩ := hfields
  have hbase : ¬ (base < 2 ∨ 36 < base) := by
    rw [not_or, BitVec.not_lt, BitVec.not_lt]
    exact ⟨BitVec.le_def.mpr hlow, BitVec.le_def.mpr hhigh⟩
  have hsignlen := signText_length f (intOf f a)
  have hprefixlen := prefixText_length f base.toNat
  have hmag : (intOf f a).natAbs < 2 ^ 32 := by
    rw [← hnum]
    exact num.isLt
  have hdigits := digits_length hlow hmag
  unfold number
  simp only [htype]
  rw [if_neg hbase, hsign, hsigned, hprefix, special_spec, hsmall]
  dsimp only
  rw [hsizes, digitsTmp_spec f.small hlow hhigh, digitsSize_spec f base hsignlen hsize, Res.ok_bind, Res.ok_bind, hnum]
  -- `tmp` has the digits in the order of division.
  have hrev : ((Numeral.produced base.toNat (intOf f a).natAbs).map (digitChar f.small)).reverse =
      (Numeral.digits base.toNat (intOf f a).natAbs).map (digitChar f.small) := List.map_reverse.symm
  have hlen : ((Numeral.produced base.toNat (intOf f a).natAbs).map (digitChar f.small)).length =
      (Numeral.digits base.toNat (intOf f a).natAbs).length := by
    rw [List.length_map, Numeral.digits, List.length_reverse]
  generalize (Numeral.produced base.toNat (intOf f a).natAbs).map (digitChar f.small) = tmp at hrev hlen ⊢
  rw [← hlen] at hdigits
  obtain ⟨p, hp⟩ : ∃ p, (if precision < tmp.length then (tmp.length : Int) else precision) = p := ⟨_, rfl⟩
  have hple : tmp.length ≤ p ∧ p < 2 ^ 31 - 48 ∧ p.toNat - tmp.length = precision.toNat - tmp.length := by
    rw [← hp]
    split <;> omega
  have hcleared : type.left = true → type.zeropad = false := by
    intro h
    rw [hleft] at h
    rw [hzeropad, h, Bool.not_true, Bool.and_false]
  rw [hp, int_ok (by omega) (by omega), Res.ok_bind, layout_spec type str _ tmp size.toNat hcleared hdigits ⟨hple.1, by omega⟩
    (by omega) (by rw [List.length_append]; omega), hple.2.2, hleft, hzeropad, field_zero, hrev, hlen]
  rfl

theorem convertChar_spec (flags : Flags) {width : Int} (hwidth : -1 ≤ width ∧ width < 2 ^ 31) (a : U32) (args : List U32)
    (str : List Char8) : convertChar flags width (a :: args) str =
      .ok (args, str ++ field width.toNat flags.left false [] [a.setWidth 8]) := by
  have hfill : (width - 1).toNat = width.toNat - (0 + 1) := by omega
  unfold convertChar vaArg field
  cases flags.left with
  | true =>
      dsimp only
      rw [if_pos rfl, if_pos rfl, Res.ok_bind, Res.ok_bind]
      dsimp only
      rw [padPre_spec _ _ (by omega), Res.ok_bind, hfill, List.append_assoc]
      rfl
  | false =>
      have hspent : (min 0 (width - 1) - 1).toNat = 0 := by omega
      dsimp only
      rw [if_neg Bool.false_ne_true, if_neg Bool.false_ne_true, padPre_spec _ _ (by omega), Res.ok_bind, Res.ok_bind]
      dsimp only
      rw [padPre_spec _ _ (by omega), Res.ok_bind, hspent, hfill, List.replicate_zero, List.append_nil, List.append_nil,
        List.append_assoc]
      rfl

theorem convertString_spec (strings : U32 → CString) (flags : Flags) {width precision : Int}
    (hwidth : -1 ≤ width ∧ width < 2 ^ 31) (a : U32) (hlen : (strings a).bytes.length < 2 ^ 31) (args : List U32)
    (str : List Char8) : convertString strings flags width precision (a :: args) str =
      .ok (args, str ++ field width.toNat flags.left false []
        (if precision < 0 then (strings a).bytes else (strings a).bytes.take precision.toNat)) := by
  generalize hs : (strings a).bytes = s at hlen
  obtain ⟨len, hval⟩ : ∃ len : Nat, (if precision < 0 then (s.length : Int) else if precision < s.length then precision
      else s.length) = len ∧ len ≤ s.length ∧ (if precision < 0 then s else s.take precision.toNat) = s.take len := by
    split
    · exact ⟨s.length, rfl, le_rfl, List.take_length.symm⟩
    · split
      · exact ⟨precision.toNat, by omega, by omega, rfl⟩
      · exact ⟨s.length, rfl, le_rfl, by rw [List.take_of_length_le (by omega), List.take_length]⟩
  obtain ⟨hval, hle, htake⟩ := hval
  have htext : (s.take len).length = len := by rw [List.length_take, min_eq_left hle]
  have hfill : (width - len).toNat = width.toNat - (0 + len) := by omega
  unfold convertString vaArg field
  rw [Res.ok_bind]
  dsimp only
  rw [hs, hval, htake, htext]
  cases flags.left with
  | true =>
      rw [if_pos rfl, if_pos rfl, Res.ok_bind]
      dsimp only
      rw [padDown_spec _ _ (by omega) (by omega) (by omega), Res.ok_bind, hfill, Int.toNat_natCast, List.append_assoc]
      rfl
  | false =>
      have hspent : (min (len : Int) width - 1 - len).toNat = 0 := by omega
      rw [if_neg Bool.false_ne_true, if_neg Bool.false_ne_true, padDown_spec _ _ (by omega) (by omega) (by omega),
        Res.ok_bind]
      dsimp only
      rw [padDown_spec _ _ (by omega) (by omega) (by omega), Res.ok_bind, hspent, hfill, Int.toNat_natCast,
        List.replicate_zero, List.append_nil, List.append_nil, List.append_assoc]
      rfl

theorem convertNumber_spec {base : U32} (hlow : 2 ≤ base.toNat) (hhigh : base.toNat ≤ 36) (flags : Flags)
    {width precision : Int} (hwidth : -1 ≤ width ∧ width < 2 ^ 31) (hprec : -1 ≤ precision ∧ precision + 48 < 2 ^ 31)
    (a : U32)
    (args : List U32) (str : List Char8) : convertNumber base flags width precision (a :: args) str =
      .ok (args, str ++ numberField flags base.toNat width.toNat precision.toNat a) := by
  unfold convertNumber vaArg
  rw [Res.ok_bind]
  dsimp only
  rw [number_spec str a hlow hhigh hwidth hprec flags]
  rfl

/-! ### Directives -/

namespace Head

variable {h : Head}

theorem Fits.widthInt (hfits : h.Fits) : -1 ≤ h.widthInt ∧ h.widthInt < 2 ^ 31 := by
  unfold Head.widthInt
  cases hw : h.width with
  | none => decide
  | some w =>
      have := (hfits.width w hw).1
      unfold Count.Fits at this
      dsimp only [Option.elim]
      omega

theorem Fits.precisionInt (hfits : h.Fits) : -1 ≤ h.precisionInt ∧ h.precisionInt + 48 < 2 ^ 31 := by
  unfold Head.precisionInt
  cases hp : h.precision with
  | none => decide
  | some p =>
      cases hc : p with
      | none => decide
      | some c =>
          have := hfits.precision p hp c hc
          unfold Count.Fits at this
          dsimp only [Option.elim]
          omega

theorem foldl_set_sign (fs : List Flag) (f : Flags) :
    (fs.foldl Flag.set f).sign = f.sign ∧ (fs.foldl Flag.set f).small = f.small := by
  induction fs generalizing f with
  | nil => exact ⟨rfl, rfl⟩
  | cons x fs ih =>
      have hset : (Flag.set f x).sign = f.sign ∧ (Flag.set f x).small = f.small := by
        cases x <;> exact ⟨rfl, rfl⟩
      rw [List.foldl_cons, (ih _).1, (ih _).2]
      exact hset

/-- The flags are those of the program, which has more of them. -/
theorem flagSet_small (h : Head) : { h.flagSet with small := false } = h.flagSet := by
  have hsmall : h.flagSet.small = false := by
    unfold flagSet
    split
    · exact (foldl_set_sign h.flags _).2
    · exact (foldl_set_sign h.flags _).2
  rw [← hsmall]

end Head

/-- A conversion stores its text. -/
theorem convert_spec (strings : U32 → CString) {h : Head} (hfits : h.Fits) {v : Conv} (hv : v.Fits strings)
    (more : List U32) (out : Out) :
    convert strings h.flagSet h.widthInt h.precisionInt v.fmt (v.args ++ more) out =
      .ok (more, (Piece.directive h v).write strings out) := by
  have hw := hfits.widthInt
  have hp := hfits.precisionInt
  have hnumber : ∀ (base : U32) (flags : Flags) {width : Int}, -1 ≤ width ∧ width < 2 ^ 31 → ∀ a : U32,
      2 ≤ base.toNat → base.toNat ≤ 36 →
      (convertNumber base flags width h.precisionInt (a :: more) out.str >>= fun r => .ok (r.1, { out with str := r.2 })) =
        .ok (more, ⟨out.str ++ numberField flags base.toNat width.toNat h.precisionInt.toNat a, out.stores⟩) := by
    intro base flags width hwidth a hlow hhigh
    rw [convertNumber_spec hlow hhigh flags hwidth hp]
    rfl
  have hsame : ∀ str, (Except.ok (more, ⟨str, out.stores⟩) : Res (List U32 × Out)) = .ok (more, ⟨str, out.stores ++ []⟩) := by
    intro str
    rw [List.append_nil]
  cases v with
  | char a =>
      show (convertChar h.flagSet h.widthInt (a :: more) out.str >>= fun r => Except.ok (r.1, { out with str := r.2 })) = _
      rw [convertChar_spec _ hw]
      exact hsame _
  | string a =>
      show (convertString strings h.flagSet h.widthInt h.precisionInt (a :: more) out.str >>= fun r =>
        Except.ok (r.1, { out with str := r.2 })) = _
      rw [convertString_spec strings _ hw a hv]
      exact hsame _
  | octal a => exact (hnumber 8 h.flagSet hw a (by decide) (by decide)).trans (hsame _)
  | pointer a =>
      show (if h.widthInt = -1 then _ else _) = Except.ok (more, (⟨out.str ++ (if h.width = none then _ else _), _⟩ : Out))
      by_cases hnone : h.width = none
      · have hwidth : h.widthInt = -1 := by
          unfold Head.widthInt
          rw [hnone]
          rfl
        rw [if_pos hwidth, if_pos hnone]
        exact (hnumber 16 { h.flagSet with zeropad := true } ⟨by decide, by decide⟩ a (by decide) (by decide)).trans (hsame _)
      · have hwidth : h.widthInt ≠ -1 := by
          unfold Head.widthInt
          cases hw : h.width with
          | none => exact absurd hw hnone
          | some w =>
              dsimp only [Option.elim]
              omega
        rw [if_neg hwidth, if_neg hnone]
        exact (hnumber 16 h.flagSet hw a (by decide) (by decide)).trans (hsame _)
  | hex small a =>
      cases small with
      | true => exact (hnumber 16 _ hw a (by decide) (by decide)).trans (hsame _)
      | false =>
          have hhex := (hnumber 16 h.flagSet hw a (by decide) (by decide)).trans (hsame _)
          rw [← h.flagSet_small] at hhex
          nth_rewrite 1 [h.flagSet_small] at hhex
          exact hhex
  | decimal i a =>
      cases i with
      | true => exact (hnumber 10 _ hw a (by decide) (by decide)).trans (hsame _)
      | false => exact (hnumber 10 _ hw a (by decide) (by decide)).trans (hsame _)
  | unsigned a => exact (hnumber 10 _ hw a (by decide) (by decide)).trans (hsame _)
  | count ip =>
      show Except.ok (more, Out.mk out.str _) = Except.ok (more, Out.mk (out.str ++ []) _)
      rw [List.append_nil]
      rfl
  | other c =>
      obtain ⟨-, hother⟩ := hv
      have hne : ∀ d ∈ conversions, c ≠ d := fun d hd heq => hother (heq ▸ hd)
      show convert strings h.flagSet h.widthInt h.precisionInt c more out = _
      unfold convert
      rw [if_neg (hne _ (by decide)), if_neg (hne _ (by decide)), if_neg (hne _ (by decide)), if_neg (hne _ (by decide)),
        if_neg (hne _ (by decide)), if_neg (hne _ (by decide)),
        if_neg (not_or.mpr ⟨hne _ (by decide), hne _ (by decide)⟩), if_neg (hne _ (by decide)), if_neg (hne _ (by decide))]
      by_cases hpercent : c = byte '%'
      · rw [if_neg (not_not.mpr hpercent), List.append_nil]
        show _ = Except.ok (more, Out.mk (out.str ++ if c = byte '%' then [c] else [byte '%', c]) (out.stores ++ []))
        rw [if_pos hpercent, List.append_nil]
      · rw [if_pos hpercent, List.append_assoc]
        show _ = Except.ok (more, Out.mk (out.str ++ if c = byte '%' then [c] else [byte '%', c]) (out.stores ++ []))
        rw [if_neg hpercent, List.append_nil]
        rfl

/-! ### Heads -/

/-- What follows starts with none of these bytes. -/
def StartsOff (rest : List Char8) (bytes : List Char8) : Prop := ∀ c ∈ rest.head?, c ∉ bytes

theorem takeFlags_spec (fs : List Flag) (f : Flags) {rest : List Char8} (hrest : StartsOff rest ("-+ #0".toList.map byte)) :
    takeFlags f (fs.map Flag.char ++ rest) = (fs.foldl Flag.set f, rest) := by
  induction fs generalizing f with
  | nil =>
      cases rest with
      | nil => rfl
      | cons c rest =>
          have hne : ∀ d ∈ "-+ #0".toList.map byte, c ≠ d := fun d hd heq => hrest c rfl (heq ▸ hd)
          show takeFlags f (c :: rest) = _
          unfold takeFlags
          rw [if_neg (hne _ (by decide)), if_neg (hne _ (by decide)), if_neg (hne _ (by decide)), if_neg (hne _ (by decide)),
            if_neg (hne _ (by decide))]
          rfl
  | cons x fs ih =>
      have hstep : takeFlags f (x.char :: (fs.map Flag.char ++ rest)) =
          takeFlags (Flag.set f x) (fs.map Flag.char ++ rest) := by
        cases x <;> rfl
      exact hstep.trans (ih _)

/-- A numeral begins with a digit, and with `0` only if it is `0`. -/
theorem numeral_fmt (n : Nat) : ∃ c s, (Numeral.digits 10 n).map (digitChar false) = c :: s ∧ isDigit c ∧
    (n ≠ 0 → c ≠ byte '0') := by
  have hcanon := Numeral.canonical_digits (b := 10) (by decide) n
  obtain ⟨d, ds, hds⟩ := List.exists_cons_of_ne_nil hcanon.nonempty
  have hlt := hcanon.lt d (by rw [hds]; exact List.mem_cons_self)
  refine ⟨digitChar false d, ds.map (digitChar false), by rw [hds]; rfl, (digit_spec d hlt).1, ?_⟩
  intro hne hzero
  have hchar : ∀ e < 10, digitChar false e = byte '0' → e = 0 := by decide
  have hd := hchar d hlt hzero
  subst hd
  have hall := hcanon.leading (by rw [hds]; rfl)
  have hval := Numeral.value_digits 10 n
  rw [hall] at hval
  exact hne hval.symm

/-- `skip_atoi` reads the numeral of a number. -/
theorem skipAtoi_numeral {n : Nat} (hn : n + 48 < 2 ^ 31) {rest : List Char8}
    (hrest : StartsOff rest ("0123456789".toList.map byte)) :
    skipAtoi 0 ((Numeral.digits 10 n).map (digitChar false) ++ rest) = .ok ((n : Int), rest) := by
  have hoff : ∀ c ∈ rest.head?, ¬ isDigit c := by
    intro c hc hdigit
    have hall : ∀ c : Char8, isDigit c → c ∈ "0123456789".toList.map byte := by decide
    exact hrest c hc (hall c hdigit)
  have hval := Numeral.value_digits 10 n
  have hread := skipAtoi_spec (Numeral.digits 10 n) (fun d hd => Numeral.produced_lt (by decide) d (List.mem_reverse.mp hd))
    hoff (i := 0) (by rw [hval, Nat.zero_mul]; omega)
  rw [hval, Nat.zero_mul, Nat.zero_add] at hread
  exact hread

theorem StartsOff.mono {rest bytes bytes' : List Char8} (h : StartsOff rest bytes) (hsub : bytes' ⊆ bytes) :
    StartsOff rest bytes' := fun c hc hmem => h c hc (hsub hmem)

theorem fieldWidth_spec {w : Option Count} (hfits : ∀ c ∈ w, c.Fits) (flags : Flags) (more : List U32) {rest : List Char8}
    (hrest : StartsOff rest ("0123456789*".toList.map byte)) :
    fieldWidth flags (w.elim [] Count.args ++ more) (w.elim [] Count.fmt ++ rest) =
      .ok (w.elim (-1) fun c => c.value.natAbs,
        if w.elim false fun c => c.value < 0 then { flags with left := true } else flags, more, rest) := by
  have hdigits : StartsOff rest ("0123456789".toList.map byte) := hrest.mono (by decide)
  have hoff : ∀ c ∈ rest.head?, ¬ isDigit c ∧ c ≠ byte '*' := by
    intro c hc
    have hall : ∀ c : Char8, isDigit c ∨ c = byte '*' → c ∈ "0123456789*".toList.map byte := by decide
    exact not_or.mp fun h => hrest c hc (hall c h)
  cases w with
  | none =>
      cases rest with
      | nil => rfl
      | cons c rest =>
          obtain ⟨hdigit, hstar⟩ := hoff c rfl
          show fieldWidth flags more (c :: rest) = _
          unfold fieldWidth
          dsimp only
          rw [if_neg hdigit, if_neg hstar]
          rfl
  | some w =>
      have hfit : w.value.natAbs + 48 < 2 ^ 31 := hfits w rfl
      cases w with
      | numeral n =>
          obtain ⟨c, s, hfmt, hdigit, -⟩ := numeral_fmt n
          have hread := skipAtoi_numeral (n := n) hfit hdigits
          have hneg : ¬ ((n : Int) < 0) := by omega
          show fieldWidth flags more ((Numeral.digits 10 n).map (digitChar false) ++ rest) = _
          rw [hfmt, List.cons_append] at hread ⊢
          unfold fieldWidth
          dsimp only
          rw [if_pos hdigit, hread]
          show Except.ok _ = Except.ok ((n : Int), (if decide ((n : Int) < 0) then _ else _), more, rest)
          rw [decide_eq_false hneg]
          rfl
      | star a =>
          have hval : a.toInt.natAbs + 48 < 2 ^ 31 := hfit
          show (if a.toInt < 0 then int (-a.toInt) >>= fun width => Except.ok (width, { flags with left := true }, more, rest)
            else Except.ok (a.toInt, flags, more, rest)) =
              Except.ok ((a.toInt.natAbs : Int), (if decide (a.toInt < 0) then _ else _), more, rest)
          by_cases hneg : a.toInt < 0
          · rw [if_pos hneg, int_ok (by omega) (by omega), decide_eq_true hneg,
              show (a.toInt.natAbs : Int) = -a.toInt by omega]
            rfl
          · rw [if_neg hneg, decide_eq_false hneg, show (a.toInt.natAbs : Int) = a.toInt by omega]
            rfl

theorem precisionCount_spec {p : Option Count} (hfits : ∀ c ∈ p, c.Fits) (more : List U32) {rest : List Char8}
    (hrest : StartsOff rest ("0123456789*".toList.map byte)) :
    precisionCount (p.elim [] Count.args ++ more) (p.elim [] Count.fmt ++ rest) =
      .ok (p.elim (-1) Count.value, more, rest) := by
  have hdigits : StartsOff rest ("0123456789".toList.map byte) := hrest.mono (by decide)
  have hoff : ∀ c ∈ rest.head?, ¬ isDigit c ∧ c ≠ byte '*' := by
    intro c hc
    have hall : ∀ c : Char8, isDigit c ∨ c = byte '*' → c ∈ "0123456789*".toList.map byte := by decide
    exact not_or.mp fun h => hrest c hc (hall c h)
  cases p with
  | none =>
      cases rest with
      | nil => rfl
      | cons c rest =>
          obtain ⟨hdigit, hstar⟩ := hoff c rfl
          show precisionCount more (c :: rest) = _
          unfold precisionCount
          dsimp only
          rw [if_neg hdigit, if_neg hstar]
          rfl
  | some p =>
      cases p with
      | numeral n =>
          obtain ⟨c, s, hfmt, hdigit, -⟩ := numeral_fmt n
          have hread := skipAtoi_numeral (n := n) (hfits _ rfl) hdigits
          show precisionCount more ((Numeral.digits 10 n).map (digitChar false) ++ rest) = _
          rw [hfmt, List.cons_append] at hread ⊢
          unfold precisionCount
          dsimp only
          rw [if_pos hdigit, hread]
          rfl
      | star a => rfl

theorem takePrecision_spec {p : Option (Option Count)} (hfits : ∀ q ∈ p, ∀ c ∈ q, c.Fits) (more : List U32)
    {rest : List Char8} (hrest : StartsOff rest ("0123456789*.".toList.map byte)) :
    takePrecision ((p.elim [] fun q => q.elim [] Count.args) ++ more)
        ((p.elim [] fun q => byte '.' :: q.elim [] Count.fmt) ++ rest) =
      .ok (p.elim (-1) fun q => q.elim 0 fun c => max c.value 0, more, rest) := by
  cases p with
  | none =>
      cases rest with
      | nil => rfl
      | cons c rest =>
          have hne : c ≠ byte '.' := fun heq => hrest c rfl (by rw [heq]; decide)
          show takePrecision more (c :: rest) = _
          unfold takePrecision
          dsimp only
          rw [if_neg hne]
          rfl
  | some q =>
      have hcount := precisionCount_spec (hfits q rfl) more (hrest.mono (by decide))
      show (precisionCount (q.elim [] Count.args ++ more) (q.elim [] Count.fmt ++ rest) >>= fun r =>
        Except.ok (if r.1 < 0 then 0 else r.1, r.2.1, r.2.2)) = _
      rw [hcount]
      show Except.ok ((if q.elim (-1) Count.value < 0 then 0 else q.elim (-1) Count.value), more, rest) =
        Except.ok ((q.elim 0 fun c => max c.value 0), more, rest)
      congr 2
      cases q with
      | none => rfl
      | some c =>
          show (if c.value < 0 then 0 else c.value) = max c.value 0
          split <;> omega

theorem skipQualifier_spec {q : Option Char8} (hq : ∀ c ∈ q, c = byte 'h' ∨ c = byte 'l' ∨ c = byte 'L') {c : Char8}
    (hc : c ∉ "hlL".toList.map byte) (tail : List Char8) : skipQualifier (q.toList ++ c :: tail) = c :: tail := by
  cases q with
  | none =>
      have hne : ¬ (c = byte 'h' ∨ c = byte 'l' ∨ c = byte 'L') := by
        rintro (rfl | rfl | rfl)
        · exact hc (by decide)
        · exact hc (by decide)
        · exact hc (by decide)
      exact if_neg hne
  | some d => exact if_pos (hq d rfl)

theorem Conv.fmt_unreserved {strings : U32 → CString} {v : Conv} (hv : v.Fits strings) : v.fmt ∉ reserved := by
  have hall : ∀ c ∈ conversions, c ∉ reserved := by decide
  cases v with
  | char a => exact hall (byte 'c') (by decide)
  | string a => exact hall (byte 's') (by decide)
  | octal a => exact hall (byte 'o') (by decide)
  | pointer a => exact hall (byte 'p') (by decide)
  | hex small a => exact hall (if small then byte 'x' else byte 'X') (by cases small <;> decide)
  | decimal i a => exact hall (if i then byte 'i' else byte 'd') (by cases i <;> decide)
  | unsigned a => exact hall (byte 'u') (by decide)
  | count ip => exact hall (byte 'n') (by decide)
  | other c => exact hv.1

/-- What follows a part that starts with none of these bytes, if the part does not. -/
theorem StartsOff.append {s rest bytes : List Char8} (hs : StartsOff s bytes) (hrest : StartsOff rest bytes) :
    StartsOff (s ++ rest) bytes := by
  cases s with
  | nil => exact hrest
  | cons c s => exact hs

namespace Head

variable {h : Head}

theorem Fits.qualifier_off (hfits : h.Fits) : StartsOff h.qualifier.toList ("-+ #0123456789*.".toList.map byte) := by
  cases hq : h.qualifier with
  | none => exact nofun
  | some c =>
      rintro d ⟨⟩
      rcases hfits.qualifier c hq with rfl | rfl | rfl
      · decide
      · decide
      · decide

theorem precision_off (h : Head) :
    StartsOff (h.precision.elim [] fun p => byte '.' :: p.elim [] Count.fmt) ("-+ #0123456789*".toList.map byte) := by
  cases h.precision with
  | none => exact nofun
  | some p =>
      rintro d ⟨⟩
      decide

theorem Fits.width_off (hfits : h.Fits) : StartsOff (h.width.elim [] Count.fmt) ("-+ #0".toList.map byte) := by
  cases hw : h.width with
  | none => exact nofun
  | some w =>
      cases w with
      | star a =>
          rintro d ⟨⟩
          decide
      | numeral n =>
          obtain ⟨c, s, hfmt, hdigit, hzero⟩ := numeral_fmt n
          have hne : n ≠ 0 := by
            rintro rfl
            exact (hfits.width _ hw).2 rfl
          have hall : ∀ c : Char8, isDigit c → c ≠ byte '0' → c ∉ "-+ #0".toList.map byte := by decide
          show StartsOff ((Numeral.digits 10 n).map (digitChar false)) _
          rw [hfmt]
          rintro d ⟨⟩
          exact hall c hdigit (hzero hne)

end Head

/-- A directive takes its arguments and stores its text. -/
theorem directive_spec (strings : U32 → CString) {h : Head} (hfits : h.Fits) {v : Conv} (hv : v.Fits strings)
    (tail : List Char8) (more : List U32) (out : Out) :
    directive strings (h.fmt ++ v.fmt :: tail) (h.args ++ (v.args ++ more)) out =
      .ok (tail, more, (Piece.directive h v).write strings out) := by
  have hunreserved : ∀ bytes ⊆ reserved, StartsOff (v.fmt :: tail) bytes := by
    rintro bytes hsub d ⟨⟩ hmem
    exact Conv.fmt_unreserved hv (hsub hmem)
  have hqualifier : StartsOff (h.qualifier.toList ++ v.fmt :: tail) ("-+ #0123456789*.".toList.map byte) :=
    hfits.qualifier_off.append (hunreserved _ (by decide))
  have hprecision := h.precision_off.append (hqualifier.mono (by decide))
  have hwidth := hfits.width_off.append (hprecision.mono (by decide))
  unfold directive Head.fmt Head.args
  simp only [List.append_assoc]
  rw [takeFlags_spec _ _ hwidth]
  dsimp only
  rw [fieldWidth_spec (fun c hc => (hfits.width c hc).1) _ _ (hprecision.mono (by decide)), Res.ok_bind]
  dsimp only
  rw [takePrecision_spec hfits.precision _ (hqualifier.mono (by decide)), Res.ok_bind]
  dsimp only
  rw [skipQualifier_spec hfits.qualifier (fun hmem => hunreserved _ (show _ ⊆ reserved by decide) _ rfl hmem)]
  have hconvert := convert_spec strings hfits hv more out
  unfold Head.flagSet Head.written Head.widthInt Head.precisionInt at hconvert
  dsimp only
  rw [hconvert]
  rfl

/-! ### The format -/

/-- The loop takes one piece after the other. -/
theorem vsprintfLoop_pieces (strings : U32 → CString) {ps : List Piece} (hfits : ∀ p ∈ ps, p.Fits strings) {fuel : Nat}
    (hfuel : (ps.flatMap Piece.fmt).length ≤ fuel) (more : List U32) (out : Out) :
    vsprintfLoop strings fuel (ps.flatMap Piece.fmt) (ps.flatMap Piece.args ++ more) out =
      .ok (ps.foldl (Piece.write strings) out) := by
  induction ps generalizing fuel out with
  | nil =>
      cases fuel with
      | zero => rfl
      | succ fuel => rfl
  | cons p ps ih =>
      have hrest := fun q hq => hfits q (List.mem_cons_of_mem _ hq)
      rw [List.flatMap_cons, List.length_append] at hfuel
      rw [List.flatMap_cons, List.flatMap_cons, List.foldl_cons]
      cases p with
      | plain c =>
          have hne : c ≠ byte '%' := hfits _ List.mem_cons_self
          rw [show (Piece.plain c).fmt.length = 1 from rfl] at hfuel
          obtain ⟨fuel, rfl⟩ : ∃ n, fuel = n + 1 := ⟨fuel - 1, by omega⟩
          have hout : (Piece.plain c).write strings out = { out with str := out.str ++ [c] } := by
            show Out.mk _ (out.stores ++ []) = _
            rw [List.append_nil]
            rfl
          show (if c ≠ byte '%' then _ else _) = _
          rw [if_pos hne, hout]
          exact ih hrest (by omega) _
      | directive h v =>
          obtain ⟨hh, hv⟩ : h.Fits ∧ v.Fits strings := hfits _ List.mem_cons_self
          rw [show (Piece.directive h v).fmt.length = (h.fmt ++ [v.fmt]).length + 1 from rfl] at hfuel
          obtain ⟨fuel, rfl⟩ : ∃ n, fuel = n + 1 := ⟨fuel - 1, by omega⟩
          have hone := directive_spec strings hh hv (ps.flatMap Piece.fmt) (ps.flatMap Piece.args ++ more) out
          have hfmt : (Piece.directive h v).fmt ++ ps.flatMap Piece.fmt =
              byte '%' :: (h.fmt ++ v.fmt :: ps.flatMap Piece.fmt) := by
            show byte '%' :: (h.fmt ++ [v.fmt]) ++ _ = _
            rw [List.cons_append, List.append_assoc]
            rfl
          have hargs : (Piece.directive h v).args ++ ps.flatMap Piece.args ++ more =
              h.args ++ (v.args ++ (ps.flatMap Piece.args ++ more)) := by
            show h.args ++ v.args ++ _ ++ _ = _
            rw [List.append_assoc, List.append_assoc]
          rw [hfmt, hargs]
          show (if byte '%' ≠ byte '%' then _ else _) = _
          rw [if_neg (not_not.mpr rfl), hone, Res.ok_bind]
          exact ih hrest (by omega) _

/-- `vsprintf` stores the bytes of the pieces that its format spells, with arguments of their own, one after the other. -/
theorem vsprintf_pieces (strings : U32 → CString) (fmt : CString) {ps : List Piece} (hfmt : fmt.bytes = ps.flatMap Piece.fmt)
    (hfits : ∀ p ∈ ps, p.Fits strings) (more : List U32) :
    ∃ out, vsprintf strings fmt (ps.flatMap Piece.args ++ more) = .ok out ∧ out.str = ps.flatMap (Piece.text strings) ∧
      out = ps.foldl (Piece.write strings) ⟨[], []⟩ := by
  have hstr : ∀ (ps : List Piece) (out : Out),
      (ps.foldl (Piece.write strings) out).str = out.str ++ ps.flatMap (Piece.text strings) := by
    intro ps
    induction ps with
    | nil => exact fun out => (List.append_nil _).symm
    | cons p ps ih =>
        intro out
        rw [List.foldl_cons, ih, List.flatMap_cons, ← List.append_assoc]
        rfl
  refine ⟨_, ?_, hstr ps ⟨[], []⟩, rfl⟩
  unfold vsprintf
  rw [hfmt]
  exact vsprintfLoop_pieces strings hfits le_rfl more _

/-- `a=%-*d%%`. -/
def smallPieces : List Piece :=
  [.plain (byte 'a'), .plain (byte '='), .directive ⟨[.left], some (.star 4), none, none⟩ (.decimal false (-5)),
    .directive ⟨[], none, none, none⟩ (.other (byte '%'))]

theorem vsprintf_pieces_small : ∃ out,
    vsprintf (fun _ => .empty) ⟨smallPieces.flatMap Piece.fmt, by decide⟩ [4, -5] = .ok out ∧
    out.str = smallPieces.flatMap (Piece.text fun _ => .empty) ∧
    out = smallPieces.foldl (Piece.write fun _ => .empty) ⟨[], []⟩ := by
  refine vsprintf_pieces (fun _ => .empty) ⟨smallPieces.flatMap Piece.fmt, by decide⟩ rfl ?_ []
  intro p hp
  have hwidth : (Count.star 4).Fits ∧ Count.star 4 ≠ .numeral 0 := ⟨show (4 : Int).natAbs + 48 < 2 ^ 31 by decide, nofun⟩
  have hnone : (⟨[], none, none, none⟩ : Head).Fits := ⟨nofun, nofun, nofun⟩
  simp only [smallPieces, List.mem_cons, List.not_mem_nil, or_false] at hp
  rcases hp with rfl | rfl | rfl | rfl
  · exact show byte 'a' ≠ byte '%' by decide
  · exact show byte '=' ≠ byte '%' by decide
  · refine ⟨⟨?_, nofun, nofun⟩, trivial⟩
    rintro w ⟨⟩
    exact hwidth
  · exact ⟨hnone, show byte '%' ∉ reserved ∧ byte '%' ∉ conversions by decide⟩

/-! ### Reading a number back -/

/-- The digit of a character; the letters of both cases are digits. -/
def digitValue (c : Char8) : Option Nat :=
  if byte '0' ≤ c ∧ c ≤ byte '9' then some (c.toNat - 0x30)
  else if byte 'A' ≤ c ∧ c ≤ byte 'Z' then some (c.toNat - 0x41 + 10)
  else if byte 'a' ≤ c ∧ c ≤ byte 'z' then some (c.toNat - 0x61 + 10)
  else none

/-- The numeral at the begin of some bytes. -/
def readDigits (base : Nat) (s : List Char8) : Nat :=
  Numeral.value base ((s.map digitValue).takeWhile (·.any (· < base))).reduceOption

/-- Digits behind `0x`, or without it. -/
def readPrefixed (base : Nat) : List Char8 → Nat
  | c :: d :: s =>
      if base = 16 ∧ c = byte '0' ∧ (d = byte 'x' ∨ d = byte 'X') then readDigits base s else readDigits base (c :: d :: s)
  | s => readDigits base s

/-- Read a number: spaces, a sign, the digits. -/
def readNumber (base : Nat) (s : List Char8) : Int :=
  match s.dropWhile (· = byte ' ') with
  | [] => 0
  | c :: s =>
      if c = byte '-' then -readPrefixed base s
      else if c = byte '+' then readPrefixed base s
      else readPrefixed base (c :: s)

/-- A field has its width, or more. -/
theorem field_length (width : Nat) (left zero : Bool) (head body : List Char8) :
    (field width left zero head body).length = max width (head.length + body.length) := by
  unfold field
  cases left <;> cases zero <;> simp <;> omega

/-- The parts of the field of a number. -/
theorem field_parts (width : Nat) (left zero : Bool) (head ds : List Char8) (q : Nat) : ∃ k z t,
    field width left zero head (List.replicate q (byte '0') ++ ds) =
      List.replicate k (byte ' ') ++ (head ++ (List.replicate z (byte '0') ++ (ds ++ List.replicate t (byte ' ')))) := by
  unfold field
  cases left with
  | true =>
      refine ⟨0, q, width - (head.length + (List.replicate q (byte '0') ++ ds).length), ?_⟩
      simp only [if_true, List.replicate_zero, List.nil_append, List.append_assoc]
  | false =>
      cases zero with
      | true =>
          refine ⟨0, width - (head.length + (List.replicate q (byte '0') ++ ds).length) + q, 0, ?_⟩
          simp [-List.replicate_append_replicate, List.replicate_add]
      | false =>
          refine ⟨width - (head.length + (List.replicate q (byte '0') ++ ds).length), q, 0, ?_⟩
          simp only [Bool.false_eq_true, if_false, List.replicate_zero, List.append_nil, List.append_assoc]

theorem value_zeros (b z : Nat) (ds : List Nat) : Numeral.value b (List.replicate z 0 ++ ds) = Numeral.value b ds := by
  induction z with
  | zero => rfl
  | succ z ih => rw [List.replicate_succ, List.cons_append, Numeral.value_cons, Nat.zero_mul, Nat.zero_add, ih]

theorem digitValue_char (small : Bool) : ∀ d < 36, digitValue (digitChar small d) = some d := by
  cases small <;> decide

/-- What stands behind the sign and the prefix in a field. -/
def digitsTail (small : Bool) (ds : List Nat) (z t : Nat) : List Char8 :=
  List.replicate z (byte '0') ++ (ds.map (digitChar small) ++ List.replicate t (byte ' '))

section Tail

variable {small : Bool} {base : Nat} {ds : List Nat}

/-- The digits are read, and nothing behind them. -/
theorem readDigits_tail (hpos : 0 < base) (hbase : base ≤ 36) (hds : ∀ d ∈ ds, d < base) (z t : Nat) :
    readDigits base (digitsTail small ds z t) = Numeral.value base ds := by
  have hchars : (ds.map (digitChar small)).map digitValue = ds.map some := by
    rw [List.map_map]
    refine List.map_congr_left fun d hd => ?_
    exact digitValue_char small d (by have := hds d hd; omega)
  have hmap : (digitsTail small ds z t).map digitValue = (List.replicate z 0 ++ ds).map some ++ List.replicate t none := by
    unfold digitsTail
    rw [List.map_append, List.map_append, hchars, List.map_append, List.append_assoc, List.map_replicate, List.map_replicate,
      List.map_replicate]
    rfl
  have hall : ∀ d ∈ (List.replicate z 0 ++ ds).map some, d.any (· < base) = true := by
    intro d hd
    obtain ⟨e, he, rfl⟩ := List.mem_map.mp hd
    refine decide_eq_true ?_
    rcases List.mem_append.mp he with he | he
    · rw [List.eq_of_mem_replicate he]
      exact hpos
    · exact hds e he
  have hend : (List.replicate t (none : Option Nat)).takeWhile (·.any (· < base)) = [] := by
    cases t with
    | zero => rfl
    | succ t => rfl
  unfold readDigits
  rw [hmap, List.takeWhile_append_of_pos hall, hend, List.append_nil]
  show Numeral.value base (((List.replicate z 0 ++ ds).map some).filterMap id) = _
  rw [List.filterMap_map]
  show Numeral.value base ((List.replicate z 0 ++ ds).filterMap some) = _
  rw [List.filterMap_some, value_zeros]

/-- There is no `x` in the tail. -/
theorem tail_no_x (hbase : base ≤ 16) (hds : ∀ d ∈ ds, d < base) (z t : Nat) :
    ∀ c ∈ digitsTail small ds z t, c ≠ byte 'x' ∧ c ≠ byte 'X' := by
  have hall : ∀ small, ∀ d < 16, digitChar small d ≠ byte 'x' ∧ digitChar small d ≠ byte 'X' := by decide
  intro c hc
  rcases List.mem_append.mp hc with hc | hc
  · rw [List.eq_of_mem_replicate hc]
    decide
  · rcases List.mem_append.mp hc with hc | hc
    · obtain ⟨d, hd, rfl⟩ := List.mem_map.mp hc
      exact hall small d (lt_of_lt_of_le (hds d hd) hbase)
    · rw [List.eq_of_mem_replicate hc]
      decide

/-- Without a prefix. -/
theorem readPrefixed_plain (base : Nat) {s : List Char8} (hs : ∀ c ∈ s, c ≠ byte 'x' ∧ c ≠ byte 'X') :
    readPrefixed base s = readDigits base s := by
  match s with
  | [] => rfl
  | [c] => rfl
  | c :: d :: s =>
      obtain ⟨hx, hX⟩ := hs d (by simp)
      exact if_neg fun h => h.2.2.elim hx hX

theorem readPrefixed_field (small : Bool) (f : Flags) (hpos : 0 < base) (hbase : base ≤ 16) (hds : ∀ d ∈ ds, d < base)
    (z t : Nat) :
    readPrefixed base (prefixText f base ++ digitsTail small ds z t) = Numeral.value base ds := by
  have hplain : ∀ z, readPrefixed base (digitsTail small ds z t) = Numeral.value base ds := by
    intro z
    rw [readPrefixed_plain base (tail_no_x hbase hds z t), readDigits_tail hpos (by omega) hds z t]
  unfold prefixText
  split
  · split
    · exact hplain (z + 1)
    · split
      · rename_i hsixteen
        subst hsixteen
        show (if 16 = 16 ∧ byte '0' = byte '0' ∧ _ then _ else _) = _
        rw [if_pos]
        · exact readDigits_tail hpos (by omega) hds z t
        · refine ⟨rfl, rfl, ?_⟩
          cases f.small with
          | true => exact Or.inl rfl
          | false => exact Or.inr rfl
      · exact hplain z
  · exact hplain z

/-- What stands behind the sign begins with a digit. -/
theorem prefixed_head (small : Bool) (f : Flags) (hbase : base ≤ 36) (hds : ∀ d ∈ ds, d < base) (hne : ds ≠ []) (z t : Nat) :
    ∃ c s, prefixText f base ++ digitsTail small ds z t = c :: s ∧ c ≠ byte ' ' ∧ c ≠ byte '-' ∧ c ≠ byte '+' := by
  have hall : ∀ small, ∀ d < 36, digitChar small d ≠ byte ' ' ∧ digitChar small d ≠ byte '-' ∧
      digitChar small d ≠ byte '+' := by
    decide
  have htail : ∃ c s, digitsTail small ds z t = c :: s ∧ c ≠ byte ' ' ∧ c ≠ byte '-' ∧ c ≠ byte '+' := by
    obtain ⟨d, rest, rfl⟩ := List.exists_cons_of_ne_nil hne
    cases z with
    | zero => exact ⟨_, _, rfl, hall small d (lt_of_lt_of_le (hds d List.mem_cons_self) hbase)⟩
    | succ z => exact ⟨byte '0', _, rfl, by decide, by decide, by decide⟩
  unfold prefixText
  split
  · split
    · exact ⟨byte '0', _, rfl, by decide, by decide, by decide⟩
    · split
      · exact ⟨byte '0', _, rfl, by decide, by decide, by decide⟩
      · exact htail
  · exact htail

end Tail

/-- The number can be read from its field, in whatever way it is printed. -/
theorem readNumber_field (f : Flags) {base : Nat} (hlow : 2 ≤ base) (hbase : base ≤ 16) (width precision : Nat) (a : U32) :
    readNumber base (numberField f base width precision a) = intOf f a := by
  generalize hx : intOf f a = x
  have hds : ∀ d ∈ Numeral.digits base x.natAbs, d < base := fun d hd =>
    Numeral.produced_lt hlow d (List.mem_reverse.mp hd)
  have hne : Numeral.digits base x.natAbs ≠ [] := (Numeral.canonical_digits hlow _).nonempty
  obtain ⟨k, z, t, hparts⟩ := field_parts width f.left f.zeropad (signText f x ++ prefixText f base)
    ((Numeral.digits base x.natAbs).map (digitChar f.small)) (precision - (Numeral.digits base x.natAbs).length)
  have hread := readPrefixed_field f.small f (by omega) hbase hds z t
  obtain ⟨c, s, hhead, hspace, hminus, hplus⟩ := prefixed_head f.small f (by omega) hds hne z t
  rw [Numeral.value_digits] at hread
  unfold numberField digitsText
  rw [hx, hparts, List.append_assoc]
  show readNumber base (List.replicate k (byte ' ') ++ (signText f x ++ (prefixText f base ++ digitsTail f.small _ z t))) = x
  rw [hhead] at hread ⊢
  have hblank : ∀ s, (List.replicate k (byte ' ') ++ s).dropWhile (· = byte ' ') = s.dropWhile (· = byte ' ') := by
    intro s
    refine List.dropWhile_append_of_pos fun c hc => decide_eq_true ?_
    exact List.eq_of_mem_replicate hc
  have hstop : ∀ {c : Char8}, c ≠ byte ' ' → ∀ s, (c :: s).dropWhile (· = byte ' ') = c :: s := by
    intro c hc s
    exact List.dropWhile_cons_of_neg (by simpa using hc)
  have hplain : 0 ≤ x → (if c = byte '-' then -(readPrefixed base s : Int)
      else if c = byte '+' then (readPrefixed base s : Int) else readPrefixed base (c :: s)) = x := by
    intro hpos
    rw [if_neg hminus, if_neg hplus, hread]
    omega
  unfold readNumber signText
  rw [hblank]
  by_cases hneg : x < 0
  · rw [if_pos hneg, List.cons_append, hstop (by decide)]
    show (if byte '-' = byte '-' then -(readPrefixed base (c :: s) : Int) else _) = x
    rw [if_pos rfl, hread]
    omega
  · rw [if_neg hneg]
    by_cases hp : f.plus = true
    · rw [if_pos hp, List.cons_append, hstop (by decide)]
      show (if byte '+' = byte '-' then _ else if byte '+' = byte '+' then (readPrefixed base (c :: s) : Int) else _) = x
      rw [if_neg (by decide), if_pos rfl, hread]
      omega
    · rw [if_neg hp]
      by_cases hs : f.space = true
      · have hdrop : ([byte ' '] ++ c :: s).dropWhile (· = byte ' ') = c :: s := by
          rw [List.singleton_append, List.dropWhile_cons_of_pos (by decide), hstop hspace]
        rw [if_pos hs, hdrop]
        exact hplain (by omega)
      · rw [if_neg hs, List.nil_append, hstop hspace]
        exact hplain (by omega)

/-- The base, the flags and the word of the conversion of a number. -/
def Conv.number (h : Head) : Conv → Option (Nat × Flags × U32)
  | .octal a => some (8, h.flagSet, a)
  | .pointer a => some (16, h.flagSet, a)
  | .hex _ a => some (16, h.flagSet, a)
  | .decimal _ a => some (10, { h.flagSet with sign := true }, a)
  | .unsigned a => some (10, h.flagSet, a)
  | _ => none

/-- The number of a directive can be read from its text, which fills the width. -/
theorem number_text (strings : U32 → CString) (h : Head) {v : Conv} {base : Nat} {f : Flags} {a : U32}
    (hv : v.number h = some (base, f, a)) :
    readNumber base (v.text strings h) = intOf f a ∧ h.widthInt.toNat ≤ (v.text strings h).length := by
  have hfield : ∀ (g : Flags) (base width precision : Nat), 2 ≤ base → base ≤ 16 → g.sign = f.sign →
      readNumber base (numberField g base width precision a) = intOf f a ∧
        width ≤ (numberField g base width precision a).length := by
    intro g base width precision hlow hhigh hsign
    have hint : intOf g a = intOf f a := by
      unfold intOf
      rw [hsign]
    refine ⟨(readNumber_field g hlow hhigh width precision a).trans hint, ?_⟩
    unfold numberField
    rw [field_length]
    exact Nat.le_max_left ..
  cases v with
  | octal b =>
      cases hv
      exact hfield h.flagSet 8 _ _ (by decide) (by decide) rfl
  | pointer b =>
      cases hv
      show readNumber 16 (if h.width = none then _ else _) = _ ∧ _ ≤ (if h.width = none then _ else _ : List Char8).length
      split
      · rename_i hnone
        have hwidth : h.widthInt.toNat = 0 := by
          unfold Head.widthInt
          rw [hnone]
          rfl
        rw [hwidth]
        exact ⟨(hfield { h.flagSet with zeropad := true } 16 8 _ (by decide) (by decide) rfl).1, Nat.zero_le _⟩
      · exact hfield h.flagSet 16 _ _ (by decide) (by decide) rfl
  | hex small b =>
      cases hv
      exact hfield { h.flagSet with small := small } 16 _ _ (by decide) (by decide) rfl
  | decimal i b =>
      cases hv
      exact hfield { h.flagSet with sign := true } 10 _ _ (by decide) (by decide) rfl
  | unsigned b =>
      cases hv
      exact hfield h.flagSet 10 _ _ (by decide) (by decide) rfl
  | char b => cases hv
  | string b => cases hv
  | count b => cases hv
  | other c => cases hv

/-- Whatever the flags, the width and the precision of a directive are: its number can be read from what `vsprintf`
prints, which fills the width. -/
theorem number_reads (strings : U32 → CString) (fmt : CString) (h : Head) {v : Conv} {base : Nat} {f : Flags} {a : U32}
    (hfmt : fmt.bytes = (Piece.directive h v).fmt) (hfits : (Piece.directive h v).Fits strings)
    (hv : v.number h = some (base, f, a)) (more : List U32) :
    ∃ out, vsprintf strings fmt ((Piece.directive h v).args ++ more) = .ok out ∧ readNumber base out.str = intOf f a ∧
      h.widthInt.toNat ≤ out.str.length := by
  have hall : ∀ p ∈ [Piece.directive h v], p.Fits strings := fun p hp => by rwa [List.mem_singleton.mp hp]
  have hrun := vsprintfLoop_pieces strings hall le_rfl more ⟨[], []⟩
  rw [List.flatMap_singleton, List.flatMap_singleton, ← hfmt] at hrun
  exact ⟨_, hrun, number_text strings h hv⟩

theorem number_reads_hex : ∃ out, vsprintf (fun _ => .empty) ⟨(Piece.directive ⟨[.special], some (.numeral 10), none, none⟩
      (.hex true 0xBEEF)).fmt, by decide⟩ ([0xBEEF] ++ []) = .ok out ∧
      readNumber 16 out.str = 0xBEEF ∧ 10 ≤ out.str.length := by
  refine number_reads (fun _ => .empty)
    ⟨(Piece.directive ⟨[.special], some (.numeral 10), none, none⟩ (.hex true 0xBEEF)).fmt, by decide⟩
    ⟨[.special], some (.numeral 10), none, none⟩ (v := .hex true 0xBEEF) rfl ⟨⟨?_, nofun, nofun⟩, trivial⟩ rfl []
  rintro w ⟨⟩
  exact ⟨show (10 : Int).natAbs + 48 < 2 ^ 31 by decide, nofun⟩

end Vsprintf
end FreakOS
