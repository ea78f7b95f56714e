import FreakOS.Base
import FreakOS.Lib.CString
import FreakOS.Lib.Numerals

/-!
# Formatted output

`vsprintf.c`: `skip_atoi`, `number` and `vsprintf`, as in the source.

A format is the list of its bytes, and `str` the list of the bytes that have been stored in the buffer.  The arguments are
the words on the stack; a `char *` among them points to a string.

* `number` — an integer in a field.
* `vsprintf` — the interpreter of the formats.
* `padDown_spec`, `tmpDigits_spec`, `skipAtoi_spec` — what the loops of the two do.
-/

namespace FreakOS
namespace Vsprintf

open Lib

/-! ### The source -/

/-- An `int`, unless it overflows. -/
def int (x : Int) : Res Int := if -2 ^ 31 ≤ x ∧ x < 2 ^ 31 then .ok x else .error .overflow

/-- The byte of an ASCII character. -/
def byte (c : Char) : Char8 := BitVec.ofNat 8 c.toNat

/-- `is_digit(c)`. -/
def isDigit (c : Char8) : Prop := byte '0' ≤ c ∧ c ≤ byte '9'

instance (c : Char8) : Decidable (isDigit c) := inferInstanceAs (Decidable (_ ∧ _))

/-- `skip_atoi(s)`, from `i` on. -/
def skipAtoi (i : Int) : List Char8 → Res (Int × List Char8)
  | [] => .ok (i, [])
  | c :: s =>
      if isDigit c then do
        let i ← int (i * 10)
        let i ← int (i + c.toNat)
        let i ← int (i - (byte '0').toNat)
        skipAtoi i s
      else .ok (i, c :: s)

/-- The bits of `flags`, and of `type` in `number`. -/
structure Flags where
  zeropad : Bool
  sign : Bool
  plus : Bool
  space : Bool
  left : Bool
  special : Bool
  small : Bool
deriving DecidableEq, Repr

/-- `digits`. -/
def digitTable (small : Bool) : List Char8 :=
  (if small then "0123456789abcdefghijklmnopqrstuvwxyz" else "0123456789ABCDEFGHIJKLMNOPQRSTUVWXYZ").toList.map byte

/-- `while (num != 0) tmp[i++] = digits[do_div(num, base)]`, with so much room left in `tmp`. -/
def tmpDigits (small : Bool) (base : U32) : Nat → U32 → Res (List Char8)
  | room, num =>
      if num = 0 then .ok []
      else
        match room, (digitTable small)[(num % base).toNat]? with
        | room + 1, some c => do
            let tmp ← tmpDigits small base room (num / base)
            return c :: tmp
        | _, _ => .error .wildPointer

/-- `while (low < high--) *str++ = c`. -/
def padDown (c : Char8) (low : Int) (str : List Char8) (high : Int) : Res (List Char8 × Int) :=
  if low < high then padDown c low (str ++ [c]) (high - 1)
  else do
    let high ← int (high - 1)
    return (str, high)
termination_by (high - low).toNat

/-- `while (--width > 0) *str++ = c`. -/
def padPre (c : Char8) (str : List Char8) (width : Int) : Res (List Char8 × Int) :=
  if 0 < width - 1 then padPre c (str ++ [c]) (width - 1)
  else do
    let width ← int (width - 1)
    return (str, width)
termination_by width.toNat

/-- `sign`, and the `num` whose digits are printed. -/
def signed (type : Flags) (num : U32) : List Char8 × U32 :=
  if type.sign ∧ num.toInt < 0 then ([byte '-'], -num)
  else (if type.plus then [byte '+'] else if type.space then [byte ' '] else [], num)

/-- What `SPECIAL` puts before the digits. -/
def special (type : Flags) (base : U32) : List Char8 :=
  if type.special then
    if base = 8 then [byte '0']
    else if base = 16 then [byte '0', (digitTable type.small)[33]!]
    else []
  else []

/-- `size` without the sign and without what `SPECIAL` puts before the digits. -/
def digitsSize (type : Flags) (base : U32) (sign : List Char8) (size : Int) : Res Int := do
  let size ← if sign ≠ [] then int (size - 1) else .ok size
  if type.special then
    if base = 16 then int (size - 2) else if base = 8 then int (size - 1) else .ok size
  else .ok size

/-- `tmp`, whose last digit is the first of the number. -/
def digitsTmp (small : Bool) (base num : U32) : Res (List Char8) :=
  if num = 0 then .ok [byte '0'] else tmpDigits small base 36 num

/-- `while (size-- > 0) *str++ = c`, under a condition. -/
def padIf (p : Bool) (c : Char8) (str : List Char8) (size : Int) : Res (List Char8 × Int) :=
  if p then padDown c 0 str size else .ok (str, size)

/-- The second half of `number`, which stores the result: the sign and what `SPECIAL` puts before the digits are `head`. -/
def layout (type : Flags) (str head tmp : List Char8) (size precision : Int) : Res (List Char8) := do
  let c := if type.zeropad then byte '0' else byte ' '
  let (str, size) ← padIf (!(type.zeropad || type.left)) (byte ' ') str size
  let (str, size) ← padIf (!type.left) c (str ++ head) size
  let (str, _) ← padDown (byte '0') tmp.length str precision
  let (str, _) ← padDown (byte ' ') 0 (str ++ tmp.reverse) size
  return str

/-- `number(str, num, base, size, precision, type)`.  A `NULL` that it returns is written through. -/
def number (str : List Char8) (num base : U32) (size precision : Int) (type : Flags) : Res (List Char8) :=
  let type := if type.left then { type with zeropad := false } else type
  if base < 2 ∨ 36 < base then .error .wildPointer
  else do
    let (sign, num) := signed type num
    let size ← digitsSize type base sign size
    let tmp ← digitsTmp type.small base num
    let precision := if precision < tmp.length then (tmp.length : Int) else precision
    let size ← int (size - precision)
    layout type str (sign ++ special type base) tmp size precision

/-- What `vsprintf` has stored: the bytes in the buffer, and the words that `%n` has stored elsewhere. -/
structure Out where
  str : List Char8
  stores : List (U32 × U32)
deriving DecidableEq, Repr

/-- `va_arg`. -/
def vaArg : List U32 → Res (U32 × List U32)
  | [] => .error .wildPointer
  | a :: args => .ok (a, args)

/-- The loop over the flags, at `repeat`. -/
def takeFlags : Flags → List Char8 → Flags × List Char8
  | flags, [] => (flags, [])
  | flags, c :: fmt =>
      if c = byte '-' then takeFlags { flags with left := true } fmt
      else if c = byte '+' then takeFlags { flags with plus := true } fmt
      else if c = byte ' ' then takeFlags { flags with space := true } fmt
      else if c = byte '#' then takeFlags { flags with special := true } fmt
      else if c = byte '0' then takeFlags { flags with zeropad := true } fmt
      else (flags, c :: fmt)

/-- `field_width`, with the flags, the format and the arguments behind it. -/
def fieldWidth (flags : Flags) (args : List U32) : List Char8 → Res (Int × Flags × List U32 × List Char8)
  | [] => .ok (-1, flags, args, [])
  | c :: fmt =>
      if isDigit c then do
        let (width, fmt) ← skipAtoi 0 (c :: fmt)
        return (width, flags, args, fmt)
      else if c = byte '*' then do
        let (a, args) ← vaArg args
        if a.toInt < 0 then
          let width ← int (-a.toInt)
          return (width, { flags with left := true }, args, fmt)
        else return (a.toInt, flags, args, fmt)
      else .ok (-1, flags, args, c :: fmt)

/-- The number or the `*` of `precision`. -/
def precisionCount (args : List U32) : List Char8 → Res (Int × List U32 × List Char8)
  | [] => .ok (-1, args, [])
  | c :: fmt =>
      if isDigit c then do
        let (precision, fmt) ← skipAtoi 0 (c :: fmt)
        return (precision, args, fmt)
      else if c = byte '*' then do
        let (a, args) ← vaArg args
        return (a.toInt, args, fmt)
      else .ok (-1, args, c :: fmt)

/-- `precision`. -/
def takePrecision (args : List U32) : List Char8 → Res (Int × List U32 × List Char8)
  | [] => .ok (-1, args, [])
  | c :: fmt =>
      if c = byte '.' then do
        let (precision, args, fmt) ← precisionCount args fmt
        return (if precision < 0 then 0 else precision, args, fmt)
      else .ok (-1, args, c :: fmt)

/-- `qualifier`, which is skipped. -/
def skipQualifier : List Char8 → List Char8
  | [] => []
  | c :: fmt => if c = byte 'h' ∨ c = byte 'l' ∨ c = byte 'L' then fmt else c :: fmt

/-- `case 'c'`. -/
def convertChar (flags : Flags) (width : Int) (args : List U32) (str : List Char8) : Res (List U32 × List Char8) := do
  let (str, width) ← if flags.left then .ok (str, width) else padPre (byte ' ') str width
  let (a, args) ← vaArg args
  let str := str ++ [a.setWidth 8]
  let (str, _) ← padPre (byte ' ') str width
  return (args, str)

/-- `case 's'`. -/
def convertString (strings : U32 → CString) (flags : Flags) (width precision : Int) (args : List U32)
    (str : List Char8) : Res (List U32 × List Char8) := do
  let (a, args) ← vaArg args
  let s := (strings a).bytes
  let len : Int := if precision < 0 then s.length else if precision < s.length then precision else s.length
  let (str, width) ← if flags.left then .ok (str, width) else padDown (byte ' ') len str width
  let str := str ++ s.take len.toNat
  let (str, _) ← padDown (byte ' ') len str width
  return (args, str)

/-- The other cases: an integer of a base. -/
def convertNumber (base : U32) (flags : Flags) (width precision : Int) (args : List U32) (str : List Char8) :
    Res (List U32 × List Char8) := do
  let (a, args) ← vaArg args
  let str ← number str a base width precision flags
  return (args, str)

/-- The `switch` over the conversion. -/
def convert (strings : U32 → CString) (flags : Flags) (width precision : Int) (c : Char8) (args : List U32)
    (out : Out) : Res (List U32 × Out) :=
  let onStr (r : Res (List U32 × List Char8)) : Res (List U32 × Out) := do
    let (args, str) ← r
    return (args, { out with str := str })
  if c = byte 'c' then onStr (convertChar flags width args out.str)
  else if c = byte 's' then onStr (convertString strings flags width precision args out.str)
  else if c = byte 'o' then onStr (convertNumber 8 flags width precision args out.str)
  else if c = byte 'p' then
    if width = -1 then onStr (convertNumber 16 { flags with zeropad := true } 8 precision args out.str)
    else onStr (convertNumber 16 flags width precision args out.str)
  else if c = byte 'x' then onStr (convertNumber 16 { flags with small := true } width precision args out.str)
  else if c = byte 'X' then onStr (convertNumber 16 flags width precision args out.str)
  else if c = byte 'd' ∨ c = byte 'i' then
    onStr (convertNumber 10 { flags with sign := true } width precision args out.str)
  else if c = byte 'u' then onStr (convertNumber 10 flags width precision args out.str)
  else if c = byte 'n' then do
    let (ip, args) ← vaArg args
    return (args, { out with stores := out.stores ++ [(ip, BitVec.ofNat 32 out.str.length)] })
  else .ok (args, { out with str := out.str ++ (if c ≠ byte '%' then [byte '%'] else []) ++ [c] })

/-- What follows a `%`. -/
def directive (strings : U32 → CString) (fmt : List Char8) (args : List U32) (out : Out) :
    Res (List Char8 × List U32 × Out) := do
  let (flags, fmt) := takeFlags ⟨false, false, false, false, false, false, false⟩ fmt
  let (width, flags, args, fmt) ← fieldWidth flags args fmt
  let (precision, args, fmt) ← takePrecision args fmt
  match skipQualifier fmt with
  | [] => return ([], args, { out with str := out.str ++ [byte '%'] })
  | c :: fmt => do
      let (args, out) ← convert strings flags width precision c args out
      return (fmt, args, out)

/-- The loop of `vsprintf`. -/
def vsprintfLoop (strings : U32 → CString) : Nat → List Char8 → List U32 → Out → Res Out
  | _, [], _, out => .ok out
  | 0, _ :: _, _, _ => .error .outOfFuel
  | fuel + 1, c :: fmt, args, out =>
      if c ≠ byte '%' then vsprintfLoop strings fuel fmt args { out with str := out.str ++ [c] }
      else do
        let (fmt, args, out) ← directive strings fmt args out
        vsprintfLoop strings fuel fmt args out

/-- `vsprintf(buf, fmt, args)`: the bytes in `buf` before the final `\0`, whose number is returned.  Every round of the loop
takes a byte of the format. -/
def vsprintf (strings : U32 → CString) (fmt : CString) (args : List U32) : Res Out :=
  vsprintfLoop strings fmt.bytes.length fmt.bytes args ⟨[], []⟩

/-! ### The loops -/

theorem int_ok {x : Int} (hlow : -2 ^ 31 ≤ x) (hhigh : x < 2 ^ 31) : int x = .ok x := if_pos ⟨hlow, hhigh⟩

/-- The loop stores the missing bytes, and leaves the counter below its end. -/
theorem padDown_spec (c : Char8) {low high : Int} (str : List Char8) (hlow : -2 ^ 31 < low) (hhigh : -2 ^ 31 < high)
    (hlow' : low < 2 ^ 31) : padDown c low str high = .ok (str ++ List.replicate (high - low).toNat c, min low high - 1) := by
  obtain ⟨n, hn⟩ : ∃ n, (high - low).toNat = n := ⟨_, rfl⟩
  induction n generalizing str high with
  | zero =>
      unfold padDown
      rw [if_neg (by omega), int_ok (by omega) (by omega), hn, min_eq_right (by omega)]
      show Except.ok (str, high - 1) = _
      rw [List.replicate_zero, List.append_nil]
  | succ n ih =>
      unfold padDown
      rw [if_pos (by omega), ih _ (by omega) (by omega), hn, List.append_assoc,
        show (high - 1 - low).toNat = n by omega, min_eq_left (by omega), min_eq_left (by omega)]
      rfl

@[inherit_doc padDown_spec]
theorem padPre_spec (c : Char8) {width : Int} (str : List Char8) (hlow : -2 ^ 31 < width) :
    padPre c str width = .ok (str ++ List.replicate (width - 1).toNat c, min 0 (width - 1)) := by
  obtain ⟨n, hn⟩ : ∃ n, (width - 1).toNat = n := ⟨_, rfl⟩
  induction n generalizing str width with
  | zero =>
      unfold padPre
      rw [if_neg (by omega), int_ok (by omega) (by omega), hn, min_eq_right (by omega)]
      show Except.ok (str, width - 1) = _
      rw [List.replicate_zero, List.append_nil]
  | succ n ih =>
      unfold padPre
      rw [if_pos (by omega), ih _ (by omega) (by omega), hn, List.append_assoc,
        show (width - 1 - 1).toNat = n by omega, min_eq_left (by omega), min_eq_left (by omega)]
      rfl

/-- The character of a digit. -/
def digitChar (small : Bool) (d : Nat) : Char8 :=
  if d < 10 then BitVec.ofNat 8 (0x30 + d) else BitVec.ofNat 8 ((if small then 0x61 else 0x41) + (d - 10))

theorem digitTable_get (small : Bool) : ∀ d < 36, (digitTable small)[d]? = some (digitChar small d) := by
  cases small <;> decide

/-- The digits of a number, in the order of division. -/
theorem tmpDigits_spec (small : Bool) {base : U32} (hlow : 2 ≤ base.toNat) (hhigh : base.toNat ≤ 36) {room : Nat} {num : U32}
    (hroom : num.toNat < base.toNat ^ room) :
    tmpDigits small base room num = .ok ((Nat.digits base.toNat num.toNat).map (digitChar small)) := by
  induction room generalizing num with
  | zero =>
      have hzero : num = 0 := BitVec.eq_of_toNat_eq (Nat.lt_one_iff.mp hroom)
      unfold tmpDigits
      rw [if_pos hzero, hzero]
      show _ = Except.ok (List.map _ (Nat.digits base.toNat 0))
      rw [Nat.digits_zero]
      rfl
  | succ room ih =>
      unfold tmpDigits
      by_cases hzero : num = 0
      · rw [if_pos hzero, hzero]
        show _ = Except.ok (List.map _ (Nat.digits base.toNat 0))
        rw [Nat.digits_zero]
        rfl
      · have hne : num.toNat ≠ 0 := fun h => hzero (BitVec.eq_of_toNat_eq h)
        have hmod : (num % base).toNat = num.toNat % base.toNat := BitVec.toNat_umod
        have hdiv : (num / base).toNat = num.toNat / base.toNat := BitVec.toNat_udiv
        have hlt : num.toNat % base.toNat < base.toNat := Nat.mod_lt _ (by omega)
        have hless : (num / base).toNat < base.toNat ^ room := by
          rw [hdiv]
          exact Nat.div_lt_of_lt_mul (by rwa [← Nat.pow_succ'])
        have hrest := ih hless
        rw [if_neg hzero, hmod, digitTable_get small _ (by omega)]
        dsimp only
        rw [hrest, hdiv, Nat.digits_eq_cons_digits_div (by omega) hne]
        rfl

theorem digit_spec : ∀ d < 10, isDigit (digitChar false d) ∧ (digitChar false d).toNat = 48 + d := by decide

/-- `skip_atoi` reads a numeral. -/
theorem skipAtoi_spec (ds : List Nat) (hds : ∀ d ∈ ds, d < 10) {rest : List Char8} (hrest : ∀ c ∈ rest.head?, ¬ isDigit c)
    {i : Nat} (hfit : i * 10 ^ ds.length + Numeral.value 10 ds + 48 < 2 ^ 31) :
    skipAtoi i (ds.map (digitChar false) ++ rest) = .ok ((i * 10 ^ ds.length + Numeral.value 10 ds : Nat), rest) := by
  induction ds generalizing i with
  | nil =>
      have hval : i * 10 ^ ([] : List Nat).length + Numeral.value 10 [] = i := Nat.mul_one i
      rw [hval]
      cases rest with
      | nil => rfl
      | cons c rest => exact if_neg (hrest c rfl)
  | cons d ds ih =>
      obtain ⟨hdigit, hchar⟩ := digit_spec d (hds d List.mem_cons_self)
      have hnext : (i * 10 + d) * 10 ^ ds.length + Numeral.value 10 ds =
          i * 10 ^ (d :: ds).length + Numeral.value 10 (d :: ds) := by
        rw [Numeral.value_cons, List.length_cons, pow_succ]
        ring
      rw [← hnext] at hfit ⊢
      have hle : i * 10 + d ≤ (i * 10 + d) * 10 ^ ds.length := Nat.le_mul_of_pos_right _ (Nat.pow_pos (by decide))
      rw [List.map_cons, List.cons_append]
      unfold skipAtoi
      have hzero : (byte '0').toNat = 48 := by decide
      have hstep : (i * 10 + (48 + d : Nat) - (48 : Nat) : Int) = (i * 10 + d : Nat) := by omega
      rw [if_pos hdigit, hchar, hzero, int_ok (by omega) (by omega), Res.ok_bind, int_ok (by omega) (by omega), Res.ok_bind,
        int_ok (by omega) (by omega), Res.ok_bind, hstep]
      exact ih (fun d hd => hds d (List.mem_cons_of_mem _ hd)) hfit

end Vsprintf
end FreakOS
