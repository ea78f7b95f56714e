import FreakOS.Base
import Mathlib.Data.Finset.Basic

/-!
# Modifier keys

`kbdGetChar` of `kbd.c` with the tables of `kbd.h`, and a keyboard that sends scan codes of set 1.  The variable `shift`
of the source has one bit for each kind of modifier; the keyboard has two keys of each kind.

* `kbdGetChar` — as in the source, on the two ports.
* `Keyboard` — the keys that are held down, and what is sent when they are pressed and released.
* `Faithful` — the bits of `shift` say what is held.
* `modifiers_faithful` — they do until a modifier is released whose twin is still held, and not after that.
-/

namespace FreakOS
namespace Kbd

/-! ### `kbd.h` -/

/-- `KBS_DIB`. -/
def KBS_DIB : BitVec 8 := 0x01
/-- `SHIFT`. -/
def SHIFT : U32 := 1#32 <<< 0
/-- `CTL`. -/
def CTL : U32 := 1#32 <<< 1
/-- `ALT`. -/
def ALT : U32 := 1#32 <<< 2
/-- `CAPSLOCK`. -/
def CAPSLOCK : U32 := 1#32 <<< 3
/-- `NUMLOCK`. -/
def NUMLOCK : U32 := 1#32 <<< 4
/-- `SCROLLLOCK`. -/
def SCROLLLOCK : U32 := 1#32 <<< 5
/-- `E0ESC`. -/
def E0ESC : U32 := 1#32 <<< 6
/-- `KEY_DEL`. -/
def KEY_DEL : U32 := 0xE9

/-- An array of 256 entries: the first ones, those with a designator, and 0 elsewhere. -/
def table {n : Nat} (first : List (BitVec n)) (designated : List (BitVec 8 × BitVec n)) (i : BitVec 8) : BitVec n :=
  (designated.lookup i).getD (first.getD i.toNat 0)

/-- `shiftcode`. -/
def shiftcode : BitVec 8 → U32 :=
  table [] [(0x1D, CTL), (0x2A, SHIFT), (0x36, SHIFT), (0x38, ALT), (0x9D, CTL), (0xB8, ALT)]

/-- `togglecode`. -/
def togglecode : BitVec 8 → U32 := table [] [(0x3A, CAPSLOCK), (0x45, NUMLOCK), (0x46, SCROLLLOCK)]

/-- The entries for the arrow keys and those around them, which the three maps share. -/
def extended : List (BitVec 8 × BitVec 8) :=
  [(0xC8, 0xE2), (0xD0, 0xE3), (0xC9, 0xE6), (0xD1, 0xE7), (0xCB, 0xE4), (0xCD, 0xE5), (0x97, 0xE0), (0xCF, 0xE1),
    (0xD2, 0xE8), (0xD3, 0xE9)]

/-- `normalmap`. -/
def normalmap : BitVec 8 → BitVec 8 := table
  [0x00, 0x1B, 0x31, 0x32, 0x33, 0x34, 0x35, 0x36, 0x37, 0x38, 0x39, 0x30, 0x2D, 0x3D, 0x08, 0x09,
    0x71, 0x77, 0x65, 0x72, 0x74, 0x79, 0x75, 0x69, 0x6F, 0x70, 0x5B, 0x5D, 0x0A, 0x00, 0x61, 0x73,
    0x64, 0x66, 0x67, 0x68, 0x6A, 0x6B, 0x6C, 0x3B, 0x27, 0x60, 0x00, 0x5C, 0x7A, 0x78, 0x63, 0x76,
    0x62, 0x6E, 0x6D, 0x2C, 0x2E, 0x2F, 0x00, 0x2A, 0x00, 0x20, 0x00, 0x00, 0x00, 0x00, 0x00, 0x00,
    0x00, 0x00, 0x00, 0x00, 0x00, 0x00, 0x00, 0x37, 0x38, 0x39, 0x2D, 0x34, 0x35, 0x36, 0x2B, 0x31,
    0x32, 0x33, 0x30, 0x2E, 0x00, 0x00, 0x00, 0x00]
  ((0x9C, 0x0A) :: (0xB5, 0x2F) :: extended)

/-- `shiftmap`. -/
def shiftmap : BitVec 8 → BitVec 8 := table
  [0x00, 0x1B, 0x21, 0x40, 0x23, 0x24, 0x25, 0x5E, 0x26, 0x2A, 0x28, 0x29, 0x5F, 0x2B, 0x08, 0x09,
    0x51, 0x57, 0x45, 0x52, 0x54, 0x59, 0x55, 0x49, 0x4F, 0x50, 0x7B, 0x7D, 0x0A, 0x00, 0x41, 0x53,
    0x44, 0x46, 0x47, 0x48, 0x4A, 0x4B, 0x4C, 0x3A, 0x22, 0x7E, 0x00, 0x7C, 0x5A, 0x58, 0x43, 0x56,
    0x42, 0x4E, 0x4D, 0x3C, 0x3E, 0x3F, 0x00, 0x2A, 0x00, 0x20, 0x00, 0x00, 0x00, 0x00, 0x00, 0x00,
    0x00, 0x00, 0x00, 0x00, 0x00, 0x00, 0x00, 0x37, 0x38, 0x39, 0x2D, 0x34, 0x35, 0x36, 0x2B, 0x31,
    0x32, 0x33, 0x30, 0x2E, 0x00, 0x00, 0x00, 0x00]
  ((0x9C, 0x0A) :: (0xB5, 0x2F) :: extended)

/-- `C(x)`. -/
def C (x : BitVec 8) : BitVec 8 := x - 0x40

/-- `ctlmap`. -/
def ctlmap : BitVec 8 → BitVec 8 := table
  [0x00, 0x00, 0x00, 0x00, 0x00, 0x00, 0x00, 0x00, 0x00, 0x00, 0x00, 0x00, 0x00, 0x00, 0x00, 0x00,
    C 0x51, C 0x57, C 0x45, C 0x52, C 0x54, C 0x59, C 0x55, C 0x49, C 0x4F, C 0x50, 0x00, 0x00, 0x0D, 0x00, C 0x41,
    C 0x53, C 0x44, C 0x46, C 0x47, C 0x48, C 0x4A, C 0x4B, C 0x4C, 0x00, 0x00, 0x00, 0x00, C 0x5C, C 0x5A, C 0x58,
    C 0x43, C 0x56, C 0x42, C 0x4E, C 0x4D, 0x00, 0x00, C 0x2F, 0x00, 0x00]
  ((0x9C, 0x0D) :: (0xB5, C 0x2F) :: extended)

/-! ### `kbd.c` -/

/-- `charcode`, which `kbdGetChar` indexes by two bits. -/
def charcode (i : U32) : BitVec 8 → BitVec 8 := if i = 0 then normalmap else if i = 1 then shiftmap else ctlmap

/-- A letter in the other case. -/
def swapCase (c : U32) : U32 :=
  if 0x61 ≤ c ∧ c ≤ 0x7A then c + (0x41 - 0x61) else if 0x41 ≤ c ∧ c ≤ 0x5A then c + (0x61 - 0x41) else c

/-- What `kbdGetChar` leaves in `shift` and returns, and whether it resets the machine. -/
structure Result where
  shift : U32
  value : Int
  reboots : Bool
deriving DecidableEq

/-- The end of `kbdGetChar`, for a key that is pressed. -/
def pressed (shift : U32) (data : BitVec 8) : Result :=
  let shift := shift ||| shiftcode data
  let shift := shift ^^^ togglecode data
  let c := (charcode (shift &&& (CTL ||| SHIFT)) data).setWidth 32
  let c := if shift &&& CAPSLOCK ≠ 0 then swapCase c else c
  ⟨shift, c.toInt, decide (~~~shift &&& (CTL ||| ALT) = 0 ∧ c = KEY_DEL)⟩

/-- `kbdGetChar()`, with what `inb` gives for the two ports. -/
def kbdGetChar (stat data : BitVec 8) (shift : U32) : Result :=
  if stat &&& KBS_DIB = 0 then ⟨shift, -1, false⟩
  else if data = 0xE0 then ⟨shift ||| E0ESC, 0, false⟩
  else if data &&& 0x80 ≠ 0 then
    let data := if shift &&& E0ESC ≠ 0 then data else data &&& 0x7F
    ⟨shift &&& ~~~(shiftcode data ||| E0ESC), 0, false⟩
  else if shift &&& E0ESC ≠ 0 then pressed (shift &&& ~~~E0ESC) (data ||| 0x80)
  else pressed shift data

/-! ### The keyboard -/

/-- The kinds of modifiers. -/
inductive Modifier where
  | shift
  | ctl
  | alt
deriving DecidableEq

/-- The bit of `shift` for a kind. -/
def Modifier.bit : Modifier → Nat
  | .shift => 0
  | .ctl => 1
  | .alt => 2

/-- A key: with the prefix `0xE0` or without, and a code.  No key has the code whose break code would be the prefix. -/
structure Key where
  ext : Bool
  code : BitVec 8
  low : code < 0x80
  not_prefix : code ≠ 0x60
deriving DecidableEq

/-- The two keys of each kind. -/
def modifierOf (ext : Bool) (code : BitVec 8) : Option Modifier :=
  if ext = false ∧ (code = 0x2A ∨ code = 0x36) then some .shift
  else if code = 0x1D then some .ctl
  else if code = 0x38 then some .alt
  else none

/-- The kind of a key that is a modifier. -/
def Key.modifier (k : Key) : Option Modifier := modifierOf k.ext k.code

/-- The entry of a key in the tables. -/
def entry (ext : Bool) (code : BitVec 8) : BitVec 8 := if ext then code ||| 0x80 else code

/-- Caps Lock. -/
def Key.IsCapsLock (k : Key) : Prop := k.ext = false ∧ k.code = 0x3A

instance (k : Key) : Decidable k.IsCapsLock := by unfold Key.IsCapsLock; infer_instance

/-- The keyboard: the keys that are held down, whether a prefix has been sent without its code, and how often Caps Lock
has been toggled. -/
structure Keyboard where
  held : Finset Key
  prefixed : Bool
  toggled : Nat

/-- One byte that the keyboard sends. -/
inductive Event where
  | escape
  /-- A key is pressed, or repeated while it is held. -/
  | make (k : Key)
  | release (k : Key)

/-- The byte. -/
def Event.byte : Event → BitVec 8
  | .escape => 0xE0
  | .make k => k.code
  | .release k => k.code ||| 0x80

namespace Keyboard

/-- No key is held. -/
def start : Keyboard := ⟨∅, false, 0⟩

/-- The keyboard can send this byte next. -/
def Can (kb : Keyboard) : Event → Prop
  | .escape => kb.prefixed = false
  | .make k => k.ext = kb.prefixed
  | .release k => k.ext = kb.prefixed ∧ k ∈ kb.held

/-- The keyboard after it has sent a byte. -/
def next (kb : Keyboard) : Event → Keyboard
  | .escape => { kb with prefixed := true }
  | .make k => ⟨insert k kb.held, false, if k.IsCapsLock then kb.toggled + 1 else kb.toggled⟩
  | .release k => { kb with held := kb.held.erase k, prefixed := false }

/-- A key of this kind is held. -/
def Down (kb : Keyboard) (m : Modifier) : Prop := ∃ k ∈ kb.held, k.modifier = some m

instance (kb : Keyboard) (m : Modifier) : Decidable (kb.Down m) := by unfold Down; infer_instance

/-- The map for the modifiers that are held. -/
def map (kb : Keyboard) : BitVec 8 → BitVec 8 :=
  if kb.Down .ctl then ctlmap else if kb.Down .shift then shiftmap else normalmap

/-- The character of a key, or 0. -/
def character (kb : Keyboard) (k : Key) : U32 :=
  let c := (kb.map (entry k.ext k.code)).setWidth 32
  if kb.toggled % 2 = 1 then swapCase c else c

/-- What is to be returned for a byte: characters come from keys that are pressed. -/
def produced (kb : Keyboard) : Event → Int
  | .make k => ((kb.next (.make k)).character k).toInt
  | _ => 0

/-- No modifier is released while the other key of its kind is held. -/
def Apart (kb : Keyboard) : Event → Prop
  | .release k => ∀ m, k.modifier = some m → ∀ k' ∈ kb.held, k'.modifier = some m → k' = k
  | _ => True

end Keyboard

/-- The bits of `shift` say what is held, whether the last byte was a prefix, and whether Caps Lock is on. -/
structure Faithful (kb : Keyboard) (shift : U32) : Prop where
  modifiers : ∀ m : Modifier, shift.getLsbD m.bit = decide (kb.Down m)
  e0esc : shift.getLsbD 6 = kb.prefixed
  capslock : shift.getLsbD 3 = decide (kb.toggled % 2 = 1)

/-- The runs in which each byte that is sent meets a condition. -/
inductive Reached (ok : Keyboard → Event → Prop) : Keyboard → U32 → Prop
  | start : Reached ok .start 0
  /-- The controller has no data. -/
  | idle {kb : Keyboard} {shift : U32} (h : Reached ok kb shift) (stat data : BitVec 8) (hstat : stat &&& KBS_DIB = 0) :
      Reached ok kb (kbdGetChar stat data shift).shift
  | read {kb : Keyboard} {shift : U32} (h : Reached ok kb shift) (stat : BitVec 8) (e : Event)
      (hstat : stat &&& KBS_DIB ≠ 0) (hcan : kb.Can e) (hok : ok kb e) :
      Reached ok (kb.next e) (kbdGetChar stat e.byte shift).shift

section Tables

/-- The bits of `shiftcode` are the kinds of modifiers. -/
theorem shiftcode_entry : ∀ ext, ∀ code : BitVec 8, code < 0x80 →
    (shiftcode (entry ext code)).getLsbD 0 = decide (modifierOf ext code = some .shift) ∧
    (shiftcode (entry ext code)).getLsbD 1 = decide (modifierOf ext code = some .ctl) ∧
    (shiftcode (entry ext code)).getLsbD 2 = decide (modifierOf ext code = some .alt) ∧
    (shiftcode (entry ext code)).getLsbD 3 = false ∧ (shiftcode (entry ext code)).getLsbD 6 = false := by
  decide

theorem togglecode_entry : ∀ ext, ∀ code : BitVec 8, code < 0x80 →
    (togglecode (entry ext code)).getLsbD 0 = false ∧ (togglecode (entry ext code)).getLsbD 1 = false ∧
    (togglecode (entry ext code)).getLsbD 2 = false ∧
    (togglecode (entry ext code)).getLsbD 3 = decide (ext = false ∧ code = 0x3A) ∧
    (togglecode (entry ext code)).getLsbD 6 = false := by
  decide

theorem shiftcode_modifier (k : Key) (m : Modifier) :
    (shiftcode (entry k.ext k.code)).getLsbD m.bit = decide (k.modifier = some m) := by
  obtain ⟨hshift, hctl, halt, -, -⟩ := shiftcode_entry k.ext k.code k.low
  cases m with
  | shift => exact hshift
  | ctl => exact hctl
  | alt => exact halt

theorem togglecode_modifier (k : Key) (m : Modifier) : (togglecode (entry k.ext k.code)).getLsbD m.bit = false := by
  obtain ⟨hshift, hctl, halt, -, -⟩ := togglecode_entry k.ext k.code k.low
  cases m with
  | shift => exact hshift
  | ctl => exact hctl
  | alt => exact halt

/-- The bytes of make codes and of break codes. -/
theorem codes : ∀ code : BitVec 8, code < 0x80 → code ≠ 0x60 →
    code ≠ 0xE0 ∧ code &&& 0x80 = 0 ∧ code ||| 0x80 ≠ 0xE0 ∧ (code ||| 0x80) &&& 0x80 ≠ 0 ∧
      (code ||| 0x80) &&& 0x7F = code := by
  decide

end Tables

section Bits

variable {shift : U32}

theorem masked_iff (n : Nat) : shift &&& (1#32 <<< n) ≠ 0 ↔ n < 32 ∧ shift.getLsbD n = true := by
  have htwo : (1#32 <<< n) = BitVec.twoPow 32 n := rfl
  rw [htwo, BitVec.and_twoPow]
  by_cases hbit : shift.getLsbD n = true
  · have hlt : n < 32 := BitVec.lt_of_getLsbD hbit
    rw [if_pos hbit]
    refine iff_of_true (fun hzero => ?_) ⟨hlt, hbit⟩
    have hself : (BitVec.twoPow 32 n).getLsbD n = true := by simp [hlt]
    rw [hzero] at hself
    simp at hself
  · rw [if_neg hbit]
    exact iff_of_false (fun hne => hne rfl) fun h => hbit h.2

theorem e0esc_iff : shift &&& E0ESC ≠ 0 ↔ shift.getLsbD 6 = true :=
  (masked_iff 6).trans (and_iff_right (by decide))

theorem capslock_iff : shift &&& CAPSLOCK ≠ 0 ↔ shift.getLsbD 3 = true :=
  (masked_iff 3).trans (and_iff_right (by decide))

/-- Two bits of `shift` select the map. -/
theorem charcode_eq (shift : U32) : charcode (shift &&& (CTL ||| SHIFT)) =
    if shift.getLsbD 1 = true then ctlmap else if shift.getLsbD 0 = true then shiftmap else normalmap := by
  have hlow : shift &&& (CTL ||| SHIFT) = (shift.setWidth 2).setWidth 32 := by
    have hmask : CTL ||| SHIFT = BitVec.ofNat 32 (2 ^ 2 - 1) := rfl
    apply BitVec.eq_of_toNat_eq
    rw [hmask, BitVec.toNat_and, BitVec.toNat_setWidth, BitVec.toNat_setWidth]
    change shift.toNat &&& (2 ^ 2 - 1) = _
    rw [Nat.and_two_pow_sub_one_eq_mod]
    omega
  have hbit0 : shift.getLsbD 0 = (shift.setWidth 2).getLsbD 0 := by simp
  have hbit1 : shift.getLsbD 1 = (shift.setWidth 2).getLsbD 1 := by simp
  have hall : ∀ b : BitVec 2, charcode (b.setWidth 32) =
      if b.getLsbD 1 = true then ctlmap else if b.getLsbD 0 = true then shiftmap else normalmap := by
    intro b
    unfold charcode
    have hzero : b.setWidth 32 = (0 : U32) ↔ b.getLsbD 1 = false ∧ b.getLsbD 0 = false := by
      revert b
      decide
    have hone : b.setWidth 32 = (1 : U32) ↔ b.getLsbD 1 = false ∧ b.getLsbD 0 = true := by
      revert b
      decide
    simp only [hzero, hone]
    cases b.getLsbD 1 <;> cases b.getLsbD 0 <;> rfl
  rw [hlow, hbit0, hbit1]
  exact hall _

end Bits

section Steps

variable {kb : Keyboard} {shift : U32} {stat : BitVec 8}

theorem faithful_start : Faithful .start 0 where
  modifiers := fun m => by cases m <;> rfl
  e0esc := rfl
  capslock := rfl

theorem idle_shift (stat data : BitVec 8) (hstat : stat &&& KBS_DIB = 0) (shift : U32) :
    (kbdGetChar stat data shift).shift = shift := by
  unfold kbdGetChar
  rw [if_pos hstat]

theorem kbdGetChar_escape (hstat : stat &&& KBS_DIB ≠ 0) (shift : U32) :
    kbdGetChar stat 0xE0 shift = ⟨shift ||| E0ESC, 0, false⟩ := by
  unfold kbdGetChar
  rw [if_neg hstat, if_pos rfl]

theorem faithful_escape (h : Faithful kb shift) : Faithful (kb.next .escape) (shift ||| E0ESC) where
  modifiers := by
    intro m
    have hbit : E0ESC.getLsbD m.bit = false := by cases m <;> rfl
    rw [BitVec.getLsbD_or, hbit, Bool.or_false, h.modifiers m]
    rfl
  e0esc := by
    rw [BitVec.getLsbD_or]
    exact Bool.or_true _
  capslock := by
    rw [BitVec.getLsbD_or, h.capslock]
    exact Bool.or_false _

/-- The entry that `kbdGetChar` finds for a break code. -/
theorem kbdGetChar_release (hstat : stat &&& KBS_DIB ≠ 0) (h : Faithful kb shift) {k : Key} (hk : k.ext = kb.prefixed) :
    kbdGetChar stat (k.code ||| 0x80) shift =
      ⟨shift &&& ~~~(shiftcode (entry k.ext k.code) ||| E0ESC), 0, false⟩ := by
  obtain ⟨-, -, hescape, hbreak, hlow⟩ := codes k.code k.low k.not_prefix
  have hdata : (if shift &&& E0ESC ≠ 0 then k.code ||| 0x80 else (k.code ||| 0x80) &&& 0x7F) = entry k.ext k.code := by
    unfold entry
    rw [hlow, hk]
    exact if_congr (e0esc_iff.trans (by rw [h.e0esc])) rfl rfl
  unfold kbdGetChar
  rw [if_neg hstat, if_neg hescape, if_pos hbreak, hdata]

/-- The entry that `kbdGetChar` finds for a make code. -/
theorem kbdGetChar_make (hstat : stat &&& KBS_DIB ≠ 0) (h : Faithful kb shift) {k : Key} (hk : k.ext = kb.prefixed) :
    ∃ shift', kbdGetChar stat k.code shift = pressed shift' (entry k.ext k.code) ∧
      Faithful { kb with prefixed := false } shift' := by
  obtain ⟨hescape, hmake, -, -, -⟩ := codes k.code k.low k.not_prefix
  have hround : kbdGetChar stat k.code shift =
      if shift &&& E0ESC ≠ 0 then pressed (shift &&& ~~~E0ESC) (k.code ||| 0x80) else pressed shift k.code := by
    unfold kbdGetChar
    rw [if_neg hstat, if_neg hescape, if_neg (not_not.mpr hmake)]
  rw [hround]
  by_cases hext : kb.prefixed = true
  · refine ⟨shift &&& ~~~E0ESC, ?_, ⟨fun m => ?_, ?_, ?_⟩⟩
    · rw [if_pos (e0esc_iff.mpr (h.e0esc.trans hext)), entry, hk, if_pos hext]
    · have hbit : (~~~E0ESC).getLsbD m.bit = true := by cases m <;> rfl
      rw [BitVec.getLsbD_and, hbit, Bool.and_true, h.modifiers m]
      rfl
    · rw [BitVec.getLsbD_and]
      exact Bool.and_false _
    · rw [BitVec.getLsbD_and, h.capslock]
      exact Bool.and_true _
  · have hplain : shift.getLsbD 6 = false := h.e0esc.trans (Bool.eq_false_iff.mpr hext)
    refine ⟨shift, ?_, ⟨h.modifiers, hplain, h.capslock⟩⟩
    have hesc : ¬ shift &&& E0ESC ≠ 0 := fun hesc => hext (h.e0esc.symm.trans (e0esc_iff.mp hesc))
    rw [if_neg hesc, entry, hk, if_neg hext]

theorem down_make (kb : Keyboard) (k : Key) (m : Modifier) :
    (kb.next (.make k)).Down m ↔ kb.Down m ∨ k.modifier = some m := by
  unfold Keyboard.Down
  simp only [Keyboard.next, Finset.mem_insert, exists_eq_or_imp]
  exact or_comm

/-- The bits after a key is pressed. -/
theorem faithful_pressed {k : Key} (h : Faithful { kb with prefixed := false } shift) :
    Faithful (kb.next (.make k)) (pressed shift (entry k.ext k.code)).shift := by
  obtain ⟨-, -, -, hcode3, hcode6⟩ := shiftcode_entry k.ext k.code k.low
  obtain ⟨-, -, -, htoggle3, htoggle6⟩ := togglecode_entry k.ext k.code k.low
  constructor
  · intro m
    show ((shift ||| _) ^^^ _).getLsbD m.bit = _
    rw [BitVec.getLsbD_xor, BitVec.getLsbD_or, togglecode_modifier, shiftcode_modifier, h.modifiers m, Bool.xor_false,
      ← Bool.decide_or]
    exact decide_eq_decide.mpr (down_make kb k m).symm
  · show ((shift ||| _) ^^^ _).getLsbD 6 = false
    rw [BitVec.getLsbD_xor, BitVec.getLsbD_or, hcode6, htoggle6, h.e0esc]
    rfl
  · show ((shift ||| _) ^^^ _).getLsbD 3 = decide ((if k.IsCapsLock then kb.toggled + 1 else kb.toggled) % 2 = 1)
    rw [BitVec.getLsbD_xor, BitVec.getLsbD_or, hcode3, htoggle3, h.capslock, Bool.or_false]
    change (decide (kb.toggled % 2 = 1) ^^ decide k.IsCapsLock) = _
    by_cases hcaps : k.IsCapsLock
    · rw [if_pos hcaps, decide_eq_true hcaps, Bool.xor_true, ← decide_not]
      exact decide_eq_decide.mpr (by omega)
    · rw [if_neg hcaps, decide_eq_false hcaps, Bool.xor_false]

/-- The character of a key that is pressed. -/
theorem pressed_value {k : Key} (h : Faithful (kb.next (.make k)) (pressed shift (entry k.ext k.code)).shift) :
    (pressed shift (entry k.ext k.code)).value = kb.produced (.make k) := by
  have hmap : charcode ((pressed shift (entry k.ext k.code)).shift &&& (CTL ||| SHIFT)) = (kb.next (.make k)).map := by
    have hctl := h.modifiers .ctl
    have hshift := h.modifiers .shift
    unfold Modifier.bit at hctl hshift
    rw [charcode_eq, hctl, hshift]
    simp only [decide_eq_true_eq]
    rfl
  have hcaps : (pressed shift (entry k.ext k.code)).shift &&& CAPSLOCK ≠ 0 ↔ (kb.next (.make k)).toggled % 2 = 1 := by
    rw [capslock_iff, h.capslock, decide_eq_true_eq]
  have hvalue : (pressed shift (entry k.ext k.code)).value =
      (if (pressed shift (entry k.ext k.code)).shift &&& CAPSLOCK ≠ 0 then
        swapCase ((charcode ((pressed shift (entry k.ext k.code)).shift &&& (CTL ||| SHIFT))
          (entry k.ext k.code)).setWidth 32)
      else (charcode ((pressed shift (entry k.ext k.code)).shift &&& (CTL ||| SHIFT))
        (entry k.ext k.code)).setWidth 32).toInt := rfl
  rw [hvalue, hmap]
  exact congrArg BitVec.toInt (if_congr hcaps rfl rfl)

theorem down_release (kb : Keyboard) (k : Key) (m : Modifier) :
    (kb.next (.release k)).Down m ↔ ∃ k' ∈ kb.held, k' ≠ k ∧ k'.modifier = some m := by
  unfold Keyboard.Down
  simp only [Keyboard.next, Finset.mem_erase]
  constructor
  · intro hdown
    obtain ⟨k', ⟨hne, hheld⟩, hkind⟩ := hdown
    exact ⟨k', hheld, hne, hkind⟩
  · intro hdown
    obtain ⟨k', hheld, hne, hkind⟩ := hdown
    exact ⟨k', ⟨hne, hheld⟩, hkind⟩

/-- The bits after a key is released: one of them is cleared, whatever else is held. -/
theorem faithful_release_iff {k : Key} (h : Faithful kb shift) :
    Faithful (kb.next (.release k)) (shift &&& ~~~(shiftcode (entry k.ext k.code) ||| E0ESC)) ↔ kb.Apart (.release k) := by
  have hbit : ∀ m : Modifier, (shift &&& ~~~(shiftcode (entry k.ext k.code) ||| E0ESC)).getLsbD m.bit =
      (decide (kb.Down m) && !decide (k.modifier = some m)) := by
    intro m
    have hesc : E0ESC.getLsbD m.bit = false := by cases m <;> rfl
    have hlt : m.bit < 32 := by cases m <;> decide
    rw [BitVec.getLsbD_and, BitVec.getLsbD_not, BitVec.getLsbD_or, hesc, shiftcode_modifier, h.modifiers m, Bool.or_false,
      decide_eq_true hlt, Bool.true_and]
  constructor
  · intro hafter m hkind k' hheld hkind'
    by_contra hne
    have hdown := hafter.modifiers m
    rw [hbit, decide_eq_true hkind, Bool.not_true, Bool.and_false, eq_comm, decide_eq_false_iff_not, down_release] at hdown
    exact hdown ⟨k', hheld, hne, hkind'⟩
  · intro hapart
    obtain ⟨-, -, -, hcode3, -⟩ := shiftcode_entry k.ext k.code k.low
    refine ⟨fun m => ?_, ?_, ?_⟩
    · rw [hbit, ← decide_not, ← Bool.decide_and]
      refine decide_eq_decide.mpr ?_
      rw [down_release]
      constructor
      · intro hold
        obtain ⟨⟨k', hheld, hkind⟩, hother⟩ := hold
        exact ⟨k', hheld, fun heq => hother (heq ▸ hkind), hkind⟩
      · intro hleft
        obtain ⟨k', hheld, hne, hkind⟩ := hleft
        exact ⟨⟨k', hheld, hkind⟩, fun hk => hne (hapart m hk k' hheld hkind)⟩
    · rw [BitVec.getLsbD_and, BitVec.getLsbD_not, BitVec.getLsbD_or]
      change (_ && (decide (6 < 32) && !(_ || true))) = false
      rw [Bool.or_true]
      exact Bool.and_false _
    · rw [BitVec.getLsbD_and, BitVec.getLsbD_not, BitVec.getLsbD_or, hcode3, h.capslock]
      exact Bool.and_true _

/-- One byte: the bits stay faithful, and the character is the right one, if and only if no modifier is released while
its twin is held. -/
theorem read_faithful_iff (h : Faithful kb shift) (hstat : stat &&& KBS_DIB ≠ 0) {e : Event} (hcan : kb.Can e) :
    Faithful (kb.next e) (kbdGetChar stat e.byte shift).shift ∧ (kbdGetChar stat e.byte shift).value = kb.produced e ↔
      kb.Apart e := by
  cases e with
  | escape =>
      rw [Event.byte, kbdGetChar_escape hstat]
      exact iff_of_true ⟨faithful_escape h, rfl⟩ trivial
  | make k =>
      obtain ⟨shift', hread, hbefore⟩ := kbdGetChar_make hstat h hcan
      have hafter := faithful_pressed (k := k) hbefore
      rw [Event.byte, hread]
      exact iff_of_true ⟨hafter, pressed_value hafter⟩ trivial
  | release k =>
      rw [Event.byte, kbdGetChar_release hstat h hcan.1, ← faithful_release_iff h]
      exact and_iff_left rfl

theorem Reached.faithful (h : Reached Keyboard.Apart kb shift) : Faithful kb shift := by
  induction h with
  | start => exact faithful_start
  | idle h stat data hstat ih =>
      rw [idle_shift stat data hstat]
      exact ih
  | read h stat e hstat hcan hok ih => exact ((read_faithful_iff ih hstat hcan).mpr hok).1

end Steps

/-- In every run in which no modifier is released while the other key of its kind is held, the bits of `shift` say in
each state what is held.  The next byte keeps that, and gives the character of the key, if and only if it is no such
release. -/
theorem modifiers_faithful {kb : Keyboard} {shift : U32} (h : Reached Keyboard.Apart kb shift) :
    Faithful kb shift ∧ ∀ stat e, stat &&& KBS_DIB ≠ 0 → kb.Can e →
      (Faithful (kb.next e) (kbdGetChar stat e.byte shift).shift ∧
          (kbdGetChar stat e.byte shift).value = kb.produced e ↔ kb.Apart e) :=
  ⟨h.faithful, fun _ _ hstat hcan => read_faithful_iff h.faithful hstat hcan⟩

/-- The left Shift key. -/
def leftShift : Key := ⟨false, 0x2A, by decide, by decide⟩

/-- The right Shift key. -/
def rightShift : Key := ⟨false, 0x36, by decide, by decide⟩

/-- The right Ctrl key, which sends a prefix. -/
def rightCtl : Key := ⟨true, 0x1D, by decide, by decide⟩

/-- Both Shift keys are held, and then the right Ctrl key. -/
def threeHeld : Keyboard :=
  (((Keyboard.start.next (.make leftShift)).next (.make rightShift)).next .escape).next (.make rightCtl)

/-- The bytes that have been sent. -/
theorem threeHeld_reached : Reached Keyboard.Apart threeHeld (SHIFT ||| CTL) :=
  .read (.read (.read (.read .start 1 (.make leftShift) (by decide) rfl trivial) 1 (.make rightShift) (by decide) rfl
    trivial) 1 .escape (by decide) rfl trivial) 1 (.make rightCtl) (by decide) rfl trivial

/-- The next letter is right, and the release of one Shift key is not. -/
theorem modifiers_faithful_three : Faithful threeHeld (SHIFT ||| CTL) ∧
    (∀ k, k.ext = false → (kbdGetChar 1 k.code (SHIFT ||| CTL)).value = threeHeld.produced (.make k)) ∧
    ¬ (Faithful (threeHeld.next (.release leftShift)) (kbdGetChar 1 0xAA (SHIFT ||| CTL)).shift ∧
      (kbdGetChar 1 0xAA (SHIFT ||| CTL)).value = threeHeld.produced (.release leftShift)) := by
  obtain ⟨hfaithful, hnext⟩ := modifiers_faithful threeHeld_reached
  refine ⟨hfaithful, ?_, ?_⟩
  · intro k hk
    exact ((hnext 1 (.make k) (by decide) hk).mpr trivial).2
  · intro hrelease
    have hapart := (hnext 1 (.release leftShift) (by decide) ⟨rfl, by decide⟩).mp hrelease
    exact absurd (hapart .shift rfl rightShift (by decide) rfl) (by decide)

/-- Both are pressed and one is released: the other one is held, and the bit is cleared. -/
theorem release_left_clears : ∃ kb shift, Reached (fun _ _ => True) kb shift ∧ rightShift ∈ kb.held ∧ shift = 0 ∧
    ¬ Faithful kb shift := by
  refine ⟨((Keyboard.start.next (.make leftShift)).next (.make rightShift)).next (.release leftShift),
    (kbdGetChar 1 0xAA (kbdGetChar 1 0x36 (kbdGetChar 1 0x2A 0).shift).shift).shift, ?_, by decide, by decide, ?_⟩
  · refine .read (.read (.read .start 1 (.make leftShift) (by decide) rfl trivial) 1 (.make rightShift) (by decide) rfl
      trivial) 1 (.release leftShift) (by decide) ?_ trivial
    exact ⟨rfl, by decide⟩
  · intro h
    exact absurd (h.modifiers .shift) (by decide)

end Kbd
end FreakOS
