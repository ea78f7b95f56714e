import FreakOS.Base
import FreakOS.Lib.CString

/-!
# The console

`console.c` on the text mode of the screen: 25 rows of 80 cells that scroll.  A terminal has the same editing rules, but
rows without end, and never scrolls.

* `consoleClear`, `consoleScroll`, `consolePutcColor` — as in the source, with a fault for a write outside the screen.
* `Terminal` — the transcript.
* `Shows` — the screen is the last 25 rows of the transcript.
* `console_shows_tail` — it is, after every sequence of characters.
-/

namespace FreakOS
namespace Console

open Lib

/-- `TEXT_color_t`. -/
inductive TextColor where
  | black | blue | green | cyan | red | magenta | brown | white
  | darkGrey | lightBlue | lightGreen | lightCyan | lightRed | lightMagenta | yellow | lightWhite
deriving DecidableEq

/-- The value of a color. -/
def TextColor.value (color : TextColor) : BitVec 16 := BitVec.ofNat 16 color.ctorIdx

/-- `VideoAddr`, by cells. -/
abbrev Video := Nat → BitVec 16

/-- `VideoAddr[i] = cell`. -/
def poke (video : Video) (i : Nat) (cell : BitVec 16) : Res Video :=
  if i < 80 * 25 then .ok (Function.update video i cell) else .error .wildPointer

/-- `VideoAddr[i]`. -/
def peek (video : Video) (i : Nat) : Res (BitVec 16) := if i < 80 * 25 then .ok (video i) else .error .wildPointer

/-- The screen, the cursor, and the location of the cursor in the registers of the hardware. -/
structure State where
  video : Video
  cursorX : BitVec 8
  cursorY : BitVec 8
  location : BitVec 16

/-- `blank`. -/
def blank : BitVec 16 := 0x20 ||| (((TextColor.black.value <<< 4) ||| (TextColor.white.value &&& 0x0F)) <<< 8)

/-- Write a cell to `n` places from `start` on. -/
def fill (video : Video) (start n : Nat) (cell : BitVec 16) : Res Video :=
  (List.range' start n).foldlM (fun video i => poke video i cell) video

/-- `moveCursor()`. -/
def moveCursor (con : State) : State :=
  { con with location := con.cursorY.setWidth 16 * 80 + con.cursorX.setWidth 16 }

/-- `consoleClear()`. -/
def consoleClear (con : State) : Res State := do
  let video ← fill con.video 0 (80 * 25) blank
  return moveCursor { con with video := video, cursorX := 0, cursorY := 0 }

/-- The first loop of `consoleScroll`. -/
def copyRows (video : Video) (n : Nat) : Res Video :=
  (List.range n).foldlM (fun video i => do
    let cell ← peek video (i + 80)
    poke video i cell) video

/-- `consoleScroll()`. -/
def consoleScroll (con : State) : Res State :=
  if 25 ≤ con.cursorY then do
    let video ← copyRows con.video (24 * 80)
    let video ← fill video (24 * 80) 80 blank
    return { con with video := video, cursorY := 24 }
  else .ok con

/-- `color`. -/
def colorOf (back fore : TextColor) : BitVec 16 := ((back.value <<< 4) ||| (fore.value &&& 0x0F)) <<< 8

/-- What `consolePutcColor` does for the character itself. -/
def edit (con : State) (c : Char8) (color : BitVec 16) : Res State :=
  if c = 0x08 ∧ con.cursorX ≠ 0 then .ok { con with cursorX := con.cursorX - 1 }
  else if c = 0x09 then .ok { con with cursorX := (con.cursorX + 8) &&& ~~~(8 - 1) }
  else if c = 0x0D then .ok { con with cursorX := 0 }
  else if c = 0x0A then .ok { con with cursorX := 0, cursorY := con.cursorY + 1 }
  else if 0x20 ≤ c.toInt then do
    let video ← poke con.video (con.cursorY.toNat * 80 + con.cursorX.toNat) (c.signExtend 16 ||| color)
    return { con with video := video, cursorX := con.cursorX + 1 }
  else .ok con

/-- The line is full. -/
def wrap (con : State) : State :=
  if 80 ≤ con.cursorX then { con with cursorX := 0, cursorY := con.cursorY + 1 } else con

/-- `consolePutcColor(c, back, fore)`. -/
def consolePutcColor (con : State) (c : Char8) (back fore : TextColor) : Res State := do
  let con ← edit con c (colorOf back fore)
  let con ← consoleScroll (wrap con)
  return moveCursor con

/-- `consoleWriteStrColor(str, back, fore)`. -/
def consoleWriteStrColor (con : State) (str : CString) (back fore : TextColor) : Res State :=
  str.bytes.foldlM (fun con c => consolePutcColor con c back fore) con

/-- `consoleWriteStr(str)`. -/
def consoleWriteStr (con : State) (str : CString) : Res State := consoleWriteStrColor con str .black .white

/-- A character, with its colors. -/
structure Glyph where
  c : Char8
  back : TextColor
  fore : TextColor

/-- Send characters. -/
def putAll (con : State) (glyphs : List Glyph) : Res State :=
  glyphs.foldlM (fun con g => consolePutcColor con g.c g.back g.fore) con

/-! ### The transcript -/

/-- Rows of 80 cells without end, and the cursor. -/
structure Terminal where
  cell : Nat → Nat → BitVec 16
  x : Nat
  y : Nat

namespace Terminal

/-- Nothing has been written. -/
def start : Terminal := ⟨fun _ _ => blank, 0, 0⟩

/-- The effect of a character where lines have no end. -/
def edit (t : Terminal) (g : Glyph) : Terminal :=
  if g.c = 0x08 then { t with x := t.x - 1 }
  else if g.c = 0x09 then { t with x := (t.x / 8 + 1) * 8 }
  else if g.c = 0x0D then { t with x := 0 }
  else if g.c = 0x0A then { t with x := 0, y := t.y + 1 }
  else if 0x20 ≤ g.c.toInt then
    { t with
      cell := fun row col =>
        if row = t.y ∧ col = t.x then g.c.signExtend 16 ||| colorOf g.back g.fore else t.cell row col
      x := t.x + 1 }
  else t

/-- Lines end behind column 79. -/
def wrap (t : Terminal) : Terminal := if 80 ≤ t.x then { t with x := 0, y := t.y + 1 } else t

/-- Write a character. -/
def put (t : Terminal) (g : Glyph) : Terminal := (t.edit g).wrap

/-- Write characters. -/
def run (t : Terminal) (glyphs : List Glyph) : Terminal := glyphs.foldl put t

end Terminal

/-- The screen shows the transcript up to the row of the cursor, the last 25 rows if there are more. -/
structure Shows (con : State) (t : Terminal) : Prop where
  x : con.cursorX.toNat = t.x
  y : con.cursorY.toNat = min t.y 24
  inside : con.cursorX.toNat < 80 ∧ con.cursorY.toNat < 25
  location : con.location.toNat = con.cursorY.toNat * 80 + con.cursorX.toNat
  cells : ∀ row < 25, ∀ col < 80, con.video (row * 80 + col) = t.cell (t.y - 24 + row) col
  below : ∀ row col, t.y < row → t.cell row col = blank

section Loops

variable {video : Video}

theorem poke_ok {i : Nat} (h : i < 80 * 25) (cell : BitVec 16) :
    poke video i cell = .ok (Function.update video i cell) := if_pos h

theorem fill_ok {start n : Nat} (h : start + n ≤ 80 * 25) (video : Video) (cell : BitVec 16) :
    fill video start n cell = .ok fun i => if start ≤ i ∧ i < start + n then cell else video i := by
  induction n with
  | zero =>
      refine congrArg Except.ok (funext fun i => ?_)
      rw [if_neg (by omega)]
  | succ n ih =>
      have hih := ih (by omega)
      unfold fill at hih ⊢
      rw [List.range'_concat, Nat.one_mul, List.foldlM_append, hih, Res.ok_bind, List.foldlM_cons, poke_ok (by omega)]
      refine congrArg Except.ok (funext fun i => ?_)
      by_cases hi : i = start + n
      · rw [hi, Function.update_self, if_pos (by omega)]
      · rw [Function.update_of_ne hi]
        exact if_congr (by omega) rfl rfl

theorem copyRows_ok {n : Nat} (h : n ≤ 24 * 80) (video : Video) :
    copyRows video n = .ok fun i => if i < n then video (i + 80) else video i := by
  induction n with
  | zero => exact congrArg Except.ok (funext fun i => (if_neg (Nat.not_lt_zero i)).symm)
  | succ n ih =>
      have hih := ih (by omega)
      have hpeek : peek (fun i => if i < n then video (i + 80) else video i) (n + 80) = .ok (video (n + 80)) := by
        unfold peek
        rw [if_pos (by omega)]
        exact congrArg Except.ok (if_neg (by omega))
      unfold copyRows at hih ⊢
      rw [List.range_succ, List.foldlM_append, hih, Res.ok_bind, List.foldlM_cons, hpeek, Res.ok_bind, poke_ok (by omega)]
      refine congrArg Except.ok (funext fun i => ?_)
      by_cases hi : i = n
      · rw [hi, Function.update_self, if_pos (by omega)]
      · rw [Function.update_of_ne hi]
        exact if_congr (by omega) rfl rfl

end Loops

section Steps

/-- The screen shows the transcript from row `top` on, before it scrolls. -/
structure ShowsFrom (top : Nat) (con : State) (t : Terminal) : Prop where
  x : con.cursorX.toNat = t.x
  y : top + con.cursorY.toNat = t.y
  cells : ∀ row < 25, ∀ col < 80, con.video (row * 80 + col) = t.cell (top + row) col
  below : ∀ row col, t.y < row → t.cell row col = blank
  fresh : ∀ row col, top + 25 ≤ row → t.cell row col = blank

variable {top : Nat} {con : State} {t : Terminal}

theorem tab_toNat : ∀ x : BitVec 8, x < 80 → ((x + 8) &&& ~~~(8 - 1)).toNat = (x.toNat / 8 + 1) * 8 := by decide

theorem toNat_succ {x : BitVec 8} (h : x.toNat < 80) : (x + 1).toNat = x.toNat + 1 := by
  rw [BitVec.toNat_add]
  exact Nat.mod_eq_of_lt (Nat.lt_of_le_of_lt (Nat.succ_le_of_lt h) (by decide))

/-- The cursor moves, not to a row above. -/
theorem ShowsFrom.move (h : ShowsFrom top con t) {x y : BitVec 8} {tx ty : Nat} (hx : x.toNat = tx)
    (hy : top + y.toNat = ty) (hle : t.y ≤ ty) :
    ShowsFrom top { con with cursorX := x, cursorY := y } { t with x := tx, y := ty } :=
  ⟨hx, hy, h.cells, fun row col hrow => h.below row col (Nat.lt_of_le_of_lt hle hrow), h.fresh⟩

/-- A cell is written at the cursor. -/
theorem ShowsFrom.print (h : ShowsFrom top con t) (hx : con.cursorX.toNat < 80) (hy : con.cursorY.toNat < 25)
    (cell : BitVec 16) :
    ShowsFrom top
      { con with
        video := Function.update con.video (con.cursorY.toNat * 80 + con.cursorX.toNat) cell
        cursorX := con.cursorX + 1 }
      { t with cell := fun row col => if row = t.y ∧ col = t.x then cell else t.cell row col, x := t.x + 1 } where
  x := (toNat_succ hx).trans (congrArg Nat.succ h.x)
  y := h.y
  cells := by
    intro row hrow col hcol
    have hplace : row * 80 + col = con.cursorY.toNat * 80 + con.cursorX.toNat ↔ top + row = t.y ∧ col = t.x := by
      rw [← h.y, ← h.x]
      omega
    change Function.update con.video (con.cursorY.toNat * 80 + con.cursorX.toNat) cell (row * 80 + col) =
      if top + row = t.y ∧ col = t.x then cell else t.cell (top + row) col
    rw [Function.update_apply, if_congr hplace rfl rfl, h.cells row hrow col hcol]
  below := by
    intro row col hrow
    have hne : ¬ (row = t.y ∧ col = t.x) := fun hat => Nat.lt_irrefl t.y (hat.1 ▸ hrow)
    exact (if_neg hne).trans (h.below row col hrow)
  fresh := by
    intro row col hrow
    have hne : ¬ (row = t.y ∧ col = t.x) := by
      rw [← h.y]
      omega
    exact (if_neg hne).trans (h.fresh row col hrow)

/-- The place of the cursor after a character: behind the line at most, or below the screen at the begin of a line. -/
def Pending (con : State) : Prop :=
  con.cursorX.toNat ≤ 80 ∧ con.cursorY.toNat ≤ 24 ∨ con.cursorX.toNat = 0 ∧ con.cursorY.toNat ≤ 25

/-- The character itself. -/
theorem edit_shows (h : ShowsFrom top con t) (hx : con.cursorX.toNat < 80) (hy : con.cursorY.toNat < 25) (g : Glyph) :
    ∃ con', edit con g.c (colorOf g.back g.fore) = .ok con' ∧ ShowsFrom top con' (t.edit g) ∧ Pending con' ∧
      con.cursorY.toNat ≤ con'.cursorY.toNat := by
  unfold edit Terminal.edit
  by_cases hback : g.c = 0x08
  · rw [if_pos hback]
    by_cases hzero : con.cursorX = 0
    · have hcontrol : ¬ 0x20 ≤ g.c.toInt := by rw [hback]; decide
      rw [if_neg fun hb => hb.2 hzero, if_neg (by rw [hback]; decide), if_neg (by rw [hback]; decide),
        if_neg (by rw [hback]; decide), if_neg hcontrol]
      have htx : con.cursorX.toNat = t.x - 1 := by
        have hx0 := h.x
        rw [hzero] at hx0 ⊢
        rw [← hx0]
        rfl
      exact ⟨con, rfl, h.move htx h.y (Nat.le_refl _), .inl ⟨by omega, by omega⟩, Nat.le_refl _⟩
    · rw [if_pos ⟨hback, hzero⟩]
      have hpos : con.cursorX.toNat ≠ 0 := fun hz => hzero (BitVec.eq_of_toNat_eq hz)
      have hpred : (con.cursorX - 1).toNat = con.cursorX.toNat - 1 := by
        have hone : (1 : BitVec 8) ≤ con.cursorX := BitVec.le_def.mpr (Nat.one_le_iff_ne_zero.mpr hpos)
        rw [BitVec.toNat_sub_of_le hone]
        rfl
      refine ⟨_, rfl, h.move (hpred.trans ?_) h.y (Nat.le_refl _), .inl ⟨?_, ?_⟩, Nat.le_refl _⟩
      · rw [h.x]
      · change (con.cursorX - 1).toNat ≤ 80
        omega
      · change con.cursorY.toNat ≤ 24
        omega
  · rw [if_neg fun hb => hback hb.1, if_neg hback]
    by_cases htab : g.c = 0x09
    · rw [if_pos htab, if_pos htab]
      have hstop := tab_toNat con.cursorX (BitVec.lt_def.mpr hx)
      refine ⟨_, rfl, h.move (hstop.trans ?_) h.y (Nat.le_refl _), .inl ⟨?_, ?_⟩, Nat.le_refl _⟩
      · rw [h.x]
      · change ((con.cursorX + 8) &&& ~~~(8 - 1)).toNat ≤ 80
        omega
      · change con.cursorY.toNat ≤ 24
        omega
    · rw [if_neg htab, if_neg htab]
      by_cases hreturn : g.c = 0x0D
      · rw [if_pos hreturn, if_pos hreturn]
        exact ⟨_, rfl, h.move rfl h.y (Nat.le_refl _), .inr ⟨rfl, Nat.le_of_lt hy⟩, Nat.le_refl _⟩
      · rw [if_neg hreturn, if_neg hreturn]
        by_cases hnewline : g.c = 0x0A
        · rw [if_pos hnewline, if_pos hnewline]
          have hsucc := toNat_succ (x := con.cursorY) (Nat.lt_trans hy (by decide))
          refine ⟨_, rfl, h.move rfl ?_ (Nat.le_succ _), .inr ⟨rfl, ?_⟩, ?_⟩
          · rw [hsucc, ← h.y]
            rfl
          · change (con.cursorY + 1).toNat ≤ 25
            omega
          · change con.cursorY.toNat ≤ (con.cursorY + 1).toNat
            omega
        · rw [if_neg hnewline, if_neg hnewline]
          by_cases hprint : 0x20 ≤ g.c.toInt
          · rw [if_pos hprint, if_pos hprint, poke_ok (by omega)]
            refine ⟨_, rfl, h.print hx hy _, .inl ⟨?_, ?_⟩, Nat.le_refl _⟩
            · change (con.cursorX + 1).toNat ≤ 80
              rw [toNat_succ hx]
              exact hx
            · change con.cursorY.toNat ≤ 24
              omega
          · rw [if_neg hprint, if_neg hprint]
            exact ⟨con, rfl, h, .inl ⟨Nat.le_of_lt hx, by omega⟩, Nat.le_refl _⟩

/-- The end of the line. -/
theorem wrap_shows (h : ShowsFrom top con t) (hpending : Pending con) :
    ShowsFrom top (wrap con) t.wrap ∧ (wrap con).cursorX.toNat < 80 ∧ (wrap con).cursorY.toNat ≤ 25 ∧
      con.cursorY.toNat ≤ (wrap con).cursorY.toNat := by
  unfold Pending at hpending
  unfold wrap Terminal.wrap
  have hfull : 80 ≤ con.cursorX ↔ 80 ≤ t.x := by
    rw [BitVec.le_def, h.x]
    rfl
  by_cases hx : 80 ≤ con.cursorX
  · have hcol : 80 ≤ con.cursorX.toNat := BitVec.le_def.mp hx
    have hsucc := toNat_succ (x := con.cursorY) (by omega)
    rw [if_pos hx, if_pos (hfull.mp hx)]
    refine ⟨h.move rfl ?_ (Nat.le_succ _), Nat.zero_lt_succ 79, ?_, ?_⟩
    · rw [hsucc, ← h.y]
      rfl
    · change (con.cursorY + 1).toNat ≤ 25
      omega
    · change con.cursorY.toNat ≤ (con.cursorY + 1).toNat
      omega
  · have hcol : ¬ 80 ≤ con.cursorX.toNat := fun hcol => hx (BitVec.le_def.mpr hcol)
    rw [if_neg hx, if_neg fun ht => hx (hfull.mpr ht)]
    exact ⟨h, by omega, by omega, Nat.le_refl _⟩

/-- The row that comes in below is blank in the transcript, too. -/
theorem consoleScroll_shows (h : ShowsFrom top con t) (hy : con.cursorY.toNat ≤ 25) :
    ∃ top' con', consoleScroll con = .ok con' ∧ ShowsFrom top' con' t ∧ con'.cursorX = con.cursorX ∧
      con'.cursorY.toNat ≤ 24 ∧ (top' = top ∧ con'.cursorY = con.cursorY ∨ con'.cursorY.toNat = 24) := by
  unfold consoleScroll
  by_cases hfull : 25 ≤ con.cursorY
  · have hrow : 25 ≤ con.cursorY.toNat := BitVec.le_def.mp hfull
    rw [if_pos hfull, copyRows_ok (by decide), Res.ok_bind, fill_ok (by decide), Res.ok_bind]
    refine ⟨top + 1, _, rfl, ⟨h.x, ?_, ?_, h.below, ?_⟩, rfl, Nat.le_refl 24, .inr rfl⟩
    · rw [← h.y]
      change top + 1 + 24 = top + con.cursorY.toNat
      omega
    · intro row hrow' col hcol
      change (if 24 * 80 ≤ row * 80 + col ∧ row * 80 + col < 24 * 80 + 80 then blank else
        if row * 80 + col < 24 * 80 then con.video (row * 80 + col + 80) else con.video (row * 80 + col)) = _
      by_cases hlast : row = 24
      · rw [if_pos (by omega), hlast, h.fresh (top + 1 + 24) col (by omega)]
      · have hmove : row * 80 + col + 80 = (row + 1) * 80 + col := by omega
        have hnext : top + 1 + row = top + (row + 1) := by omega
        rw [if_neg (by omega), if_pos (by omega), hmove, h.cells (row + 1) (by omega) col hcol, hnext]
    · exact fun row col hlow => h.fresh row col (by omega)
  · have hrow : ¬ 25 ≤ con.cursorY.toNat := fun hrow => hfull (BitVec.le_def.mpr hrow)
    rw [if_neg hfull]
    exact ⟨top, con, rfl, h, rfl, by omega, .inl ⟨rfl, rfl⟩⟩

theorem moveCursor_location (hx : con.cursorX.toNat < 80) (hy : con.cursorY.toNat < 25) :
    (moveCursor con).location.toNat = con.cursorY.toNat * 80 + con.cursorX.toNat := by
  unfold moveCursor
  have hlow : ∀ n : Nat, n < 80 → n % 2 ^ 16 = n := fun n hn => Nat.mod_eq_of_lt (Nat.lt_trans hn (by decide))
  rw [BitVec.toNat_add, BitVec.toNat_mul, BitVec.toNat_setWidth, BitVec.toNat_setWidth, hlow _ hx,
    hlow _ (Nat.lt_trans hy (by decide))]
  change (con.cursorY.toNat * 80 % 2 ^ 16 + con.cursorX.toNat) % 2 ^ 16 = _
  omega

/-- The cursor is in the first row that the screen does not show from the begin, or in the last one. -/
theorem Shows.of_from (h : ShowsFrom top con t) (hx : con.cursorX.toNat < 80) (hy : con.cursorY.toNat ≤ 24)
    (htop : top = 0 ∨ con.cursorY.toNat = 24) : Shows (moveCursor con) t := by
  have hbase : top = t.y - 24 := by
    have hrow := h.y
    omega
  refine ⟨h.x, ?_, ⟨hx, Nat.lt_succ_of_le hy⟩, moveCursor_location hx (Nat.lt_succ_of_le hy), hbase ▸ h.cells, h.below⟩
  have hrow := h.y
  change con.cursorY.toNat = _
  omega

theorem Shows.from (h : Shows con t) :
    ∃ top, ShowsFrom top con t ∧ (top = 0 ∨ con.cursorY.toNat = 24) := by
  have hrow := h.y
  refine ⟨t.y - 24, ⟨h.x, by omega, h.cells, h.below, fun row col hlow => h.below row col (by omega)⟩, by omega⟩

/-- One character. -/
theorem consolePutcColor_shows (h : Shows con t) (g : Glyph) :
    ∃ con', consolePutcColor con g.c g.back g.fore = .ok con' ∧ Shows con' (t.put g) := by
  obtain ⟨top, hfrom, htop⟩ := h.from
  obtain ⟨con₁, hedit, hshows₁, hpending, hrow₁⟩ := edit_shows hfrom h.inside.1 h.inside.2 g
  obtain ⟨hshows₂, hcol₂, hrow₂, hdown₂⟩ := wrap_shows hshows₁ hpending
  obtain ⟨top', con₃, hscroll, hshows₃, hcol₃, hrow₃, hlast⟩ := consoleScroll_shows hshows₂ hrow₂
  refine ⟨moveCursor con₃, ?_, .of_from hshows₃ (by rw [hcol₃]; exact hcol₂) hrow₃ ?_⟩
  · unfold consolePutcColor
    rw [hedit, Res.ok_bind, hscroll]
    rfl
  · cases hlast with
    | inr hbottom => exact .inr hbottom
    | inl hsame =>
        refine htop.imp (fun hzero => hsame.1.trans hzero) fun hbottom => ?_
        have hdown : con₃.cursorY.toNat = (wrap con₁).cursorY.toNat := congrArg BitVec.toNat hsame.2
        omega

theorem consoleClear_shows (con : State) : ∃ con', consoleClear con = .ok con' ∧ Shows con' .start := by
  have hfill : fill con.video 0 (80 * 25) blank =
      .ok fun i => if 0 ≤ i ∧ i < 0 + 80 * 25 then blank else con.video i := fill_ok (by decide) con.video blank
  unfold consoleClear
  rw [hfill, Res.ok_bind]
  refine ⟨_, rfl, rfl, rfl, ⟨Nat.zero_lt_succ 79, Nat.zero_lt_succ 24⟩, rfl, ?_, fun _ _ _ => rfl⟩
  intro row hrow col hcol
  exact if_pos (by omega)

theorem putAll_shows (h : Shows con t) (glyphs : List Glyph) :
    ∃ con', putAll con glyphs = .ok con' ∧ Shows con' (t.run glyphs) := by
  induction glyphs generalizing con t with
  | nil => exact ⟨con, rfl, h⟩
  | cons g glyphs ih =>
      obtain ⟨con₁, hput, hshows⟩ := consolePutcColor_shows h g
      obtain ⟨con', hrest, hshows'⟩ := ih hshows
      refine ⟨con', ?_, hshows'⟩
      unfold putAll at hrest ⊢
      rw [List.foldlM_cons, hput, Res.ok_bind, hrest]

/-- Strings are written character by character. -/
theorem consoleWriteStrColor_eq (con : State) (str : CString) (back fore : TextColor) :
    consoleWriteStrColor con str back fore = putAll con (str.bytes.map fun c => ⟨c, back, fore⟩) := by
  unfold consoleWriteStrColor putAll
  rw [List.foldlM_map]

end Steps

/-- After `consoleClear`, whatever the screen held, every sequence of characters in any colors is written inside the
screen, which then shows the last 25 rows of the transcript, with blank rows below. -/
theorem console_shows_tail (con : State) (glyphs : List Glyph) :
    ∃ con', (consoleClear con >>= fun con => putAll con glyphs) = .ok con' ∧
      Shows con' (Terminal.start.run glyphs) := by
  obtain ⟨con₀, hclear, hshows⟩ := consoleClear_shows con
  obtain ⟨con', hput, hshows'⟩ := putAll_shows hshows glyphs
  refine ⟨con', ?_, hshows'⟩
  rw [hclear, Res.ok_bind, hput]

end Console
end FreakOS
