import HydraFw.Lib.Rams

/-!
# Formatted output

`cprintf` and `stream_write` (`common.c`).

* `Formatted`        what `vsnprintf` makes of a format and its arguments;
* `Con`              the console: its channel and its log file;
* `cprintf`          the function, over a stack of which the buffer is the start;
* `Prints`           the law: what is handed on is what is in the buffer;
* `prints_iff`       it holds when the text fits.
-/

namespace Hydra
namespace Printf
open Rams

/-- `CPRINTF_BUFF_SIZE`, with the NUL -/
def cprintfBuffSize : Nat := 511

/-- the text, or an error behind the characters stored so far; a text that is too long for an `int`
is an error -/
inductive Formatted where
  | text (chars : List UInt8) (h : chars.length < 2 ^ 31)
  | error (chars : List UInt8) (hc : chars.length < cprintfBuffSize) (code : Int)
      (h : -2 ^ 31 ≤ code ∧ code < 0)

/-- the characters that `vsnprintf` stores, without the NUL -/
def Formatted.stored : Formatted → List UInt8
  | .text chars _ => chars.take (cprintfBuffSize - 1)
  | .error chars _ _ _ => chars

/-- `real_size` -/
def Formatted.realSize : Formatted → Int
  | .text chars _ => chars.length
  | .error _ _ code _ => code

/-- the console, with what its channel and its log file have been given -/
structure Con where
  channel : List UInt8
  /-- `log_file.obj.fs` is set -/
  logging : Bool
  log : List UInt8

def Con.write (con : Con) (data : List UInt8) : Con :=
  { con with
    channel := con.channel ++ data
    log := if con.logging then con.log ++ data else con.log }

/-- `stream_write`; the console may be `NULL` -/
def streamWrite (con : Option Con) (data : Nat → UInt8) (size : Nat) : Option Con :=
  con.map fun con => if size = 0 then con else con.write (slice data 0 size)

/-- the stack from `cprintf_buff` on, behind `vsnprintf` -/
def vsnprintf (stack : Nat → UInt8) (f : Formatted) : Nat → UInt8 :=
  overwrite stack 0 (f.stored ++ [0])

/-- the size that is passed on, as `uint32_t` -/
def Formatted.size (f : Formatted) : Nat := (f.realSize % 2 ^ 32).toNat

def cprintf (con : Option Con) (stack : Nat → UInt8) (f : Formatted) : Option Con :=
  streamWrite con (vsnprintf stack f) f.size

/-! ## the law -/

/-- the characters in the buffer are handed on, and nothing behind them -/
structure Prints (con : Option Con) (stack : Nat → UInt8) (f : Formatted) : Prop where
  size : f.size ≤ f.stored.length
  handed : slice (vsnprintf stack f) 0 f.size = f.stored
  printed : cprintf con stack f = con.map fun con => con.write f.stored

section
variable {con : Option Con} {stack : Nat → UInt8}

theorem stored_length_lt (f : Formatted) : f.stored.length < cprintfBuffSize := by
  cases f with
  | text chars h =>
    rw [Formatted.stored, List.length_take]
    exact Nat.lt_of_le_of_lt (Nat.min_le_left ..) (Nat.lt_succ_self _)
  | error chars hc code h => exact hc

theorem size_text {chars : List UInt8} (h : chars.length < 2 ^ 31) :
    (Formatted.text chars h).size = chars.length := by
  show ((chars.length : Int) % 2 ^ 32).toNat = chars.length
  omega

theorem size_error {chars : List UInt8} (hc : chars.length < cprintfBuffSize) {code : Int}
    (h : -2 ^ 31 ≤ code ∧ code < 0) : 2 ^ 31 ≤ (Formatted.error chars hc code h).size := by
  show 2 ^ 31 ≤ (code % 2 ^ 32).toNat
  omega

theorem slice_vsnprintf (stack : Nat → UInt8) (f : Formatted) :
    slice (vsnprintf stack f) 0 f.stored.length = f.stored := by
  have hle : f.stored.length ≤ (f.stored ++ [0]).length := by
    rw [List.length_append]
    exact Nat.le_add_right ..
  rw [vsnprintf, slice_overwrite_take stack 0 _ hle, List.take_left]

theorem write_nil (con : Con) : con.write [] = con := by
  obtain ⟨channel, logging, log⟩ := con
  unfold Con.write
  rw [List.append_nil, List.append_nil, ite_self]

/-- what fits is printed -/
theorem prints_of_size {f : Formatted} (h : f.size = f.stored.length) : Prints con stack f := by
  have hhanded : slice (vsnprintf stack f) 0 f.size = f.stored := by
    rw [h]
    exact slice_vsnprintf stack f
  refine ⟨Nat.le_of_eq h, hhanded, ?_⟩
  unfold cprintf streamWrite
  rw [hhanded]
  refine congrArg (fun g => con.map g) (funext fun con => ?_)
  split_ifs with hzero
  · rw [h] at hzero
    rw [List.length_eq_zero_iff.mp hzero, write_nil]
  · rfl

/-- **Formatted output** is what it should be exactly when there is no error and the text has at
most 510 characters. -/
theorem prints_iff (con : Option Con) (stack : Nat → UInt8) (f : Formatted) :
    Prints con stack f ↔ ∃ chars h, f = .text chars h ∧ chars.length ≤ 510 := by
  constructor
  · intro hp
    have hsize := hp.size
    have hlt := stored_length_lt f
    cases f with
    | text chars h =>
      rw [size_text h] at hsize
      exact ⟨chars, h, rfl, hsize.trans (Nat.le_of_lt_succ hlt)⟩
    | error chars hc code h =>
      have hbig := size_error hc h
      unfold cprintfBuffSize at hlt
      omega
  · rintro ⟨chars, h, rfl, hle⟩
    refine prints_of_size ?_
    have hall : (Formatted.text chars h).stored = chars := List.take_of_length_le hle
    rw [size_text h, hall]

/-- what `pwd` prints of the current directory -/
def pwdText (path : List UInt8) : List UInt8 := path ++ [0x0D, 0x0A]

/-- the path of a directory of 600 characters -/
theorem pwd_600 : ¬ ∀ (con : Option Con) (stack : Nat → UInt8) (f : Formatted),
    Prints con stack f := by
  intro hall
  let path : List UInt8 := List.replicate 600 0x41
  have hlength : (pwdText path).length = 602 := by
    rw [pwdText, List.length_append, List.length_replicate]
    rfl
  have hlt : (pwdText path).length < 2 ^ 31 := by
    rw [hlength]
    decide
  have hsize := (hall none (fun _ => 0) (.text (pwdText path) hlt)).size
  have hstored := stored_length_lt (.text (pwdText path) hlt)
  rw [size_text, hlength] at hsize
  unfold cprintfBuffSize at hstored
  omega

end
end Printf
end Hydra
