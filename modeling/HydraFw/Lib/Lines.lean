import Mathlib.Algebra.Order.Ring.Nat
import Mathlib.Data.List.Basic

/-!
# Text files with comments

A comment is a line whose first byte is a `#`.

* `lines`, `uncommented`   the lines of a text, each with its newline, and those not comments;
* `Pos`                    a place in a text, as far as comments go;
* `Pos.kept`               the bytes outside comments, from a place on;
* `Gets`                   a reader that returns a line, or a part of one, for a length;
* `Gets.pieces`            what it returns, until the file is at its end;
* `Gets.wholeLines`        the one whose parts are as long as the length allows.
-/

namespace Lines

abbrev Byte := BitVec 8

def newline : Byte := 0x0a
def hash : Byte := 0x23

def lines : List Byte → List (List Byte)
  | [] => []
  | b :: text =>
    if b = newline then [b] :: lines text
    else match lines text with
      | [] => [[b]]
      | line :: rest => (b :: line) :: rest

def isComment (line : List Byte) : Bool := line.head? = some hash

def uncommented (text : List Byte) : List (List Byte) := (lines text).filter fun l => !isComment l

/-! ## places -/

inductive Pos where
  | start
  | inside (comment : Bool)

/-- the byte `b` at a place belongs to a comment -/
def Pos.comment : Pos → Byte → Bool
  | .start, b => b = hash
  | .inside c, _ => c

def Pos.next (p : Pos) (b : Byte) : Pos := if b = newline then .start else .inside (p.comment b)

def Pos.after (p : Pos) (text : List Byte) : Pos := text.foldl Pos.next p

def Pos.kept : Pos → List Byte → List Byte
  | _, [] => []
  | p, b :: text => (if p.comment b then [] else [b]) ++ (p.next b).kept text

theorem Pos.kept_append (p : Pos) (a b : List Byte) :
    p.kept (a ++ b) = p.kept a ++ (p.after a).kept b := by
  induction a generalizing p with
  | nil => rfl
  | cons c a ih =>
    show (if p.comment c then [] else [c]) ++ (p.next c).kept (a ++ b) = _
    rw [ih, ← List.append_assoc]
    rfl

/-- a part of a line is a comment, or none of it is -/
theorem Pos.kept_part (p : Pos) {b : Byte} {text : List Byte}
    (h : newline ∉ (b :: text).dropLast) :
    p.kept (b :: text) = if p.comment b then [] else b :: text := by
  induction text generalizing p b with
  | nil => exact List.append_nil _
  | cons c text ih =>
    have hb : b ≠ newline := fun hb => h (by rw [hb]; exact List.mem_cons_self)
    have hrest : newline ∉ (c :: text).dropLast := fun hc => h (List.mem_cons_of_mem b hc)
    have hnext : p.next b = .inside (p.comment b) := if_neg hb
    show (if p.comment b then [] else [b]) ++ (p.next b).kept (c :: text) = _
    rw [hnext, ih _ hrest]
    show _ ++ (if p.comment b then [] else c :: text) = _
    cases p.comment b with
    | false => rfl
    | true => rfl

/-- what is kept from a place in a line, by the lines of the text -/
def keptLines (c : Bool) : List (List Byte) → List Byte
  | [] => []
  | line :: rest => (if c then [] else line) ++ (rest.filter fun l => !isComment l).flatten

theorem kept_lines (text : List Byte) :
    Pos.start.kept text = (uncommented text).flatten ∧
      ∀ c, (Pos.inside c).kept text = keptLines c (lines text) := by
  induction text with
  | nil => exact ⟨rfl, fun _ => rfl⟩
  | cons b text ih =>
    obtain ⟨hstart, hinside⟩ := ih
    rw [uncommented, lines]
    by_cases hb : b = newline
    · have hnl : ∀ p : Pos, p.kept (b :: text) =
          (if p.comment b then [] else [b]) ++ (uncommented text).flatten := by
        intro p
        rw [← hstart, Pos.kept, Pos.next, if_pos hb]
      rw [if_pos hb]
      refine ⟨?_, fun c => hnl (.inside c)⟩
      rw [hnl, hb]
      rfl
    · have hin : ∀ p : Pos, p.kept (b :: text) =
          (if p.comment b then [] else [b]) ++ keptLines (p.comment b) (lines text) := by
        intro p
        rw [Pos.kept, Pos.next, if_neg hb, hinside]
      rw [if_neg hb]
      cases hl : lines text with
      | nil =>
        simp only [hl] at hin
        refine ⟨?_, fun c => hin (.inside c)⟩
        rw [hin]
        show (if decide (b = hash) then [] else [b]) ++ [] = _
        by_cases hh : b = hash <;> simp [hh, isComment]
      | cons line rest =>
        simp only [hl] at hin
        constructor
        · rw [hin]
          show (if decide (b = hash) then [] else [b]) ++
            ((if decide (b = hash) then [] else line) ++ _) = _
          by_cases hh : b = hash <;> simp [hh, isComment]
        · intro c
          rw [hin]
          cases c with
          | false => rfl
          | true => rfl

theorem kept_start (text : List Byte) : Pos.start.kept text = (uncommented text).flatten :=
  (kept_lines text).1

/-! ## reading -/

/-- a function that returns at most `len - 1` bytes of the current line -/
structure Gets where
  /-- for a length and what is left of the file -/
  piece : Nat → List Byte → List Byte
  isPrefix : ∀ len text, piece len text <+: text
  length_lt : ∀ len text, 1 < len → (piece len text).length < len
  ne_nil : ∀ len text, 1 < len → text ≠ [] → piece len text ≠ []
  newline_last : ∀ len text, newline ∉ (piece len text).dropLast

/-- the first `n` pieces of a text, one after the other -/
def Gets.read (g : Gets) (len : Nat) : Nat → List Byte → List (List Byte)
  | 0, _ => []
  | n + 1, text =>
    if text = [] then [] else g.piece len text :: g.read len n (text.drop (g.piece len text).length)

/-- all of them, of which there are no more than bytes -/
def Gets.pieces (g : Gets) (len : Nat) (text : List Byte) : List (List Byte) :=
  g.read len text.length text

/-- the line that a text begins with, or its first `n` bytes -/
def takeLine : Nat → List Byte → List Byte
  | 0, _ => []
  | _, [] => []
  | n + 1, b :: text => if b = newline then [b] else b :: takeLine n text

theorem takeLine_prefix (n : Nat) (text : List Byte) : takeLine n text <+: text := by
  induction n generalizing text with
  | zero => exact List.nil_prefix
  | succ n ih =>
    cases text with
    | nil => exact List.nil_prefix
    | cons b text =>
      rw [takeLine]
      split
      · exact ⟨text, rfl⟩
      · exact List.cons_prefix_cons.mpr ⟨rfl, ih text⟩

theorem takeLine_length_le (n : Nat) (text : List Byte) : (takeLine n text).length ≤ n := by
  induction n generalizing text with
  | zero => exact Nat.le_refl 0
  | succ n ih =>
    cases text with
    | nil => exact Nat.zero_le _
    | cons b text =>
      rw [takeLine]
      split
      · exact Nat.succ_le_succ (Nat.zero_le n)
      · exact Nat.succ_le_succ (ih text)

theorem takeLine_newline (n : Nat) (text : List Byte) :
    newline ∉ (takeLine n text).dropLast := by
  induction n generalizing text with
  | zero => exact List.not_mem_nil
  | succ n ih =>
    cases text with
    | nil => exact List.not_mem_nil
    | cons b text =>
      rw [takeLine]
      split
      · exact List.not_mem_nil
      · next hb =>
        intro hmem
        cases hline : takeLine n text with
        | nil =>
          rw [hline] at hmem
          exact absurd hmem List.not_mem_nil
        | cons c line =>
          rw [hline, List.dropLast_cons_cons, List.mem_cons] at hmem
          rcases hmem with hmem | hmem
          · exact hb hmem.symm
          · exact ih text (by rw [hline]; exact hmem)

theorem takeLine_ne_nil {n : Nat} {text : List Byte} (hn : 0 < n) (h : text ≠ []) :
    takeLine n text ≠ [] := by
  obtain ⟨n, rfl⟩ := Nat.exists_eq_succ_of_ne_zero (Nat.ne_of_gt hn)
  obtain ⟨b, text, rfl⟩ := List.exists_cons_of_ne_nil h
  rw [takeLine]
  split
  · exact List.cons_ne_nil _ _
  · exact List.cons_ne_nil _ _

def Gets.wholeLines : Gets where
  piece len text := takeLine (len - 1) text
  isPrefix len text := takeLine_prefix (len - 1) text
  length_lt len text h := by
    have := takeLine_length_le (len - 1) text
    omega
  ne_nil _ _ h htext := takeLine_ne_nil (Nat.sub_pos_of_lt h) htext
  newline_last len text := takeLine_newline (len - 1) text

end Lines
