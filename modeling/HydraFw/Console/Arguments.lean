import HydraFw.Console.Checks
import HydraFw.Lib.Loops

/-!
# The byte arguments of a write

`chomp_integers` (`hydrabus_mode.c`) with the bytes that it stores into `buffer_tx`.

* `Line`             a parsed line with 32-bit integers, and the bytes of its strings;
* `Chomp.pass`       a pass of the loop, `chompIntegers` the function;
* `chompIntegers_next`   a pass is a turn of the walk;
* `readArgs`         the arguments of a line;
* `chompIntegers_spec`   the loop ends, with what the checks let through.
-/

namespace Hydra
namespace Write
open Slots Walk Loops

abbrev Words := List (Item Token.argument Token.zero Int)

structure Line extends Parsed where
  lo : ∀ o, -2 ^ 31 ≤ int o
  hi : ∀ o, int o < 2 ^ 31
  /-- what `parse_escaped_string` stores for the string at an offset -/
  string : Int → List UInt8
  string_length : ∀ o, (string o).length = escaped o

/-! ## `chomp_integers` -/

/-- `bytes` are stored from `buffer_tx[0]` on, and `*num_bytes` is their number -/
structure Chomp where
  t : Nat
  bytes : List UInt8
  /-- how often `bsp_rng_read` has been called -/
  drawn : Nat
  /-- the message of a `return 0` -/
  error : Option String

section
variable (rng : Nat → UInt8) (p : Line)

def Chomp.more (s : Chomp) : Bool :=
  s.error = none ∧ (p.tok s.t = .argUint ∨ p.tok s.t = .tilde)

/-- `arg_uint` -/
def Chomp.value (s : Chomp) : Nat :=
  if p.tok s.t = .tilde then (rng s.drawn).toNat
  else (p.int (p.offset (s.t + 1)) % 2 ^ 32).toNat

/-- behind `arg_uint` -/
def Chomp.behind (s : Chomp) : Chomp :=
  if p.tok s.t = .tilde then { s with t := s.t + 1, drawn := s.drawn + 1 }
  else { s with t := s.t + 2 }

def Chomp.store (n value : Nat) (s : Chomp) : Chomp :=
  { s with bytes := s.bytes ++ List.replicate n (UInt8.ofNat value) }

/-- the repeat count, when the byte has been stored once -/
def Chomp.again (value : Nat) (s : Chomp) : Chomp :=
  if p.tok s.t = .argTokenSuffixInt then
    let count := p.int (p.offset (s.t + 1))
    let s := { s with t := s.t + 2 }
    if (s.bytes.length + count) % 2 ^ 32 > bufferSize then { s with error := some tooMany }
    else s.store (count - 1).toNat value
  else s

def Chomp.pass (s : Chomp) : Chomp :=
  let value := s.value rng p
  let s := s.behind p
  if value > 0xff then { s with error := some oneByte } else (s.store 1 value).again p value

/-- each pass goes over an item of the line -/
def chompIntegers (t : Nat) : Chomp :=
  whileN (Chomp.more p) (Chomp.pass rng p) p.line.length ⟨t, [], 0, none⟩

/-- what it returns -/
def Chomp.used (s : Chomp) (t : Nat) : Nat := if s.error = none then s.t - t else 0

end

/-! ## a pass is a turn of the walk -/

/-- where the walk is behind a pass -/
def Chomp.place (p : Line) (s : Chomp) : Place :=
  if s.error = none then
    if s.more p then .integers s.t s.bytes.length else .mode s.t
  else .done

theorem chompTest_next (p : Line) (reads : List Read) (acts : List Nat) (s : Chomp)
    (he : s.error = none) :
    (chompTest p.toParsed reads acts s.t s.bytes.length).next = s.place p := by
  have hmore : s.more p = true ↔ p.tok s.t = .argUint ∨ p.tok s.t = .tilde := by
    unfold Chomp.more
    rw [decide_eq_true_iff, and_iff_right he]
  unfold chompTest Chomp.place
  rw [if_pos he, if_congr hmore rfl rfl]
  split_ifs <;> rfl

theorem chompCount_next (p : Line) (reads : List Read) (acts : List Nat) (v n : Nat) (s : Chomp)
    (he : s.error = none) (hn : s.bytes.length = n) :
    (chompCount p.toParsed reads acts s.t n).next = (s.again p v).place p := by
  subst hn
  unfold chompCount Chomp.again
  by_cases hsuffix : p.tok s.t = .argTokenSuffixInt
  · simp only [if_pos hsuffix]
    split_ifs with hover
    · rfl
    · have htest := chompTest_next p (reads ++ [.token s.t, .offset (s.t + 1)]) acts
        (({ s with t := s.t + 2 } : Chomp).store (p.int (p.offset (s.t + 1)) - 1).toNat v) he
      rwa [Chomp.store, List.length_append, List.length_replicate] at htest
  · simp only [if_neg hsuffix]
    exact chompTest_next p _ acts s he

theorem chompIntegers_next (rng : Nat → UInt8) (p : Line) (s : Chomp) (he : s.error = none) :
    (Walk.chompIntegers p.toParsed s.t s.bytes.length).next = (s.pass rng p).place p := by
  have hcount := fun reads acts (s : Chomp) (v : Nat) (he : s.error = none) =>
    chompCount_next p reads acts v (s.bytes.length + 1) (s.store 1 v) he List.length_append
  unfold Walk.chompIntegers Chomp.pass Chomp.value Chomp.behind
  by_cases htilde : p.tok s.t = .tilde
  · have hbyte : ¬ (rng s.drawn).toNat > 0xff :=
      Nat.not_lt.mpr (Nat.le_of_lt_succ (rng s.drawn).toNat_lt)
    simp only [if_pos htilde, if_neg hbyte]
    exact hcount [] [s.t] { s with t := s.t + 1, drawn := s.drawn + 1 } _ he
  · have hbyte : p.int (p.offset (s.t + 1)) % 2 ^ 32 > 0xff ↔
        (p.int (p.offset (s.t + 1)) % 2 ^ 32).toNat > 0xff := by omega
    simp only [if_neg htilde, hbyte]
    split_ifs
    · rfl
    · exact hcount [.offset (s.t + 1)] [s.t] { s with t := s.t + 2 } _ he

/-! ## the arguments -/

/-- the cells that a word takes -/
def cellsOf (i : Item Token.argument Token.zero Int) : Nat := if i.slot.isSome then 2 else 1

def isByte (i : Item Token.argument Token.zero Int) : Bool := i.word = .argUint ∨ i.word = .tilde

section
variable (rng : Nat → UInt8) (p : Line)

def valueOf (drawn : Nat) (i : Item Token.argument Token.zero Int) : Nat :=
  if i.word = .tilde then (rng drawn).toNat else (p.int (i.slot.getD 0) % 2 ^ 32).toNat

/-- the repeat count at the head, and the words behind it -/
def countOf : Words → Option Int × Words
  | [] => (none, [])
  | j :: l =>
    if j.word = .argTokenSuffixInt then (some (p.int (j.slot.getD 0)), l) else (none, j :: l)

/-- the arguments at the head of a line -/
def readArgs : Nat → Words → List Arg
  | _, [] => []
  | drawn, i :: l =>
    if isByte i then
      let value := valueOf rng p drawn i
      let drawn := if i.word = .tilde then drawn + 1 else drawn
      match l with
      | [] => [⟨value, none, cellsOf i⟩]
      | j :: l' =>
        if j.word = .argTokenSuffixInt then
          ⟨value, some (p.int (j.slot.getD 0)), cellsOf i + 2⟩ :: readArgs drawn l'
        else ⟨value, none, cellsOf i⟩ :: readArgs drawn (j :: l')
    else []

end

/-! ## the words at the cursor -/

/-- from `t` on the array holds these words -/
def AtWords (p : Parsed) (t : Nat) (l : Words) : Prop := ∀ k, cell p.line (t + k) = cell l k

section
variable {p : Parsed} {t : Nat} {i : Item Token.argument Token.zero Int} {l : Words}

theorem atWords_rest (h : Stands p.line t) : AtWords p t (rest p.line t) := cell_rest h

theorem AtWords.tok_nil (h : AtWords p t []) : p.tok t = .zero := by
  unfold Parsed.tok
  rw [show cell p.line t = .stop from h 0]

theorem AtWords.tok_cons (h : AtWords p t (i :: l)) : p.tok t = i.word := by
  unfold Parsed.tok
  rw [show cell p.line t = .word i.word from h 0]

theorem AtWords.offset (h : AtWords p t (i :: l)) (hi : i.slot.isSome) :
    p.offset (t + 1) = i.slot.getD 0 := by
  obtain ⟨o, ho⟩ := Option.isSome_iff_exists.mp hi
  have hcell := h 1
  rw [cell_cons_slot ho] at hcell
  unfold Parsed.offset
  rw [hcell, ho]
  rfl

theorem AtWords.next (h : AtWords p t (i :: l)) : AtWords p (t + cellsOf i) l := by
  intro k
  unfold cellsOf
  cases hs : i.slot with
  | none => rw [if_neg (by decide), Nat.add_assoc, Nat.add_comm 1, h, cell_cons_none hs]
  | some o => rw [if_pos Option.isSome_some, Nat.add_assoc, Nat.add_comm 2, h, cell_cons_some hs]

theorem cellsOf_of_word {w : Token} (h : i.word = w) :
    i.slot.isSome = w.argument ∧ cellsOf i = if w.argument then 2 else 1 := by
  unfold cellsOf
  rw [i.shape, h]
  exact ⟨rfl, rfl⟩

end

/-! ## the loop -/

section
variable {rng : Nat → UInt8} {p : Line} {s : Chomp} {l : Words}
  {i : Item Token.argument Token.zero Int}

/-- the argument with its byte at `i`, before `l` -/
def argOf (rng : Nat → UInt8) (p : Line) (drawn : Nat) (i : Item Token.argument Token.zero Int)
    (l : Words) : Arg where
  value := valueOf rng p drawn i
  count := (countOf p l).1
  cells := cellsOf i + if (countOf p l).1.isSome then 2 else 0

theorem readArgs_cons (drawn : Nat) (h : isByte i = true) :
    readArgs rng p drawn (i :: l) = argOf rng p drawn i l ::
      readArgs rng p (if i.word = .tilde then drawn + 1 else drawn) (countOf p l).2 := by
  cases l with
  | nil => simp [readArgs, argOf, h, countOf]
  | cons j l =>
    rw [readArgs, if_pos h]
    unfold argOf countOf
    by_cases hj : j.word = .argTokenSuffixInt
    · simp [hj]
    · simp [hj]

theorem readArgs_other (drawn : Nat) (h : isByte i = false) :
    readArgs rng p drawn (i :: l) = [] := by
  rw [readArgs, if_neg (by rw [h]; exact Bool.false_ne_true)]

/-- a repeat count is an `int` -/
theorem readArgs_count_lt {drawn : Nat} {a : Arg} (ha : a ∈ readArgs rng p drawn l) {n : Int}
    (hn : a.count = some n) : n < 2 ^ 31 := by
  fun_induction readArgs with
  | case1 => exact absurd ha List.not_mem_nil
  | case2 =>
    obtain rfl := List.mem_singleton.mp ha
    cases hn
  | case3 drawn i value drawn' hi j l hj ih =>
    rcases List.mem_cons.mp ha with rfl | ha
    · cases hn
      exact p.hi _
    · exact ih ha
  | case4 drawn i value drawn' hi j l hj ih =>
    rcases List.mem_cons.mp ha with rfl | ha
    · cases hn
    · exact ih ha
  | case5 => exact absurd ha List.not_mem_nil

theorem readArgs_cells_pos {drawn : Nat} {a : Arg} (ha : a ∈ readArgs rng p drawn l) :
    0 < a.cells := by
  have hcells : ∀ i : Item Token.argument Token.zero Int, 0 < cellsOf i := fun i => by
    unfold cellsOf
    split <;> exact Nat.succ_pos _
  fun_induction readArgs with
  | case1 => exact absurd ha List.not_mem_nil
  | case2 drawn i =>
    obtain rfl := List.mem_singleton.mp ha
    exact hcells i
  | case3 drawn i value drawn' hi j l hj ih =>
    rcases List.mem_cons.mp ha with rfl | ha
    · exact Nat.add_pos_left (hcells i) 2
    · exact ih ha
  | case4 drawn i value drawn' hi j l hj ih =>
    rcases List.mem_cons.mp ha with rfl | ha
    · exact hcells i
    · exact ih ha
  | case5 => exact absurd ha List.not_mem_nil

theorem countOf_suffix (h : i.word = .argTokenSuffixInt) :
    countOf p (i :: l) = (some (p.int (i.slot.getD 0)), l) := if_pos h

theorem countOf_other (h : i.word ≠ .argTokenSuffixInt) : countOf p (i :: l) = (none, i :: l) :=
  if_neg h

theorem countOf_length_le (p : Line) (l : Words) : (countOf p l).2.length ≤ l.length := by
  cases l with
  | nil => exact Nat.le_refl _
  | cons j l =>
    by_cases hj : j.word = .argTokenSuffixInt
    · rw [countOf_suffix hj]
      exact Nat.le_succ _
    · rw [countOf_other hj]

theorem Chomp.more_nil (h : AtWords p.toParsed s.t []) : s.more p = false := by
  unfold Chomp.more
  rw [h.tok_nil]
  simp

theorem Chomp.more_cons (h : AtWords p.toParsed s.t (i :: l)) (he : s.error = none) :
    s.more p = isByte i := by
  unfold Chomp.more isByte
  rw [h.tok_cons, he]
  simp

theorem Chomp.more_error {m : String} (he : s.error = some m) : s.more p = false := by
  unfold Chomp.more
  rw [he]
  simp

/-- the byte -/
theorem Chomp.value_eq (h : AtWords p.toParsed s.t (i :: l)) (hi : isByte i = true) :
    s.value rng p = valueOf rng p s.drawn i := by
  unfold Chomp.value valueOf
  rw [h.tok_cons]
  by_cases ht : i.word = .tilde
  · rw [if_pos ht, if_pos ht]
  · have hword : i.word = .argUint := by
      unfold isByte at hi
      simpa [ht] using hi
    rw [if_neg ht, if_neg ht, h.offset ((cellsOf_of_word hword).1)]

theorem Chomp.behind_eq (h : AtWords p.toParsed s.t (i :: l)) (hi : isByte i = true) :
    s.behind p =
      { s with
        t := s.t + cellsOf i
        drawn := if i.word = .tilde then s.drawn + 1 else s.drawn } := by
  unfold Chomp.behind
  rw [h.tok_cons]
  by_cases ht : i.word = .tilde
  · rw [if_pos ht, if_pos ht, (cellsOf_of_word ht).2]
    rfl
  · have hword : i.word = .argUint := by
      unfold isByte at hi
      simpa [ht] using hi
    rw [if_neg ht, if_neg ht, (cellsOf_of_word hword).2]
    rfl

/-- the words behind a repeat count -/
theorem AtWords.behindCount {t : Nat} (h : AtWords p.toParsed t l) :
    AtWords p.toParsed (t + if (countOf p l).1.isSome then 2 else 0) (countOf p l).2 := by
  cases l with
  | nil => exact h
  | cons j l =>
    by_cases hj : j.word = .argTokenSuffixInt
    · rw [countOf_suffix hj]
      have hnext := h.next
      rwa [(cellsOf_of_word hj).2] at hnext
    · rw [countOf_other hj]
      exact h

theorem Chomp.again_eq (h : AtWords p.toParsed s.t l) (v : Nat) :
    s.again p v =
      match (countOf p l).1 with
      | none => s
      | some c =>
        if (s.bytes.length + c) % 2 ^ 32 > bufferSize then
          { s with t := s.t + 2, error := some tooMany }
        else { s with t := s.t + 2 }.store (c - 1).toNat v := by
  unfold Chomp.again
  cases l with
  | nil =>
    rw [h.tok_nil]
    rfl
  | cons j l =>
    rw [h.tok_cons]
    by_cases hj : j.word = .argTokenSuffixInt
    · rw [if_pos hj, countOf_suffix hj, h.offset ((cellsOf_of_word hj).1)]
    · rw [if_neg hj, countOf_other hj]

/-- an argument that both checks let through -/
def Chomp.take (s : Chomp) (a : Arg) (drawn : Nat) : Chomp :=
  { s with t := s.t + a.cells, bytes := s.bytes ++ a.bytes, drawn := drawn }

/-- one pass -/
theorem Chomp.pass_cases (rng : Nat → UInt8) (h : AtWords p.toParsed s.t (i :: l))
    (hi : isByte i = true) :
    let a := argOf rng p s.drawn i l
    let s' := s.pass rng p
    (a.value > 0xff ∧ s'.bytes = s.bytes ∧ s'.error = some oneByte) ∨
    (¬ a.value > 0xff ∧ a.Over s.bytes.length ∧ s'.bytes = s.bytes ++ [UInt8.ofNat a.value] ∧
      s'.error = some tooMany) ∨
    (¬ a.value > 0xff ∧ ¬ a.Over s.bytes.length ∧
      s' = s.take a (if i.word = .tilde then s.drawn + 1 else s.drawn)) := by
  intro a s'
  have hs' : s' = if a.value > 0xff then { s.behind p with error := some oneByte }
      else ((s.behind p).store 1 a.value).again p a.value := by
    unfold s' Chomp.pass
    rw [Chomp.value_eq h hi]
    rfl
  rw [Chomp.behind_eq h hi] at hs'
  by_cases hv : a.value > 0xff
  · rw [if_pos hv] at hs'
    exact .inl ⟨hv, by rw [hs'], by rw [hs']⟩
  · rw [if_neg hv, Chomp.again_eq h.next] at hs'
    right
    cases hc : (countOf p l).1 with
    | none =>
      right
      have hcount : a.count = none := hc
      have hbytes : a.bytes = List.replicate 1 (UInt8.ofNat a.value) := by
        unfold Arg.bytes Arg.size
        rw [hcount]
      have hcells : a.cells = cellsOf i := by
        show cellsOf i + (if (countOf p l).1.isSome then 2 else 0) = _
        rw [hc]
        rfl
      rw [hc] at hs'
      refine ⟨hv, ?_, ?_⟩
      · unfold Arg.Over
        rw [hcount]
        exact not_false
      · rw [hs', Chomp.take, hbytes, hcells]
        rfl
    | some c =>
      have hcount : a.count = some c := hc
      have hover : a.Over s.bytes.length ↔
          ((s.bytes ++ List.replicate 1 (UInt8.ofNat a.value)).length + c) % 2 ^ 32 >
            bufferSize := by
        unfold Arg.Over
        rw [hcount, List.length_append, List.length_replicate, Nat.cast_add, Nat.cast_one]
      have hcells : a.cells = cellsOf i + 2 := by
        show cellsOf i + (if (countOf p l).1.isSome then 2 else 0) = _
        rw [hc]
        rfl
      rw [hc] at hs'
      simp only [Chomp.store, ← hover] at hs'
      by_cases ho : a.Over s.bytes.length
      · rw [if_pos ho] at hs'
        exact .inl ⟨hv, ho, by rw [hs']; rfl, by rw [hs']⟩
      · rw [if_neg ho] at hs'
        refine .inr ⟨hv, ho, ?_⟩
        have hbytes : a.bytes = List.replicate (1 + (c - 1).toNat) (UInt8.ofNat a.value) := by
          unfold Arg.bytes Arg.size
          rw [hcount]
        rw [hs', Chomp.take, hbytes, hcells, List.replicate_add, List.append_assoc, Nat.add_assoc]

/-- the result of the loop from a state on -/
def Chomped (rng : Nat → UInt8) (p : Line) (s s' : Chomp) (l : Words) : Prop :=
  s'.more p = false ∧ (s'.bytes, s'.error) = outcome s.bytes (readArgs rng p s.drawn l) ∧
    (s'.error = none → s'.t = s.t + ((readArgs rng p s.drawn l).map Arg.cells).sum)

theorem Chomped.stop (hmore : s.more p = false) (he : s.error = none)
    (hargs : readArgs rng p s.drawn l = []) : Chomped rng p s s l := by
  refine ⟨hmore, ?_, fun _ => ?_⟩
  · rw [hargs, he]
    rfl
  · rw [hargs]
    rfl

/-- **The loop.**  It ends, and has stored what the checks let through. -/
theorem chomp_spec (n : Nat) (hn : l.length ≤ n) (h : AtWords p.toParsed s.t l)
    (he : s.error = none) :
    Chomped rng p s (whileN (Chomp.more p) (Chomp.pass rng p) n s) l := by
  induction n generalizing s l with
  | zero =>
    obtain rfl : l = [] := List.length_eq_zero_iff.mp (Nat.le_zero.mp hn)
    exact .stop (Chomp.more_nil h) he rfl
  | succ n ih =>
    cases l with
    | nil =>
      rw [whileN_done (Chomp.more_nil h)]
      exact .stop (Chomp.more_nil h) he rfl
    | cons i l =>
      have hmore := Chomp.more_cons h he
      cases hi : isByte i with
      | false =>
        rw [hi] at hmore
        rw [whileN_done hmore]
        exact .stop hmore he (readArgs_other _ hi)
      | true =>
        rw [hi] at hmore
        rw [whileN_pass hmore]
        unfold Chomped
        rw [readArgs_cons _ hi, outcome]
        rcases Chomp.pass_cases rng h hi with
          ⟨hv, hbytes, herror⟩ | ⟨hv, ho, hbytes, herror⟩ | ⟨hv, ho, hpass⟩
        · rw [whileN_done (Chomp.more_error herror), if_pos hv, hbytes, herror]
          exact ⟨Chomp.more_error herror, rfl, fun h => absurd h (Option.some_ne_none _)⟩
        · rw [whileN_done (Chomp.more_error herror), if_neg hv, if_pos ho, hbytes, herror]
          exact ⟨Chomp.more_error herror, rfl, fun h => absurd h (Option.some_ne_none _)⟩
        · have hlen := (countOf_length_le p l).trans (Nat.le_of_succ_le_succ hn)
          have hnext := h.next.behindCount (p := p)
          rw [Nat.add_assoc] at hnext
          rw [if_neg hv, if_neg ho, hpass]
          obtain ⟨hend, hout, ht⟩ := ih hlen
            (s := s.take (argOf rng p s.drawn i l) (if i.word = .tilde then s.drawn + 1 else s.drawn))
            hnext he
          refine ⟨hend, hout, fun herror => ?_⟩
          rw [ht herror, List.map_cons, List.sum_cons, ← Nat.add_assoc]
          rfl

/-- **The arguments of a write**, from a token of the line on -/
theorem chompIntegers_spec (rng : Nat → UInt8) (p : Line) {t : Nat} (h : Stands p.line t) :
    Chomped rng p ⟨t, [], 0, none⟩ (chompIntegers rng p t) (rest p.line t) :=
  chomp_spec p.line.length (rest_length_le ..) (atWords_rest h) rfl

end

end Write
end Hydra
