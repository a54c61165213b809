import HydraFw.Common.Bytes
import HydraFw.Lib.Loops
import Mathlib.Data.List.GetD
import HydraFw.Tag.Properties

/-!
# Escaped strings

`parse_escaped_string` (`common.c`), whose counters are all bytes.

* `Count`, `Parse`   its two loops, with the places that they read and the bytes that they store;
* `Token`, `tokens`  what a string is made of, and the escape that its end cuts off;
* `Returned`, `Safe`   the function has returned, and has kept to the string;
* `safe_iff`         it does but for long strings, and for escapes without an end;
* `Escapes`, `escapes_parsed`   every list of bytes can be written.
-/

namespace Hydra
namespace Escapes
open Common Loops

/-! ## `parse_escaped_string` -/

def hexchartonibble (hex : UInt8) : UInt8 :=
  if 0x30 ≤ hex ∧ hex ≤ 0x39 then hex - 0x30
  else if 0x61 ≤ hex ∧ hex ≤ 0x66 then hex - 0x61 + 10
  else if 0x41 ≤ hex ∧ hex ≤ 0x46 then hex - 0x41 + 10
  else 0

def hex2byte (high low : UInt8) : UInt8 := (hexchartonibble high <<< 4) + hexchartonibble low

/-- the first loop -/
structure Count where
  count : UInt8
  /-- the places that have been read -/
  reads : List Nat

def Count.start : Count := ⟨0, [0]⟩

def Count.more (memory : List UInt8) (s : Count) : Bool := cell memory s.count.toNat ≠ 0

def Count.pass (s : Count) : Count := ⟨s.count + 1, s.reads ++ [(s.count + 1).toNat]⟩

/-- the second loop -/
structure Parse where
  i : UInt8
  numBytes : UInt8
  /-- the bytes that have been stored, and where in `output` -/
  stores : List (UInt8 × UInt8)
  reads : List Nat

def Parse.start : Parse := ⟨0, 0, [], []⟩

/-- `output[num_bytes++] = c` -/
def Parse.store (p : Parse) (c : UInt8) : Parse :=
  { p with
    numBytes := p.numBytes + 1
    stores := p.stores ++ [(p.numBytes, c)] }

def Parse.read (p : Parse) (places : List Nat) : Parse := { p with reads := p.reads ++ places }

def Parse.skip (p : Parse) (n : UInt8) : Parse := { p with i := p.i + n }

def Parse.more (count : UInt8) (p : Parse) : Bool := p.i < count

def Parse.pass (memory : List UInt8) (p : Parse) : Parse :=
  let i := p.i.toNat
  let p :=
    if cell memory i = 0x5C then
      if cell memory (i + 1) = 0x5C then ((p.read [i, i + 1]).store 0x5C).skip 1
      else if cell memory (i + 1) = 0x78 then
        ((p.read [i, i + 1, i + 2, i + 3]).store
          (hex2byte (cell memory (i + 2)) (cell memory (i + 3)))).skip 3
      else (p.read [i, i + 1]).skip 1
    else (p.read [i]).store (cell memory i)
  p.skip 1

/-! ## what a string is made of -/

inductive Token where
  | char (c : UInt8) (h : c ≠ 0x5C)
  /-- a backslash and a character -/
  | pair (d : UInt8) (h : d ≠ 0x78)
  | hex (e f : UInt8)

def Token.chars : Token → List UInt8
  | .char c _ => [c]
  | .pair d _ => [0x5C, d]
  | .hex e f => [0x5C, 0x78, e, f]

/-- what it stands for -/
def Token.byte : Token → Option UInt8
  | .char c _ => some c
  | .pair d _ => if d = 0x5C then some 0x5C else none
  | .hex e f => some (hex2byte e f)

/-- the tokens of a string, and the escape at its end that is not complete -/
def tokens : List UInt8 → List Token × List UInt8
  | [] => ([], [])
  | c :: rest =>
    if hc : c = 0x5C then
      match rest with
      | [] => ([], [0x5C])
      | d :: rest =>
        if hd : d = 0x78 then
          match rest with
          | [] => ([], [0x5C, 0x78])
          | [e] => ([], [0x5C, 0x78, e])
          | e :: f :: rest => (.hex e f :: (tokens rest).1, (tokens rest).2)
        else (.pair d hd :: (tokens rest).1, (tokens rest).2)
    else (.char c hc :: (tokens rest).1, (tokens rest).2)

def unescape (text : List UInt8) : List UInt8 := (tokens text).1.filterMap Token.byte

def incomplete (text : List UInt8) : List UInt8 := (tokens text).2

/-! ## the law -/

/-- the states in which the two loops have ended -/
structure Returned (memory : List UInt8) (s : Count) (p : Parse) : Prop where
  count : ∃ n, whileN (Count.more memory) Count.pass n Count.start = s
  countEnd : s.more memory = false
  parse : ∃ n, whileN (Parse.more s.count) (Parse.pass memory) n Parse.start = p
  parseEnd : p.more s.count = false

/-- no look past the NUL, and a byte for each that the result counts -/
structure Safe (text : List UInt8) (s : Count) (p : Parse) : Prop where
  reads : ∀ i ∈ s.reads ++ p.reads, i ≤ text.length
  stores : p.stores.length ≤ min text.length 256
  returned : p.numBytes.toNat = p.stores.length

/-- the counters can pass the end, and the escape that is cut off ends before the NUL does -/
structure Sound (text : List UInt8) : Prop where
  short : text.length ≤ 255
  digit : incomplete text ≠ [0x5C, 0x78]
  whole : text.length = 255 → incomplete text = []

/-! ## the tokens of a string -/

section
variable {memory rest behind : List UInt8} {n : Nat} {p : Parse} {t : Token}

theorem tokens_token (t : Token) (rest : List UInt8) :
    tokens (t.chars ++ rest) = (t :: (tokens rest).1, (tokens rest).2) := by
  cases t with
  | char c h =>
    show tokens (c :: rest) = _
    rw [tokens.eq_def]
    simp only [dif_neg h]
  | pair d h =>
    show tokens (0x5C :: d :: rest) = _
    rw [tokens.eq_def]
    simp only [dif_pos, dif_neg h]
  | hex e f =>
    show tokens (0x5C :: 0x78 :: e :: f :: rest) = _
    rw [tokens.eq_def]
    simp only [dif_pos]

/-- the ends of strings that are no token -/
inductive Cut : List UInt8 → Prop
  | backslash : Cut [0x5C]
  | x : Cut [0x5C, 0x78]
  | digit (e : UInt8) : Cut [0x5C, 0x78, e]

theorem Cut.incomplete_eq {cut : List UInt8} (h : Cut cut) : incomplete cut = cut := by
  cases h <;> rfl

theorem Cut.ne_nil {cut : List UInt8} (h : Cut cut) : cut ≠ [] := by
  cases h <;> exact List.cons_ne_nil _ _

/-- a string begins with a token, or is the end of one -/
theorem split_text (text : List UInt8) :
    text = [] ∨ Cut text ∨ ∃ t rest, text = Token.chars t ++ rest := by
  cases text with
  | nil => exact .inl rfl
  | cons c rest =>
    by_cases hc : c = 0x5C
    · subst hc
      rcases rest with _ | ⟨d, rest⟩
      · exact .inr (.inl .backslash)
      by_cases hd : d = 0x78
      · subst hd
        rcases rest with _ | ⟨e, _ | ⟨f, rest⟩⟩
        · exact .inr (.inl .x)
        · exact .inr (.inl (.digit e))
        · exact .inr (.inr ⟨.hex e f, rest, rfl⟩)
      · exact .inr (.inr ⟨.pair d hd, rest, rfl⟩)
    · exact .inr (.inr ⟨.char c hc, rest, rfl⟩)

theorem Token.length_pos (t : Token) : 0 < t.chars.length := by
  cases t <;> exact Nat.succ_pos _

/-- the induction over the tokens of a string -/
theorem tokens_induction {P : List UInt8 → Prop} (nil : P []) (cut : ∀ text, Cut text → P text)
    (token : ∀ t rest, P rest → P (Token.chars t ++ rest)) (text : List UInt8) : P text := by
  induction h : text.length using Nat.strong_induction_on generalizing text with
  | h k ih =>
    rcases split_text text with rfl | hcut | ⟨t, rest, rfl⟩
    · exact nil
    · exact cut text hcut
    · refine token t rest (ih rest.length ?_ rest rfl)
      have hpos := t.length_pos
      rw [List.length_append] at h
      omega

theorem incomplete_cut (text : List UInt8) : incomplete text = [] ∨ Cut (incomplete text) := by
  induction text using tokens_induction with
  | nil => exact .inl rfl
  | cut text h =>
    rw [h.incomplete_eq]
    exact .inr h
  | token t rest ih =>
    unfold incomplete at ih ⊢
    rwa [tokens_token]

/-! ## a pass over a token -/

/-- a token is read, its byte stored, and the cursor behind it -/
def Parse.take (p : Parse) (t : Token) : Parse :=
  let q := p.read ((List.range t.chars.length).map (p.i.toNat + ·))
  (match t.byte with
    | none => q
    | some b => q.store b).skip (UInt8.ofNat t.chars.length)

theorem skip_skip (p : Parse) (a b : UInt8) : (p.skip a).skip b = p.skip (a + b) := by
  unfold Parse.skip
  rw [UInt8.add_assoc]

theorem pass_token (h : memory.drop p.i.toNat = t.chars ++ rest) : p.pass memory = p.take t := by
  have hcell : ∀ k, cell memory (p.i.toNat + k) = cell (t.chars ++ rest) k := fun k => by
    rw [cell_drop, h]
  have hfirst : cell memory p.i.toNat = cell (t.chars ++ rest) 0 := hcell 0
  unfold Parse.pass
  simp only [hcell, hfirst]
  cases t with
  | char c hc => exact (congrArg (Parse.skip · 1) (if_neg hc)).trans rfl
  | pair d hd =>
    rw [if_pos (show cell ((Token.pair d hd).chars ++ rest) 0 = 0x5C from rfl)]
    by_cases hback : d = 0x5C
    · subst hback
      rw [if_pos (show cell ((Token.pair 0x5C hd).chars ++ rest) 1 = 0x5C from rfl), skip_skip]
      rfl
    · rw [if_neg (show ¬ cell ((Token.pair d hd).chars ++ rest) 1 = 0x5C from hback),
        if_neg (show ¬ cell ((Token.pair d hd).chars ++ rest) 1 = 0x78 from hd), skip_skip]
      have hbyte : (Token.pair d hd).byte = none := if_neg hback
      unfold Parse.take
      rw [hbyte]
      rfl
  | hex e f =>
    have hx : cell ((Token.hex e f).chars ++ rest) 1 = 0x78 := rfl
    rw [if_pos (show cell ((Token.hex e f).chars ++ rest) 0 = 0x5C from rfl), hx,
      if_neg (show ¬ (0x78 : UInt8) = 0x5C from by decide), if_pos rfl, skip_skip]
    rfl

/-! ## between two passes -/

/-- the cursor is at `rest`, the end of a string of `n` characters -/
structure At (memory behind : List UInt8) (n : Nat) (p : Parse) (rest : List UInt8) : Prop where
  drop : memory.drop p.i.toNat = rest ++ 0 :: behind
  place : p.i.toNat + rest.length = n

/-- at most `m` bytes have gone to the places from 0 on, and nothing behind `n` has been read -/
structure Booked (m n : Nat) (p : Parse) : Prop where
  numBytes : p.numBytes.toNat = p.stores.length
  stores : p.stores.length ≤ m
  places : p.stores.map (fun s => s.1.toNat) = List.range p.stores.length
  reads : ∀ i ∈ p.reads, i ≤ n

theorem Booked.mono {m m' : Nat} (h : Booked m n p) (hm : m ≤ m') : Booked m' n p :=
  ⟨h.numBytes, h.stores.trans hm, h.places, h.reads⟩

def Parse.output (p : Parse) : List UInt8 := p.stores.map Prod.snd

theorem take_i (p : Parse) (t : Token) : (p.take t).i = p.i + UInt8.ofNat t.chars.length := by
  unfold Parse.take
  cases t.byte <;> rfl

theorem take_output (p : Parse) (t : Token) : (p.take t).output = p.output ++ t.byte.toList := by
  unfold Parse.take Parse.output
  cases t.byte with
  | none => exact (List.append_nil _).symm
  | some b => exact List.map_append

theorem take_reads (p : Parse) (t : Token) :
    (p.take t).reads = p.reads ++ (List.range t.chars.length).map (p.i.toNat + ·) := by
  unfold Parse.take
  cases t.byte <;> rfl

theorem take_none (h : t.byte = none) :
    (p.take t).numBytes = p.numBytes ∧ (p.take t).stores = p.stores := by
  unfold Parse.take
  rw [h]
  exact ⟨rfl, rfl⟩

theorem take_some {b : UInt8} (h : t.byte = some b) :
    (p.take t).numBytes = p.numBytes + 1 ∧ (p.take t).stores = p.stores ++ [(p.numBytes, b)] := by
  unfold Parse.take
  rw [h]
  exact ⟨rfl, rfl⟩

theorem Token.length_le (t : Token) : t.chars.length ≤ 4 := by
  cases t <;> simp [Token.chars]

theorem At.take_toNat (h : At memory behind n p (t.chars ++ rest)) (hn : n ≤ 255) :
    (p.take t).i.toNat = p.i.toNat + t.chars.length := by
  have hplace := h.place
  have hlength := t.length_le
  rw [List.length_append] at hplace
  rw [take_i, UInt8.toNat_add, UInt8.toNat_ofNat']
  omega

theorem At.take (h : At memory behind n p (t.chars ++ rest)) (hn : n ≤ 255) :
    At memory behind n (p.take t) rest := by
  have hplace := h.place
  rw [List.length_append] at hplace
  have hi := h.take_toNat hn
  refine ⟨?_, by omega⟩
  rw [hi, ← List.drop_drop, h.drop, List.append_assoc, List.drop_left]

theorem Booked.take {m : Nat} (hb : Booked m n p) (hm : m < 255)
    (hi : p.i.toNat + t.chars.length ≤ n + 1) : Booked (m + 1) n (p.take t) := by
  have hreads : ∀ i ∈ (p.take t).reads, i ≤ n := by
    intro i hmem
    rw [take_reads] at hmem
    rcases List.mem_append.mp hmem with hmem | hmem
    · exact hb.reads i hmem
    · obtain ⟨k, hk, rfl⟩ := List.mem_map.mp hmem
      have hlt := List.mem_range.mp hk
      omega
  have hstores := hb.stores
  cases hbyte : t.byte with
  | none =>
    obtain ⟨hnum, hsame⟩ := take_none hbyte (p := p)
    refine ⟨by rw [hnum, hsame, hb.numBytes], ?_, by rw [hsame]; exact hb.places, hreads⟩
    rw [hsame]
    exact Nat.le_succ_of_le hstores
  | some b =>
    obtain ⟨hnum, hnew⟩ := take_some hbyte (p := p)
    have hlength : (p.take t).stores.length = p.stores.length + 1 := by
      rw [hnew, List.length_append, List.length_singleton]
    refine ⟨?_, by omega, ?_, hreads⟩
    · rw [hnum, UInt8.toNat_add, hb.numBytes, hlength, show (1 : UInt8).toNat = 1 from rfl]
      omega
    · rw [hlength, hnew, List.map_append, hb.places, List.range_succ]
      exact congrArg (fun k => List.range p.stores.length ++ [k]) hb.numBytes

/-- **The loop** reads the tokens of a string, and stops before the escape that is cut off. -/
theorem parse_tokens (hn : n ≤ 255) {count : UInt8} (hcount : count.toNat = n) (text : List UInt8) :
    ∀ p, At memory behind n p text →
      ∃ k, At memory behind n (whileN (Parse.more count) (Parse.pass memory) k p)
          (incomplete text) ∧
        (Booked p.i.toNat n p →
          Booked (whileN (Parse.more count) (Parse.pass memory) k p).i.toNat n
            (whileN (Parse.more count) (Parse.pass memory) k p)) ∧
        (whileN (Parse.more count) (Parse.pass memory) k p).output = p.output ++ unescape text := by
  induction text using tokens_induction with
  | nil =>
    intro p h
    exact ⟨0, h, id, (List.append_nil _).symm⟩
  | cut text hcut =>
    intro p h
    have hunescape : unescape text = [] := by
      cases hcut <;> rfl
    refine ⟨0, ?_, id, ?_⟩
    · rw [hcut.incomplete_eq]
      exact h
    · rw [hunescape]
      exact (List.append_nil _).symm
  | token t rest ih =>
    intro p h
    have hplace := h.place
    have hpos := t.length_pos
    rw [List.length_append] at hplace
    have hmore : p.more count = true := by
      refine decide_eq_true (UInt8.lt_iff_toNat_lt.mpr ?_)
      omega
    have hpass : p.pass memory = p.take t := pass_token (by rw [h.drop, List.append_assoc])
    obtain ⟨k, hat, hbooked, hout⟩ := ih (p.take t) (h.take hn)
    refine ⟨k + 1, ?_⟩
    rw [whileN_pass hmore, hpass, hout, take_output]
    unfold incomplete unescape
    rw [tokens_token]
    refine ⟨hat, fun hb => hbooked ((hb.take (by omega) (by omega)).mono ?_), ?_⟩
    · rw [h.take_toNat hn]
      omega
    rw [List.append_assoc, List.filterMap_cons]
    cases t.byte <;> rfl

/-! ## the escape that is cut off -/

/-- with the NUL as its last character it is a token, unless it is `\x` -/
theorem Cut.token {cut : List UInt8} (h : Cut cut) (hx : cut ≠ [0x5C, 0x78]) :
    ∃ t, Token.chars t = cut ++ [0] := by
  cases h with
  | backslash => exact ⟨.pair 0 (by decide), rfl⟩
  | x => exact absurd rfl hx
  | digit e => exact ⟨.hex e 0, rfl⟩

section
variable {cut : List UInt8}

/-- the last pass reads the NUL, and nothing behind it -/
theorem At.last (h : At memory behind n p cut) (ht : t.chars = cut ++ [0]) :
    p.pass memory = p.take t ∧ p.i.toNat + t.chars.length = n + 1 ∧
      (p.take t).i.toNat = (n + 1) % 256 := by
  have hplace := h.place
  have hlength : t.chars.length = cut.length + 1 := by
    rw [ht, List.length_append, List.length_singleton]
  have hle := t.length_le
  have hdrop : memory.drop p.i.toNat = t.chars ++ behind := by
    rw [h.drop, ht, List.append_assoc]
    rfl
  refine ⟨pass_token hdrop, by omega, ?_⟩
  rw [take_i, UInt8.toNat_add, UInt8.toNat_ofNat']
  omega

/-- behind `\x` the NUL and the byte after it are read -/
theorem At.last_x (h : At memory behind n p [0x5C, 0x78]) : n + 1 ∈ (p.pass memory).reads := by
  have hcell : ∀ k, cell memory (p.i.toNat + k) = cell ([0x5C, 0x78] ++ 0 :: behind) k :=
    fun k => by rw [cell_drop, h.drop]
  have hfirst : cell memory p.i.toNat = 0x5C := hcell 0
  have hsecond : cell memory (p.i.toNat + 1) = 0x78 := hcell 1
  have hplace : p.i.toNat + 2 = n := h.place
  unfold Parse.pass
  simp only [hfirst, hsecond, if_pos]
  rw [if_neg (show ¬ (0x78 : UInt8) = 0x5C from by decide)]
  refine List.mem_append_right _ ?_
  rw [← hplace]
  simp

end

/-! ## the first loop -/

theorem cell_stored (s : CString) (behind : List UInt8) {k : Nat} (hk : k ≤ s.chars.length) :
    cell (s.stored behind) k = 0 ↔ k = s.chars.length := by
  rw [cell_head]
  unfold CString.stored
  rw [List.drop_append_of_le_length hk]
  rcases Nat.lt_or_eq_of_le hk with hlt | rfl
  · rw [List.drop_eq_getElem_cons hlt]
    exact iff_of_false (s.ne_zero _ (List.getElem_mem hlt)) hlt.ne
  · rw [List.drop_length]
    exact iff_of_true rfl rfl

/-- a string that is too long is never counted to its end -/
theorem count_forever (s : CString) (behind : List UInt8) (h : 256 ≤ s.chars.length) (c : Count) :
    c.more (s.stored behind) = true := by
  have hlt := c.count.toNat_lt
  have hne : cell (s.stored behind) c.count.toNat ≠ 0 := fun hz =>
    absurd ((cell_stored s behind (by omega)).mp hz) (by omega)
  exact decide_eq_true hne

theorem count_ends (s : CString) (behind : List UInt8) (h : s.chars.length ≤ 255) :
    ∃ c, whileN (Count.more (s.stored behind)) Count.pass s.chars.length Count.start = c ∧
      c.more (s.stored behind) = false ∧ c.count.toNat = s.chars.length ∧
      c.reads = List.range (s.chars.length + 1) := by
  have hrun : ∀ k ≤ s.chars.length,
      (whileN (Count.more (s.stored behind)) Count.pass k Count.start).count.toNat = k ∧
      (whileN (Count.more (s.stored behind)) Count.pass k Count.start).reads =
        List.range (k + 1) := by
    intro k
    induction k with
    | zero => exact fun _ => ⟨rfl, rfl⟩
    | succ k ih =>
      intro hk
      obtain ⟨hcount, hreads⟩ := ih (Nat.le_of_succ_le hk)
      have hmore : Count.more (s.stored behind)
          (whileN (Count.more (s.stored behind)) Count.pass k Count.start) = true := by
        refine decide_eq_true fun hz => ?_
        rw [hcount] at hz
        exact absurd ((cell_stored s behind (Nat.le_of_succ_le hk)).mp hz) (by omega)
      rw [whileN_succ, whileN_pass hmore]
      have hnext : ((whileN (Count.more (s.stored behind)) Count.pass k Count.start).count +
          1).toNat = k + 1 := by
        rw [UInt8.toNat_add, hcount, show (1 : UInt8).toNat = 1 from rfl]
        omega
      refine ⟨hnext, ?_⟩
      show _ ++ [_] = _
      rw [hreads, hnext, ← List.range_succ]
  obtain ⟨hcount, hreads⟩ := hrun _ (Nat.le_refl _)
  refine ⟨_, rfl, decide_eq_false (not_not.mpr ?_), hcount, hreads⟩
  rw [hcount]
  exact (cell_stored s behind (Nat.le_refl _)).mpr rfl

/-! ## the law of the function -/

section
variable {text : List UInt8} {count : UInt8}

theorem at_start (h : memory = text ++ 0 :: behind) :
    At memory behind text.length Parse.start text :=
  ⟨h, Nat.zero_add _⟩

theorem booked_start (n : Nat) : Booked 0 n Parse.start :=
  ⟨rfl, Nat.le_refl 0, rfl, fun _ hi => absurd hi List.not_mem_nil⟩

theorem ended {p : Parse} (h : count.toNat ≤ p.i.toNat) : p.more count = false :=
  decide_eq_false fun hlt => Nat.not_lt_of_le h (UInt8.lt_iff_toNat_lt.mp hlt)

/-- the second loop, of a string that ends with a token -/
theorem parse_whole (h : memory = text ++ 0 :: behind) (hn : text.length ≤ 255)
    (hcount : count.toNat = text.length) (hwhole : incomplete text = []) :
    ∃ k, (whileN (Parse.more count) (Parse.pass memory) k Parse.start).more count = false ∧
      Booked text.length text.length (whileN (Parse.more count) (Parse.pass memory) k Parse.start) ∧
      (whileN (Parse.more count) (Parse.pass memory) k Parse.start).output = unescape text := by
  obtain ⟨k, hat, hbooked, hout⟩ := parse_tokens hn hcount text Parse.start (at_start h)
  rw [hwhole] at hat
  have hplace := hat.place
  rw [List.length_nil, Nat.add_zero] at hplace
  exact ⟨k, ended (by omega), (hbooked (booked_start _)).mono (Nat.le_of_eq hplace), hout⟩

/-- the second loop, of a sound string -/
theorem parse_sound (h : memory = text ++ 0 :: behind) (hs : Sound text)
    (hcount : count.toNat = text.length) :
    ∃ k, (whileN (Parse.more count) (Parse.pass memory) k Parse.start).more count = false ∧
      Booked text.length text.length
        (whileN (Parse.more count) (Parse.pass memory) k Parse.start) := by
  rcases incomplete_cut text with hwhole | hcut
  · obtain ⟨k, hend, hbooked, -⟩ := parse_whole h hs.short hcount hwhole
    exact ⟨k, hend, hbooked⟩
  · obtain ⟨k, hat, hbooked, -⟩ := parse_tokens hs.short hcount text Parse.start (at_start h)
    obtain ⟨t, ht⟩ := hcut.token hs.digit
    obtain ⟨hpass, hlast, hi⟩ := hat.last ht
    have hshort : text.length < 255 :=
      Nat.lt_of_le_of_ne hs.short fun heq => hcut.ne_nil (hs.whole heq)
    have hplace := hat.place
    have hpos := List.length_pos_of_ne_nil hcut.ne_nil
    have hmore : Parse.more count
        (whileN (Parse.more count) (Parse.pass memory) k Parse.start) = true := by
      refine decide_eq_true (UInt8.lt_iff_toNat_lt.mpr ?_)
      omega
    refine ⟨k + 1, ?_⟩
    rw [whileN_succ, whileN_pass hmore]
    show Parse.more count (Parse.pass memory _) = false ∧ Booked _ _ (Parse.pass memory _)
    rw [hpass]
    refine ⟨ended ?_, ((hbooked (booked_start _)).take ?_ ?_).mono ?_⟩
    all_goals omega

/-- with 255 characters the cursor wraps to the start behind an escape that is cut off -/
theorem parse_forever (h : memory = text ++ 0 :: behind) (hn : text.length = 255)
    (hcount : count.toNat = 255) (hcut : Cut (incomplete text))
    (hx : incomplete text ≠ [0x5C, 0x78]) (k : Nat) :
    (whileN (Parse.more count) (Parse.pass memory) k Parse.start).more count = true := by
  have hinv : ∃ rest, At memory behind 255
      (whileN (Parse.more count) (Parse.pass memory) k Parse.start) rest ∧
      incomplete rest = incomplete text := by
    refine whileN_inv (I := fun p => ∃ rest, At memory behind 255 p rest ∧
      incomplete rest = incomplete text) ?_ ⟨text, hn ▸ at_start h, rfl⟩ k
    rintro p - ⟨rest, hat, hrest⟩
    rcases split_text rest with rfl | hcut' | ⟨t, rest, rfl⟩
    · exact absurd hrest.symm hcut.ne_nil
    · rw [hcut'.incomplete_eq] at hrest
      obtain ⟨t, ht⟩ := hcut'.token (by rwa [hrest])
      obtain ⟨hpass, -, hi⟩ := hat.last ht
      refine ⟨text, ⟨?_, ?_⟩, rfl⟩
      · rw [hpass, hi]
        exact h
      · rw [hpass, hi]
        exact (Nat.zero_add _).trans hn
    · refine ⟨rest, ?_, ?_⟩
      · rw [pass_token (by rw [hat.drop, List.append_assoc])]
        exact hat.take (Nat.le_refl 255)
      · rw [← hrest]
        unfold incomplete
        rw [tokens_token]
  obtain ⟨rest, hat, hrest⟩ := hinv
  have hne : rest ≠ [] := by
    rintro rfl
    exact hcut.ne_nil hrest.symm
  have hpos := List.length_pos_of_ne_nil hne
  have hplace := hat.place
  refine decide_eq_true (UInt8.lt_iff_toNat_lt.mpr ?_)
  omega

/-- behind `\x` the loop has read past the NUL -/
theorem parse_past (h : memory = text ++ 0 :: behind) (hn : text.length ≤ 255)
    (hcount : count.toNat = text.length) (hx : incomplete text = [0x5C, 0x78]) {k : Nat}
    (hend : (whileN (Parse.more count) (Parse.pass memory) k Parse.start).more count = false) :
    text.length + 1 ∈ (whileN (Parse.more count) (Parse.pass memory) k Parse.start).reads := by
  obtain ⟨m, hat, -⟩ := parse_tokens hn hcount text Parse.start (at_start h)
  rw [hx] at hat
  have hplace := hat.place
  rw [show [(0x5C : UInt8), 0x78].length = 2 from rfl] at hplace
  have hmore : Parse.more count
      (whileN (Parse.more count) (Parse.pass memory) m Parse.start) = true := by
    refine decide_eq_true (UInt8.lt_iff_toNat_lt.mpr ?_)
    omega
  have hread : text.length + 1 ∈
      (whileN (Parse.more count) (Parse.pass memory) (m + 1) Parse.start).reads := by
    rw [whileN_succ, whileN_pass hmore]
    exact hat.last_x
  have hkept : ∀ j, text.length + 1 ∈
      (whileN (Parse.more count) (Parse.pass memory) (m + 1 + j) Parse.start).reads := by
    intro j
    rw [whileN_add]
    refine whileN_inv (I := fun p : Parse => text.length + 1 ∈ p.reads) (fun p _ hp => ?_) hread j
    unfold Parse.pass
    dsimp only
    split_ifs
    all_goals exact List.mem_append_left _ hp
  have hsame := whileN_ended (Nat.le_add_left k (m + 1)) hend
  rw [← hsame]
  exact hkept k

end

/-- a string that has been counted -/
theorem Returned.counted {s : CString} {c : Count} {p : Parse}
    (h : Returned (s.stored behind) c p) :
    s.chars.length ≤ 255 ∧ c.count.toNat = s.chars.length := by
  have hshort : s.chars.length ≤ 255 := by
    by_contra hlong
    have hmore := count_forever s behind (by omega) c
    exact absurd h.countEnd (by rw [hmore]; decide)
  obtain ⟨c', hc', hend', hcount', -⟩ := count_ends s behind hshort
  obtain ⟨k, hk⟩ := h.count
  have hsame : c = c' := by
    rw [← hk, ← hc']
    exact whileN_unique (by rw [hk]; exact h.countEnd) (by rw [hc']; exact hend')
  exact ⟨hshort, by rw [hsame, hcount']⟩

/-- **Escaped strings** are parsed safely exactly when they are sound. -/
theorem safe_iff (s : CString) (behind : List UInt8) :
    (∃ c p, Returned (s.stored behind) c p ∧ Safe s.chars c p) ↔ Sound s.chars := by
  constructor
  · rintro ⟨c, p, hret, hsafe⟩
    obtain ⟨hshort, hcount⟩ := hret.counted
    obtain ⟨k, hk⟩ := hret.parse
    have hend := hret.parseEnd
    have hreads := hsafe.reads
    subst hk
    refine ⟨hshort, fun hx => ?_, fun hlong => ?_⟩
    · have hpast := parse_past (s.stored_eq behind) hshort hcount hx hend
      exact absurd (hreads _ (List.mem_append_right _ hpast)) (by omega)
    · rcases incomplete_cut s.chars with hwhole | hcut
      · exact hwhole
      · by_cases hx : incomplete s.chars = [0x5C, 0x78]
        · have hpast := parse_past (s.stored_eq behind) hshort hcount hx hend
          exact absurd (hreads _ (List.mem_append_right _ hpast)) (by omega)
        · have hmore := parse_forever (s.stored_eq behind) hlong (hcount.trans hlong)
            hcut hx k
          exact absurd hend (by rw [hmore]; decide)
  · intro hs
    obtain ⟨c, hc, hend, hcount, hreads⟩ := count_ends s behind hs.short
    obtain ⟨k, hparse, hbooked⟩ := parse_sound (s.stored_eq behind) hs hcount
    refine ⟨c, _, ⟨⟨_, hc⟩, hend, ⟨k, rfl⟩, hparse⟩, fun i hi => ?_, ?_, hbooked.numBytes⟩
    · rcases List.mem_append.mp hi with hi | hi
      · rw [hreads] at hi
        exact Nat.le_of_lt_succ (List.mem_range.mp hi)
      · exact hbooked.reads i hi
    · have hshort := hs.short
      rw [Nat.min_eq_left (by omega)]
      exact hbooked.stores

/-- the string `\x` is read past its end -/
theorem x_read_past : ¬ ∀ (s : CString) (behind : List UInt8),
    ∃ c p, Returned (s.stored behind) c p ∧ Safe s.chars c p := by
  intro hall
  let s : CString := ⟨[0x5C, 0x78], by decide⟩
  obtain ⟨c, p, hret, hsafe⟩ := hall s []
  obtain ⟨hshort, hcount⟩ := hret.counted
  obtain ⟨k, hk⟩ := hret.parse
  have hend := hret.parseEnd
  have hreads := hsafe.reads
  subst hk
  have hpast := parse_past (s.stored_eq []) hshort hcount rfl hend
  exact absurd (hreads _ (List.mem_append_right _ hpast)) (Nat.not_succ_le_self _)

end

/-! ## every list of bytes can be written -/

/-- printable ASCII -/
def Printable (b : UInt8) : Prop := 0x20 ≤ b ∧ b ≤ 0x7E

instance (b : UInt8) : Decidable (Printable b) := inferInstanceAs (Decidable (_ ∧ _))

/-- how a byte is written, with digits of either case -/
inductive EscByte : UInt8 → List UInt8 → Prop
  | backslash : EscByte 0x5C [0x5C, 0x5C]
  | hex {b c d x y : UInt8} (hb : ¬ Printable b) (hc : Tag.hexDigit c = some x)
      (hd : Tag.hexDigit d = some y) (h : b = 16 * x + y) : EscByte b [0x5C, 0x78, c, d]
  | plain {b : UInt8} (hb : Printable b) (hne : b ≠ 0x5C) : EscByte b [b]

section
variable {b : UInt8} {bytes part : List UInt8} {parts : List (List UInt8)}

theorem hexchartonibble_of_digit {c x : UInt8} (h : Tag.hexDigit c = some x) :
    hexchartonibble c = x := by
  have hupper : c - 0x41 + 10 = c - 0x37 := by
    refine UInt8.toNat_inj.mp ?_
    simp only [UInt8.toNat_add, UInt8.toNat_sub, UInt8.reduceToNat]
    omega
  have hlower : c - 0x61 + 10 = c - 0x57 := by
    refine UInt8.toNat_inj.mp ?_
    simp only [UInt8.toNat_add, UInt8.toNat_sub, UInt8.reduceToNat]
    omega
  unfold Tag.hexDigit at h
  unfold hexchartonibble
  simp only [UInt8.le_iff_toNat_le, UInt8.reduceToNat] at h ⊢
  split_ifs at h with h1 h2 h3
  · rw [if_pos h1]
    exact Option.some.inj h
  · rw [if_neg h1, if_neg (by omega), if_pos h2, hupper]
    exact Option.some.inj h
  · rw [if_neg h1, if_pos h3, hlower]
    exact Option.some.inj h

theorem hex2byte_of_digits {c d x y : UInt8} (hc : Tag.hexDigit c = some x)
    (hd : Tag.hexDigit d = some y) : hex2byte c d = 16 * x + y := by
  have hshift : x <<< 4 = 16 * x := by
    refine UInt8.toNat_inj.mp ?_
    rw [UInt8.toNat_shiftLeft, UInt8.toNat_mul, Nat.shiftLeft_eq, Nat.mul_comm]
    rfl
  rw [hex2byte, hexchartonibble_of_digit hc, hexchartonibble_of_digit hd, hshift]

/-- what is written for a byte is a token that stands for it -/
theorem EscByte.token (h : EscByte b part) : ∃ t, part = Token.chars t ∧ t.byte = some b := by
  cases h with
  | backslash => exact ⟨.pair 0x5C (by decide), rfl, rfl⟩
  | hex _ hc hd h =>
    refine ⟨.hex _ _, rfl, ?_⟩
    rw [h]
    exact congrArg some (hex2byte_of_digits hc hd)
  | plain _ hne => exact ⟨.char b hne, rfl, rfl⟩

theorem hexDigit_ne {c x : UInt8} (h : Tag.hexDigit c = some x) : c ≠ 0 := by
  rintro rfl
  cases h

theorem EscByte.noNul (h : EscByte b part) : 0 ∉ part := by
  cases h with
  | backslash => decide
  | hex _ hc hd _ =>
    simp only [List.mem_cons, List.not_mem_nil, or_false, not_or]
    exact ⟨by decide, by decide, (hexDigit_ne hc).symm, (hexDigit_ne hd).symm⟩
  | plain hb _ =>
    intro hmem
    rw [← List.mem_singleton.mp hmem] at hb
    exact absurd hb (by decide)

theorem escapes_noNul (h : List.Forall₂ EscByte bytes parts) : 0 ∉ parts.flatten := by
  induction h with
  | nil => exact List.not_mem_nil
  | cons hb _ ih =>
    rw [List.flatten_cons, List.mem_append, not_or]
    exact ⟨hb.noNul, ih⟩

theorem escapes_tokens (h : List.Forall₂ EscByte bytes parts) :
    unescape parts.flatten = bytes ∧ incomplete parts.flatten = [] := by
  induction h with
  | nil => exact ⟨rfl, rfl⟩
  | cons hb _ ih =>
    obtain ⟨t, rfl, hbyte⟩ := hb.token
    unfold unescape incomplete at ih ⊢
    rw [List.flatten_cons, tokens_token]
    exact ⟨by rw [List.filterMap_cons, hbyte, ih.1], ih.2⟩

/-- **Every list of bytes** whose escapes fit is given back. -/
theorem escapes_parsed (h : List.Forall₂ EscByte bytes parts) (hfits : parts.flatten.length ≤ 252)
    (behind : List UInt8) :
    ∃ c p, Returned (parts.flatten ++ 0 :: behind) c p ∧ p.numBytes.toNat = bytes.length ∧
      p.output = bytes ∧ p.stores.map (fun s => s.1.toNat) = List.range bytes.length := by
  let s : CString := ⟨parts.flatten, escapes_noNul h⟩
  obtain ⟨hbytes, hwhole⟩ := escapes_tokens h
  have hshort : s.chars.length ≤ 255 := hfits.trans (by decide)
  obtain ⟨c, hc, hend, hcount, -⟩ := count_ends s behind hshort
  obtain ⟨k, hparse, hbooked, hout⟩ := parse_whole (s.stored_eq behind) hshort hcount
    hwhole
  have hlength := congrArg List.length (hout.trans hbytes)
  rw [Parse.output, List.length_map] at hlength
  refine ⟨c, _, ⟨⟨_, hc⟩, hend, ⟨k, rfl⟩, hparse⟩, ?_, hout.trans hbytes, ?_⟩
  · exact hbooked.numBytes.trans hlength
  · exact hbooked.places.trans (congrArg List.range hlength)

end

/-- a NUL, a backslash and a letter -/
theorem escapes_parsed_three :
    ∃ c p, Returned ([0x5C, 0x78, 0x30, 0x30, 0x5C, 0x5C, 0x41] ++ [0]) c p ∧
      p.numBytes.toNat = 3 ∧ p.output = [0x00, 0x5C, 0x41] ∧
      p.stores.map (fun s => s.1.toNat) = List.range 3 :=
  @escapes_parsed [0x00, 0x5C, 0x41] [[0x5C, 0x78, 0x30, 0x30], [0x5C, 0x5C], [0x41]]
    (.cons (@EscByte.hex _ _ _ 0 0 (by decide) rfl rfl rfl)
      (.cons .backslash (.cons (.plain (by decide) (by decide)) .nil))) (by decide) []

end Escapes
end Hydra
