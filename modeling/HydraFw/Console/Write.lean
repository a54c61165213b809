import HydraFw.Console.Arguments

/-!
# The write commands of a mode

`hydrabus_mode_write` and the part of `cmd_mode_exec` that calls it.

* `Exec`, `Call`     the operations of a mode, and what they receive;
* `hydrabusModeWrite`   the function; `writeCase`, `bytesCase` its two callers;
* `rejected_iff`     when a refused command sends nothing;
* `expansion_iff`    when the bytes sent are those of the line, and a line of more is refused;
* `never_repeated`   a write with a repeat count sends nothing.
-/

namespace Hydra
namespace Write
open Slots Walk Loops

/-- the operations of `mode_exec_t` that transfer data and are not `NULL` -/
structure Exec where
  write : Bool
  read : Bool
  dump : Bool
  writeRead : Bool

inductive Call where
  | write (bytes : List UInt8)
  | writeRead (bytes : List UInt8)
  deriving DecidableEq

/-- the mode and the random numbers to come -/
structure Con where
  exec : Exec
  /-- `proto.wwr`: the bytes read are wanted too -/
  wwr : Bool
  rng : Nat → UInt8

/-- what `hydrabus_mode_write` does -/
structure Written where
  used : Nat
  calls : List Call
  error : Option String
  /-- how many bytes it has stored from `buffer_tx[0]` on -/
  stored : Nat

/-- the operation that the mode has for a write -/
def Con.provided (c : Con) : Bool := if c.wwr then c.exec.writeRead else c.exec.write

def Con.call (c : Con) (bytes : List UInt8) : Call :=
  if c.wwr then .writeRead bytes else .write bytes

/-- one turn of the loop over `count`; the operation takes the number of bytes as `uint8_t` -/
def Con.send (c : Con) (bytes : List UInt8) : List Call :=
  if c.provided then [c.call (bytes.take (bytes.length % 2 ^ 8))] else []

/-- the end of `hydrabus_mode_write` -/
def Con.finish (c : Con) (used : Nat) (count : Int) (bytes : List UInt8) (error : Option String) :
    Written :=
  if bytes.length = 0 then ⟨0, [], error, 0⟩
  else ⟨used, (List.replicate count.toNat (c.send bytes)).flatten, error, bytes.length⟩

def hydrabusModeWrite (c : Con) (p : Line) (t : Nat) : Written :=
  match p.tok t with
  | .argTokenSuffixInt => c.finish 2 (p.int (p.offset (t + 1))) [] none
  | .argUint | .tilde =>
    let s := chompIntegers c.rng p t
    c.finish (s.used t) 1 s.bytes s.error
  | .argString => c.finish 2 1 (p.string (p.offset (t + 1))) none
  | _ => c.finish 0 1 [] none

/-- T_WRITE at `t`, and the token that the loop of `cmd_mode_exec` goes on with -/
def writeCase (c : Con) (p : Line) (t : Nat) : Written × Option Nat :=
  let w := hydrabusModeWrite c p (t + 1)
  (w, if w.used = 0 then none else some (t + w.used + 1))

/-- T_TILDE, T_ARG_UINT or T_ARG_STRING at `t` -/
def bytesCase (c : Con) (p : Line) (t : Nat) : Written × Option Nat :=
  let w := hydrabusModeWrite c p t
  (w, if w.used = 0 then none else some (t + (w.used - 1) + 1))

/-! ## one call -/

/-- the arguments from `t` on -/
def Con.args (c : Con) (p : Line) (t : Nat) : List Arg := readArgs c.rng p 0 (rest p.line t)

def AtByte (p : Line) (t : Nat) : Prop := p.tok t = .argUint ∨ p.tok t = .tilde

section
variable {c : Con} {p : Line} {t : Nat}

theorem args_nil (h : Stands p.line t) (hb : ¬ AtByte p t) : c.args p t = [] := by
  have hat := atWords_rest h
  unfold Con.args
  cases hl : rest p.line t with
  | nil => rfl
  | cons i l =>
    rw [hl] at hat
    refine readArgs_other _ ?_
    unfold AtByte at hb
    rw [hat.tok_cons] at hb
    exact decide_eq_false hb

/-- `hydrabus_mode_write` for byte arguments -/
theorem write_bytes (h : Stands p.line t) (hb : AtByte p t) :
    hydrabusModeWrite c p t =
      c.finish (if (outcome [] (c.args p t)).2 = none then ((c.args p t).map Arg.cells).sum else 0)
        1 (outcome [] (c.args p t)).1 (outcome [] (c.args p t)).2 := by
  obtain ⟨-, hout, ht⟩ := chompIntegers_spec c.rng p h
  have hwrite : hydrabusModeWrite c p t =
      c.finish ((chompIntegers c.rng p t).used t) 1 (chompIntegers c.rng p t).bytes
        (chompIntegers c.rng p t).error := by
    unfold hydrabusModeWrite
    rcases hb with hb | hb <;> rw [hb]
  have hused : (chompIntegers c.rng p t).used t =
      if (chompIntegers c.rng p t).error = none then ((c.args p t).map Arg.cells).sum else 0 := by
    unfold Chomp.used
    split_ifs with herror
    · rw [ht herror, Nat.add_sub_cancel_left]
      rfl
    · rfl
  obtain ⟨hbytes, herror⟩ := Prod.mk.inj hout
  rw [hwrite, hused, hbytes, herror]
  rfl

theorem finish_error (c : Con) (used : Nat) (count : Int) (bytes : List UInt8)
    (error : Option String) : (c.finish used count bytes error).error = error := by
  unfold Con.finish
  split <;> rfl

theorem finish_stored (c : Con) (used : Nat) (count : Int) (bytes : List UInt8)
    (error : Option String) : (c.finish used count bytes error).stored = bytes.length := by
  unfold Con.finish
  split
  · next h => exact h.symm
  · rfl

theorem finish_once (c : Con) (used : Nat) (bytes : List UInt8) (error : Option String) :
    (c.finish used 1 bytes error).calls = if bytes.length = 0 then [] else c.send bytes := by
  unfold Con.finish
  split
  · rfl
  · exact List.append_nil _

theorem write_other (h : ¬ AtByte p t) : (hydrabusModeWrite c p t).error = none := by
  unfold hydrabusModeWrite
  split
  · exact finish_error ..
  · next hu => exact absurd (.inl hu) h
  · next ht => exact absurd (.inr ht) h
  · exact finish_error ..
  · exact finish_error ..

theorem send_eq_nil (c : Con) (bytes : List UInt8) : c.send bytes = [] ↔ c.provided = false := by
  unfold Con.send
  cases c.provided with
  | false => simp
  | true => simp

/-! ## a refused command -/

/-- **A refused write.**  When a message is shown, nothing is sent exactly when no argument is
refused, or already the first byte is, or the mode has no operation for it. -/
theorem rejected_iff (c : Con) (p : Line) (t : Nat) (h : Stands p.line t) :
    ((hydrabusModeWrite c p t).error ≠ none → (hydrabusModeWrite c p t).calls = []) ↔
      (Faulty 0 (c.args p t) →
        c.provided = false ∨ ∃ a post, c.args p t = a :: post ∧ a.value > 0xff) := by
  by_cases hb : AtByte p t
  · rw [write_bytes h hb, finish_error, finish_once, outcome_error]
    refine imp_congr_right fun hfaulty => ?_
    cases hargs : c.args p t with
    | nil =>
      rw [hargs] at hfaulty
      obtain ⟨pre, a, post, heq, -⟩ := hfaulty
      simp at heq
    | cons a post =>
      have hfirst : (∃ b rest, a :: post = b :: rest ∧ b.value > 0xff) ↔ a.value > 0xff := by
        constructor
        · rintro ⟨b, rest, heq, hb⟩
          obtain ⟨rfl, -⟩ := List.cons.inj heq
          exact hb
        · exact fun ha => ⟨a, post, rfl, ha⟩
      rw [hfirst, ← outcome_empty a post, ite_eq_left_iff, List.length_eq_zero_iff, send_eq_nil,
        ← or_iff_not_imp_left, or_comm]
  · rw [write_other hb, args_nil h hb]
    refine iff_of_true (fun hne => absurd rfl hne) ?_
    rintro ⟨pre, a, post, heq, -⟩
    simp at heq

/-! ## the bytes of the line -/

/-- what a write of byte arguments owes -/
structure Expands (c : Con) (args : List Arg) (w : Written) : Prop where
  sent : total args ≤ bufferSize → w.calls = if c.provided then [c.call (expand args)] else []
  refused : bufferSize < total args → w.error ≠ none ∧ w.stored ≤ bufferSize

theorem Con.call_inj (c : Con) {x y : List UInt8} (h : c.call x = c.call y) : x = y := by
  unfold Con.call at h
  split at h
  · exact Call.writeRead.inj h
  · exact Call.write.inj h

/-- no operation receives 256 bytes -/
theorem send_ne (c : Con) (hc : c.provided = true) {bytes data : List UInt8}
    (hdata : data.length = bufferSize) : c.send bytes ≠ [c.call data] := by
  intro h
  unfold Con.send at h
  rw [if_pos hc] at h
  have hlen := congrArg List.length (c.call_inj (List.singleton_inj.mp h))
  rw [List.length_take, hdata] at hlen
  have hlt : bytes.length % 2 ^ 8 < 2 ^ 8 := Nat.mod_lt _ (Nat.two_pow_pos 8)
  have hsize : bufferSize = 2 ^ 8 := rfl
  omega

theorem send_small (c : Con) {bytes : List UInt8} (h : bytes.length < bufferSize) :
    c.send bytes = if c.provided then [c.call bytes] else [] := by
  have h : bytes.length < 2 ^ 8 := h
  unfold Con.send
  rw [Nat.mod_eq_of_lt h, List.take_length]

theorem args_ne_nil (h : Stands p.line t) (hb : AtByte p t) : c.args p t ≠ [] := by
  have hat := atWords_rest h
  unfold Con.args AtByte at *
  cases hl : rest p.line t with
  | nil =>
    rw [hl] at hat
    rw [hat.tok_nil] at hb
    exact absurd hb (by decide)
  | cons i l =>
    rw [hl] at hat
    rw [hat.tok_cons] at hb
    rw [readArgs_cons _ (decide_eq_true hb)]
    exact List.cons_ne_nil _ _

theorem total_args_pos (h : Stands p.line t) (hb : AtByte p t) : 0 < total (c.args p t) := by
  obtain ⟨a, args, hargs⟩ := List.exists_cons_of_ne_nil (args_ne_nil (c := c) h hb)
  rw [hargs, total_cons]
  exact Nat.add_pos_left a.size_pos _

/-- the bytes and the counts are such -/
theorem args_proper (hvalue : ∀ a ∈ c.args p t, a.value ≤ 0xff)
    (hcount : ∀ a ∈ c.args p t, ∀ n, a.count = some n → 1 ≤ n) : ∀ a ∈ c.args p t, a.Proper :=
  fun a ha => ⟨hvalue a ha, hcount a ha, fun _ hn => readArgs_count_lt ha hn⟩

/-- **The bytes of a write.**  They are those of the line up to 255; 256 are never sent; and more
are refused in time unless a byte without a repeat count is the 256th. -/
theorem expansion_iff (c : Con) (p : Line) (t : Nat) (h : Stands p.line t) (hb : AtByte p t)
    (hvalue : ∀ a ∈ c.args p t, a.value ≤ 0xff)
    (hcount : ∀ a ∈ c.args p t, ∀ n, a.count = some n → 1 ≤ n) :
    Expands c (c.args p t) (hydrabusModeWrite c p t) ↔
      total (c.args p t) < bufferSize ∨
      (total (c.args p t) = bufferSize ∧ c.provided = false) ∨
      (bufferSize < total (c.args p t) ∧ ¬ Filled 0 (c.args p t)) := by
  have hproper := args_proper hvalue hcount
  have hsize : bufferSize = 256 := rfl
  have hcalls : (hydrabusModeWrite c p t).calls =
      if (outcome [] (c.args p t)).1.length = 0 then [] else c.send (outcome [] (c.args p t)).1 := by
    rw [write_bytes h hb, finish_once]
  have hrefused : ((hydrabusModeWrite c p t).error ≠ none ∧
      (hydrabusModeWrite c p t).stored ≤ bufferSize) ↔
      ((outcome [] (c.args p t)).2 ≠ none ∧ (outcome [] (c.args p t)).1.length ≤ bufferSize) := by
    rw [write_bytes h hb, finish_error, finish_stored]
  rcases Nat.lt_trichotomy (total (c.args p t)) bufferSize with hlt | heq | hgt
  · refine iff_of_true ⟨fun _ => ?_, fun hgt => by omega⟩ (.inl hlt)
    have hpos := total_args_pos (c := c) h hb
    rw [hcalls, outcome_small hproper (by rwa [List.length_nil, Nat.zero_add]), List.nil_append,
      expand_length, if_neg hpos.ne', send_small c (by rwa [expand_length])]
  · constructor
    · intro hexp
      refine .inr (.inl ⟨heq, ?_⟩)
      by_contra hp
      have hp : c.provided = true := Bool.not_eq_false _ ▸ hp
      have hsent := hexp.sent heq.le
      rw [hcalls, if_pos hp] at hsent
      split at hsent
      · exact List.cons_ne_nil _ _ hsent.symm
      · exact send_ne c hp (by rw [expand_length, heq]) hsent
    · intro hcond
      have hp : c.provided = false := by
        rcases hcond with hlt | ⟨-, hp⟩ | ⟨hgt, -⟩
        · omega
        · exact hp
        · omega
      refine ⟨fun _ => ?_, fun hgt => by omega⟩
      rw [hcalls, hp, if_neg Bool.false_ne_true, (send_eq_nil c _).mpr hp, ite_self]
  · have hlarge : ((outcome [] (c.args p t)).2 ≠ none ∧
        (outcome [] (c.args p t)).1.length ≤ bufferSize) ↔ ¬ Filled 0 (c.args p t) :=
      outcome_large hproper (Nat.two_pow_pos 8) (by rwa [List.length_nil, Nat.zero_add])
    constructor
    · intro hexp
      exact .inr (.inr ⟨hgt, hlarge.mp (hrefused.mp (hexp.refused hgt))⟩)
    · intro hcond
      have hfilled : ¬ Filled 0 (c.args p t) := by
        rcases hcond with hlt | ⟨heq, -⟩ | ⟨-, hf⟩
        · omega
        · omega
        · exact hf
      exact ⟨fun hle => by omega, fun _ => hrefused.mpr (hlarge.mpr hfilled)⟩

/-! ## a repeated write -/

/-- the bytes of a payload at `t` -/
def Con.payload (c : Con) (p : Line) (t : Nat) : List UInt8 :=
  if p.tok t = .argString then p.string (p.offset (t + 1)) else expand (c.args p t)

/-- the tokens of a payload at `t` -/
def Con.payloadCells (c : Con) (p : Line) (t : Nat) : Nat :=
  if p.tok t = .argString then 2 else ((c.args p t).map Arg.cells).sum

/-- `T_WRITE` at `t`, a repeat count, and the payload: it is sent that often, and the loop of
`cmd_mode_exec` goes on behind it -/
structure Repeated (c : Con) (p : Line) (t : Nat) : Prop where
  sent : (writeCase c p t).1.calls =
    List.replicate (p.int (p.offset (t + 2))).toNat (c.call (c.payload p (t + 3)))
  next : (writeCase c p t).2 = some (t + 3 + c.payloadCells p (t + 3))

/-- the case of the repeat count is left before the payload is read -/
theorem write_suffix (h : p.tok t = .argTokenSuffixInt) :
    hydrabusModeWrite c p t = ⟨0, [], none, 0⟩ := by
  unfold hydrabusModeWrite
  rw [h]
  rfl

/-- **A repeated write** sends nothing and ends the line, whatever its payload is. -/
theorem never_repeated (c : Con) (p : Line) (t : Nat) (hsuffix : p.tok (t + 1) = .argTokenSuffixInt)
    (hcount : 1 ≤ p.int (p.offset (t + 2))) :
    (writeCase c p t).1.calls = [] ∧ (writeCase c p t).2 = none ∧ ¬ Repeated c p t := by
  have hwrite : writeCase c p t = (⟨0, [], none, 0⟩, none) := by
    unfold writeCase
    rw [write_suffix hsuffix]
    rfl
  refine ⟨by rw [hwrite], by rw [hwrite], fun hrepeated => ?_⟩
  have hsent := hrepeated.sent
  rw [hwrite] at hsent
  have hnone := congrArg List.length hsent
  rw [List.length_nil, List.length_replicate] at hnone
  omega

/-- without a repeat count the payload of bytes is sent once, and the loop goes on behind it -/
theorem written_once (h : Stands p.line (t + 1)) (hb : AtByte p (t + 1))
    (hvalue : ∀ a ∈ c.args p (t + 1), a.value ≤ 0xff)
    (hcount : ∀ a ∈ c.args p (t + 1), ∀ n, a.count = some n → 1 ≤ n)
    (hsmall : total (c.args p (t + 1)) < bufferSize) (hp : c.provided = true) :
    writeCase c p t =
      (⟨c.payloadCells p (t + 1), [c.call (c.payload p (t + 1))], none, total (c.args p (t + 1))⟩,
        some (t + 1 + c.payloadCells p (t + 1))) := by
  have hword : p.tok (t + 1) ≠ .argString := by
    rcases hb with hb | hb <;> rw [hb] <;> decide
  have hpayload : c.payload p (t + 1) = expand (c.args p (t + 1)) := if_neg hword
  have hcells : c.payloadCells p (t + 1) = ((c.args p (t + 1)).map Arg.cells).sum := if_neg hword
  obtain ⟨a, args, hargs⟩ := List.exists_cons_of_ne_nil (args_ne_nil (c := c) h hb)
  have hpos := total_args_pos (c := c) h hb
  have hused : c.payloadCells p (t + 1) ≠ 0 := by
    have ha : a ∈ c.args p (t + 1) := by rw [hargs]; exact List.mem_cons_self
    have := readArgs_cells_pos ha
    rw [hcells, hargs, List.map_cons, List.sum_cons]
    omega
  have hwrite : hydrabusModeWrite c p (t + 1) =
      ⟨c.payloadCells p (t + 1), [c.call (c.payload p (t + 1))], none,
        total (c.args p (t + 1))⟩ := by
    rw [write_bytes h hb, outcome_small (args_proper hvalue hcount)
      (by rwa [List.length_nil, Nat.zero_add]), List.nil_append, if_pos rfl, ← hcells, hpayload]
    unfold Con.finish
    rw [expand_length, if_neg hpos.ne', send_small c (by rwa [expand_length]), if_pos hp]
    rfl
  unfold writeCase
  simp only [hwrite, if_neg hused, Nat.add_right_comm]

end

/-! ### a line with a refused argument -/

/-- integers at these offsets, and nothing else in `buf` -/
def lineOf (l : Words) (value : Int → UInt16) : Line where
  line := l
  after := fun _ => 0
  token := fun n => if n = 0 then .zero else .other
  code := fun _ => 1
  int := fun o => (value o).toNat
  speed := fun _ => false
  escaped := fun _ => 0
  hex := fun _ => none
  lo := fun o => by omega
  hi := fun o => by have := (value o).toNat_lt; omega
  string := fun _ => []
  string_length := fun _ => rfl

theorem write_shape : (none : Option Int).isSome = Token.argument .write := rfl
theorem write_proper : Token.write ≠ .zero := nofun
theorem uint_shape (o : Int) : (some o).isSome = Token.argument .argUint := rfl
theorem uint_proper : Token.argUint ≠ .zero := nofun
theorem suffix_shape (o : Int) : (some o).isSome = Token.argument .argTokenSuffixInt := rfl
theorem suffix_proper : Token.argTokenSuffixInt ≠ .zero := nofun

def wordWrite : Item Token.argument Token.zero Int := ⟨.write, none, write_shape, write_proper⟩
def wordUint (o : Int) : Item Token.argument Token.zero Int :=
  ⟨.argUint, some o, uint_shape o, uint_proper⟩
def wordSuffix (o : Int) : Item Token.argument Token.zero Int :=
  ⟨.argTokenSuffixInt, some o, suffix_shape o, suffix_proper⟩

/-- a mode with all operations -/
def conFull : Con := ⟨⟨true, true, true, true⟩, false, fun _ => 0⟩

/-- `write 0x100` sends nothing -/
theorem rejected_first :
    let p := lineOf [wordWrite, wordUint 0] fun _ => 0x100
    (hydrabusModeWrite conFull p 1).error ≠ none → (hydrabusModeWrite conFull p 1).calls = [] :=
  (rejected_iff _ _ _ (by decide)).mpr fun _ => .inr ⟨⟨0x100, none, 2⟩, [], rfl, by decide⟩

/-- `write 1 0x100` sends the 1 -/
theorem rejected_sends :
    ¬ ∀ (c : Con) (p : Line) (t : Nat), Stands p.line t → (hydrabusModeWrite c p t).error ≠ none →
      (hydrabusModeWrite c p t).calls = [] := by
  intro hall
  let p := lineOf [wordWrite, wordUint 0, wordUint 4] fun o => if o = 0 then 1 else 0x100
  have hnone := hall conFull p 1 (by decide) (by decide)
  have hsent : (hydrabusModeWrite conFull p 1).calls = [.write [1]] := by decide
  rw [hsent] at hnone
  exact List.cons_ne_nil _ _ hnone

/-- `write 1:3 2` -/
theorem expansion_four :
    let p := lineOf [wordWrite, wordUint 0, wordSuffix 4, wordUint 8] fun o =>
      if o = 0 then 1 else if o = 4 then 3 else 2
    Expands conFull (conFull.args p 1) (hydrabusModeWrite conFull p 1) :=
  (expansion_iff _ _ _ (by decide) (.inl rfl) (by decide) (by decide)).mpr (.inl (by decide))

/-- `write 1:256` sends a byte -/
theorem expansion_256 :
    ¬ ∀ (c : Con) (p : Line) (t : Nat), Stands p.line t → AtByte p t →
      (∀ a ∈ c.args p t, a.value ≤ 0xff) →
      (∀ a ∈ c.args p t, ∀ n, a.count = some n → 1 ≤ n) →
      Expands c (c.args p t) (hydrabusModeWrite c p t) := by
  intro hall
  let p := lineOf [wordWrite, wordUint 0, wordSuffix 4] fun o => if o = 0 then 1 else 256
  have hsent := (hall conFull p 1 (by decide) (.inl rfl) (by decide) (by decide)).sent (by decide)
  have hcalls : (hydrabusModeWrite conFull p 1).calls = [.write [1]] := by decide
  rw [hcalls] at hsent
  have hbytes := congrArg List.length (conFull.call_inj (List.singleton_inj.mp hsent))
  rw [expand_length] at hbytes
  exact absurd hbytes (by decide)

/-- `write:2 1` -/
theorem repeated_two :
    let p := lineOf [wordWrite, wordSuffix 0, wordUint 4] fun o => if o = 0 then 2 else 1
    (writeCase conFull p 0).1.calls = [] ∧ (writeCase conFull p 0).2 = none ∧
      ¬ Repeated conFull p 0 :=
  never_repeated _ _ _ rfl (by decide)

/-- `write:2 1` sends nothing -/
theorem repeated_sends_nothing :
    ¬ ∀ (c : Con) (p : Line) (t : Nat), p.tok t = .write → p.tok (t + 1) = .argTokenSuffixInt →
      1 ≤ p.int (p.offset (t + 2)) → c.payload p (t + 3) ≠ [] → Repeated c p t := by
  intro hall
  let p := lineOf [wordWrite, wordSuffix 0, wordUint 4] fun o => if o = 0 then 2 else 1
  have hnext := (hall conFull p 0 rfl rfl (by decide) (by decide)).next
  exact absurd hnext (by decide)

end Write
end Hydra
