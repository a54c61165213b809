import HydraFw.Console.Tokens

/-!
# Leaving a mode

For `T_EXIT` the loop of `cmd_mode_exec` (`hydrabus_mode.c`) calls the `cleanup` of the mode and
`mode_exit`, and goes on with the next token of the line, still with the operations of that mode.

* `Op`, `has`     the operations, and which of them `mode_nfc_exec` and `mode_dnfc_exec` have;
* `invoked`            the operations that one turn of the walk invokes;
* `Final`              after an exit no turn invokes one;
* `Quiet`              the tokens behind an exit for which that is so;
* `final_iff`          leaving a mode is final exactly when only such tokens are reached;
* `final_of_last`      it is for an exit at the end of the line.
-/

namespace Hydra
namespace Leaving
open Slots Runs Walk

/-- the members of `mode_exec_t` that the walk calls, `cmd_trigger` and `mode_exit` -/
inductive Op where
  | exec | start | stop | write | read | dump | writeRead | clkh | clkl | dath | datl | dats | clk
  | bitr | cleanup | trigger | modeExit
  deriving DecidableEq

/-- `mode_nfc_exec`, `mode_dnfc_exec`; the last two are functions of their own -/
def has : Mode → Op → Bool
  | .nfc, .exec | .nfc, .cleanup => true
  | .dnfc, .exec | .dnfc, .start | .dnfc, .stop | .dnfc, .write | .dnfc, .read | .dnfc, .dump
  | .dnfc, .writeRead | .dnfc, .dath | .dnfc, .datl | .dnfc, .cleanup => true
  | _, .trigger | _, .modeExit => true
  | _, _ => false

/-- `MAYBE_CALL` -/
def maybeCall (mode : Mode) (op : Op) : List Op := if has mode op then [op] else []

structure State where
  walk : Walk.State
  /-- `proto.wwr` -/
  wwr : Bool
  /-- a `T_EXIT` has been carried out -/
  exited : Bool

/-- what the outside answers in a turn -/
structure Input where
  answer : Answer
  /-- the user button is pressed when it is first looked at -/
  ubtn : Bool

/-! ## the operations of a turn -/

/-- the count behind `T_HD` -/
def hexdumpCount (p : Parsed) (t : Nat) : Int :=
  if p.tok (t + 1) = .argTokenSuffixInt then p.int (p.offset (t + 2)) % 2 ^ 32 else 1

/-- the loop of `hydrabus_mode_write` -/
def sendBytes (mode : Mode) (wwr : Bool) : List Op :=
  maybeCall mode (if wwr then .writeRead else .write)

/-- `hydrabus_mode_write` at `t`, as far as it does not go through `chomp_integers` -/
def writeOps (mode : Mode) (p : Parsed) (wwr : Bool) (t : Nat) : List Op :=
  if p.tok t = .argString ∧ p.escaped (p.offset (t + 1)) ≠ 0 then sendBytes mode wwr else []

def modeOps (mode : Mode) (p : Parsed) (wwr ubtn : Bool) (t : Nat) : List Op :=
  match p.tok t with
  | .zero => []
  | .csOn | .start | .leftSq | .leftCurly => maybeCall mode .start
  | .csOff | .stop | .rightSq | .rightCurly => maybeCall mode .stop
  | .slash => maybeCall mode .clkh
  | .backslash => maybeCall mode .clkl
  | .minus => maybeCall mode .dath
  | .underscore => maybeCall mode .datl
  | .exclamation => maybeCall mode .dats
  | .caret => maybeCall mode .clk
  | .dot => maybeCall mode .bitr
  | .ampersand | .percent => []
  | .read => maybeCall mode .read
  -- `read` is looked for, and `dump` called
  | .hd => if has mode .read ∧ 0 < hexdumpCount p t ∧ ubtn = false then [.dump] else []
  | .write => writeOps mode p wwr (t + 1)
  | .tilde | .argUint | .argString => writeOps mode p wwr t
  | .trigger => maybeCall mode .trigger
  | .auxOn | .auxOff | .auxRead => []
  | .exit => maybeCall mode .cleanup ++ maybeCall mode .modeExit
  | _ => maybeCall mode .exec

/-- `chomp_integers` goes on with the next byte -/
def GoesOn : Place → Bool
  | .integers _ _ => true
  | _ => false

/-- a byte that is none -/
def refused (p : Parsed) (t : Nat) : Bool :=
  p.tok t ≠ .tilde ∧ p.int (p.offset (t + 1)) % 2 ^ 32 > 0xff

/-- `chomp_integers` returns in this turn, also for a byte or a repetition that it refuses, and
`hydrabus_mode_write` sends the bytes that it has accepted -/
def sends (p : Parsed) (t numBytes : Nat) : Bool :=
  !GoesOn (chompIntegers p t numBytes).next && (!refused p t || numBytes ≠ 0)

def invoked (mode : Mode) (p : Parsed) (s : State) (i : Input) : List Op :=
  match s.walk.place with
  | .mode t => modeOps mode p s.wwr i.ubtn t
  | .integers t numBytes => if sends p t numBytes then sendBytes mode s.wwr else []
  | .trigger _ t =>
    if p.tok t = .start ∧ has mode .read ∧ i.ubtn = false then [.dump] else []
  -- a turn inside `exec`, which has been called
  | .exec _ _ => []
  | .done => []

/-- `proto.wwr` behind a token -/
def wwrNext (wwr : Bool) : Token → Bool
  | .csOn | .start | .leftSq | .csOff | .stop | .rightSq | .rightCurly => false
  | .leftCurly => true
  | _ => wwr

/-- `T_EXIT` in the loop of `cmd_mode_exec` -/
def AtExit (p : Parsed) : Place → Bool
  | .mode t => p.tok t = .exit
  | _ => false

def State.tokenAt (s : State) (p : Parsed) : Token :=
  match s.walk.place with
  | .mode t => p.tok t
  | _ => .other

def step (mode : Mode) (p : Parsed) (s : State) (i : Input) : State where
  walk := Walk.walk mode p s.walk i.answer
  wwr := wwrNext s.wwr (s.tokenAt p)
  exited := s.exited || AtExit p s.walk.place

/-- a line is begun -/
def State.init (wwr : Bool) : State := ⟨Walk.State.init, wwr, false⟩

/-! ## the law and its condition -/

def Final (mode : Mode) (p : Parsed) (s : State) (i : Input) : Prop :=
  s.exited = true → invoked mode p s i = []

/-- the operation that a token of `cmd_mode_exec` asks for -/
def asks : Token → Option Op
  | .zero | .ampersand | .percent | .auxOn | .auxOff | .auxRead => none
  | .csOn | .start | .leftSq | .leftCurly => some .start
  | .csOff | .stop | .rightSq | .rightCurly => some .stop
  | .slash => some .clkh
  | .backslash => some .clkl
  | .minus => some .dath
  | .underscore => some .datl
  | .exclamation => some .dats
  | .caret => some .clk
  | .dot => some .bitr
  | .read | .hd => some .read
  | .write | .tilde | .argUint | .argString => some .write
  | .trigger => some .trigger
  | .exit => some .modeExit
  | _ => some .exec

/-- a token that asks for an operation of the mode, but has nothing for it to do -/
def Empty (p : Parsed) (ubtn : Bool) (t : Nat) : Prop :=
  match p.tok t with
  | .hd => hexdumpCount p t ≤ 0 ∨ ubtn = true
  -- the bytes of integers are sent when their list has been read, or one of it is refused
  | .write => ¬ (p.tok (t + 1) = .argString ∧ p.escaped (p.offset (t + 2)) ≠ 0)
  | .tilde | .argUint => True
  | .argString => p.escaped (p.offset (t + 1)) = 0
  | _ => False

/-- at this token of the walk nothing is done -/
def QuietAt (mode : Mode) (p : Parsed) (ubtn : Bool) : Place → Prop
  | .mode t => ∀ op, asks (p.tok t) = some op → has mode op = true → Empty p ubtn t
  | .integers t numBytes =>
    has mode .write = true →
      GoesOn (chompIntegers p t numBytes).next = true ∨ refused p t = true ∧ numBytes = 0
  | .trigger _ t => p.tok t = .start → has mode .read = true → ubtn = true
  | .exec _ _ | .done => True

/-- the tokens that a walk still reaches behind an exit -/
def Quiet (mode : Mode) (p : Parsed) (s : State) (i : Input) : Prop :=
  s.exited = true → QuietAt mode p i.ubtn s.walk.place

section
variable (mode : Mode) (p : Parsed)

theorem maybeCall_eq_nil (op : Op) : maybeCall mode op = [] ↔ has mode op = false := by
  rw [maybeCall]
  cases has mode op <;> simp

theorem has_writeRead : has mode .writeRead = has mode .write := by cases mode <;> rfl

theorem has_trigger : has mode .trigger = true := by cases mode <;> rfl

theorem has_modeExit : has mode .modeExit = true := by cases mode <;> rfl

theorem has_exec : has mode .exec = true := by cases mode <;> rfl

theorem sendBytes_eq_nil (wwr : Bool) : sendBytes mode wwr = [] ↔ has mode .write = false := by
  rw [sendBytes, maybeCall_eq_nil]
  cases wwr with
  | false => exact Iff.rfl
  | true => rw [if_pos rfl, has_writeRead]

theorem writeOps_eq_nil (wwr : Bool) (t : Nat) :
    writeOps mode p wwr t = [] ↔
      (has mode .write = true → ¬ (p.tok t = .argString ∧ p.escaped (p.offset (t + 1)) ≠ 0)) := by
  rw [writeOps]
  by_cases h : p.tok t = .argString ∧ p.escaped (p.offset (t + 1)) ≠ 0
  · rw [if_pos h, sendBytes_eq_nil, ← Bool.not_eq_true]
    exact ⟨fun hno hyes => absurd hyes hno, fun himp hyes => himp hyes h⟩
  · rw [if_neg h]
    exact ⟨fun _ _ => h, fun _ => rfl⟩

/-- a token of `cmd_mode_exec` -/
theorem modeOps_eq_nil (wwr ubtn : Bool) (t : Nat) :
    modeOps mode p wwr ubtn t = [] ↔ QuietAt mode p ubtn (.mode t) := by
  cases htok : p.tok t with
  | hd =>
    simp only [modeOps, QuietAt, asks, Empty, htok, Option.some.injEq, forall_eq',
      ite_eq_right_iff, List.cons_ne_self, imp_false, not_and]
    refine imp_congr_right fun _ => ?_
    rw [or_iff_not_imp_left, not_le, Bool.not_eq_false]
  | _ =>
    simp [modeOps, QuietAt, asks, Empty, htok, maybeCall_eq_nil, writeOps_eq_nil, has_trigger,
      has_modeExit, has_exec]

/-- the list goes on, or its first byte is refused -/
theorem sends_eq_false (t numBytes : Nat) :
    sends p t numBytes = false ↔
      GoesOn (chompIntegers p t numBytes).next = true ∨ refused p t = true ∧ numBytes = 0 := by
  rw [sends]
  cases GoesOn (chompIntegers p t numBytes).next <;> cases refused p t <;> simp

/-- one turn -/
theorem invoked_eq_nil (s : State) (i : Input) :
    invoked mode p s i = [] ↔ QuietAt mode p i.ubtn s.walk.place := by
  obtain ⟨⟨place, acted⟩, wwr, exited⟩ := s
  cases place with
  | mode t => exact modeOps_eq_nil mode p wwr i.ubtn t
  | integers t numBytes =>
    show (if sends p t numBytes then sendBytes mode wwr else []) = [] ↔
      (has mode .write = true →
        GoesOn (chompIntegers p t numBytes).next = true ∨ refused p t = true ∧ numBytes = 0)
    rw [← sends_eq_false]
    cases sends p t numBytes with
    | false => simp
    | true => rw [if_pos rfl, sendBytes_eq_nil]; simp
  | trigger pos t =>
    show (if p.tok t = .start ∧ has mode .read ∧ i.ubtn = false then [Op.dump] else []) = [] ↔
      (p.tok t = .start → has mode .read = true → i.ubtn = true)
    simp
  | exec pos t => exact ⟨fun _ => trivial, fun _ => rfl⟩
  | done => exact ⟨fun _ => trivial, fun _ => rfl⟩

/-- **Leaving a mode.**  It is final for a line exactly when the walk reaches only quiet tokens
behind the first exit. -/
theorem final_iff (wwr : Bool) (turns : List Input) :
    StepsOk (Final mode p) (step mode p) (State.init wwr) turns ↔
      StepsOk (Quiet mode p) (step mode p) (State.init wwr) turns :=
  stepsOk_congr fun s i => imp_congr_right fun _ => invoked_eq_nil mode p s i

/-! ## an exit at the end of the line -/

/-- the walk has left the mode and is at the end of the line -/
def AtEnd (s : State) : Prop :=
  s.exited = true → s.walk.place = .done ∨ ∃ t, s.walk.place = .mode t ∧ p.tok t = .zero

theorem walk_exit {t : Nat} (h : p.tok t = .exit) (a : Answer) (acted : List Nat) :
    (walk mode p ⟨.mode t, acted⟩ a).place = .mode (t + 1) := by
  show (cmdModeExec mode p a t).next = _
  rw [cmdModeExec, if_neg (by rw [h]; decide), h]
  rfl

theorem walk_end {t : Nat} (h : p.tok t = .zero) (a : Answer) (acted : List Nat) :
    (walk mode p ⟨.mode t, acted⟩ a).place = .done := by
  show (cmdModeExec mode p a t).next = _
  rw [cmdModeExec, if_pos h]

theorem AtEnd.step (hlast : ∀ t, p.tok t = .exit → p.tok (t + 1) = .zero) {s : State}
    (h : AtEnd p s) (i : Input) : AtEnd p (step mode p s i) := by
  obtain ⟨⟨place, acted⟩, wwr, exited⟩ := s
  intro hexited
  cases hbefore : exited with
  | true =>
    rcases h hbefore with hdone | ⟨t, hplace, hzero⟩
    · cases hdone
      exact .inl rfl
    · cases hplace
      exact .inl (walk_end mode p hzero i.answer acted)
  | false =>
    subst hbefore
    cases place with
    | mode t =>
      have hexit : p.tok t = .exit := by
        simpa [Leaving.step, AtExit] using hexited
      exact .inr ⟨t + 1, walk_exit mode p hexit i.answer acted, hlast t hexit⟩
    | _ => simp [Leaving.step, AtExit] at hexited

theorem AtEnd.quiet {s : State} (h : AtEnd p s) (i : Input) : Quiet mode p s i := by
  intro hexited
  rcases h hexited with hdone | ⟨t, hplace, hzero⟩
  · rw [hdone]
    trivial
  · rw [hplace, QuietAt, hzero]
    exact nofun

/-- an exit that ends its line is final -/
theorem final_of_last (hlast : ∀ t, p.tok t = .exit → p.tok (t + 1) = .zero) (wwr : Bool)
    (turns : List Input) :
    StepsOk (Final mode p) (step mode p) (State.init wwr) turns := by
  rw [final_iff]
  refine stepsOk_of_prefixes fun pre i post _ => ?_
  have hend : AtEnd p (run (step mode p) (State.init wwr) pre) :=
    inv_run_all (fun s i h => h.step mode p hlast i) pre fun h => Bool.noConfusion h
  exact hend.quiet mode p i

end

theorem exit_shape : (none : Option Int).isSome = Token.argument .exit := rfl
theorem exit_proper : Token.exit ≠ .zero := nofun
theorem scan_shape : (none : Option Int).isSome = Token.argument .scan := rfl
theorem scan_proper : Token.scan ≠ .zero := nofun

/-- `exit scan` -/
def parsedExitScan : Parsed where
  line := [⟨.exit, none, exit_shape, exit_proper⟩, ⟨.scan, none, scan_shape, scan_proper⟩]
  after := fun _ => 0
  token := fun n => if n = 0 then .zero else .other
  code := fun _ => 1
  int := fun _ => 0
  speed := fun _ => false
  escaped := fun _ => 0
  hex := fun _ => none

/-- `scan` is executed when the mode has been left -/
theorem scan_after_exit :
    ¬ ∀ (mode : Mode) (p : Parsed) (wwr : Bool) (turns : List Input),
      StepsOk (Final mode p) (step mode p) (State.init wwr) turns := by
  intro hall
  have hscan := (hall .nfc parsedExitScan false
    [⟨⟨true, true⟩, false⟩, ⟨⟨true, true⟩, false⟩]).2.1 rfl
  exact absurd hscan (by decide)

end Leaving
end Hydra
