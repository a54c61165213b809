import HydraFw.Lib.Runs
import HydraFw.Lib.Slots

/-!
# The token walk of the console modes

`cmd_mode_exec` and what it calls walk over the tokens of a line, each function with a cursor of
its own (`hydrabus_mode.c`, `hydrabus_trigger.c`, `hydrabus_sd.c`, `exec` of the modes `nfc` and
`dnfc`).  The model has the cursors and what the functions read of the line; one step is one turn
of one of the loops.

* `Token`, `Parsed`   the tokens, a parsed line in its array;
* `Place`             the loop that runs, with its cursor;
* `Turn`              what one turn reads of the line, the tokens it carries out, and the place
                      it leaves the walk at, where the test of the loop has read the next token;
* `cmdModeExec`, `chompIntegers`, `cmdTrigger`, `moduleExec`   a turn of each loop;
* `modeCase`, `nfcCase`, `dnfcCase`, `sdCase`   the switches of the loops;
* `walk`              the system.
-/

namespace Hydra
namespace Walk
open Slots Runs

/-! ## tokens -/

/-- the tokens that a switch of the walk names -/
inductive Token where
  /-- the end of the line -/
  | zero
  | exit | show | sd | mount | umount | cd | pwd | ls | cat | hd | erase | really | testperf
  | frequency | csOn | csOff | pins | read | write | start | stop | period | continuous | scan
  | nfcAll | nfcA | nfcB | nfcSt25tb | nfcV | nfcF | emulMifare | emulIso14443a | registers
  | readMfUltralight | emulMfUltralight | cloneMfUltralight | setNfcMode | getNfcMode | nfcMode
  | nfcModeTxBitrate | nfcModeRxBitrate | setNfcObsv | getNfcObsv | nfcObsv | nfcObsvTx
  | nfcObsvRx | nfcTuneAuto | setNfcTune | getNfcTune | nfcAatA | nfcAatB | nfcTransparent
  | nfcStream | setEmulTagProperties | emulTagPropertyUid | emulTagPropertySak
  | emulTagPropertyUri | emulT4t | cardConnectAuto | cardConnectAutoOpt
  | cardConnectAutoOptVerbosity | cardConnectAutoOptIso14443FrameSize | cardSend | nfcRfOffOn
  | nfcIso14443Reqa | nfcIso14443Wupa | nfcSendBytes | nfcSendBytesAndComputeCrc | sniff | rm
  | mkdir | filter | script | file | trigger | leftSq | rightSq | leftCurly | rightCurly | slash
  | backslash | minus | underscore | exclamation | caret | dot | ampersand | percent | tilde
  | auxOff | auxOn | auxRead
  | argUint | argFloat | argString | argTokenSuffixInt
  /-- an argument of another type -/
  | argOther
  /-- a token that no switch of the walk names -/
  | other
  deriving DecidableEq

/-- `T_ARG_*`, `T_ARG_TOKEN_SUFFIX_INT` -/
def Token.argument : Token → Bool
  | .argUint | .argFloat | .argString | .argTokenSuffixInt | .argOther => true
  | _ => false

/-- a parsed line; an argument's slot has its offset in `buf` -/
structure Parsed where
  line : List (Item Token.argument Token.zero Int)
  /-- the array behind the terminating zero -/
  after : Nat → Int
  /-- the token with a code -/
  token : Int → Token
  code : Token → Int
  /-- the integer at an offset of `buf` -/
  int : Int → Int
  /-- the number at an offset is one of `speeds` -/
  speed : Int → Bool
  /-- how many bytes `parse_escaped_string` makes of the string at an offset -/
  escaped : Int → Nat
  /-- how many bytes `buf_ascii2hex` makes of the string at an offset, unless it fails -/
  hex : Int → Option Nat

/-- `p->tokens[i]` as a token -/
def Parsed.tok (p : Parsed) (i : Nat) : Token :=
  match cell p.line i with
  | .word t => t
  | .slot o => p.token o
  | .stop => .zero
  | .behind => p.token (p.after i)

/-- `p->tokens[i]` as an offset -/
def Parsed.offset (p : Parsed) (i : Nat) : Int :=
  match cell p.line i with
  | .word t => p.code t
  | .slot o => o
  | .stop => 0
  | .behind => p.after i

/-! ## turns -/

inductive Read where
  /-- a token, or the end of the line, is looked for here -/
  | token (i : Nat)
  | offset (i : Nat)
  deriving DecidableEq

inductive Place where
  /-- `cmd_mode_exec` -/
  | mode (t : Nat)
  /-- `chomp_integers` -/
  | integers (t numBytes : Nat)
  /-- `cmd_trigger`, called for the token at `pos` -/
  | trigger (pos t : Nat)
  /-- `exec` of the mode, called for the token at `pos` -/
  | exec (pos t : Nat)
  | done
  deriving DecidableEq

structure Turn where
  reads : List Read
  acts : List Nat
  next : Place

/-- what the outside answers in a turn: the shield or the card is there, and does it -/
structure Answer where
  ready : Bool
  ok : Bool

/-- the loop goes on at `next`, whose test reads its token -/
def Place.test : Place → List Read
  | .mode t | .integers t _ | .trigger _ t | .exec _ t => [.token t]
  | .done => []

/-- the turn ends: the loop of `next` tests its token -/
def Turn.to (reads : List Read) (acts : List Nat) (next : Place) : Turn :=
  ⟨reads ++ next.test, acts, next⟩

/-! ## `cmd_mode_exec` -/

inductive ModeCase where
  /-- a call without arguments -/
  | plain
  /-- an optional count behind the token -/
  | counted
  | write
  /-- bytes to write, without `T_WRITE` -/
  | bytes
  | trigger
  /-- `default`: the mode's own tokens -/
  | module

def modeCase : Token → ModeCase
  | .csOn | .start | .leftSq | .leftCurly | .csOff | .stop | .rightSq | .rightCurly | .slash
  | .backslash | .minus | .underscore | .exclamation | .caret | .dot => .plain
  | .ampersand | .percent | .read | .hd => .counted
  | .write => .write
  | .tilde | .argUint | .argString => .bytes
  | .trigger => .trigger
  | .auxOn | .auxOff | .auxRead | .exit => .plain
  | _ => .module

/-- `MODE_CONFIG_PROTO_BUFFER_SIZE` -/
def bufferSize : Nat := 256

/-- `hydrabus_mode_write` at `t`; without bytes it returns 0, and the walk is done -/
def hydrabusModeWrite (p : Parsed) (acts : List Nat) (t : Nat) : Turn :=
  match p.tok t with
  | .argTokenSuffixInt => .to [.token t, .offset (t + 1)] acts .done
  | .argUint | .tilde => .to [.token t] acts (.integers t 0)
  | .argString =>
    .to [.token t, .offset (t + 1)] (t :: acts)
      (if p.escaped (p.offset (t + 1)) = 0 then .done else .mode (t + 2))
  | _ => .to [.token t] acts .done

/-- the loop's test; when it fails, `cmd_mode_exec` goes on with the token that it has read -/
def chompTest (p : Parsed) (reads : List Read) (acts : List Nat) (t numBytes : Nat) : Turn :=
  if p.tok t = .argUint ∨ p.tok t = .tilde then .to reads acts (.integers t numBytes)
  else .to (reads ++ [.token t]) acts (.mode t)

/-- the repetition behind a byte -/
def chompCount (p : Parsed) (reads : List Read) (acts : List Nat) (t numBytes : Nat) : Turn :=
  if p.tok t = .argTokenSuffixInt then
    let count := p.int (p.offset (t + 1))
    if (numBytes + count) % 2 ^ 32 > bufferSize then
      .to (reads ++ [.token t, .offset (t + 1)]) acts .done
    else
      chompTest p (reads ++ [.token t, .offset (t + 1)]) acts (t + 2)
        (numBytes + (count - 1).toNat)
  else chompTest p (reads ++ [.token t]) acts t numBytes

/-- a byte; one that is none ends the walk -/
def chompIntegers (p : Parsed) (t numBytes : Nat) : Turn :=
  if p.tok t = .tilde then chompCount p [] [t] (t + 1) (numBytes + 1)
  else if p.int (p.offset (t + 1)) % 2 ^ 32 > 0xff then .to [.offset (t + 1)] [t] .done
  else chompCount p [.offset (t + 1)] [t] (t + 2) (numBytes + 1)

/-! ## `cmd_trigger` -/

/-- back in `cmd_mode_exec`: it adds what `cmd_trigger` returns, and 1 -/
def triggerReturns (pos t : Nat) : Turn := .to [] [] (.mode (pos + (t - (pos + 1)) + 1))

def cmdTrigger (p : Parsed) (pos t : Nat) : Turn :=
  match p.tok t with
  | .zero => triggerReturns pos t
  | .filter => .to [.offset (t + 2)] [t] (.trigger pos (t + 3))
  | .start => .to [] [t] (.trigger pos (t + 1))
  | .show =>
    if p.tok (t + 1) = .pins then .to [.token (t + 1)] [t, t + 1] (.trigger pos (t + 2))
    else .to [.token (t + 1)] [t] (.trigger pos (t + 1))
  | _ => triggerReturns pos t

/-! ## `exec` of a mode -/

inductive Mode where
  | nfc
  | dnfc
  deriving DecidableEq

inductive ModuleCase where
  | plain
  /-- the switch has no case for it and no `default` -/
  | ignored
  /-- `default: return` -/
  | unknown
  /-- `show`, which looks at `tokens[1]` for these -/
  | show (what : List Token)
  /-- `t += 2` and the value at that offset, which must be accepted -/
  | value (accepts : Int → Bool)
  /-- `t += 2` -/
  | skip
  /-- `t += 2`, where the argument must be of this type and its value accepted -/
  | typed (type : Token) (accepts : Int → Bool)
  | uri
  | file
  | readMfUltralight
  | emulT4t

def inRange (p : Parsed) (max : Int) (offset : Int) : Bool :=
  0 ≤ p.int offset ∧ p.int offset ≤ max

def nfcCase (p : Parsed) : Token → ModuleCase
  | .show => .show [.registers]
  | .nfcObsv => .value (inRange p 1)
  | .nfcObsvTx | .nfcObsvRx | .nfcAatA | .nfcAatB => .value (inRange p 255)
  | .nfcAll | .nfcA | .nfcB | .nfcSt25tb | .nfcV | .nfcF => .plain
  | .period => .value fun _ => true
  | .continuous => .plain
  | .file => .file
  | .scan => .plain
  | .readMfUltralight => .readMfUltralight
  | .emulMfUltralight | .cloneMfUltralight | .sniff => .plain
  | .emulMifare => .value fun _ => true
  | .emulIso14443a | .setEmulTagProperties => .plain
  | .emulT4t => .emulT4t
  | .emulTagPropertyUid => .typed .argString fun o => p.hex o = some 4 ∨ p.hex o = some 7
  | .emulTagPropertySak => .typed .argString fun o => p.hex o = some 1
  | .emulTagPropertyUri => .uri
  | .cardConnectAuto | .cardConnectAutoOpt | .cardSend | .setNfcObsv | .getNfcObsv | .nfcTuneAuto
  | .setNfcTune | .getNfcTune => .plain
  -- the option's own token is read once more
  | .cardConnectAutoOptVerbosity | .cardConnectAutoOptIso14443FrameSize =>
    .typed .argUint fun _ => true
  | _ => .ignored

def dnfcCase (p : Parsed) (a : Answer) : Token → ModuleCase
  | .show => .show [.pins, .registers]
  | .frequency => .value fun o => p.speed o ∧ a.ok
  | .nfcMode | .nfcModeTxBitrate | .nfcModeRxBitrate => .value fun _ => true
  | .nfcObsv => .value (inRange p 1)
  | .nfcObsvTx | .nfcObsvRx => .value (inRange p 255)
  | .setNfcMode | .getNfcMode | .setNfcObsv | .getNfcObsv | .nfcTransparent | .nfcStream | .sniff
  | .nfcRfOffOn | .nfcIso14443Reqa | .nfcIso14443Wupa => .plain
  | .nfcSendBytes | .nfcSendBytesAndComputeCrc => .skip
  | _ => .unknown

def moduleCase (mode : Mode) (p : Parsed) (a : Answer) (t : Token) : ModuleCase :=
  match mode with
  | .nfc => nfcCase p t
  | .dnfc => dnfcCase p a t

/-- back in `cmd_mode_exec`: it is done when `exec` returns 0, and else adds that less 1, and 1 -/
def execReturns (reads : List Read) (acts : List Nat) (pos used : Nat) : Turn :=
  .to reads acts (if used = 0 then .done else .mode (pos + (used - 1) + 1))

/-- a turn of the loop over the parameters; after the last the commands are executed -/
def moduleExec (mode : Mode) (p : Parsed) (a : Answer) (pos t : Nat) : Turn :=
  if p.tok t = .zero then execReturns [] [] pos (t - pos)
  else
    match moduleCase mode p a (p.tok t) with
    | .plain => .to [] [t] (.exec pos (t + 1))
    | .ignored => .to [] [] (.exec pos (t + 1))
    | .unknown => execReturns [] [] pos (t - pos)
    | .show what =>
      if p.tok 1 ∈ what then .to [.token 1] [t, 1] (.exec pos (t + 2))
      else .to [.token 1] [t] (.exec pos (t + 1))
    | .value accepts =>
      if accepts (p.offset (t + 2)) then .to [.offset (t + 2)] [t] (.exec pos (t + 3))
      else execReturns [.offset (t + 2)] [t] pos (t + 2)
    | .skip => .to [] [t] (.exec pos (t + 3))
    | .typed type accepts =>
      if p.tok (t + 1) = type then
        if accepts (p.offset (t + 2)) then
          .to [.token (t + 1), .offset (t + 2)] [t] (.exec pos (t + 3))
        else execReturns [.token (t + 1), .offset (t + 2)] [t] pos (t + 2)
      else execReturns [.token (t + 1)] [t] pos (t + 2)
    | .uri =>
      if p.tok (t + 1) = .argString then
        .to [.token (t + 1), .offset (t + 2)] [t] (.exec pos (t + 3))
      else .to [.token (t + 1)] [t] (.exec pos (t + 1))
    | .file => .to [.offset (t + 3)] [t] (.exec pos (t + 1))
    | .readMfUltralight =>
      if p.tok (t + 1) = .argString then
        if p.tok (t + 3) = .zero then
          .to [.token (t + 1), .token (t + 3), .offset (t + 2)] [t] (.exec pos (t + 1))
        else execReturns [.token (t + 1), .token (t + 3)] [t] pos 0
      else execReturns [.token (t + 1)] [t] pos 0
    | .emulT4t =>
      if p.tok (t + 1) = .zero then execReturns [.token (t + 1)] [t] pos t
      else if p.tok (t + 2) = .zero then
        .to [.token (t + 1), .token (t + 2)] [t] (.exec pos (t + 1))
      else execReturns [.token (t + 1), .token (t + 2)] [t] pos t

/-! ## `cmd_sd` -/

inductive SdCase where
  | plain
  /-- a file name and nothing else; `T_SCRIPT` always succeeds with one -/
  | named (script : Bool)
  | erase
  /-- a file name, which is not looked for -/
  | remove
  | unknown

def sdCase : Token → SdCase
  | .show | .mount | .umount | .ls | .pwd | .testperf => .plain
  | .cd | .cat | .hd => .named false
  | .script => .named true
  | .erase => .erase
  | .rm | .mkdir => .remove
  | _ => .unknown

/-- `exec` has read its token and `tokens[1]`, and returns what `cmd_sd` does -/
def sdReturns (pos : Nat) (reads : List Read) (acts : List Nat) (ret : Bool) : Turn :=
  execReturns (.token pos :: .token 1 :: reads) (pos :: acts) pos (if ret then 1 else 0)

/-- it looks at the line from `tokens[1]` on, and returns whether it succeeds -/
def cmdSd (p : Parsed) (a : Answer) (pos : Nat) : Turn :=
  match sdCase (p.tok 1) with
  | .plain => sdReturns pos [] [1] a.ok
  | .named script =>
    if p.tok 2 = .argString then
      if p.tok 4 = .zero then sdReturns pos [.token 2, .token 4, .offset 3] [1] (script || a.ok)
      else sdReturns pos [.token 2, .token 4] [1] false
    else sdReturns pos [.token 2] [1] false
  | .erase =>
    if p.tok 2 = .zero then sdReturns pos [.token 2] [1] true
    else if p.tok 2 = .really then
      if p.tok 3 = .zero then sdReturns pos [.token 2, .token 3] [1, 2] a.ok
      else sdReturns pos [.token 2, .token 3] [1] false
    else sdReturns pos [.token 2] [1] false
  | .remove =>
    if a.ready then sdReturns pos [.offset 3] [1] a.ok
    else sdReturns pos [] [1] false
  | .unknown => sdReturns pos [] [] false

/-- `exec` is called; the mode `nfc` looks for `T_SD` first -/
def callExec (mode : Mode) (p : Parsed) (a : Answer) (t : Nat) : Turn :=
  match mode with
  | .nfc => if p.tok t = .sd then cmdSd p a t else .to [.token t] [] (.exec t t)
  | .dnfc => .to [] [] (.exec t t)

def cmdModeExec (mode : Mode) (p : Parsed) (a : Answer) (t : Nat) : Turn :=
  if p.tok t = .zero then ⟨[], [], .done⟩
  else
    match modeCase (p.tok t) with
    | .plain => .to [] [t] (.mode (t + 1))
    | .counted =>
      if p.tok (t + 1) = .argTokenSuffixInt then
        .to [.token (t + 1), .offset (t + 2)] [t] (.mode (t + 3))
      else .to [.token (t + 1)] [t] (.mode (t + 1))
    | .write => hydrabusModeWrite p [t] (t + 1)
    | .bytes => hydrabusModeWrite p [] t
    | .trigger => .to [] [t] (.trigger t (t + 1))
    | .module => callExec mode p a t

/-! ## the walk -/

structure State where
  place : Place
  /-- the tokens carried out so far -/
  acted : List Nat

def turn (mode : Mode) (p : Parsed) (s : State) (a : Answer) : Turn :=
  match s.place with
  | .mode t => cmdModeExec mode p a t
  | .integers t numBytes => chompIntegers p t numBytes
  | .trigger pos t => cmdTrigger p pos t
  | .exec pos t => moduleExec mode p a pos t
  | .done => ⟨[], [], .done⟩

def walk (mode : Mode) (p : Parsed) (s : State) (a : Answer) : State :=
  { place := (turn mode p s a).next, acted := s.acted ++ (turn mode p s a).acts }

/-- `cmd_mode_exec` starts with the first token -/
def State.init : State := ⟨.mode 0, []⟩

end Walk
end Hydra
