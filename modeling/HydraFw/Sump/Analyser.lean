import HydraFw.Lib.Runs
import HydraFw.Lib.Ring

/-!
# The logic analyser

`get_samples` and the commands of `sump` (`hydrabus_sump.c`).  The port is sampled into the ring
`buffer`, whose write position is `INDEX`.

* `Config`         `sump_config_t`;
* `waitTrigger`    the first loop of `get_samples`, `delaySamples` the second one;
* `readOut`        the loop of `SUMP_RUN` that sends the samples;
* `handle`         one command of `sump`, with what it sends to the host.
-/

namespace Hydra
namespace Sump
open Rams

/-- `STATES_LEN` -/
def statesLen : Nat := 8192

theorem statesLen_pos : 0 < statesLen := by decide

/-- `GPIOC->IDR`, kept in sixteen bits -/
abbrev Sample := BitVec 16

abbrev Byte := BitVec 8

inductive State where
  | idle
  | armed
  | running
  | trigged
  deriving DecidableEq

structure Config where
  triggerMasks : Fin 4 → BitVec 32
  triggerValues : Fin 4 → BitVec 32
  readCount : BitVec 32
  delayCount : BitVec 32
  divider : BitVec 32
  state : State
  channels : Byte

/-- the configuration of the console and the statics of the file -/
structure Analyser where
  config : Config
  ring : Ring Sample statesLen

/-! ## `get_samples` -/

/-- `!((sample ^ config_trigger_value) & config_trigger_mask)` -/
def Config.matches (c : Config) (s : Sample) : Bool :=
  (s.setWidth 32 ^^^ c.triggerValues 0) &&& c.triggerMasks 0 == 0

/-- `none` while no sample has matched -/
def waitTrigger (c : Config) (r : Ring Sample statesLen) :
    List Sample → Option (Ring Sample statesLen × List Sample)
  | [] => none
  | s :: port =>
    let r := r.store s
    -- the `break` leaves `INDEX` on the sample that matched
    if c.matches r.get then some (r, port) else waitTrigger c r.next port

def delaySamples : Nat → Ring Sample statesLen → List Sample →
    Option (Ring Sample statesLen × List Sample)
  | 0, r, port => some (r, port)
  | _ + 1, _, [] => none
  | n + 1, r, s :: port => delaySamples n (r.store s).next port

/-- what a capture leaves: the ring, and the samples of the port it has not taken -/
structure Capture where
  ring : Ring Sample statesLen
  rest : List Sample

/-- `none` when the samples of `port` end before the capture does -/
def getSamples (c : Config) (r : Ring Sample statesLen) (port : List Sample) : Option Capture := do
  let (r, port) ← if c.state = .armed then waitTrigger c r port else some (r, port)
  let (r, port) ←
    if c.state = .armed ∨ c.state = .trigged then delaySamples c.delayCount.toNat r port
    else some (r, port)
  return ⟨r, port⟩

/-! ## the commands of `sump` -/

def lowByte (s : Sample) : Byte := s.setWidth 8
def highByte (s : Sample) : Byte := (s >>> 8).setWidth 8

/-- the formats end at their first `\x00` -/
def emit (channels : Byte) (s : Sample) : List Byte :=
  if channels = 1 then [lowByte s]
  else if channels = 2 then [highByte s]
  else if channels = 3 then [lowByte s, highByte s]
  else []

def readOut (channels : Byte) : Nat → Ring Sample statesLen → List Byte × Ring Sample statesLen
  | 0, r => ([], r)
  | n + 1, r =>
    let r := r.prev
    let (sent, r') := readOut channels n r
    (emit channels r.get ++ sent, r')

def sumpReset : Byte := 0x00
def sumpRun : Byte := 0x01
def sumpId : Byte := 0x02
def sumpDesc : Byte := 0x04
def sumpXon : Byte := 0x11
def sumpXoff : Byte := 0x13
def sumpDiv : Byte := 0x80
def sumpCnt : Byte := 0x81
def sumpFlags : Byte := 0x82
def sumpTrig : List Byte := [0xc0, 0xc4, 0xc8, 0xcc]
def sumpTrigVals : List Byte := [0xc1, 0xc5, 0xc9, 0xcd]

/-- `sump_parameters` -/
abbrev Parameters := Fin 4 → Byte

def word (high low : BitVec 32) : BitVec 32 := high <<< 8 ||| low

def Parameters.word32 (p : Parameters) : BitVec 32 :=
  word (word (word ((p 3).setWidth 32) ((p 2).setWidth 32)) ((p 1).setWidth 32))
    ((p 0).setWidth 32)

def Parameters.delayCount (p : Parameters) : BitVec 32 :=
  word ((p 3).setWidth 32) ((p 2).setWidth 32) <<< 2

def Parameters.readCount (p : Parameters) : BitVec 32 :=
  (word ((p 1).setWidth 32) ((p 0).setWidth 32) + 1) <<< 2

def Parameters.divider (p : Parameters) : BitVec 32 :=
  word (word ((p 2).setWidth 32) ((p 1).setWidth 32)) ((p 0).setWidth 32) / 50 + 1

def Parameters.channels (p : Parameters) : Byte := (~~~(p 0) >>> 2) &&& 0x0f

/-! ### the parameters as numbers -/

def Parameters.low16 (p : Parameters) : Nat := (p 0).toNat + 2 ^ 8 * (p 1).toNat
def Parameters.high16 (p : Parameters) : Nat := (p 2).toNat + 2 ^ 8 * (p 3).toNat
def Parameters.low24 (p : Parameters) : Nat := p.low16 + 2 ^ 16 * (p 2).toNat

/-- `(sump_command & 0x0c) >> 2` -/
def trigIndex (command : Byte) : Fin 4 := Fin.ofNat 4 ((command &&& 0x0c) >>> 2).toNat

/-- the commands that take four bytes -/
def Config.set (c : Config) (command : Byte) (p : Parameters) : Config :=
  if command ∈ sumpTrig then
    { c with triggerMasks := Function.update c.triggerMasks (trigIndex command) p.word32 }
  else if command ∈ sumpTrigVals then
    { c with triggerValues := Function.update c.triggerValues (trigIndex command) p.word32 }
  else if command = sumpCnt then
    { c with delayCount := p.delayCount, readCount := p.readCount }
  else if command = sumpDiv then { c with divider := p.divider }
  else if command = sumpFlags then { c with channels := p.channels }
  else c

/-- what `SUMP_DESC` sends: name, sample memory, sample rate, probes, protocol version -/
def description : List Byte :=
  [0x01, 0x48, 0x79, 0x64, 0x72, 0x61, 0x42, 0x75, 0x73, 0x00, 0x21, 0x00, 0x00, 0x20, 0x00,
    0x23, 0x00, 0x1E, 0x84, 0x80, 0x40, 0x10, 0x41, 0x02, 0x00]

/-- a command byte, its parameters if four bytes come, and the port while it is handled -/
structure Input where
  command : Byte
  parameters : Option Parameters
  port : List Sample

def Config.armed (c : Config) : Config := { c with state := .armed }

/-- `INDEX = 0` -/
def Analyser.rewound (a : Analyser) : Ring Sample statesLen := ⟨a.ring.slot, 0, statesLen_pos⟩

def Analyser.capture (a : Analyser) (port : List Sample) : Option Capture :=
  getSamples a.config.armed a.rewound port

def Analyser.run (a : Analyser) (port : List Sample) : Option (Analyser × List Byte) := do
  let cap ← a.capture port
  let (sent, ring) := readOut a.config.channels a.config.readCount.toNat cap.ring
  return (⟨{ a.config with state := .idle, readCount := 0 }, ring⟩, sent)

/-- `none` when a run does not end on the samples of the port -/
def handle (a : Analyser) (i : Input) : Option (Analyser × List Byte) :=
  if i.command = sumpReset then some (a, [])
  else if i.command = sumpId then some (a, [0x31, 0x41, 0x4C, 0x53])
  else if i.command = sumpRun then a.run i.port
  else if i.command = sumpDesc then some (a, description)
  else if i.command = sumpXon ∨ i.command = sumpXoff then some (a, [])
  else
    match i.parameters with
    | some p => some ({ a with config := a.config.set i.command p }, [])
    | none => some (a, [])

end Sump
end Hydra
