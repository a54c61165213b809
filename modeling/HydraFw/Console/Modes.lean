import HydraFw.Lib.Rams
import HydraFw.Lib.Runs
import HydraFw.Sump.Analyser

/-!
# The settings of the two USB consoles

Each console has a `mode_config_proto_t`, whose `config` is a union of the settings of all
protocols (`mode_config.h`).  The model has its bytes, and the commands of this build that store
to them: the modes `nfc` and `dnfc`, the binary sessions of BBIO, the logic analyser.

* `Protocol`            what a console is used for, with the extent of its settings in the union;
* `Command`             a command on one console, `Event` also the K1 button;
* `Command.stores`      what it stores to the union of its own console;
* `initGpioSpiNfc`      the stores of `init_gpio_spi_nfc`, to the union of the first console;
* `step`                the system.
-/

namespace Hydra
namespace Modes
open Rams Runs

/-! ## the union -/

inductive Console where
  | usb1
  | usb2
  deriving DecidableEq

/-- `nfc_technology_t` -/
inductive Technology where
  | all
  | a
  | b
  | st25tb
  | v
  | f
  deriving DecidableEq

def Technology.code : Technology → UInt8
  | .all => 0
  | .a => 1
  | .b => 2
  | .st25tb => 3
  | .v => 4
  | .f => 5

inductive Protocol where
  | top
  | nfc
  | dnfc
  | spi
  | sump
  | reader
  | cardEmulator
  deriving DecidableEq

/-- the bytes of `config`; an enumeration takes one byte -/
abbrev Union := Nat → UInt8

/-- the bytes of the protocol's own settings: `hydranfc_config_t`, `spi_config_t` (which `dnfc`
shows and sets as well), `sump_config_t` -/
def Protocol.extent : Protocol → Nat
  | .nfc => 1
  | .dnfc => 12
  | .spi => 12
  | .sump => 46
  | .top => 0
  | .reader => 0
  | .cardEmulator => 0

def nfcTechnology : Nat := 0

def devGpioPull : Nat := 0
def devSpeed : Nat := 4
def devMode : Nat := 8
def devPolarity : Nat := 9
def devPhase : Nat := 10
def devBitLsbMsb : Nat := 11

abbrev Store := Nat × List UInt8

/-! ## `sump_config_t` -/

def sumpState : Nat := 44

def stateCode : Sump.State → UInt8
  | .idle => 0
  | .armed => 1
  | .running => 2
  | .trigged => 3

def stateOf (b : UInt8) : Sump.State :=
  if b = 1 then .armed else if b = 2 then .running else if b = 3 then .trigged else .idle

def Union.sump (u : Union) : Sump.Config where
  triggerMasks i := word u (4 * i)
  triggerValues i := word u (16 + 4 * i)
  readCount := word u 32
  delayCount := word u 36
  divider := word u 40
  state := stateOf (u sumpState)
  channels := (u 45).toBitVec

def sumpStores (c : Sump.Config) : List Store :=
  ((List.finRange 4).map fun i => (4 * i.val, le32 (c.triggerMasks i))) ++
  ((List.finRange 4).map fun i => (16 + 4 * i.val, le32 (c.triggerValues i))) ++
  [(32, le32 c.readCount), (36, le32 c.delayCount), (40, le32 c.divider),
    (sumpState, [stateCode c.state]), (45, [⟨c.channels⟩])]

/-! ## the system -/

/-- what the settings of a console are used for, and the binary session on it -/
structure System where
  config : Console → Union
  mode : Console → Protocol
  session : Console → Option Protocol
  /-- `buffer` and `INDEX` of the logic analyser -/
  ring : Ring Sump.Sample Sump.statesLen
  /-- `hydranfc_shield_v2_detected` -/
  detected : Bool

def System.current (s : System) (c : Console) : Protocol := (s.session c).getD (s.mode c)

inductive Command where
  /-- `found`: RFAL finds the shield -/
  | nfc (found : Bool)
  | dnfc (found : Bool)
  | exit
  | technology (t : Technology)
  | scan
  | frequency (speed : Fin 8)
  | bbioSpi
  | spiSpeed (subcommand : UInt8)
  | spiConfig (subcommand : UInt8)
  | spiSniff
  | spiSniffEnd
  | reader
  | cardEmulator (found : Bool)
  | sump
  | sumpInput (i : Sump.Input)
  /-- the end of a binary session -/
  | leave

inductive Event where
  | command (c : Console) (cmd : Command)
  | k1Button

/-! ## what a command stores -/

/-- the protocol whose settings a command is about -/
def Command.protocol (current : Protocol) : Command → Protocol
  | .nfc _ => .nfc
  | .dnfc _ => .dnfc
  | .bbioSpi => .spi
  | .reader => .reader
  | .cardEmulator _ => .cardEmulator
  | .sump => .sump
  | _ => current

/-- outside a session a command line is read by the mode, inside it raw bytes by the session -/
def System.accepts (s : System) (c : Console) : Command → Bool
  | .nfc _ | .dnfc _ => s.session c = none ∧ s.mode c = .top
  | .technology _ | .scan => s.session c = none ∧ s.mode c = .nfc
  | .frequency _ => s.session c = none ∧ s.mode c = .dnfc
  | .exit => s.session c = none ∧ (s.mode c = .nfc ∨ s.mode c = .dnfc)
  | .bbioSpi | .reader | .cardEmulator _ | .sump => s.session c = none
  | .spiSpeed _ | .spiConfig _ | .spiSniff | .spiSniffEnd => s.session c = some .spi
  | .sumpInput _ => s.session c = some .sump
  | .leave => s.session c ≠ none

/-- the analyser as a command of `sump` leaves it; a run that does not end leaves it armed -/
def System.analyser (s : System) (c : Console) (i : Sump.Input) : Sump.Analyser :=
  let a : Sump.Analyser := ⟨(s.config c).sump, s.ring⟩
  match Sump.handle a i with
  | some (a', _) => a'
  | none => { a with config := a.config.armed }

/-- `bbio_spi_init_proto_default` -/
def bbioSpiInitProtoDefault : List Store :=
  [(devGpioPull, [0]), (devMode, [1]), (devSpeed, le32 0), (devPolarity, [0]), (devPhase, [0]),
    (devBitLsbMsb, [1])]

def Command.stores (s : System) (c : Console) : Command → List Store
  | .nfc _ => [(nfcTechnology, [Technology.all.code])]
  | .technology t => [(nfcTechnology, [t.code])]
  | .frequency speed => [(devSpeed, le32 (BitVec.ofNat 32 speed.val))]
  | .bbioSpi => bbioSpiInitProtoDefault
  | .spiSpeed b => [(devSpeed, le32 ((b &&& 0b111).toBitVec.setWidth 32))]
  | .spiConfig b =>
    [(devPolarity, [if b &&& 0b100 ≠ 0 then 1 else 0]), (devPhase, [if b &&& 0b10 ≠ 0 then 0 else 1])]
  | .spiSniff => [(devMode, [2])]
  | .spiSniffEnd => [(devMode, [1])]
  | .sump => [(sumpState, [stateCode .idle])]
  | .sumpInput i => sumpStores (s.analyser c i).config
  | _ => []

/-- the commands that run `hydranfc_v2_init` -/
def Command.initsShield : Command → Bool
  | .nfc _ | .dnfc _ | .reader | .cardEmulator _ => true
  | _ => false

/-- the stores of `init_gpio_spi_nfc` to `mode_con1.proto.config.spi` -/
def spiNfcStores : List Store :=
  [(devGpioPull, [0]), (devSpeed, le32 6), (devPhase, [1]), (devPolarity, [0]), (devBitLsbMsb, [1]),
    (devMode, [1])]

/-! ## the step -/

def System.store (s : System) (c : Console) (stores : List Store) : System :=
  { s with config := Function.update s.config c (replay (s.config c) stores) }

/-- whichever console is at work -/
def System.initGpioSpiNfc (s : System) : System := s.store .usb1 spiNfcStores

def System.enter (s : System) (c : Console) (mode : Protocol) : System :=
  { s with mode := Function.update s.mode c mode }

def System.start (s : System) (c : Console) (session : Option Protocol) : System :=
  { s with session := Function.update s.session c session }

/-- the mode and the session behind a command -/
def System.use (s : System) (c : Console) : Command → System
  | .nfc found => if found then s.enter c .nfc else s
  | .dnfc found => if found then s.enter c .dnfc else s
  | .exit => s.enter c .top
  | .bbioSpi => s.start c (some .spi)
  | .reader => s.start c (some .reader)
  | .cardEmulator found => if found then s.start c (some .cardEmulator) else s
  | .sump => s.start c (some .sump)
  | .leave => s.start c none
  | _ => s

def System.ringOf (s : System) (c : Console) : Command → Ring Sump.Sample Sump.statesLen
  | .sumpInput i => (s.analyser c i).ring
  | _ => s.ring

def System.command (s : System) (c : Console) (cmd : Command) : System :=
  let ring := s.ringOf c cmd
  let s := s.store c (cmd.stores s c)
  let s := if cmd.initsShield then s.initGpioSpiNfc else s
  { s.use c cmd with ring := ring }

def System.step (s : System) : Event → System
  | .command c cmd => if s.accepts c cmd then s.command c cmd else s
  | .k1Button => if s.detected then s.initGpioSpiNfc else s

/-- the technology that `scan` takes -/
def System.scans (s : System) (c : Console) : UInt8 := s.config c nfcTechnology

end Modes
end Hydra
