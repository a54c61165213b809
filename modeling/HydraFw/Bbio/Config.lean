import HydraFw.Lib.Rams
import HydraFw.Lib.Runs

/-!
# The configuration of the BBIO card emulator

`init` and the subcommands of `bbio_mode_hydranfc_v2_card_emulator`
(`hydranfc_v2_bbio_card_emulator.c`) that set the emulated card.

* `Config`       `configA`, `atsParam` and `histChar`;
* `Sub`          a subcommand with the bytes the host sends;
* `Emulator`     the configuration and the buffer that the bytes are read into;
* `Host`         what the host has last set, by its own account;
* `Configured`   the configuration is what the host has set;
* `ConfigLaw`    what a subcommand owes, `ConfigCond` when it keeps it.
-/

namespace Hydra
namespace Bbio
open Rams Runs

/-! ## the subcommands -/

structure Config where
  nfcidLen : Nat
  nfcid : Nat → UInt8
  sensRes : List UInt8
  selRes : UInt8
  fsci : UInt8
  fwi : UInt8
  sfgi : UInt8
  ta : UInt8
  histChar : Nat → UInt8
  hbLen : Nat

/-- `init`; what it does not set stays -/
def Config.init (c : Config) : Config where
  nfcidLen := 4
  nfcid := overwrite c.nfcid 0 [0xAA, 0xBB, 0xCC, 0xDD]
  sensRes := [0x04, 0x00]
  selRes := 0x20
  fsci := 0x08
  fwi := 0x0A
  sfgi := 0x00
  ta := 0x00
  histChar := overwrite c.histChar 0 [0x73, 0x74]
  hbLen := 0x02

/-- `clen` is the length of the payload, a byte -/
structure Payload where
  bytes : List UInt8
  length_lt : bytes.length < 256

inductive Sub where
  | setUid (p : Payload)
  | setSak (p : Payload)
  | setAtsHistBytes (p : Payload)
  /-- an emulation, and what it leaves in the buffer, which all consoles share -/
  | start (rawMode : Bool) (buffer : Nat → UInt8)

structure Emulator where
  config : Config
  /-- `rx_data` -/
  rxData : Nat → UInt8

/-- the bytes are read, the configuration is set, and the answer is left in the first byte -/
def Emulator.answer (e : Emulator) (c : Config) (a : UInt8) : Emulator :=
  ⟨c, overwrite e.rxData 0 [a]⟩

def Emulator.read (e : Emulator) (p : Payload) : Emulator :=
  { e with rxData := overwrite e.rxData 0 p.bytes }

def Emulator.setUid (e : Emulator) (p : Payload) : Emulator × UInt8 :=
  let e := e.read p
  let clen := p.bytes.length
  if clen = 4 ∨ clen = 7 then
    (e.answer { e.config with
      nfcidLen := clen, nfcid := overwrite e.config.nfcid 0 (slice e.rxData 0 clen) } 0x01, 0x01)
  else (e.answer e.config 0x00, 0x00)

/-- also without a byte sent -/
def Emulator.setSak (e : Emulator) (p : Payload) : Emulator × UInt8 :=
  let e := e.read p
  (e.answer { e.config with selRes := e.rxData 0 } 1, 1)

def Emulator.setAtsHistBytes (e : Emulator) (p : Payload) : Emulator × UInt8 :=
  let e := e.read p
  let clen := p.bytes.length
  if clen ≤ 16 then
    (e.answer { e.config with
      histChar := overwrite e.config.histChar 0 (slice e.rxData 0 clen), hbLen := clen } 1, 1)
  else (e.answer e.config 0, 0)

/-- the answer is none for an emulation -/
def Emulator.handle (e : Emulator) : Sub → Emulator × Option UInt8
  | .setUid p => ((e.setUid p).1, some (e.setUid p).2)
  | .setSak p => ((e.setSak p).1, some (e.setSak p).2)
  | .setAtsHistBytes p => ((e.setAtsHistBytes p).1, some (e.setAtsHistBytes p).2)
  | .start _ buffer => ({ e with rxData := buffer }, none)

/-! ## what the host has set -/

structure Host where
  uid : List UInt8
  sak : UInt8
  hist : List UInt8

def Host.init : Host := ⟨[0xAA, 0xBB, 0xCC, 0xDD], 0x20, [0x73, 0x74]⟩

/-- the last accepted UID, the last SAK sent, the last accepted historical bytes -/
def Host.note (h : Host) : Sub → Host
  | .setUid p => if p.bytes.length = 4 ∨ p.bytes.length = 7 then { h with uid := p.bytes } else h
  | .setSak p => { h with sak := p.bytes.headD h.sak }
  | .setAtsHistBytes p => if p.bytes.length ≤ 16 then { h with hist := p.bytes } else h
  | .start _ _ => h

structure Session where
  emulator : Emulator
  host : Host

def Session.step (s : Session) (i : Sub) : Session := ⟨(s.emulator.handle i).1, s.host.note i⟩

structure Configured (c : Config) (h : Host) : Prop where
  nfcidLen : c.nfcidLen = 4 ∨ c.nfcidLen = 7
  nfcid : slice c.nfcid 0 c.nfcidLen = h.uid
  selRes : c.selRes = h.sak
  hbLen : c.hbLen ≤ 16
  hist : slice c.histChar 0 c.hbLen = h.hist

/-- the ATQA that the console emulator sends for the length -/
def atqa (nfcidLen : Nat) : UInt8 := if nfcidLen = 4 then 0x04 else 0x44

/-- the configuration follows the host, an answer of 0 leaves it, and an emulation starts with the
ATQA of its UID -/
structure ConfigLaw (s : Session) (i : Sub) : Prop where
  configured : Configured (s.step i).emulator.config (s.step i).host
  refused : (s.emulator.handle i).2 = some 0 → (s.step i).emulator.config = s.emulator.config
  started : ∀ rawMode buffer, i = .start rawMode buffer →
    s.emulator.config.sensRes.head? = some (atqa s.emulator.config.nfcidLen)

/-- a SAK is sent or the buffer holds the one before, and no emulation starts with a UID of seven -/
def ConfigCond (s : Session) : Sub → Prop
  | .setSak p => p.bytes = [] → s.emulator.rxData 0 = s.emulator.config.selRes
  | .start _ _ => s.emulator.config.nfcidLen = 4
  | _ => True

/-! ## what is read -/

theorem read_slice (e : Emulator) (p : Payload) :
    slice (e.read p).rxData 0 p.bytes.length = p.bytes :=
  slice_overwrite e.rxData 0 p.bytes

/-- the first byte read, or the one that was there -/
theorem read_head (e : Emulator) (p : Payload) :
    (e.read p).rxData 0 = p.bytes.headD (e.rxData 0) := by
  show overwrite e.rxData 0 p.bytes 0 = _
  cases h : p.bytes with
  | nil => rw [overwrite_nil]; rfl
  | cons b bs => exact overwrite_in e.rxData 0 (b :: bs) 0 (Nat.succ_pos _)

/-! ## one subcommand -/

section
variable (e : Emulator) (p : Payload)

theorem setUid_config : (e.setUid p).1.config
    = if p.bytes.length = 4 ∨ p.bytes.length = 7 then
        { e.config with
          nfcidLen := p.bytes.length, nfcid := overwrite e.config.nfcid 0 p.bytes }
      else e.config := by
  unfold Emulator.setUid
  dsimp only
  rw [read_slice]
  split_ifs <;> rfl

theorem setUid_refused (h : (e.setUid p).2 = 0) : (e.setUid p).1.config = e.config := by
  rw [setUid_config]
  unfold Emulator.setUid at h
  dsimp only at h
  split_ifs at h ⊢
  · exact absurd (show (1 : UInt8) = 0 from h) (by decide)
  · rfl

theorem setSak_config : (e.setSak p).1.config
    = { e.config with selRes := p.bytes.headD (e.rxData 0) } := by
  unfold Emulator.setSak
  dsimp only
  rw [read_head]
  rfl

theorem setAtsHistBytes_config : (e.setAtsHistBytes p).1.config
    = if p.bytes.length ≤ 16 then
        { e.config with
          histChar := overwrite e.config.histChar 0 p.bytes, hbLen := p.bytes.length }
      else e.config := by
  unfold Emulator.setAtsHistBytes
  dsimp only
  rw [read_slice]
  split_ifs <;> rfl

theorem setAtsHistBytes_refused (h : (e.setAtsHistBytes p).2 = 0) :
    (e.setAtsHistBytes p).1.config = e.config := by
  rw [setAtsHistBytes_config]
  unfold Emulator.setAtsHistBytes at h
  dsimp only at h
  split_ifs at h ⊢
  · exact absurd (show (1 : UInt8) = 0 from h) (by decide)
  · rfl

/-- no subcommand sets the ATQA -/
theorem handle_sensRes (i : Sub) : (e.handle i).1.config.sensRes = e.config.sensRes := by
  cases i with
  | setUid p =>
    show (e.setUid p).1.config.sensRes = _
    rw [setUid_config]
    split_ifs <;> rfl
  | setSak p =>
    show (e.setSak p).1.config.sensRes = _
    rw [setSak_config]
  | setAtsHistBytes p =>
    show (e.setAtsHistBytes p).1.config.sensRes = _
    rw [setAtsHistBytes_config]
    split_ifs <;> rfl
  | start rawMode buffer => rfl

end

/-! ## the law -/

structure Kept (s : Session) : Prop where
  configured : Configured s.emulator.config s.host
  sensRes : s.emulator.config.sensRes = [0x04, 0x00]

theorem setUid_lawful {s : Session} (hk : Kept s) (p : Payload) : ConfigLaw s (.setUid p) where
  configured := by
    show Configured (s.emulator.setUid p).1.config
      (if p.bytes.length = 4 ∨ p.bytes.length = 7 then { s.host with uid := p.bytes } else s.host)
    rw [setUid_config]
    split_ifs with h
    · exact { hk.configured with
        nfcidLen := h
        nfcid := slice_overwrite _ 0 _ }
    · exact hk.configured
  refused h := setUid_refused _ p (Option.some.inj h)
  started _ _ h := Sub.noConfusion h

theorem setAtsHistBytes_lawful {s : Session} (hk : Kept s) (p : Payload) :
    ConfigLaw s (.setAtsHistBytes p) where
  configured := by
    show Configured (s.emulator.setAtsHistBytes p).1.config
      (if p.bytes.length ≤ 16 then { s.host with hist := p.bytes } else s.host)
    rw [setAtsHistBytes_config]
    split_ifs with h
    · exact { hk.configured with
        hbLen := h
        hist := slice_overwrite _ 0 _ }
    · exact hk.configured
  refused h := setAtsHistBytes_refused _ p (Option.some.inj h)
  started _ _ h := Sub.noConfusion h

/-- without a byte sent the SAK is what the buffer held -/
theorem setSak_lawful_iff {s : Session} (hk : Kept s) (p : Payload) :
    ConfigLaw s (.setSak p) ↔ ConfigCond s (.setSak p) := by
  have hconfig := setSak_config s.emulator p
  have hsak := hk.configured.selRes
  constructor
  · intro h hempty
    have hsel := h.configured.selRes
    change (s.emulator.setSak p).1.config.selRes = p.bytes.headD s.host.sak at hsel
    rw [hconfig, hempty] at hsel
    exact hsel.trans hsak.symm
  · intro h
    refine ⟨?_, fun hr => ?_, fun _ _ hs => Sub.noConfusion hs⟩
    case refine_2 => exact absurd (show (1 : UInt8) = 0 from Option.some.inj hr) (by decide)
    show Configured (s.emulator.setSak p).1.config { s.host with sak := p.bytes.headD s.host.sak }
    rw [hconfig]
    have hsel : p.bytes.headD (s.emulator.rxData 0) = p.bytes.headD s.host.sak := by
      cases hb : p.bytes with
      | nil => exact (h hb).trans hsak
      | cons b bs => rfl
    exact { hk.configured with selRes := hsel }

theorem start_lawful_iff {s : Session} (hk : Kept s) (rawMode : Bool) (buffer : Nat → UInt8) :
    ConfigLaw s (.start rawMode buffer) ↔ ConfigCond s (.start rawMode buffer) := by
  constructor
  · intro h
    have hs := h.started rawMode buffer rfl
    rw [hk.sensRes] at hs
    show s.emulator.config.nfcidLen = 4
    by_contra h7
    unfold atqa at hs
    rw [if_neg h7] at hs
    exact absurd hs (by decide)
  · intro h
    have h4 : s.emulator.config.nfcidLen = 4 := h
    refine ⟨hk.configured, fun _ => rfl, fun _ _ _ => ?_⟩
    rw [hk.sensRes, h4]
    rfl

theorem configLaw_iff {s : Session} (hk : Kept s) (i : Sub) : ConfigLaw s i ↔ ConfigCond s i := by
  cases i with
  | setUid p => exact iff_of_true (setUid_lawful hk p) trivial
  | setSak p => exact setSak_lawful_iff hk p
  | setAtsHistBytes p => exact iff_of_true (setAtsHistBytes_lawful hk p) trivial
  | start rawMode buffer => exact start_lawful_iff hk rawMode buffer

theorem kept_step {s : Session} (hk : Kept s) {i : Sub} (h : ConfigLaw s i) : Kept (s.step i) where
  configured := h.configured
  sensRes := (handle_sensRes s.emulator i).trans hk.sensRes

/-- the session behind `init`, from any configuration and any buffer -/
def Session.init (c : Config) (rxData : Nat → UInt8) : Session := ⟨⟨c.init, rxData⟩, Host.init⟩

theorem init_kept (c : Config) (rxData : Nat → UInt8) : Kept (Session.init c rxData) where
  configured :=
    { nfcidLen := Or.inl rfl
      nfcid := slice_overwrite c.nfcid 0 [0xAA, 0xBB, 0xCC, 0xDD]
      selRes := rfl
      hbLen := (by decide : 2 ≤ 16)
      hist := slice_overwrite c.histChar 0 [0x73, 0x74] }
  sensRes := rfl

/-- **The configuration of the card.**  A session keeps its law exactly when every SAK is sent (or
equals the one before) and every emulation starts with a UID of four bytes. -/
theorem stepsOk_config_iff (c : Config) (rxData : Nat → UInt8) (is : List Sub) :
    StepsOk ConfigLaw Session.step (Session.init c rxData) is
      ↔ StepsOk ConfigCond Session.step (Session.init c rxData) is := by
  constructor
  · exact StepsOk.mono (I := Kept) (fun s i hk h => kept_step hk h)
      (fun s i hk h => (configLaw_iff hk i).mp h) (init_kept c rxData)
  · exact StepsOk.mono (I := Kept) (fun s i hk h => kept_step hk ((configLaw_iff hk i).mpr h))
      (fun s i hk h => (configLaw_iff hk i).mpr h) (init_kept c rxData)

/-- a UID of seven bytes, and an emulation that starts with the ATQA of four -/
theorem seven_with_atqa_of_four :
    ¬ StepsOk ConfigLaw Session.step
      (Session.init ⟨0, fun _ => 0, [], 0, 0, 0, 0, 0, fun _ => 0, 0⟩ fun _ => 0)
      [.setUid ⟨[0x04, 0x11, 0x22, 0x33, 0x44, 0x55, 0x66], by decide⟩,
        .start false fun _ => 0] := by
  rintro ⟨-, ⟨-, -, hs⟩, -⟩
  exact absurd (hs false (fun _ => 0) rfl) (by decide)

end Bbio
end Hydra
