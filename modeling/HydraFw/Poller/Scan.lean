import HydraFw.Rfal.Api
import HydraFw.Lib.Runs

/-!
# The tag scan

`RfalPollerRun`, `RfalPollerTechDetection` and `RfalPollerCollResolution` (`rfal_poller.c`).  What
a device is made of, and the ISO-DEP data of an activation, are parameters.

* `Tech`            the technologies, in the order of the collision resolutions;
* `Rfal`            what RFAL answers during a scan;
* `Scan`            `gDevCnt`, `gDevList`, `gTechsFound`, with the indices used of `gDevList` and
                    the lists that RFAL has reported;
* `resolve`         the block that four technologies share, `resolveA` the one of NFC-A;
* `Poll.step`       one round of the loop of `RfalPollerRun`.
-/

namespace Hydra
namespace Poller
open Runs

/-- `RFAL_POLLER_DEVICES` -/
def rfalPollerDevices : Nat := 4

inductive Tech where
  | nfca
  | nfcb
  | st25tb
  | nfcf
  | nfcv
  deriving DecidableEq

/-- `nfc_technology_t` of the scan; only `NFC_ALL` polls for more than one technology -/
inductive NfcTech where
  | all
  | only (t : Tech)
  deriving DecidableEq

def NfcTech.polls : NfcTech → Tech → Bool
  -- ST25TB has to be asked for
  | .all, t => t ≠ .st25tb
  | .only u, t => t = u

/-- `RfalPollerRfInterfaceDevice_t` -/
structure Entry (δ ι : Type*) where
  type : Tech
  dev : δ
  isoDep : ι

structure Rfal (δ ι : Type*) where
  /-- the technology detection ends with `ERR_NONE` -/
  detects : Tech → Bool
  /-- the collision resolution for a limit: its status, and the devices it reports -/
  resolution : Tech → Nat → ReturnCode × List δ
  /-- `nfca.type == RFAL_NFCA_T4T` -/
  isT4T : δ → Bool
  /-- what `rfalIsoDepPollAHandleActivation` stores for the `i`-th device of the NFC-A list -/
  activation : Nat → ι

section
variable {δ ι : Type*}

structure Scan (δ ι : Type*) where
  gDevCnt : Nat
  gDevList : Nat → Entry δ ι
  gTechsFound : Tech → Bool
  /-- the indices of `gDevList` that were written or read -/
  indices : List Nat
  /-- the lists reported with `ERR_NONE`, in the order of the calls -/
  reported : List (Tech × List δ)

/-! ## `RfalPollerCollResolution` -/

/-- `RFAL_POLLER_DEVICES - gDevCnt` as the `uint8_t` that RFAL takes -/
def Scan.limit (s : Scan δ ι) : Nat := (256 + rfalPollerDevices - s.gDevCnt) % 256

/-- a device is appended to `gDevList` -/
def Scan.collect (t : Tech) (s : Scan δ ι) (d : δ) : Scan δ ι :=
  { s with
    gDevList := Function.update s.gDevList s.gDevCnt
      { s.gDevList s.gDevCnt with type := t, dev := d }
    gDevCnt := (s.gDevCnt + 1) % 256
    indices := s.indices ++ [s.gDevCnt] }

/-- the ISO-DEP activation of the NFC-A loop, which goes by the local index -/
def Scan.activate (r : Rfal δ ι) (s : Scan δ ι) (i : Nat) : Scan δ ι :=
  let s := { s with indices := s.indices ++ [i] }
  if r.isT4T (s.gDevList i).dev then
    { s with
      gDevList := Function.update s.gDevList i { s.gDevList i with isoDep := r.activation i } }
  else s

/-- the loop over `nfcaDevList`, from the index `i` on -/
def Scan.collectA (r : Rfal δ ι) : Nat → Scan δ ι → List δ → Scan δ ι
  | _, s, [] => s
  | i, s, d :: ds => collectA r (i + 1) ((s.collect .nfca d).activate r i) ds

def Scan.report (s : Scan δ ι) (t : Tech) (ds : List δ) : Scan δ ι :=
  { s with reported := s.reported ++ [(t, ds)] }

def Scan.resolveA (r : Rfal δ ι) (s : Scan δ ι) : Scan δ ι :=
  if s.gTechsFound .nfca then
    match r.resolution .nfca s.limit with
    | (.errNone, ds) => Scan.collectA r 0 (s.report .nfca ds) ds
    | _ => s
  else s

/-- the block of the other technologies -/
def Scan.resolve (r : Rfal δ ι) (t : Tech) (s : Scan δ ι) : Scan δ ι :=
  if s.gTechsFound t then
    match r.resolution t s.limit with
    | (.errNone, ds) => ds.foldl (Scan.collect t) (s.report t ds)
    | _ => s
  else s

/-- the blocks behind the one of NFC-A -/
def others : List Tech := [.nfcb, .st25tb, .nfcf, .nfcv]

def Scan.rfalPollerCollResolution (r : Rfal δ ι) (s : Scan δ ι) : Scan δ ι :=
  others.foldl (fun s t => s.resolve r t) (s.resolveA r)

/-! ## `RfalPollerRun` -/

def Scan.rfalPollerTechDetection (r : Rfal δ ι) (n : NfcTech) (s : Scan δ ι) : Scan δ ι :=
  { s with gTechsFound := fun t => n.polls t && r.detects t }

/-- `gTechsFound != RFAL_POLLER_FOUND_NONE` -/
def Scan.anyFound (s : Scan δ ι) : Bool := (Tech.nfca :: others).any s.gTechsFound

/-- `gState`, and `returned` behind the loop -/
inductive Stage where
  | init
  | techDetect
  | colAvoidance
  | deactivation
  | returned
  deriving DecidableEq

structure Poll (δ ι : Type*) where
  stage : Stage
  scan : Scan δ ι

def Scan.init (s : Scan δ ι) : Scan δ ι :=
  { s with gDevCnt := 0, gTechsFound := fun _ => false, indices := [], reported := [] }

/-- the `switch` of the loop; the deactivation leaves the list as it is -/
def Poll.work (r : Rfal δ ι) (n : NfcTech) (p : Poll δ ι) : Poll δ ι :=
  match p.stage with
  | .init => ⟨.techDetect, p.scan.init⟩
  | .techDetect =>
    let s := p.scan.rfalPollerTechDetection r n
    ⟨if s.anyFound then .colAvoidance else .deactivation, s⟩
  | .colAvoidance => ⟨.deactivation, p.scan.rfalPollerCollResolution r⟩
  | .deactivation => ⟨.returned, p.scan⟩
  | .returned => p

/-- one round; `pressed` is what `manageInput` returns at its end -/
def Poll.step (r : Rfal δ ι) (n : NfcTech) (p : Poll δ ι) (pressed : Bool) : Poll δ ι :=
  let p := p.work r n
  if pressed then { p with stage := .returned } else p

def rfalPollerRun (r : Rfal δ ι) (n : NfcTech) (s : Scan δ ι) (pressed : List Bool) : Poll δ ι :=
  run (Poll.step r n) ⟨.init, s⟩ pressed

end
end Poller
end Hydra
