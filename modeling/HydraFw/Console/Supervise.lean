import HydraFw.Lib.Runs
import HydraFw.Lib.Lines
import HydraFw.Lib.Scanf

/-!
# Starting the consoles

`console_read_sd_config` (`console_cfg.c`), and what `main` (`main.c`) does with it.

* `Config.process`   what an entry of the file `console` changes;
* `readConfig`       the configuration after the pieces of the file that do not begin with a `#`;
* `usbSetting`, `usartSetting`   by the last entry of some lines;
* `check`            what the loop of `main` does with a USB console;
* `Law`              each console goes by its own last entry outside comments;
* `law_iff`          it does when the entries that are looked at in its place say the same.
-/

namespace Hydra
namespace Supervise
open Lines Runs
open Scanf hiding Byte

inductive Usb where
  | usb1 | usb2
  deriving DecidableEq

def Usb.number : Usb → Int
  | .usb1 => 1
  | .usb2 => 2

/-! ## the file `console` -/

/-- `LINEBUF_SZE` -/
def linebufSize : Nat := 256

/-- `"USB%d=%d"` -/
def usbFormat : List Directive :=
  [.char 0x55, .char 0x53, .char 0x42, .int .decimal none, .char 0x3d, .int .decimal none]

/-- `"USART=%d;%d;%ld"` -/
def usartFormat : List Directive :=
  [.char 0x55, .char 0x53, .char 0x41, .char 0x52, .char 0x54, .char 0x3d, .int .decimal none,
    .char 0x3b, .int .decimal none, .char 0x3b, .int .decimal none]

structure Config where
  usartNo : Int
  speed : BitVec 32
  usb : Usb → Bool

/-- as `main` sets the variables before -/
def Config.initial : Config := ⟨0, 0, fun _ => true⟩

/-- `usb_no` and `usb_status`, when `sscanf` returns 2 -/
def usbEntry (linebuf : List Byte) : Option (Int × Int) :=
  match (sscanf usbFormat linebuf).values with
  | [no, status] => some (no, status)
  | _ => none

structure Usart where
  no : Int
  speed : BitVec 32
  deriving DecidableEq

/-- `usart_status`, `usart_number` and `usart_speed`, when `sscanf` returns 3 -/
def usartEntry (linebuf : List Byte) : Option Usart :=
  match (sscanf usartFormat linebuf).values with
  | [status, number, speed] => some ⟨if status = 1 then number else 0, BitVec.ofInt 32 speed⟩
  | _ => none

/-- the entry of one console -/
def entryOf (i : Usb) (linebuf : List Byte) : Option Bool :=
  match usbEntry linebuf with
  | some (no, status) => if no = i.number then some (status = 1) else none
  | none => none

def Config.setUsb (c : Config) (linebuf : List Byte) : Config :=
  match usbEntry linebuf with
  | some (no, status) =>
    if no = 1 then { c with usb := Function.update c.usb .usb1 (status = 1) }
    else if no = 2 then { c with usb := Function.update c.usb .usb2 (status = 1) }
    else c
  | none => c

def Config.setUsart (c : Config) (linebuf : List Byte) : Config :=
  match usartEntry linebuf with
  | some u => { c with usartNo := u.no, speed := u.speed }
  | none => c

/-- the loop over the pieces, behind its test for comments -/
def Config.process (c : Config) (linebuf : List Byte) : Config :=
  (c.setUsb linebuf).setUsart linebuf

def Config.turn (c : Config) (linebuf : List Byte) : Config :=
  if isComment linebuf then c else c.process linebuf

def readConfig (g : Gets) (text : List Byte) : Config :=
  (g.pieces linebufSize text).foldl Config.turn .initial

/-- the pieces whose entries count -/
def looked (g : Gets) (text : List Byte) : List (List Byte) :=
  (g.pieces linebufSize text).filter fun p => !isComment p

/-! ## by the last entry -/

def last {α : Type} (entry : List Byte → Option α) (ls : List (List Byte)) : Option α :=
  (ls.filterMap entry).getLast?

/-- on, unless the last entry is not 1 -/
def usbSetting (i : Usb) (ls : List (List Byte)) : Bool := (last (entryOf i) ls).getD true

def usartSetting (ls : List (List Byte)) : Usart := (last usartEntry ls).getD ⟨0, 0⟩

theorem last_concat {α : Type} (entry : List Byte → Option α) (ls : List (List Byte))
    (l : List Byte) : last entry (ls ++ [l]) = (entry l).or (last entry ls) := by
  rw [last, List.filterMap_append]
  cases h : entry l with
  | none => simp [h, last]
  | some e => simp [h]

/-- a variable that only entries change has the value of the last one -/
theorem foldl_last {α : Type} {entry : List Byte → Option α} {v : Config → α}
    (h : ∀ c l, v (Config.process c l) = (entry l).getD (v c)) (c : Config)
    (ls : List (List Byte)) : v (ls.foldl Config.process c) = (last entry ls).getD (v c) := by
  induction ls using List.reverseRecOn with
  | nil => rfl
  | append_singleton ls l ih =>
    rw [List.foldl_concat, h, last_concat, ih]
    cases entry l with
    | none => rfl
    | some e => rfl

theorem foldl_turn (c : Config) (ps : List (List Byte)) :
    ps.foldl Config.turn c = (ps.filter fun p => !isComment p).foldl Config.process c := by
  induction ps generalizing c with
  | nil => rfl
  | cons p ps ih =>
    rw [List.foldl_cons, ih, List.filter_cons, Config.turn]
    cases isComment p with
    | false => rfl
    | true => rfl

theorem setUsart_usb (c : Config) (l : List Byte) : (c.setUsart l).usb = c.usb := by
  rw [Config.setUsart]
  cases usartEntry l with
  | none => rfl
  | some u => rfl

theorem process_usb (i : Usb) (c : Config) (l : List Byte) :
    (c.process l).usb i = (entryOf i l).getD (c.usb i) := by
  rw [Config.process, setUsart_usb, Config.setUsb, entryOf]
  cases usbEntry l with
  | none => rfl
  | some e =>
    obtain ⟨no, status⟩ := e
    by_cases h1 : no = 1
    · subst h1
      cases i with
      | usb1 => rfl
      | usb2 => rfl
    · by_cases h2 : no = 2
      · subst h2
        cases i with
        | usb1 => rfl
        | usb2 => rfl
      · cases i with
        | usb1 => simp only [h1, h2, Usb.number, if_false, Option.getD_none]
        | usb2 => simp only [h1, h2, Usb.number, if_false, Option.getD_none]

def Config.usart (c : Config) : Usart := ⟨c.usartNo, c.speed⟩

theorem process_usart (c : Config) (l : List Byte) :
    (c.process l).usart = (usartEntry l).getD c.usart := by
  have hset : (c.setUsb l).usart = c.usart := by
    rw [Config.setUsb]
    cases usbEntry l with
    | none => rfl
    | some e =>
      obtain ⟨no, status⟩ := e
      by_cases h1 : no = 1
      · simp only [if_pos h1]
        rfl
      · by_cases h2 : no = 2
        · simp only [if_neg h1, if_pos h2]
          rfl
        · simp only [if_neg h1, if_neg h2]
  rw [Config.process, Config.setUsart, ← hset]
  cases usartEntry l with
  | none => rfl
  | some u => rfl

theorem readConfig_usb (g : Gets) (text : List Byte) (i : Usb) :
    (readConfig g text).usb i = usbSetting i (looked g text) := by
  rw [readConfig, foldl_turn]
  exact foldl_last (v := fun c => c.usb i) (process_usb i) .initial _

theorem readConfig_usart (g : Gets) (text : List Byte) :
    (readConfig g text).usart = usartSetting (looked g text) := by
  rw [readConfig, foldl_turn]
  exact foldl_last process_usart .initial _

/-! ## the loop of `main` -/

/-- the USART console that is started before the loop -/
def usartConsole (u : Usart) : Option Usart := if u.no = 1 ∨ u.no = 2 then some u else none

/-- what `console_read_sd_config` leaves, when it can read a file -/
def configuration (g : Gets) : Option (List Byte) → Config
  | some text => readConfig g text
  | none => .initial

structure Console where
  /-- `thread` is not `NULL` -/
  thread : Bool
  /-- the console has been started and has not terminated -/
  running : Bool

/-- what a turn of the loop meets at a console -/
structure Look where
  /-- the thread has terminated since the last turn -/
  terminated : Bool
  /-- the state of the port is `USB_ACTIVE` -/
  active : Bool
  /-- `chThdCreateFromHeap` finds room for the thread -/
  created : Bool

def Console.stillRunning (x : Console) (l : Look) : Bool := x.running && !l.terminated

/-- `chThdCreateFromHeap` is called -/
def starts (enabled : Bool) (x : Console) (l : Look) : Bool := !x.thread && l.active && enabled

def check (enabled : Bool) (x : Console) (l : Look) : Console :=
  if starts enabled x l then ⟨l.created, l.created || x.stillRunning l⟩
  else ⟨x.thread && x.stillRunning l, x.stillRunning l⟩

section
variable (g : Gets) (file : Option (List Byte))

/-- `consoles[0].is_enabled`, which is looked at for both -/
def isEnabled : Bool := (configuration g file).usb .usb1

/-- a turn of the loop -/
def step (s : Usb → Console) (looks : Usb → Look) : Usb → Console :=
  fun i => check (isEnabled g file) (s i) (looks i)

def start : Usb → Console := fun _ => ⟨false, false⟩

/-! ## the law and its condition -/

/-- by the lines outside comments -/
def wanted (i : Usb) : Bool := usbSetting i ((file.map uncommented).getD [])

/-- the file without its comments -/
def withoutComments : Option (List Byte) := file.map fun text => (uncommented text).flatten

/-- a console that runs is not started again, one that is started has its port active, and one
without a thread whose port is active is started when its last entry is 1 or there is none -/
def Law (s : Usb → Console) (looks : Usb → Look) : Prop :=
  ∀ i, (starts (isEnabled g file) (s i) (looks i) = true →
      (looks i).active = true ∧ (s i).stillRunning (looks i) = false) ∧
    ((s i).thread = false → (looks i).active = true →
      starts (isEnabled g file) (s i) (looks i) = wanted file i)

/-- comments have no effect on the USART console -/
def UsartLaw : Prop :=
  usartConsole (configuration g file).usart =
    usartConsole (configuration g (withoutComments file)).usart

/-- by the pieces that do not begin with a `#` -/
def foundUsb : Bool := usbSetting .usb1 ((file.map (looked g)).getD [])

def foundUsart : Option Usart := usartConsole (usartSetting ((file.map (looked g)).getD []))

def Cond (s : Usb → Console) (looks : Usb → Look) : Prop :=
  ∀ i, (s i).thread = false → (looks i).active = true → foundUsb g file = wanted file i

variable {g file}

theorem isEnabled_eq : isEnabled g file = foundUsb g file := by
  cases file with
  | none => rfl
  | some text => exact readConfig_usb g text .usb1

theorem usart_eq : usartConsole (configuration g file).usart = foundUsart g file := by
  cases file with
  | none => rfl
  | some text => exact congrArg usartConsole (readConfig_usart g text)

/-- a console that runs has its thread -/
def Inv (s : Usb → Console) : Prop := ∀ i, (s i).running = true → (s i).thread = true

theorem Inv.step {s : Usb → Console} (h : Inv s) (looks : Usb → Look) :
    Inv (step g file s looks) := by
  intro i hrun
  change (check (isEnabled g file) (s i) (looks i)).running = true at hrun
  show (check (isEnabled g file) (s i) (looks i)).thread = true
  have hthread : (s i).stillRunning (looks i) = true → (s i).thread = true := by
    intro hstill
    rw [Console.stillRunning, Bool.and_eq_true] at hstill
    exact h i hstill.1
  cases hs : starts (isEnabled g file) (s i) (looks i) with
  | true =>
    rw [check, hs, if_pos rfl] at hrun
    rw [check, hs, if_pos rfl]
    rw [starts, Bool.and_eq_true, Bool.and_eq_true, Bool.not_eq_true'] at hs
    rcases Bool.or_eq_true _ _ |>.mp hrun with hcreated | hstill
    · exact hcreated
    · rw [hthread hstill] at hs
      exact Bool.noConfusion hs.1.1
  | false =>
    rw [check, hs, if_neg Bool.false_ne_true] at hrun
    rw [check, hs, if_neg Bool.false_ne_true]
    change (s i).stillRunning (looks i) = true at hrun
    show ((s i).thread && (s i).stillRunning (looks i)) = true
    rw [hrun, hthread hrun]
    rfl

theorem law_iff_step {s : Usb → Console} (h : Inv s) (looks : Usb → Look) :
    Law g file s looks ↔ Cond g file s looks := by
  have hstarts : ∀ i, (s i).thread = false → (looks i).active = true →
      starts (isEnabled g file) (s i) (looks i) = foundUsb g file := by
    intro i hthread hactive
    rw [starts, hthread, hactive, isEnabled_eq]
    rfl
  constructor
  · intro hlaw i hthread hactive
    rw [← hstarts i hthread hactive]
    exact (hlaw i).2 hthread hactive
  · intro hcond i
    refine ⟨fun hs => ?_, fun hthread hactive => ?_⟩
    · rw [starts, Bool.and_eq_true, Bool.and_eq_true, Bool.not_eq_true'] at hs
      refine ⟨hs.1.2, ?_⟩
      cases hrun : (s i).running with
      | false => rw [Console.stillRunning, hrun, Bool.false_and]
      | true =>
        rw [h i hrun] at hs
        exact Bool.noConfusion hs.1.1
    · rw [hstarts i hthread hactive]
      exact hcond i hthread hactive

variable (g file)

/-- **The consoles.**  In every run they go by their own last entries outside comments exactly when
the entries that are looked at say the same wherever they count. -/
theorem law_iff (looks : List (Usb → Look)) :
    (UsartLaw g file ∧ StepsOk (Law g file) (step g file) start looks) ↔
      foundUsart g file = foundUsart g (withoutComments file) ∧
        StepsOk (Cond g file) (step g file) start looks := by
  have hinv : Inv start := fun _ h => h
  rw [UsartLaw, usart_eq, usart_eq]
  refine and_congr_right fun _ => ⟨fun h => ?_, fun h => ?_⟩
  · exact h.mono (fun _ l hs _ => hs.step l) (fun _ l hs hl => (law_iff_step hs l).mp hl) hinv
  · exact h.mono (fun _ l hs _ => hs.step l) (fun _ l hs hc => (law_iff_step hs l).mpr hc) hinv

end

/-- the file has `USB2=0`, the port of USB2 is active, and its console is started -/
theorem usb2_starts :
    ¬ ∀ g file looks, UsartLaw g file ∧ StepsOk (Law g file) (step g file) start looks := by
  intro h
  have hlaw := (h .wholeLines (some [0x55, 0x53, 0x42, 0x32, 0x3d, 0x30, 0x0a])
    [fun _ => ⟨false, true, true⟩]).2
  have hstarts := (hlaw.1 .usb2).2 rfl rfl
  revert hstarts
  decide +kernel

end Supervise
end Hydra
