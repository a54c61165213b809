import HydraFw.Console.Modes

/-!
# Whose settings a command changes

The initialisation of the shield stores to the union of the first console, whoever asks for it.
A run keeps the consoles apart exactly when each of these initialisations finds its settings there
already, at the bytes that the command has no right to (`stepsOk_isolated_iff`).

* `MayChange`       the bytes a step is allowed to change;
* `Frame`           no other byte changes;
* `Watched`         the system, with the technology each console has selected;
* `Isolated`        the frame, and that a scan takes the selected technology;
* `SettingsThere`   the condition on the initialisations.
-/

namespace Hydra
namespace Modes
open Rams Runs

/-! ## stores -/

/-- the byte that the initialisation leaves at `i` -/
def spiNfcByte (i : Nat) : Option UInt8 :=
  if i = 4 then some 6
  else if i = 8 ∨ i = 10 ∨ i = 11 then some 1
  else if i = 0 ∨ 4 ≤ i ∧ i < 10 then some 0
  else none

theorem replay_spiNfc (u : Union) (i : Nat) :
    replay u spiNfcStores i = (spiNfcByte i).getD (u i) := by
  by_cases hi : i < 12
  · have hcases : i = 0 ∨ i = 1 ∨ i = 2 ∨ i = 3 ∨ i = 4 ∨ i = 5 ∨ i = 6 ∨ i = 7 ∨ i = 8 ∨ i = 9 ∨
        i = 10 ∨ i = 11 := by omega
    rcases hcases with rfl | rfl | rfl | rfl | rfl | rfl | rfl | rfl | rfl | rfl | rfl | rfl <;> rfl
  · have hnone : spiNfcByte i = none := by
      unfold spiNfcByte
      rw [if_neg (by omega), if_neg (by omega), if_neg (by omega)]
    have hends : ∀ w ∈ spiNfcStores, w.1 + w.2.length ≤ 12 := by decide
    rw [hnone, replay_out u spiNfcStores i fun w hw => Or.inr ((hends w hw).trans (by omega))]
    rfl

theorem sumpStores_inside (c : Sump.Config) : ∀ w ∈ sumpStores c, w.1 + w.2.length ≤ 46 := by
  intro w hw
  unfold sumpStores at hw
  rcases List.mem_append.mp hw with hw | hw
  · rcases List.mem_append.mp hw with hw | hw
    · obtain ⟨i, -, rfl⟩ := List.mem_map.mp hw
      show 4 * i.val + 4 ≤ 46
      omega
    · obtain ⟨i, -, rfl⟩ := List.mem_map.mp hw
      show 16 + 4 * i.val + 4 ≤ 46
      omega
  · simp only [List.mem_cons, List.not_mem_nil, or_false] at hw
    rcases hw with rfl | rfl | rfl | rfl | rfl
    exacts [(by decide : 36 ≤ 46), (by decide : 40 ≤ 46), (by decide : 44 ≤ 46),
      (by decide : 45 ≤ 46), (by decide : 46 ≤ 46)]

theorem current_of_mode {s : System} {c : Console} {p : Protocol}
    (h : s.session c = none ∧ s.mode c = p) : s.current c = p := by
  unfold System.current
  rw [h.1, h.2]
  rfl

theorem current_of_session {s : System} {c : Console} {p : Protocol}
    (h : s.session c = some p) : s.current c = p := by
  unfold System.current
  rw [h]
  rfl

/-- a command stores inside the settings of its protocol -/
theorem stores_inside (s : System) (c : Console) (cmd : Command) (h : s.accepts c cmd) :
    ∀ w ∈ cmd.stores s c, w.1 + w.2.length ≤ (cmd.protocol (s.current c)).extent := by
  intro w hw
  cases cmd with
  | nfc found =>
    obtain rfl := List.mem_singleton.mp hw
    exact Nat.le_refl 1
  | technology t =>
    have hc := current_of_mode (of_decide_eq_true h)
    obtain rfl := List.mem_singleton.mp hw
    show _ ≤ (s.current c).extent
    rw [hc]
    exact Nat.le_refl 1
  | frequency speed =>
    have hc := current_of_mode (of_decide_eq_true h)
    obtain rfl := List.mem_singleton.mp hw
    show 8 ≤ (s.current c).extent
    rw [hc]
    decide
  | bbioSpi =>
    have hends : ∀ w ∈ bbioSpiInitProtoDefault, w.1 + w.2.length ≤ 12 := by decide
    exact hends w hw
  | spiSpeed b =>
    have hc := current_of_session (of_decide_eq_true h)
    obtain rfl := List.mem_singleton.mp hw
    show 8 ≤ (s.current c).extent
    rw [hc]
    decide
  | spiConfig b =>
    have hc := current_of_session (of_decide_eq_true h)
    show _ ≤ (s.current c).extent
    rw [hc]
    rcases List.mem_pair.mp hw with rfl | rfl
    · show 10 ≤ 12
      decide
    · show 11 ≤ 12
      decide
  | spiSniff =>
    have hc := current_of_session (of_decide_eq_true h)
    obtain rfl := List.mem_singleton.mp hw
    show 9 ≤ (s.current c).extent
    rw [hc]
    decide
  | spiSniffEnd =>
    have hc := current_of_session (of_decide_eq_true h)
    obtain rfl := List.mem_singleton.mp hw
    show 9 ≤ (s.current c).extent
    rw [hc]
    decide
  | sump =>
    obtain rfl := List.mem_singleton.mp hw
    exact (by decide : 45 ≤ 46)
  | sumpInput i =>
    have hc := current_of_session (of_decide_eq_true h)
    show _ ≤ (s.current c).extent
    rw [hc]
    exact sumpStores_inside _ w hw
  | dnfc _ | exit | scan | reader | cardEmulator _ | leave => exact absurd hw List.not_mem_nil

/-! ## the bytes a step changes -/

/-- byte `i` of the settings of `c` belongs to the protocol that a command on `c` is about -/
def MayChange (s : System) (e : Event) (c : Console) (i : Nat) : Prop :=
  ∃ cmd, e = .command c cmd ∧ s.accepts c cmd ∧ i < (cmd.protocol (s.current c)).extent

def Frame (s : System) (e : Event) : Prop :=
  ∀ c i, (s.step e).config c i ≠ s.config c i → MayChange s e c i

/-- the step runs `hydranfc_v2_init` -/
def Inits (s : System) : Event → Prop
  | .command c cmd => s.accepts c cmd ∧ cmd.initsShield
  | .k1Button => s.detected = true

/-- the settings of the shield are in the union of the first console already, but for the bytes
that the command may change -/
def SettingsThere (s : System) (e : Event) : Prop :=
  Inits s e → ∀ i b, spiNfcByte i = some b → s.config .usb1 i = b ∨ MayChange s e .usb1 i

theorem use_config (s : System) (c : Console) (cmd : Command) : (s.use c cmd).config = s.config := by
  cases cmd with
  | nfc found => cases found <;> rfl
  | dnfc found => cases found <;> rfl
  | cardEmulator found => cases found <;> rfl
  | _ => rfl

theorem store_config (s : System) (c c' : Console) (stores : List Store) :
    (s.store c stores).config c'
      = if c' = c then replay (s.config c) stores else s.config c' := by
  show Function.update s.config c _ c' = _
  rw [Function.update_apply]

theorem init_config (s : System) (c : Console) (i : Nat) :
    s.initGpioSpiNfc.config c i
      = if c = .usb1 then (spiNfcByte i).getD (s.config c i) else s.config c i := by
  unfold System.initGpioSpiNfc
  rw [store_config]
  by_cases hc : c = .usb1
  · subst hc
    rw [if_pos rfl, if_pos rfl, replay_spiNfc]
  · rw [if_neg hc, if_neg hc]

/-- the stores of the command itself respect the frame -/
theorem store_frame {s : System} {c : Console} {cmd : Command} (h : s.accepts c cmd) {c' : Console}
    {i : Nat} (hno : ¬ MayChange s (.command c cmd) c' i) :
    (s.store c (cmd.stores s c)).config c' i = s.config c' i := by
  rw [store_config]
  by_cases hc : c' = c
  · subst hc
    rw [if_pos rfl]
    apply replay_out
    intro w hw
    have hin := stores_inside s c' cmd h w hw
    have hge : (cmd.protocol (s.current c')).extent ≤ i :=
      Nat.not_lt.mp fun hlt => hno ⟨cmd, rfl, h, hlt⟩
    exact Or.inr (hin.trans hge)
  · rw [if_neg hc]

theorem command_config_init (s : System) (c : Console) {cmd : Command} (h : cmd.initsShield) :
    (s.command c cmd).config = (s.store c (cmd.stores s c)).initGpioSpiNfc.config := by
  show (System.use (if cmd.initsShield then _ else _) c cmd).config = _
  rw [use_config, if_pos h]

theorem command_config_quiet (s : System) (c : Console) {cmd : Command} (h : ¬ cmd.initsShield) :
    (s.command c cmd).config = (s.store c (cmd.stores s c)).config := by
  show (System.use (if cmd.initsShield then _ else _) c cmd).config = _
  rw [use_config, if_neg h]

/-- outside the bytes that may change, a step leaves what the initialisation puts there -/
theorem step_config {s : System} {e : Event} {c : Console} {i : Nat} (hno : ¬ MayChange s e c i) :
    (Inits s e → c = .usb1 → (s.step e).config c i = (spiNfcByte i).getD (s.config c i)) ∧
    (¬ (Inits s e ∧ c = .usb1) → (s.step e).config c i = s.config c i) := by
  cases e with
  | k1Button =>
    constructor
    · intro hd hc
      have hd' : s.detected = true := hd
      show (if s.detected then s.initGpioSpiNfc else s).config c i = _
      rw [if_pos hd', init_config, if_pos hc]
    · intro hn
      show (if s.detected then s.initGpioSpiNfc else s).config c i = _
      by_cases hd : s.detected = true
      · rw [if_pos hd, init_config, if_neg fun hc => hn ⟨hd, hc⟩]
      · rw [if_neg hd]
  | command d cmd =>
    by_cases hacc : s.accepts d cmd
    · have hstep : s.step (.command d cmd) = s.command d cmd := if_pos hacc
      have hown := store_frame hacc hno
      rw [hstep]
      constructor
      · intro hi hc
        rw [command_config_init _ _ hi.2, init_config, if_pos hc, hown]
      · intro hn
        by_cases hi : cmd.initsShield
        · rw [command_config_init _ _ hi, init_config, if_neg fun hc => hn ⟨⟨hacc, hi⟩, hc⟩, hown]
        · rw [command_config_quiet _ _ hi, hown]
    · have hstep : s.step (.command d cmd) = s := if_neg hacc
      rw [hstep]
      exact ⟨fun hi => absurd hi.1 hacc, fun _ => rfl⟩

theorem frame_iff (s : System) (e : Event) : Frame s e ↔ SettingsThere s e := by
  constructor
  · intro hf hi i b hb
    by_cases hmay : MayChange s e .usb1 i
    · exact Or.inr hmay
    · left
      have hstep := (step_config hmay).1 hi rfl
      rw [hb, Option.getD_some] at hstep
      by_contra hne
      exact hmay (hf .usb1 i (by rw [hstep]; exact fun h => hne h.symm))
  · intro hs c i hch
    by_contra hno
    obtain ⟨hin, hout⟩ := step_config hno
    by_cases hi : Inits s e ∧ c = .usb1
    · obtain ⟨hi, rfl⟩ := hi
      apply hch
      rw [hin hi rfl]
      cases hb : spiNfcByte i with
      | none => rfl
      | some b => exact ((hs hi i b hb).resolve_right hno).symm
    · exact hch (hout hi)

/-! ## the selected technology -/

/-- the system, and the technology each console has selected since it is in `nfc` -/
structure Watched where
  sys : System
  selected : Console → Option Technology

/-- `nfc` starts with all technologies; a console that turns to another protocol selects none -/
def Watched.selects (w : Watched) (c : Console) : Command → Option Technology
  | .nfc found => if found then some .all else none
  | .technology t => some t
  | .scan => w.selected c
  | _ => none

def Watched.step (w : Watched) (e : Event) : Watched where
  sys := w.sys.step e
  selected :=
    match e with
    | .command c cmd =>
      if w.sys.accepts c cmd then Function.update w.selected c (w.selects c cmd) else w.selected
    | .k1Button => w.selected

/-- only the console itself changes its settings, in the protocol it uses, and a scan takes the
technology that the console has selected -/
def Isolated (w : Watched) (e : Event) : Prop :=
  Frame w.sys e ∧
    ∀ c t, e = .command c .scan → w.selected c = some t → w.sys.scans c = t.code

def Kept (w : Watched) : Prop :=
  ∀ c t, w.selected c = some t →
    (w.sys.session c = none ∧ w.sys.mode c = .nfc) ∧ w.sys.scans c = t.code

/-- a frame keeps the technology of a console that is not at work -/
theorem scans_other {s : System} {e : Event} (hf : Frame s e) {c : Console}
    (h : ∀ cmd, e ≠ .command c cmd) : (s.step e).scans c = s.scans c := by
  by_contra hch
  obtain ⟨cmd, he, -⟩ := hf c nfcTechnology hch
  exact h cmd he

theorem use_other (s : System) (c : Console) (cmd : Command) {c' : Console} (h : c' ≠ c) :
    (s.use c cmd).session c' = s.session c' ∧ (s.use c cmd).mode c' = s.mode c' := by
  cases cmd with
  | nfc found =>
    cases found
    · exact ⟨rfl, rfl⟩
    · exact ⟨rfl, Function.update_of_ne h ..⟩
  | dnfc found =>
    cases found
    · exact ⟨rfl, rfl⟩
    · exact ⟨rfl, Function.update_of_ne h ..⟩
  | cardEmulator found =>
    cases found
    · exact ⟨rfl, rfl⟩
    · exact ⟨Function.update_of_ne h .., rfl⟩
  | exit => exact ⟨rfl, Function.update_of_ne h ..⟩
  | bbioSpi | reader | sump | leave => exact ⟨Function.update_of_ne h .., rfl⟩
  | _ => exact ⟨rfl, rfl⟩

/-- the stores and the initialisation leave the use of every console -/
theorem command_use (s : System) (c : Console) (cmd : Command) (c' : Console) :
    (s.command c cmd).session c' = (s.use c cmd).session c' ∧
      (s.command c cmd).mode c' = (s.use c cmd).mode c' := by
  cases cmd with
  | nfc found => cases found <;> exact ⟨rfl, rfl⟩
  | dnfc found => cases found <;> exact ⟨rfl, rfl⟩
  | cardEmulator found => cases found <;> exact ⟨rfl, rfl⟩
  | _ => exact ⟨rfl, rfl⟩

/-- what a console selects is what its settings hold -/
theorem selects_kept {w : Watched} (hk : Kept w) {c : Console} {cmd : Command}
    (hacc : w.sys.accepts c cmd) {t : Technology} (ht : w.selects c cmd = some t) :
    ((w.sys.command c cmd).session c = none ∧ (w.sys.command c cmd).mode c = .nfc) ∧
      (w.sys.command c cmd).scans c = t.code := by
  cases cmd with
  | nfc found =>
    cases found with
    | false => exact absurd ht nofun
    | true =>
      obtain rfl := Option.some.inj ht
      obtain ⟨hs, -⟩ := of_decide_eq_true hacc
      refine ⟨⟨hs, Function.update_self ..⟩, ?_⟩
      unfold System.scans
      rw [command_config_init _ _ rfl, init_config, store_config, if_pos rfl]
      split_ifs <;> rfl
  | technology u =>
    obtain rfl := Option.some.inj ht
    have hq : ¬ (Command.technology u).initsShield := Bool.false_ne_true
    refine ⟨of_decide_eq_true hacc, ?_⟩
    unfold System.scans
    rw [command_config_quiet _ _ hq, store_config, if_pos rfl]
    rfl
  | scan =>
    have hq : ¬ Command.scan.initsShield := Bool.false_ne_true
    refine ⟨of_decide_eq_true hacc, ?_⟩
    unfold System.scans
    rw [command_config_quiet _ _ hq, store_config, if_pos rfl]
    exact (hk c t ht).2
  | _ => exact absurd ht nofun

theorem step_kept {w : Watched} {e : Event} (hk : Kept w) (hf : Frame w.sys e) :
    Kept (w.step e) := by
  intro c t ht
  cases e with
  | k1Button =>
    have hsame : ((w.sys.step .k1Button).session c = w.sys.session c) ∧
        (w.sys.step .k1Button).mode c = w.sys.mode c := by
      show (if w.sys.detected then w.sys.initGpioSpiNfc else w.sys).session c = _ ∧
        (if w.sys.detected then w.sys.initGpioSpiNfc else w.sys).mode c = _
      split_ifs <;> exact ⟨rfl, rfl⟩
    obtain ⟨huse, hscan⟩ := hk c t ht
    refine ⟨⟨hsame.1.trans huse.1, hsame.2.trans huse.2⟩, ?_⟩
    exact (scans_other hf (by exact fun _ => nofun)).trans hscan
  | command d cmd =>
    by_cases hacc : w.sys.accepts d cmd
    · have hstep : w.sys.step (.command d cmd) = w.sys.command d cmd := if_pos hacc
      have hsel : (w.step (.command d cmd)).selected
          = Function.update w.selected d (w.selects d cmd) := if_pos hacc
      have hsys : (w.step (.command d cmd)).sys = w.sys.command d cmd := hstep
      rw [hsel] at ht
      rw [hsys]
      by_cases hc : c = d
      · subst hc
        rw [Function.update_self] at ht
        exact selects_kept hk hacc ht
      · rw [Function.update_of_ne hc] at ht
        obtain ⟨huse, hscan⟩ := hk c t ht
        obtain ⟨hs, hm⟩ := command_use w.sys d cmd c
        obtain ⟨hs', hm'⟩ := use_other w.sys d cmd hc
        refine ⟨⟨(hs.trans hs').trans huse.1, (hm.trans hm').trans huse.2⟩, ?_⟩
        have hother := scans_other hf (c := c) fun cmd' he => hc (Event.command.inj he).1.symm
        rw [hstep] at hother
        exact hother.trans hscan
    · have hstep : w.step (.command d cmd) = w := by
        have h1 : w.sys.step (.command d cmd) = w.sys := if_neg hacc
        have h2 : (w.step (.command d cmd)).selected = w.selected := if_neg hacc
        cases w
        exact congrArg₂ Watched.mk h1 h2
      rw [hstep] at ht ⊢
      exact hk c t ht

/-- the start of watching: nothing is selected yet -/
def watch (s : System) : Watched := ⟨s, fun _ => none⟩

/-- **Isolation.**  The consoles stay apart over a run exactly when every initialisation of the
shield in it finds its settings there. -/
theorem stepsOk_isolated_iff (s : System) (es : List Event) :
    StepsOk Isolated Watched.step (watch s) es
      ↔ StepsOk (fun w e => SettingsThere w.sys e) Watched.step (watch s) es := by
  constructor
  · intro h
    exact StepsOk.mono (I := fun _ => True) (fun _ _ _ _ => trivial)
      (fun w e _ hi => (frame_iff w.sys e).mp hi.1) trivial h
  · intro h
    refine StepsOk.mono (I := Kept) ?_ ?_ (fun c t hc => absurd hc nofun) h
    · exact fun w e hk hs => step_kept hk ((frame_iff w.sys e).mpr hs)
    · exact fun w e hk hs => ⟨(frame_iff w.sys e).mpr hs, fun c t _ hc => (hk c t hc).2⟩

/-! ## a button press during a session -/

/-- the consoles behind `hydranfc_v2_is_detected`, which has stored the settings of the shield -/
def booted : System where
  config c := if c = .usb1 then replay (fun _ => 0) spiNfcStores else fun _ => 0
  mode _ := .top
  session _ := none
  ring := ⟨fun _ => 0, 0, Sump.statesLen_pos⟩
  detected := true

/-- NFC-A is selected on the first console; behind a press of K1 the scan takes all technologies -/
theorem k1_resets_technology :
    ¬ StepsOk Isolated Watched.step (watch booted)
      [.command .usb1 (.nfc true), .command .usb1 (.technology .a), .k1Button,
        .command .usb1 .scan] := by
  intro h
  obtain ⟨-, -, -, ⟨-, hscan⟩, -⟩ := h
  have hcode := hscan .usb1 .a rfl rfl
  exact absurd hcode (by decide)

end Modes
end Hydra
