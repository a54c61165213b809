import HydraFw.Jtag.Pins

/-!
# The pin search

`jtag_brute_pins_bypass` (`hydrabus_mode_jtag.c`), for any answers of `jtag_scan_bypass`.

* `assignments`      the nested loops over the pins, with their `continue`s;
* `Target`           what the scan finds with each assignment, and with a pin as TRST held low;
* `tryPins`, `jtagBrutePinsBypass`   the body of the loops, and the search;
* `bruteArgument`    the number of pins that the command lets through;
* `Right`            the law: pins that work, and a TRST that was detected with them;
* `searchFrom_eq`    the last assignment that works, and the last TRST of all;
* `finds_iff`        they belong together unless only earlier ones have a TRST.
-/

namespace Hydra
namespace Jtag

structure Assignment where
  tms : UInt8
  tck : UInt8
  tdi : UInt8
  tdo : UInt8
  deriving DecidableEq

def Assignment.pins (a : Assignment) : List UInt8 := [a.tck, a.tms, a.tdi, a.tdo]

/-- `for (pin = 0; pin < num_pins; pin++)` -/
def pinNumbers (numPins : Nat) : List UInt8 := (List.range numPins).map UInt8.ofNat

def assignments (numPins : Nat) : List Assignment :=
  (pinNumbers numPins).flatMap fun tms =>
  (pinNumbers numPins).flatMap fun tck =>
    if tms = tck then [] else
  (pinNumbers numPins).flatMap fun tdi =>
    if tms = tdi ∨ tck = tdi then [] else
  (pinNumbers numPins).flatMap fun tdo =>
    if tms = tdo ∨ tck = tdo ∨ tdi = tdo then [] else [⟨tms, tck, tdi, tdo⟩]

structure Target where
  /-- `jtag_scan_bypass` finds a device, with a pin held low or not -/
  scan : Assignment → Option UInt8 → Bool
  /-- `hydrabus_ubtn` before an assignment is tried -/
  ubtn : Assignment → Bool

def Target.works (t : Target) (a : Assignment) : Bool := t.scan a none

def JtagConfig.assignment (c : JtagConfig) : Assignment := ⟨c.tmsPin, c.tckPin, c.tdiPin, c.tdoPin⟩

def JtagConfig.assign (c : JtagConfig) (a : Assignment) : JtagConfig :=
  { c with tmsPin := a.tms, tckPin := a.tck, tdiPin := a.tdi, tdoPin := a.tdo }

structure Search where
  config : JtagConfig
  /-- `pinout_found`, with the four `valid_` pins -/
  found : Option Assignment
  validTrst : UInt8

/-- a pass of the loop over `trst` -/
def tryTrst (t : Target) (s : Search) (trst : UInt8) : Search :=
  let config := { s.config with trstPin := trst }
  if ¬ jtagPinValid config then { s with config := config }
  else
    let config := jtagPinInit config
    { s with
      config := config
      validTrst := if ¬ t.scan config.assignment (some config.trstPin) then trst else s.validTrst }

/-- the body of the loops, behind the test of the button -/
def tryPins (t : Target) (numPins : Nat) (s : Search) (a : Assignment) : Search :=
  let config := jtagPinInit (s.config.assign a)
  if t.works config.assignment then
    let s := (pinNumbers numPins).foldl (tryTrst t) { s with config := config, found := some a }
    { s with config := { s.config with trstPin := unused } }
  else { s with config := config }

/-- the loops, and whether the button has ended them -/
def searchFrom (t : Target) (numPins : Nat) : List Assignment → Search → Search × Bool
  | [], s => (s, false)
  | a :: rest, s =>
    if t.ubtn a then ({ s with config := s.config.assign a }, true)
    else searchFrom t numPins rest (tryPins t numPins s a)

/-- the configuration that the last `jtag_pin_init` is given -/
def Search.result (s : Search) : JtagConfig :=
  match s.found with
  | some a => { s.config.assign a with trstPin := s.validTrst }
  | none => initProtoDefault

def Search.start (c : JtagConfig) : Search := ⟨{ c with trstPin := unused }, none, unused⟩

/-- the configuration before and behind the last `jtag_pin_init`; nothing when the button has ended
the search -/
def jtagBrutePinsBypass (t : Target) (numPins : Nat) (c : JtagConfig) :
    Option (JtagConfig × JtagConfig) :=
  let (s, interrupted) := searchFrom t numPins (assignments numPins) (Search.start c)
  if interrupted then none else some (s.result, jtagPinInit s.result)

/-- the check of `exec` before the search -/
def bruteArgument (argInt : Int) : Option Nat :=
  if argInt < 1 ∨ argInt > 12 then none else some argInt.toNat

/-! ## the law and its condition -/

section
variable (t : Target) (numPins : Nat)

/-- the assignments that work -/
def working : List Assignment := (assignments numPins).filter t.works

/-- the TRST pins of an assignment: other pins that keep it from working -/
def detected (a : Assignment) : List UInt8 :=
  (pinNumbers numPins).filter fun trst => trst ∉ a.pins && !t.scan a (some trst)

/-- pins that work, and a TRST of theirs or none -/
structure Right (c : JtagConfig) : Prop where
  valid : jtagPinValid c = true
  works : c.assignment ∈ working t numPins
  trst : c.trstPin = unused ∨ c.trstPin ∈ detected t numPins c.assignment

/-- the search ends with such pins, which the last `jtag_pin_init` has left as they are -/
def Finds (c : JtagConfig) : Prop :=
  ∃ before behind, jtagBrutePinsBypass t numPins c = some (before, behind) ∧
    behind = before ∧ Right t numPins behind

/-- the button is not pressed, and some assignment works -/
structure Successful : Prop where
  uninterrupted : ∀ a ∈ assignments numPins, t.ubtn a = false
  works : working t numPins ≠ []

end

/-! ## the loops -/

section
variable {t : Target} {numPins : Nat} {a : Assignment}

theorem pinNumbers_lt (hn : numPins ≤ 12) : ∀ pin ∈ pinNumbers numPins, pin ≠ unused := by
  intro pin hpin
  obtain ⟨k, hk, rfl⟩ := List.mem_map.mp hpin
  have hlt : k < 12 := Nat.lt_of_lt_of_le (List.mem_range.mp hk) hn
  have hall : ∀ k < 12, UInt8.ofNat k ≠ unused := by decide
  exact hall k hlt

/-- four pins, none of them twice -/
structure Proper (a : Assignment) : Prop where
  nodup : a.pins.Nodup
  used : ∀ pin ∈ a.pins, pin ≠ unused

theorem assignments_proper (hn : numPins ≤ 12) : ∀ a ∈ assignments numPins, Proper a := by
  intro a ha
  obtain ⟨tms, htms, ha⟩ := List.mem_flatMap.mp ha
  obtain ⟨tck, htck, ha⟩ := List.mem_flatMap.mp ha
  split at ha
  · cases ha
  · next hck =>
    obtain ⟨tdi, htdi, ha⟩ := List.mem_flatMap.mp ha
    split at ha
    · cases ha
    · next hdi =>
      obtain ⟨tdo, htdo, ha⟩ := List.mem_flatMap.mp ha
      split at ha
      · cases ha
      · next hdo =>
        obtain rfl := List.mem_singleton.mp ha
        refine ⟨?_, ?_⟩
        · simp only [Assignment.pins, List.nodup_cons, List.mem_cons, List.not_mem_nil, or_false,
            not_or, List.nodup_nil, not_false_eq_true, and_true]
          grind
        · have hused := pinNumbers_lt hn
          intro pin hpin
          simp only [Assignment.pins, List.mem_cons, List.not_mem_nil, or_false] at hpin
          rcases hpin with rfl | rfl | rfl | rfl
          · exact hused _ htck
          · exact hused _ htms
          · exact hused _ htdi
          · exact hused _ htdo

/-- a proper assignment is valid with any other pin as TRST -/
theorem Proper.valid_iff (ha : Proper a) (c : JtagConfig) (h : c.assignment = a) :
    jtagPinValid c = true ↔ c.trstPin ∉ a.pins := by
  subst h
  obtain ⟨hnodup, hused⟩ := ha
  rw [jtagPinValid_iff]
  simp only [JtagConfig.pins, JtagConfig.assignment, Assignment.pins, List.pairwise_cons,
    List.nodup_cons, List.mem_cons, List.not_mem_nil, or_false, forall_eq_or_imp, forall_eq] at *
  grind

/-- the loop over `trst`: the last one that is detected stays -/
theorem tryTrst_foldl (ha : Proper a) (pins : List UInt8) {s : Search}
    (hs : s.config.assignment = a) :
    let s' := pins.foldl (tryTrst t) s
    s'.config.assignment = a ∧ s'.found = s.found ∧
      s'.validTrst = (pins.filter fun trst => trst ∉ a.pins && !t.scan a (some trst)).getLastD
        s.validTrst := by
  induction pins generalizing s with
  | nil => exact ⟨hs, rfl, rfl⟩
  | cons trst pins ih =>
    have hvalid := ha.valid_iff { s.config with trstPin := trst } hs
    have hstep : (tryTrst t s trst).config.assignment = a ∧ (tryTrst t s trst).found = s.found ∧
        (tryTrst t s trst).validTrst =
          if trst ∉ a.pins && !t.scan a (some trst) then trst else s.validTrst := by
      unfold tryTrst
      by_cases hmem : trst ∈ a.pins
      · rw [if_pos (fun h => hvalid.mp h hmem)]
        refine ⟨hs, rfl, ?_⟩
        simp only [hmem, not_true_eq_false, decide_false, Bool.false_and, Bool.false_eq_true,
          if_false]
      · rw [if_neg (not_not.mpr (hvalid.mpr hmem)), jtagPinInit, if_pos (hvalid.mpr hmem)]
        refine ⟨hs, rfl, ?_⟩
        show (if ¬ t.scan s.config.assignment (some trst) = true then trst else s.validTrst) = _
        rw [hs]
        cases hscan : t.scan a (some trst) <;> simp [hmem]
    obtain ⟨hassign, hfound, htrst⟩ := hstep
    obtain ⟨hassign', hfound', htrst'⟩ := ih hassign
    refine ⟨hassign', hfound'.trans hfound, ?_⟩
    rw [List.foldl_cons, htrst', htrst, List.filter_cons]
    split
    · rw [List.getLastD_cons]
    · rfl

/-- the body of the loops -/
theorem tryPins_eq (ha : Proper a) {s : Search} (hs : s.config.trstPin = unused) :
    (tryPins t numPins s a).config.trstPin = unused ∧
      (tryPins t numPins s a).found = (if t.works a then some a else s.found) ∧
      (tryPins t numPins s a).validTrst =
        if t.works a then (detected t numPins a).getLastD s.validTrst else s.validTrst := by
  have hnot : (s.config.assign a).trstPin ∉ a.pins := fun hmem => ha.used _ hmem hs
  have hinit : jtagPinInit (s.config.assign a) = s.config.assign a :=
    if_pos ((ha.valid_iff _ rfl).mpr hnot)
  unfold tryPins
  rw [hinit]
  show _ ∧ _ = (if t.works (s.config.assign a).assignment then _ else _) ∧
    _ = if t.works (s.config.assign a).assignment then _ else _
  dsimp only
  split
  · obtain ⟨-, hfound, htrst⟩ := tryTrst_foldl (t := t) ha (pinNumbers numPins)
      (s := { s with config := s.config.assign a, found := some a }) rfl
    exact ⟨rfl, hfound, htrst⟩
  · exact ⟨hs, rfl, rfl⟩

theorem getLastD_append {α : Type} (xs ys : List α) (d : α) :
    (xs ++ ys).getLastD d = ys.getLastD (xs.getLastD d) := by
  induction xs generalizing d with
  | nil => rfl
  | cons x xs ih => rw [List.cons_append, List.getLastD_cons, List.getLastD_cons, ih]

/-- the loops: the last assignment that works, and the last pin that is detected with any -/
theorem searchFrom_eq {l : List Assignment} (hl : ∀ a ∈ l, Proper a)
    (hubtn : ∀ a ∈ l, t.ubtn a = false) {s : Search} (hs : s.config.trstPin = unused) :
    (searchFrom t numPins l s).2 = false ∧
      (searchFrom t numPins l s).1.found = (l.filter t.works).getLast?.or s.found ∧
      (searchFrom t numPins l s).1.validTrst =
        ((l.filter t.works).flatMap (detected t numPins)).getLastD s.validTrst := by
  induction l generalizing s with
  | nil => exact ⟨rfl, rfl, rfl⟩
  | cons a l ih =>
    obtain ⟨ha, hl⟩ := List.forall_mem_cons.mp hl
    obtain ⟨hfree, hubtn⟩ := List.forall_mem_cons.mp hubtn
    obtain ⟨hunused, hfound, htrst⟩ := @tryPins_eq t numPins a ha s hs
    obtain ⟨hend, hfound', htrst'⟩ := ih hl hubtn hunused
    rw [searchFrom, hfree, if_neg Bool.false_ne_true, hfound', htrst', hfound, htrst]
    refine ⟨hend, ?_, ?_⟩
    · cases hworks : t.works a with
      | true =>
        rw [if_pos rfl, List.filter_cons_of_pos hworks, List.getLast?_cons]
        cases (l.filter t.works).getLast? <;> rfl
      | false =>
        rw [if_neg Bool.false_ne_true, List.filter_cons_of_neg (ne_true_of_eq_false hworks)]
    · cases hworks : t.works a with
      | true =>
        rw [if_pos rfl, List.filter_cons_of_pos hworks, List.flatMap_cons, getLastD_append]
      | false =>
        rw [if_neg Bool.false_ne_true, List.filter_cons_of_neg (ne_true_of_eq_false hworks)]

/-! ## the result -/

/-- the search ends with the last assignment that works, and the last TRST of all -/
theorem brute_eq (hn : numPins ≤ 12) (h : Successful t numPins) (c : JtagConfig) :
    ∃ before, jtagBrutePinsBypass t numPins c = some (before, jtagPinInit before) ∧
      before.assignment = (working t numPins).getLast h.works ∧
      before.trstPin = ((working t numPins).flatMap (detected t numPins)).getLastD unused := by
  have hproper := assignments_proper hn
  obtain ⟨hend, hfound, htrst⟩ :=
    @searchFrom_eq t numPins _ hproper h.uninterrupted (Search.start c) rfl
  have hlast : ((assignments numPins).filter t.works).getLast? =
      some ((working t numPins).getLast h.works) := List.getLast?_eq_some_getLast h.works
  rw [hlast, Option.some_or] at hfound
  refine ⟨(searchFrom t numPins (assignments numPins) (Search.start c)).1.result, ?_, ?_, ?_⟩
  · rw [jtagBrutePinsBypass]
    dsimp only
    rw [hend, if_neg Bool.false_ne_true]
  · rw [Search.result, hfound]
    rfl
  · rw [Search.result, hfound]
    exact htrst

theorem working_proper (hn : numPins ≤ 12) : ∀ a ∈ working t numPins, Proper a := fun a ha =>
  assignments_proper hn a (List.mem_of_mem_filter ha)

/-- a detected pin is another one, and a pin -/
theorem mem_detected (hn : numPins ≤ 12) {trst : UInt8} (h : trst ∈ detected t numPins a) :
    trst ∉ a.pins ∧ trst ≠ unused := by
  obtain ⟨hmem, hdetected⟩ := List.mem_filter.mp h
  rw [Bool.and_eq_true] at hdetected
  exact ⟨of_decide_eq_true hdetected.1, pinNumbers_lt hn trst hmem⟩

theorem getLastD_mem {α : Type} {xs : List α} (h : xs ≠ []) (d : α) : xs.getLastD d ∈ xs := by
  rw [List.getLastD_eq_getLast?, List.getLast?_eq_some_getLast h]
  exact List.getLast_mem h

/-- the TRST of the result is one of the last assignment, if it has one -/
theorem trst_of_last {works : List Assignment} (h : works ≠ [])
    (hlast : detected t numPins (works.getLast h) ≠ []) :
    (works.flatMap (detected t numPins)).getLastD unused ∈
      detected t numPins (works.getLast h) := by
  have hsplit := List.dropLast_append_getLast h
  generalize works.getLast h = last at hlast hsplit ⊢
  rw [← hsplit, List.flatMap_append, List.flatMap_singleton, getLastD_append]
  exact getLastD_mem hlast _

/-- without a TRST of the last assignment, the result is right when it has none at all -/
theorem Finds.none_detected (h : Successful t numPins) (hn : numPins ≤ 12) {c : JtagConfig}
    (hfinds : Finds t numPins c)
    (hlast : detected t numPins ((working t numPins).getLast h.works) = []) :
    ∀ a ∈ working t numPins, detected t numPins a = [] := by
  obtain ⟨before, hrun, hassign, htrst⟩ := brute_eq hn h c
  obtain ⟨before', behind, hrun', rfl, hright⟩ := hfinds
  rw [hrun] at hrun'
  obtain ⟨rfl, hinit⟩ := Prod.mk.inj (Option.some.inj hrun')
  have hunused : before.trstPin = unused := by
    rcases hright.trst with hunused | hmem
    · exact hunused
    · rw [hassign, hlast] at hmem
      cases hmem
  rw [← List.flatMap_eq_nil_iff]
  by_contra hne
  have hmem := getLastD_mem hne unused
  rw [← htrst, hunused] at hmem
  obtain ⟨a, -, ha⟩ := List.mem_flatMap.mp hmem
  exact (mem_detected hn ha).2 rfl

theorem bruteArgument_le {argInt : Int} (h : bruteArgument argInt = some numPins) :
    numPins ≤ 12 := by
  unfold bruteArgument at h
  split at h
  · cases h
  · cases h
    omega

/-- **The pin search.**  It ends with pins that work and a TRST of theirs, unless the last
assignment that works has no TRST pin and an earlier one has. -/
theorem finds_iff {argInt : Int} (harg : bruteArgument argInt = some numPins)
    (h : Successful t numPins) (c : JtagConfig) :
    Finds t numPins c ↔
      (detected t numPins ((working t numPins).getLast h.works) = [] →
        ∀ a ∈ working t numPins, detected t numPins a = []) := by
  have hn := bruteArgument_le harg
  constructor
  · intro hfinds
    exact hfinds.none_detected h hn
  · intro hcond
    obtain ⟨before, hrun, hassign, htrst⟩ := brute_eq hn h c
    have hmem : before.assignment ∈ working t numPins := hassign ▸ List.getLast_mem h.works
    have hproper := working_proper hn _ hmem
    have hright : before.trstPin = unused ∨
        before.trstPin ∈ detected t numPins before.assignment := by
      by_cases hlast : detected t numPins ((working t numPins).getLast h.works) = []
      · left
        rw [htrst, List.flatMap_eq_nil_iff.mpr (hcond hlast)]
        rfl
      · right
        rw [htrst, hassign]
        exact trst_of_last h.works hlast
    have hvalid : jtagPinValid before = true := by
      rw [hproper.valid_iff before rfl]
      rcases hright with hunused | hdetected
      · intro hpin
        exact hproper.used _ hpin hunused
      · exact (mem_detected hn hdetected).1
    have hinit : jtagPinInit before = before := if_pos hvalid
    exact ⟨before, jtagPinInit before, hrun, hinit, hinit.symm ▸ ⟨hvalid, hmem, hright⟩⟩

end

/-- a device on PB0 to PB3, with its TRST on PB4 -/
def onFive : Target := ⟨fun a low => a = ⟨0, 1, 2, 3⟩ && low ≠ some 4, fun _ => false⟩

theorem onFive_successful : Successful onFive 5 := ⟨fun _ _ => rfl, by decide +kernel⟩

theorem finds_iff_five : Finds onFive 5 initProtoDefault :=
  (@finds_iff onFive 5 5 rfl onFive_successful initProtoDefault).mpr (by decide +kernel)

/-- another assignment works, with TMS on what is the TRST of the first one, and has no TRST -/
def onSixth : Target where
  scan a low := a = ⟨0, 1, 2, 3⟩ && low ≠ some 4 || a = ⟨4, 1, 2, 3⟩
  ubtn _ := false

theorem onSixth_successful : Successful onSixth 5 := ⟨fun _ _ => rfl, by decide +kernel⟩

theorem trst_of_another : ¬ ∀ t argInt numPins c, bruteArgument argInt = some numPins →
    Successful t numPins → Finds t numPins c := by
  intro hall
  have hfinds := hall onSixth 5 5 initProtoDefault rfl onSixth_successful
  have hnone := hfinds.none_detected onSixth_successful (by decide) (by decide +kernel)
  exact absurd (hnone ⟨0, 1, 2, 3⟩ (by decide +kernel)) (by decide +kernel)

end Jtag
end Hydra
