import HydraFw.Sump.Analyser

/-!
# What a run of the analyser sends

A capture that triggers at the sample `k` of the port ends behind the sample `k + delay`, and what
is sent are the newest slots of the ring (`run_eq`).  The slot of the matching sample is written
again by the first delayed sample, or is left out when there is none: `newest_of_trigger` gives
the slot that stands where the matching sample should.

* `Triggers`      `k` is the first sample that matches;
* `Session`       the analyser, and what the host has asked for with its last `SUMP_CNT`;
* `CaptureLaw`    what `SUMP_RUN` owes to the host;
* `CaptureCond`   when it keeps it, `captureLaw_iff`.
-/

namespace Hydra
namespace Sump
open Rams Runs

/-- `k` is the place of the first sample of the port that matches -/
structure Triggers (c : Config) (port : List Sample) (k : Nat) : Prop where
  lt : k < port.length
  hit : c.matches port[k] = true
  first : ∀ j (h : j < k), c.matches (port.get ⟨j, h.trans lt⟩) = false

/-! ## the two loops -/

theorem waitTrigger_eq {c : Config} {port : List Sample} {k : Nat} (h : Triggers c port k)
    (r : Ring Sample statesLen) :
    waitTrigger c r port
      = some (((r.pushAll (port.take k)).store (port.get ⟨k, h.lt⟩)), port.drop (k + 1)) := by
  induction port generalizing k r with
  | nil => exact absurd h.lt (Nat.not_lt_zero k)
  | cons s port ih =>
    have hget : (r.store s).get = s := Function.update_self ..
    show (if c.matches (r.store s).get then some (r.store s, port)
      else waitTrigger c (r.store s).next port) = _
    rw [hget]
    cases k with
    | zero =>
      have hs : c.matches s = true := h.hit
      rw [if_pos hs]
      rfl
    | succ k =>
      have hs : c.matches s = false := h.first 0 (Nat.succ_pos k)
      have ht : Triggers c port k :=
        ⟨Nat.lt_of_succ_lt_succ h.lt, h.hit, fun j hj => h.first (j + 1) (Nat.succ_lt_succ hj)⟩
      rw [if_neg (by rw [hs]; decide)]
      exact ih ht (r.push s)

theorem delaySamples_eq {n : Nat} {port : List Sample} (h : n ≤ port.length)
    (r : Ring Sample statesLen) :
    delaySamples n r port = some (r.pushAll (port.take n), port.drop n) := by
  induction n generalizing port r with
  | zero => simp [delaySamples]
  | succ n ih =>
    cases port with
    | nil => exact absurd h (by simp)
    | cons s port => exact ih (Nat.le_of_succ_le_succ h) (r.push s)

/-- the ring behind the matching sample and `d` samples more -/
def triggered (r : Ring Sample statesLen) (port : List Sample) (k d : Nat) (s : Sample) :
    Ring Sample statesLen :=
  ((r.pushAll (port.take k)).store s).pushAll ((port.drop (k + 1)).take d)

theorem getSamples_armed {c : Config} (h : c.state = .armed) (r : Ring Sample statesLen)
    (port : List Sample) :
    getSamples c r port = (waitTrigger c r port).bind fun x =>
      (delaySamples c.delayCount.toNat x.1 x.2).map fun y => ⟨y.1, y.2⟩ := by
  unfold getSamples
  rw [if_pos h]
  cases waitTrigger c r port with
  | none => rfl
  | some x =>
    simp only [h, true_or, if_true, Option.bind_some, Option.map_eq_bind]
    rfl

/-- a capture ends `delay` samples behind the first one that matches -/
theorem capture_eq {a : Analyser} {port : List Sample} {k : Nat} (h : Triggers a.config port k)
    (hd : k + a.config.delayCount.toNat < port.length) :
    a.capture port = some
      ⟨triggered a.rewound port k a.config.delayCount.toNat (port.get ⟨k, h.lt⟩),
        port.drop (k + 1 + a.config.delayCount.toNat)⟩ := by
  have harm : Triggers a.config.armed port k := ⟨h.lt, h.hit, h.first⟩
  have hw := waitTrigger_eq harm a.rewound
  have hdel := delaySamples_eq
    (show a.config.delayCount.toNat ≤ (port.drop (k + 1)).length by rw [List.length_drop]; omega)
    ((a.rewound.pushAll (port.take k)).store (port.get ⟨k, h.lt⟩))
  show getSamples a.config.armed a.rewound port = _
  rw [getSamples_armed rfl, hw, Option.bind_some]
  show (delaySamples a.config.delayCount.toNat _ _).map _ = _
  rw [hdel, List.drop_drop]
  rfl

/-! ## the loop that sends -/

theorem readOut_sent (channels : Byte) (n : Nat) (r : Ring Sample statesLen) :
    (readOut channels n r).1 = (r.drain n).flatMap (emit channels) := by
  induction n generalizing r with
  | zero => rfl
  | succ n ih =>
    show emit channels r.prev.get ++ (readOut channels n r.prev).1 = _
    rw [ih]
    rfl

theorem run_eq {a : Analyser} {port : List Sample} {cap : Capture} (h : a.capture port = some cap) :
    (a.run port).map Prod.snd
      = some ((cap.ring.drain a.config.readCount.toNat).flatMap (emit a.config.channels)) := by
  unfold Analyser.run
  rw [h]
  exact congrArg some (readOut_sent ..)

/-- one byte a sample for one group of channels, two for both -/
def width (channels : Byte) : Nat := if channels = 3 then 2 else 1

theorem emit_length {channels : Byte} (h : channels = 1 ∨ channels = 2 ∨ channels = 3)
    (s : Sample) : (emit channels s).length = width channels := by
  rcases h with rfl | rfl | rfl
  · rfl
  · rfl
  · rfl

theorem sent_length {channels : Byte} (h : channels = 1 ∨ channels = 2 ∨ channels = 3)
    (l : List Sample) : (l.flatMap (emit channels)).length = l.length * width channels := by
  induction l with
  | nil => simp
  | cons s l ih =>
    rw [List.flatMap_cons, List.length_append, emit_length h, ih, List.length_cons, Nat.succ_mul,
      Nat.add_comm]

/-- the number of samples can be read off the bytes -/
theorem sent_count {channels : Byte} (h : channels = 1 ∨ channels = 2 ∨ channels = 3)
    {l l' : List Sample} (heq : l.flatMap (emit channels) = l'.flatMap (emit channels)) :
    l.length = l'.length := by
  have hw : 0 < width channels := by unfold width; split <;> omega
  have hlen := congrArg List.length heq
  rw [sent_length h, sent_length h] at hlen
  exact Nat.eq_of_mul_eq_mul_right hw hlen

/-! ## the slot of the matching sample -/

theorem newest_of_trigger (r : Ring Sample statesLen) {port : List Sample} {k d : Nat} (s : Sample)
    (hd : k + d < port.length) (hr : d < statesLen) :
    (triggered r port k d s).newest d = (r.pushAll (port.take k)).newest 0 := by
  have hlen : ((port.drop (k + 1)).take d).length = d := by
    rw [List.length_take, List.length_drop]
    omega
  unfold triggered
  rw [Ring.newest_pushAll _ _ hr, List.getElem?_eq_none (by rw [List.length_reverse, hlen]),
    hlen, Nat.sub_self]
  exact Ring.newest_store _ _ (by decide)

/-- the sample before the matching one -/
theorem newest_before {r : Ring Sample statesLen} {port : List Sample} {k : Nat}
    (h : k + 1 < port.length) :
    (r.pushAll (port.take (k + 1))).newest 0 = port.get ⟨k, Nat.lt_of_succ_lt h⟩ := by
  show _ = port[k]
  rw [Ring.newest_pushAll _ _ (by decide), List.getElem?_eq_getElem
    (by rw [List.length_reverse, List.length_take]; omega), Option.getD_some,
    List.getElem_reverse]
  rw [List.getElem_take]
  congr 1
  rw [List.length_take]
  omega

/-- with nothing before it, the last slot of the ring -/
theorem newest_rewound (a : Analyser) : a.rewound.newest 0 = a.ring.slot (statesLen - 1) := rfl

/-! ## the law -/

/-- `asked`: the count of the last `SUMP_CNT`; `analyser` is `none` in a run that never ends -/
structure Session where
  analyser : Option Analyser
  asked : Option (BitVec 32)

/-- what `SUMP_CNT` asks for -/
def Input.asks (i : Input) : Option (BitVec 32) :=
  if i.command = sumpCnt then i.parameters.map Parameters.readCount else none

def Session.step (s : Session) (i : Input) : Session where
  analyser := (s.analyser.bind fun a => handle a i).map Prod.fst
  asked := i.asks.or s.asked

/-- a run the host may ask for, which triggers at `k` -/
structure Asked (s : Session) (i : Input) (a : Analyser) (n k : Nat) : Prop where
  analyser : s.analyser = some a
  asked : ∃ count, s.asked = some count ∧ count.toNat = n
  run : i.command = sumpRun
  triggers : Triggers a.config i.port k
  enough : k + a.config.delayCount.toNat < i.port.length
  channels : a.config.channels = 1 ∨ a.config.channels = 2 ∨ a.config.channels = 3
  le_ring : n ≤ statesLen
  le_captured : n ≤ k + 1 + a.config.delayCount.toNat

/-- the run ends `delay` samples behind the first match, sends the last `n` samples, the newest
first, and has the matching one where it says, as far back as the ring reaches -/
def CaptureLaw (s : Session) (i : Input) : Prop :=
  ∀ a n k, (h : Asked s i a n k) →
    ∃ cap, a.capture i.port = some cap ∧
      cap.rest = i.port.drop (k + 1 + a.config.delayCount.toNat) ∧
      (handle a i).map Prod.snd = some
        (((i.port.take (k + 1 + a.config.delayCount.toNat)).reverse.take n).flatMap
          (emit a.config.channels)) ∧
      (a.config.delayCount.toNat < statesLen →
        cap.ring.newest a.config.delayCount.toNat = i.port.get ⟨k, h.triggers.lt⟩)

/-- nothing was read out since `SUMP_CNT`, and the ring does not reach back to the matching sample,
or that is the first one and equal to what the last slot held before -/
def CaptureCond (s : Session) (i : Input) : Prop :=
  ∀ a n k, (h : Asked s i a n k) →
    a.config.readCount.toNat = n ∧
      (statesLen ≤ a.config.delayCount.toNat ∨
        k = 0 ∧ a.ring.slot (statesLen - 1) = i.port.get ⟨k, h.triggers.lt⟩)

theorem handle_run {a : Analyser} {i : Input} (h : i.command = sumpRun) :
    handle a i = a.run i.port := by
  unfold handle
  rw [h]
  rfl

/-- the slot at the place of the matching sample holds it in this case only -/
theorem matching_slot_iff {a : Analyser} {port : List Sample} {k d : Nat}
    (h : Triggers a.config port k) (hd : k + d < port.length) (hr : d < statesLen) :
    (triggered a.rewound port k d (port.get ⟨k, h.lt⟩)).newest d = port.get ⟨k, h.lt⟩
      ↔ k = 0 ∧ a.ring.slot (statesLen - 1) = port.get ⟨k, h.lt⟩ := by
  rw [newest_of_trigger a.rewound _ hd hr]
  cases k with
  | zero =>
    have h0 : a.rewound.pushAll (port.take 0) = a.rewound := rfl
    rw [h0, newest_rewound]
    exact (and_iff_right rfl).symm
  | succ k =>
    rw [newest_before h.lt]
    constructor
    · -- the sample before the first match does not match
      intro heq
      have hk := h.first k (Nat.lt_succ_self k)
      have hhit : a.config.matches (port.get ⟨k + 1, h.lt⟩) = true := h.hit
      rw [heq, hhit] at hk
      exact absurd hk (by decide)
    · exact fun hk => absurd hk.1 (Nat.succ_ne_zero k)

theorem take_capture {port : List Sample} {k d : Nat} (hk : k + d < port.length) :
    port.take (k + 1 + d)
      = port.take k ++ port[k] :: (port.drop (k + 1)).take d := by
  rw [List.take_add, List.take_succ_eq_append_getElem (by omega), List.append_assoc]
  rfl

/-- with the matching sample in its slot, the ring is read back as the port gave it -/
theorem drain_triggered {r : Ring Sample statesLen} {port : List Sample} {k d n : Nat}
    (hd : k + d < port.length) (hn : n ≤ d + 1) (hr : n ≤ statesLen)
    (hslot : d < n → (triggered r port k d port[k]).newest d = port[k]) :
    (triggered r port k d port[k]).drain n = (port.take (k + 1 + d)).reverse.take n := by
  have hlen : ((port.drop (k + 1)).take d).reverse.length = d := by
    rw [List.length_reverse, List.length_take, List.length_drop]
    omega
  apply List.ext_getElem?
  intro j
  by_cases hj : j < n
  · rw [Ring.drain_getElem? n _ hj, List.getElem?_take_of_lt hj, take_capture hd,
      List.reverse_append, List.reverse_cons, List.append_assoc]
    by_cases hjd : j < d
    · -- a delayed sample
      have hjl : j < ((port.drop (k + 1)).take d).reverse.length := by rw [hlen]; exact hjd
      rw [List.getElem?_append_left hjl, List.getElem?_eq_getElem hjl]
      unfold triggered
      rw [Ring.newest_pushAll _ _ (by omega), List.getElem?_eq_getElem hjl]
      rfl
    · obtain rfl : j = d := by omega
      rw [hslot hj, List.getElem?_append_right (by rw [hlen]), hlen, Nat.sub_self]
      rfl
  · rw [List.getElem?_eq_none (by rw [Ring.drain_length]; omega),
      List.getElem?_eq_none (by rw [List.length_take]; omega)]

theorem captureLaw_iff (s : Session) (i : Input) : CaptureLaw s i ↔ CaptureCond s i := by
  unfold CaptureLaw CaptureCond
  refine forall_congr' fun a => forall_congr' fun n => forall_congr' fun k =>
    forall_congr' fun h => ?_
  have hcap := capture_eq h.triggers h.enough
  have hsent := run_eq hcap
  rw [← handle_run h.run] at hsent
  constructor
  · rintro ⟨cap, hc, -, hout, hslot⟩
    obtain rfl := Option.some.inj (hcap.symm.trans hc)
    have hcount := sent_count h.channels (Option.some.inj (hsent.symm.trans hout))
    rw [Ring.drain_length, List.length_take, List.length_reverse, List.length_take] at hcount
    have hle := h.le_captured
    have hen := h.enough
    refine ⟨by omega, ?_⟩
    by_cases hd : statesLen ≤ a.config.delayCount.toNat
    · exact Or.inl hd
    · right
      exact (matching_slot_iff h.triggers h.enough (Nat.lt_of_not_le hd)).mp
        (hslot (Nat.lt_of_not_le hd))
  · rintro ⟨hcount, hcase⟩
    have hle := h.le_captured
    have hring := h.le_ring
    have hslot : a.config.delayCount.toNat < statesLen →
        (triggered a.rewound i.port k a.config.delayCount.toNat (i.port.get ⟨k, h.triggers.lt⟩)).newest
          a.config.delayCount.toNat = i.port.get ⟨k, h.triggers.lt⟩ := by
      intro hd
      apply (matching_slot_iff h.triggers h.enough hd).mpr
      exact hcase.resolve_left (Nat.not_le.mpr hd)
    have hn : n ≤ a.config.delayCount.toNat + 1 := by
      rcases hcase with hd | ⟨rfl, -⟩ <;> omega
    refine ⟨_, hcap, rfl, ?_, hslot⟩
    rw [hsent, hcount]
    exact congrArg (fun l => some (l.flatMap (emit a.config.channels)))
      (drain_triggered h.enough hn hring fun hlt => hslot (by omega))

/-- **The capture law.**  A session keeps it exactly when each of its runs meets the condition. -/
theorem stepsOk_capture_iff (s : Session) (is : List Input) :
    StepsOk CaptureLaw Session.step s is ↔ StepsOk CaptureCond Session.step s is :=
  stepsOk_congr captureLaw_iff

/-- a run spends the count: the next one asked for `n` samples without a new `SUMP_CNT` fails -/
theorem second_run {s : Session} {i j : Input} {a : Analyser} {n k : Nat}
    (hi : i.command = sumpRun) (h : Asked (s.step i) j a n k) (hn : 0 < n) :
    ¬ CaptureLaw (s.step i) j := by
  intro hlaw
  obtain ⟨hcount, -⟩ := (captureLaw_iff _ _).mp hlaw a n k h
  have hspent : a.config.readCount = 0 := by
    obtain ⟨out, hb, rfl⟩ := Option.map_eq_some_iff.mp h.analyser
    obtain ⟨b, -, hout⟩ := Option.bind_eq_some_iff.mp hb
    rw [handle_run hi] at hout
    obtain ⟨cap, -, hrun⟩ := Option.bind_eq_some_iff.mp hout
    obtain rfl := Option.some.inj hrun
    rfl
  rw [hspent] at hcount
  exact absurd hcount (Nat.ne_of_lt hn)

/-! ## a run that misses its trigger -/

/-- the start of `sump` with everything cleared -/
def listening : Session where
  analyser := some
    { config :=
        { triggerMasks := fun _ => 0, triggerValues := fun _ => 0, readCount := 0, delayCount := 0
          divider := 0, state := .idle, channels := 0 }
      ring := ⟨fun _ => 0, 0, statesLen_pos⟩ }
  asked := none

def Input.set (command : Byte) (p : Parameters) : Input := ⟨command, some p, []⟩

/-- four samples, none of them delayed, of the first group, from the first odd sample on -/
def triggerOnOne : List Input :=
  [.set sumpCnt fun _ => 0, .set sumpFlags fun _ => 0xFB,
    .set 0xc0 fun i => if i.val = 0 then 1 else 0, .set 0xc1 fun i => if i.val = 0 then 1 else 0]

def triggering : Analyser :=
  (run Session.step listening triggerOnOne).analyser.get (by decide)

def oddAtFour : Input := ⟨sumpRun, none, [0, 0, 0, 0, 1]⟩

/-- the bytes sent are four zeros: the odd sample is not among them -/
theorem run_misses_trigger :
    ¬ StepsOk CaptureLaw Session.step listening (triggerOnOne ++ [oddAtFour]) := by
  intro h
  have hlast := (captureLaw_iff _ _).mp (StepsOk.last h).2
  have hask : Asked (run Session.step listening triggerOnOne) oddAtFour triggering 4 4 :=
    { analyser := (Option.some_get _).symm
      asked := ⟨4, by decide, by decide⟩
      run := rfl
      triggers := ⟨by decide, by decide, by decide⟩
      enough := by decide
      channels := by decide
      le_ring := by decide
      le_captured := by decide }
  obtain ⟨-, hge | ⟨h0, -⟩⟩ := hlast _ 4 4 hask
  · exact absurd hge (by decide)
  · exact absurd h0 (by decide)

end Sump
end Hydra
