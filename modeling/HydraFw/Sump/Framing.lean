import HydraFw.Sump.Analyser

/-!
# The command bytes of the analyser

The loop of `sump` reads one command byte and, for what it does not know as a short command, four
bytes more.

* `Loop`, `Event`, `step`   the loop, byte by byte;
* `Stored`                  what a command with parameters leaves in the configuration;
* `InFrame`                 what the protocol asks of a byte: below `0x80` no parameters, from
                            `0x80` four, stored where the opcode says;
* `framing_iff`             the loop keeps to it exactly when every command below `0x80` is one it
                            knows and every divider is below `1638400`.
-/

namespace Hydra
namespace Sump
open Runs

/-- the cases of the first switch -/
def shortCommands : List Byte := [sumpReset, sumpId, sumpRun, sumpDesc, sumpXon, sumpXoff]

inductive Frame where
  | idle
  /-- `chnRead` waits for the parameters of a command -/
  | parameters (command : Byte) (received : List Byte)
  /-- `SUMP_RUN` waits for its samples -/
  | capturing

structure Loop where
  analyser : Analyser
  frame : Frame

inductive Event where
  /-- a byte from the host, and the port from then on -/
  | byte (b : Byte) (port : List Sample)
  /-- the channel is reset, and a read ends short -/
  | hangup

/-- `sump_parameters` -/
def sumpParameters (received : List Byte) : Parameters := fun k => received.getD k.val 0

def carryOut (a : Analyser) (i : Input) : Loop :=
  match handle a i with
  | some r => ⟨r.1, .idle⟩
  | none => ⟨a, .capturing⟩

def command (a : Analyser) (b : Byte) (port : List Sample) : Loop :=
  if shortCommands.contains b then carryOut a ⟨b, none, port⟩ else ⟨a, .parameters b []⟩

def parameter (a : Analyser) (c : Byte) (received : List Byte) (port : List Sample) : Loop :=
  if received.length = 4 then carryOut a ⟨c, some (sumpParameters received), port⟩
  else ⟨a, .parameters c received⟩

def step (s : Loop) (e : Event) : Loop :=
  match s.frame, e with
  | .idle, .byte b port => command s.analyser b port
  | .parameters c received, .byte b port => parameter s.analyser c (received ++ [b]) port
  | .parameters c _, .hangup => carryOut s.analyser ⟨c, none, []⟩
  | .idle, .hangup => s
  | .capturing, _ => s

/-- `tim_set_prescaler`, and the prescaler that `bsp_tim_set_prescaler` programs -/
def Config.prescaler (c : Config) : BitVec 32 := 2 * c.divider - 1

/-! ## the protocol -/

/-- the parameters are stored low byte first in the field that the opcode names, and nothing else
changes -/
structure Stored (c : Byte) (p : Parameters) (old new : Config) : Prop where
  masks : ∀ k : Fin 4, new.triggerMasks k = if c.toNat = 0xc0 + 4 * k.val
    then BitVec.ofNat 32 (p.low16 + 2 ^ 16 * p.high16) else old.triggerMasks k
  values : ∀ k : Fin 4, new.triggerValues k = if c.toNat = 0xc1 + 4 * k.val
    then BitVec.ofNat 32 (p.low16 + 2 ^ 16 * p.high16) else old.triggerValues k
  readCount : new.readCount = if c = sumpCnt
    then BitVec.ofNat 32 ((p.low16 + 1) * 4) else old.readCount
  delayCount : new.delayCount = if c = sumpCnt
    then BitVec.ofNat 32 (p.high16 * 4) else old.delayCount
  divider : new.divider = if c = sumpDiv
    then BitVec.ofNat 32 (p.low24 / 50 + 1) else old.divider
  channels : new.channels = if c = sumpFlags then p.channels else old.channels
  state : new.state = old.state

/-- the prescaler register has sixteen bits -/
def Fits (c : Config) : Prop := c.prescaler.toNat ≤ 0xffff

/-- what a byte of the host does -/
def InFrame (s : Loop) (e : Event) : Prop :=
  match s.frame, e with
  | .idle, .byte b _ =>
    if b.toNat < 0x80 then
      (∀ c received, (step s e).frame ≠ .parameters c received) ∧
        (b ∉ shortCommands → step s e = s)
    else step s e = ⟨s.analyser, .parameters b []⟩
  | .parameters c received, .byte b _ =>
    if received.length < 3 then step s e = ⟨s.analyser, .parameters c (received ++ [b])⟩
    else (step s e).frame = .idle ∧ (step s e).analyser.ring = s.analyser.ring ∧
      Stored c (sumpParameters (received ++ [b])) s.analyser.config (step s e).analyser.config ∧
      (c = sumpDiv → Fits (step s e).analyser.config)
  | .parameters _ _, .hangup => step s e = ⟨s.analyser, .idle⟩
  | .idle, .hangup => step s e = s
  | .capturing, _ => True

/-- the commands that the loop takes as the protocol means them -/
def Known (s : Loop) (e : Event) : Prop :=
  match s.frame, e with
  | .idle, .byte b _ => b.toNat < 0x80 → b ∈ shortCommands
  | .parameters c received, .byte b _ =>
    received.length = 3 → c = sumpDiv → (sumpParameters (received ++ [b])).low24 < 1638400
  | _, _ => True

/-! ## parameters as numbers -/

theorem toNat_word {high low : BitVec 32} (hh : high.toNat < 2 ^ 24) (hl : low.toNat < 2 ^ 8) :
    (word high low).toNat = 2 ^ 8 * high.toNat + low.toNat := by
  have hshift : (high <<< 8).toNat = 2 ^ 8 * high.toNat := by
    rw [BitVec.toNat_shiftLeft, Nat.shiftLeft_eq, Nat.mul_comm]
    omega
  rw [word, BitVec.toNat_or, hshift, Nat.two_pow_add_eq_or_of_lt hl]

theorem toNat_byte (b : Byte) : (b.setWidth 32).toNat = b.toNat := by
  have hb := b.isLt
  rw [BitVec.toNat_setWidth]
  omega

section
variable (p : Parameters)

theorem toNat_word2 (high low : Byte) :
    (word (high.setWidth 32) (low.setWidth 32)).toNat = low.toNat + 2 ^ 8 * high.toNat := by
  have hh := high.isLt
  have hl := low.isLt
  rw [toNat_word (by rw [toNat_byte]; omega) (by rw [toNat_byte]; omega), toNat_byte, toNat_byte,
    Nat.add_comm]

theorem toNat_word3 (high mid low : Byte) :
    (word (word (high.setWidth 32) (mid.setWidth 32)) (low.setWidth 32)).toNat
      = low.toNat + 2 ^ 8 * mid.toNat + 2 ^ 16 * high.toNat := by
  have hh := high.isLt
  have hm := mid.isLt
  have hl := low.isLt
  rw [toNat_word (by rw [toNat_word2]; omega) (by rw [toNat_byte]; omega), toNat_word2, toNat_byte]
  omega

theorem word32_eq : p.word32 = BitVec.ofNat 32 (p.low16 + 2 ^ 16 * p.high16) := by
  have h0 := (p 0).isLt
  have h1 := (p 1).isLt
  have h2 := (p 2).isLt
  have h3 := (p 3).isLt
  apply BitVec.eq_of_toNat_eq
  rw [Parameters.word32, toNat_word (by rw [toNat_word3]; omega) (by rw [toNat_byte]; omega),
    toNat_word3, toNat_byte, BitVec.toNat_ofNat, Parameters.low16, Parameters.high16]
  omega

theorem delayCount_eq : p.delayCount = BitVec.ofNat 32 (p.high16 * 4) := by
  have h2 := (p 2).isLt
  have h3 := (p 3).isLt
  apply BitVec.eq_of_toNat_eq
  rw [Parameters.delayCount, BitVec.toNat_shiftLeft, toNat_word2, Nat.shiftLeft_eq,
    BitVec.toNat_ofNat]
  rfl

theorem readCount_eq : p.readCount = BitVec.ofNat 32 ((p.low16 + 1) * 4) := by
  have h0 := (p 0).isLt
  have h1 := (p 1).isLt
  apply BitVec.eq_of_toNat_eq
  rw [Parameters.readCount, BitVec.toNat_shiftLeft, BitVec.toNat_add, toNat_word2,
    Nat.shiftLeft_eq, BitVec.toNat_ofNat, Parameters.low16]
  show ((p 0).toNat + 2 ^ 8 * (p 1).toNat + 1) % 2 ^ 32 * 4 % 2 ^ 32 = _
  omega

theorem low24_lt : p.low24 < 2 ^ 24 := by
  have h0 := (p 0).isLt
  have h1 := (p 1).isLt
  have h2 := (p 2).isLt
  rw [Parameters.low24, Parameters.low16]
  omega

theorem toNat_divider : p.divider.toNat = p.low24 / 50 + 1 := by
  have hlt := low24_lt p
  have h3 := toNat_word3 (p 2) (p 1) (p 0)
  rw [← Parameters.low16, ← Parameters.low24] at h3
  rw [Parameters.divider, BitVec.toNat_add, BitVec.toNat_udiv, h3]
  show (p.low24 / 50 + 1) % 2 ^ 32 = _
  omega

theorem divider_eq : p.divider = BitVec.ofNat 32 (p.low24 / 50 + 1) := by
  have hlt := low24_lt p
  apply BitVec.eq_of_toNat_eq
  rw [toNat_divider, BitVec.toNat_ofNat]
  omega

end

/-! ## the field that an opcode names -/

theorem trig_iff (c : Byte) (k : Fin 4) :
    (c ∈ sumpTrig ∧ trigIndex c = k) ↔ c.toNat = 0xc0 + 4 * k.val := by
  constructor
  · rintro ⟨hc, rfl⟩
    simp only [sumpTrig, List.mem_cons, List.not_mem_nil, or_false] at hc
    rcases hc with rfl | rfl | rfl | rfl <;> rfl
  · intro hc
    obtain rfl : c = BitVec.ofNat 8 (0xc0 + 4 * k.val) := by
      rw [← hc, BitVec.ofNat_toNat, BitVec.setWidth_eq]
    clear hc
    revert k
    decide

theorem trigVals_iff (c : Byte) (k : Fin 4) :
    (c ∈ sumpTrigVals ∧ trigIndex c = k) ↔ c.toNat = 0xc1 + 4 * k.val := by
  constructor
  · rintro ⟨hc, rfl⟩
    simp only [sumpTrigVals, List.mem_cons, List.not_mem_nil, or_false] at hc
    rcases hc with rfl | rfl | rfl | rfl <;> rfl
  · intro hc
    obtain rfl : c = BitVec.ofNat 8 (0xc1 + 4 * k.val) := by
      rw [← hc, BitVec.ofNat_toNat, BitVec.setWidth_eq]
    clear hc
    revert k
    decide

theorem update_stage {α : Type} (f : Fin 4 → α) (i k : Fin 4) (a : α) :
    Function.update f i a k = if i = k then a else f k := by
  by_cases hk : i = k
  · subst hk
    rw [Function.update_self, if_pos rfl]
  · rw [Function.update_of_ne (Ne.symm hk), if_neg hk]

/-- a command with parameters stores them as the protocol has it -/
theorem stored_set (c : Byte) (p : Parameters) (old : Config) : Stored c p old (old.set c p) := by
  have hmask : ∀ k : Fin 4, c ∉ sumpTrig → ¬ c.toNat = 0xc0 + 4 * k.val := fun k hc heq =>
    hc ((trig_iff c k).mpr heq).1
  have hvalue : ∀ k : Fin 4, c ∉ sumpTrigVals → ¬ c.toNat = 0xc1 + 4 * k.val := fun k hc heq =>
    hc ((trigVals_iff c k).mpr heq).1
  rw [Config.set]
  by_cases hT : c ∈ sumpTrig
  · have hother : ∀ b, b ∉ sumpTrig → ¬ c = b := fun b hb heq => hb (heq ▸ hT)
    have hn := (trig_iff c _).mp ⟨hT, rfl⟩
    rw [if_pos hT]
    refine ⟨fun k => ?_, fun k => (if_neg (by omega)).symm, (if_neg (hother _ (by decide))).symm,
      (if_neg (hother _ (by decide))).symm, (if_neg (hother _ (by decide))).symm,
      (if_neg (hother _ (by decide))).symm, rfl⟩
    show Function.update old.triggerMasks (trigIndex c) p.word32 k = _
    rw [update_stage, word32_eq]
    exact if_congr ⟨fun h => (trig_iff c k).mp ⟨hT, h⟩, fun h => ((trig_iff c k).mpr h).2⟩ rfl rfl
  · rw [if_neg hT]
    by_cases hV : c ∈ sumpTrigVals
    · have hother : ∀ b, b ∉ sumpTrigVals → ¬ c = b := fun b hb heq => hb (heq ▸ hV)
      rw [if_pos hV]
      refine ⟨fun k => (if_neg (hmask k hT)).symm, fun k => ?_,
        (if_neg (hother _ (by decide))).symm, (if_neg (hother _ (by decide))).symm,
        (if_neg (hother _ (by decide))).symm, (if_neg (hother _ (by decide))).symm, rfl⟩
      show Function.update old.triggerValues (trigIndex c) p.word32 k = _
      rw [update_stage, word32_eq]
      exact if_congr ⟨fun h => (trigVals_iff c k).mp ⟨hV, h⟩,
        fun h => ((trigVals_iff c k).mpr h).2⟩ rfl rfl
    · rw [if_neg hV]
      have hmasks : ∀ (k : Fin 4) (new : BitVec 32), old.triggerMasks k =
          if c.toNat = 0xc0 + 4 * k.val then new else old.triggerMasks k := fun k _ =>
        (if_neg (hmask k hT)).symm
      have hvalues : ∀ (k : Fin 4) (new : BitVec 32), old.triggerValues k =
          if c.toNat = 0xc1 + 4 * k.val then new else old.triggerValues k := fun k _ =>
        (if_neg (hvalue k hV)).symm
      by_cases hcnt : c = sumpCnt
      · subst hcnt
        exact ⟨fun k => hmasks k _, fun k => hvalues k _, readCount_eq p, delayCount_eq p, rfl, rfl, rfl⟩
      · rw [if_neg hcnt]
        by_cases hdiv : c = sumpDiv
        · subst hdiv
          exact ⟨fun k => hmasks k _, fun k => hvalues k _, rfl, rfl, divider_eq p, rfl, rfl⟩
        · rw [if_neg hdiv]
          by_cases hflags : c = sumpFlags
          · subst hflags
            exact ⟨fun k => hmasks k _, fun k => hvalues k _, rfl, rfl, rfl, rfl, rfl⟩
          · rw [if_neg hflags]
            exact ⟨fun k => hmasks k _, fun k => hvalues k _, (if_neg hcnt).symm, (if_neg hcnt).symm,
              (if_neg hdiv).symm, (if_neg hflags).symm, rfl⟩

/-- the dividers whose prescaler fits the register -/
theorem fits_div_iff (p : Parameters) (old : Config) :
    Fits (old.set sumpDiv p) ↔ p.low24 < 1638400 := by
  have hlt := low24_lt p
  have hset : (old.set sumpDiv p).divider = p.divider := rfl
  rw [Fits, Config.prescaler, hset, BitVec.toNat_sub, BitVec.toNat_mul, toNat_divider]
  show (2 ^ 32 - 1 + 2 * (p.low24 / 50 + 1) % 2 ^ 32) % 2 ^ 32 ≤ 0xffff ↔ _
  omega

/-! ## the loop -/

theorem handle_parameters {c : Byte} (hc : c ∉ shortCommands) (a : Analyser) (p : Parameters)
    (port : List Sample) :
    handle a ⟨c, some p, port⟩ = some ({ a with config := a.config.set c p }, []) := by
  simp only [shortCommands, List.mem_cons, List.not_mem_nil, or_false, not_or] at hc
  obtain ⟨h1, h2, h3, h4, h5, h6⟩ := hc
  simp only [handle, h1, h2, h3, h4, h5, h6, if_false, or_self]

theorem handle_hangup {c : Byte} (hc : c ∉ shortCommands) (a : Analyser) (port : List Sample) :
    handle a ⟨c, none, port⟩ = some (a, []) := by
  simp only [shortCommands, List.mem_cons, List.not_mem_nil, or_false, not_or] at hc
  obtain ⟨h1, h2, h3, h4, h5, h6⟩ := hc
  simp only [handle, h1, h2, h3, h4, h5, h6, if_false, or_self]

section
variable {a : Analyser} {b : Byte} {port : List Sample}

theorem command_short (h : b ∈ shortCommands) : command a b port = carryOut a ⟨b, none, port⟩ :=
  if_pos (List.contains_iff_mem.mpr h)

theorem command_long (h : b ∉ shortCommands) : command a b port = ⟨a, .parameters b []⟩ :=
  if_neg fun hb => h (List.contains_iff_mem.mp hb)

end

theorem carryOut_frame (a : Analyser) (i : Input) (c : Byte) (received : List Byte) :
    (carryOut a i).frame ≠ .parameters c received := by
  rw [carryOut]
  cases handle a i with
  | none => exact nofun
  | some r => exact nofun

/-- only the other commands wait for parameters, and for four of them -/
def Inv (s : Loop) : Prop :=
  ∀ c received, s.frame = .parameters c received → c ∉ shortCommands ∧ received.length < 4

theorem Inv.step {s : Loop} (h : Inv s) (e : Event) : Inv (step s e) := by
  obtain ⟨a, frame⟩ := s
  cases frame with
  | idle =>
    cases e with
    | hangup => exact h
    | byte b port =>
      intro c received heq
      by_cases hb : b ∈ shortCommands
      · have hshort : Sump.step ⟨a, .idle⟩ (.byte b port) = carryOut a ⟨b, none, port⟩ :=
          command_short hb
        rw [hshort] at heq
        exact absurd heq (carryOut_frame a _ c received)
      · have hlong : Sump.step ⟨a, .idle⟩ (.byte b port) = ⟨a, .parameters b []⟩ :=
          command_long hb
        rw [hlong] at heq
        cases heq
        exact ⟨hb, by decide⟩
  | parameters c received =>
    obtain ⟨hc, hlen⟩ := h c received rfl
    cases e with
    | hangup =>
      intro c' received' heq
      exact absurd heq (carryOut_frame a _ c' received')
    | byte b port =>
      intro c' received' heq
      by_cases hfull : (received ++ [b]).length = 4
      · have hstep : Sump.step ⟨a, .parameters c received⟩ (.byte b port)
            = carryOut a ⟨c, some (sumpParameters (received ++ [b])), port⟩ := if_pos hfull
        rw [hstep] at heq
        exact absurd heq (carryOut_frame a _ c' received')
      · have hstep : Sump.step ⟨a, .parameters c received⟩ (.byte b port)
            = ⟨a, .parameters c (received ++ [b])⟩ := if_neg hfull
        rw [hstep] at heq
        cases heq
        rw [List.length_append, List.length_singleton] at hfull ⊢
        exact ⟨hc, by omega⟩
  | capturing => exact h

theorem short_lt {b : Byte} (hb : b ∈ shortCommands) : b.toNat < 0x80 := by
  simp only [shortCommands, List.mem_cons, List.not_mem_nil, or_false] at hb
  rcases hb with rfl | rfl | rfl | rfl | rfl | rfl <;> decide

/-- a command byte -/
theorem command_iff (a : Analyser) (b : Byte) (port : List Sample) :
    InFrame ⟨a, .idle⟩ (.byte b port) ↔ Known ⟨a, .idle⟩ (.byte b port) := by
  show (if b.toNat < 0x80 then _ else command a b port = _) ↔ (b.toNat < 0x80 → b ∈ shortCommands)
  by_cases hlt : b.toNat < 0x80
  · rw [if_pos hlt]
    constructor
    · rintro ⟨hnone, -⟩ -
      by_contra hb
      exact hnone b [] (by show (command a b port).frame = _; rw [command_long hb])
    · intro hb
      refine ⟨fun c received => ?_, fun hnot => absurd (hb hlt) hnot⟩
      show (command a b port).frame ≠ _
      rw [command_short (hb hlt)]
      exact carryOut_frame a _ c received
  · have hlong : b ∉ shortCommands := fun hb => hlt (short_lt hb)
    rw [if_neg hlt, command_long hlong]
    exact ⟨fun _ h => absurd h hlt, fun _ => rfl⟩

/-- a parameter -/
theorem parameter_iff {c : Byte} {received : List Byte} (hc : c ∉ shortCommands)
    (hlen : received.length < 4) (a : Analyser) (b : Byte) (port : List Sample) :
    InFrame ⟨a, .parameters c received⟩ (.byte b port) ↔
      Known ⟨a, .parameters c received⟩ (.byte b port) := by
  obtain ⟨p, hp⟩ : ∃ p, p = sumpParameters (received ++ [b]) := ⟨_, rfl⟩
  show (if received.length < 3 then parameter a c (received ++ [b]) port = _ else _) ↔
    (received.length = 3 → c = sumpDiv → (sumpParameters (received ++ [b])).low24 < 1638400)
  by_cases hmore : received.length < 3
  · rw [if_pos hmore, parameter, if_neg (by rw [List.length_append, List.length_singleton]; omega)]
    exact ⟨fun _ h => by omega, fun _ => rfl⟩
  · have hlast : step ⟨a, .parameters c received⟩ (.byte b port)
        = ⟨{ a with config := a.config.set c p }, .idle⟩ := by
      show parameter a c (received ++ [b]) port = _
      rw [parameter, if_pos (by rw [List.length_append, List.length_singleton]; omega), carryOut,
        ← hp, handle_parameters hc]
    rw [if_neg hmore, hlast, ← hp]
    constructor
    · rintro ⟨-, -, -, hfits⟩ - rfl
      exact (fits_div_iff p a.config).mp (hfits rfl)
    · intro hdiv
      refine ⟨rfl, rfl, stored_set c p a.config, ?_⟩
      rintro rfl
      exact (fits_div_iff p a.config).mpr (hdiv (by omega) rfl)

/-- a single byte -/
theorem Inv.inFrame_iff {s : Loop} (h : Inv s) (e : Event) : InFrame s e ↔ Known s e := by
  obtain ⟨a, frame⟩ := s
  cases frame with
  | idle =>
    cases e with
    | byte b port => exact command_iff a b port
    | hangup => exact ⟨fun _ => trivial, fun _ => rfl⟩
  | parameters c received =>
    obtain ⟨hc, hlen⟩ := h c received rfl
    cases e with
    | byte b port => exact parameter_iff hc hlen a b port
    | hangup =>
      refine ⟨fun _ => trivial, fun _ => ?_⟩
      show carryOut a ⟨c, none, []⟩ = _
      rw [carryOut, handle_hangup hc]
  | capturing => exact ⟨fun _ => by cases e <;> trivial, fun _ => by cases e <;> trivial⟩

/-- **The framing.**  The loop keeps to the protocol on a stream exactly when every command below
`0x80` in it is one it knows and every divider is small enough. -/
theorem framing_iff (a : Analyser) (stream : List Event) :
    StepsOk InFrame step ⟨a, .idle⟩ stream ↔ StepsOk Known step ⟨a, .idle⟩ stream := by
  have hinit : Inv ⟨a, .idle⟩ := nofun
  constructor
  · exact StepsOk.mono (I := Inv) (fun _ e h _ => h.step e) (fun _ e h => (h.inFrame_iff e).mp) hinit
  · exact StepsOk.mono (I := Inv) (fun _ e h _ => h.step e) (fun _ e h => (h.inFrame_iff e).mpr)
      hinit

/-- an analyser that has just been entered -/
def entered : Analyser where
  config := ⟨fun _ => 0, fun _ => 0, 0, 0, 0, .idle, 0⟩
  ring := ⟨fun _ => 0, 0, statesLen_pos⟩

/-- the byte 3 takes parameters -/
theorem unknown_takes_parameters :
    ¬ ∀ a stream, StepsOk InFrame step ⟨a, .idle⟩ stream := by
  intro hall
  exact (hall entered [.byte 0x03 []]).1.1 0x03 [] rfl

end Sump
end Hydra
