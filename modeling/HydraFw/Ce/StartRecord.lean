import HydraFw.Ce.Session

/-!
# The start record, encoded and decoded

`hydranfc_ce_common` patches its record of TLVs at fixed offsets, `ceStart` finds them from their
lengths.  `start_decodes`: for every well-formed `user_tag_properties` the two agree.

* `startReads`    the bytes of the record that `ceStart` reads, and `rfalListenStart` behind it;
* `WellSet`       the lengths of UID and SAK;
* `Decoded`       the configuration is what the user has set;
* `startCmd_eq`   the record, with UID, ATQA and SAK in their places.
-/

namespace Hydra

/-! ## what the decoder reads -/

/-- `offset` when the loop looks at TLV `i` -/
def startOffset (rxData : List UInt8) : Nat → Nat
  | 0 => 1
  | i + 1 => (config rxData i).2

/-- offsets and lengths: the mode, the four lengths, the configurations that are there, the ATS -/
def startReads (rxData : List UInt8) : List (Nat × Nat) :=
  (0, 1) :: (List.range 4).map (fun i => (i * 2 + 1 + startOffset rxData i, 1)) ++
    ([(0, 14), (1, 13), (2, 21)].filterMap fun (i, n) => (config rxData i).1.map fun p => (p, n)) ++
    match (config rxData 3).1 with
    | some p => [(p, 5), (p + 5, (startAts rxData).hbLen.toNat)]
    | none => []

/-! ## the configuration -/

/-- `rfalLmConfPA` -/
def Ce.nfcidLen (ce : Ce) : UInt8 := ce.configA.getD 0 0
def Ce.nfcid (ce : Ce) : List UInt8 := (ce.configA.drop 1).take 10
def Ce.sensRes (ce : Ce) : List UInt8 := (ce.configA.drop 11).take 2
def Ce.selRes (ce : Ce) : UInt8 := ce.configA.getD 13 0

/-- the UID length of the bits 7 and 8 of the first byte of SENS_RES -/
def uidSize (sensRes : List UInt8) : Option UInt8 :=
  match (sensRes.headD 0).toNat / 64 with
  | 0 => some 4
  | 1 => some 7
  | 2 => some 10
  | _ => none

structure WellSet (u : UserTagProperties) : Prop where
  uid : u.uid.length = 0 ∨ u.uid.length = 4 ∨ u.uid.length = 7
  sak : u.sak.length = 0 ∨ u.sak.length = 1

/-- the UID and SAK of a user who has set none -/
def uidDefault : List UInt8 := [0x02, 0x11, 0x22, 0x33, 0x44, 0x55, 0x66]
def sakDefault : UInt8 := 0x20

def UserTagProperties.uidOrDefault (u : UserTagProperties) : List UInt8 :=
  if u.uid.length = 0 then uidDefault else u.uid

def UserTagProperties.sakOrDefault (u : UserTagProperties) : UInt8 := u.sak.headD sakDefault

/-- `RFAL_LM_MASK_NFCA` -/
def maskNfca : Nat := 2 ^ 10

structure Decoded (u : UserTagProperties) (ce : Ce) : Prop where
  nfcidLen : ce.nfcidLen.toNat = u.uidOrDefault.length
  nfcid : ce.nfcid.take u.uidOrDefault.length = u.uidOrDefault
  selRes : ce.selRes = u.sakOrDefault
  uidSize : uidSize ce.sensRes = some ce.nfcidLen
  configMask : ce.configMask = maskNfca
  configB : ce.configB = List.replicate 13 0
  configF : ce.configF = List.replicate 21 0
  atsParam : ce.atsParam =
    { fsci := 0x08, fwi := 0x0A, sfgi := 0x00, ta := 0x00, hbLen := 0x02, hb := [0x73, 0x74] }

/-! ## the record -/

/-- the UID field of a UID of that length: its first bytes are the UID's -/
def uidField (u : UserTagProperties) : List UInt8 :=
  u.uid ++ [0x02, 0x11, 0x22, 0x33, 0x44, 0x55, 0x66, 0x00, 0x00, 0x00].drop u.uid.length

def record (len atqa sak : UInt8) (uid : List UInt8) : List UInt8 :=
  [0x01, 0x04, 0x0E, len] ++ uid ++
    [atqa, 0x00, sak, 0x04, 0x00, 0x04, 0x00, 0x04, 0x07, 0x08, 0x0A, 0x00, 0x00, 0x02, 0x73, 0x74]

theorem startCmd_eq {u : UserTagProperties} (h : WellSet u) :
    startCmd u = record (UInt8.ofNat u.uidOrDefault.length)
      (if u.uidOrDefault.length = 4 then 0x04 else 0x44) u.sakOrDefault (uidField u) := by
  obtain ⟨uid, sak, level4Enabled, l3, image⟩ := u
  obtain ⟨hu, hs⟩ := h
  dsimp only at hu hs
  have hsak : sak = [] ∨ ∃ s, sak = [s] := hs.imp List.eq_nil_of_length_eq_zero
    List.length_eq_one_iff.mp
  have huid : uid = [] ∨ (∃ a b c d, uid = [a, b, c, d]) ∨
      ∃ a b c d e f g, uid = [a, b, c, d, e, f, g] := by
    match uid, hu with
    | [], _ => exact Or.inl rfl
    | [a, b, c, d], _ => exact Or.inr (Or.inl ⟨a, b, c, d, rfl⟩)
    | [a, b, c, d, e, f, g], _ => exact Or.inr (Or.inr ⟨a, b, c, d, e, f, g, rfl⟩)
  rcases huid with rfl | ⟨a, b, c, d, rfl⟩ | ⟨a, b, c, d, e, f, g, rfl⟩ <;>
    rcases hsak with rfl | ⟨s, rfl⟩ <;> rfl

theorem uidField_length {u : UserTagProperties} (h : WellSet u) : (uidField u).length = 10 := by
  have hu := h.uid
  unfold uidField
  rw [List.length_append, List.length_drop]
  show u.uid.length + (10 - u.uid.length) = 10
  omega

theorem startCmd_length {u : UserTagProperties} (h : WellSet u) : (startCmd u).length = 30 := by
  rw [startCmd_eq h]
  show ([0x01, 0x04, 0x0E, _] ++ uidField u ++ _).length = 30
  rw [List.length_append, List.length_append, uidField_length h]
  rfl

/-! ## decoding it -/

section
variable (len atqa sak : UInt8) {uid : List UInt8}

/-- the first and the last TLV are there, the two between them are empty -/
theorem ceStart_record (ce : Ce) (h : uid.length = 10) :
    (ceStart ce (record len atqa sak uid)).configA = len :: uid ++ [atqa, 0x00, sak] ∧
    (ceStart ce (record len atqa sak uid)).configMask = maskNfca ∧
    (ceStart ce (record len atqa sak uid)).configB = List.replicate 13 0 ∧
    (ceStart ce (record len atqa sak uid)).configF = List.replicate 21 0 ∧
    (ceStart ce (record len atqa sak uid)).atsParam =
      { fsci := 0x08, fwi := 0x0A, sfgi := 0x00, ta := 0x00, hbLen := 0x02, hb := [0x73, 0x74] } := by
  match uid, h with
  | [_, _, _, _, _, _, _, _, _, _], _ => exact ⟨rfl, rfl, rfl, rfl, rfl⟩

theorem startReads_record (h : uid.length = 10) : startReads (record len atqa sak uid) =
    [(0, 1), (2, 1), (18, 1), (20, 1), (22, 1), (3, 14), (23, 5), (28, 2)] := by
  match uid, h with
  | [_, _, _, _, _, _, _, _, _, _], _ => rfl

end

theorem uidOrDefault_length {u : UserTagProperties} (h : WellSet u) :
    u.uidOrDefault.length = 4 ∨ u.uidOrDefault.length = 7 := by
  unfold UserTagProperties.uidOrDefault
  split_ifs with h0
  · exact Or.inr rfl
  · exact h.uid.resolve_left h0

theorem uidField_take {u : UserTagProperties} :
    (uidField u).take u.uidOrDefault.length = u.uidOrDefault := by
  unfold uidField UserTagProperties.uidOrDefault
  split_ifs with h0
  · rw [List.eq_nil_of_length_eq_zero h0]
    rfl
  · exact List.take_left' rfl

theorem uidSize_of_length {n : Nat} (h : n = 4 ∨ n = 7) :
    uidSize [if n = 4 then 0x04 else 0x44, 0x00] = some (UInt8.ofNat n) := by
  rcases h with rfl | rfl
  · decide
  · decide

/-- **Encoder and decoder agree**, and the decoder reads inside the record. -/
theorem start_decodes (ce : Ce) {u : UserTagProperties} (h : WellSet u) :
    Decoded u (ceStart ce (startCmd u)) ∧
      ∀ a ∈ startReads (startCmd u), a.1 + a.2 ≤ (startCmd u).length := by
  have hfield := uidField_length h
  constructor
  · rw [startCmd_eq h]
    obtain ⟨hA, hmask, hB, hF, hats⟩ := ceStart_record (UInt8.ofNat u.uidOrDefault.length)
      (if u.uidOrDefault.length = 4 then 0x04 else 0x44) u.sakOrDefault ce hfield
    refine ⟨?_, ?_, ?_, ?_, hmask, hB, hF, hats⟩
    · unfold Ce.nfcidLen
      rw [hA]
      show (UInt8.ofNat u.uidOrDefault.length).toNat = _
      rcases uidOrDefault_length h with hn | hn <;> rw [hn] <;> rfl
    · unfold Ce.nfcid
      rw [hA]
      show ((uidField u ++ _).take 10).take _ = _
      rw [List.take_left' hfield]
      exact uidField_take
    · unfold Ce.selRes
      rw [hA]
      match uidField u, hfield with
      | [_, _, _, _, _, _, _, _, _, _], _ => rfl
    · unfold Ce.sensRes Ce.nfcidLen
      rw [hA]
      match uidField u, hfield with
      | [_, _, _, _, _, _, _, _, _, _], _ => exact uidSize_of_length (uidOrDefault_length h)
  · rw [startCmd_length h, startCmd_eq h, startReads_record _ _ _ hfield]
    decide

/-- the Ultralight -/
theorem start_decodes_ultralight :
    Decoded ultralight (ceStart Ce.boot (startCmd ultralight)) ∧
      ∀ a ∈ startReads (startCmd ultralight), a.1 + a.2 ≤ (startCmd ultralight).length :=
  start_decodes Ce.boot ⟨by decide, by decide⟩

end Hydra
