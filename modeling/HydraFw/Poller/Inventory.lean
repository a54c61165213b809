import HydraFw.Poller.Scan

/-!
# What a scan finds

RFAL, asked for `n ≥ 1` devices, reports at most `n` of them; asked for none it may still report
one.  `gDevList` then keeps to its four entries exactly when all lists together do.

* `Limited`      the promise of RFAL;
* `Scan.entries` technology and device of the entries below `gDevCnt`;
* `Inventory`    what a scan owes: the bound, the list and the activations;
* `Full`         the invariant of the blocks, `Over` an index behind the array.
-/

namespace Hydra
namespace Poller
open Runs

section
variable {δ ι : Type*}

structure Limited (r : Rfal δ ι) : Prop where
  le_limit : ∀ t n, 1 ≤ n → (r.resolution t n).2.length ≤ n
  le_one : ∀ t, (r.resolution t 0).2.length ≤ 1

def tag (x : Tech × List δ) : List (Tech × δ) := x.2.map fun d => (x.1, d)

/-- the reported devices, in the order of the reports -/
def Scan.found (s : Scan δ ι) : List (Tech × δ) := s.reported.flatMap tag

def Scan.entry (s : Scan δ ι) (k : Nat) : Tech × δ := ((s.gDevList k).type, (s.gDevList k).dev)

def Scan.entries (s : Scan δ ι) : List (Tech × δ) := (List.range s.gDevCnt).map s.entry

/-- the activation of an NFC-A device of type 4 is in its own entry -/
def Scan.Activated (r : Rfal δ ι) (s : Scan δ ι) : Prop :=
  ∀ k, k < s.gDevCnt → (s.gDevList k).type = .nfca → r.isT4T (s.gDevList k).dev = true →
    (s.gDevList k).isoDep = r.activation k

structure Inventory (r : Rfal δ ι) (s : Scan δ ι) : Prop where
  bound : s.gDevCnt ≤ rfalPollerDevices
  indices : ∀ i ∈ s.indices, i < rfalPollerDevices
  entries : s.entries = s.found.take rfalPollerDevices
  activated : s.Activated r

/-! ## the invariant -/

structure Full (r : Rfal δ ι) (s : Scan δ ι) : Prop where
  bound : s.gDevCnt ≤ rfalPollerDevices
  indices : ∀ i ∈ s.indices, i < rfalPollerDevices
  entries : s.entries = s.found
  activated : s.Activated r

def Over (s : Scan δ ι) : Prop := ∃ i ∈ s.indices, rfalPollerDevices ≤ i

theorem entries_length (s : Scan δ ι) : s.entries.length = s.gDevCnt := by simp [Scan.entries]

theorem Full.count {r : Rfal δ ι} {s : Scan δ ι} (h : Full r s) : s.found.length = s.gDevCnt := by
  rw [← h.entries, entries_length]

theorem Full.inventory {r : Rfal δ ι} {s : Scan δ ι} (h : Full r s) : Inventory r s where
  bound := h.bound
  indices := h.indices
  entries := by
    rw [h.entries, List.take_of_length_le (h.count.trans_le h.bound)]
  activated := h.activated

theorem Full.limit {r : Rfal δ ι} {s : Scan δ ι} (h : Full r s) :
    s.limit = rfalPollerDevices - s.gDevCnt := by
  have hb := h.bound
  unfold Scan.limit rfalPollerDevices at *
  omega

/-! ## one device -/

theorem collect_count {t : Tech} {s : Scan δ ι} {d : δ} (h : s.gDevCnt < rfalPollerDevices) :
    (s.collect t d).gDevCnt = s.gDevCnt + 1 :=
  Nat.mod_eq_of_lt (by unfold rfalPollerDevices at h; omega)

theorem collect_entry (t : Tech) (s : Scan δ ι) (d : δ) (k : Nat) :
    (s.collect t d).entry k = if k = s.gDevCnt then (t, d) else s.entry k := by
  unfold Scan.entry Scan.collect
  simp only [Function.update_apply]
  split <;> rfl

theorem collect_isoDep (t : Tech) (s : Scan δ ι) (d : δ) (k : Nat) :
    ((s.collect t d).gDevList k).isoDep = (s.gDevList k).isoDep := by
  unfold Scan.collect
  simp only [Function.update_apply]
  split
  · next h => rw [h]
  · rfl

theorem collect_entries {t : Tech} {s : Scan δ ι} {d : δ} (h : s.gDevCnt < rfalPollerDevices) :
    (s.collect t d).entries = s.entries ++ [(t, d)] := by
  unfold Scan.entries
  rw [collect_count h, List.range_succ, List.map_append, List.map_singleton, collect_entry,
    if_pos rfl]
  congr 1
  refine List.map_congr_left fun k hk => ?_
  rw [collect_entry, if_neg (Nat.ne_of_lt (List.mem_range.mp hk))]

/-- the parts of the invariant while a list is copied; `rest` is still to come -/
structure Copying (r : Rfal δ ι) (s : Scan δ ι) (t : Tech) (rest : List δ) : Prop where
  bound : s.gDevCnt + rest.length ≤ rfalPollerDevices
  indices : ∀ i ∈ s.indices, i < rfalPollerDevices
  entries : s.entries ++ tag (t, rest) = s.found
  activated : s.Activated r

theorem Copying.full {r : Rfal δ ι} {s : Scan δ ι} {t : Tech} (h : Copying r s t []) : Full r s where
  bound := h.bound
  indices := h.indices
  entries := by
    have he := h.entries
    rwa [show tag (t, ([] : List δ)) = [] from rfl, List.append_nil] at he
  activated := h.activated

theorem Full.copying {r : Rfal δ ι} {s : Scan δ ι} (h : Full r s) (t : Tech) {ds : List δ}
    (hb : s.gDevCnt + ds.length ≤ rfalPollerDevices) : Copying r (s.report t ds) t ds where
  bound := hb
  indices := h.indices
  entries := by
    have hfound : (s.report t ds).found = s.found ++ tag (t, ds) := by
      simp [Scan.found, Scan.report]
    rw [hfound, ← h.entries]
    rfl
  activated := h.activated

theorem Copying.collect {r : Rfal δ ι} {s : Scan δ ι} {t : Tech} (ht : t ≠ .nfca) {d : δ}
    {rest : List δ} (h : Copying r s t (d :: rest)) : Copying r (s.collect t d) t rest := by
  have hb := h.bound
  rw [List.length_cons] at hb
  have hlt : s.gDevCnt < rfalPollerDevices := by omega
  refine ⟨?_, ?_, ?_, ?_⟩
  · rw [collect_count hlt]
    omega
  · intro i hi
    rcases List.mem_append.mp hi with hi | hi
    · exact h.indices i hi
    · rw [List.mem_singleton.mp hi]
      exact hlt
  · rw [collect_entries hlt, List.append_assoc]
    exact h.entries
  · intro k hk htype hT4T
    rw [collect_count hlt] at hk
    have hentry := collect_entry t s d k
    by_cases hkc : k = s.gDevCnt
    · rw [if_pos hkc] at hentry
      exact absurd ((congrArg Prod.fst hentry).symm.trans htype) ht
    · rw [if_neg hkc] at hentry
      have h1 : ((s.collect t d).gDevList k).type = (s.gDevList k).type := congrArg Prod.fst hentry
      have h2 : ((s.collect t d).gDevList k).dev = (s.gDevList k).dev := congrArg Prod.snd hentry
      rw [collect_isoDep]
      rw [h1] at htype
      rw [h2] at hT4T
      exact h.activated k (by omega) htype hT4T

theorem Copying.foldl {r : Rfal δ ι} {t : Tech} (ht : t ≠ .nfca) {ds : List δ} {s : Scan δ ι}
    (h : Copying r s t ds) : Full r (ds.foldl (Scan.collect t) s) := by
  induction ds generalizing s with
  | nil => exact h.full
  | cons d ds ih => exact ih (h.collect ht)

/-! ## one NFC-A device -/

theorem activate_entry (r : Rfal δ ι) (s : Scan δ ι) (i k : Nat) :
    (s.activate r i).entry k = s.entry k := by
  unfold Scan.activate
  dsimp only
  split_ifs
  · simp only [Scan.entry, Function.update_apply]
    split
    · next h => rw [h]
    · rfl
  · rfl

theorem activate_count (r : Rfal δ ι) (s : Scan δ ι) (i : Nat) :
    (s.activate r i).gDevCnt = s.gDevCnt := by
  unfold Scan.activate
  dsimp only
  split_ifs <;> rfl

theorem activate_indices (r : Rfal δ ι) (s : Scan δ ι) (i : Nat) :
    (s.activate r i).indices = s.indices ++ [i] := by
  unfold Scan.activate
  dsimp only
  split_ifs <;> rfl

theorem activate_found (r : Rfal δ ι) (s : Scan δ ι) (i : Nat) :
    (s.activate r i).found = s.found := by
  unfold Scan.activate
  dsimp only
  split_ifs <;> rfl

theorem activate_isoDep (r : Rfal δ ι) (s : Scan δ ι) (i k : Nat) :
    ((s.activate r i).gDevList k).isoDep
      = if k = i ∧ r.isT4T (s.gDevList i).dev = true then r.activation i
        else (s.gDevList k).isoDep := by
  unfold Scan.activate
  dsimp only
  by_cases h4 : r.isT4T (s.gDevList i).dev = true
  · rw [if_pos h4]
    simp only [Function.update_apply]
    by_cases hk : k = i
    · rw [if_pos hk, if_pos ⟨hk, h4⟩]
    · rw [if_neg hk, if_neg fun h => hk h.1]
  · rw [if_neg h4, if_neg fun h => h4 h.2]

theorem activate_entries (r : Rfal δ ι) (s : Scan δ ι) (i : Nat) :
    (s.activate r i).entries = s.entries := by
  unfold Scan.entries
  rw [activate_count]
  exact List.map_congr_left fun k _ => activate_entry r s i k

/-- the local index of the loop is the place of the device, since NFC-A comes first -/
theorem Copying.collectA {r : Rfal δ ι} {s : Scan δ ι} {d : δ} {rest : List δ}
    (h : Copying r s .nfca (d :: rest)) :
    Copying r ((s.collect .nfca d).activate r s.gDevCnt) .nfca rest := by
  have hb := h.bound
  rw [List.length_cons] at hb
  have hlt : s.gDevCnt < rfalPollerDevices := by omega
  refine ⟨?_, ?_, ?_, ?_⟩
  · rw [activate_count, collect_count hlt]
    omega
  · intro i hi
    rw [activate_indices] at hi
    rcases List.mem_append.mp hi with hi | hi
    · rcases List.mem_append.mp hi with hi | hi
      · exact h.indices i hi
      · rw [List.mem_singleton.mp hi]
        exact hlt
    · rw [List.mem_singleton.mp hi]
      exact hlt
  · rw [activate_entries, activate_found, collect_entries hlt, List.append_assoc]
    exact h.entries
  · intro k hk htype hT4T
    rw [activate_count, collect_count hlt] at hk
    have hact := activate_entry r (s.collect .nfca d) s.gDevCnt k
    rw [show (((s.collect .nfca d).activate r s.gDevCnt).gDevList k).type
      = ((s.collect .nfca d).gDevList k).type from congrArg Prod.fst hact] at htype
    rw [show (((s.collect .nfca d).activate r s.gDevCnt).gDevList k).dev
      = ((s.collect .nfca d).gDevList k).dev from congrArg Prod.snd hact] at hT4T
    rw [activate_isoDep]
    by_cases hkc : k = s.gDevCnt
    · subst hkc
      rw [if_pos ⟨rfl, hT4T⟩]
    · have hentry := collect_entry .nfca s d k
      rw [if_neg hkc] at hentry
      rw [show ((s.collect .nfca d).gDevList k).type = (s.gDevList k).type
        from congrArg Prod.fst hentry] at htype
      rw [show ((s.collect .nfca d).gDevList k).dev = (s.gDevList k).dev
        from congrArg Prod.snd hentry] at hT4T
      rw [if_neg fun h => hkc h.1, collect_isoDep]
      exact h.activated k (by omega) htype hT4T

theorem Copying.foldlA {r : Rfal δ ι} {ds : List δ} {s : Scan δ ι} {i : Nat}
    (h : Copying r s .nfca ds) (hi : i = s.gDevCnt) : Full r (Scan.collectA r i s ds) := by
  induction ds generalizing s i with
  | nil => exact h.full
  | cons d ds ih =>
    have hb := h.bound
    rw [List.length_cons] at hb
    subst hi
    apply ih h.collectA
    rw [activate_count, collect_count (by omega)]

/-! ## the blocks -/

/-- an index behind the array was used, for more devices than it has entries -/
def Spilled (s : Scan δ ι) : Prop := Over s ∧ rfalPollerDevices < s.found.length

theorem foldl_indices (t : Tech) (ds : List δ) (s : Scan δ ι) :
    ∀ i ∈ s.indices, i ∈ (ds.foldl (Scan.collect t) s).indices := by
  induction ds generalizing s with
  | nil => exact fun _ h => h
  | cons d ds ih => exact fun i hi => ih (s.collect t d) i (List.mem_append_left _ hi)

theorem foldl_found (t : Tech) (ds : List δ) (s : Scan δ ι) :
    (ds.foldl (Scan.collect t) s).found = s.found := by
  induction ds generalizing s with
  | nil => rfl
  | cons d ds ih => exact (ih (s.collect t d)).trans rfl

theorem report_found (s : Scan δ ι) (t : Tech) (ds : List δ) :
    (s.report t ds).found = s.found ++ tag (t, ds) := by
  simp [Scan.found, Scan.report]

/-- the three ways of a block -/
theorem resolve_cases (r : Rfal δ ι) (t : Tech) (s : Scan δ ι) :
    s.resolve r t = s ∨
      ∃ ds, r.resolution t s.limit = (.errNone, ds) ∧
        s.resolve r t = ds.foldl (Scan.collect t) (s.report t ds) := by
  unfold Scan.resolve
  split_ifs
  · cases hr : r.resolution t s.limit with
    | mk err ds =>
      cases err with
      | errNone => exact Or.inr ⟨ds, rfl, rfl⟩
      | _ => exact Or.inl rfl
  · exact Or.inl rfl

theorem Spilled.resolve {r : Rfal δ ι} {t : Tech} {s : Scan δ ι} (h : Spilled s) :
    Spilled (s.resolve r t) := by
  rcases resolve_cases r t s with he | ⟨ds, -, he⟩
  · rw [he]
    exact h
  · obtain ⟨⟨i, hi, hge⟩, hlen⟩ := h
    rw [he]
    refine ⟨⟨i, foldl_indices t ds (s.report t ds) i hi, hge⟩, ?_⟩
    rw [foldl_found, report_found, List.length_append]
    omega

/-- a block keeps to the array, or the list was full and a device came on top -/
theorem Full.resolve {r : Rfal δ ι} (hr : Limited r) {t : Tech} (ht : t ≠ .nfca) {s : Scan δ ι}
    (h : Full r s) : Full r (s.resolve r t) ∨ Spilled (s.resolve r t) := by
  rcases resolve_cases r t s with he | ⟨ds, hds, he⟩
  · rw [he]
    exact Or.inl h
  · have hb := h.bound
    rw [h.limit] at hds
    by_cases hfull : s.gDevCnt = rfalPollerDevices
    · have hone := hr.le_one t
      rw [hfull, Nat.sub_self] at hds
      rw [hds] at hone
      cases ds with
      | nil =>
        left
        rw [he]
        exact (h.copying t (by simpa using hb)).foldl ht
      | cons d ds =>
        right
        rw [he]
        refine ⟨⟨s.gDevCnt, foldl_indices t ds _ _ ?_, hfull.ge⟩, ?_⟩
        · exact List.mem_append_right _ List.mem_cons_self
        · rw [foldl_found, report_found, List.length_append, h.count, hfull]
          simp [tag]
    · left
      have hle := hr.le_limit t (rfalPollerDevices - s.gDevCnt) (by omega)
      rw [hds] at hle
      rw [he]
      exact (h.copying t (by simp only at hle; omega)).foldl ht

theorem Full.resolveA {r : Rfal δ ι} (hr : Limited r) {s : Scan δ ι} (h : Full r s)
    (h0 : s.gDevCnt = 0) : Full r (s.resolveA r) := by
  unfold Scan.resolveA
  split_ifs
  · have hlim : s.limit = rfalPollerDevices := by rw [h.limit, h0]; rfl
    have hle := hr.le_limit .nfca rfalPollerDevices (by decide)
    rw [hlim]
    cases hres : r.resolution .nfca rfalPollerDevices with
    | mk err ds =>
      rw [hres] at hle
      cases err with
      | errNone => exact (h.copying .nfca (by simp only at hle; omega)).foldlA h0.symm
      | _ => exact h
  · exact h

theorem resolution_full {r : Rfal δ ι} (hr : Limited r) {s : Scan δ ι} (h : Full r s)
    (h0 : s.gDevCnt = 0) :
    Full r (s.rfalPollerCollResolution r) ∨ Spilled (s.rfalPollerCollResolution r) := by
  have hA := h.resolveA hr h0
  unfold Scan.rfalPollerCollResolution
  have hne : ∀ t ∈ others, t ≠ Tech.nfca := by decide
  generalize s.resolveA r = u at hA
  generalize others = ts at hne
  have hor : Full r u ∨ Spilled u := Or.inl hA
  clear hA
  induction ts generalizing u with
  | nil => exact hor
  | cons t ts ih =>
    refine ih (u.resolve r t) (fun t' ht' => hne t' (List.mem_cons_of_mem t ht')) ?_
    rcases hor with hu | hu
    · exact hu.resolve hr (hne t List.mem_cons_self)
    · exact Or.inr hu.resolve

/-! ## a scan -/

/-- what holds behind each round; before the collision resolution the list is empty -/
def Ready (r : Rfal δ ι) (p : Poll δ ι) : Prop :=
  match p.stage with
  | .init => False
  | .techDetect | .colAvoidance => Full r p.scan ∧ p.scan.gDevCnt = 0
  | .deactivation | .returned => Full r p.scan ∨ Spilled p.scan

theorem Ready.done {r : Rfal δ ι} {p : Poll δ ι} (h : Ready r p) : Full r p.scan ∨ Spilled p.scan := by
  obtain ⟨stage, s⟩ := p
  cases stage with
  | init => exact absurd h id
  | techDetect | colAvoidance => exact Or.inl h.1
  | deactivation | returned => exact h

theorem init_full (r : Rfal δ ι) (s : Scan δ ι) : Full r s.init where
  bound := Nat.zero_le _
  indices := fun _ h => absurd h List.not_mem_nil
  entries := rfl
  activated := fun _ h => absurd h (Nat.not_lt_zero _)

theorem Full.techDetection {r : Rfal δ ι} {s : Scan δ ι} (h : Full r s) (n : NfcTech) :
    Full r (s.rfalPollerTechDetection r n) where
  bound := h.bound
  indices := h.indices
  entries := h.entries
  activated := h.activated

/-- a press of the button ends the scan with what it has -/
theorem Ready.press {r : Rfal δ ι} {p : Poll δ ι} (h : Ready r p) (pressed : Bool) :
    Ready r (if pressed then { p with stage := .returned } else p) := by
  cases pressed with
  | false => exact h
  | true => exact h.done

theorem init_ready (r : Rfal δ ι) (n : NfcTech) (s : Scan δ ι) (pressed : Bool) :
    Ready r (Poll.step r n ⟨.init, s⟩ pressed) := by
  have hw : Ready r (Poll.work r n ⟨.init, s⟩) := ⟨init_full r s, rfl⟩
  exact hw.press pressed

theorem step_ready {r : Rfal δ ι} (hr : Limited r) (n : NfcTech) (p : Poll δ ι) (pressed : Bool)
    (h : Ready r p) : Ready r (p.step r n pressed) := by
  refine Ready.press ?_ pressed
  obtain ⟨stage, s⟩ := p
  cases stage with
  | init => exact absurd h id
  | techDetect =>
    obtain ⟨hf, h0⟩ := h
    have hdet := hf.techDetection n
    by_cases hany : (s.rfalPollerTechDetection r n).anyFound
    · have hw : Poll.work r n ⟨.techDetect, s⟩ = ⟨.colAvoidance, s.rfalPollerTechDetection r n⟩ := by
        simp only [Poll.work, hany, if_true]
      rw [hw]
      exact ⟨hdet, h0⟩
    · have hw : Poll.work r n ⟨.techDetect, s⟩ = ⟨.deactivation, s.rfalPollerTechDetection r n⟩ := by
        simp only [Poll.work, hany]
        rfl
      rw [hw]
      exact Or.inl hdet
  | colAvoidance => exact resolution_full hr h.1 h.2
  | deactivation | returned => exact h

theorem run_ready {r : Rfal δ ι} (hr : Limited r) (n : NfcTech) (s : Scan δ ι) (b : Bool)
    (pressed : List Bool) : Ready r (rfalPollerRun r n s (b :: pressed)) :=
  inv_run_all (fun p i h => step_ready hr n p i h) pressed (init_ready r n s b)

/-- the scan is over behind its fourth round -/
theorem run_returned (r : Rfal δ ι) (n : NfcTech) (s : Scan δ ι) (b1 b2 b3 b4 : Bool) :
    (rfalPollerRun r n s [b1, b2, b3, b4]).stage = .returned := by
  simp only [rfalPollerRun, run_cons, run_nil, Poll.step, Poll.work]
  cases b1 <;> cases b2 <;> cases b3 <;> cases b4 <;>
    by_cases h : (s.init.rfalPollerTechDetection r n).anyFound <;> simp [h]

/-- **The inventory.**  From its first round on a scan keeps the bound and the list exactly as long
as RFAL reports no more than four devices in it. -/
theorem inventory_iff {r : Rfal δ ι} (hr : Limited r) (n : NfcTech) (s : Scan δ ι) (b : Bool)
    (pressed : List Bool) :
    Inventory r (rfalPollerRun r n s (b :: pressed)).scan
      ↔ (rfalPollerRun r n s (b :: pressed)).scan.found.length ≤ rfalPollerDevices := by
  rcases (run_ready hr n s b pressed).done with hf | ⟨⟨i, hi, hge⟩, hlen⟩
  · exact ⟨fun _ => hf.count.trans_le hf.bound, fun _ => hf.inventory⟩
  · constructor
    · exact fun h => absurd (h.indices i hi) (Nat.not_lt.mpr hge)
    · exact fun h => absurd h (Nat.not_le.mpr hlen)

end

/-! ## scans with and without a fifth device -/

/-- `a` NFC-A devices, of type 4, and one NFC-V device in the field, which RFAL reports whatever
the limit -/
def field (a : Nat) : Rfal Nat Nat where
  detects t := t = .nfca ∨ t = .nfcv
  resolution t n :=
    match t with
    | .nfca => (.errNone, (List.range a).take n)
    | .nfcv => (.errNone, [100])
    | _ => (.errNone, [])
  isT4T _ := true
  activation i := 10 + i

theorem field_limited (a : Nat) : Limited (field a) where
  le_limit t n hn := by
    cases t with
    | nfca => exact List.length_take_le ..
    | nfcv => exact hn
    | _ => exact Nat.zero_le n
  le_one t := by
    cases t with
    | nfca => exact (List.length_take_le ..).trans (Nat.zero_le 1)
    | nfcv => exact Nat.le_refl 1
    | _ => exact Nat.zero_le 1

def power : Scan Nat Nat := ⟨0, fun _ => ⟨.nfca, 0, 0⟩, fun _ => false, [], []⟩

/-- three NFC-A devices and the NFC-V one fill the list -/
theorem inventory_of_four :
    Inventory (field 3) (rfalPollerRun (field 3) .all power [false, false, false, false]).scan :=
  (inventory_iff (field_limited 3) .all power false [false, false, false]).mpr (by decide)

/-- with four NFC-A devices the list is full, and the NFC-V one is stored behind it -/
theorem fifth_behind_list : Limited (field 4) ∧
    ¬ Inventory (field 4) (rfalPollerRun (field 4) .all power [false, false, false, false]).scan := by
  refine ⟨field_limited 4, fun h => ?_⟩
  have hbound := h.bound
  exact absurd hbound (by decide)

end Poller
end Hydra
