import Mathlib.Data.List.Basic

/-!
# Manchester coded answers on the air

A bit is two half bits: 10 for a 0 and 01 for a 1.  Where several cards answer at once, the field is
modulated when any of them modulates it.

* `encode l`, `wave l`   the half bits of some bits, and those of an answer with start and end;
* `onAir ws i`           a half bit of several answers;
* `Agree rs k`           the answers have the same bit `k`;
* `onAir_bit`            what two half bits on the air say about a bit.
-/

namespace Manchester

def encode (l : List Bool) : List Bool := l.flatMap fun b => [!b, b]

def sof : List Bool := [true, true, true, false, true]

def eof : List Bool := [true, false, true, true, true, false, false, false]

def wave (l : List Bool) : List Bool := sof ++ encode l ++ eof

def onAir (ws : List (List Bool)) (i : Nat) : Bool := ws.any fun w => w.getD i false

def Agree (rs : List (List Bool)) (k : Nat) : Prop :=
  ∀ a ∈ rs, ∀ b ∈ rs, a.getD k false = b.getD k false

instance (rs : List (List Bool)) (k : Nat) : Decidable (Agree rs k) :=
  inferInstanceAs (Decidable (∀ a ∈ rs, ∀ b ∈ rs, a.getD k false = b.getD k false))

section
variable {l : List Bool} {rs : List (List Bool)} {k n : Nat}

theorem encode_cons (b : Bool) (l : List Bool) : encode (b :: l) = (!b) :: b :: encode l := rfl

theorem encode_length (l : List Bool) : (encode l).length = 2 * l.length := by
  induction l with
  | nil => rfl
  | cons b l ih =>
    rw [encode_cons, List.length_cons, List.length_cons, ih, List.length_cons]
    omega

/-- the half bits of a bit -/
theorem encode_getElem? (l : List Bool) (k : Nat) :
    (encode l)[2 * k]? = l[k]?.map not ∧ (encode l)[2 * k + 1]? = l[k]? := by
  induction l generalizing k with
  | nil => exact ⟨rfl, rfl⟩
  | cons b l ih =>
    cases k with
    | zero => exact ⟨rfl, rfl⟩
    | succ k => exact ih k

theorem wave_sof (l : List Bool) (hk : k < 5) : (wave l).getD k false = sof.getD k false := by
  rw [wave, List.append_assoc, List.getD_eq_getElem?_getD, List.getD_eq_getElem?_getD,
    List.getElem?_append_left hk]

theorem wave_bit (l : List Bool) (hk : k < l.length) :
    (wave l).getD (5 + 2 * k) false = (!l.getD k false) ∧
      (wave l).getD (5 + 2 * k + 1) false = l.getD k false := by
  have hin : ∀ j, 5 + j < 5 + 2 * l.length → (wave l)[5 + j]? = (encode l)[j]? := by
    intro j hj
    have hsof : sof.length = 5 := rfl
    rw [wave, List.getElem?_append_left (by rw [List.length_append, encode_length, hsof]; exact hj),
      List.getElem?_append_right (by rw [hsof]; exact Nat.le_add_right ..), hsof,
      Nat.add_sub_cancel_left]
  have hl := encode_getElem? l k
  rw [List.getElem?_eq_getElem hk] at hl
  rw [List.getD_eq_getElem?_getD, List.getD_eq_getElem?_getD, List.getD_eq_getElem?_getD,
    hin _ (by omega), Nat.add_assoc, hin _ (by omega), hl.1, hl.2, List.getElem?_eq_getElem hk]
  exact ⟨rfl, rfl⟩

theorem wave_eof (l : List Bool) (j : Nat) :
    (wave l).getD (5 + 2 * l.length + j) false = eof.getD j false := by
  have hlen : (sof ++ encode l).length = 5 + 2 * l.length := by
    rw [List.length_append, encode_length]
    rfl
  rw [wave, List.getD_eq_getElem?_getD, List.getD_eq_getElem?_getD,
    List.getElem?_append_right (by rw [hlen]; exact Nat.le_add_right ..), hlen,
    Nat.add_sub_cancel_left]

/-! ## on the air -/

theorem onAir_map {f : List Bool → Bool} {i : Nat} (h : ∀ a ∈ rs, (wave a).getD i false = f a) :
    onAir (rs.map wave) i = rs.any f := by
  unfold onAir
  rw [List.any_map]
  induction rs with
  | nil => rfl
  | cons a rs ih =>
    rw [List.any_cons, List.any_cons, ih fun b hb => h b (List.mem_cons_of_mem _ hb)]
    congr 1
    exact h a List.mem_cons_self

theorem any_eq {f : List Bool → Bool} {b : Bool} (hne : rs ≠ []) (h : ∀ a ∈ rs, f a = b) :
    rs.any f = b := by
  cases b with
  | true =>
    obtain ⟨a, ha⟩ := List.exists_mem_of_ne_nil _ hne
    exact List.any_eq_true.mpr ⟨a, ha, h a ha⟩
  | false =>
    apply List.any_eq_false.mpr
    intro a ha
    rw [h a ha]
    exact Bool.false_ne_true

theorem onAir_sof (hne : rs ≠ []) (hk : k < 5) : onAir (rs.map wave) k = sof.getD k false := by
  rw [onAir_map fun a _ => wave_sof a hk]
  exact any_eq hne fun _ _ => rfl

theorem onAir_eof (hne : rs ≠ []) (hlen : ∀ a ∈ rs, a.length = n) (j : Nat) :
    onAir (rs.map wave) (5 + 2 * n + j) = eof.getD j false := by
  rw [onAir_map (f := fun _ => eof.getD j false) fun a ha => by rw [← hlen a ha, wave_eof]]
  exact any_eq hne fun _ _ => rfl

/-- **A bit on the air**: each half bit is there when some answer has it. -/
theorem onAir_bit (hlen : ∀ a ∈ rs, a.length = n) (hk : k < n) :
    onAir (rs.map wave) (5 + 2 * k) = (rs.any fun a => !a.getD k false) ∧
      onAir (rs.map wave) (5 + 2 * k + 1) = rs.any fun a => a.getD k false :=
  ⟨onAir_map fun a ha => (wave_bit a (by rw [hlen a ha]; exact hk)).1,
    onAir_map fun a ha => (wave_bit a (by rw [hlen a ha]; exact hk)).2⟩

/-- two half bits are the same only when both are there, and then the answers differ -/
theorem onAir_agree_iff (hne : rs ≠ []) (hlen : ∀ a ∈ rs, a.length = n) (hk : k < n) :
    onAir (rs.map wave) (5 + 2 * k) ≠ onAir (rs.map wave) (5 + 2 * k + 1) ↔ Agree rs k := by
  rw [(onAir_bit hlen hk).1, (onAir_bit hlen hk).2]
  constructor
  · intro h a ha b hb
    by_contra hab
    have hpair : ∀ v : Bool, ∃ c ∈ rs, c.getD k false = v := by
      intro v
      by_cases hv : a.getD k false = v
      · exact ⟨a, ha, hv⟩
      · exact ⟨b, hb, by revert hab hv; cases a.getD k false <;> cases b.getD k false <;> simp⟩
    obtain ⟨c, hc, hct⟩ := hpair true
    obtain ⟨d, hd, hdf⟩ := hpair false
    rw [List.any_eq_true.mpr ⟨d, hd, by rw [hdf]; rfl⟩, List.any_eq_true.mpr ⟨c, hc, hct⟩] at h
    exact h rfl
  · intro h
    obtain ⟨a, ha⟩ := List.exists_mem_of_ne_nil _ hne
    have hall : ∀ b ∈ rs, b.getD k false = a.getD k false := fun b hb => h b hb a ha
    have h1 : (rs.any fun b => !b.getD k false) = !a.getD k false :=
      any_eq hne fun b hb => by rw [hall b hb]
    have h2 : (rs.any fun b => b.getD k false) = a.getD k false :=
      any_eq hne fun b hb => hall b hb
    rw [h1, h2]
    cases a.getD k false <;> decide

end

end Manchester
