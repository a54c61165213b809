import HydraFw.Common.Bytes
import HydraFw.Lib.Loops
import HydraFw.Reader.Send
import Mathlib.Data.List.GetD
import Mathlib.Data.List.Induction

/-!
# Hexadecimal text

`buf_ascii2hex` with the cursor that it moves over the text, and `buf_hex2ascii` (`common.c`).

* `Scan`, `ascii2hex`   the loop of the decoder, with the places that it looks at;
* `ascii2hex_eq`     the bytes are those of `bufAscii2hex`;
* `Decodes`          the law of the decoder, `decodes_iff`: hexadecimal text, or a conversion that
                     fails on the way;
* `bufHex2ascii`     the encoder, `RoundTrips` its law, `roundTrips_iff`: nothing is written of an
                     empty list, not even the end of a string.
-/

namespace Hydra
namespace Hex
open Common Loops Rams Tag Send

/-! ## `buf_ascii2hex` -/

structure Scan where
  ii : Nat
  /-- `hex_buf`, of which `io` bytes have been stored -/
  bytes : List UInt8
  /-- the places that the loop has tested; a conversion looks no further than a NUL from there -/
  looked : List Nat
  failed : Bool

def Scan.more (memory : List UInt8) (s : Scan) : Bool := !s.failed && cell memory s.ii ≠ 0

/-- two characters on, whatever the conversion has used -/
def Scan.pass (memory : List UInt8) (s : Scan) : Scan :=
  match sscanfHhx (memory.drop s.ii) with
  | none => { s with failed := true }
  | some v =>
    { s with
      ii := s.ii + 2
      bytes := s.bytes ++ [v]
      looked := s.looked ++ [s.ii + 2] }

/-- a pass moves on, or is the last -/
def ascii2hex (memory : List UInt8) : Scan :=
  whileN (Scan.more memory) (Scan.pass memory) memory.length ⟨0, [], [0], false⟩

/-- what the function returns -/
def Scan.result (s : Scan) : Bool := !s.failed

/-- `*hex_buflen`, which is set before it returns `true` -/
def Scan.hexBuflen (s : Scan) : Nat := s.bytes.length

/-! ## the law of the decoder -/

/-- hexadecimal digits, an even number of them -/
def HexText (text : List UInt8) : Prop :=
  text.length % 2 = 0 ∧ ∀ c ∈ text, (hexDigit c).isSome

/-- `text` is accepted when it should be, and the loop ends without a look past its NUL -/
structure Decodes (memory text : List UInt8) (s : Scan) : Prop where
  accepted : s.result = true ↔ HexText text
  decoded : HexText text → s.hexBuflen = text.length / 2 ∧ hexBytes text = some s.bytes
  inside : ∀ i ∈ s.looked, i ≤ text.length
  ends : s.more memory = false

/-- a conversion that fails, at an even place of the text -/
def Stumbles (text : List UInt8) : Prop :=
  ∃ j, 2 * j < text.length ∧ sscanfHhx (text.drop (2 * j)) = none

/-! ## conversions -/

section
variable {memory text behind : List UInt8}

/-- a NUL ends the text for a conversion -/
theorem sscanfHhx_cut (text behind : List UInt8) :
    sscanfHhx (text ++ 0 :: behind) = sscanfHhx text := by
  have hcut : Scanf.string ((text ++ 0 :: behind).map UInt8.toBitVec) =
      Scanf.string (text.map UInt8.toBitVec) := by
    rw [Scanf.string, Scanf.string, List.map_append, List.takeWhile_append]
    split
    · next hlen =>
      rw [(List.takeWhile_prefix _).eq_of_length hlen]
      exact List.append_nil _
    · rfl
  rw [sscanfHhx, sscanfHhx, Scanf.sscanf, Scanf.sscanf, hcut]

theorem hexBytes_isSome_iff (text : List UInt8) : (hexBytes text).isSome ↔ HexText text := by
  induction text using List.twoStepInduction with
  | nil => simp [hexBytes, HexText]
  | singleton c => simp [hexBytes, HexText]
  | cons_cons c d rest ih _ =>
    have hlength : (c :: d :: rest).length % 2 = rest.length % 2 := by
      rw [List.length_cons, List.length_cons, Nat.add_assoc, Nat.add_mod_right]
    have hcons : HexText (c :: d :: rest) ↔
        (hexDigit c).isSome ∧ (hexDigit d).isSome ∧ HexText rest := by
      unfold HexText
      rw [hlength, List.forall_mem_cons, List.forall_mem_cons]
      tauto
    rw [hcons, ← ih, hexBytes]
    cases hexDigit c <;> cases hexDigit d <;> cases hexBytes rest <;> simp

theorem hexBytes_length {bytes : List UInt8} (h : hexBytes text = some bytes) :
    bytes.length = text.length / 2 := by
  induction text using List.twoStepInduction generalizing bytes with
  | nil =>
    cases h
    rfl
  | singleton c => cases h
  | cons_cons c d rest ih _ =>
    rw [hexBytes] at h
    split at h
    · next x y tail _ _ htail =>
      cases h
      rw [List.length_cons, ih htail, List.length_cons, List.length_cons]
      omega
    · cases h

/-! ## the loop of the decoder -/

theorem lt_of_more {s : Scan} (h : s.more memory = true) : s.ii < memory.length := by
  by_contra hle
  have hzero : cell memory s.ii = 0 := List.getD_eq_default _ _ (Nat.le_of_not_lt hle)
  unfold Scan.more at h
  rw [hzero] at h
  simp at h

theorem ascii2hex_ends (memory : List UInt8) : (ascii2hex memory).more memory = false := by
  refine whileN_measure (fun s => if s.failed then 0 else memory.length - s.ii) (fun s h => ?_)
    (Nat.le_refl _)
  have hlt := lt_of_more h
  have hopen : s.failed = false := by
    unfold Scan.more at h
    grind
  rw [hopen]
  unfold Scan.pass
  cases sscanfHhx (memory.drop s.ii) with
  | none =>
    show 0 < memory.length - s.ii
    omega
  | some v =>
    show (if s.failed then 0 else memory.length - (s.ii + 2)) < memory.length - s.ii
    rw [hopen]
    show memory.length - (s.ii + 2) < memory.length - s.ii
    omega

/-! ### a pass at the start of what is left -/

section
variable {s : Scan} {c : UInt8} {rest : List UInt8} {n : Nat}

theorem whileN_nul (hdrop : (memory.drop s.ii).headD 0 = 0) :
    whileN (Scan.more memory) (Scan.pass memory) n s = s := by
  refine whileN_done ?_ n
  unfold Scan.more
  rw [cell_head, hdrop]
  simp

/-- at a NUL the loop has ended -/
theorem run_nul (hopen : s.failed = false) (hdrop : (memory.drop s.ii).headD 0 = 0) :
    (whileN (Scan.more memory) (Scan.pass memory) n s).bytes = s.bytes ++ [] ∧
      (whileN (Scan.more memory) (Scan.pass memory) n s).result = true := by
  rw [whileN_nul hdrop]
  unfold Scan.result
  rw [hopen]
  exact ⟨(List.append_nil _).symm, rfl⟩

theorem drop_two {m : Nat} {d : UInt8} (h : memory.drop m = c :: d :: rest) :
    memory.drop (m + 2) = rest := by
  rw [← List.drop_drop, h]
  rfl

theorem more_char (hopen : s.failed = false) (hdrop : memory.drop s.ii = c :: rest) (hc : c ≠ 0) :
    s.more memory = true := by
  unfold Scan.more
  rw [cell_head, hdrop, hopen]
  simpa using hc

theorem whileN_stumble (hopen : s.failed = false) (hdrop : memory.drop s.ii = c :: rest)
    (hc : c ≠ 0) (hscan : sscanfHhx (c :: rest) = none) :
    whileN (Scan.more memory) (Scan.pass memory) (n + 1) s = { s with failed := true } := by
  have hpass : s.pass memory = { s with failed := true } := by
    unfold Scan.pass
    rw [hdrop, hscan]
  rw [whileN_pass (more_char hopen hdrop hc), hpass]
  exact whileN_done rfl n

theorem whileN_two {v : UInt8} (hopen : s.failed = false) (hdrop : memory.drop s.ii = c :: rest)
    (hc : c ≠ 0) (hscan : sscanfHhx (c :: rest) = some v) :
    whileN (Scan.more memory) (Scan.pass memory) (n + 1) s =
      whileN (Scan.more memory) (Scan.pass memory) n
        ⟨s.ii + 2, s.bytes ++ [v], s.looked ++ [s.ii + 2], false⟩ := by
  have hpass : s.pass memory = ⟨s.ii + 2, s.bytes ++ [v], s.looked ++ [s.ii + 2], false⟩ := by
    unfold Scan.pass
    rw [hdrop, hscan, hopen]
  rw [whileN_pass (more_char hopen hdrop hc), hpass]

end

/-- the loop stores what `bufAscii2hex` does -/
theorem run_eq (rest : List UInt8) : ∀ (s : Scan) (n : Nat), s.failed = false →
    memory.drop s.ii = rest → rest.length ≤ n →
    (whileN (Scan.more memory) (Scan.pass memory) n s).bytes = s.bytes ++ (bufAscii2hex rest).1 ∧
      (whileN (Scan.more memory) (Scan.pass memory) n s).result = (bufAscii2hex rest).2 := by
  induction rest using bufAscii2hex.induct with
  | case1 =>
    intro s n hopen hdrop _
    exact run_nul hopen (by rw [hdrop]; rfl)
  | case2 =>
    intro s n hopen hdrop _
    exact run_nul hopen (by rw [hdrop]; rfl)
  | case3 c hc hscan =>
    intro s n hopen hdrop hn
    obtain ⟨n, rfl⟩ := Nat.exists_eq_add_of_lt (Nat.lt_of_lt_of_le (Nat.succ_pos 0) hn)
    rw [Nat.zero_add, whileN_stumble hopen hdrop hc hscan, bufAscii2hex, if_neg hc, hscan]
    exact ⟨(List.append_nil _).symm, rfl⟩
  | case4 c hc v hscan =>
    intro s n hopen hdrop hn
    obtain ⟨n, rfl⟩ := Nat.exists_eq_add_of_lt (Nat.lt_of_lt_of_le (Nat.succ_pos 0) hn)
    have hend : memory.drop (s.ii + 2) = [] := by
      rw [← List.drop_drop, hdrop]
      rfl
    rw [Nat.zero_add, whileN_two hopen hdrop hc hscan, whileN_nul (by rw [hend]; rfl),
      bufAscii2hex, if_neg hc, hscan]
    exact ⟨rfl, rfl⟩
  | case5 d rest =>
    intro s n hopen hdrop _
    exact run_nul hopen (by rw [hdrop]; rfl)
  | case6 c d rest hc hscan =>
    intro s n hopen hdrop hn
    obtain ⟨n, rfl⟩ := Nat.exists_eq_add_of_lt (Nat.lt_of_lt_of_le (Nat.succ_pos _) hn)
    rw [Nat.zero_add, whileN_stumble hopen hdrop hc hscan, bufAscii2hex, if_neg hc, hscan]
    exact ⟨(List.append_nil _).symm, rfl⟩
  | case7 c d rest hc v hscan stored ok hrest ih =>
    intro s n hopen hdrop hn
    obtain ⟨n, rfl⟩ := Nat.exists_eq_add_of_lt (Nat.lt_of_lt_of_le (Nat.succ_pos _) hn)
    rw [Nat.zero_add, whileN_two hopen hdrop hc hscan]
    rw [List.length_cons, List.length_cons] at hn
    obtain ⟨hbytes, hresult⟩ := ih ⟨s.ii + 2, s.bytes ++ [v], s.looked ++ [s.ii + 2], false⟩ n rfl
      (drop_two hdrop) (by omega)
    rw [hbytes, hresult, bufAscii2hex, if_neg hc, hscan, List.append_assoc]
    exact ⟨rfl, rfl⟩

theorem ascii2hex_eq (memory : List UInt8) :
    (ascii2hex memory).bytes = (bufAscii2hex memory).1 ∧
      (ascii2hex memory).result = (bufAscii2hex memory).2 :=
  run_eq memory ⟨0, [], [0], false⟩ memory.length rfl rfl (Nat.le_refl _)

/-! ## when a conversion fails -/

theorem stumbles_cons {c d : UInt8} {rest : List UInt8} :
    Stumbles (c :: d :: rest) ↔ sscanfHhx (c :: d :: rest) = none ∨ Stumbles rest := by
  constructor
  · rintro ⟨j, hj, hscan⟩
    cases j with
    | zero => exact .inl hscan
    | succ j =>
      rw [List.length_cons, List.length_cons] at hj
      exact .inr ⟨j, by omega, hscan⟩
  · rintro (hscan | ⟨j, hj, hscan⟩)
    · exact ⟨0, Nat.succ_pos _, hscan⟩
    · refine ⟨j + 1, ?_, hscan⟩
      rw [List.length_cons, List.length_cons]
      omega

theorem stumbles_one {c : UInt8} (h : Stumbles [c]) : sscanfHhx [c] = none := by
  obtain ⟨j, hj, hscan⟩ := h
  obtain rfl : j = 0 := by
    rw [List.length_singleton] at hj
    omega
  exact hscan

/-- the result, of a text with an even number of characters or a conversion that fails -/
theorem bufAscii2hex_result {text : List UInt8} (hz : ∀ c ∈ text, c ≠ 0)
    (h : text.length % 2 = 0 ∨ Stumbles text) (behind : List UInt8) :
    (bufAscii2hex (text ++ 0 :: behind)).2 = false ↔ Stumbles text := by
  induction text using List.twoStepInduction with
  | nil =>
    have hnil : bufAscii2hex ([] ++ 0 :: behind) = ([], true) := by
      cases behind <;> rfl
    rw [hnil]
    exact ⟨fun h => absurd h (by decide), fun ⟨j, hj, _⟩ => absurd hj (Nat.not_lt_zero _)⟩
  | singleton c =>
    have hstumbles := h.resolve_left Nat.one_ne_zero
    have hscan : sscanfHhx (c :: 0 :: behind) = none :=
      (sscanfHhx_cut [c] behind).trans (stumbles_one hstumbles)
    rw [List.singleton_append, bufAscii2hex, if_neg (hz c List.mem_cons_self), hscan]
    exact iff_of_true rfl hstumbles
  | cons_cons c d rest ih _ =>
    rw [List.forall_mem_cons, List.forall_mem_cons] at hz
    obtain ⟨hc, -, hz'⟩ := hz
    have hcut : sscanfHhx (c :: d :: (rest ++ 0 :: behind)) = sscanfHhx (c :: d :: rest) :=
      sscanfHhx_cut (c :: d :: rest) behind
    rw [List.cons_append, List.cons_append, bufAscii2hex, if_neg hc, hcut, stumbles_cons]
    cases hscan : sscanfHhx (c :: d :: rest) with
    | none => exact iff_of_true rfl (.inl rfl)
    | some v =>
      have hrest : rest.length % 2 = 0 ∨ Stumbles rest := by
        rw [stumbles_cons, List.length_cons, List.length_cons] at h
        refine h.imp (fun h => by omega) fun h => ?_
        rcases h with h | h
        · rw [hscan] at h
          cases h
        · exact h
      rw [← ih hz' hrest]
      exact ⟨.inr, fun h => h.resolve_left fun h => by cases h⟩

/-! ## where the loop looks -/

/-- what has been looked at stays in the record -/
theorem looked_mono {i n : Nat} {s : Scan} (h : i ∈ s.looked) :
    i ∈ (whileN (Scan.more memory) (Scan.pass memory) n s).looked := by
  refine whileN_inv (I := fun s : Scan => i ∈ s.looked) (fun s _ hs => ?_) h n
  unfold Scan.pass
  split
  · exact hs
  · exact List.mem_append_left _ hs

theorem looked_inside {text : List UInt8} (hz : ∀ c ∈ text, c ≠ 0) :
    ∀ (s : Scan) (n : Nat), s.failed = false → memory.drop s.ii = text ++ 0 :: behind →
      text.length % 2 = 0 ∨ Stumbles text → ∀ i ∈
      (whileN (Scan.more memory) (Scan.pass memory) n s).looked,
        i ∈ s.looked ∨ i ≤ s.ii + text.length := by
  induction text using List.twoStepInduction with
  | nil =>
    intro s n hopen hdrop _ i hi
    rw [whileN_nul (by rw [hdrop]; rfl)] at hi
    exact .inl hi
  | singleton c =>
    intro s n hopen hdrop h i hi
    have hscan : sscanfHhx (c :: 0 :: behind) = none :=
      (sscanfHhx_cut [c] behind).trans (stumbles_one (h.resolve_left Nat.one_ne_zero))
    cases n with
    | zero => exact .inl hi
    | succ n =>
      rw [whileN_stumble hopen hdrop (hz c List.mem_cons_self) hscan] at hi
      exact .inl hi
  | cons_cons c d rest ih _ =>
    intro s n hopen hdrop h i hi
    rw [List.forall_mem_cons, List.forall_mem_cons] at hz
    obtain ⟨hc, -, hz'⟩ := hz
    have hcut : sscanfHhx (c :: d :: (rest ++ 0 :: behind)) = sscanfHhx (c :: d :: rest) :=
      sscanfHhx_cut (c :: d :: rest) behind
    cases n with
    | zero => exact .inl hi
    | succ n =>
      cases hscan : sscanfHhx (c :: d :: rest) with
      | none =>
        rw [whileN_stumble hopen hdrop hc (hcut.trans hscan)] at hi
        exact .inl hi
      | some v =>
        rw [whileN_two hopen hdrop hc (hcut.trans hscan)] at hi
        rw [stumbles_cons, hscan, List.length_cons, List.length_cons] at h
        have hrest : rest.length % 2 = 0 ∨ Stumbles rest :=
          h.imp (fun h => by omega) fun h => h.resolve_left fun h => by cases h
        rw [List.length_cons, List.length_cons]
        rcases ih hz' ⟨s.ii + 2, _, _, false⟩ n rfl (drop_two hdrop) hrest i hi with hi | hi
        · rcases List.mem_append.mp hi with hi | hi
          · exact .inl hi
          · rw [List.mem_singleton.mp hi]
            exact .inr (by omega)
        · exact .inr (by show i ≤ s.ii + (rest.length + 1 + 1); simp only at hi; omega)

/-- an odd number of characters leads behind the NUL -/
theorem looked_behind {text : List UInt8} (hz : ∀ c ∈ text, c ≠ 0) :
    ∀ (s : Scan) (n : Nat), s.failed = false → memory.drop s.ii = text ++ 0 :: behind →
      text.length % 2 = 1 → ¬ Stumbles text → text.length ≤ n →
      s.ii + text.length + 1 ∈ (whileN (Scan.more memory) (Scan.pass memory) n s).looked := by
  induction text using List.twoStepInduction with
  | nil =>
    intro s n _ _ hodd
    cases hodd
  | singleton c =>
    intro s n hopen hdrop _ hno hn
    obtain ⟨n, rfl⟩ := Nat.exists_eq_add_of_lt (Nat.lt_of_lt_of_le (Nat.succ_pos _) hn)
    cases hscan : sscanfHhx [c] with
    | none => exact absurd ⟨0, Nat.succ_pos 0, hscan⟩ hno
    | some v =>
      rw [Nat.zero_add, whileN_two hopen hdrop (hz c List.mem_cons_self)
        ((sscanfHhx_cut [c] behind).trans hscan)]
      exact looked_mono (List.mem_append_right _ List.mem_cons_self)
  | cons_cons c d rest ih _ =>
    intro s n hopen hdrop hodd hno hn
    obtain ⟨n, rfl⟩ := Nat.exists_eq_add_of_lt (Nat.lt_of_lt_of_le (Nat.succ_pos _) hn)
    have hcut : sscanfHhx (c :: d :: (rest ++ 0 :: behind)) = sscanfHhx (c :: d :: rest) :=
      sscanfHhx_cut (c :: d :: rest) behind
    rw [stumbles_cons, not_or] at hno
    obtain ⟨v, hscan⟩ := Option.ne_none_iff_exists'.mp hno.1
    rw [List.forall_mem_cons, List.forall_mem_cons] at hz
    obtain ⟨hc, -, hz'⟩ := hz
    rw [List.length_cons, List.length_cons] at hodd hn ⊢
    rw [Nat.zero_add, whileN_two hopen hdrop hc (hcut.trans hscan)]
    have hlast := ih hz' ⟨s.ii + 2, s.bytes ++ [v], s.looked ++ [s.ii + 2], false⟩ n rfl
      (drop_two hdrop) (by omega) hno.2 (by omega)
    rwa [show s.ii + (rest.length + 1 + 1) + 1 = s.ii + 2 + rest.length + 1 from by omega]

/-! ## the law of the decoder -/

section
variable (s : CString) (behind : List UInt8)

/-- hexadecimal text is decoded -/
theorem hexText_decoded (h : HexText s.chars) : (ascii2hex (s.stored behind)).result = true ∧
    (ascii2hex (s.stored behind)).hexBuflen = s.chars.length / 2 ∧
      hexBytes s.chars = some (ascii2hex (s.stored behind)).bytes := by
  obtain ⟨bytes, h⟩ := Option.isSome_iff_exists.mp ((hexBytes_isSome_iff _).mpr h)
  obtain ⟨hbytes, hresult⟩ := ascii2hex_eq (s.stored behind)
  have hhex : bufAscii2hex (s.stored behind) = (bytes, true) :=
    bufAscii2hex_of_hexBytes (by rwa [s.takeWhile_stored])
  rw [hhex] at hbytes hresult
  rw [Scan.hexBuflen, hbytes]
  exact ⟨hresult, hexBytes_length h, h⟩

theorem result_iff (h : s.chars.length % 2 = 0 ∨ Stumbles s.chars) :
    (ascii2hex (s.stored behind)).result = false ↔ Stumbles s.chars := by
  rw [(ascii2hex_eq (s.stored behind)).2]
  exact bufAscii2hex_result s.ne_zero h behind

theorem inside_iff : (∀ i ∈ (ascii2hex (s.stored behind)).looked, i ≤ s.chars.length) ↔
    s.chars.length % 2 = 0 ∨ Stumbles s.chars := by
  have hdrop : (s.stored behind).drop 0 = s.chars ++ 0 :: behind := rfl
  constructor
  · intro hinside
    by_contra hnot
    obtain ⟨hodd, hno⟩ := not_or.mp hnot
    have hle : s.chars.length ≤ (s.stored behind).length := by
      show s.chars.length ≤ (s.chars ++ 0 :: behind).length
      rw [List.length_append]
      exact Nat.le_add_right _ _
    have hbehind := hinside _ (looked_behind s.ne_zero ⟨0, [], [0], false⟩ _ rfl hdrop
      (Nat.mod_two_ne_zero.mp hodd) hno hle)
    simp only [Nat.zero_add] at hbehind
    omega
  · intro h i hi
    rcases looked_inside s.ne_zero ⟨0, [], [0], false⟩ _ rfl hdrop h i hi with hi | hi
    · rw [List.mem_singleton.mp hi]
      exact Nat.zero_le _
    · rwa [Nat.zero_add] at hi

end

/-- **Decoding** is as it should be exactly for hexadecimal text, and for text of which a conversion
fails on the way. -/
theorem decodes_iff (s : CString) (behind : List UInt8) :
    Decodes (s.stored behind) s.chars (ascii2hex (s.stored behind)) ↔
      HexText s.chars ∨ Stumbles s.chars := by
  constructor
  · intro h
    have hshape := (inside_iff s behind).mp h.inside
    by_contra hnot
    obtain ⟨hno, hnever⟩ := not_or.mp hnot
    refine hno (h.accepted.mp ?_)
    rw [← Bool.not_eq_false]
    exact fun hfalse => hnever ((result_iff s behind hshape).mp hfalse)
  · intro h
    have hshape : s.chars.length % 2 = 0 ∨ Stumbles s.chars := h.imp_left And.left
    refine ⟨⟨fun hr => ?_, fun h => (hexText_decoded s behind h).1⟩,
      fun h => (hexText_decoded s behind h).2, (inside_iff s behind).mpr hshape,
      ascii2hex_ends _⟩
    refine h.resolve_right fun hstumbles => ?_
    exact absurd hr (ne_true_of_eq_false ((result_iff s behind hshape).mpr hstumbles))

/-- a `0x` is a zero, and so a byte of its own -/
example : (ascii2hex [0x30, 0x78, 0x31, 0x32, 0x00]).bytes = [0x00, 0x12] := by decide

/-- a blank and a digit are taken for a byte -/
theorem blank_accepted : ¬ ∀ (s : CString) (behind : List UInt8),
    Decodes (s.stored behind) s.chars (ascii2hex (s.stored behind)) := by
  intro hall
  let s : CString := ⟨[0x20, 0x31], by decide⟩
  have hresult : (ascii2hex (s.stored [])).result = true := by decide
  exact absurd ((hall s []).accepted.mp hresult).2 (by decide)

end

/-! ## `buf_hex2ascii` -/

/-- a digit of `%02X` -/
def hexChar (n : UInt8) : UInt8 := if n < 10 then 0x30 + n else 0x37 + n

def hexPair (b : UInt8) : List UInt8 := [hexChar (b / 16), hexChar (b % 16)]

/-- `sprintf` of a byte at `ascii_buf + io`, and how many characters that are -/
def sprintfByte (pre suf : List UInt8) (asciiBuf : Nat → UInt8) (io : Nat) (b : UInt8) :
    (Nat → UInt8) × Nat :=
  let text := pre ++ hexPair b ++ suf
  (overwrite asciiBuf io (text ++ [0]), text.length)

/-- the loop over the bytes -/
def hex2asciiFrom (pre suf : List UInt8) : (Nat → UInt8) → Nat → List UInt8 → (Nat → UInt8) × Nat
  | asciiBuf, io, [] => (asciiBuf, io)
  | asciiBuf, io, b :: bytes =>
    let (asciiBuf, result) := sprintfByte pre suf asciiBuf io b
    hex2asciiFrom pre suf asciiBuf (io + result) bytes

/-- with `NULL` for a missing prefix or suffix: what is in `ascii_buf`, and what is returned -/
def bufHex2ascii (pre suf : Option (List UInt8)) (asciiBuf : Nat → UInt8) (bytes : List UInt8) :
    (Nat → UInt8) × Int :=
  let (asciiBuf, io) := hex2asciiFrom (pre.getD []) (suf.getD []) asciiBuf 0 bytes
  (asciiBuf, io)

/-- the buffer of a caller, with room for so many characters and a NUL -/
structure Room (n : Nat) where
  cells : Nat → UInt8
  size : Nat
  fits : n < size
  size_lt : size < 2 ^ 31

/-! ## the law of the encoder -/

def IsUpperHex (c : UInt8) : Prop := 0x30 ≤ c ∧ c ≤ 0x39 ∨ 0x41 ≤ c ∧ c ≤ 0x46

instance (c : UInt8) : Decidable (IsUpperHex c) := inferInstanceAs (Decidable (_ ∨ _))

/-- what `buf_ascii2hex` is given: the buffer from its start on -/
def Room.memory {n : Nat} (r : Room n) (cells : Nat → UInt8) : List UInt8 := slice cells 0 r.size

/-- the string in the buffer -/
def Room.text {n : Nat} (r : Room n) (cells : Nat → UInt8) : List UInt8 :=
  (r.memory cells).takeWhile (· ≠ 0)

/-- `bytes` have become text, and that text gives them back -/
structure RoundTrips {n : Nat} (r : Room n) (bytes : List UInt8) (out : (Nat → UInt8) × Int) :
    Prop where
  returned : out.2 = 2 * bytes.length
  digits : (r.text out.1).length = 2 * bytes.length ∧ ∀ c ∈ r.text out.1, IsUpperHex c
  back : (ascii2hex (r.memory out.1)).result = true ∧
    (ascii2hex (r.memory out.1)).bytes = bytes ∧
    (ascii2hex (r.memory out.1)).hexBuflen = bytes.length

section
variable {n : Nat} {bytes : List UInt8}

theorem hexChar_digit : ∀ k < 16, hexDigit (hexChar (UInt8.ofNat k)) = some (UInt8.ofNat k) ∧
    IsUpperHex (hexChar (UInt8.ofNat k)) := by
  decide

theorem hexChar_of_lt {k : UInt8} (hk : k.toNat < 16) :
    hexDigit (hexChar k) = some k ∧ IsUpperHex (hexChar k) := by
  have h := hexChar_digit k.toNat hk
  rwa [UInt8.ofNat_toNat] at h

theorem div_lt_16 (b : UInt8) : (b / 16).toNat < 16 := by
  have hlt := b.toNat_lt
  rw [UInt8.toNat_div, show (16 : UInt8).toNat = 16 from rfl]
  omega

theorem mod_lt_16 (b : UInt8) : (b % 16).toNat < 16 := by
  rw [UInt8.toNat_mod, show (16 : UInt8).toNat = 16 from rfl]
  omega

theorem div_mod_16 (b : UInt8) : 16 * (b / 16) + b % 16 = b := by
  refine UInt8.toNat_inj.mp ?_
  have hlt := b.toNat_lt
  rw [UInt8.toNat_add, UInt8.toNat_mul, UInt8.toNat_div, UInt8.toNat_mod,
    show (16 : UInt8).toNat = 16 from rfl]
  omega

theorem hexText_upper {c : UInt8} (hc : c ∈ bytes.flatMap hexPair) : IsUpperHex c := by
  obtain ⟨b, -, hc⟩ := List.mem_flatMap.mp hc
  rcases List.mem_cons.mp hc with rfl | hc
  · exact (hexChar_of_lt (div_lt_16 b)).2
  · rw [List.mem_singleton.mp hc]
    exact (hexChar_of_lt (mod_lt_16 b)).2

theorem hexText_length (bytes : List UInt8) :
    (bytes.flatMap hexPair).length = 2 * bytes.length := by
  induction bytes with
  | nil => rfl
  | cons b bytes ih =>
    rw [List.flatMap_cons, List.length_append, ih, List.length_cons]
    show 2 + _ = _
    omega

theorem IsUpperHex.ne_zero {c : UInt8} (h : IsUpperHex c) : c ≠ 0 := by
  rintro rfl
  exact absurd h (by decide)

/-- the digits of the bytes give them back -/
theorem hexBytes_hexText (bytes : List UInt8) : hexBytes (bytes.flatMap hexPair) = some bytes := by
  induction bytes with
  | nil => rfl
  | cons b bytes ih =>
    show hexBytes (hexChar (b / 16) :: hexChar (b % 16) :: bytes.flatMap hexPair) = _
    rw [hexBytes, (hexChar_of_lt (div_lt_16 b)).1, (hexChar_of_lt (mod_lt_16 b)).1, ih]
    exact congrArg (fun x => some (x :: bytes)) (div_mod_16 b)

/-- the loop, from the place `io` on: each text covers the NUL of the one before -/
theorem hex2asciiFrom_eq (bytes : List UInt8) (cells : Nat → UInt8) (io : Nat) :
    (hex2asciiFrom [] [] cells io bytes).2 = io + 2 * bytes.length ∧
      slice (hex2asciiFrom [] [] cells io bytes).1 io (2 * bytes.length) = bytes.flatMap hexPair ∧
      (∀ i < io, (hex2asciiFrom [] [] cells io bytes).1 i = cells i) ∧
      (bytes ≠ [] ∨ cells io = 0 →
        (hex2asciiFrom [] [] cells io bytes).1 (io + 2 * bytes.length) = 0) := by
  induction bytes generalizing cells io with
  | nil => exact ⟨rfl, rfl, fun _ _ => rfl, fun h => h.resolve_left fun h => h rfl⟩
  | cons b bytes ih =>
    let text := hexPair b ++ [0]
    have hstep : hex2asciiFrom [] [] cells io (b :: bytes) =
        hex2asciiFrom [] [] (overwrite cells io text) (io + 2) bytes := rfl
    have hend : io + 2 * (b :: bytes).length = io + 2 + 2 * bytes.length := by
      rw [List.length_cons]
      omega
    have hcell : ∀ k (hk : k < 3), overwrite cells io text (io + k) = text[k] := fun k hk =>
      overwrite_in cells io text k hk
    obtain ⟨hio, hslice, hkept, hnul⟩ := ih (overwrite cells io text) (io + 2)
    rw [hstep, hend]
    refine ⟨hio, ?_, fun i hi => ?_, fun _ => hnul (.inr (hcell 2 (by decide)))⟩
    · rw [List.length_cons, Nat.mul_succ, Nat.add_comm (2 * bytes.length) 2, slice_append,
        hslice, List.flatMap_cons]
      congr 1
      have hfirst : ∀ k (hk : k < (hexPair b).length),
          (hex2asciiFrom [] [] (overwrite cells io text) (io + 2) bytes).1 (io + k) =
            (hexPair b)[k] := by
        intro k hk
        have hk2 : k < 2 := hk
        rw [hkept (io + k) (by omega), hcell k (by omega)]
        exact List.getElem_append_left hk
      exact slice_eq_list_iff.mpr hfirst
    · rw [hkept i (by omega)]
      exact overwrite_out cells io text i (.inl hi)

/-- the text in the buffer is that of the bytes -/
theorem text_eq {bytes : List UInt8} (r : Room (2 * bytes.length))
    (h : bytes ≠ [] ∨ r.cells 0 = 0) :
    r.text (bufHex2ascii none none r.cells bytes).1 = bytes.flatMap hexPair := by
  obtain ⟨-, hslice, -, hnul⟩ := hex2asciiFrom_eq bytes r.cells 0
  rw [Nat.zero_add] at hnul
  have hlength := hexText_length bytes
  refine takeWhile_slice ?_ ?_ (fun c hc => (hexText_upper hc).ne_zero) ?_
  · rw [hlength]
    exact r.fits
  · rw [hlength]
    exact hslice
  · rw [hlength]
    exact hnul h

/-- the text of no bytes, where there was one before -/
theorem text_kept (r : Room (2 * ([] : List UInt8).length)) (h : r.cells 0 ≠ 0) :
    r.text (bufHex2ascii none none r.cells []).1 ≠ [] := by
  obtain ⟨m, hm⟩ := Nat.exists_eq_add_of_lt (Nat.lt_of_le_of_lt (Nat.zero_le _) r.fits)
  unfold Room.text Room.memory
  rw [hm, Nat.zero_add, Nat.add_comm, slice_append]
  show (r.cells 0 :: slice r.cells 1 m).takeWhile (· ≠ 0) ≠ []
  rw [List.takeWhile_cons, if_pos (decide_eq_true h)]
  exact List.cons_ne_nil _ _

/-- **A round trip** of every list of bytes but the empty one, of which the buffer is left as it
was. -/
theorem roundTrips_iff (bytes : List UInt8) (r : Room (2 * bytes.length)) :
    RoundTrips r bytes (bufHex2ascii none none r.cells bytes) ↔ bytes ≠ [] ∨ r.cells 0 = 0 := by
  let out := bufHex2ascii none none r.cells bytes
  constructor
  · intro h
    by_contra hnot
    obtain ⟨hempty, hfirst⟩ := not_or.mp hnot
    obtain rfl := not_not.mp hempty
    exact text_kept r hfirst (List.length_eq_zero_iff.mp h.digits.1)
  · intro h
    have htext : r.text out.1 = bytes.flatMap hexPair := text_eq r h
    have hdecode : bufAscii2hex (r.memory out.1) = (bytes, true) := by
      refine bufAscii2hex_of_hexBytes ?_
      show hexBytes (r.text out.1) = _
      rw [htext]
      exact hexBytes_hexText bytes
    obtain ⟨hbytes, hresult⟩ := ascii2hex_eq (r.memory out.1)
    rw [hdecode] at hbytes hresult
    refine ⟨?_, ⟨?_, fun c hc => ?_⟩, hresult, hbytes, congrArg List.length hbytes⟩
    · show (((hex2asciiFrom [] [] r.cells 0 bytes).2 : Nat) : Int) = _
      rw [(hex2asciiFrom_eq bytes r.cells 0).1, Nat.zero_add]
      exact Int.natCast_mul 2 bytes.length
    · rw [htext]
      exact hexText_length bytes
    · rw [htext] at hc
      exact hexText_upper hc

/-- the text of no bytes is what was in the buffer before -/
theorem empty_text : ¬ ∀ (bytes : List UInt8) (r : Room (2 * bytes.length)),
    RoundTrips r bytes (bufHex2ascii none none r.cells bytes) := by
  intro hall
  let r : Room (2 * ([] : List UInt8).length) :=
    ⟨Function.update (fun _ => 0) 0 0x41, 16, by decide, by decide⟩
  have hdigits := (hall [] r).digits.1
  exact absurd hdigits (by decide)

end
end Hex
end Hydra
