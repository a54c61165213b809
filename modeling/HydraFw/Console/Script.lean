import HydraFw.Lib.Runs
import HydraFw.Lib.Lines

/-!
# Running a script

`execute_script` (`script.c`).  Its line buffer `inbuf` is static, and `tl_input` may run another
script before it returns.

* `Inbuf`           the line buffer, which is zero behind the lines;
* `Frame`           a call of `execute_script` that has not returned;
* `Event`           what the call of `tl_input` that is running does next;
* `step`            one step of the innermost call;
* `Ok`              a part of a line is taken for what its line is, and the buffer still has the
                    byte that was read there;
* `fed_run`         then every script feeds `tl_input` as it should, and ends;
* `nested_overwrites`   a line of a nested script that is longer than where the outer one is goes
                    to `tl_input` in its place.
-/

namespace Hydra
namespace Script
open Lines Runs

/-- `IN_OUT_BUF_SIZE` -/
def inOutBufSize : Nat := 2048

structure Inbuf where
  cell : Nat → Byte
  tail : ∀ k, inOutBufSize ≤ k → cell k = 0

/-- `file_readline` stores what it reads, and a NUL -/
def Inbuf.store (x : Inbuf) (piece : List Byte) (h : piece.length < inOutBufSize) : Inbuf where
  cell k := if k ≤ piece.length then piece.getD k 0 else x.cell k
  tail k hk := by rw [if_neg (by omega), x.tail k hk]

inductive Place where
  /-- the test of the outer loop -/
  | readline
  /-- the test of the inner loop -/
  | feed (i : Nat)

structure Frame where
  /-- what the file `fp` holds -/
  file : List Byte
  /-- the file pointer -/
  fptr : Nat
  place : Place
  /-- `tl_input` has been called and has not returned -/
  calling : Bool
  /-- what `tl_input` has been called with -/
  fed : List Byte
  /-- the piece of the file that was read last (not in the code) -/
  piece : List Byte
  /-- the pieces that nested scripts have read since, the last one first (not in the code) -/
  since : List (List Byte)

/-- the file is open, and `tl_input` is called with 0x03 -/
def Frame.opened (file : List Byte) : Frame := ⟨file, 0, .readline, true, [0x03], [], []⟩

def Frame.left (f : Frame) : List Byte := f.file.drop f.fptr

structure State where
  inbuf : Inbuf
  /-- the innermost call first -/
  stack : List Frame
  /-- the calls that have returned -/
  returned : List Frame

inductive Event where
  | returns
  /-- the callback calls `execute_script` on another file -/
  | runs (file : List Byte)

def State.start (inbuf : Inbuf) (file : List Byte) : State := ⟨inbuf, [Frame.opened file], []⟩

section
variable (g : Gets)

def Frame.nextPiece (f : Frame) : List Byte := g.piece inOutBufSize f.left

theorem nextPiece_length (f : Frame) : (f.nextPiece g).length < inOutBufSize :=
  g.length_lt inOutBufSize f.left (by decide)

/-- a turn of the outer loop up to the inner one -/
def Frame.read (f : Frame) : Frame :=
  { f with
    fptr := f.fptr + (f.nextPiece g).length
    place := if (f.nextPiece g).getD 0 0 = hash then .readline else .feed 0
    piece := f.nextPiece g
    since := [] }

/-- a nested script has read `piece` -/
def Frame.under (piece : List Byte) (f : Frame) : Frame := { f with since := piece :: f.since }

def Frame.feed (f : Frame) (i : Nat) (b : Byte) : Frame :=
  if b = 0 then { f with place := .readline }
  else { f with place := .feed (i + 1), calling := true, fed := f.fed ++ [b] }

/-- a step of `execute_script` itself -/
def ownStep (s : State) (f : Frame) (fs : List Frame) : State :=
  match f.place with
  | .readline =>
    if f.left = [] then { s with stack := fs, returned := s.returned ++ [f] }
    else
      { s with
        inbuf := s.inbuf.store (f.nextPiece g) (nextPiece_length g f)
        stack := f.read g :: fs.map (Frame.under (f.nextPiece g)) }
  | .feed i => { s with stack := f.feed i (s.inbuf.cell i) :: fs }

def step (s : State) (e : Event) : State :=
  match s.stack with
  | [] => s
  | f :: fs =>
    if f.calling then
      match e with
      | .returns => { s with stack := { f with calling := false } :: fs }
      | .runs file => { s with stack := Frame.opened file :: f :: fs }
    else ownStep g s f fs

/-! ## the condition -/

/-- the next byte of the file belongs to a comment -/
def Frame.inComment (f : Frame) : Bool :=
  (Pos.start.after (f.file.take f.fptr)).comment (f.left.getD 0 0)

/-- a part of a comment is skipped or begins with a NUL, and one of another line is not skipped
and has no NUL -/
def PieceOk (comment : Bool) (piece : List Byte) : Prop :=
  if comment then piece.getD 0 0 = hash ∨ piece.getD 0 0 = 0
  else piece.getD 0 0 ≠ hash ∧ 0 ∉ piece

/-- the byte at `k` by what nested scripts have read: the last piece that reaches `k` counts -/
def Frame.byteAt (f : Frame) (k : Nat) : Byte :=
  ((f.since.find? fun q => k ≤ q.length).getD f.piece).getD k 0

def OwnOk (f : Frame) : Place → Prop
  | .readline => f.left ≠ [] → PieceOk f.inComment (f.nextPiece g)
  | .feed i => f.byteAt i = f.piece.getD i 0

def StackOk : List Frame → Prop
  | [] => True
  | f :: _ => f.calling = false → OwnOk g f f.place

def Ok (s : State) (_ : Event) : Prop := StackOk g s.stack

instance (comment : Bool) (piece : List Byte) : Decidable (PieceOk comment piece) :=
  inferInstanceAs (Decidable (if comment then _ else _))

instance (f : Frame) : ∀ p, Decidable (OwnOk g f p)
  | .readline => inferInstanceAs (Decidable (_ → _))
  | .feed _ => inferInstanceAs (Decidable (_ = _))

instance : ∀ fs, Decidable (StackOk g fs)
  | [] => .isTrue trivial
  | _ :: _ => inferInstanceAs (Decidable (_ → _))

instance (s : State) (e : Event) : Decidable (Ok g s e) := inferInstanceAs (Decidable (StackOk g _))

end

/-! ## what is fed -/

/-- what a script is to feed -/
def owed (file : List Byte) : List Byte := 0x03 :: (uncommented file).flatten

/-- what it is to feed for the part of the file that has been read -/
def Frame.owedSoFar (f : Frame) : List Byte := 0x03 :: Pos.start.kept (f.file.take f.fptr)

theorem owedSoFar_isPrefix (f : Frame) : f.owedSoFar <+: owed f.file := by
  have hsplit := Pos.kept_append .start (f.file.take f.fptr) f.left
  rw [Frame.left, List.take_append_drop, kept_start] at hsplit
  exact ⟨_, by rw [owed, hsplit]; rfl⟩

theorem owedSoFar_all {f : Frame} (h : f.left = []) : f.owedSoFar = owed f.file := by
  have hall : f.file.take f.fptr = f.file := List.take_of_length_le (List.drop_eq_nil_iff.mp h)
  rw [Frame.owedSoFar, hall, kept_start]
  rfl

/-- the inner loop is at `i`, and is to feed `todo` -/
structure Feeding (inbuf : Inbuf) (f : Frame) (i : Nat) (todo : List Byte) : Prop where
  noNul : 0 ∉ todo
  reads : ∀ k ≤ todo.length, f.piece.getD k 0 = todo.getD k 0
  le : todo.length ≤ f.piece.length
  at_le : i ≤ todo.length
  fed : f.fed ++ todo.drop i = f.owedSoFar
  holds : ∀ k ≤ f.piece.length, inbuf.cell k = f.byteAt k

def FrameAt (inbuf : Inbuf) (f : Frame) : Place → Prop
  | .readline => f.fed = f.owedSoFar
  | .feed i => ∃ todo, Feeding inbuf f i todo

def FrameInv (inbuf : Inbuf) (f : Frame) : Prop := FrameAt inbuf f f.place

theorem FrameInv.fed_isPrefix {inbuf : Inbuf} {f : Frame} (h : FrameInv inbuf f) :
    f.fed <+: owed f.file := by
  refine List.IsPrefix.trans ?_ (owedSoFar_isPrefix f)
  rw [FrameInv] at h
  cases hp : f.place with
  | readline =>
    rw [hp] at h
    exact ⟨[], by rw [List.append_nil]; exact h⟩
  | feed i =>
    rw [hp] at h
    obtain ⟨todo, h⟩ := h
    exact ⟨todo.drop i, h.fed⟩

theorem FrameInv.returns {inbuf : Inbuf} {f : Frame} (h : FrameInv inbuf f) :
    FrameInv inbuf { f with calling := false } := by
  rw [FrameInv] at h
  show FrameAt _ { f with calling := false } f.place
  cases hp : f.place with
  | readline =>
    rw [hp] at h
    exact h
  | feed i =>
    rw [hp] at h
    obtain ⟨todo, h⟩ := h
    exact ⟨todo, h.noNul, h.reads, h.le, h.at_le, h.fed, h.holds⟩

/-- a nested script reads a piece -/
theorem FrameInv.under {inbuf : Inbuf} {f : Frame} (h : FrameInv inbuf f) (piece : List Byte)
    (hlen : piece.length < inOutBufSize) :
    FrameInv (inbuf.store piece hlen) (f.under piece) := by
  rw [FrameInv] at h
  show FrameAt _ (f.under piece) f.place
  cases hp : f.place with
  | readline =>
    rw [hp] at h
    exact h
  | feed i =>
    rw [hp] at h
    obtain ⟨todo, h⟩ := h
    refine ⟨todo, h.noNul, h.reads, h.le, h.at_le, h.fed, fun k hk => ?_⟩
    show (if k ≤ piece.length then piece.getD k 0 else inbuf.cell k) =
      (((piece :: f.since).find? fun q => k ≤ q.length).getD f.piece).getD k 0
    by_cases hreach : k ≤ piece.length
    · rw [if_pos hreach, List.find?_cons, decide_eq_true hreach]
      rfl
    · rw [if_neg hreach, List.find?_cons, decide_eq_false hreach]
      exact h.holds k hk

section
variable {g : Gets}

/-- the bytes that the outer loop adds to what is owed -/
theorem owedSoFar_read {f : Frame} (h : f.left ≠ []) :
    (f.read g).owedSoFar =
      f.owedSoFar ++ if f.inComment then [] else f.nextPiece g := by
  obtain ⟨rest, hrest⟩ := g.isPrefix inOutBufSize f.left
  have htake : f.file.take (f.fptr + (f.nextPiece g).length) =
      f.file.take f.fptr ++ f.nextPiece g := by
    rw [List.take_add]
    congr 1
    show f.left.take _ = _
    rw [← hrest]
    exact List.take_left
  obtain ⟨b, t, hpiece⟩ := List.exists_cons_of_ne_nil
    (g.ne_nil inOutBufSize f.left (by decide) h)
  have hfirst : f.left.getD 0 0 = b := by
    rw [← hrest, hpiece]
    rfl
  have hnewline : newline ∉ (b :: t).dropLast := by
    rw [← hpiece]
    exact g.newline_last inOutBufSize f.left
  have hpart := Pos.kept_part (Pos.start.after (f.file.take f.fptr)) hnewline
  show 0x03 :: Pos.start.kept (f.file.take (f.fptr + (f.nextPiece g).length)) = _
  rw [htake, Pos.kept_append, Frame.inComment, hfirst, Frame.nextPiece, hpiece, hpart]
  rfl

theorem FrameInv.read {inbuf : Inbuf} {f : Frame} (h : f.fed = f.owedSoFar) (hleft : f.left ≠ [])
    (hok : PieceOk f.inComment (f.nextPiece g)) :
    FrameInv (inbuf.store (f.nextPiece g) (nextPiece_length g f)) (f.read g) := by
  have howed := owedSoFar_read (g := g) hleft
  show FrameAt _ (f.read g) (if (f.nextPiece g).getD 0 0 = hash then .readline else .feed 0)
  by_cases hhash : (f.nextPiece g).getD 0 0 = hash
  · rw [if_pos hhash]
    show f.fed = (f.read g).owedSoFar
    cases hc : f.inComment with
    | false =>
      rw [hc] at hok
      exact absurd hhash hok.1
    | true =>
      rw [hc] at howed
      rw [howed, h]
      exact (List.append_nil _).symm
  · rw [if_neg hhash]
    have hholds : ∀ k ≤ (f.nextPiece g).length,
        (inbuf.store (f.nextPiece g) (nextPiece_length g f)).cell k = (f.read g).byteAt k :=
      fun k hk => if_pos hk
    cases hc : f.inComment with
    | false =>
      rw [hc] at hok howed
      refine ⟨f.nextPiece g, hok.2, fun _ _ => rfl, Nat.le_refl _, Nat.zero_le _, ?_, hholds⟩
      rw [howed, ← h]
      rfl
    | true =>
      rw [hc] at hok howed
      have hnul : (f.nextPiece g).getD 0 0 = 0 := hok.resolve_left hhash
      refine ⟨[], List.not_mem_nil, fun k hk => ?_, Nat.zero_le _, Nat.le_refl _, ?_, hholds⟩
      · obtain rfl : k = 0 := Nat.le_zero.mp hk
        exact hnul
      · rw [howed, ← h]
        rfl

theorem FrameInv.feed {inbuf : Inbuf} {f : Frame} {i : Nat} {todo : List Byte}
    (h : Feeding inbuf f i todo) (hok : f.byteAt i = f.piece.getD i 0) :
    FrameInv inbuf (f.feed i (inbuf.cell i)) := by
  have hcell : inbuf.cell i = todo.getD i 0 := by
    rw [h.holds i (h.at_le.trans h.le), hok, h.reads i h.at_le]
  rw [Frame.feed]
  by_cases hi : i < todo.length
  · have hget : todo.getD i 0 = todo[i] := (List.getElem_eq_getD 0).symm
    have hne : inbuf.cell i ≠ 0 := by
      rw [hcell, hget]
      intro hzero
      exact h.noNul (by rw [← hzero]; exact List.getElem_mem hi)
    rw [if_neg hne]
    refine ⟨todo, h.noNul, h.reads, h.le, hi, ?_, h.holds⟩
    show (f.fed ++ [inbuf.cell i]) ++ todo.drop (i + 1) = f.owedSoFar
    rw [← h.fed, hcell, hget, List.append_assoc, List.singleton_append,
      List.getElem_cons_drop]
  · have hend : i = todo.length := Nat.le_antisymm h.at_le (Nat.le_of_not_lt hi)
    have hzero : inbuf.cell i = 0 := by
      rw [hcell, hend]
      rw [List.getD_eq_getElem?_getD, List.getElem?_eq_none (Nat.le_refl _)]
      rfl
    rw [if_pos hzero]
    show f.fed = f.owedSoFar
    rw [← h.fed, hend, List.drop_length, List.append_nil]

structure Inv (s : State) : Prop where
  stack : ∀ f ∈ s.stack, FrameInv s.inbuf f
  returned : ∀ f ∈ s.returned, f.fed = owed f.file

theorem inv_start (inbuf : Inbuf) (file : List Byte) : Inv (State.start inbuf file) := by
  refine ⟨fun f hf => ?_, nofun⟩
  obtain rfl := List.mem_singleton.mp hf
  rfl

theorem Inv.ownStep {s : State} {f : Frame} {fs : List Frame} (h : Inv s)
    (hs : s.stack = f :: fs) (hok : OwnOk g f f.place) : Inv (ownStep g s f fs) := by
  have htop : FrameInv s.inbuf f := h.stack f (by rw [hs]; exact List.mem_cons_self)
  have hbelow : ∀ q ∈ fs, FrameInv s.inbuf q := fun q hq =>
    h.stack q (by rw [hs]; exact List.mem_cons_of_mem f hq)
  rw [FrameInv] at htop
  rw [Script.ownStep]
  cases hp : f.place with
  | readline =>
    rw [hp] at htop hok
    by_cases hleft : f.left = []
    · simp only [if_pos hleft]
      refine ⟨hbelow, fun q hq => ?_⟩
      rcases List.mem_append.mp hq with hq | hq
      · exact h.returned q hq
      · obtain rfl := List.mem_singleton.mp hq
        exact htop.trans (owedSoFar_all hleft)
    · simp only [if_neg hleft]
      refine ⟨fun q hq => ?_, h.returned⟩
      rcases List.mem_cons.mp hq with rfl | hq
      · exact FrameInv.read htop hleft (hok hleft)
      · obtain ⟨q, hmem, rfl⟩ := List.mem_map.mp hq
        exact (hbelow q hmem).under _ (nextPiece_length g f)
  | feed i =>
    rw [hp] at htop hok
    obtain ⟨todo, htop⟩ := htop
    refine ⟨fun q hq => ?_, h.returned⟩
    rcases List.mem_cons.mp hq with rfl | hq
    · exact FrameInv.feed htop hok
    · exact hbelow q hq

theorem Inv.step {s : State} (e : Event) (h : Inv s) (hok : Ok g s e) : Inv (step g s e) := by
  rw [Script.step]
  rw [Ok] at hok
  cases hs : s.stack with
  | nil => exact h
  | cons f fs =>
    rw [hs] at hok
    have hmem : ∀ q ∈ f :: fs, FrameInv s.inbuf q := fun q hq => h.stack q (by rw [hs]; exact hq)
    cases hcall : f.calling with
    | false =>
      simp only [hcall, Bool.false_eq_true, if_false]
      exact h.ownStep hs (hok hcall)
    | true =>
      simp only [hcall, if_true]
      cases e with
      | returns =>
        refine ⟨fun q hq => ?_, h.returned⟩
        rcases List.mem_cons.mp hq with rfl | hq
        · exact (hmem f List.mem_cons_self).returns
        · exact hmem q (List.mem_cons_of_mem f hq)
      | runs file =>
        refine ⟨fun q hq => ?_, h.returned⟩
        rcases List.mem_cons.mp hq with rfl | hq
        · rfl
        · exact hmem q hq

end

/-! ## the end -/

def Place.rank : Place → Nat
  | .readline => 1
  | .feed i => 2 * (inOutBufSize - i) + 2

/-- what a call still has before it, but for nested scripts -/
def Frame.rank (f : Frame) : Nat :=
  f.left.length * (2 * inOutBufSize + 3) + f.place.rank + f.calling.toNat

def State.rank (s : State) : Nat := (s.stack.map Frame.rank).sum

section
variable {g : Gets}

theorem left_read_lt {f : Frame} (h : f.left ≠ []) :
    (f.read g).left.length < f.left.length := by
  have hpos : 0 < (f.nextPiece g).length :=
    List.length_pos_of_ne_nil (g.ne_nil inOutBufSize f.left (by decide) h)
  have hle := (g.isPrefix inOutBufSize f.left).length_le
  have hread : (f.read g).left.length = f.file.length - (f.fptr + (f.nextPiece g).length) :=
    List.length_drop
  have hleft : f.left.length = f.file.length - f.fptr := List.length_drop
  rw [Frame.nextPiece] at *
  omega

theorem rank_read_lt {f : Frame} (h : f.left ≠ []) (hcall : f.calling = false)
    (hp : f.place = .readline) : (f.read g).rank < f.rank := by
  have hlt := Nat.mul_le_mul_right (2 * inOutBufSize + 3) (left_read_lt (g := g) h)
  have hplace : (f.read g).place.rank ≤ 2 * inOutBufSize + 2 := by
    show Place.rank (if (f.nextPiece g).getD 0 0 = hash then .readline else .feed 0) ≤ _
    split
    · exact Nat.le_add_left 1 _
    · exact Nat.le_refl _
  have hsame : (f.read g).calling = false := hcall
  rw [Nat.succ_mul] at hlt
  rw [Frame.rank, Frame.rank, hsame, hcall, hp, Place.rank, Bool.toNat_false]
  omega

theorem rank_feed_lt {f : Frame} {i : Nat} {b : Byte} (hcall : f.calling = false)
    (hp : f.place = .feed i) (hb : inOutBufSize ≤ i → b = 0) : (f.feed i b).rank < f.rank := by
  have hfrank : f.rank = f.left.length * (2 * inOutBufSize + 3) + (2 * (inOutBufSize - i) + 2) := by
    rw [Frame.rank, hcall, hp, Place.rank, Bool.toNat_false, Nat.add_zero]
  rw [Frame.feed, hfrank]
  by_cases hzero : b = 0
  · rw [if_pos hzero, Frame.rank]
    show f.left.length * (2 * inOutBufSize + 3) + 1 + f.calling.toNat < _
    rw [hcall]
    show _ + 1 + 0 < _
    omega
  · have hi : ¬inOutBufSize ≤ i := fun hi => hzero (hb hi)
    rw [if_neg hzero]
    show f.left.length * (2 * inOutBufSize + 3) + (2 * (inOutBufSize - (i + 1)) + 2) + 1 < _
    omega

theorem rank_under (piece : List Byte) (fs : List Frame) :
    (fs.map (Frame.under piece)).map Frame.rank = fs.map Frame.rank := by
  rw [List.map_map]
  rfl

/-- while no further script is run, every step comes nearer to the end -/
theorem rank_step_lt {s : State} (h : s.stack ≠ []) : (step g s .returns).rank < s.rank := by
  obtain ⟨f, fs, hs⟩ := List.exists_cons_of_ne_nil h
  have hrank : s.rank = f.rank + (fs.map Frame.rank).sum := by
    rw [State.rank, hs]
    rfl
  rw [step, hs, hrank]
  cases hcall : f.calling with
  | true =>
    simp only [hcall, if_true]
    show f.left.length * (2 * inOutBufSize + 3) + f.place.rank + 0 + (fs.map Frame.rank).sum < _
    rw [Frame.rank, hcall]
    show _ < _ + 1 + _
    omega
  | false =>
    simp only [hcall, Bool.false_eq_true, if_false]
    rw [ownStep]
    cases hp : f.place with
    | readline =>
      by_cases hleft : f.left = []
      · simp only [if_pos hleft]
        show (fs.map Frame.rank).sum < _
        have hpos : 0 < f.rank := by
          rw [Frame.rank, hp]
          show 0 < _ + 1 + _
          omega
        omega
      · simp only [if_neg hleft]
        show (f.read g).rank + ((fs.map (Frame.under (f.nextPiece g))).map Frame.rank).sum < _
        rw [rank_under]
        exact Nat.add_lt_add_right (rank_read_lt hleft hcall hp) _
    | feed i =>
      show (f.feed i (s.inbuf.cell i)).rank + (fs.map Frame.rank).sum < _
      exact Nat.add_lt_add_right (rank_feed_lt hcall hp (s.inbuf.tail i)) _

/-- when `tl_input` runs no further script, all calls return -/
theorem ends (s : State) {n : Nat} (hn : s.rank ≤ n) :
    (run (step g) s (List.replicate n .returns)).stack = [] := by
  induction n generalizing s with
  | zero =>
    by_contra h
    have hlt : (step g s .returns).rank < s.rank := rank_step_lt h
    omega
  | succ n ih =>
    show (run (step g) (step g s .returns) (List.replicate n .returns)).stack = []
    refine ih _ ?_
    by_cases h : s.stack = []
    · have hstay : step g s .returns = s := by rw [step, h]
      have hzero : s.rank = 0 := by
        rw [State.rank, h]
        rfl
      rw [hstay, hzero]
      exact Nat.zero_le n
    · have hlt := rank_step_lt (g := g) h
      omega

/-- **Scripts.**  A script that has returned has fed 0x03 and the lines that are not comments, a
script that has not has fed a part of that, and all scripts that are running can return. -/
theorem fed_run {inbuf : Inbuf} {file : List Byte} {es : List Event}
    (h : StepsOk (Ok g) (step g) (State.start inbuf file) es) :
    (∀ f ∈ (run (step g) (State.start inbuf file) es).returned, f.fed = owed f.file) ∧
      (∀ f ∈ (run (step g) (State.start inbuf file) es).stack, f.fed <+: owed f.file) ∧
      ∃ n, (run (step g) (run (step g) (State.start inbuf file) es)
        (List.replicate n .returns)).stack = [] := by
  have hinv : Inv (run (step g) (State.start inbuf file) es) :=
    inv_run (fun _ e hs hok => hs.step e hok) (inv_start inbuf file) h
  exact ⟨hinv.returned, fun f hf => (hinv.stack f hf).fed_isPrefix, _, ends _ (Nat.le_refl _)⟩

end

def Inbuf.zero : Inbuf := ⟨fun _ => 0, fun _ _ => rfl⟩

/-- a script `a` that runs another, an empty line, when its own line is over -/
def nestedEvents : List Event :=
  List.replicate 5 .returns ++ .runs [0x0a] :: List.replicate 9 .returns

theorem fed_run_nested :
    StepsOk (Ok .wholeLines) (step .wholeLines) (State.start .zero [0x61, 0x0a]) nestedEvents ∧
      ∀ f ∈ (run (step .wholeLines) (State.start .zero [0x61, 0x0a]) nestedEvents).returned,
        f.fed = owed f.file := by
  have hok : StepsOk (Ok .wholeLines) (step .wholeLines) (State.start .zero [0x61, 0x0a])
      nestedEvents := by decide
  exact ⟨hok, (fed_run hok).1⟩

/-- `sd script b` runs a script with a line of 15 bytes, the last three of which are fed in its
place -/
theorem nested_overwrites :
    ¬ ∀ g inbuf file es, ∀ f ∈ (run (step g) (State.start inbuf file) es).returned,
      f.fed = owed f.file := by
  intro h
  have hrun := h .wholeLines .zero
    [0x73, 0x64, 0x20, 0x73, 0x63, 0x72, 0x69, 0x70, 0x74, 0x20, 0x62, 0x0a]
    (List.replicate 25 .returns ++
      .runs [0x66, 0x72, 0x65, 0x71, 0x75, 0x65, 0x6e, 0x63, 0x79, 0x20, 0x31, 0x30, 0x6b, 0x68,
        0x0a] :: List.replicate 50 .returns)
  revert hrun
  decide +kernel

end Script
end Hydra
