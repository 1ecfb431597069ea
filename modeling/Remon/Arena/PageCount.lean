import Remon.Arena.Exhaustion
import Remon.Lib.CInt
import Remon.Lib.Double

/-! # The number of pages of a huge request

`hugeMalloc` divides in double precision and keeps the quotient in a `size_t`; the arena takes
an `int`. The division is exact for every size that a caller asks for, the last conversion only
for counts below `2 ^ 31`.
-/

namespace Remon.Arena
open Lib Fault

/-- The count as `hugeMalloc` computes it. -/
def ceilPages (pageSize size : ℕ) : ℕ := Double.ceilDiv size pageSize

theorem ceilPages_eq {pageSize size : ℕ} (hpage : 0 < pageSize) (hpage' : pageSize < 2 ^ 53)
    (hsize : 0 < size) (hsize' : size < 2 ^ 53) :
    ceilPages pageSize size = numPageNeeded pageSize size :=
  Double.ceilDiv_eq hsize hsize' hpage hpage'

def State.allocateNPagesInt (a : State) (R : Region) (n : ℤ) : Except Fault (Option ℕ × State) :=
  a.allocateNPages R (toSize n)

/-- What `hugeMalloc` asks of the arena. -/
def State.hugeRequest (a : State) (R : Region) (pageSize size : ℕ) :
    Except Fault (Option ℕ × State) :=
  a.allocateNPagesInt R (toInt (ceilPages pageSize size))

/-- As many pages are asked for as the size needs, and a block that an arena hands out for them
holds the request. -/
def Covered (pageSize size : ℕ) : Prop :=
  toInt (ceilPages pageSize size) = ((size + pageSize - 1) / pageSize : ℕ) ∧
    ∀ (R : Region) (s : Session), Session.Reachable R s → ∀ p b,
      s.arena.hugeRequest R pageSize size = .ok (some p, b) →
      ∃ n, Session.Reachable R ⟨b, (p, n) :: s.live⟩ ∧ b.tag p = some (n, false) ∧
        size ≤ n * pageSize

/-- A huge request is covered if and only if an `int` can count the pages that it needs. -/
theorem huge_request_covered {pageSize size : ℕ} (hpage : 0 < pageSize)
    (hlarge : pageSize - qsize < size) (hlt : size < 2 ^ 48) :
    Covered pageSize size ↔ size ≤ (2 ^ 31 - 1) * pageSize := by
  have hpage' : pageSize < 2 ^ 53 := by
    unfold qsize at hlarge
    omega
  have hexact : ceilPages pageSize size = (size + pageSize - 1) / pageSize :=
    ceilPages_eq hpage hpage' (by omega) (by omega)
  unfold Covered
  set n := (size + pageSize - 1) / pageSize with hn
  have hup : size + pageSize - 1 < (n + 1) * pageSize :=
    Nat.lt_mul_of_div_lt (Nat.lt_succ_self _) hpage
  rw [Nat.add_mul, Nat.one_mul] at hup
  constructor
  · rintro ⟨hint, -⟩
    have hbound := toInt_lt (ceilPages pageSize size)
    have hle : n * pageSize ≤ (2 ^ 31 - 1) * pageSize := Nat.mul_le_mul_right _ (by omega)
    omega
  · intro hcount
    have hpos : 0 < n := Nat.div_pos (by omega) hpage
    have hbound : n < 2 ^ 31 := by
      rw [hn, Nat.div_lt_iff_lt_mul hpage]
      omega
    have hint : toInt (ceilPages pageSize size) = n := by
      rw [hexact]
      exact toInt_of_lt hbound
    refine ⟨hint, ?_⟩
    intro R s hs p b hrun
    rw [State.hugeRequest, hint, State.allocateNPagesInt, toSize_natCast (by omega)] at hrun
    have hs' : Session.Reachable R ⟨b, (p, n) :: s.live⟩ := .step hs (.allocateNPages hpos hrun)
    obtain ⟨h, hi⟩ := Session.inv_reachable hs'
    have htag := hi.shows.tagged p _ ((hi.live p n).mp (List.mem_cons_self ..))
    exact ⟨n, hs', htag.1, by omega⟩

theorem huge_request_covered_sample :
    toInt (ceilPages 4096 8000) = 2 ∧
    Session.Reachable Session.sampleRegion ⟨Session.sampleArena, [(0, 2)]⟩ ∧
    ∃ p b, Session.sampleArena.hugeRequest Session.sampleRegion 4096 8000 = .ok (some p, b) ∧
      ∃ n, b.tag p = some (n, false) ∧ 8000 ≤ n * 4096 := by
  obtain ⟨hint, hall⟩ := (huge_request_covered (by decide : 0 < 4096)
    (by decide : 4096 - qsize < 8000) (by decide)).mpr (by decide)
  have hs := Session.sample_reachable
  have hfst : (Session.sampleArena.hugeRequest Session.sampleRegion 4096 8000).toOption.map
      Prod.fst = some (some 2) := by decide +kernel
  obtain ⟨b, hrun⟩ := exists_ok hfst
  obtain ⟨n, -, htag, hle⟩ := hall _ _ hs 2 b hrun
  exact ⟨hint, hs, 2, b, hrun, n, htag, hle⟩

/-- A request of a little more than 16 TiB asks for one page of 4096 bytes and gets it. -/
theorem huge_request_truncated :
    ceilPages 4096 (2 ^ 44 + 4096) = 2 ^ 32 + 1 ∧
    toInt (ceilPages 4096 (2 ^ 44 + 4096)) = 1 ∧
    Session.Reachable Session.sampleRegion ⟨Session.sampleArena, [(0, 2)]⟩ ∧
    ∃ b, Session.sampleArena.hugeRequest Session.sampleRegion 4096 (2 ^ 44 + 4096) =
      .ok (some 2, b) ∧ b.tag 2 = some (1, false) := by
  have hneeded : ceilPages 4096 (2 ^ 44 + 4096) = 2 ^ 32 + 1 := by decide +kernel
  have hint : toInt (ceilPages 4096 (2 ^ 44 + 4096)) = 1 := by
    rw [hneeded]
    decide
  refine ⟨hneeded, hint, Session.sample_reachable, ?_⟩
  rw [State.hugeRequest, hint]
  have hfst : (Session.sampleArena.allocateNPagesInt Session.sampleRegion 1).toOption.map
      Prod.fst = some (some 2) := by decide +kernel
  obtain ⟨b, hrun⟩ := exists_ok hfst
  refine ⟨b, hrun, ?_⟩
  have htag : (Session.sampleArena.allocateNPagesInt Session.sampleRegion 1).toOption.map
      (fun r => r.2.tag 2) = some (some (1, false)) := by decide +kernel
  rw [hrun] at htag
  exact Option.some.inj htag

end Remon.Arena
