import Remon.Vmm.ListRuns

/-! # What becomes of the blocks that are carved out of a page

A block that the allocator of a page hands out goes to the caller of `remonMalloc`, and from
there by way of the buffer of its pod back to the allocator. It can get lost in the request to
the last pod of a list, which asks the allocator first and looks at the number of its failed
attempts afterwards.
-/

namespace Remon
open Lib Heap Fault

variable {L : ℕ → Layout} {path : ℕ → String} {b : Prop}

theorem SplState.tryAllocateWithPreviousPod_retries (s : SplState) (size retries : ℕ) :
    s.tryAllocateWithPreviousPod L size retries =
      (s.tryAllocateWithPreviousPod L size 0).map
        (fun r => (if retries > 100 then 0 else r.1, r.2)) := by
  have hzero : (if retries > 100 then 0 else 0) = 0 := ite_self _
  cases hl : s.lastAllocatedPod with
  | none => simp only [tryAllocateWithPreviousPod, hl, Except.map, hzero]
  | some i =>
    simp only [tryAllocateWithPreviousPod, hl]
    generalize (if (s.pods i).state = .init then s.setPod i (s.pods i).initToLocal else s) = t
    split
    · simp only [Except.map, hzero]
    · generalize SplState.podMalloc L t i size = x
      cases x <;> rfl

theorem SplState.Inv.allocate_drops {M : ℕ → Prop} {s t : SplState} {h : ∀ i, AbsHeap (L i)}
    {size ptr i : ℕ} {c : Choice} (hi : s.Inv b M h) (hz : Asize size)
    (hb : ∀ i, (L i).maxIntraPodSize < size → b) (hc : 100 < c.retries)
    (hl : s.lastAllocatedPod = some i)
    (hrun : s.tryAllocateWithPreviousPod L size 0 = .ok (ptr, t)) (hptr : ptr ≠ 0) :
    Yields (Stuck b) (s.allocate L size c) (fun r => ∃ h' n, Goes b M s h r.2 h' ∧
      (r.2.cell h' i).Held ptr n ∧ (∀ k, ¬ (s.cell h i).Held ptr k) ∧
      (r.1 ≠ 0 → r.2.lastAllocatedPod = some i → r.1 ≠ ptr)) := by
  obtain ⟨h₁, hg₁, hserved, hres, -⟩ := (hi.tryAllocateWithPreviousPod hz hb 0).result hrun
  obtain ⟨j, n, -, hlt, -, -, hheld, hnot⟩ := hserved hptr
  -- the last pod is the same one before and after
  obtain rfl : j = i := by
    obtain ⟨p, q, hp, ptr', -, -, -, -, -, -, -, hr⟩ :=
      (tryAllocateWithPreviousPod_ok hl (hi.last i hl).2 hz (hb i) 0).result hrun
    obtain ⟨-, rfl⟩ := Prod.mk.inj hr
    exact Option.some.inj (hlt.symm.trans hl)
  rw [allocate_eq, tryAllocateWithPreviousPod_retries, hrun]
  simp only [Except.map, if_pos hc, ok_bind, ne_eq, not_true_eq_false, if_false]
  refine (hg₁.inv.allocateRest hres hz hb c).mono ?_
  rintro r ⟨h₂, hg₂, hs, -, -⟩
  refine ⟨h₂, n, hg₁.trans hg₂, (hg₂.changes j).1.held ptr n hheld, hnot, ?_⟩
  intro hne hlast hreq
  obtain ⟨k, m, -, hlast', -, -, -, hnew⟩ := hs hne
  obtain rfl : k = j := Option.some.inj (hlast'.symm.trans hlast)
  exact hnew n (hreq ▸ hheld)

namespace Session

variable {s s' : Session} {h h' : ∀ i, AbsHeap (L i)} {op : Op}

def Accounted (s : Session) (h : ∀ i, AbsHeap (L i)) : Prop :=
  ∀ i q n, (s.cell h i).Held q n → ∃ size, ⟨i, q, size⟩ ∈ s.live

theorem accounted_step (ha : s.After L path b h op s' h') (hp : Patient op)
    (hs : s.Accounted h) : s'.Accounted h' := by
  intro i q n hq
  rcases ha.stock hp i q n hq with ⟨hold, hne⟩ | hlive
  · obtain ⟨size, hx⟩ := hs i q n hold
    exact ⟨size, (ha.live _ hx).resolve_right hne⟩
  · exact hlive

theorem Run.accounted {ok : Session → Op → Prop} (hinj : Function.Injective path)
    (hok : ∀ s op, ok s op → (s.Orderly op ∧ Sized L b op) ∧ Patient op) (hs : Run L path ok s) :
    ∃ h, s.Inv L path b h ∧ s.Accounted h := by
  induction hs with
  | start =>
    refine ⟨fun i => .fresh (L i), inv_new (fun _ => rfl), ?_⟩
    rintro i q n ⟨halloc, -⟩
    simp [AbsHeap.Alloc, Pager.cell, AbsHeap.fresh] at halloc
  | step _ hlegal hstep run ih =>
    obtain ⟨h, hi, hacc⟩ := ih
    obtain ⟨⟨horder, hb⟩, hpatient⟩ := hok _ _ hstep
    obtain ⟨h', ha⟩ := (hi.step hinj hlegal hb horder).result run
    exact ⟨h', ha.inv, accounted_step ha hpatient hacc⟩

/-- Every block that is allocated on a page was returned to a caller and is held or waits in the
buffer of its pod; and a request to the last pod returns the block that it takes, or it takes
none. -/
theorem carved_blocks_returned {swapDir : String}
    (hs : Run L (swapFile swapDir) (fun s op => (s.Orderly op ∧ Sized L b op) ∧ Patient op) s) :
    ∃ h : ∀ i, AbsHeap (L i),
      (∀ i, (s.world i).Models (L i) (swapFile swapDir i) b (h i)) ∧
      (∀ i q n, (h i).Alloc q n →
        (∃ size, ⟨i, q, size⟩ ∈ s.live) ∨ q ∈ (s.pods i).freeBuffer) ∧
      ∀ l i size retries, (s.lists l).lastAllocatedPod = some i → Asize size →
        ((L i).maxIntraPodSize < size → b) → retries ≤ 100 →
        Yields (Stuck b) ((s.spl l).tryAllocateWithPreviousPod L size retries) (fun r =>
          (∀ j, j ≠ i → r.2.pods j = s.pods j) ∧ ∃ hp : AbsHeap (L i),
            (r.2.pods i).Models b hp ∧
              (r.1 = 0 ∧ hp = h i ∨ r.1 ≠ 0 ∧ (h i).Took hp size r.1)) := by
  obtain ⟨h, hi, hacc⟩ := hs.accounted (swapFile_injective swapDir) (fun _ _ hok => hok)
  refine ⟨h, hi.pager.pages, ?_, ?_⟩
  · intro i q n halloc
    by_cases hq : q ∈ (s.pods i).freeBuffer
    · exact .inr hq
    · exact .inl (hacc i q n ⟨halloc, hq⟩)
  · intro l i size retries hl hz hb hr
    have hready := ((hi.pager.lists l).last i hl).2
    refine (SplState.tryAllocateWithPreviousPod_ok hl hready hz hb retries).mono ?_
    rintro _ ⟨p, q, hp, ptr, -, -, -, -, -, -, hq, rfl⟩
    dsimp only
    rw [if_neg (not_lt.mpr hr)]
    refine ⟨fun j hj => Function.update_of_ne hj _ _, hp, ?_, hq.outcome⟩
    have hqi : ((s.spl l).setPod i q).pods i = q := Function.update_self _ _ _
    rw [hqi]
    exact hq.models

theorem carved_blocks_returned_sample :
    Run samplePages (swapFile "swap")
      (fun s op => (s.Orderly op ∧ Sized samplePages False op) ∧ Patient op) sampleServed ∧
    ∃ h : ∀ i, AbsHeap (samplePages i), ∀ q n, (h 0).Alloc q n →
      (∃ size, ⟨0, q, size⟩ ∈ sampleServed.live) ∨ q ∈ (sampleServed.pods 0).freeBuffer := by
  have hs : Run samplePages (swapFile "swap")
      (fun s op => (s.Orderly op ∧ Sized samplePages False op) ∧ Patient op) sampleServed := by
    refine sampleServed_run _ fun s => ⟨⟨⟨trivial, trivial⟩, trivial⟩, ⟨⟨trivial, ?_⟩, ?_⟩,
      ⟨⟨trivial, trivial⟩, trivial⟩⟩
    · exact fun _ => (by decide : ¬ 4096 - 32 < 64)
    · exact Nat.zero_le _
  obtain ⟨h, -, hblocks, -⟩ := carved_blocks_returned hs
  exact ⟨hs, h, hblocks 0⟩

/-- A request that finds the last pod busy more than a hundred times and is then served by it
leaves a block behind that nobody holds and nobody will free. -/
theorem busy_request_loses_block {l i size ptr : ℕ} {c : Choice} {t : SplState}
    (hs : s.Inv L path b h) (hlegal : s.Legal L (.allocate l size c))
    (hb : Sized L b (.allocate l size c)) (hc : 100 < c.retries)
    (hl : (s.lists l).lastAllocatedPod = some i)
    (hrun : (s.spl l).tryAllocateWithPreviousPod L size 0 = .ok (ptr, t)) (hptr : ptr ≠ 0)
    (run : s.step L path (.allocate l size c) = .ok s') :
    ∃ hp : AbsHeap (L i), (s'.pods i).Models b hp ∧ hp.isLive ptr = true ∧
      ptr ∉ (s'.pods i).freeBuffer ∧ ∀ size, ⟨i, ptr, size⟩ ∉ s'.live := by
  obtain ⟨⟨r, g⟩, hall, hs'⟩ := of_bind_ok run
  obtain ⟨⟨r', u⟩, hspl, hg⟩ := of_bind_ok hall
  obtain ⟨rfl, rfl⟩ := Prod.mk.inj (Except.ok.inj hg)
  obtain ⟨h', n, hgoes, hheld, hnot, hother⟩ :=
    ((hs.pager.lists l).allocate_drops hlegal.1 hb hc hl hrun hptr).result hspl
  have hfiled : (s.spl l).Filed i := ((hs.pager.lists l).last i hl).1
  have hmodels : (u.pods i).Models b (h' i) :=
    (hgoes.inv.ready ((hgoes.filed i).mpr hfiled)).elim And.left And.left
  -- what was held before is another block
  have hold : ∀ k, ⟨i, ptr, k⟩ ∉ s.live := by
    intro k hk
    obtain ⟨m, -, hm⟩ := hs.held _ hk
    exact hnot m hm
  have hpods : s'.toPager = s.putSpl l u := by
    rw [← Except.ok.inj hs']
    split
    · rfl
    · exact toPager_grant ..
  refine ⟨h' i, ?_, (h' i).isLive_iff.mpr ⟨n, hheld.1⟩, ?_, ?_⟩
  · rw [hpods]
    exact hmodels
  · rw [hpods]
    exact hheld.2
  · intro k hk
    rw [← Except.ok.inj hs'] at hk
    split at hk
    · exact hold k hk
    next hne =>
      rw [grant] at hk
      split at hk
      · exact hold k hk
      next j hlast =>
        have hlast' : (((s.putSpl l u).spl l)).lastAllocatedPod = some j := hlast
        rw [Pager.spl_putSpl] at hlast'
        rcases List.mem_cons.mp hk with hx | hk
        · obtain ⟨rfl, rfl, -⟩ := Grant.mk.inj hx
          exact hother hne hlast' rfl
        · exact hold k hk

def busyChoice : Choice := { sampleChoice with retries := 101 }

def sampleDropped : Session :=
  sampleServed.next samplePages (swapFile "swap") (.allocate 0 64 busyChoice)

/-- The request got a block at 4240, and the page has yet another one in use, which is in no buffer
and which no caller holds. -/
theorem carved_block_dropped :
    Run samplePages (swapFile "swap") (fun s op => s.Orderly op ∧ Sized samplePages False op)
      sampleDropped ∧
    sampleDropped.live = [⟨0, 4240, 64⟩, ⟨0, 4112, 64⟩] ∧ sampleDropped.wanting 0 = none ∧
    ∃ (hp : AbsHeap (samplePages 0)) (q : ℕ), (sampleDropped.pods 0).Models False hp ∧
      hp.isLive q = true ∧ q ∉ (sampleDropped.pods 0).freeBuffer ∧
      ∀ size, ⟨0, q, size⟩ ∉ sampleDropped.live := by
  have hsmall : ∀ i, ¬ (samplePages i).maxIntraPodSize < 64 := fun _ =>
    (by decide : ¬ 4096 - 32 < 64)
  have hs : Run samplePages (swapFile "swap")
      (fun s op => s.Orderly op ∧ Sized samplePages False op) sampleServed :=
    sampleServed_run _ fun s => ⟨⟨trivial, trivial⟩,
      ⟨trivial, fun i hi => hsmall i hi⟩, ⟨trivial, trivial⟩⟩
  have hlegal : sampleServed.Legal samplePages (.allocate 0 64 busyChoice) :=
    ⟨⟨by decide, by decide⟩, by decide +kernel⟩
  have hb : Sized samplePages False (.allocate 0 64 busyChoice) :=
    fun i hi => hsmall i hi
  have hok : (sampleServed.step samplePages (swapFile "swap")
      (.allocate 0 64 busyChoice)).isOk = true := by decide +kernel
  refine ⟨hs.next hlegal ⟨trivial, hb⟩ hok, by decide +kernel, by decide +kernel, ?_⟩
  obtain ⟨h, hi⟩ := hs.inv (b := False) (swapFile_injective "swap") (fun _ _ hc => hc)
  have hserve : ((sampleServed.spl 0).tryAllocateWithPreviousPod samplePages 64 0).map Prod.fst =
      .ok 4176 := by decide +kernel
  obtain ⟨s', hstep⟩ : ∃ s', sampleServed.step samplePages (swapFile "swap")
      (.allocate 0 64 busyChoice) = .ok s' := by
    cases hr : sampleServed.step samplePages (swapFile "swap") (.allocate 0 64 busyChoice) with
    | ok s' => exact ⟨s', rfl⟩
    | error e => simp [hr, Except.isOk, Except.toBool] at hok
  have hnext : sampleDropped = s' := by
    rw [sampleDropped, Session.next, hstep]
  cases hrun : (sampleServed.spl 0).tryAllocateWithPreviousPod samplePages 64 0 with
  | error e => simp [hrun, Except.map] at hserve
  | ok r =>
    obtain ⟨ptr, t⟩ := r
    obtain rfl : ptr = 4176 := by simpa [hrun, Except.map] using hserve
    have hlast : (sampleServed.lists 0).lastAllocatedPod = some 0 := by decide +kernel
    obtain ⟨hp, hm, hlive, hbuf, hnot⟩ := busy_request_loses_block hi hlegal hb (by decide) hlast
      hrun (by decide) hstep
    rw [hnext]
    exact ⟨hp, 4176, hm, hlive, hbuf, hnot⟩

end Session

end Remon
