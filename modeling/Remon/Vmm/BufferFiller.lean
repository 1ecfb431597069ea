import Remon.Vmm.PrefetchWalk

/-! # What becomes of the pages for the buffers

`addPodToBuffer` takes single pages from the arenas until it can lock one, marks it, brings it
to the state `localPinned` and puts it in the buffer. Only the release at a memory node can stop
the call. A page that it could not lock is dropped: the arena has it as allocated, and neither
the buffers nor the lists know it.
-/

namespace Remon
open Function Lib Heap Fault List

namespace Pager

variable {L : ℕ → Layout} {path : ℕ → String} {b : Prop} {g : Pager} {h : ∀ i, AbsHeap (L i)}
  {i : ℕ} {f : Fetch}

/-- A page without an allocator has no buffered frees, so that no flush can stop the filler. -/
theorem addPodToBuffer_stops (hg : Inv L path b g h) (hn : g.splPushdown i = none) :
    Yields (fun e => ((g.pods i).state = .remote ∨ (g.pods i).state = .remoteCache) ∧ Unreleased e)
      (g.addPodToBuffer L i f) (fun _ => True) := by
  obtain ⟨hin, -⟩ := hg.unlisted i hn
  have hnil : (g.pods i).freeBuffer = [] := ((hg.pages i).of_not_inited hin).2
  have hflush : ∀ q : Pod, q.freeBuffer = [] → q.flushFreeBuffer (L i) = .ok q := by
    intro q hq
    rw [Pod.flushFreeBuffer, hq]
    split <;> rfl
  cases hs : (g.pods i).state with
  | init | local_ | localPinned | disk =>
    simp only [Pager.addPodToBuffer, hs]
    trivial
  | diskCache =>
    simp only [Pager.addPodToBuffer, hs, Pod.diskCacheToLocalPinned]
    rw [hflush { g.pods i with state := .diskCache, swapPath := "", prot := .readWrite } hnil]
    trivial
  | remote =>
    obtain ⟨client, hl⟩ := hg.landlord (.inl hs)
    simp only [Pager.addPodToBuffer, hs, Pod.remoteToInit, hl]
    refine Yields.bind (P := fun _ => True)
      (Yields.bind (World.Models.freePodInRemote_ok.weaken ?_) ?_) ?_
    · exact fun e he => ⟨.inl trivial, he⟩
    · exact fun _ _ => trivial
    · exact fun _ _ => trivial
  | remoteCache =>
    obtain ⟨client, hl⟩ := hg.landlord (.inr hs)
    simp only [Pager.addPodToBuffer, hs, Pod.remoteCacheToLocalPinned, hl]
    refine Yields.bind (P := fun _ => True)
      (Yields.bind (World.Models.freePodInRemote_ok.weaken ?_) ?_) ?_
    · exact fun e he => ⟨.inr trivial, he⟩
    · rintro _ ⟨t, rfl⟩
      refine Yields.bind (P := fun _ => True) (.of_ok (hflush _ ?_) trivial) (fun _ _ => trivial)
      exact hnil
    · exact fun _ _ => trivial

end Pager

namespace Manager

variable {c : Setup} {path : ℕ → String} {b : Prop} {m m' : Manager} {cmd : Cmd} {i : ℕ}
  {h : ∀ i, AbsHeap (c.L i)}

/-- The filler finds the pages that it is given unlocked. -/
def Locks : Cmd → Prop
  | .addPodToBuffer _ tryLock _ => tryLock = true
  | _ => True

variable (c) in
/-- Where a page is that was taken for the buffers. -/
inductive Placed (m : Manager) (i : ℕ) : Prop
  /-- the call that took it has not come to its lock -/
  | fetched (hi : i ∈ m.fetched)
  | buffered (hi : i ∈ m.buffered) (hpin : (m.pods i).state = .localPinned)
      (hmark : m.headOf c i = .buffered)
  /-- a list took it from the buffer -/
  | listed {l : ℕ} (hl : m.Of l i)

theorem mark_step (hm : m.Inv c path b h) (hlegal : m.Legal c cmd)
    (run : m.step c path cmd = .ok m') (hi : i ∈ m.small) (hmark : m.headOf c i = .buffered) :
    m'.headOf c i = .buffered := by
  have hd := hm.holdings
  cases hm.holdings_did hlegal run with
  | same heq => rwa [heq]
  | addNewRegionCore _ hrun => rwa [(Holdings.headOf_addNewRegionCore hrun).1]
  | hugeMalloc _ _ hrun => rwa [Holdings.headOf_hugeMalloc hrun]
  | @hugePage z _ _ hz hlt henter hleave =>
    have hcall := mem_append_right m.huge hz
    have hne : i ≠ z.next := by
      rintro rfl
      exact hd.not_small_of_huge hcall ⟨(hd.calls z hcall).low, hlt⟩ hi
    rwa [(Holdings.headOf_page hd hz hlt henter hleave).1, update_of_ne hne]
  | hugeReturn _ _ heq => rwa [heq]
  | hugeFree hz hrun =>
    have hnot := fun hc => hd.not_small_of_huge (mem_append_left _ hz) hc hi
    rwa [Holdings.headOf_hugeFree hd hz hrun, if_neg hnot]
  | allocatePage _ hrun => rwa [(Holdings.headOf_allocatePage hrun).1]
  | @addPodToBuffer j _ _ htag =>
    rw [(Holdings.headOf_setHeadPod htag).1]
    by_cases hj : i = j
    · rw [hj, update_self]
    · rwa [update_of_ne hj]

theorem mark_addPodToBuffer {f : Fetch} (hm : m.Inv c path b h) (hi : i ∈ m.fetched)
    (run : m.step c path (.addPodToBuffer i true f) = .ok m') : m'.headOf c i = .buffered := by
  have hlegal : m.Legal c (.addPodToBuffer i true f) := hi
  cases hm.holdings_did hlegal run with
  | same _ hne => exact absurd rfl (hne i f)
  | addPodToBuffer _ htag => rw [(Holdings.headOf_setHeadPod htag).1, update_self]

theorem of_getBufferedPod {l : ℕ} (hinj : Injective path) (hm : m.Inv c path b h)
    (hlegal : m.Legal c (.getBufferedPod l i))
    (run : m.step c path (.getBufferedPod l i) = .ok m') : m'.Of l i := by
  obtain ⟨h', -, -, hdid⟩ := hm.session_step hinj hlegal trivial run
  have hhome := hdid.did.home
  rw [Pager.Of, hhome, update_self]

/-- No command that locks its page loses one. -/
theorem placed_step (hinj : Injective path) (hm : m.Inv c path b h)
    (hlegal : m.Legal c cmd) (hb : Sized c b cmd) (hlock : Locks cmd)
    (run : m.step c path cmd = .ok m') (hi : m.Placed c i) : m'.Placed c i := by
  have hhomes := hm.homes_step hinj hlegal hb run
  cases hi with
  | fetched hi =>
    rcases waiting_step run with ⟨l, j, rfl, hf, -⟩ | ⟨k, j, rfl, hf, -⟩ |
      ⟨j, tryLock, f, rfl, hf, hbuf⟩ | ⟨-, -, hf, -⟩
    · exact .fetched (hf ▸ hi)
    · exact .fetched (hf ▸ mem_cons_of_mem _ hi)
    · obtain rfl : tryLock = true := hlock
      by_cases hj : i = j
      · subst hj
        have hmem : i ∈ m'.buffered := by
          rw [hbuf]
          exact mem_cons_self ..
        exact .buffered hmem (hhomes.buffered i hmem).2.2 (mark_addPodToBuffer hm hi run)
      · exact .fetched (hf ▸ (mem_erase_of_ne hj).mpr hi)
    · exact .fetched (hf ▸ hi)
  | buffered hi hpin hmark =>
    have hkeep : i ∈ m'.buffered → m'.Placed c i := fun hmem =>
      .buffered hmem (hhomes.buffered i hmem).2.2
        (mark_step hm hlegal run (hm.homes.buffered i hi).1 hmark)
    rcases waiting_step run with ⟨l, j, rfl, -, hbuf⟩ | ⟨k, j, rfl, -, hbuf⟩ |
      ⟨j, tryLock, f, rfl, -, hbuf⟩ | ⟨-, -, -, hbuf⟩
    · by_cases hj : i = j
      · subst hj
        exact .listed (of_getBufferedPod hinj hm hlegal run)
      · exact hkeep (hbuf ▸ (mem_erase_of_ne hj).mpr hi)
    · exact hkeep (hbuf ▸ hi)
    · obtain rfl : tryLock = true := hlock
      refine hkeep ?_
      rw [hbuf]
      exact mem_cons_of_mem _ hi
    · exact hkeep (hbuf ▸ hi)
  | @listed l hl =>
    have hne : ∀ k, cmd ≠ .getBufferedPod k i := by
      rintro k rfl
      exact nomatch (hm.homes.buffered i hlegal.2).2.1.symm.trans hl
    exact .listed ((hm.home_step hinj hlegal hb run hne).1.trans hl)

/-- Every page that was taken for the buffers has its place. -/
theorem Run.placed (hinj : Injective path) (hm : Run c path (fun _ cmd => Locks cmd) m) :
    ∀ i ∈ m.small, m.Placed c i := by
  induction hm with
  | start => exact fun i hi => absurd hi not_mem_nil
  | @step m m' cmd hm hlegal hlock run ih =>
    obtain ⟨h, hinv⟩ := hm.inv (b := True) hinj (fun _ cmd _ => sized_true cmd)
    intro i hi
    have hold : i ∈ m.small → m'.Placed c i := fun hi =>
      placed_step hinj hinv hlegal (sized_true cmd) hlock run (ih i hi)
    rcases (hinv.holdings_step hlegal run).2 with heq | ⟨k, j, -, heq, -, hf⟩
    · exact hold (heq ▸ hi)
    · rw [heq] at hi
      rcases mem_cons.mp hi with rfl | hi
      · refine .fetched ?_
        rw [hf]
        exact mem_cons_self ..
      · exact hold hi

theorem addPodToBuffer_yields {f : Fetch} (hinj : Injective path)
    (hm : m.Inv c path b h) (hi : i ∈ m.fetched) :
    Yields (fun e => ((m.pods i).state = .remote ∨ (m.pods i).state = .remoteCache) ∧ Unreleased e)
      (m.step c path (.addPodToBuffer i true f))
      (fun m' => i ∈ m'.buffered ∧ (m'.pods i).state = .localPinned ∧
        m'.headOf c i = .buffered) := by
  have hlegal : m.Legal c (.addPodToBuffer i true f) := hi
  obtain ⟨hsmall, hn⟩ := hm.homes.fetched i hi
  have hmade : (m.arenaOf c i).arena.Made i :=
    Arena.State.made_of_tag (hm.holdings.header (Holdings.page_mem hsmall))
  have hreturns : Yields
      (fun e => ((m.pods i).state = .remote ∨ (m.pods i).state = .remoteCache) ∧ Unreleased e)
      (m.step c path (.addPodToBuffer i true f)) (fun _ => True) := by
    simp only [Manager.step, if_true, Holdings.setTag, Arena.State.modify_eq hmade, ok_bind,
      pure_eq, Session.step]
    refine Yields.bind (P := fun _ => True)
      (Yields.bind (Pager.addPodToBuffer_stops hm.session.pager hn) ?_) ?_
    · exact fun _ _ => trivial
    · exact fun _ _ => trivial
  refine hreturns.of_run ?_
  intro m' run _
  have hhomes := hm.homes_step hinj hlegal trivial run
  have hmem : i ∈ m'.buffered := by
    obtain ⟨d, -, run⟩ := of_bind_ok run
    obtain ⟨t, -, hm'⟩ := of_bind_ok run
    rw [← Except.ok.inj hm']
    exact mem_cons_self ..
  exact ⟨hmem, (hhomes.buffered i hmem).2.2, mark_addPodToBuffer hm hi run⟩

/-- While the filler can lock every page that it gets, each of them is in the buffer, pinned and
marked, or was taken from there by a list, or its call has not come to the lock; and that call
puts it in the buffer, in whatever state it finds it, unless the release at a memory node stops the
program. -/
theorem filler_loses_no_page {swapDir : String}
    (hm : Run c (swapFile swapDir) (fun _ cmd => Locks cmd) m) :
    (∀ i ∈ m.small, m.Placed c i) ∧
    ∀ i ∈ m.fetched, ∀ f, Yields
      (fun e => ((m.pods i).state = .remote ∨ (m.pods i).state = .remoteCache) ∧ Unreleased e)
      (m.step c (swapFile swapDir) (.addPodToBuffer i true f))
      (fun m' => i ∈ m'.buffered ∧ (m'.pods i).state = .localPinned ∧
        m'.headOf c i = .buffered) := by
  have hinj := swapFile_injective swapDir
  obtain ⟨h, hinv⟩ := hm.inv (b := True) hinj (fun _ cmd _ => sized_true cmd)
  exact ⟨hm.placed hinj, fun i hi f => addPodToBuffer_yields hinj hinv hi⟩

/-! ## Pages that are and are not locked -/

/-- One arena of four pages. -/
def sampleFill : Setup := grid 4 4 four_pos_grid four_le_grid four_le_four_grid

def sampleTaken : Manager :=
  (new.after sampleFill (swapFile "swap") .addNewRegionCore).after sampleFill (swapFile "swap")
    (.allocatePage 0)

def sampleFilled : Manager :=
  sampleTaken.after sampleFill (swapFile "swap") (.addPodToBuffer 0 true Session.sampleFetch)

def sampleMissed : Manager :=
  ((sampleTaken.after sampleFill (swapFile "swap")
    (.addPodToBuffer 0 false Session.sampleFetch)).after sampleFill (swapFile "swap")
    (.allocatePage 0)).after sampleFill (swapFile "swap")
    (.addPodToBuffer 1 true Session.sampleFetch)

theorem sampleTaken_run {ok : Manager → Cmd → Prop} (h0 : ok new .addNewRegionCore)
    (h1 : ok (new.after sampleFill (swapFile "swap") .addNewRegionCore) (.allocatePage 0)) :
    Run sampleFill (swapFile "swap") ok sampleTaken := by
  have hstart : Run sampleFill (swapFile "swap") ok new := .start
  have hmade := hstart.after .addNewRegionCore (by decide : (0 : ℕ) < _) h0
    (by decide)
  exact hmade.after (.allocatePage 0) (by decide : (0 : ℕ) < _) h1 (by decide)

theorem filler_loses_no_page_sample :
    Run sampleFill (swapFile "swap") (fun _ cmd => Locks cmd) sampleFilled ∧
    0 ∈ sampleFilled.small ∧ sampleFilled.Placed sampleFill 0 := by
  have htaken : Run sampleFill (swapFile "swap") (fun _ cmd => Locks cmd) sampleTaken :=
    sampleTaken_run trivial trivial
  have hfilled := htaken.after (.addPodToBuffer 0 true Session.sampleFetch)
    (by decide : 0 ∈ sampleTaken.fetched) rfl (by decide)
  have hsmall : 0 ∈ sampleFilled.small := by decide
  exact ⟨hfilled, hsmall, (filler_loses_no_page hfilled).1 0 hsmall⟩

/-- When the call has put page 1 in the buffer, page 0 is an allocated block of the arena that is
in no buffer and in no list, and on the way to none. -/
theorem filler_loses_page :
    Run sampleFill (swapFile "swap") (fun _ _ => True) sampleMissed ∧
    0 ∈ sampleMissed.small ∧ (0, 1) ∈ (sampleMissed.arenas 0).live ∧
    (sampleMissed.tagOf sampleFill 0).map (fun t => t.isFree) = some false ∧
    sampleMissed.fetched = [] ∧ sampleMissed.buffered = [1] ∧
    ∀ l, ¬ sampleMissed.Of l 0 := by
  have htaken : Run sampleFill (swapFile "swap") (fun _ _ => True) sampleTaken :=
    sampleTaken_run trivial trivial
  have hmissed := htaken.after (.addPodToBuffer 0 false Session.sampleFetch)
    (by decide : 0 ∈ sampleTaken.fetched) trivial (by decide)
  have hnext := hmissed.after (.allocatePage 0) (by decide : (0 : ℕ) < _) trivial
    (by decide)
  have hlocked : 1 ∈ ((sampleTaken.after sampleFill (swapFile "swap")
      (.addPodToBuffer 0 false Session.sampleFetch)).after sampleFill (swapFile "swap")
      (.allocatePage 0)).fetched := by decide
  have hhome : sampleMissed.splPushdown 0 = none := by decide
  refine ⟨hnext.after (.addPodToBuffer 1 true Session.sampleFetch) hlocked trivial
    (by decide), by decide, by decide, by decide,
    by decide, by decide, ?_⟩
  intro l hl
  exact nomatch hhome.symm.trans hl

end Manager

end Remon
