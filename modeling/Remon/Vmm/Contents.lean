import Remon.Spl.Spares
import Remon.Vmm.Residents

/-! # What the pages hold

The byte at an address of a page is read from memory, from the swap file or from the node,
wherever the page is. A byte is guarded if it belongs to a block that is held, or to a page that
no list manages.
-/

namespace Remon
open Function Lib Heap Fault

variable {L : ℕ → Layout} {path : ℕ → String} {b : Prop}

/-- The byte `a` is in a block that is held. -/
def Cell.Owns {L : Layout} (c : Cell L) (a : ℕ) : Prop := ∃ q n, c.Held q n ∧ q ≤ a ∧ a + 16 < q + n

theorem Cell.Keeps.owns {L : Layout} {c c' : Cell L} {a : ℕ} (hk : c.Keeps c') (ha : c.Owns a) :
    c'.Owns a := by
  obtain ⟨q, n, hq, h12⟩ := ha
  exact ⟨q, n, hk.held q n hq, h12⟩

theorem Pod.mem_updateRank {L : Layout} {p q : Pod} {x : Bool}
    (hin : p.heap.inited = true) (hrun : p.updateRank L = .ok (x, q)) : q.mem = p.mem := by
  obtain ⟨⟨rank, r⟩, hr, hrun⟩ := of_bind_ok hrun
  cases hrun
  obtain ⟨⟨size, t⟩, ht, hr⟩ := of_bind_ok hr
  cases hr
  obtain ⟨u, hu, ht⟩ := of_bind_ok ht
  rw [Heap.heapInit, if_pos hin] at hu
  cases hu
  split at ht
  · cases ht
    rfl
  · obtain ⟨k, -, ht⟩ := of_bind_ok ht
    cases ht
    rfl

namespace World

variable {L : Layout} {path : String} {h : AbsHeap L} {w w' : World} {m m' : Mem} {live : Set ℕ}

/-- The bytes of the page that are in use: those of the blocks that are held, and all of a page
without an allocator. -/
def owned (w : World) (h : AbsHeap L) : Set ℕ :=
  {a | (∃ q n, h.Alloc q n ∧ q ∉ w.pod.freeBuffer ∧ q ≤ a ∧ a + 16 < q + n) ∨
    w.pod.heap.inited = false ∧ L.payloadStart ≤ a ∧ a < L.payloadEnd}

theorem content_resident
    (hs : w.pod.state = .init ∨ w.pod.state = .local_ ∨ w.pod.state = .localPinned) :
    w.content L path = w.pod.mem := by
  rw [content]
  rcases hs with hs | hs | hs <;> rw [hs]

/-- A page that stands for a heap carries its bytes in use. -/
theorem Models.inv (hw : w.Models L path False h) (hs : w.pod.state ≠ .init) :
    ∃ m : Mem, World.Inv L path (w.owned h) False { w with written := fun a => m a } m := by
  obtain ⟨m, hm, hk⟩ := hw
  have hst := hk.swapped hs
  refine ⟨m, ?_, fun _ _ => rfl, ?_, False.elim⟩
  · rcases hm.page with ⟨hin, hsp⟩ | ⟨hin, rfl⟩
    · have hlock : w.pod.heap.locked = false := by
        rw [← Bool.not_eq_true]
        exact hm.locked
      refine .small (h := h) ⟨⟨hin, hlock, hsp⟩, hm.idle, hm.nodup, hm.pending⟩ ?_
      rintro a (ha | ⟨hc, -⟩)
      · exact ha
      · exact absurd (hin.symm.trans hc) (by simp)
    · refine .huge hin (hm.freeBuffer_eq_nil hin) ?_
      rintro a (⟨q, n, hq, -⟩ | ⟨-, ha⟩)
      · exact absurd hq (AbsHeap.not_alloc_fresh q n)
      · exact ha
  · cases hst with
    | resident hs hm hp hf hl hn => exact .resident hs hm hp hf hl hn
    | disk hs hp hf ht hl hn => exact .disk hs hp hf ht hl hn
    | remote hs hf ht hl hn hd => exact .remote hs hf ht hl hn hd

theorem Inv.mem_home (hi : World.Inv L path live False { w with written := fun a => m a } m)
    (hi' : w'.Inv L path live False m') (hw : w'.written = fun a => m a)
    (hs : w'.pod.state = .localPinned) : ∀ a ∈ live, w'.pod.mem a = w.content L path a := by
  intro a ha
  have h1 : w.content L path a = m a := hi.content_eq ha
  have h2 := hi'.content_eq ha
  rw [content_resident (.inr (.inr hs)), hw] at h2
  rw [h1, h2]

end World

namespace Pager

variable {g g' : Pager} {h h' : ∀ i, AbsHeap (L i)} {i l a : ℕ}

variable (L path) in
def byteAt (g : Pager) (i a : ℕ) : UInt8 := (g.world i).content (L i) (path i) a

/-- The byte is in a block that is held, or its page has no list. -/
def Guarded (g : Pager) (h : ∀ i, AbsHeap (L i)) (i a : ℕ) : Prop :=
  (g.cell h i).Owns a ∨
    g.splPushdown i = none ∧ (L i).payloadStart ≤ a ∧ a < (L i).payloadEnd

theorem byteAt_congr (hp : g'.pods i = g.pods i) (hf : g'.files (path i) = g.files (path i))
    (hn : g'.nodes i = g.nodes i) : g'.byteAt L path i a = g.byteAt L path i a := by
  simp only [byteAt, world, World.content, hp, hf, hn]

def Resident (g : Pager) (i : ℕ) : Prop :=
  (g.pods i).state = .init ∨ (g.pods i).state = .local_ ∨ (g.pods i).state = .localPinned

theorem byteAt_resident (hs : g.Resident i) : g.byteAt L path i a = (g.pods i).mem a := by
  have hc : (g.world i).content (L i) (path i) = (g.pods i).mem :=
    World.content_resident (w := g.world i) hs
  rw [byteAt, hc]

theorem byteAt_note {j x : ℕ} :
    (g.note i x).byteAt L path j a = g.byteAt L path j a := by
  by_cases hj : j = i
  · subst hj
    simp only [byteAt, world, World.content, pods_note_self]
    rfl
  · exact byteAt_congr (pods_note_of_ne hj) rfl rfl

/-! ## Requests and releases -/

/-- The calls of a list leave the guarded bytes as they are. -/
theorem Called.bytes (hc : Called b l g h g' h') (hfiles : g'.files = g.files)
    (hnodes : g'.nodes = g.nodes)
    (hsp : Pod.Spares b (L i) {x | (g.cell h i).Owns x} (g.pods i) (g'.pods i))
    (ha : g.Guarded h i a) : g'.byteAt L path i a = g.byteAt L path i a := by
  have hsame : g'.cell h' i = g.cell h i → g'.byteAt L path i a = g.byteAt L path i a := by
    intro he
    exact byteAt_congr (congrArg Cell.pod he) (by rw [hfiles]) (by rw [hnodes])
  rcases ha with ha | ⟨hn, -⟩
  · rcases (hc.cells i).ready with he | ⟨hr, hr'⟩
    · exact hsame he
    · -- the page is in memory before and after the call
      have hready : ∀ {x : Pager} {y : ∀ i, AbsHeap (L i)}, (x.cell y i).Ready b →
          (x.pods i).Models b (y i) ∧ ((x.pods i).state = .init ∨ (x.pods i).state = .local_ ∨
            (x.pods i).state = .localPinned) := by
        intro x y hxy
        rcases hxy with hxy | hxy
        · exact ⟨hxy.1, .inr (.inl hxy.2.1)⟩
        · exact ⟨hxy.1, .inl hxy.2.1⟩
      obtain ⟨hm, hst⟩ := hready hr
      rw [byteAt_resident (hready hr').2, byteAt_resident hst]
      refine (hsp ⟨h i, hm, ?_⟩).2 a ha
      rintro x ⟨q, n, hq, h12⟩
      exact ⟨q, n, hq.1, hq.2, h12⟩
  · refine hsame (hc.others i ?_)
    exact fun hl => absurd (hn.symm.trans hl) (by simp)

theorem Inv.allocate_bytes {size ptr : ℕ} {c : Choice} (hz : Asize size)
    (hb : ∀ i, (L i).maxIntraPodSize < size → b) (hc : Called b l g h g' h')
    (hrun : g.allocate L l size c = .ok (ptr, g')) (ha : g.Guarded h i a) :
    g'.byteAt L path i a = g.byteAt L path i a := by
  obtain ⟨⟨ptr', s⟩, hs, hrun⟩ := of_bind_ok hrun
  cases hrun
  have hsp : SplState.Spares b L (fun i => {x | (g.cell h i).Owns x}) (g.spl l) s :=
    (SplState.Spares.allocate hz hb).result hs
  exact hc.bytes rfl rfl (hsp i) ha

theorem free_bytes {x : ℕ} {full : Bool} (hc : Called b l (g.note i x) h g' h')
    (hrun : g.free L i x = .ok (full, g')) {j : ℕ} (ha : (g.note i x).Guarded h j a) :
    g'.byteAt L path j a = g.byteAt L path j a := by
  rw [Pager.free] at hrun
  split at hrun
  · cases hrun
  · next k _ =>
    obtain ⟨⟨full', s⟩, hs, hrun⟩ := of_bind_ok hrun
    cases hrun
    have hsp : SplState.Spares b L (fun j => {y | ((g.note i x).cell h j).Owns y})
      ((g.note i x).spl k) s := SplState.Spares.free.result hs
    have hbytes : (g.putSpl k s).byteAt L path j a = (g.note i x).byteAt L path j a :=
      hc.bytes rfl rfl (hsp j) ha
    exact hbytes.trans byteAt_note

theorem addPodAndAllocate_bytes {size ptr j : ℕ}
    (hrun : g.addPodAndAllocate L l i size = .ok (ptr, g')) (hj : j ≠ i) :
    g'.byteAt L path j a = g.byteAt L path j a := by
  have hpods := addPodAndAllocate_others.result hrun j hj
  obtain ⟨p, -, hrun⟩ := of_bind_ok hrun
  obtain ⟨⟨ptr', s⟩, -, hrun⟩ := of_bind_ok hrun
  cases hrun
  exact byteAt_congr hpods rfl rfl

/-! ## Pages that come back -/

/-- The end of an activation leaves the bytes of the page alone. -/
theorem arrive_frame {p : Pod} (hrun : g.arrive L i p = .ok g') :
    g'.files = g.files ∧ g'.nodes = g.nodes ∧ (g'.pods i).mem = p.mem := by
  have hpin : ∀ u : Pager, ((u.setPod i (u.pods i).localPinnedToLocal).pods i).mem =
      (u.pods i).mem := by
    intro u
    rw [show (u.setPod i (u.pods i).localPinnedToLocal).pods i = (u.pods i).localPinnedToLocal from
      update_self _ _ _, Pod.localPinnedToLocal]
    split <;> rfl
  have hpi : (g.setPod i p).pods i = p := update_self _ _ _
  rw [Pager.arrive] at hrun
  dsimp only at hrun
  split at hrun
  · next hin =>
    obtain ⟨u, hu, hrun⟩ := of_bind_ok hrun
    cases hrun
    rw [hpin]
    rw [Pager.unbenchSwappedPage] at hu
    split at hu
    · cases hu
    · obtain ⟨s, hs, hu⟩ := of_bind_ok hu
      cases hu
      obtain ⟨⟨x, t⟩, ht, hs⟩ := of_bind_ok hs
      cases hs
      rw [SplState.updateRank] at ht
      split at ht
      · cases ht
      · obtain ⟨⟨y, q⟩, hq, ht⟩ := of_bind_ok ht
        cases ht
        have hq' : ((g.setPod i p).pods i).updateRank (L i) = .ok (x, q) := hq
        rw [hpi] at hq'
        refine ⟨rfl, rfl, ?_⟩
        refine (congrArg Pod.mem (update_self _ _ _)).trans ?_
        exact Pod.mem_updateRank hin hq'
  · cases hrun
    refine ⟨rfl, rfl, (hpin _).trans ?_⟩
    exact congrArg Pod.mem hpi

theorem Activated.resident (ha : Activated g g' i) :
    (g'.pods i).state = .local_ ∨ (g'.pods i).state = .localPinned := by
  cases ha with
  | idle hs hp =>
    rw [hp]
    exact hs
  | mapped hs hs' => exact .inl hs'
  | back hs hs' => exact .inl hs'

theorem arrive_bytes {p : Pod} {u : Pager} (hrun : u.arrive L i p = .ok g')
    (hfiles : ∀ j, j ≠ i → u.files (path j) = g.files (path j))
    (hnodes : ∀ j, j ≠ i → u.nodes j = g.nodes j) (hact : Activated g g' i)
    (hone : OnePod i g h g' h')
    (hmem : ∀ x ∈ (g.world i).owned (h i), p.mem x = g.byteAt L path i x)
    (hg : Sound L path b g h) {j : ℕ} (ha : g.Guarded h j a) :
    g'.byteAt L path j a = g.byteAt L path j a := by
  obtain ⟨hf, hn, hpmem⟩ := arrive_frame hrun
  by_cases hj : j = i
  · subst hj
    rw [byteAt_resident (.inr hact.resident), hpmem]
    refine hmem a ?_
    rcases ha with ⟨q, n, hq, h12⟩ | ⟨hun, hin⟩
    · exact .inl ⟨q, n, hq.1, hq.2, h12⟩
    · exact .inr ⟨(hg.unlisted j hun).1, hin⟩
  · exact byteAt_congr (hone.pods_of_ne hj) (by rw [hf, hfiles j hj]) (by rw [hn, hnodes j hj])

theorem Inv.activatePod_bytes {f : Fetch} (hinj : Injective path)
    (hg : Inv L path False g h) (hf : g.Honest i f) (hact : Activated g g' i)
    (hone : OnePod i g h g' h') (hrun : g.activatePod L i f = .ok g') {j : ℕ}
    (ha : g.Guarded h j a) : g'.byteAt L path j a = g.byteAt L path j a := by
  have hfiles : ∀ j, j ≠ i → update g.files (path i) none (path j) = g.files (path j) :=
    fun j hj => update_of_ne (hinj.ne hj) _ _
  have hpage := hg.pages i
  cases hs : (g.pods i).state with
  | local_ | localPinned =>
    simp only [Pager.activatePod, hs] at hrun
    cases hrun
    rfl
  | init =>
    simp only [Pager.activatePod, hs] at hrun
    cases hrun
    by_cases hj : j = i
    · subst hj
      have hset : (g.setPod j (g.pods j).initToLocal).pods j = (g.pods j).initToLocal :=
        update_self _ _ _
      rw [byteAt_resident (.inr (.inl (by rw [hset]; rfl))), byteAt_resident (.inl hs), hset]
      rfl
    · exact byteAt_congr (hone.pods_of_ne hj) rfl rfl
  | disk =>
    simp only [Pager.activatePod, hs] at hrun
    obtain ⟨⟨files, p⟩, hp, hrun⟩ := of_bind_ok hrun
    obtain ⟨hfs, hhome, -⟩ := (hpage.diskToLocalPinned hs).result hp
    obtain rfl : files = update g.files (path i) none := hfs
    refine arrive_bytes hrun hfiles (fun _ _ => rfl) hact hone ?_ hg.toSound ha
    obtain ⟨m, hi⟩ := hpage.inv (by simp [world, hs])
    obtain ⟨files', q, m', hq, hi'⟩ := hi.diskToLocalPinned hs
    cases hp.symm.trans hq
    exact hi.mem_home hi' rfl hhome.state
  | diskCache =>
    simp only [Pager.activatePod, hs] at hrun
    obtain ⟨⟨files, p⟩, hp, hrun⟩ := of_bind_ok hrun
    obtain ⟨hfs, hhome, -⟩ := (hpage.diskCacheToLocalPinned hs).result hp
    obtain rfl : files = update g.files (path i) none := hfs
    refine arrive_bytes hrun hfiles (fun _ _ => rfl) hact hone ?_ hg.toSound ha
    obtain ⟨m, hi⟩ := hpage.inv (by simp [world, hs])
    obtain ⟨files', q, m', hq, hi'⟩ := hi.diskCacheToLocalPinned hs
    cases hp.symm.trans hq
    exact hi.mem_home hi' rfl hhome.state
  | remote =>
    obtain ⟨client, hl⟩ := hg.landlord (.inl hs)
    simp only [Pager.activatePod, hs] at hrun
    obtain ⟨p, hp, hrun⟩ := of_bind_ok hrun
    obtain ⟨hhome, -⟩ := (hpage.remoteToLocalPinned hs hl (hf client hl)).result hp
    rw [eraseNode_eq hl] at hrun
    refine arrive_bytes (g := g) hrun (fun _ _ => rfl)
      (fun j hj => update_of_ne hj _ _) hact hone ?_ hg.toSound ha
    obtain ⟨m, hi⟩ := hpage.inv (by simp [world, hs])
    obtain ⟨q, m', hq, hi'⟩ := hi.remoteToLocalPinned hs hl (hf client hl)
    cases hp.symm.trans hq
    exact hi.mem_home hi' rfl hhome.state
  | remoteCache =>
    obtain ⟨client, hl⟩ := hg.landlord (.inr hs)
    simp only [Pager.activatePod, hs] at hrun
    obtain ⟨p, hp, hrun⟩ := of_bind_ok hrun
    obtain ⟨hhome, -⟩ := (hpage.remoteCacheToLocalPinned hs hl).result hp
    rw [eraseNode_eq hl] at hrun
    refine arrive_bytes (g := g) hrun (fun _ _ => rfl)
      (fun j hj => update_of_ne hj _ _) hact hone ?_ hg.toSound ha
    obtain ⟨m, hi⟩ := hpage.inv (by simp [world, hs])
    obtain ⟨hd, hr⟩ := World.Stands.of_remoteCacheToLocalPinned (w := g.world i) hl hp
    obtain ⟨q, m', hq, hi'⟩ := hi.remoteCacheToLocalPinned hs hl hd hr
    cases hp.symm.trans hq
    exact hi.mem_home hi' rfl hhome.state

/-! ## Writes -/

theorem resident_of_not_away (ha : ¬ Away (g.pods i)) : g.Resident i := by
  by_contra hc
  rw [Resident, not_or, not_or] at hc
  exact ha hc

/-- A write to a page in memory changes its own byte. -/
theorem byteAt_store {v : UInt8} {j x : ℕ} (hs : g.Resident i) :
    (g.setPod i ((g.pods i).setMem ((g.pods i).mem.set a v))).byteAt L path j x =
      if j = i ∧ x = a then v else g.byteAt L path j x := by
  by_cases hj : j = i
  · subst hj
    have hset : (g.setPod j ((g.pods j).setMem ((g.pods j).mem.set a v))).pods j =
      (g.pods j).setMem ((g.pods j).mem.set a v) := update_self _ _ _
    rw [byteAt_resident (by rw [Resident, hset]; exact hs), byteAt_resident hs, hset]
    change (g.pods j).mem.set a v x = _
    by_cases hx : x = a
    · rw [if_pos ⟨rfl, hx⟩, hx]
      exact update_self _ _ _
    · rw [if_neg (fun hc => hx hc.2)]
      exact Mem.set_apply_of_ne hx
  · rw [if_neg (fun hc => hj hc.1)]
    exact byteAt_congr (update_of_ne hj _ _) rfl rfl

theorem Inv.scribble_init {m : Mem} (hg : Inv L path b g h) (hn : g.splPushdown i = none)
    (hs : (g.pods i).state = .init) :
    Inv L path b (g.setPod i ((g.pods i).setMem m)) h ∧
      OnePod i g h (g.setPod i ((g.pods i).setMem m)) h := by
  obtain ⟨hin, hsync⟩ := hg.unlisted i hn
  obtain ⟨hm, -, hrest⟩ := (World.models_init hs).mp (hg.pages i)
  have hm' : ((g.pods i).setMem m).Models b (h i) :=
    ⟨.inr ⟨hin, ((hg.pages i).of_not_inited hin).1⟩, hm.locked, hm.idle, hm.nodup, hm.pending⟩
  refine hg.loose hn (.setPod _) rfl rfl ?_ hin hsync (fun ha => absurd hs ha.1)
  exact (World.models_init hs).mpr ⟨hm', hin, hrest⟩

theorem Inv.store_guarded {v : UInt8} (hg : Inv L path b g h) (ha : g.Guarded h i a)
    (hs : g.Resident i) :
    Inv L path b (g.setPod i ((g.pods i).setMem ((g.pods i).mem.set a v))) h ∧
      OnePod i g h (g.setPod i ((g.pods i).setMem ((g.pods i).mem.set a v))) h := by
  rcases ha with ⟨q, n, hq, h12⟩ | ⟨hn, -⟩
  · obtain ⟨hin, l, hl⟩ := hg.of_live ((h i).isLive_iff.mpr ⟨n, hq.1⟩)
    refine hg.store ⟨q, n, hq.1, h12⟩ ?_
    rcases hs with hs | hs | hs
    · exact absurd (hin.symm.trans (hg.inited_of_init hs)) (by simp)
    · exact hs
    · exact absurd hs (hg.pinned i l hl)
  · rcases hs with hs | hs
    · exact hg.scribble_init hn hs
    · exact hg.scribble hn hs

theorem Guarded.onePod {j : ℕ} (hone : OnePod j g h g' h') (ha : g.Guarded h i a) :
    g'.Guarded h' i a := by
  rcases ha with ha | ⟨hn, hin⟩
  · exact .inl ((hone.keeps_all i).toKeeps.owns ha)
  · exact .inr ⟨by rw [hone.home, hn], hin⟩

/-! ## Pages that can be brought in -/

/-- A copy that waits at its node still has its tail buffer, so that it can be promoted. -/
def Fetchable (g : Pager) (i : ℕ) : Prop :=
  (g.pods i).state = .remoteCache → (g.pods i).debugTail ≠ .deleted

theorem Fetchable.of_state {s : PodState} (hs : (g.pods i).state = s) (hne : s ≠ .remoteCache) :
    g.Fetchable i := fun hc => absurd (hs.symm.trans hc) hne

theorem fetchable_congr (hp : g'.pods i = g.pods i) : g'.Fetchable i ↔ g.Fetchable i := by
  rw [Fetchable, Fetchable, hp]

theorem fetchable_of_ready (hr : (g.cell h i).Ready b) : g.Fetchable i := by
  rcases hr with hr | hr
  · exact .of_state hr.2.1 (by simp)
  · exact .of_state hr.2.1 (by simp)

theorem fetchable_evolves (he : (g.cell h i).Evolves b (g'.cell h' i)) :
    g'.Fetchable i ↔ g.Fetchable i := by
  rcases he.ready with he | ⟨hr, hr'⟩
  · exact fetchable_congr (congrArg Cell.pod he)
  · exact iff_of_true (fetchable_of_ready hr') (fetchable_of_ready hr)

theorem fetchable_note {x : ℕ} {j : ℕ} : (g.note i x).Fetchable j ↔ g.Fetchable j := by
  by_cases hj : j = i
  · subst hj
    rw [Fetchable, pods_note_self]
    exact Iff.rfl
  · exact fetchable_congr (pods_note_of_ne hj)

theorem Activated.fetchable (ha : Activated g g' i) : g'.Fetchable i := by
  rcases ha.resident with hs | hs
  · exact .of_state hs (by simp)
  · exact .of_state hs (by simp)

/-- A copy without its tail buffer cannot be promoted. -/
theorem fetchable_of_activatePod {f : Fetch} (run : g.activatePod L i f = .ok g') :
    g.Fetchable i := by
  intro hs hd
  simp only [activatePod, hs] at run
  obtain ⟨p, hp, -⟩ := of_bind_ok run
  rw [Pod.remoteCacheToLocalPinned] at hp
  split at hp
  · cases hp
  · obtain ⟨q, hq, -⟩ := of_bind_ok hp
    rw [Pod.freePodInRemote_deleted hd] at hq
    cases hq

/-- A page that can be brought in is, if the node answers. -/
theorem Inv.activatePod_returns {f : Fetch} (hinj : Injective path)
    (hg : Inv L path False g h) (hf : g.Honest i f) (hfetch : g.Fetchable i)
    (hr : ∀ e, replyCode f.reply ≠ some (.error e)) :
    ∃ g', g.activatePod L i f = .ok g' ∧ AfterActivate L path False i g h g' := by
  refine (Yields.weaken ?_ (hg.activatePod_reply hinj hf)).returns
  rintro e (⟨-, hb⟩ | ⟨hs, he⟩)
  · exact hb
  · rw [Pod.freePodInRemote_eq (hfetch hs)] at he
    split at he
    · next e' hc => exact hr e' hc
    · cases he

end Pager

namespace Session

variable {s s' : Session} {h h' : ∀ i, AbsHeap (L i)} {op : Op} {i a : ℕ}

/-- The operations of a request, of a release and of a fault. -/
def Serves : Op → Prop
  | .allocate _ _ _ | .addPodAndAllocate _ _ | .free _ _ | .activatePod _ _ => True
  | _ => False

/-- They leave the byte to its owner: a page from the buffer is given up, and so is a block that
is freed. -/
def Leaves (s : Session) (h : ∀ i, AbsHeap (L i)) (i a : ℕ) : Op → Prop
  | .addPodAndAllocate _ j => i ≠ j
  | .free j x => (s.note j x).Guarded h i a
  | op => Serves op

theorem Inv.bytes_step (hinj : Injective path) (hs : s.Inv L path False h)
    (hlegal : s.Legal L op) (hb : Sized L False op) (ha : s.After L path False h op s' h')
    (run : s.step L path op = .ok s') (hg : s.Guarded h i a) (hl : s.Leaves h i a op) :
    s'.byteAt L path i a = s.byteAt L path i a := by
  have hdid := ha.did
  cases op with
  | allocate l size c =>
    obtain ⟨⟨ptr, g⟩, hrun, hs'⟩ := of_bind_ok run
    have hg' : s'.toPager = g := by
      rw [← Except.ok.inj hs']
      split
      · rfl
      · exact toPager_grant _ _ _ _
    rw [hg'] at hdid ⊢
    exact Pager.Inv.allocate_bytes hlegal.1 hb hdid hrun hg
  | addPodAndAllocate l j =>
    simp only [Session.step] at run
    cases hw : s.wanting l with
    | none => simp [hw] at run
    | some size =>
      simp only [hw] at run
      obtain ⟨⟨ptr, g⟩, hrun, hs'⟩ := of_bind_ok run
      have hg' : s'.toPager = g := by
        rw [← Except.ok.inj hs']
        dsimp only
        split
        · rfl
        · exact toPager_grant _ _ _ _
      rw [hg']
      exact Pager.addPodAndAllocate_bytes hrun hl
  | free j x =>
    obtain ⟨⟨full, g⟩, hrun, hs'⟩ := of_bind_ok run
    obtain rfl := Except.ok.inj hs'
    obtain ⟨l, -, hc, -⟩ := hdid
    exact Pager.free_bytes hc hrun hl
  | activatePod j f =>
    obtain ⟨g, hrun, hs'⟩ := of_bind_ok run
    obtain rfl := Except.ok.inj hs'
    exact hs.pager.activatePod_bytes hinj hlegal hdid.2 hdid.1 hrun hg
  | _ => exact hl.elim

/-- These operations neither delete a tail buffer nor get by without one. -/
theorem After.fetchable (ha : s.After L path b h op s' h') (hop : Serves op)
    (hlegal : s.Legal L op) (run : s.step L path op = .ok s') :
    s'.Fetchable i ↔ s.Fetchable i := by
  have hdid := ha.did
  cases op with
  | allocate l size c => exact Pager.fetchable_evolves (hdid.cells i)
  | addPodAndAllocate l j =>
    by_cases hi : i = j
    · subst hi
      exact iff_of_true (.of_state hdid.resident.2.1 (by simp)) (.of_state hlegal.2.2 (by simp))
    · exact Pager.fetchable_evolves (hdid.cells i hi)
  | free j x =>
    obtain ⟨l, -, hc, -⟩ := hdid
    exact (Pager.fetchable_evolves (hc.cells i)).trans Pager.fetchable_note
  | activatePod j f =>
    by_cases hi : i = j
    · subst hi
      obtain ⟨g, hrun, -⟩ := of_bind_ok run
      exact iff_of_true hdid.2.fetchable (Pager.fetchable_of_activatePod hrun)
    · exact Pager.fetchable_congr (hdid.1.pods_of_ne hi)
  | _ => exact hop.elim

end Session

end Remon
