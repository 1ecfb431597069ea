import Remon.Heap.Image

/-! # The allocator refines the abstract heap

When a page is the image of an abstract heap, each operation of the allocator
returns, gives the result the abstract heap gives and leaves the image of the
abstract successor. None of the exits and none of the loop bounds is reached,
and no byte of a block that stays in use changes.
-/

namespace Remon.Heap
open Lib Fault List

variable {L : Layout} {m m' : Mem} {bs : List Block} {xs : List ℕ} {h : AbsHeap L}

abbrev Spells (m : Mem) (h : AbsHeap L) : Prop := Image L m h.blocks h.freeList

theorem AbsHeap.nodes (h : AbsHeap L) : Nodes L h.blocks h.freeList := by
  have hpl : ∀ x ∈ h.freeList, ∃ b, (x, b) ∈ place L.firstBlock h.blocks := by
    intro x hx
    obtain ⟨b, hb, -⟩ := mem_freeStarts.mp ((h.mem_freeList x).mp hx)
    exact ⟨b, hb⟩
  refine ⟨?_, ?_⟩
  · intro x hx
    obtain ⟨b, hb⟩ := hpl x hx
    exact h.sized.spot hb
  · intro x hx y hy hne
    obtain ⟨b, hb⟩ := hpl x hx
    obtain ⟨c, hc⟩ := hpl y hy
    exact h.sized.apart hb hc hne

theorem Sized.length_lt (hs : Sized L bs) : bs.length < L.payloadSize := by
  have h1 := length_le_total hs.pos
  have h2 := hs.fill
  omega

theorem AbsHeap.freeList_length_lt (h : AbsHeap L) : h.freeList.length < L.payloadSize := by
  have h1 : h.freeList.length ≤ (freeStarts L.firstBlock h.blocks).length :=
    (h.nodup.subperm (fun p hp => (h.mem_freeList p).mp hp)).length_le
  have h2 : (freeStarts L.firstBlock h.blocks).length ≤ h.blocks.length := by
    rw [freeStarts, length_map]
    refine (length_filter_le _ _).trans ?_
    rw [place_length]
  have h3 := h.sized.length_lt
  omega

/-! ## Reading -/

theorem tag_size {b : Block} (hm : b.size % 16 = 0) : tag b - tag b % 16 = b.size := by
  unfold tag
  split <;> omega

theorem tag_alloc {b : Block} (hm : b.size % 16 = 0) : tag b % 2 = if b.free then 0 else 1 := by
  unfold tag
  split <;> omega

/-- What the macros read at a block of the page. -/
theorem Edges.read (he : Edges L m bs) {p : ℕ} {b : Block} (hb : (p, b) ∈ place L.firstBlock bs) :
    getBlockSize m p = b.size ∧ getAlloc m (hdrp p) = if b.free then 0 else 1 := by
  have hm := (he.sized.placed hb).2.2.2
  have ht : m.get (p - 8) = tag b := (he.tags _ hb).1
  constructor
  · rw [getBlockSize, hdrp, getSize_of_get ht, tag_size hm]
  · rw [getAlloc, hdrp, ht, tag_alloc hm]

theorem Spells.getBlockSize_eq (hi : Spells m h) {p : ℕ} (hp : p ∈ h.freeList) :
    getBlockSize m p = h.sizeAt p := by
  obtain ⟨b, hb, -⟩ := mem_freeStarts.mp ((h.mem_freeList p).mp hp)
  rw [(hi.edges.read hb).1, h.sizeAt_of_mem hb]

theorem Spells.freeHead_eq (hi : Spells m h) : freeHead L m = h.freeList.headD 0 :=
  hi.links.head

theorem Spells.ne_zero (hi : Spells m h) {p : ℕ} (hp : p ∈ h.freeList) : p ≠ 0 := by
  rintro rfl
  exact hi.links.2.2 hp

/-- The link from one free block to the next. -/
theorem Spells.next_eq (hi : Spells m h) {x : ℕ} {l₁ l₂ : List ℕ}
    (he : h.freeList = l₁ ++ x :: l₂) : m.get (nextFree x) = l₂.headD 0 := by
  have hl := hi.links
  rw [he] at hl
  exact hl.fields.2

theorem findFit_eq (hi : Spells m h) {a fuel x : ℕ} {l₁ l₂ : List ℕ}
    (he : h.freeList = l₁ ++ x :: l₂) (hf : l₂.length < fuel) :
    findFit m a fuel x = .ok ((x :: l₂).find? (fun p => a ≤ h.sizeAt p)) := by
  induction l₂ generalizing l₁ x fuel with
  | nil =>
    obtain ⟨fuel, rfl⟩ : ∃ k, fuel = k + 1 := ⟨fuel - 1, by simp at hf; omega⟩
    rw [findFit, hi.getBlockSize_eq (by simp [he]), hi.next_eq he, List.find?_cons]
    by_cases ha : a ≤ h.sizeAt x <;> simp [ha]
  | cons y l₂ ih =>
    obtain ⟨fuel, rfl⟩ : ∃ k, fuel = k + 1 := ⟨fuel - 1, by simp at hf; omega⟩
    have hy : y ≠ 0 := hi.ne_zero (by simp [he])
    rw [findFit, hi.getBlockSize_eq (by simp [he]), hi.next_eq he, headD_cons,
      List.find?_cons, if_neg hy,
      ih (show h.freeList = (l₁ ++ [x]) ++ y :: l₂ by simp [he]) (by simpa using hf)]
    by_cases ha : a ≤ h.sizeAt x <;> simp [ha]

/-! ## Bytes in use -/

namespace AbsHeap

def InUse (h : AbsHeap L) (i : ℕ) : Prop := ∃ q n, h.Alloc q n ∧ q ≤ i ∧ i + 16 < q + n

theorem InUse.not_inTags {i : ℕ} (hu : h.InUse i) : ¬ InTags L.firstBlock h.blocks i := by
  rintro ⟨⟨p, b⟩, hp, hi⟩
  obtain ⟨q, n, hq, h1, h2⟩ := hu
  have hs := h.sized.placed hp
  dsimp only at hi
  rcases place_disjoint hq hp with ⟨rfl, rfl⟩ | hd | hd
  · dsimp only at hi
    omega
  · dsimp only at hd
    omega
  · omega

/-- A byte in use lies outside every free block. -/
theorem InUse.outside {i p : ℕ} {b : Block} (hu : h.InUse i)
    (hp : (p, b) ∈ place L.firstBlock h.blocks) (hf : b.free = true) :
    i < p ∨ p + b.size ≤ i := by
  obtain ⟨q, n, hq, h1, h2⟩ := hu
  rcases place_disjoint hq hp with ⟨-, rfl⟩ | hd | hd
  · simp at hf
  · dsimp only at hd
    omega
  · omega

theorem InUse.inPage {i : ℕ} (hu : h.InUse i) : L.payloadStart ≤ i ∧ i < L.payloadEnd := by
  obtain ⟨q, n, hq, h1, h2⟩ := hu
  have hs := h.sized.placed hq
  dsimp only at hs
  omega

theorem InUse.not_inLinks {i : ℕ} (hu : h.InUse i) : ¬ InLinks L h.freeList i := by
  rintro (hi | ⟨x, hx, hi⟩)
  · have h1 := hu.inPage
    have h2 := L.freeHead_outside
    simp only [PageSpan.payloadEnd] at h1
    omega
  · obtain ⟨b, hb, hf⟩ := mem_freeStarts.mp ((h.mem_freeList x).mp hx)
    have h1 := hu.outside hb hf
    have h2 := h.sized.placed hb
    omega

theorem InUse.take {i p : ℕ} {a : Request L} (hu : h.InUse i) (hp : p ∈ h.freeList)
    (hle : a.size ≤ h.sizeAt p) : (h.take a p).InUse i := by
  obtain ⟨q, n, hq, h1, h2⟩ := hu
  exact ⟨q, n, (alloc_take hp hle).mpr (.inl hq), h1, h2⟩

theorem InUse.of_free {i p : ℕ} (hp : h.isLive p = true) (hu : (h.free p).InUse i) :
    h.InUse i := by
  obtain ⟨q, n, hq, h1, h2⟩ := hu
  exact ⟨q, n, ((alloc_free hp).mp hq).1, h1, h2⟩

end AbsHeap

/-! ## Allocation -/

theorem setAlloc_setBlockSize {p n : ℕ} (hp : 16 ≤ p) (hn : 32 ≤ n) (hm : n % 16 = 0)
    (hv : tag ⟨n, false⟩ < 2 ^ 64) :
    setAlloc (setBlockSize m p (fun _ => n)) p = retag m p n (tag ⟨n, false⟩) := by
  have hv' : n + 1 < 2 ^ 64 := hv
  rw [setBlockSize_eq hm (by omega),
    setAlloc_eq hm hv' (retag_get hp hn (by omega)).1, retag_retag hp hn]
  rfl

theorem setFree_setBlockSize {p n : ℕ} (hp : 16 ≤ p) (hn : 32 ≤ n) (hm : n % 16 = 0)
    (hv : tag ⟨n, true⟩ < 2 ^ 64) :
    setFree (setBlockSize m p (fun _ => n)) p = retag m p n (tag ⟨n, true⟩) := by
  have hv' : n < 2 ^ 64 := hv
  rw [setBlockSize_eq hm hv', setFree_eq hm hv' (.inl (retag_get hp hn hv').1), retag_retag hp hn]
  rfl

theorem takeBlock_eq {L : PageSpan} {p a : ℕ} {b : Block} (hp : 16 ≤ p) (ha : 32 ≤ a)
    (hle : a ≤ b.size) (hm : b.size % 16 = 0) (hm' : a % 16 = 0) (hv : b.size + 1 < 2 ^ 64) :
    takeBlock L m p b.size a =
      if b.size - a < 32 then .ok (draw (popFreeBlockOut m p) p (pieces b a 32))
      else insertAtFreeHead L (draw (popFreeBlockOut m p) p (pieces b a 32)) (p + a) := by
  have hread : ∀ k, 32 ≤ k → k + 1 < 2 ^ 64 →
      (retag (popFreeBlockOut m p) p k (tag ⟨k, false⟩)).get (hdrp p) = k + 1 := fun k hk hk' =>
    (retag_get hp hk hk').1
  have hone : ∀ k, k % 16 = 0 → (k + 1) % 2 = 1 := fun k hk => by omega
  by_cases hr : b.size - a < 32
  · simp only [takeBlock, qsize, hr, if_true, pieces, draw_cons, draw_nil]
    rw [setAlloc_setBlockSize hp (by omega) hm hv, getAlloc, hread b.size (by omega) hv,
      hone b.size hm]
    rfl
  · have hv' : a + 1 < 2 ^ 64 := by omega
    have hne : b.size - a ≠ 0 := by omega
    have hrest : tag ⟨b.size - a, true⟩ < 2 ^ 64 := by
      simp only [tag, if_true]
      omega
    have hnext : nextBlkp (retag (popFreeBlockOut m p) p a (tag ⟨a, false⟩)) p = p + a := by
      rw [nextBlkp, getBlockSize, getSize_of_get (hread a ha hv')]
      omega
    simp only [takeBlock, qsize, hr, if_false, pieces, draw_cons, draw_nil]
    rw [setAlloc_setBlockSize hp ha hm' hv', getAlloc, hread a ha hv', hone a hm', hnext,
      setFree_setBlockSize (n := b.size - a) (by omega) (by omega) (by omega) hrest]
    simp [hne]

theorem takeBlock_image (hi : Spells m h) {a : Request L} {p : ℕ} (hp : p ∈ h.freeList)
    (hle : a.size ≤ h.sizeAt p) :
    ∃ m', takeBlock L m p (h.sizeAt p) a.size = .ok m' ∧ Spells m' (h.take a p) ∧
      ∀ i, h.InUse i → m' i = m i := by
  obtain ⟨l₁, b, l₂, he, hpe, hf, hsz⟩ := h.split_of_mem hp
  have hb : (p, b) ∈ place L.firstBlock h.blocks := by
    rw [he, hpe]
    exact mem_place_split _ _ _ _
  have hbs := h.sized.placed hb
  have hp16 : 16 ≤ p := by omega
  have hv : b.size + 1 < 2 ^ 64 := by
    have := L.end_lt
    simp only [PageSpan.payloadEnd] at hbs
    omega
  obtain ⟨hblocks, hlist⟩ := AbsHeap.take_eq hp hle
  have hcarve : (h.take a p).blocks = l₁ ++ pieces b a.size 32 ++ l₂ := by
    have hpos := h.sized.pos
    rw [he] at hpos
    rw [hblocks, he, hpe, carve_split (fun x hx => hpos x (by simp [hx]))]
  have hnodes := (h.take a p).nodes
  have hnodup := (h.take a p).nodup
  have hsized := (h.take a p).sized
  have hkeep : ∀ i, h.InUse i → ¬ InTags L.firstBlock (h.take a p).blocks i ∧
      ¬ InLinks L (h.take a p).freeList i := fun i hu =>
    ⟨(hu.take hp hle).not_inTags, (hu.take hp hle).not_inLinks⟩
  have hpop := popFreeBlockOut_image hi hp
  rw [hsz] at hle
  rw [he, append_cons] at hpop
  rw [hcarve] at hnodes hsized
  rw [hlist] at hnodes hnodup
  have hdraw := hpop.retile hsized (by simpa using total_pieces 32 hle)
    (fun x hx => hnodes.spot x (mem_append_right _ hx))
  rw [← hpe] at hdraw
  have hframe : ∀ i, h.InUse i →
      draw (popFreeBlockOut m p) p (pieces b a.size 32) i = m i := by
    intro i hu
    rw [draw_frame hp16 (fun c hc => (hsized.size c (by simp [hc])).1),
      popFreeBlockOut_frame hi hp hu.not_inLinks]
    intro hc
    apply (hkeep i hu).1
    rw [hcarve, inTags_append, inTags_append, ← hpe]
    exact .inl (.inr hc)
  rw [hsz, takeBlock_eq hp16 a.ge hle hbs.2.2.2 a.aligned hv]
  simp only [Spells, hcarve, hlist]
  by_cases hr : b.size - a.size < 32
  · have hrs : h.rest a.size p = [] := by
      rw [AbsHeap.rest, hsz, if_pos hr]
    rw [if_pos hr, hrs]
    exact ⟨_, rfl, hdraw, hframe⟩
  · have hrs : h.rest a.size p = [p + a.size] := by
      rw [AbsHeap.rest, hsz, if_neg hr]
    rw [hrs] at hlist hnodes hnodup
    rw [if_neg hr, hrs]
    obtain ⟨m', hm', himg, hfr⟩ := insertAtFreeHead_image hdraw
      (hnodes.spot _ (by simp)) (nodup_cons.mp hnodup).1 (by
        intro y hy
        apply hnodes.apart _ (by simp) y (mem_cons_of_mem _ hy)
        rintro rfl
        exact (nodup_cons.mp hnodup).1 hy)
    refine ⟨m', hm', himg, ?_⟩
    intro i hu
    rw [hfr i, hframe i hu]
    have := (hkeep i hu).2
    rwa [hlist] at this

/-- The allocator's state `s` holds the heap `h` and nobody is inside it. -/
structure Rep (s : State) (h : AbsHeap L) : Prop where
  inited : s.inited = true
  unlocked : s.locked = false
  spells : Spells s.mem h

theorem Spells.rep (hi : Spells m h) : Rep (⟨m, true, false⟩ : State) h := ⟨rfl, rfl, hi⟩

/-- The words of a page with one free block, of `n` bytes. -/
structure OneBlock (L : PageSpan) (m : Mem) (n : ℕ) : Prop where
  head : freeHead L m = L.firstBlock
  next : m.get L.firstBlock = 0
  prev : m.get (L.firstBlock + 8) = L.freeHeadAddr
  header : m.get (L.firstBlock - 8) = n
  footer : m.get (L.firstBlock + n - 16) = n
  prologue : m.get L.payloadStart = 1
  epilogue : m.get (L.payloadEnd - 8) = 1

/-- Any memory becomes the image of one free block, if the page has room for its size. -/
theorem heapInit_block {L : PageSpan} {s : State} {n : ℕ} (hs : s.inited = false)
    (hn : L.blockSize = n) (hge : 32 ≤ n) (hal : n % 16 = 0) (hle : n + 16 ≤ L.payloadSize) :
    ∃ s', heapInit L s = .ok s' ∧ s'.inited = true ∧ s'.locked = s.locked ∧
      OneBlock L s'.mem n := by
  have hend := L.end_lt
  have hout := L.freeHead_outside
  have hpos := L.freeHead_pos
  have hfl := L.freeHead_lt
  have hnat : L.blockSize.toNat = n := by
    rw [hn]
    exact Int.toNat_natCast n
  have hneg : ¬ L.blockSize < 0 := by omega
  have hv : tag ⟨n, true⟩ < 2 ^ 64 := by
    simp only [tag, if_true]
    omega
  have hbp : L.payloadStart + dsize = L.firstBlock := rfl
  have hb : L.firstBlock = L.payloadStart + 16 := rfl
  have he : L.payloadEnd = L.payloadStart + L.payloadSize := rfl
  have hd := setFree_setBlockSize (m := s.mem.put L.payloadStart 1) (p := L.firstBlock)
    (by omega) hge hal hv
  obtain ⟨h1, h2⟩ := retag_get (m := s.mem.put L.payloadStart 1) (n := n)
    (show 16 ≤ L.firstBlock by omega) hge hv
  have h0 : (retag (s.mem.put L.payloadStart 1) L.firstBlock n (tag ⟨n, true⟩)).get
      L.payloadStart = 1 := by
    rw [retag, Mem.get_put_of_disjoint _ (by omega), Mem.get_put_of_disjoint _ (by omega)]
    exact Mem.get_put_self _ (by norm_num)
  simp only [heapInit, hs, Bool.false_eq_true, if_false, hneg, hnat, hbp, hd, freeHead, prevFree,
    nextFree, wsize]
  generalize retag (s.mem.put L.payloadStart 1) L.firstBlock n (tag ⟨n, true⟩) = m at *
  obtain ⟨M, hM⟩ : ∃ M, (((m.put L.freeHeadAddr L.firstBlock).put (L.payloadEnd - 8) 1).put
      (L.firstBlock + 8) L.freeHeadAddr).put L.firstBlock 0 = M := ⟨_, rfl⟩
  have hkeep : ∀ w, (w + 8 ≤ L.freeHeadAddr ∨ L.freeHeadAddr + 8 ≤ w) →
      w + 8 ≤ L.firstBlock ∨ L.firstBlock + 16 ≤ w → w + 16 ≤ L.payloadEnd →
        M.get w = m.get w := by
    intro w hw1 hw2 hw3
    rw [← hM]
    simp (disch := omega) only [Mem.get_put_of_disjoint]
  have hhead : M.get L.freeHeadAddr = L.firstBlock := by
    rw [← hM]
    simp (disch := omega) only [Mem.get_put_of_disjoint]
    exact Mem.get_put_self _ (by omega)
  rw [hM, hhead, if_neg (by omega)]
  refine ⟨_, rfl, rfl, rfl, hhead, ?_, ?_, ?_, ?_, ?_, ?_⟩
  · rw [← hM]
    exact Mem.get_put_self _ (by norm_num)
  · rw [← hM, Mem.get_put_of_disjoint _ (by omega)]
    exact Mem.get_put_self _ hfl
  · rw [hkeep _ (by omega) (by omega) (by omega), h1]
    rfl
  · rw [hkeep _ (by omega) (by omega) (by omega), h2]
    rfl
  · rw [hkeep _ (by omega) (by omega) (by omega), h0]
  · rw [← hM]
    simp (disch := omega) only [Mem.get_put_of_disjoint]
    exact Mem.get_put_self _ (by norm_num)

theorem PageSpan.blockSize_eq (L : PageSpan) : L.blockSize = toInt (L.payloadSize - 16) := by
  have hge := L.size_ge
  rw [PageSpan.blockSize, toInt_toSize_add, maxIntraPodSize, qsize, overhead, dsize]
  congr 1
  omega

theorem Layout.blockSize_eq (L : Layout) : L.blockSize = (L.payloadSize - 16 : ℕ) := by
  have hge := L.size_ge
  have hle := L.size_le
  rw [PageSpan.blockSize_eq, toInt_of_lt (by omega)]

theorem heapInit_fresh {s : State} (hs : s.inited = false) :
    ∃ s', heapInit L s = .ok s' ∧ s'.inited = true ∧ s'.locked = s.locked ∧
      Spells s'.mem (AbsHeap.fresh L) := by
  have hge := L.size_ge
  have hpg := L.size_page
  have hpos := L.freeHead_pos
  have hout := L.freeHead_outside
  have hb : L.firstBlock = L.payloadStart + 16 := rfl
  obtain ⟨s', hrun, hin, hlock, hone⟩ :=
    heapInit_block hs L.blockSize_eq (by omega) (by omega) (by omega)
  refine ⟨s', hrun, hin, hlock, ⟨⟨(AbsHeap.fresh L).sized, hone.prologue, hone.epilogue, ?_⟩, ?_,
    (AbsHeap.fresh L).nodes⟩⟩
  · exact tags_cons.mpr ⟨⟨hone.header, hone.footer⟩, tags_nil⟩
  · refine ⟨⟨hone.head, fun _ => hone.prev, hone.next, fun hc => absurd rfl hc, trivial⟩, ?_, ?_⟩
    · simp only [AbsHeap.fresh, nodup_cons, mem_singleton, not_mem_nil,
        not_false_eq_true, nodup_nil, and_true]
      omega
    · simp only [AbsHeap.fresh, mem_singleton]
      omega

theorem firstFit_some {a p : ℕ} (hp : h.firstFit a = some p) :
    p ∈ h.freeList ∧ a ≤ h.sizeAt p := by
  refine ⟨mem_of_find?_eq_some hp, ?_⟩
  simpa using List.find?_some hp

/-- On an image `malloc` is the first fit followed by `takeBlock`. -/
theorem malloc_eq {s : State} {a : ℕ} (hr : Rep s h) (ha : 0 < a) (hle : a ≤ L.maxIntraPodSize) :
    malloc L s a = match h.firstFit a with
      | none => .ok (0, s)
      | some p => do
        let m ← takeBlock L s.mem p (h.sizeAt p) a
        return (p, { s with mem := m }) := by
  have hlen := h.freeList_length_lt
  obtain ⟨m, inited, locked⟩ := s
  obtain ⟨rfl, rfl, hi⟩ := hr
  simp only [malloc, heapInit, if_true, Bool.false_eq_true, if_false, ok_bind, pure_eq,
    show ¬ a = 0 by omega, show ¬ a > L.maxIntraPodSize by omega]
  cases hl : h.freeList with
  | nil =>
    have hz : freeHead L m = 0 := by
      rw [hi.freeHead_eq, hl]
      rfl
    have hff : h.firstFit a = none := by
      rw [AbsHeap.firstFit, hl]
      rfl
    simp only [hz, hff, ne_eq, not_true_eq_false, if_false, and_false]
  | cons x l₂ =>
    have hx : freeHead L m = x := by
      rw [hi.freeHead_eq, hl]
      rfl
    have hx0 : x ≠ 0 := hi.ne_zero (by simp [hl])
    have hfind : findFit m a L.payloadSize x = .ok (h.firstFit a) := by
      rw [AbsHeap.firstFit, hl]
      rw [hl, length_cons] at hlen
      exact findFit_eq hi (show h.freeList = [] ++ x :: l₂ by simp [hl]) (by omega)
    simp only [hx, hfind, ne_eq, hx0, not_false_eq_true, if_true, false_and, if_false]
    cases hff : h.firstFit a with
    | none => simp only [ok_bind]
    | some p => simp only [ok_bind, hi.getBlockSize_eq (firstFit_some hff).1]

/-- `malloc` is first fit on the abstract heap. -/
theorem malloc_ok {s : State} (hr : Rep s h) (a : Request L) :
    ∃ s', malloc L s a.size = .ok ((h.malloc a).1.getD 0, s') ∧ Rep s' (h.malloc a).2 ∧
      ∀ i, h.InUse i → s'.mem i = s.mem i := by
  have hpos : 0 < a.size := lt_of_lt_of_le (by decide) a.ge
  rw [malloc_eq hr hpos a.le, AbsHeap.malloc]
  cases hff : h.firstFit a.size with
  | none => exact ⟨s, rfl, hr, fun i _ => rfl⟩
  | some p =>
    obtain ⟨hp, hle⟩ := firstFit_some hff
    obtain ⟨m', hm', hi', hf⟩ := takeBlock_image hr.spells hp hle
    simp only [hm', ok_bind, pure_eq]
    exact ⟨{ s with mem := m' }, rfl, ⟨hr.inited, hr.unlocked, hi'⟩, hf⟩

/-! ## Release -/

theorem popFreeBlockOut_foldl {js : List ℕ} (hi : Image L m bs xs) (hnd : js.Nodup)
    (hsub : ∀ j ∈ js, j ∈ xs) : Image L (js.foldl popFreeBlockOut m) bs (xs.diff js) ∧
      ∀ i, ¬ InLinks L xs i → js.foldl popFreeBlockOut m i = m i := by
  induction js generalizing m xs with
  | nil => exact ⟨hi, fun i _ => rfl⟩
  | cons j js ih =>
    obtain ⟨hj, hnd⟩ := nodup_cons.mp hnd
    have hmem : j ∈ xs := hsub j (by simp)
    have hsub' : ∀ k ∈ js, k ∈ xs.erase j := by
      intro k hk
      refine (mem_erase_of_ne ?_).mpr (hsub k (by simp [hk]))
      rintro rfl
      exact hj hk
    obtain ⟨h1, h2⟩ := ih (popFreeBlockOut_image hi hmem) hnd hsub'
    rw [foldl_cons, diff_cons]
    refine ⟨h1, ?_⟩
    intro i hl
    rw [h2 i, popFreeBlockOut_frame hi hmem hl]
    rintro (hc | ⟨x, hx, hc⟩)
    · exact hl (.inl hc)
    · exact hl (.inr ⟨x, mem_of_mem_erase hx, hc⟩)

/-- The walk of `rightCoalescing` finds the run of free blocks behind `b`. -/
theorem collectRight_eq {l₁ t d : List Block} {b : Block} {fuel : ℕ}
    (he : Edges L m (l₁ ++ b :: (t ++ d))) (ht : ∀ c ∈ t, c.free = true)
    (hd : ∀ c ∈ d.head?, c.free = false) (hf : t.length < fuel) :
    collectRight L m fuel (L.firstBlock + total l₁) =
      .ok (total t, (place (L.firstBlock + total l₁ + b.size) t).map Prod.fst) := by
  have hstep : ∀ (l₁ : List Block) (b : Block),
      L.firstBlock + total l₁ + b.size = L.firstBlock + total (l₁ ++ [b]) := by
    intro l₁ b
    simp [Nat.add_assoc]
  have hnext : ∀ {l₁ t : List Block} {b : Block}, Edges L m (l₁ ++ b :: (t ++ d)) →
      nextBlkp m (L.firstBlock + total l₁) = L.firstBlock + total (l₁ ++ [b]) := by
    intro l₁ t b he
    rw [nextBlkp, (he.read (mem_place_split _ _ _ _)).1, hstep]
  have hread : ∀ {l₁ r : List Block} {b c : Block}, Edges L m (l₁ ++ b :: c :: r) →
      L.firstBlock + total (l₁ ++ [b]) < L.payloadEnd ∧
        getAlloc m (hdrp (L.firstBlock + total (l₁ ++ [b]))) = (if c.free then 0 else 1) ∧
        getBlockSize m (L.firstBlock + total (l₁ ++ [b])) = c.size := by
    intro l₁ r b c he
    rw [append_cons] at he
    have hc := mem_place_split L.firstBlock (l₁ ++ [b]) c r
    have hp := he.sized.placed hc
    obtain ⟨h1, h2⟩ := he.read hc
    exact ⟨by omega, h2, h1⟩
  induction t generalizing l₁ b fuel with
  | nil =>
    obtain ⟨fuel, rfl⟩ : ∃ k, fuel = k + 1 := ⟨fuel - 1, by omega⟩
    rw [collectRight, hnext he]
    cases d with
    | nil =>
      have hfill := he.sized.fill
      simp only [append_nil, total_append, total_cons, total_nil] at hfill
      have hend : L.firstBlock + total (l₁ ++ [b]) ≥ L.payloadEnd := by
        simp only [PageSpan.firstBlock, PageSpan.payloadEnd, total_append, total_cons, total_nil]
        omega
      simp only [hend, if_true, total_nil, place, map_nil]
    | cons c d =>
      have hc : c.free = false := hd c rfl
      obtain ⟨hlt, hal, -⟩ := hread he
      simp only [show ¬ L.firstBlock + total (l₁ ++ [b]) ≥ L.payloadEnd by omega, if_false, hal, hc,
        Bool.false_eq_true, ne_eq, one_ne_zero, not_false_eq_true, if_true, total_nil, place,
        map_nil]
  | cons c t ih =>
    obtain ⟨fuel, rfl⟩ : ∃ k, fuel = k + 1 := ⟨fuel - 1, by omega⟩
    have hc : c.free = true := ht c (by simp)
    obtain ⟨hlt, hal, hsz⟩ := hread he
    have he' : Edges L m ((l₁ ++ [b]) ++ c :: (t ++ d)) := by
      simpa using he
    have hrec := ih he' (fun e he => ht e (by simp [he])) (show t.length < fuel by simpa using hf)
    rw [collectRight, hnext he, hstep]
    simp only [show ¬ L.firstBlock + total (l₁ ++ [b]) ≥ L.payloadEnd by omega, if_false, hal, hc,
      if_true, ne_eq, not_true_eq_false, hrec, ok_bind, pure_eq, hsz, total_cons,
      place, map_cons]

theorem setFree_setBlockSize_grow {p n k : ℕ} (hp : 16 ≤ p) (hn : 32 ≤ n) (hm : n % 16 = 0)
    (hk : k % 16 = 0) (hv : k + n < 2 ^ 64) (hh : m.get (p - 8) = n) :
    setFree (setBlockSize m p (fun m => k + getBlockSize m p)) p =
      retag m p (k + n) (k + n) := by
  have hg : getBlockSize m p = n := by
    rw [getBlockSize, hdrp, getSize_of_get hh]
    omega
  have h1 : (m.put (p - 8) (k + n)).get (p - 8) = k + n := Mem.get_put_self m hv
  have hs : getSize (m.put (p - 8) (k + n)) (p - 8) = k + n := by
    rw [getSize_of_get h1]
    omega
  have hset : setBlockSize m p (fun m => k + getBlockSize m p) =
      (m.put (p - 8) (k + n)).put (p + (k + n) - 16) (k + (k + n)) := by
    have hg' : getBlockSize (m.put (p - 8) (k + n)) p = k + n := hs
    simp only [setBlockSize, hg, ftrp, hdrp, wsize, dsize, hs, hg']
  have hkeep : ((m.put (p - 8) (k + n)).put (p + (k + n) - 16) (k + (k + n))).get (p - 8) =
      k + n := by
    rw [Mem.get_put_of_disjoint _ (by omega), h1]
  rw [hset, setFree_eq (by omega) hv (.inl hkeep)]
  simp only [retag]
  rw [Mem.put_comm _ (k + (k + n)) (k + n) (by omega), Mem.put_put_self, Mem.put_put_self]

/-- Joining the block at `p` with the run of free blocks behind it. -/
theorem rightCoalescing_image {l₁ t d : List Block} {n p : ℕ}
    (hi : Image L m (l₁ ++ ⟨n, true⟩ :: (t ++ d)) xs) (ht : ∀ c ∈ t, c.free = true)
    (hd : ∀ c ∈ d.head?, c.free = false) (hp : p = L.firstBlock + total l₁)
    (hsub : ∀ j ∈ (place (p + n) t).map Prod.fst, j ∈ xs)
    (hs : Sized L (l₁ ++ ⟨n + total t, true⟩ :: d)) :
    ∃ m', rightCoalescing L m p = .ok m' ∧
      Image L m' (l₁ ++ ⟨n + total t, true⟩ :: d) (xs.diff ((place (p + n) t).map Prod.fst)) ∧
      ∀ i, ¬ InTags p [⟨n + total t, true⟩] i → ¬ InLinks L xs i → m' i = m i := by
  have hsz := hi.edges.sized
  have hlen := hsz.length_lt
  have hplace := mem_place_split L.firstBlock l₁ ⟨n, true⟩ (t ++ d)
  rw [← hp] at hplace
  have hpl := hsz.placed hplace
  have hge := L.size_le
  dsimp only at hpl
  have hpos : ∀ x ∈ t, 0 < x.size := fun x hx => hsz.pos x (by simp [hx])
  have hcol : collectRight L m L.payloadSize p =
      .ok (total t, (place (p + n) t).map Prod.fst) := by
    rw [hp]
    refine collectRight_eq hi.edges ht hd ?_
    simp only [length_append, length_cons] at hlen
    omega
  have hin : ¬ (p < L.payloadStart ∨ p ≥ L.payloadEnd) := by omega
  simp only [rightCoalescing, hin, if_false, hcol, ok_bind, pure_eq]
  obtain ⟨m₁, hm₁, himg, hfr⟩ : ∃ m₁, (if total t ≠ 0 then
      setFree (setBlockSize m p (fun m => total t + getBlockSize m p)) p else m) = m₁ ∧
      Image L m₁ (l₁ ++ ⟨n + total t, true⟩ :: d) xs ∧
      ∀ i, ¬ InTags p [⟨n + total t, true⟩] i → m₁ i = m i := by
    cases t with
    | nil => exact ⟨m, rfl, hi, fun i _ => rfl⟩
    | cons c t =>
      have hc := hpos c (by simp)
      have hmm := (hs.size ⟨n + total (c :: t), true⟩ (by simp)).2
      have hbl := hs.placed (mem_place_split L.firstBlock l₁ ⟨n + total (c :: t), true⟩ d)
      have hend := L.end_lt
      have hh : m.get (p - 8) = n := (hi.edges.tags _ hplace).1
      dsimp only [PageSpan.payloadEnd] at hmm hbl
      rw [if_pos (by rw [total_cons]; omega), setFree_setBlockSize_grow (by omega) hpl.2.2.1
        hpl.2.2.2 (by omega) (by omega) hh]
      have hdr : retag m p (total (c :: t) + n) (total (c :: t) + n) =
          draw m p [⟨n + total (c :: t), true⟩] := by
        rw [draw_cons, draw_nil, Nat.add_comm]
        rfl
      rw [hdr]
      refine ⟨_, rfl, ?_, fun i hni => draw_frame (by omega) (by simp; omega) hni⟩
      rw [append_cons] at hs ⊢
      rw [hp]
      have hi' : Image L m (l₁ ++ ⟨n, true⟩ :: (c :: t) ++ d) xs := by
        simpa using hi
      refine hi'.retile hs (by simp) ?_
      intro x hx
      exact Spot.merge (cons_ne_nil _ _) (hi'.nodes.spot x hx)
  rw [hm₁]
  obtain ⟨h1, h2⟩ := popFreeBlockOut_foldl himg (place_nodup hpos) hsub
  exact ⟨_, rfl, h1, fun i hi₁ hi₂ => (h2 i hi₂).trans (hfr i hi₁)⟩

/-- `SET_FREE` followed by the insertion: the block is free and first in the list. -/
theorem release_image (hi : Spells m h) {p n : ℕ} {l₁ l₂ : List Block}
    (he : h.blocks = l₁ ++ ⟨n, false⟩ :: l₂) (hpe : p = L.firstBlock + total l₁) :
    ∃ m', insertAtFreeHead L (setFree m p) p = .ok m' ∧
      Image L m' (l₁ ++ ⟨n, true⟩ :: l₂) (p :: h.freeList) ∧
      ∀ i, ¬ InTags p [⟨n, true⟩] i → ¬ InLinks L (p :: h.freeList) i → m' i = m i := by
  have halloc : (p, ⟨n, false⟩) ∈ place L.firstBlock h.blocks := by
    rw [he, hpe]
    exact mem_place_split _ _ _ _
  have hpl := h.sized.placed halloc
  have htag := h.sized.tag_lt (block_mem_of_mem_place halloc)
  have hh : m.get (p - 8) = n + 1 := (hi.edges.tags _ halloc).1
  dsimp only at hpl
  have hv : n < 2 ^ 64 := lt_of_le_of_lt (Nat.le_add_right n _) htag
  have hdr : setFree m p = draw m p [⟨n, true⟩] := by
    rw [setFree_eq hpl.2.2.2 hv (.inr hh), draw_cons, draw_nil]
    rfl
  have hs : Sized L (l₁ ++ [⟨n, true⟩] ++ l₂) := by
    have hs := h.sized
    rw [he, append_cons] at hs
    refine ⟨?_, ?_⟩
    · simpa using hs.fill
    · intro b hb
      simp only [mem_append, mem_singleton] at hb
      rcases hb with (hb | rfl) | hb
      · exact hs.size b (by simp [hb])
      · exact hs.size ⟨n, false⟩ (by simp)
      · exact hs.size b (by simp [hb])
  have hi₁ : Image L (setFree m p) (l₁ ++ [⟨n, true⟩] ++ l₂) h.freeList := by
    rw [hdr, hpe]
    rw [Spells, he, append_cons] at hi
    refine hi.retile hs (by simp) ?_
    intro x hx
    have := Spot.merge (f := true) (cons_ne_nil _ _) (hi.nodes.spot x hx)
    simpa using this
  have hnot : p ∉ h.freeList := by
    intro hm
    exact h.not_isLive_of_mem hm (h.isLive_iff.mpr ⟨n, halloc⟩)
  have hspot : Spot L (l₁ ++ [⟨n, true⟩] ++ l₂) p := by
    have hm := mem_place_split L.firstBlock l₁ ⟨n, true⟩ l₂
    rw [← hpe, append_cons] at hm
    exact hs.spot hm
  obtain ⟨m', hm', himg, hfr⟩ := insertAtFreeHead_image hi₁ hspot hnot (by
    intro y hy
    obtain ⟨b, hb, -⟩ := mem_freeStarts.mp ((h.mem_freeList y).mp hy)
    apply h.sized.apart halloc hb
    rintro rfl
    exact hnot hy)
  rw [← append_cons] at himg
  refine ⟨m', hm', himg, ?_⟩
  intro i hni hli
  rw [hfr i hli, hdr]
  exact draw_frame (by omega) (by simpa using hpl.2.2.1) hni

/-- `free` of a block in use is `free` on the abstract heap. -/
theorem free_ok {s : State} (hr : Rep s h) {p : ℕ} (hp : h.isLive p = true) :
    ∃ s', free L s p = .ok s' ∧ Rep s' (h.free p) ∧
      ∀ i, (h.free p).InUse i → s'.mem i = s.mem i := by
  obtain ⟨m, inited, locked⟩ := s
  obtain ⟨rfl, rfl, hi⟩ := hr
  obtain ⟨l₁, n, l₂, he, hpe, halloc⟩ := h.split_of_isLive hp
  have hpos := h.sized.pos
  rw [he] at hpos
  have hp₁ : ∀ x ∈ l₁, 0 < x.size := fun x hx => hpos x (by simp [hx])
  obtain ⟨hblocks, hlist⟩ := AbsHeap.free_eq hp
  rw [he, hpe, release_split hp₁, ← hpe] at hblocks
  rw [he, hpe, absorbed_split hp₁, ← hpe] at hlist
  dsimp only at hblocks hlist hi
  have hsz := (h.free p).sized
  rw [hblocks] at hsz
  obtain ⟨m₁, hm₁, hi₁, hf₁⟩ := release_image hi he hpe
  have hsub : ∀ j ∈ (place (p + n) (l₂.takeWhile Block.free)).map Prod.fst,
      j ∈ h.freeList ∧ j ≠ p := by
    intro j hj
    obtain ⟨⟨j, c⟩, hc, rfl⟩ := mem_map.mp hj
    have hn := hpos ⟨n, false⟩ (by simp)
    have hb := (place_bounds hc).1
    refine ⟨(h.mem_freeList j).mpr (mem_freeStarts.mpr ⟨c, ?_, ?_⟩), by dsimp only at *; omega⟩
    · rw [he, ← takeWhile_append_dropWhile (p := Block.free) (l := l₂), mem_place_append,
        mem_place_cons, mem_place_append, ← hpe]
      exact .inr (.inr (.inl hc))
    · exact mem_takeWhile_imp (block_mem_of_mem_place hc)
  have hd : ∀ c ∈ (l₂.dropWhile Block.free).head?, c.free = false := by
    intro c hc
    have := List.head?_dropWhile_not Block.free l₂
    rwa [hc] at this
  rw [← takeWhile_append_dropWhile (p := Block.free) (l := l₂)] at hi₁
  obtain ⟨m₂, hm₂, hi₂, hf₂⟩ := rightCoalescing_image hi₁ (fun c => mem_takeWhile_imp) hd hpe
    (fun j hj => mem_cons_of_mem _ (hsub j hj).1) hsz
  rw [cons_diff_of_not_mem (fun hm => (hsub p hm).2 rfl), ← hlist, ← hblocks] at hi₂
  have hhead : freeHead L m₂ ≠ 0 := by
    rw [Spells.freeHead_eq hi₂, hlist]
    exact Spells.ne_zero hi₂ (by rw [hlist]; simp)
  refine ⟨⟨m₂, true, false⟩, ?_, ⟨rfl, rfl, hi₂⟩, ?_⟩
  · simp only [free, coalescing, Bool.false_eq_true, if_false, hm₁, hm₂, hhead, ok_bind,
      pure_eq]
  · intro i hu
    have hmerged := mem_place_split L.firstBlock l₁
      ⟨n + total (l₂.takeWhile Block.free), true⟩ (l₂.dropWhile Block.free)
    rw [← hblocks, ← hpe] at hmerged
    have hout := hu.outside hmerged rfl
    have hu' := hu.of_free hp
    have hnt := hu.not_inTags
    have hnt' := hu'.not_inTags
    have hnl : ¬ InLinks L (p :: h.freeList) i := by
      have hn := (h.sized.placed halloc).2.2.1
      rintro (hc | ⟨x, hx, hc⟩)
      · exact hu'.not_inLinks (.inl hc)
      · rcases mem_cons.mp hx with rfl | hx
        · dsimp only at hout hn
          omega
        · exact hu'.not_inLinks (.inr ⟨x, hx, hc⟩)
    rw [hblocks, inTags_append, inTags_cons, ← hpe] at hnt
    rw [he, inTags_append, inTags_cons, ← hpe] at hnt'
    rw [hf₂ i (fun hc => hnt (.inr (.inl hc))) hnl]
    refine hf₁ i (fun hc => hnt' (.inr (.inl ?_))) hnl
    simpa [InTags] using hc

end Remon.Heap
