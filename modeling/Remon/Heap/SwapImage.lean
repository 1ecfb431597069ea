import Remon.Heap.Sessions

/-! # The part of a page that is swapped

Only the bytes in front of a free last block are stored, together with its two link words and
the last two words of the page. Restored over zeros they give a page that differs from the
original inside that free block only.
-/

namespace Remon.Heap
open Lib Fault List

section Image

variable (L : PageSpan)

/-- The bytes that are stored when the tail of the page starts at offset `t`. -/
def swapImage (m : Mem) (t : ℕ) : List UInt8 :=
  m.bytes L.payloadStart t ++ if t ≠ L.payloadSize then
    m.bytes (L.payloadStart + t) dsize ++ m.bytes (L.payloadEnd - dsize) dsize else []

/-- Read an image back at the same addresses. -/
def restore (m : Mem) (t : ℕ) (img : List UInt8) : Mem :=
  let m := m.blit L.payloadStart (img.take t)
  if t ≠ L.payloadSize then
    let m := m.blit (L.payloadStart + t) ((img.drop t).take dsize)
    m.blit (L.payloadEnd - dsize) ((img.drop (t + dsize)).take dsize)
  else m

/-- The page restored over zeros. -/
def reload (m : Mem) : Mem :=
  restore L (m.zero L.payloadStart L.payloadSize) (getTailFreeBlock L m)
    (swapImage L m (getTailFreeBlock L m))

end Image

variable {L : Layout} {m : Mem} {h : AbsHeap L}

theorem swapImage_parts {t : ℕ} (ht : t ≠ L.payloadSize) :
    (swapImage L m t).take t = m.bytes L.payloadStart t ∧
      ((swapImage L m t).drop t).take dsize = m.bytes (L.payloadStart + t) dsize ∧
      ((swapImage L m t).drop (t + dsize)).take dsize = m.bytes (L.payloadEnd - dsize) dsize := by
  have h1 : (swapImage L m t).drop t =
      m.bytes (L.payloadStart + t) dsize ++ m.bytes (L.payloadEnd - dsize) dsize := by
    rw [swapImage, if_pos ht, drop_left' (Mem.bytes_length _ _ _)]
  refine ⟨?_, ?_, ?_⟩
  · rw [swapImage, take_left' (Mem.bytes_length _ _ _)]
  · rw [h1, take_left' (Mem.bytes_length _ _ _)]
  · rw [← drop_drop, h1, drop_left' (Mem.bytes_length _ _ _),
      take_of_length_le (by simp)]

/-- Whatever lies under it, an image gives back every byte of the page but those between
the link words and the footer of the tail. -/
theorem restore_apply {b : Mem} {t a : ℕ} (ht : t = L.payloadSize ∨ t + 32 ≤ L.payloadSize)
    (hin : L.payloadStart ≤ a ∧ a < L.payloadEnd)
    (ha : t ≠ L.payloadSize → a < L.payloadStart + t + 16 ∨ L.payloadEnd ≤ a + 16) :
    restore L b t (swapImage L m t) a = m a := by
  have hend : L.payloadEnd = L.payloadStart + L.payloadSize := rfl
  have hge := L.size_ge
  by_cases hfull : t = L.payloadSize
  · subst hfull
    have himg : (swapImage L m L.payloadSize).take L.payloadSize =
        m.bytes L.payloadStart L.payloadSize := by
      rw [swapImage, take_left' (Mem.bytes_length _ _ _)]
    simp only [restore, himg, ne_eq, not_true_eq_false, if_false]
    exact Mem.blit_bytes_apply hin.1 hin.2
  · obtain ⟨h1, h2, h3⟩ := swapImage_parts (m := m) hfull
    have ha' := ha hfull
    simp only [restore, h1, h2, h3, ne_eq, hfull, not_false_eq_true, if_true]
    by_cases hlast : L.payloadEnd - dsize ≤ a ∧ a < L.payloadEnd - dsize + dsize
    · exact Mem.blit_bytes_apply hlast.1 hlast.2
    · rw [Mem.blit_apply_of_outside (by rw [Mem.bytes_length]; omega)]
      simp only [dsize] at *
      by_cases hlink : L.payloadStart + t ≤ a ∧ a < L.payloadStart + t + 16
      · exact Mem.blit_bytes_apply hlink.1 hlink.2
      · rw [Mem.blit_apply_of_outside (by rw [Mem.bytes_length]; omega)]
        exact Mem.blit_bytes_apply hin.1 (by omega)

/-- Nothing outside the page is restored. -/
theorem restore_apply_of_outside {b : Mem} {t a : ℕ} {img : List UInt8}
    (ht : t = L.payloadSize ∨ t + 32 ≤ L.payloadSize)
    (ha : a < L.payloadStart ∨ L.payloadEnd ≤ a) : restore L b t img a = b a := by
  have hend : L.payloadEnd = L.payloadStart + L.payloadSize := rfl
  have hge := L.size_ge
  have hlen : ∀ (l : List UInt8) k, (l.take k).length ≤ k := fun l k => by simp
  have h1 := hlen img t
  have h2 := hlen (img.drop t) dsize
  have h3 := hlen (img.drop (t + dsize)) dsize
  simp only [dsize] at h2 h3
  have hfirst : b.blit L.payloadStart (img.take t) a = b a :=
    Mem.blit_apply_of_outside (by omega)
  by_cases hfull : t = L.payloadSize
  · simp only [restore, hfull, ne_eq, not_true_eq_false, if_false]
    rw [← hfull, hfirst]
  · simp only [restore, dsize, ne_eq, hfull, not_false_eq_true, if_true]
    rw [Mem.blit_apply_of_outside (by omega), Mem.blit_apply_of_outside (by omega), hfirst]

theorem restore_swapImage {t a : ℕ} (ht : t = L.payloadSize ∨ t + 32 ≤ L.payloadSize)
    (ha : t ≠ L.payloadSize → a < L.payloadStart + t + 16 ∨ L.payloadEnd ≤ a + 16) :
    restore L (m.zero L.payloadStart L.payloadSize) t (swapImage L m t) a = m a := by
  by_cases hin : L.payloadStart ≤ a ∧ a < L.payloadEnd
  · exact restore_apply ht hin ha
  · have hend : L.payloadEnd = L.payloadStart + L.payloadSize := rfl
    rw [restore_apply_of_outside ht (by omega), Mem.zero_apply_of_outside (by omega)]

/-- The tail of a page is a free block or there is none. -/
theorem AbsHeap.tailFree_cases (h : AbsHeap L) : h.tailFree = L.payloadSize ∨
    ∃ b, (L.payloadStart + h.tailFree, b) ∈ place L.firstBlock h.blocks ∧ b.free = true ∧
      h.tailFree + b.size = L.payloadSize := by
  rw [AbsHeap.tailFree]
  rcases eq_nil_or_concat' h.blocks with hb | ⟨l, b, hb⟩
  · exact .inl (by simp [hb])
  · rw [hb, List.getLast?_concat]
    cases hf : b.free with
    | false => exact .inl (by simp [hf])
    | true =>
      have hfill := h.sized.fill
      rw [hb, total_append, total_cons, total_nil] at hfill
      have hm := mem_place_split L.firstBlock l b []
      have he : L.payloadStart + (L.payloadSize - b.size) = L.firstBlock + total l := by
        simp only [PageSpan.firstBlock]
        omega
      simp only [hf, if_true]
      exact .inr ⟨b, he ▸ hm, hf, by omega⟩

theorem AbsHeap.tailFree_le (h : AbsHeap L) :
    h.tailFree = L.payloadSize ∨ h.tailFree + 32 ≤ L.payloadSize := by
  rcases h.tailFree_cases with ht | ⟨b, hb, -, ht⟩
  · exact .inl ht
  · have hbs := h.sized.placed hb
    exact .inr (by omega)

/-- The bytes that the image of a heap and its data use are all stored. -/
theorem AbsHeap.stored (h : AbsHeap L) {a : ℕ}
    (ha : InFence L a ∨ InTags L.firstBlock h.blocks a ∨ InLinks L h.freeList a ∨ h.InUse a ∨
      a < L.payloadStart ∨ L.payloadEnd ≤ a) (hne : h.tailFree ≠ L.payloadSize) :
    a < L.payloadStart + h.tailFree + 16 ∨ L.payloadEnd ≤ a + 16 := by
  have hend : L.payloadEnd = L.payloadStart + L.payloadSize := rfl
  have hge := L.size_ge
  obtain ⟨b, hb, hf, ht⟩ := h.tailFree_cases.resolve_left hne
  have hbs := h.sized.placed hb
  rcases ha with ha | ⟨⟨q, c⟩, hq, ha⟩ | ha | ha | ha
  · unfold InFence at ha
    omega
  · have hd := place_disjoint hq hb
    have hqs := h.sized.placed hq
    dsimp only at ha
    rcases hd with ⟨rfl, rfl⟩ | hd | hd <;> omega
  · rcases ha with ha | ⟨x, hx, ha⟩
    · have := L.freeHead_outside
      omega
    · obtain ⟨c, hc, -⟩ := mem_freeStarts.mp ((h.mem_freeList x).mp hx)
      have hcs := h.sized.placed hc
      rcases place_disjoint hc hb with ⟨rfl, -⟩ | hd | hd <;> omega
  · have := ha.outside hb hf
    omega
  · omega

theorem reload_apply (hi : Spells m h) {a : ℕ}
    (ha : InFence L a ∨ InTags L.firstBlock h.blocks a ∨ InLinks L h.freeList a ∨ h.InUse a ∨
      a < L.payloadStart ∨ L.payloadEnd ≤ a) : reload L m a = m a := by
  rw [reload, getTailFreeBlock_eq hi]
  exact restore_swapImage h.tailFree_le (h.stored ha)

theorem reload_spells (hi : Spells m h) : Spells (reload L m) h := by
  apply hi.congr
  intro a ha
  apply reload_apply hi
  tauto

/-! ## Later calls -/

/-- The calls a client can make on a page. -/
inductive Command (L : Layout) where
  | malloc (a : Request L)
  | free (bp : ℕ)
  | maxAllocatableSize
  | isEmpty
  | getTailFreeBlock

inductive Answer where
  | done
  | value (n : ℕ)
  | flag (b : Bool)
  deriving DecidableEq, Repr

namespace Command

def exec (s : State) : Command L → Except Fault (Answer × State)
  | malloc a => do
    let (p, s) ← Heap.malloc L s a.size
    return (.value p, s)
  | free bp => do
    let s ← Heap.free L s bp
    return (.done, s)
  | maxAllocatableSize => do
    let (n, s) ← Heap.maxAllocatableSize L s
    return (.value n, s)
  | isEmpty => .ok (.flag (Heap.isEmpty L s.mem), s)
  | getTailFreeBlock => .ok (.value (Heap.getTailFreeBlock L s.mem), s)

/-- The answers to a sequence of calls. -/
def answers : State → List (Command L) → Except Fault (List Answer)
  | _, [] => .ok []
  | s, c :: cs => do
    let (a, s) ← c.exec s
    let as ← answers s cs
    return a :: as

/-- The same calls on the abstract heap. -/
def run (h : AbsHeap L) : Command L → Answer × AbsHeap L
  | malloc a => (.value ((h.malloc a).1.getD 0), (h.malloc a).2)
  | free bp => (.done, h.free bp)
  | maxAllocatableSize => (.value h.maxSize, h)
  | isEmpty => (.flag h.isEmpty, h)
  | getTailFreeBlock => (.value h.tailFree, h)

/-- Only blocks in use are given back. -/
def Legal : AbsHeap L → List (Command L) → Prop
  | _, [] => True
  | h, c :: cs => (∀ bp, c = free bp → h.isLive bp = true) ∧ Legal (c.run h).2 cs

theorem exec_ok {s : State} (hr : Rep s h) {c : Command L}
    (hl : ∀ bp, c = free bp → h.isLive bp = true) :
    ∃ s', c.exec s = .ok ((c.run h).1, s') ∧ Rep s' (c.run h).2 := by
  cases c with
  | malloc a =>
    obtain ⟨s', hm, hr', -⟩ := malloc_ok hr a
    exact ⟨s', by simp only [exec, hm, ok_bind, pure_eq, run], hr'⟩
  | free bp =>
    obtain ⟨s', hf, hr', -⟩ := free_ok hr (hl bp rfl)
    exact ⟨s', by simp only [exec, hf, ok_bind, pure_eq, run], hr'⟩
  | maxAllocatableSize =>
    exact ⟨s, by simp only [exec, maxAllocatableSize_ok hr.inited hr.spells, ok_bind,
      pure_eq, run], hr⟩
  | isEmpty => exact ⟨s, by simp only [exec, isEmpty_eq hr.spells, run], hr⟩
  | getTailFreeBlock => exact ⟨s, by simp only [exec, getTailFreeBlock_eq hr.spells, run], hr⟩

theorem answers_ok {s s' : State} (hr : Rep s h) (hr' : Rep s' h) {cs : List (Command L)}
    (hl : Legal h cs) : ∃ as, answers s cs = .ok as ∧ answers s' cs = .ok as := by
  induction cs generalizing s s' h with
  | nil => exact ⟨[], rfl, rfl⟩
  | cons c cs ih =>
    obtain ⟨s₁, he, hr₁⟩ := exec_ok hr hl.1
    obtain ⟨s₁', he', hr₁'⟩ := exec_ok hr' hl.1
    obtain ⟨as, ha, ha'⟩ := ih hr₁ hr₁' hl.2
    refine ⟨(c.run h).1 :: as, ?_, ?_⟩
    · simp only [answers, he, ha, ok_bind, pure_eq]
    · simp only [answers, he', ha', ok_bind, pure_eq]

end Command

/-- A page restored from its swap image has the blocks, the free list and the data of
the original, and no sequence of calls can tell the two apart. -/
theorem reload_faithful (hi : Image L m h.blocks h.freeList) :
    Image L (reload L m) h.blocks h.freeList ∧
    (∀ q n i, (q, ⟨n, false⟩) ∈ place L.firstBlock h.blocks → q ≤ i → i + 16 < q + n →
      reload L m i = m i) ∧
    ∀ cs : List (Command L), Command.Legal h cs → ∃ as,
      Command.answers ⟨m, true, false⟩ cs = .ok as ∧
        Command.answers ⟨reload L m, true, false⟩ cs = .ok as := by
  have hi' : Spells (reload L m) h := reload_spells hi
  refine ⟨hi', ?_, ?_⟩
  · intro q n i hq h1 h2
    apply reload_apply hi
    exact .inr (.inr (.inr (.inl ⟨q, n, hq, h1, h2⟩)))
  · intro cs hl
    exact Command.answers_ok (Spells.rep hi) (Spells.rep hi') hl

open Session in
theorem reload_faithful_sample : ∃ h : AbsHeap sampleLayout,
    Image sampleLayout sampleHeap.mem h.blocks h.freeList ∧
      Command.Legal h [.getTailFreeBlock, .free 4112, .isEmpty] ∧
      Image sampleLayout (reload sampleLayout sampleHeap.mem) h.blocks h.freeList := by
  obtain ⟨h, hh⟩ := sample_reachable.holds
  have hl : h.isLive 4112 = true := h.isLive_iff.mpr ((hh.live 4112).mp (by simp))
  refine ⟨h, hh.rep.spells, ?_, (reload_faithful hh.rep.spells).1⟩
  simp [Command.Legal, Command.run, hl]

end Remon.Heap
