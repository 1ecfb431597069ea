import Remon.Heap.Queries

/-! # Every run of one allocator

A session is the allocator of one page together with the block pointers its clients hold. A
client may ask for a block of a legal size, give one of its blocks back, or store a byte into
the payload of one of its blocks.
-/

namespace Remon.Heap
open Lib List

structure Session where
  heap : State
  live : List ℕ

variable (L : Layout)

/-- The sizes that callers of `malloc` pass. -/
def LegalSize (a : ℕ) : Prop := 32 ≤ a ∧ a % 16 = 0 ∧ a ≤ L.payloadSize - 32

/-- One call or one store of a client. -/
inductive Session.Step : Session → Session → Prop
  | malloc {σ : Session} {a p : ℕ} {s' : State} (ha : LegalSize L a)
      (hm : malloc L σ.heap a = .ok (p, s')) :
      Step σ ⟨s', if p = 0 then σ.live else p :: σ.live⟩
  | free {σ : Session} {bp : ℕ} {s' : State} (hbp : bp ∈ σ.live)
      (hf : free L σ.heap bp = .ok s') : Step σ ⟨s', σ.live.erase bp⟩
  | write {σ : Session} {bp i : ℕ} (v : UInt8) (hbp : bp ∈ σ.live) (hi : bp ≤ i)
      (hi' : i + 16 < bp + getBlockSize σ.heap.mem bp) :
      Step σ ⟨{ σ.heap with mem := σ.heap.mem.set i v }, σ.live⟩

/-- The states of the runs that start with `heapInit` on arbitrary memory. -/
inductive Session.Reachable : Session → Prop
  | init {m : Mem} {s : State} (hs : heapInit L ⟨m, false, false⟩ = .ok s) : Reachable ⟨s, []⟩
  | step {σ σ' : Session} (hσ : Reachable σ) (hs : Session.Step L σ σ') : Reachable σ'

variable {L}

def LegalSize.request {a : ℕ} (ha : LegalSize L a) : Request L := ⟨a, ha.1, ha.2.1, ha.2.2⟩

/-- The heap is the image of `h` and the clients hold its blocks in use. -/
structure Session.Holds (σ : Session) (h : AbsHeap L) : Prop where
  rep : Rep σ.heap h
  nodup : σ.live.Nodup
  live : ∀ p, p ∈ σ.live ↔ ∃ n, h.Alloc p n

/-- A store into the payload of a block in use keeps the image. -/
theorem Spells.set {m : Mem} {h : AbsHeap L} {i : ℕ} (hi : Spells m h) (hu : h.InUse i)
    (v : UInt8) :
    Spells (m.set i v) h := by
  apply hi.congr
  intro a ha
  apply Mem.set_apply_of_ne
  rintro rfl
  rcases ha with ha | ha | ha
  · obtain ⟨q, n, hq, h1, h2⟩ := hu
    have hp := h.sized.placed hq
    unfold InFence at ha
    dsimp only at hp
    omega
  · exact hu.not_inTags ha
  · exact hu.not_inLinks ha

/-- The block that a successful allocation hands out. -/
theorem AbsHeap.take_block {h : AbsHeap L} {a : Request L} {p : ℕ} (hp : p ∈ h.freeList)
    (hle : a.size ≤ h.sizeAt p) :
    (h.take a p).Alloc p (h.takenSize a.size p) ∧
      (h.takenSize a.size p = a.size ∨ h.takenSize a.size p = a.size + 16) := by
  refine ⟨(AbsHeap.alloc_take hp hle).mpr (.inr ⟨rfl, rfl⟩), ?_⟩
  obtain ⟨b, hb, -⟩ := mem_freeStarts.mp ((h.mem_freeList p).mp hp)
  have hm := (h.sized.placed hb).2.2.2
  have ha := a.aligned
  rw [h.sizeAt_of_mem hb] at hle
  rw [AbsHeap.takenSize, h.sizeAt_of_mem hb]
  split <;> omega

theorem AbsHeap.Alloc.aligned {h : AbsHeap L} {p n : ℕ} (ha : h.Alloc p n) : p % 16 = 0 := by
  have hmod := place_mod (fun b hb => (h.sized.size b hb).2) ha
  have hstart := L.start_page
  rw [hmod, PageSpan.firstBlock]
  omega

theorem AbsHeap.Alloc.disjoint {h : AbsHeap L} {p q n k : ℕ} (hp : h.Alloc p n) (hq : h.Alloc q k)
    (hne : p ≠ q) : p + n ≤ q ∨ q + k ≤ p := by
  rcases place_disjoint hp hq with ⟨he, -⟩ | hd
  · exact absurd he hne
  · exact hd

theorem Rep.getBlockSize_eq {s : State} {h : AbsHeap L} {p n : ℕ} (hr : Rep s h)
    (hp : h.Alloc p n) : getBlockSize s.mem p = n :=
  (hr.spells.edges.read hp).1

namespace Session

variable {σ σ' : Session} {h : AbsHeap L}

/-- Every legal request returns; a block it hands out is a new one. -/
theorem Holds.malloc (hσ : σ.Holds h) (a : Request L) :
    ∃ p s', malloc L σ.heap a.size = .ok (p, s') ∧
      (⟨s', if p = 0 then σ.live else p :: σ.live⟩ : Session).Holds (h.malloc a).2 ∧
      (p ≠ 0 → p ∉ σ.live ∧ ∃ n, (h.malloc a).2.Alloc p n ∧ (n = a.size ∨ n = a.size + 16) ∧
        ∀ q k, h.Alloc q k → (h.malloc a).2.Alloc q k) := by
  obtain ⟨s', hm, hr, -⟩ := malloc_ok hσ.rep a
  refine ⟨_, s', hm, ?_⟩
  unfold AbsHeap.malloc at hr ⊢
  cases hff : h.firstFit a.size with
  | none =>
    rw [hff] at hr
    exact ⟨⟨hr, hσ.nodup, hσ.live⟩, fun hc => absurd rfl hc⟩
  | some p =>
    rw [hff] at hr
    obtain ⟨hp, hle⟩ := firstFit_some hff
    have hp0 : p ≠ 0 := hσ.rep.spells.ne_zero hp
    have hnew : p ∉ σ.live := by
      intro hc
      exact h.not_isLive_of_mem hp (h.isLive_iff.mpr ((hσ.live p).mp hc))
    obtain ⟨hal, hsz⟩ := AbsHeap.take_block hp hle
    dsimp only [Option.getD_some] at hr ⊢
    rw [if_neg hp0]
    refine ⟨⟨hr, nodup_cons.mpr ⟨hnew, hσ.nodup⟩, ?_⟩, fun _ => ⟨hnew, _, hal, hsz, ?_⟩⟩
    · intro q
      simp only [mem_cons, AbsHeap.alloc_take hp hle, hσ.live]
      constructor
      · rintro (rfl | ⟨n, hn⟩)
        · exact ⟨_, .inr ⟨rfl, rfl⟩⟩
        · exact ⟨n, .inl hn⟩
      · rintro ⟨n, hn | ⟨rfl, -⟩⟩
        · exact .inr ⟨n, hn⟩
        · exact .inl rfl
    · intro q k hq
      exact (AbsHeap.alloc_take hp hle).mpr (.inl hq)

theorem Holds.free (hσ : σ.Holds h) {bp : ℕ} (hbp : bp ∈ σ.live) :
    ∃ s', free L σ.heap bp = .ok s' ∧ (⟨s', σ.live.erase bp⟩ : Session).Holds (h.free bp) := by
  have hl : h.isLive bp = true := h.isLive_iff.mpr ((hσ.live bp).mp hbp)
  obtain ⟨s', hf, hr, -⟩ := free_ok hσ.rep hl
  refine ⟨s', hf, hr, hσ.nodup.erase bp, ?_⟩
  intro q
  simp only [hσ.nodup.mem_erase_iff, hσ.live, AbsHeap.alloc_free hl, exists_and_right]
  exact and_comm

theorem Holds.write (hσ : σ.Holds h) {bp i : ℕ} (v : UInt8) (hbp : bp ∈ σ.live) (hi : bp ≤ i)
    (hi' : i + 16 < bp + getBlockSize σ.heap.mem bp) :
    (⟨{ σ.heap with mem := σ.heap.mem.set i v }, σ.live⟩ : Session).Holds h := by
  obtain ⟨n, hn⟩ := (hσ.live bp).mp hbp
  rw [hσ.rep.getBlockSize_eq hn] at hi'
  exact ⟨⟨hσ.rep.inited, hσ.rep.unlocked, hσ.rep.spells.set ⟨bp, n, hn, hi, hi'⟩ v⟩,
    hσ.nodup, hσ.live⟩

theorem Step.holds (hσ : σ.Holds h) (hs : Step L σ σ') : ∃ h' : AbsHeap L, σ'.Holds h' := by
  cases hs with
  | malloc ha hm =>
    obtain ⟨p, s', hm', hh, -⟩ := hσ.malloc ha.request
    obtain ⟨rfl, rfl⟩ := Prod.mk.inj (Except.ok.inj (hm.symm.trans hm'))
    exact ⟨_, hh⟩
  | free hbp hf =>
    obtain ⟨s', hf', hh⟩ := hσ.free hbp
    obtain rfl := Except.ok.inj (hf.symm.trans hf')
    exact ⟨_, hh⟩
  | write v hbp hi hi' => exact ⟨h, hσ.write v hbp hi hi'⟩

/-- A new page stands for one free block. -/
theorem holds_init {m : Mem} {s : State} (hs : heapInit L ⟨m, false, false⟩ = .ok s) :
    (⟨s, []⟩ : Session).Holds (AbsHeap.fresh L) := by
  obtain ⟨s', hs', hin, hlo, hsp⟩ := heapInit_fresh (L := L) (s := ⟨m, false, false⟩) rfl
  obtain rfl := Except.ok.inj (hs.symm.trans hs')
  refine ⟨⟨hin, hlo, hsp⟩, nodup_nil, ?_⟩
  intro p
  simp [AbsHeap.not_alloc_fresh]

theorem Reachable.holds (hσ : Reachable L σ) : ∃ h : AbsHeap L, σ.Holds h := by
  induction hσ with
  | init hs => exact ⟨AbsHeap.fresh L, holds_init hs⟩
  | step _ hs ih =>
    obtain ⟨h, hh⟩ := ih
    exact hs.holds hh

/-- In every reachable state the page is tiled by legal blocks with equal header and
footer, the list from `freeHead` is well linked and names each free block once, the
blocks in use are the ones handed out and the self check is silent. From there every
legal request and every release of a held block returns, and a block that is handed
out overlaps no other and has the requested size or sixteen bytes more. -/
theorem heap_invariant (hσ : Reachable L σ) :
    (∃ h : AbsHeap L, Image L σ.heap.mem h.blocks h.freeList ∧
      ∀ p, p ∈ σ.live ↔ ∃ n, (p, ⟨n, false⟩) ∈ place L.firstBlock h.blocks) ∧
    debugPrint L σ.heap.mem = .ok [] ∧
    (∀ a, LegalSize L a → ∃ p s', Heap.malloc L σ.heap a = .ok (p, s') ∧
      (p ≠ 0 → p ∉ σ.live ∧
        (getBlockSize s'.mem p = a ∨ getBlockSize s'.mem p = a + 16) ∧
        ∀ q ∈ σ.live, p + getBlockSize s'.mem p ≤ q ∨ q + getBlockSize s'.mem q ≤ p)) ∧
    ∀ bp ∈ σ.live, ∃ s', Heap.free L σ.heap bp = .ok s' := by
  obtain ⟨h, hh⟩ := hσ.holds
  refine ⟨⟨h, hh.rep.spells, hh.live⟩, debugPrint_eq hh.rep.spells, ?_, ?_⟩
  · intro a ha
    obtain ⟨p, s', hm, hh', hnew⟩ := hh.malloc ha.request
    refine ⟨p, s', hm, ?_⟩
    intro hp
    obtain ⟨hnot, n, hn, hsz, hkeep⟩ := hnew hp
    rw [hh'.rep.getBlockSize_eq hn]
    refine ⟨hnot, hsz, ?_⟩
    intro q hq
    obtain ⟨k, hk⟩ := (hh.live q).mp hq
    rw [hh'.rep.getBlockSize_eq (hkeep q k hk)]
    apply hn.disjoint (hkeep q k hk)
    rintro rfl
    exact hnot hq
  · intro bp hbp
    obtain ⟨s', hf, -⟩ := hh.free hbp
    exact ⟨s', hf⟩

/-- A page of 4096 bytes at address 4096. -/
def sampleLayout : Layout where
  payloadStart := 4096
  payloadSize := 4096
  freeHeadAddr := 64
  size_pos := by decide
  size_page := by decide
  size_le := by decide
  start_pos := by decide
  start_page := by decide
  end_lt := by decide
  freeHead_pos := by decide
  freeHead_lt := by decide
  freeHead_outside := by decide

/-- The page after its initialisation. -/
def sampleStart : State :=
  ((heapInit sampleLayout ⟨⟨fun _ => 0⟩, false, false⟩).toOption.getD ⟨⟨fun _ => 0⟩, false, false⟩)

/-- The page after a request for 64 bytes. -/
def sampleHeap : State :=
  ((Heap.malloc sampleLayout sampleStart 64).toOption.getD (0, sampleStart)).2

theorem sampleStart_run :
    heapInit sampleLayout ⟨⟨fun _ => 0⟩, false, false⟩ = .ok sampleStart := by
  rfl

theorem sampleHeap_step : Step sampleLayout ⟨sampleStart, []⟩ ⟨sampleHeap, [4112]⟩ := by
  have hp : (Heap.malloc sampleLayout sampleStart 64).toOption.map Prod.fst = some 4112 := by
    decide +kernel
  obtain ⟨s, hs⟩ := Fault.exists_ok hp
  have hm : Heap.malloc sampleLayout sampleStart 64 = .ok (4112, sampleHeap) := by
    rw [sampleHeap, hs]
    rfl
  have ha : LegalSize sampleLayout 64 := ⟨by decide, by decide, by decide⟩
  have hstep : Step sampleLayout ⟨sampleStart, []⟩
      ⟨sampleHeap, if 4112 = 0 then [] else [4112]⟩ := .malloc ha hm
  exact hstep

theorem sample_reachable : Reachable sampleLayout ⟨sampleHeap, [4112]⟩ :=
  .step (.init sampleStart_run) sampleHeap_step

theorem heap_invariant_sample :
    Reachable sampleLayout ⟨sampleHeap, [4112]⟩ ∧ debugPrint sampleLayout sampleHeap.mem = .ok [] ∧
      ∃ s', Heap.free sampleLayout sampleHeap 4112 = .ok s' := by
  obtain ⟨-, hc, -, hf⟩ := heap_invariant sample_reachable
  exact ⟨sample_reachable, hc, hf 4112 (by simp)⟩

end Session

end Remon.Heap
