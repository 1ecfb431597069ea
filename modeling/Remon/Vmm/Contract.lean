import Remon.Vmm.PageReach

/-! # The allocation contract

What the callers of `remonMalloc` and `remonFree` may rely on, in every state that the commands
of all threads lead to. The size that a caller asked for is not kept by the program; it is
followed here from the call to the block.
-/

namespace Remon
open Function Lib Heap Fault List

namespace Session

variable {L : ℕ → Layout} {path : ℕ → String} {s s' : Session} {op : Op} {l i : ℕ}

theorem grant_cases (s : Session) (l ptr size : ℕ) :
    (s.grant l ptr size).wanting = s.wanting ∧ ((s.grant l ptr size).live = s.live ∨
      ∃ i, (s.grant l ptr size).live = ⟨i, ptr, size⟩ :: s.live) := by
  unfold grant
  split
  · exact ⟨rfl, .inl rfl⟩
  · exact ⟨rfl, .inr ⟨_, rfl⟩⟩

/-- What an operation does to the blocks that are held and to the threads that wait. -/
inductive Granted (s s' : Session) : Op → Prop
  | still {op : Op} (hlive : s'.live.Sublist s.live) (hwaits : s'.wanting = s.wanting) :
      Granted s s' op
  | waits {l size : ℕ} {c : Choice} (hlive : s'.live = s.live)
      (hwaits : s'.wanting = update s.wanting l (some size)) :
      Granted s s' (.allocate l size c)
  | allocated {l size i ptr : ℕ} {c : Choice} (hlive : s'.live = ⟨i, ptr, size⟩ :: s.live)
      (hwaits : s'.wanting = s.wanting) : Granted s s' (.allocate l size c)
  | unserved {l i : ℕ} (hlive : s'.live = s.live)
      (hwaits : s'.wanting = update s.wanting l none) :
        Granted s s' (.addPodAndAllocate l i)
  | added {l i j ptr size : ℕ} (hsize : s.wanting l = some size)
      (hlive : s'.live = ⟨j, ptr, size⟩ :: s.live)
      (hwaits : s'.wanting = update s.wanting l none) :
        Granted s s' (.addPodAndAllocate l i)

theorem granted_step (run : s.step L path op = .ok s') : s.Granted s' op := by
  cases op with
  | allocate l size c =>
    obtain ⟨⟨ptr, g⟩, -, hs'⟩ := of_bind_ok run
    obtain rfl := Except.ok.inj hs'
    split
    · exact .waits rfl rfl
    · obtain ⟨hw, hl | ⟨i, hl⟩⟩ := grant_cases { s with toPager := g } l ptr size
      · exact .still (by rw [hl]) hw
      · exact .allocated hl hw
  | addPodAndAllocate l i =>
    simp only [step] at run
    cases hw : s.wanting l with
    | none => simp [hw] at run
    | some size =>
      simp only [hw] at run
      obtain ⟨⟨ptr, g⟩, -, hs'⟩ := of_bind_ok run
      obtain rfl := Except.ok.inj hs'
      dsimp only
      split
      · exact .unserved rfl rfl
      · obtain ⟨hw', hl | ⟨j, hl⟩⟩ := grant_cases { s with
          toPager := g, wanting := update s.wanting l none } l ptr size
        · exact .unserved hl hw'
        · exact .added hw hl hw'
  | free i a =>
    obtain ⟨⟨full, g⟩, -, hs'⟩ := of_bind_ok run
    obtain rfl := Except.ok.inj hs'
    exact .still filter_sublist rfl
  | _ =>
    obtain ⟨g, -, hs'⟩ := of_bind_ok run
    obtain rfl := Except.ok.inj hs'
    exact .still (.refl _) rfl

end Session

namespace Manager

variable {c : Setup} {path : ℕ → String} {b : Prop} {m m' : Manager} {cmd : Cmd}
  {h : ∀ i, AbsHeap (c.L i)}

/-! ## What is not a small request -/

/-- What is not a small request leaves the threads that wait, and gives out no small block. -/
theorem still_step (run : m.step c path cmd = .ok m')
    (hask : ∀ l size ch, cmd ≠ .remonMalloc l size ch) (hget : ∀ l i, cmd ≠ .getBufferedPod l i) :
    m'.wanting = m.wanting ∧ ∀ x ∈ m'.live, x ∈ m.live := by
  have hmoves := (step_cases run).1
  cases hop : m.opOf c cmd with
  | none =>
    rw [hop] at hmoves
    have heq : m'.toSession = m.toSession := hmoves
    rw [heq]
    exact ⟨rfl, fun _ hx => hx⟩
  | some op =>
    rw [hop] at hmoves
    cases Session.granted_step hmoves with
    | still hlive hwaits => exact ⟨hwaits, fun _ hx => hlive.subset hx⟩
    | waits | allocated =>
      obtain ⟨n, hc⟩ := (opOf_request hop).1 _ _ _ rfl
      exact absurd hc (hask _ _ _)
    | unserved => exact absurd ((opOf_request hop).2 _ _ rfl) (hget _ _)
    | added => exact absurd ((opOf_request hop).2 _ _ rfl) (hget _ _)

/-! ## The sizes that were asked for -/

/-- Every block has room for the size that its caller asked for, and a thread that waits does so
with the rounded size of its request. -/
structure Asks (m : Manager) : Prop where
  served : ∀ x ∈ m.live, m.asked x.pod x.ptr + overhead ≤ x.size
  waits : ∀ l size, m.wanting l = some size → size = computeAsize (m.request l)

theorem noteAsked_sublist {t : Session} (ht : t.live.Sublist m.live) (size : ℕ) :
    m.noteAsked t size = m.asked := by
  funext i addr
  have hlen : t.live.length - m.live.length = 0 := Nat.sub_eq_zero_of_le ht.length_le
  simp [noteAsked, hlen]

theorem noteAsked_cons {t : Session} {y : Grant} (ht : t.live = y :: m.live) (size i addr : ℕ) :
    m.noteAsked t size i addr = if y.pod = i ∧ y.ptr = addr then size else m.asked i addr := by
  simp [noteAsked, ht]

/-- The new block has room for the request, and the others are not touched. -/
theorem served_cons {t : Session} {y : Grant} {size : ℕ} (hm : m.Asks)
    (ht : t.live = y :: m.live) (hnd : (t.live.map (fun x => (x.pod, x.ptr))).Nodup)
    (hy : size + overhead ≤ y.size) :
    ∀ x ∈ t.live, m.noteAsked t size x.pod x.ptr + overhead ≤ x.size := by
  intro x hx
  rw [noteAsked_cons ht]
  rw [ht] at hx hnd
  rcases mem_cons.mp hx with rfl | hx
  · rwa [if_pos ⟨rfl, rfl⟩]
  · rw [if_neg]
    · exact hm.served x hx
    · rintro ⟨h1, h2⟩
      refine (nodup_cons.mp hnd).1 (mem_map.mpr ⟨x, hx, ?_⟩)
      exact Prod.ext h1.symm h2.symm

theorem Asks.of_sublist (ha : m.Asks) (hlive : m'.live.Sublist m.live)
    (hwaits : m'.wanting = m.wanting) (hasked : m'.asked = m.asked)
    (hrequest : m'.request = m.request) : m'.Asks := by
  constructor
  · intro x hx
    rw [hasked]
    exact ha.served x (hlive.subset hx)
  · intro l size hw
    rw [hrequest]
    exact ha.waits l size (hwaits ▸ hw)

/-- Commands other than requests. -/
theorem Asks.moved (ha : m.Asks) (hmoves : m.Moves c path m'.toSession (m.opOf c cmd))
    (hcmd : ∀ l size ch, cmd ≠ .remonMalloc l size ch) (hcmd' : ∀ l i, cmd ≠ .getBufferedPod l i)
    (hasked : m'.asked = m.asked) (hrequest : m'.request = m.request) : m'.Asks := by
  cases hop : m.opOf c cmd with
  | none =>
    rw [hop] at hmoves
    have heq : m'.toSession = m.toSession := hmoves
    exact ha.of_sublist (by rw [heq]) (by rw [heq]) hasked hrequest
  | some op =>
    rw [hop] at hmoves
    have hallocate : ∀ l size ch, op ≠ .allocate l size ch := by
      rintro l size ch rfl
      obtain ⟨n, hc⟩ := (opOf_request hop).1 l size ch rfl
      exact hcmd l n ch hc
    have hadd : ∀ l i, op ≠ .addPodAndAllocate l i := by
      rintro l i rfl
      exact hcmd' l i ((opOf_request hop).2 l i rfl)
    cases Session.granted_step hmoves with
    | still hlive hwaits => exact ha.of_sublist hlive hwaits hasked hrequest
    | waits => exact absurd rfl (hallocate _ _ _)
    | allocated => exact absurd rfl (hallocate _ _ _)
    | unserved => exact absurd rfl (hadd _ _)
    | added => exact absurd rfl (hadd _ _)

theorem Asks.served_sublist {size : ℕ} (ha : m.Asks) (hlive : m'.live.Sublist m.live)
    (hasked : m'.asked = m.noteAsked m'.toSession size) :
    ∀ x ∈ m'.live, m'.asked x.pod x.ptr + overhead ≤ x.size := by
  intro x hx
  rw [hasked, noteAsked_sublist hlive]
  exact ha.served x (hlive.subset hx)

theorem Asks.remonMalloc {l size : ℕ} {ch : Choice} (ha : m.Asks)
    (hinv : m'.toSession.Inv c.L path b h) (hnone : m.wanting l = none)
    (hrun : m.toSession.step c.L path (.allocate l (computeAsize size) ch) = .ok m'.toSession)
    (hasked : m'.asked = m.noteAsked m'.toSession size)
    (hrequest : m'.request = update m.request l size) : m'.Asks := by
  have hother : ∀ k n, m.wanting k = some n → n = computeAsize (m'.request k) := by
    intro k n hw
    have hk : k ≠ l := by
      rintro rfl
      exact absurd (hnone.symm.trans hw) (by simp)
    rw [hrequest, update_of_ne hk]
    exact ha.waits k n hw
  cases Session.granted_step hrun with
  | still hlive hwaits =>
    exact ⟨ha.served_sublist hlive hasked, fun k n hw => hother k n (hwaits ▸ hw)⟩
  | waits hlive hwaits =>
    refine ⟨ha.served_sublist (by rw [hlive]) hasked, ?_⟩
    intro k n hw
    rw [hwaits] at hw
    by_cases hk : k = l
    · subst hk
      rw [update_self, Option.some.injEq] at hw
      rw [hrequest, update_self, hw]
    · rw [update_of_ne hk] at hw
      exact hother k n hw
  | allocated hlive hwaits =>
    refine ⟨?_, fun k n hw => hother k n (hwaits ▸ hw)⟩
    rw [hasked]
    exact served_cons ha hlive hinv.apart (le_computeAsize size)

theorem Asks.getBufferedPod {l i : ℕ} (ha : m.Asks) (hinv : m'.toSession.Inv c.L path b h)
    (hrun : m.toSession.step c.L path (.addPodAndAllocate l i) = .ok m'.toSession)
    (hasked : m'.asked = m.noteAsked m'.toSession (m.request l))
    (hrequest : m'.request = m.request) : m'.Asks := by
  -- the thread of `l` no longer waits, the others wait as before
  have hfewer : m'.wanting = update m.wanting l none →
      ∀ k n, m'.wanting k = some n → n = computeAsize (m'.request k) := by
    intro hwaits k n hw
    rw [hwaits] at hw
    have hk : k ≠ l := by
      rintro rfl
      rw [update_self] at hw
      cases hw
    rw [update_of_ne hk] at hw
    rw [hrequest]
    exact ha.waits k n hw
  cases Session.granted_step hrun with
  | still hlive hwaits =>
    refine ⟨ha.served_sublist hlive hasked, ?_⟩
    intro k n hw
    rw [hrequest]
    exact ha.waits k n (hwaits ▸ hw)
  | unserved hlive hwaits => exact ⟨ha.served_sublist (by rw [hlive]) hasked, hfewer hwaits⟩
  | added hsize hlive hwaits =>
    refine ⟨?_, hfewer hwaits⟩
    rw [hasked]
    refine served_cons ha hlive hinv.apart ?_
    rw [ha.waits l _ hsize]
    exact le_computeAsize _

theorem asks_step (hinv : m'.toSession.Inv c.L path b h) (hlegal : m.Legal c cmd)
    (run : m.step c path cmd = .ok m') (ha : m.Asks) : m'.Asks := by
  obtain ⟨hmoves, hnotes⟩ := step_cases run
  cases cmd with
  | remonMalloc l size ch => exact ha.remonMalloc hinv hlegal.2 hmoves hnotes.1 hnotes.2.1
  | getBufferedPod l i => exact ha.getBufferedPod hinv hmoves hnotes.1 hnotes.2.1
  | _ => exact ha.moved hmoves (by simp) (by simp) hnotes.1 hnotes.2.1

theorem Run.asks {ok : Manager → Cmd → Prop} (hinj : Injective path)
    (hm : Run c path ok m) : m.Asks := by
  induction hm with
  | start => exact ⟨fun x hx => absurd hx not_mem_nil, fun l size hw => nomatch hw⟩
  | @step m m' cmd hm hlegal hok run ih =>
    have hnext : Run c path ok m' := .step hm hlegal hok run
    obtain ⟨h, hinv⟩ := hnext.inv (b := True) hinj (fun _ cmd _ => sized_true cmd)
    exact asks_step hinv.session hlegal run ih

/-! ## Blocks and pages -/

variable (c) in
def Spans (a x : ℕ × ℕ) : Prop :=
  c.base + x.1 * c.pageSize ≤ a.1 ∧ a.1 + a.2 ≤ c.base + (x.1 + x.2) * c.pageSize

def Apart (a b : ℕ × ℕ) : Prop := a.1 + a.2 ≤ b.1 ∨ b.1 + b.2 ≤ a.1

instance (a b : ℕ × ℕ) : Decidable (Apart a b) := inferInstanceAs (Decidable (_ ∨ _))

theorem Apart.symm {a b : ℕ × ℕ} (h : Apart a b) : Apart b a := Or.symm h

theorem Apart.shrink {a : ℕ × ℕ} {p n k : ℕ} (h : Apart a (p, n)) (hk : k ≤ n) :
    Apart a (p, k) :=
  h.imp_right (Nat.add_le_add_left hk p).trans

theorem Apart.outside {a : ℕ × ℕ} {p n x : ℕ} (h : Apart a (p, n)) (h1 : a.1 ≤ x)
    (h2 : x < a.1 + a.2) : ¬ (p ≤ x ∧ x < p + n) := by
  rintro ⟨hp, hn⟩
  rcases h with h | h
  · exact absurd (h2.trans_le h) (Nat.not_lt.mpr hp)
  · exact absurd (hn.trans_le h) (Nat.not_lt.mpr h1)

theorem Spans.apart {a b x y : ℕ × ℕ} (ha : Spans c a x) (hb : Spans c b y) (h : Apart x y) :
    Apart a b := by
  rcases h with h | h
  · have hle := Nat.mul_le_mul_right c.pageSize h
    exact .inl (ha.2.trans ((Nat.add_le_add_left hle _).trans hb.1))
  · have hle := Nat.mul_le_mul_right c.pageSize h
    exact .inr (hb.2.trans ((Nat.add_le_add_left hle _).trans ha.1))

theorem apart_of_ne {d : Holdings} {x y : ℕ × ℕ} (hd : d.Inv c) (hx : x ∈ d.blocks)
    (hy : y ∈ d.blocks) (hne : x ≠ y) : Apart x y := by
  by_contra hc
  rw [Apart, not_or, not_le, not_le] at hc
  -- the later of the two first pages would be in both
  rcases Nat.le_total x.1 y.1 with hle | hle
  · exact hne (hd.apart hx hy ⟨hle, hc.1⟩ (hd.covers_self hy))
  · exact hne (hd.apart hx hy (hd.covers_self hx) ⟨hle, hc.2⟩)

theorem Spans.inside {d : Holdings} {a x : ℕ × ℕ} (hd : d.Inv c) (hx : x ∈ d.blocks)
    (ha : Spans c a x) : c.base ≤ a.1 ∧ a.1 + a.2 ≤ c.base + c.podsSize * c.pageSize := by
  have hpos := (hd.covers_self hx).2
  have hlast : x.1 + x.2 - 1 < c.podsSize := hd.lt_podsSize hx ⟨by omega, by omega⟩
  have hle : x.1 + x.2 ≤ c.podsSize := by omega
  have hmul := Nat.mul_le_mul_right c.pageSize hle
  exact ⟨(Nat.le_add_right _ _).trans ha.1, ha.2.trans (Nat.add_le_add_left hmul _)⟩

def smallBytes (x : Grant) : ℕ × ℕ := (x.ptr, x.size - overhead)

variable (c) in
def hugeBytes (z : HugeCall) : ℕ × ℕ := ((c.L z.head).payloadStart, z.pages * c.pageSize)

variable (c) in
/-- The bytes that callers own. -/
def allocations (m : Manager) : List (ℕ × ℕ) := m.live.map smallBytes ++ m.huge.map (hugeBytes c)

namespace Inv

variable (hm : m.Inv c path b h)
include hm

theorem page_of_live {x : Grant} (hx : x ∈ m.live) : (x.pod, 1) ∈ m.blocks := by
  obtain ⟨l, hl⟩ := hm.listed_of_live hx
  exact Holdings.page_mem (hm.homes.listed x.pod l hl)

theorem spans_alloc {i q n : ℕ} (hi : (i, 1) ∈ m.blocks) (hq : (h i).Alloc q n) :
    Spans c (q, n) (i, 1) := by
  have hlt := hm.holdings.lt_podsSize hi (hm.holdings.covers_self hi)
  obtain ⟨h1, h2, -, -⟩ := (h i).sized.placed hq
  rw [PageSpan.payloadEnd, c.start i hlt, c.size i] at h2
  rw [c.start i hlt] at h1
  dsimp only at h2
  refine ⟨?_, ?_⟩
  · dsimp only
    omega
  · dsimp only
    rw [Nat.add_mul, Nat.one_mul]
    omega

theorem block_of_live {x : Grant} (hx : x ∈ m.live) : ∃ n, x.size ≤ n ∧ (h x.pod).Alloc x.ptr n ∧
    x.ptr ∉ (m.pods x.pod).freeBuffer := by
  obtain ⟨n, ⟨hn, -⟩, ha, hfree⟩ := hm.session.held x hx
  exact ⟨n, hn, ha, hfree⟩

theorem spans_small {x : Grant} (hx : x ∈ m.live) : Spans c (smallBytes x) (x.pod, 1) := by
  obtain ⟨n, hn, ha, -⟩ := hm.block_of_live hx
  obtain ⟨h1, h2⟩ := hm.spans_alloc (hm.page_of_live hx) ha
  refine ⟨h1, le_trans ?_ h2⟩
  change x.ptr + (x.size - overhead) ≤ x.ptr + n
  omega

theorem spans_huge {z : HugeCall} (hz : z ∈ m.huge) : Spans c (hugeBytes c z) z.block := by
  have hblock := Holdings.block_mem (mem_append_left m.setting hz)
  have hlt := hm.holdings.lt_podsSize hblock (hm.holdings.covers_self hblock)
  have hstart : (hugeBytes c z).1 = c.base + z.head * c.pageSize := c.start z.head hlt
  refine ⟨hstart.ge, ?_⟩
  rw [hstart, Nat.add_assoc]
  exact (congrArg (c.base + ·) (Nat.add_mul _ _ _)).ge

theorem small_ne_huge {i : ℕ} {z : HugeCall} (hi : i ∈ m.small) (hz : z ∈ m.huge) :
    (i, 1) ≠ z.block := by
  intro hc
  refine hm.holdings.not_small_of_huge (mem_append_left _ hz) (i := i) ?_ hi
  rw [← hc]
  exact ⟨le_rfl, Nat.lt_succ_self i⟩

theorem small_apart {i q n : ℕ} {x : Grant} (hi : i ∈ m.small) (hq : (h i).Alloc q n)
    (hx : x ∈ m.live) (hne : x.pod = i → x.ptr ≠ q) : Apart (smallBytes x) (q, n) := by
  by_cases hpod : x.pod = i
  · subst hpod
    obtain ⟨k, hk, halloc, -⟩ := hm.block_of_live hx
    have hd := halloc.disjoint hq (hne rfl)
    unfold Apart smallBytes
    dsimp only
    omega
  · refine (hm.spans_small hx).apart (hm.spans_alloc (Holdings.page_mem hi) hq)
      (apart_of_ne hm.holdings (hm.page_of_live hx) (Holdings.page_mem hi) ?_)
    exact fun hc => hpod (congrArg Prod.fst hc)

theorem huge_apart {i q n : ℕ} {z : HugeCall} (hi : i ∈ m.small) (hq : (h i).Alloc q n)
    (hz : z ∈ m.huge) : Apart (hugeBytes c z) (q, n) := by
  refine (hm.spans_huge hz).apart (hm.spans_alloc (Holdings.page_mem hi) hq) (apart_of_ne
    hm.holdings (Holdings.block_mem (mem_append_left _ hz)) (Holdings.page_mem hi) ?_)
  exact (hm.small_ne_huge hi hz).symm

theorem allocations_apart : (m.allocations c).Pairwise Apart := by
  have hd := hm.holdings
  refine pairwise_append.mpr ⟨?_, ?_, ?_⟩
  · rw [pairwise_map]
    have hkeys := pairwise_map.mp hm.session.apart
    refine hkeys.imp_of_mem ?_
    intro x y hx hy hne
    by_cases hpod : x.pod = y.pod
    · obtain ⟨n, hn, ha, -⟩ := hm.block_of_live hx
      obtain ⟨k, hk, hb, -⟩ := hm.block_of_live hy
      rw [← hpod] at hb
      have hptr : x.ptr ≠ y.ptr := fun hc => hne (Prod.ext hpod hc)
      have hdis := ha.disjoint hb hptr
      unfold Apart smallBytes
      dsimp only
      omega
    · refine (hm.spans_small hx).apart (hm.spans_small hy)
        (apart_of_ne hd (hm.page_of_live hx) (hm.page_of_live hy) ?_)
      exact fun hc => hpod (congrArg Prod.fst hc)
  · rw [pairwise_map]
    have hnd := hd.nodup
    rw [Holdings.blocks, map_append, append_assoc] at hnd
    have hblocks := pairwise_map.mp (nodup_append'.mp hnd).1
    refine hblocks.imp_of_mem ?_
    intro x y hx hy hne
    exact (hm.spans_huge hx).apart (hm.spans_huge hy) (apart_of_ne hd
      (Holdings.block_mem (mem_append_left _ hx))
      (Holdings.block_mem (mem_append_left _ hy)) hne)
  · intro a ha b hb
    obtain ⟨x, hx, rfl⟩ := mem_map.mp ha
    obtain ⟨z, hz, rfl⟩ := mem_map.mp hb
    obtain ⟨l, hl⟩ := hm.listed_of_live hx
    exact (hm.spans_small hx).apart (hm.spans_huge hz) (apart_of_ne hd (hm.page_of_live hx)
      (Holdings.block_mem (mem_append_left _ hz))
      (hm.small_ne_huge (hm.homes.listed x.pod l hl) hz))

/-- Blocks begin at multiples of sixteen and are in the region. -/
theorem allocations_placed : ∀ a ∈ m.allocations c, a.1 % 16 = 0 ∧ c.base ≤ a.1 ∧
    a.1 + a.2 ≤ c.base + c.podsSize * c.pageSize := by
  intro a ha
  rcases mem_append.mp ha with ha | ha
  · obtain ⟨x, hx, rfl⟩ := mem_map.mp ha
    obtain ⟨n, -, halloc, -⟩ := hm.block_of_live hx
    exact ⟨halloc.aligned, (hm.spans_small hx).inside hm.holdings (hm.page_of_live hx)⟩
  · obtain ⟨z, hz, rfl⟩ := mem_map.mp ha
    refine ⟨?_, (hm.spans_huge hz).inside hm.holdings
      (Holdings.block_mem (mem_append_left _ hz))⟩
    have hpage := (c.L z.head).start_page
    change (c.L z.head).payloadStart % 16 = 0
    omega

theorem huge_room {z : HugeCall} (hz : z ∈ m.huge) : z.size ≤ z.pages * c.pageSize := by
  have hmarked := hm.holdings.calls z (mem_append_left _ hz)
  have hin := (hm.spans_huge hz).inside hm.holdings
    (Holdings.block_mem (mem_append_left _ hz))
  have hmapped := c.mapped
  have hlt : z.pages * c.pageSize < 2 ^ 52 := by
    have hle : (hugeBytes c z).1 + z.pages * c.pageSize ≤ 2 ^ 47 := hin.2.trans hmapped
    omega
  have hpage : c.pageSize ≤ 2 ^ 31 := by
    rw [← c.size 0]
    exact (c.L 0).size_le
  have hsize : 0 < z.size := by
    have hlarge := hmarked.large
    simp only [isSmall, Bool.not_eq_false', decide_eq_true_eq] at hlarge
    omega
  rw [hmarked.pages] at hlt ⊢
  exact Double.le_ceilDiv_mul hsize Setup.pageSize_pos (by omega) hlt

/-- The loop of `hugeMalloc` has made the pods of all pages of a block that it returned, so the
arena takes the block back. -/
theorem hugeFree_returns {z : HugeCall} (hz : z ∈ m.huge) :
    ∃ d, m.toHoldings.crossOwnershipHugeFree c z.head = .ok d := by
  have hcall : z ∈ m.huge ++ m.setting := mem_append_left _ hz
  have hblock := Holdings.block_mem hcall
  obtain ⟨a, hs⟩ := hm.holdings.arena hblock
  obtain ⟨-, hlive⟩ := hm.holdings.given _ hblock
  obtain ⟨t, ht, -⟩ := Arena.State.getPod_of_tag (hm.holdings.header hblock)
  have hmade : ∀ i, z.head ≤ i → i < z.head + z.pages → (m.arenaOf c z.head).arena.Made i := by
    intro i h1 h2
    obtain ⟨u, hu, -⟩ := (hm.holdings.calls z hcall).used i h1 (hm.holdings.done z hz ▸ h2)
    rw [Holdings.tagOf, Holdings.arenaOf, hm.holdings.same_arena hblock ⟨h1, h2⟩] at hu
    exact fun hc => absurd (hu.symm.trans hc) (by simp)
  obtain ⟨b, hb⟩ := hs.hugeFree_returns hlive hmade
  have ht : (m.arenaOf c z.head).arena.getPod z.head = .ok t := ht
  have hb : (m.arenaOf c z.head).arena.hugeFree (c.region (z.head / c.localPodCount)) z.head =
    .ok b := hb
  simp only [Holdings.crossOwnershipHugeFree, ht, hb, ok_bind, pure_eq]
  exact ⟨_, rfl⟩

theorem pending_alloc {i q : ℕ} (hq : q ∈ (m.pods i).freeBuffer) :
    i ∈ m.small ∧ ∃ n, (h i).Alloc q n := by
  have hlive := (hm.session.pager.pages i).buffer.2.2 q hq
  obtain ⟨-, l, hl⟩ := hm.session.pager.of_live hlive
  exact ⟨hm.homes.listed i l hl, (h i).isLive_iff.mp hlive⟩

theorem pending_apart {i q n : ℕ} (hq : q ∈ (m.pods i).freeBuffer) (hn : (h i).Alloc q n) :
    ∀ a ∈ m.allocations c, Apart a (q, n) := by
  have hi := (hm.pending_alloc hq).1
  intro a ha
  rcases mem_append.mp ha with ha | ha
  · obtain ⟨x, hx, rfl⟩ := mem_map.mp ha
    refine hm.small_apart hi hn hx ?_
    rintro rfl rfl
    obtain ⟨-, -, -, hfree⟩ := hm.block_of_live hx
    exact hfree hq
  · obtain ⟨z, hz, rfl⟩ := mem_map.mp ha
    exact hm.huge_apart hi hn hz

theorem step_free_small {x : Grant} (hx : x ∈ m.live) :
    m.step c path (.remonFree x.ptr) = m.call c path (.free x.pod x.ptr) := by
  obtain ⟨hpod, hne⟩ := hm.responsible hx
  rw [Manager.step, hpod, if_neg hne]

theorem step_free_huge {z : HugeCall} (hz : z ∈ m.huge) :
    ∃ d, m.toHoldings.crossOwnershipHugeFree c z.head = .ok d ∧
      m.step c path (.remonFree (hugeBytes c z).1) = .ok { m with toHoldings := d } := by
  obtain ⟨d, hd⟩ := hm.hugeFree_returns hz
  refine ⟨d, hd, ?_⟩
  have hhead := hm.responsible_head (mem_append_left m.setting hz)
  rw [hugeBytes, Manager.step, hhead, if_pos rfl, hd]
  rfl

theorem free_small_returns {x : Grant} (hinj : Injective path) (hx : x ∈ m.live) :
    Yields (fun e => Stuck b e ∨ e = .undefined ∧ ¬ m.Roomy x.pod)
      (m.call c path (.free x.pod x.ptr)) (fun m' => m'.freed = (x.pod, x.ptr) :: m.freed) := by
  have hcalls : m.toSession.Calls (.free x.pod x.ptr) := trivial
  have hlegal : m.toSession.Legal c.L (.free x.pod x.ptr) := ⟨x.size, hx⟩
  have hstep := hm.session.step hinj hlegal trivial (hcalls.orderly hm.made)
  have hreturns : Yields (fun e => Stuck b e ∨ e = .undefined ∧ ¬ m.Roomy x.pod)
      (m.call c path (.free x.pod x.ptr)) (fun _ => True) := hstep.bind fun t _ => trivial
  refine hreturns.of_run ?_
  intro m' run _
  obtain ⟨t, ht, hm'⟩ := of_bind_ok run
  obtain ⟨⟨full, g⟩, -, hfree⟩ := of_bind_ok ht
  rw [← Except.ok.inj hm', ← Except.ok.inj hfree]

end Inv

/-! ## The contract -/

variable (c path) in
structure Contract (m : Manager) : Prop where
  apart : (m.allocations c).Pairwise Apart
  placed : ∀ a ∈ m.allocations c, a.1 % 16 = 0 ∧ c.base ≤ a.1 ∧
    a.1 + a.2 ≤ c.base + c.podsSize * c.pageSize
  /-- a small block is large enough, does not begin its page, and its release goes to its list -/
  small : ∀ x ∈ m.live, m.asked x.pod x.ptr ≤ (smallBytes x).2 ∧
    c.getResponsiblePod (smallBytes x).1 = x.pod ∧ (c.L x.pod).payloadStart ≠ (smallBytes x).1 ∧
    (∃ l, m.Of l x.pod) ∧
    m.step c path (.remonFree (smallBytes x).1) = m.call c path (.free x.pod x.ptr) ∧
    Yields (fun e => e = .undefined ∧ ¬ m.Roomy x.pod) (m.call c path (.free x.pod x.ptr))
      (fun m' => m'.freed = (x.pod, x.ptr) :: m.freed)
  /-- a huge block is large enough, begins its first page, and its release goes to its arena -/
  huge : ∀ z ∈ m.huge, z.size ≤ (hugeBytes c z).2 ∧
    c.getResponsiblePod (hugeBytes c z).1 = z.head ∧
    (c.L z.head).payloadStart = (hugeBytes c z).1 ∧
    z.block ∈ (m.arenaOf c z.head).live ∧ (c.region (z.head / c.localPodCount)).first ≤ z.head ∧
    z.head + z.pages ≤ (c.region (z.head / c.localPodCount)).last + 1 ∧
    ∃ d, m.toHoldings.crossOwnershipHugeFree c z.head = .ok d ∧
      m.step c path (.remonFree (hugeBytes c z).1) = .ok { m with toHoldings := d }
  /-- a block whose free waits is still allocated in its page, and nobody owns a byte of it -/
  pending : ∃ h, m.Inv c path False h ∧ ∀ i, ∀ q ∈ (m.pods i).freeBuffer,
    ∃ n, (h i).Alloc q n ∧ ∀ a ∈ m.allocations c, Apart a (q, n)

/-- In every run with small requests that fit a page, callers get what the contract says. -/
theorem allocation_contract {swapDir : String}
    (hm : Run c (swapFile swapDir) (fun _ cmd => Sized c False cmd) m) :
    m.Contract c (swapFile swapDir) := by
  have hinj := swapFile_injective swapDir
  obtain ⟨h, hinv⟩ := hm.inv (b := False) hinj (fun _ _ hs => hs)
  have hasks := hm.asks hinj
  refine ⟨hinv.allocations_apart, hinv.allocations_placed, ?_, ?_, h, hinv, ?_⟩
  · intro x hx
    obtain ⟨hpod, hne⟩ := hinv.responsible hx
    have hreturns := hinv.free_small_returns hinj hx
    refine ⟨Nat.le_sub_of_add_le (hasks.served x hx), hpod, hne, hinv.listed_of_live hx,
      hinv.step_free_small hx, hreturns.weaken ?_⟩
    rintro e (⟨-, hb⟩ | he)
    · exact hb.elim
    · exact he
  · intro z hz
    have hcall : z ∈ m.huge ++ m.setting := mem_append_left _ hz
    have hblock := Holdings.block_mem hcall
    obtain ⟨a, hs⟩ := hinv.holdings.arena hblock
    have hlive := (hinv.holdings.given _ hblock).2
    obtain ⟨h1, h2, -⟩ := hs.bounds hlive
    exact ⟨hinv.huge_room hz, hinv.responsible_head hcall, rfl, hlive, h1, h2,
      hinv.step_free_huge hz⟩
  · intro i q hq
    obtain ⟨-, n, hn⟩ := hinv.pending_alloc hq
    exact ⟨n, hn, hinv.pending_apart hq hn⟩

/-- Page 0 is away and one of its blocks was freed. -/
def sampleFreed : Manager := sampleHeld.after sampleFill (swapFile "swap") (.remonFree 4112)

def samplePrepared : Manager :=
  ((sampleFreed.after sampleFill (swapFile "swap") (.hugeMalloc 0 8192)).after
    sampleFill (swapFile "swap") (.hugePage 2 Session.sampleFetch)).after
    sampleFill (swapFile "swap") (.hugePage 2 Session.sampleFetch)

def sampleMixed : Manager :=
  samplePrepared.after sampleFill (swapFile "swap") (.hugeReturn 2)

theorem sampleMixed_run :
    Run sampleFill (swapFile "swap") (fun _ cmd => Sized sampleFill False cmd) sampleMixed := by
  have h0 : Run sampleFill (swapFile "swap") (fun _ cmd => Sized sampleFill False cmd) sampleHeld :=
    sampleHeld_run.mono fun _ _ hok => hok.2
  have h1 := h0.after (.remonFree 4112) (.inl ⟨⟨0, 4112, 2016⟩, by decide +kernel, rfl⟩) trivial
    (by decide +kernel)
  have h2 := h1.after (.hugeMalloc 0 8192)
    ⟨by decide +kernel, by decide +kernel, by decide +kernel⟩ trivial (by decide +kernel)
  have h3 := h2.after (.hugePage 2 Session.sampleFetch)
    (legal_hugePage (x := ⟨2, 2, 8192, 2⟩) (n := 2) (by decide +kernel) (by decide +kernel)
      (by decide +kernel) (by decide)) trivial (by decide +kernel)
  have h4 := h3.after (.hugePage 2 Session.sampleFetch)
    (legal_hugePage (x := ⟨2, 2, 8192, 3⟩) (n := 2) (by decide +kernel) (by decide +kernel)
      (by decide +kernel) (by decide)) trivial (by decide +kernel)
  exact h4.after (.hugeReturn 2) (legal_hugeReturn (x := ⟨2, 2, 8192, 4⟩) (n := 2)
    (by decide +kernel) (by decide +kernel) (by decide)) trivial (by decide +kernel)

/-- Two small blocks, a huge block and a free that waits. -/
theorem allocation_contract_sample :
    Run sampleFill (swapFile "swap") (fun _ cmd => Sized sampleFill False cmd) sampleMixed ∧
    sampleMixed.allocations sampleFill = [(8208, 2000), (6128, 2000), (12288, 8192)] ∧
    (sampleMixed.pods 0).freeBuffer = [4112] ∧
    sampleMixed.Contract sampleFill (swapFile "swap") :=
  ⟨sampleMixed_run, by decide +kernel, by decide +kernel, allocation_contract sampleMixed_run⟩

end Manager

end Remon
