import Remon.Arena.SizeLists

/-! # The page-run allocator refines the abstract arena

When the tags and lists of an arena are those of an abstract arena, each operation returns and
leaves those of the abstract successor. Besides the tags and links of free blocks only the pages
of the released block change.
-/

namespace Remon.Arena
open Function Lib Fault List

variable {R : Region} {a : State} {L : ℕ → List ℕ}

def Tagged (R : Region) (a : State) (bs : List Block) : Prop :=
  ∀ p b, (p, b) ∈ place R.first bs →
    a.tag p = some (b.size, b.free) ∧ a.tag (p + b.size - 1) = some (b.size, b.free)

theorem Tagged.congr {b : State} {bs : List Block} (h : Tagged R a bs)
    (ht : ∀ i, a.Made i → b.tag i = a.tag i) : Tagged R b bs := by
  intro p c hc
  obtain ⟨h1, h2⟩ := h p c hc
  exact ⟨(ht p (State.made_of_tag h1)).trans h1, (ht _ (State.made_of_tag h2)).trans h2⟩

/-- The arena `a` is the one that `h` describes. -/
structure Shows (a : State) (h : AbsArena R) : Prop where
  tagged : Tagged R a h.blocks
  lists : Lists a h.lists

theorem AbsArena.freePage_of_mem {h : AbsArena R} {s i : ℕ} (hi : i ∈ h.lists s) :
    h.FreePage i := by
  have hb := (h.mem_lists s i).mp hi
  have hs := (h.bounds hb).2.2
  exact ⟨i, s, hb, le_rfl, Nat.lt_add_of_pos_right hs⟩

namespace State

theorem setFooter_ok {p n : ℕ} {f : Bool} (h : a.tag p = some (n, f)) (hn : 0 < n) :
    ∃ b, a.setFooter p n f = .ok b ∧
      b.tag = update a.tag (p + n - 1) (some (n, f)) ∧ b.next = a.next ∧
      b.prev = a.prev ∧ b.hugePodMap = a.hugePodMap ∧ Within {p + n - 1} a b := by
  unfold setFooter
  by_cases h1 : n > 1
  · rw [if_pos h1]
    exact setTag_mapForPodI a (p + n - 1) n f
  · have hp : p + n - 1 = p := by omega
    rw [if_neg h1, hp]
    exact ⟨a, rfl, (update_eq_self_iff.mpr h.symm).symm, rfl, rfl, rfl, Within.refl _ _⟩

/-! ## Allocation -/

theorem unlinkBlock_head {p m : ℕ} {l : List ℕ} (h : Lists a L) (hL : L m = p :: l) :
    ∃ b, a.unlinkBlock p p = .ok (l.head?, b) ∧ b.tag = a.tag ∧ b.next = a.next ∧
      (∀ i, b.prev i = if l.head? = some i then none else a.prev i) ∧
      b.hugePodMap = a.hugePodMap ∧ Within {i | i ∈ L m} a b := by
  have hch := h.chain m
  have hf : a.prev p = none ∧ a.next p = l.head? := by
    rw [hL, ← nil_append (p :: l)] at hch
    exact hch.fields
  obtain ⟨t, -, hg, -, htn, htp⟩ := (h.made m p (by simp [hL])).getPod
  rw [hf.1] at htp
  rw [hf.2] at htn
  have hmem : ∀ z, l.head? = some z → z ∈ L m := fun z hz => by
    rw [hL]
    exact mem_cons_of_mem _ (mem_of_head? hz)
  obtain ⟨b, hb, hbt, hbn, hbp, hbm, hbw⟩ :=
    setPrevOf_ok (fun z hz => h.made m z (hmem z hz)) none
  obtain ⟨c, hc, hct, hcn, hcp, hcm, hcw⟩ :=
    setPrevOf_ok (a := b) (fun z hz => hbw.made z (h.made m z (hmem z hz))) none
  refine ⟨c, ?_, by rw [hct, hbt], by rw [hcn, hbn], ?_, by rw [hcm, hbm],
    (hbw.mono hmem).trans (hcw.mono hmem)⟩
  · simp only [unlinkBlock, hg, ok_bind, if_true, ← htn, ← htp, hb, setNextOf, hc]
    rfl
  · intro i
    rw [hcp, hbp]
    split <;> rfl

theorem addResidual_ok {p n : ℕ} (h : Lists a L) (hp : ∀ s, p ∉ L s) (hn : 0 < n) :
    ∃ b, a.addResidual p n = .ok b ∧ Lists b (pushFront L n p) ∧
      b.tag p = some (n, true) ∧ b.tag (p + n - 1) = some (n, true) ∧
      (∀ i, i < p ∨ p + n ≤ i → b.tag i = a.tag i) ∧
      Within {i | p ≤ i ∧ i < p + n ∨ i ∈ L n} a b := by
  obtain ⟨b, hb, hbt, hbn, hbp, hbm, hbw⟩ := setTag_mapForPodI a p n true
  have hbtp : b.tag p = some (n, true) := by rw [hbt, update_self]
  obtain ⟨c, hc, hct, hcn, hcp, hcm, hcw⟩ := setFooter_ok hbtp hn
  have hlc : Lists c L := h.congr (by rw [hcm, hbm]) (by rw [hcn, hbn]) (by rw [hcp, hbp])
    (fun i hi => hcw.made i (hbw.made i hi))
  have hctp : c.tag p = some (n, true) := by
    rw [hct, update_apply]
    split
    · rfl
    · exact hbtp
  obtain ⟨d, hd, hdl, hdt, hdw⟩ := hugePodMapAddEntry_ok hlc hp hctp hn
  refine ⟨d, ?_, hdl, ?_, ?_, ?_, ?_⟩
  · simp only [addResidual, hb, ok_bind, hc, hd]
  · rw [hdt, update_apply]
    split
    · rfl
    · exact hctp
  · rw [hdt, update_self]
  · intro i hi
    rw [hdt, update_of_ne (by omega), hct, update_of_ne (by omega), hbt,
      update_of_ne (by omega)]
  · refine ((hbw.mono ?_).trans (hcw.mono ?_)).trans (hdw.mono ?_)
    · rintro i rfl
      exact .inl ⟨le_rfl, by omega⟩
    · rintro i rfl
      exact .inl ⟨by omega, by omega⟩
    · rintro i (rfl | rfl | hi)
      · exact .inl ⟨le_rfl, by omega⟩
      · exact .inl ⟨by omega, by omega⟩
      · exact .inr hi

/-- Cutting `n` pages off the first block of the list of length `m`. -/
theorem takeBlock_ok {p m n : ℕ} {l : List ℕ} (h : Lists a L) (hL : L m = p :: l)
    (ht : a.tag p = some (m, true)) (hn : 0 < n) (hle : n ≤ m)
    (hres : n < m → ∀ s, p + n ∉ L s) :
    ∃ b, a.takeBlock m p p n = .ok b ∧ Lists b (AbsArena.listsAfter L p m n) ∧
      b.tag p = some (n, false) ∧ b.tag (p + n - 1) = some (n, false) ∧
      (n < m → b.tag (p + n) = some (m - n, true) ∧ b.tag (p + m - 1) = some (m - n, true)) ∧
      (∀ i, i < p ∨ p + m ≤ i → b.tag i = a.tag i) ∧
      Within {i | p ≤ i ∧ i < p + m ∨ ∃ s, i ∈ L s} a b := by
  obtain ⟨b, hb, hbt, hbn, hbp, hbm, hbw⟩ := unlinkBlock_head h hL
  obtain ⟨t, hg, hts, -, -, -⟩ := getPod_of_tag (hbt ▸ ht)
  have hmade : b.Made p := made_of_tag (hbt ▸ ht)
  have hctp : (b.withTag p n false).tag p = some (n, false) := by
    rw [tag_withTag false hmade, update_self]
  obtain ⟨d, hd, hdt, hdn, hdp, hdm, hdw⟩ := setFooter_ok hctp hn
  let e := d.setMap (l.head?.elim (d.hugePodMap.erase m) (d.hugePodMap.insert m))
  have hem : e.hugePodMap.get = update a.hugePodMap.get m l.head? := by
    rw [← hbm]
    cases l with
    | nil => exact congrArg (update · m none) (congrArg OrdMap.get hdm)
    | cons z l => exact congrArg (update · m (some z)) (congrArg OrdMap.get hdm)
  have hmd : ∀ i, a.Made i → e.Made i := by
    intro i hi
    exact hdw.made i ((made_withTag false).mpr (hbw.made i hi))
  have hle' : Lists e (without L [p]) := by
    apply h.remove (hL.trans (nil_append _).symm)
    · change e.hugePodMap.get m = l.head?
      rw [hem, update_self]
    · intro z hz
      change d.prev z = none
      rw [hdp, prev_withTag, hbp, if_pos hz]
    · intro s hs
      rw [hem, update_of_ne (hs.resolve_right (by simp))]
    · intro i _ _
      change d.next i = a.next i
      rw [hdn, next_withTag, hbn]
    · intro i _ hi
      change d.prev i = a.prev i
      rw [hdp, prev_withTag, hbp, if_neg hi]
    · exact hmd
  have hdw' : Within {i | p ≤ i ∧ i < p + m ∨ ∃ s, i ∈ L s} a e := by
    refine (((hbw.mono ?_).trans (Within.adjust (.inl ⟨le_rfl, by omega⟩) _)).trans
      (hdw.mono ?_)).trans (Within.setMap _ _)
    · exact fun i hi => .inr ⟨m, hi⟩
    · rintro i rfl
      exact .inl ⟨by omega, by omega⟩
  have het : ∀ i, e.tag i = if i = p + n - 1 ∨ i = p then some (n, false) else a.tag i := by
    intro i
    change d.tag i = _
    rw [hdt, tag_withTag false hmade, hbt, update_apply, update_apply]
    split_ifs <;> simp_all
  have hrun : a.takeBlock m p p n =
      if m - n > 0 then e.addResidual (p + n) (m - n) else .ok e := by
    simp only [takeBlock, hb, ok_bind, hg, hts, setTag_eq hmade, hd]
    cases l with
    | nil => rfl
    | cons z l => rfl
  by_cases hlt : n < m
  · obtain ⟨c, hc, hcl, hcp, hcf, hco, hcw⟩ :=
      addResidual_ok hle' (fun s hs => hres hlt s (mem_without.mp hs).1) (Nat.sub_pos_of_lt hlt)
    have hend : p + n + (m - n) - 1 = p + m - 1 := by omega
    refine ⟨c, ?_, ?_, ?_, ?_, ?_, ?_, hdw'.trans (hcw.mono ?_)⟩
    · rw [hrun, if_pos (Nat.sub_pos_of_lt hlt), hc]
    · rw [AbsArena.listsAfter, if_pos hlt]
      exact hcl
    · rw [hco p (by omega), het, if_pos (.inr rfl)]
    · rw [hco _ (by omega), het, if_pos (.inl rfl)]
    · exact fun _ => ⟨hcp, hend ▸ hcf⟩
    · intro i hi
      rw [hco i (by omega), het, if_neg (by omega)]
    · rintro i (hi | hi)
      · exact .inl ⟨by omega, by omega⟩
      · exact .inr ⟨_, (mem_without.mp hi).1⟩
  · refine ⟨e, ?_, ?_, ?_, ?_, ?_, ?_, hdw'⟩
    · rw [hrun, if_neg (by omega)]
    · rw [AbsArena.listsAfter, if_neg hlt]
      exact hle'
    · rw [het, if_pos (.inr rfl)]
    · rw [het, if_pos (.inl rfl)]
    · exact fun hc => absurd hc hlt
    · intro i hi
      rw [het, if_neg (by omega)]

end State

variable {h : AbsArena R}

theorem Shows.map_get (hs : Shows a h) (s : ℕ) : a.hugePodMap.get s = (h.lists s).head? :=
  (hs.lists.chain s).head

/-- The map finds the smallest length of a free block that suffices. -/
theorem Shows.lowerBound (hs : Shows a h) {n q k : ℕ} (hq : (q, ⟨k, true⟩) ∈ place R.first h.blocks)
    (hk : n ≤ k) : ∃ m p l, a.hugePodMap.lowerBound n = some m ∧ h.lists m = p :: l ∧ n ≤ m ∧
      ∀ r j, (r, ⟨j, true⟩) ∈ place R.first h.blocks → n ≤ j → m ≤ j := by
  have hne : ∀ r j, (r, (⟨j, true⟩ : Block)) ∈ place R.first h.blocks →
      a.hugePodMap.get j ≠ none := by
    intro r j hr
    rw [hs.map_get]
    intro he
    have := (h.mem_lists j r).mpr hr
    rw [List.head?_eq_none_iff.mp he] at this
    simp at this
  cases hm : a.hugePodMap.lowerBound n with
  | none => exact absurd (a.hugePodMap.lowerBound_eq_none.mp hm k hk) (hne q k hq)
  | some m =>
    obtain ⟨hle, hget, hmin⟩ := a.hugePodMap.lowerBound_eq_some.mp hm
    obtain ⟨p, hp⟩ := Option.ne_none_iff_exists'.mp hget
    rw [hs.map_get] at hp
    obtain ⟨l, hl⟩ := List.head?_eq_some_iff.mp hp
    refine ⟨m, p, l, rfl, hl, hle, ?_⟩
    intro r j hr hj
    by_contra hlt
    exact hne r j hr (hmin j hj (by omega))

/-- Some free run has at least `n` pages. -/
def AbsArena.CanServe (h : AbsArena R) (n : ℕ) : Prop :=
  ∃ q k, (q, ⟨k, true⟩) ∈ place R.first h.blocks ∧ n ≤ k

/-- Without a free run of `n` pages the entry past the end of the map is read. -/
theorem allocateNPages_exhausted {n : ℕ} (hs : Shows a h) (hn : 0 < n) (hno : ¬ h.CanServe n) :
    a.allocateNPages R n = .error .undefined := by
  cases hm : a.hugePodMap.lowerBound n with
  | none => simp only [State.allocateNPages, hn.ne', if_false, hm, throw_eq]
  | some m =>
    obtain ⟨hle, hget, -⟩ := a.hugePodMap.lowerBound_eq_some.mp hm
    obtain ⟨q, hq⟩ := Option.ne_none_iff_exists'.mp hget
    rw [hs.map_get] at hq
    exact absurd ⟨q, m, (h.mem_lists m q).mp (mem_of_head? hq), hle⟩ hno

def State.nextRun (a : State) (n : ℕ) : Option ℕ :=
  (a.hugePodMap.lowerBound n).bind a.hugePodMap.get

/-- An allocation that some free block can serve returns the first block of the smallest
length that suffices, cut to `n` pages. -/
theorem allocateNPages_ok (hs : Shows a h) {n q k : ℕ} (hn : 0 < n)
    (hq : (q, ⟨k, true⟩) ∈ place R.first h.blocks) (hk : n ≤ k) :
    ∃ p m b, a.allocateNPages R n = .ok (some p, b) ∧ p ∈ h.lists m ∧ n ≤ m ∧
      (∀ r j, (r, ⟨j, true⟩) ∈ place R.first h.blocks → n ≤ j → m ≤ j) ∧
      Shows b (h.take p m n) ∧ State.Within {i | h.FreePage i} a b ∧ a.nextRun n = some p := by
  obtain ⟨m, p, l, hlb, hL, hle, hmin⟩ := hs.lowerBound hq hk
  have hp : p ∈ h.lists m := by simp [hL]
  have hb := (h.mem_lists m p).mp hp
  have ht := (hs.tagged p _ hb).1
  obtain ⟨t, hg, hts, -, -, -⟩ := State.getPod_of_tag ht
  have hres : n < m → ∀ s, p + n ∉ h.lists s := by
    intro hlt s hm
    have h1 := (h.mem_lists s _).mp hm
    have h2 := (h.bounds h1).2.2
    rcases place_disjoint h1 hb with ⟨h3, -⟩ | h3 | h3 <;> dsimp only at h2 h3 <;> omega
  obtain ⟨b, hrun, hbl, hbp, hbf, hbr, hbo, hbw⟩ := State.takeBlock_ok hs.lists hL ht hn hle hres
  obtain ⟨-, htl⟩ := AbsArena.take_eq hp hn hle
  have hget : a.hugePodMap.get m = some p := by rw [hs.map_get, hL]; rfl
  refine ⟨p, m, b, ?_, hp, hle, hmin, ⟨?_, htl ▸ hbl⟩, hbw.mono ?_, ?_⟩
  · have hge : t.globalSize ≥ n := hts ▸ hle
    simp only [State.allocateNPages, hn.ne', if_false, hlb, hget, State.findBlock, hg,
      ok_bind, hge, if_true, pure_eq, hrun]
  · intro q c hqc
    rcases (AbsArena.mem_take hp hn hle).mp hqc with ⟨hq, hne⟩ | ⟨rfl, rfl⟩ | ⟨hlt, rfl, rfl⟩
    · -- a block elsewhere has both of its tagged pages outside the one that was cut
      have h2 := (h.bounds hq).2.2
      have hout : q + c.size ≤ p ∨ p + m ≤ q := by
        rcases place_disjoint hq hb with ⟨h3, -⟩ | h3 | h3
        · exact absurd h3 hne
        · exact .inl h3
        · exact .inr h3
      rw [hbo q (by omega), hbo _ (by omega)]
      exact hs.tagged q c hq
    · exact ⟨hbp, hbf⟩
    · have hend : p + n + (m - n) - 1 = p + m - 1 := by omega
      exact ⟨(hbr hlt).1, by rw [hend]; exact (hbr hlt).2⟩
  · rintro i (hi | ⟨s, hi⟩)
    · exact ⟨p, m, hb, hi⟩
    · exact AbsArena.freePage_of_mem hi
  · rw [State.nextRun, hlb]
    exact hget

theorem allocateNPages_iff (hs : Shows a h) {n p : ℕ} (hn : 0 < n) :
    (∃ b, a.allocateNPages R n = .ok (some p, b)) ↔ a.nextRun n = some p := by
  by_cases hserve : h.CanServe n
  · obtain ⟨q, k, hq, hk⟩ := hserve
    obtain ⟨p', m, b, hrun, -, -, -, -, -, hnext⟩ := allocateNPages_ok hs hn hq hk
    rw [hrun, hnext]
    simp [eq_comm]
  · rw [allocateNPages_exhausted hs hn hserve]
    constructor
    · rintro ⟨b, hc⟩
      cases hc
    · intro hp
      obtain ⟨m, hlb, hget⟩ := Option.bind_eq_some_iff.mp hp
      rw [hs.map_get] at hget
      exact absurd ⟨p, m, (h.mem_lists m p).mp (mem_of_head? hget),
        (a.hugePodMap.lowerBound_eq_some.mp hlb).1⟩ hserve

/-! ## Release -/

namespace State

/-- The walk to the right takes exactly the run of free blocks out of their lists. -/
theorem collectRight_ok {bs : List Block} {f : Bool} {c n q fuel : ℕ} (freed : ℕ) (h : Lists a L)
    (hc : a.tag c = some (n, f)) (hn : 0 < n) (hq : q = c + n)
    (htags : ∀ x d, (x, d) ∈ place q bs → a.tag x = some (d.size, d.free))
    (hmem : ∀ x k, (x, ⟨k, true⟩) ∈ place q bs → x ∈ L k) (hpos : ∀ d ∈ bs, 0 < d.size)
    (hend : q + total bs = R.last + 1) (hfuel : bs.length < fuel) :
    ∃ b, collectRight R fuel a c freed = .ok (freed + total (bs.takeWhile Block.free), b) ∧
      Lists b (without L ((place q (bs.takeWhile Block.free)).map Prod.fst)) ∧ b.tag = a.tag ∧
      Within {i | ∃ s, i ∈ L s} a b := by
  induction bs generalizing a L f c n q fuel freed with
  | nil =>
    obtain ⟨t, hg, hts, -, -, -⟩ := getPod_of_tag hc
    obtain ⟨fuel, rfl⟩ := Nat.exists_eq_succ_of_ne_zero (Nat.ne_of_gt hfuel)
    have hgt : c + n > R.last := by
      rw [← hq]
      simpa using Nat.lt_of_lt_of_le (Nat.lt_succ_self _) hend.ge
    refine ⟨a, ?_, ?_, rfl, Within.refl _ _⟩
    · simp [collectRight, hg, hts, hgt]
    · simpa [place, without_nil] using h
  | cons d bs ih =>
    obtain ⟨t, hg, hts, -, -, -⟩ := getPod_of_tag hc
    obtain ⟨fuel, rfl⟩ := Nat.exists_eq_succ_of_ne_zero (Nat.ne_zero_of_lt hfuel)
    have hd := hpos d (by simp)
    rw [total_cons] at hend
    have hle : ¬ q > R.last := by omega
    have hlt : ¬ q ≥ R.podsSize := by
      have := R.lt
      omega
    have htq : a.tag q = some (d.size, d.free) := htags q d (by simp)
    obtain ⟨u, hpods, -, hut, -, -⟩ := (made_of_tag htq).getPod
    rw [htq, Option.some.injEq, Prod.mk.injEq] at hut
    by_cases hf : d.free = true
    · have hqL : q ∈ L d.size := hmem q d.size (by simp [← hf])
      obtain ⟨b, hb, hbl, hbt, hbw⟩ := hugePodMapRemoveEntry_ok h hqL htq
      have hbt' : ∀ x e, (x, e) ∈ place (q + d.size) bs → b.tag x = some (e.size, e.free) := by
        intro x e hx
        rw [hbt]
        exact htags x e (by simp [hx])
      have hmem' : ∀ x k, (x, ⟨k, true⟩) ∈ place (q + d.size) bs → x ∈ without L [q] k := by
        intro x k hx
        have hx' := (place_bounds hx).1
        exact mem_without.mpr ⟨hmem x k (by simp [hx]), by simp; omega⟩
      obtain ⟨e, he, hel, het, hew⟩ := ih (freed + d.size) hbl (hbt ▸ htq) hd rfl hbt'
        hmem' (fun x hx => hpos x (by simp [hx])) (by omega) (by simpa using hfuel)
      refine ⟨e, ?_, ?_, by rw [het, hbt], ?_⟩
      · simp only [collectRight, hg, ok_bind, hts, ← hq, hle, if_false, hn.ne', hlt, hpods,
          ← hut.2, hf, if_true, hb, ← hut.1, he, takeWhile_cons, total_cons, Nat.add_assoc]
      · rw [takeWhile_cons, if_pos hf, place, map_cons, without_cons]
        exact hel
      · refine (hbw.mono ?_).trans (hew.mono ?_)
        · exact fun i hi => ⟨_, hi⟩
        · rintro i ⟨s, hi⟩
          exact ⟨s, (mem_without.mp hi).1⟩
    · refine ⟨a, ?_, ?_, rfl, Within.refl _ _⟩
      · simp [collectRight, hg, hts, ← hq, hle, hn.ne', hlt, hpods, ← hut.2, hf]
      · rw [takeWhile_cons, if_neg hf]
        simpa [place, without_nil] using h

/-- Marking pages changes no link and, outside them, no tag. -/
theorem markFree_range {p n : ℕ} (hmade : ∀ i, p ≤ i → i < p + n → a.Made i) :
    ∃ b, (List.range' p n).foldlM markFree a = .ok b ∧ b.next = a.next ∧ b.prev = a.prev ∧
      b.hugePodMap = a.hugePodMap ∧ (∀ i, i < p ∨ p + n ≤ i → b.tag i = a.tag i) ∧
      (∀ i k f, p ≤ i → i < p + n → a.tag i = some (k, f) → b.tag i = some (k, true)) ∧
      Within {i | p ≤ i ∧ i < p + n} a b := by
  induction n generalizing a p with
  | zero =>
    exact ⟨a, rfl, rfl, rfl, rfl, fun _ _ => rfl, fun _ _ _ _ _ _ => by omega, Within.refl _ _⟩
  | succ n ih =>
    have hp := hmade p le_rfl (by omega)
    let c := a.adjust p (fun t => { t with headPod := .deadBeef, isFree := true })
    have hcn : c.next = a.next := next_adjust (fun _ => rfl)
    have hcp : c.prev = a.prev := prev_adjust (fun _ => rfl)
    have hct : ∀ i, i ≠ p → c.tag i = a.tag i := by
      intro i hi
      rw [tag, tag, adjust_pods_of_ne hi]
    have hcpt : ∀ k f, a.tag p = some (k, f) → c.tag p = some (k, true) := by
      intro k f hk
      obtain ⟨t, ht, -, htt, -, -⟩ := hp.getPod
      rw [hk, Option.some.injEq, Prod.mk.injEq] at htt
      simp [c, tag, adjust, ht, htt.1]
    obtain ⟨b, hb, hbn, hbp, hbm, hbo, hbi, hbw⟩ := ih (a := c) (p := p + 1)
      (fun i h1 h2 => made_adjust.mpr (hmade i (by omega) (by omega)))
    refine ⟨b, ?_, by rw [hbn, hcn], by rw [hbp, hcp], hbm, ?_, ?_, ?_⟩
    · simp only [List.range'_succ, foldlM_cons]
      have hm : markFree a p = .ok c := modify_eq hp _
      rw [hm, ok_bind, hb]
    · intro i hi
      rw [hbo i (by omega), hct i (by omega)]
    · intro i k f h1 h2 hk
      by_cases hi : i = p
      · subst hi
        rw [hbo i (by omega), hcpt k f hk]
      · exact hbi i k f (by omega) (by omega) (by rw [hct i hi, hk])
    · have hpm : p ∈ {i | p ≤ i ∧ i < p + (n + 1)} := ⟨le_rfl, by omega⟩
      refine Within.trans (Within.adjust hpm _) (hbw.mono ?_)
      rintro i ⟨h1, h2⟩
      exact ⟨by omega, by omega⟩

theorem Within.reportIf (S : Set ℕ) (c : Prop) [Decidable c] :
    Within S a (if c then a.report .middleOfGroup else a) ∧
      (if c then a.report .middleOfGroup else a).tag = a.tag ∧
      (if c then a.report .middleOfGroup else a).pods = a.pods ∧
      (Lists a L → Lists (if c then a.report .middleOfGroup else a) L) := by
  split
  · refine ⟨⟨fun _ h => h, fun _ _ => rfl, ?_⟩, rfl, rfl, ?_⟩
    · intro r hr
      exact (mem_cons.mp hr).symm
    · exact fun h => h.congr rfl rfl rfl (fun _ hi => hi)
  · exact ⟨Within.refl _ _, rfl, rfl, fun h => h⟩

/-- The block at `p` takes over the pages of the free blocks to its right. -/
theorem coalescingOnePodRight_ok {bs : List Block} {f : Bool} {p n : ℕ} (h : Lists a L)
    (hp : a.tag p = some (n, f)) (hn : 0 < n)
    (htags : ∀ x d, (x, d) ∈ place (p + n) bs →
      a.tag x = some (d.size, d.free) ∧ a.tag (x + d.size - 1) = some (d.size, d.free))
    (hmem : ∀ x k, (x, ⟨k, true⟩) ∈ place (p + n) bs → x ∈ L k) (hpos : ∀ d ∈ bs, 0 < d.size)
    (hend : p + n + total bs = R.last + 1) :
    ∃ b g, a.coalescingOnePodRight R p = .ok b ∧
      Lists b (without L ((place (p + n) (bs.takeWhile Block.free)).map Prod.fst)) ∧
      b.tag p = some (n + total (bs.takeWhile Block.free), g) ∧
      (∀ i, i ≠ p → i ≠ p + (n + total (bs.takeWhile Block.free)) - 1 → b.tag i = a.tag i) ∧
      Within {i | p ≤ i ∧ i < p + (n + total (bs.takeWhile Block.free)) ∨ ∃ s, i ∈ L s} a b := by
  obtain ⟨t, hg, hts, -, -, -⟩ := getPod_of_tag hp
  let c := if t.headPod ≠ .deadBeef ∧ t.headPod ≠ .pod p then a.report .middleOfGroup else a
  obtain ⟨hcw, hct, -, hcl⟩ : Within {i | p ≤ i ∧ i < p + (n + total (bs.takeWhile Block.free)) ∨
      ∃ s, i ∈ L s} a c ∧ c.tag = a.tag ∧ c.pods = a.pods ∧ (Lists a L → Lists c L) :=
    Within.reportIf _ _
  have hfuel : bs.length < R.podsSize + 1 := by
    have h1 := length_le_total hpos
    have h2 := R.lt
    omega
  obtain ⟨d, hd, hdl, hdt, hdw⟩ := collectRight_ok 0 (hcl h) (hct ▸ hp) hn rfl
    (fun x e hx => hct ▸ (htags x e hx).1) hmem hpos hend hfuel
  rw [hct] at hdt
  have hw : Within {i | p ≤ i ∧ i < p + (n + total (bs.takeWhile Block.free)) ∨ ∃ s, i ∈ L s} a d :=
    hcw.trans (hdw.mono (fun i hi => .inr hi))
  have hrun : a.coalescingOnePodRight R p = (do
      if total (bs.takeWhile Block.free) = 0 then return d
      let t ← d.getPod p
      let newSize := total (bs.takeWhile Block.free) + t.globalSize
      let a ← d.setTag p newSize true
      if newSize > 1 then a.setTag (p + newSize - 1) newSize true else return a) := by
    rw [Nat.zero_add] at hd
    rw [coalescingOnePodRight, hg, ok_bind]
    change collectRight R (R.podsSize + 1) c p 0 >>= _ = _
    rw [hd]
    rfl
  obtain ⟨u, hug, hus, -, -, -⟩ := getPod_of_tag (hdt ▸ hp)
  by_cases h0 : total (bs.takeWhile Block.free) = 0
  · refine ⟨d, f, ?_, hdl, ?_, fun i _ _ => by rw [hdt], hw⟩
    · rw [hrun, if_pos h0]
      rfl
    · rw [hdt, h0]
      exact hp
  · have hne : bs.takeWhile Block.free ≠ [] := by
      intro he
      simp [he] at h0
    -- the new last page is that of the last absorbed block
    obtain ⟨x, e, hx, hxe⟩ := exists_last_place (s := p + n) hne
    have hx' : (x, e) ∈ place (p + n) bs := by
      rw [← takeWhile_append_dropWhile (p := Block.free) (l := bs), mem_place_append]
      exact .inl hx
    have hmade : d.Made (p + (n + total (bs.takeWhile Block.free)) - 1) := by
      have hlast := (htags x e hx').2
      rw [show x + e.size - 1 = p + (n + total (bs.takeWhile Block.free)) - 1 by omega] at hlast
      exact made_of_tag (hdt ▸ hlast)
    have hpm : d.Made p := made_of_tag (hdt ▸ hp)
    generalize hk : n + total (bs.takeWhile Block.free) = k at *
    have hpm' : (d.withTag p k true).Made (p + k - 1) := by simpa using hmade
    refine ⟨(d.withTag p k true).withTag (p + k - 1) k true, true, ?_, ?_, ?_, ?_, ?_⟩
    · have hus' : total (bs.takeWhile Block.free) + u.globalSize = k := by omega
      have hk1 : k > 1 := by omega
      rw [hrun, if_neg h0]
      simp only [pure_eq, hug, ok_bind, hus', setTag_eq hpm, hk1, if_true,
        setTag_eq hpm']
    · exact hdl.congr rfl (by simp) (by simp) (fun i hi => by simpa using hi)
    · rw [tag_withTag true hpm', tag_withTag true hpm, update_apply,
        update_self, ite_self]
    · intro i hi hi'
      rw [tag_withTag true hpm', tag_withTag true hpm, update_of_ne hi',
        update_of_ne hi, hdt]
    · exact (hw.trans (Within.adjust (.inl ⟨le_rfl, by omega⟩) _)).trans
        (Within.adjust (.inl ⟨by omega, by omega⟩) _)

end State

namespace State

section Release

variable {bs : List Block} {p n : ℕ}

theorem hugeFree_eq (h : Lists a L) (hp : a.tag p = some (n, false)) (hn : 0 < n)
    (htags : ∀ x d, (x, d) ∈ place (p + n) bs →
      a.tag x = some (d.size, d.free) ∧ a.tag (x + d.size - 1) = some (d.size, d.free))
    (hmem : ∀ x k, (x, ⟨k, true⟩) ∈ place (p + n) bs → x ∈ L k) (hpos : ∀ d ∈ bs, 0 < d.size)
    (hend : p + n + total bs = R.last + 1) {k : ℕ}
    (hk : k = n + total (bs.takeWhile Block.free)) :
    ∃ d g, a.hugeFree R p = (do
        let e ← (List.range' p n).foldlM markFree d
        let f ← e.modify p (fun t => { t with isFree := true })
        f.hugePodMapAddEntry p) ∧
      Lists d (without L ((place (p + n) (bs.takeWhile Block.free)).map Prod.fst)) ∧
      d.tag p = some (k, g) ∧ (∀ i, i ≠ p → i ≠ p + k - 1 → d.tag i = a.tag i) ∧
      Within {i | p ≤ i ∧ i < p + k ∨ ∃ s, i ∈ L s} a d := by
  obtain ⟨t, hg, hts, -, -, -⟩ := getPod_of_tag hp
  let c := if t.headPod ≠ .null ∧ t.headPod ≠ .pod p then a.report .middleOfGroup else a
  obtain ⟨hcw, hct, -, hcl⟩ : Within {i | p ≤ i ∧ i < p + k ∨ ∃ s, i ∈ L s} a c ∧
      c.tag = a.tag ∧ c.pods = a.pods ∧ (Lists a L → Lists c L) := Within.reportIf _ _
  obtain ⟨d, g, hd, hdl, hdp, hdo, hdw⟩ := coalescingOnePodRight_ok (R := R) (hcl h) (hct ▸ hp) hn
    (fun x e hx => hct ▸ htags x e hx) hmem hpos hend
  rw [← hk] at hdp hdo hdw
  refine ⟨d, g, ?_, hdl, hdp, ?_, hcw.trans hdw⟩
  · rw [hugeFree, hg, ok_bind, hts]
    change c.coalescingOnePodRight R p >>= _ = _
    rw [hd, ok_bind]
  · intro i hi hi'
    rw [hdo i hi hi', hct]

theorem made_of_markFree {l : List ℕ} {b : State} (h : l.foldlM markFree a = .ok b) :
    ∀ i ∈ l, a.Made i := by
  induction l generalizing a with
  | nil => simp
  | cons j l ih =>
    rw [foldlM_cons] at h
    have hj : a.Made j := by
      intro hn
      have hf : markFree a j = .error .undefined := by simp [markFree, modify, getPod, hn]
      rw [hf] at h
      cases h
    have hm : markFree a j = .ok (a.adjust j _) := modify_eq hj _
    rw [hm, ok_bind] at h
    intro i hi
    rcases mem_cons.mp hi with rfl | hi
    · exact hj
    · exact made_adjust.mp (ih h i hi)

theorem hugeFree_tags (h : Lists a L) (hp : a.tag p = some (n, false)) (hn : 0 < n)
    (hout : ∀ s, p ∉ L s)
    (htags : ∀ x d, (x, d) ∈ place (p + n) bs →
      a.tag x = some (d.size, d.free) ∧ a.tag (x + d.size - 1) = some (d.size, d.free))
    (hmem : ∀ x k, (x, ⟨k, true⟩) ∈ place (p + n) bs → x ∈ L k) (hpos : ∀ d ∈ bs, 0 < d.size)
    (hend : p + n + total bs = R.last + 1) (hmade : ∀ i, p ≤ i → i < p + n → a.Made i) {k : ℕ}
    (hk : k = n + total (bs.takeWhile Block.free)) :
    ∃ b, a.hugeFree R p = .ok b ∧
      Lists b (pushFront (without L ((place (p + n) (bs.takeWhile Block.free)).map Prod.fst)) k p) ∧
      b.tag p = some (k, true) ∧ b.tag (p + k - 1) = some (k, true) ∧
      (∀ i, i < p ∨ p + k ≤ i → b.tag i = a.tag i) ∧
      Within {i | p ≤ i ∧ i < p + k ∨ ∃ s, i ∈ L s} a b := by
  obtain ⟨d, g, hd, hdl, hdp, hdo, hdw⟩ := hugeFree_eq (R := R) h hp hn htags hmem hpos hend hk
  obtain ⟨e, he, hen, hep, hem, heo, hei, hew⟩ := markFree_range (a := d) (p := p) (n := n)
    (fun i h1 h2 => hdw.made i (hmade i h1 h2))
  have hetp : e.tag p = some (k, true) := hei p k g le_rfl (by omega) hdp
  have hpe : e.Made p := made_of_tag hetp
  let f := e.adjust p (fun t => { t with isFree := true })
  have hft : f.tag p = some (k, true) := by
    obtain ⟨u, hu, -, hut, -, -⟩ := hpe.getPod
    rw [hetp, Option.some.injEq, Prod.mk.injEq] at hut
    simp [f, tag, adjust, hu, ← hut.1]
  have hfl : Lists f (without L ((place (p + n) (bs.takeWhile Block.free)).map Prod.fst)) := by
    have hfm : f.hugePodMap = d.hugePodMap := hem
    have hfn : f.next = e.next := next_adjust (fun _ => rfl)
    have hfp : f.prev = e.prev := prev_adjust (fun _ => rfl)
    apply hdl.congr hfm (hfn.trans hen) (hfp.trans hep)
    exact fun i hi => made_adjust.mpr (hew.made i hi)
  have hfo : ∀ i, i < p ∨ p + k ≤ i → f.tag i = a.tag i := by
    intro i hi
    rw [tag, adjust_pods_of_ne (by omega)]
    change e.tag i = a.tag i
    rw [heo i (by omega), hdo i (by omega) (by omega)]
  obtain ⟨b, hb, hbl, hbt, hbw⟩ := hugePodMapAddEntry_ok hfl
    (fun s hs => hout s (mem_without.mp hs).1) hft (by omega : 0 < k)
  refine ⟨b, ?_, hbl, ?_, ?_, ?_, ?_⟩
  · rw [hd, he, ok_bind, modify_eq hpe, ok_bind]
    exact hb
  · rw [hbt, update_apply]
    split
    · rfl
    · exact hft
  · rw [hbt, update_self]
  · intro i hi
    rw [hbt, update_of_ne (by omega), hfo i hi]
  · refine ((hdw.trans (hew.mono ?_)).trans
      (Within.adjust (.inl ⟨le_rfl, by omega⟩) _)).trans (hbw.mono ?_)
    · rintro i ⟨h1, h2⟩
      exact .inl ⟨h1, by omega⟩
    · rintro i (rfl | rfl | hi)
      · exact .inl ⟨le_rfl, by omega⟩
      · exact .inl ⟨by omega, by omega⟩
      · exact .inr ⟨_, (mem_without.mp hi).1⟩

end Release

end State

theorem AbsArena.right_of_alloc {p n : ℕ} (hp : h.Alloc p n) :
    ∃ l₁ l₂, h.blocks = l₁ ++ ⟨n, false⟩ :: l₂ ∧ p = R.first + total l₁ ∧
      (∀ x ∈ l₁, 0 < x.size) ∧ (∀ x ∈ l₁ ++ ⟨n, false⟩ :: l₂, 0 < x.size) ∧
      (∀ x d, (x, d) ∈ place (p + n) l₂ → (x, d) ∈ place R.first h.blocks) ∧
      p + n + total l₂ = R.last + 1 := by
  obtain ⟨l₁, l₂, he, hpe, hl, hpos⟩ := AbsArena.split_of_alloc hp
  refine ⟨l₁, l₂, he, hpe, hl, hpos, ?_, ?_⟩
  · intro x d hx
    rw [he, mem_place_append, mem_place_cons, ← hpe]
    exact .inr (.inr hx)
  · have h1 := h.fill
    have h2 := R.le
    rw [he, total_append, total_cons] at h1
    simp only [Region.podCount] at h1
    omega

/-- A release can return only when every page of the block has its pod. -/
theorem made_of_hugeFree (hs : Shows a h) {p n : ℕ} {b : State} (hp : h.Alloc p n)
    (run : a.hugeFree R p = .ok b) : ∀ i, p ≤ i → i < p + n → a.Made i := by
  have hn : 0 < n := (h.bounds hp).2.2
  have ht : a.tag p = some (n, false) ∧ a.tag (p + n - 1) = some (n, false) := hs.tagged p _ hp
  obtain ⟨l₁, l₂, -, -, -, hpos, hright, hend⟩ := AbsArena.right_of_alloc hp
  obtain ⟨d, g, hd, -, -, hdo, -⟩ := State.hugeFree_eq hs.lists ht.1 hn
    (fun x d hx => hs.tagged x d (hright x d hx))
    (fun x k hx => (h.mem_lists k x).mpr (hright x _ hx)) (fun d hd => hpos d (by simp [hd]))
    hend rfl
  rw [hd] at run
  cases he : (List.range' p n).foldlM State.markFree d with
  | error e =>
    rw [he] at run
    cases run
  | ok e =>
    intro i h1 h2
    have hi := State.made_of_markFree he i (mem_range'_1.mpr ⟨h1, h2⟩)
    by_cases hip : i = p
    · exact hip ▸ State.made_of_tag ht.1
    · by_cases hil : i = p + (n + total (l₂.takeWhile Block.free)) - 1
      · exact State.made_of_tag (show a.tag i = _ by rw [show i = p + n - 1 by omega]; exact ht.2)
      · intro hnone
        have := hdo i hip hil
        obtain ⟨u, -, -, hut, -, -⟩ := hi.getPod
        rw [hut, State.tag, hnone] at this
        cases this

/-- Freeing a block in use whose pages all exist. -/
theorem hugeFree_ok (hs : Shows a h) {p n : ℕ} (hp : h.Alloc p n)
    (hmade : ∀ i, p ≤ i → i < p + n → a.Made i) :
    ∃ b, a.hugeFree R p = .ok b ∧ Shows b (h.free p n hp) ∧
      State.Within {i | p ≤ i ∧ i < p + n ∨ h.FreePage i} a b := by
  have hn : 0 < n := (h.bounds hp).2.2
  obtain ⟨l₁, l₂, he, hpe, hl, hpos, hright, hend⟩ := AbsArena.right_of_alloc hp
  have ht : a.tag p = some (n, false) := (hs.tagged p _ hp).1
  obtain ⟨b, hb, hbl, hbp, hbf, hbo, hbw⟩ := State.hugeFree_tags hs.lists ht hn
    (h.not_mem_of_alloc hp) (fun x d hx => hs.tagged x d (hright x d hx))
    (fun x k hx => (h.mem_lists k x).mpr (hright x _ hx)) (fun d hd => hpos d (by simp [hd]))
    hend hmade rfl
  refine ⟨b, hb, ⟨?_, ?_⟩, hbw.mono ?_⟩
  · intro q c hq
    change (q, c) ∈ place R.first (release p R.first h.blocks) at hq
    rw [he, hpe, release_split hl, mem_place_release_iff hpos, ← he, ← hpe] at hq
    rcases hq with ⟨hq, hout⟩ | ⟨rfl, rfl⟩
    · have h1 := (h.bounds hq).2.2
      have hout' : q + c.size ≤ p ∨ p + (n + total (l₂.takeWhile Block.free)) ≤ q := by
        rcases place_disjoint hq hp with ⟨h2, -⟩ | h2 | h2
        · omega
        · exact .inl h2
        · dsimp only at h2
          omega
      rw [hbo q (by omega), hbo _ (by omega)]
      exact hs.tagged q c hq
    · exact ⟨hbp, hbf⟩
  · change Lists b (pushFront (without h.lists (absorbed p R.first h.blocks)) (h.freedSize p) p)
    rw [hpe, AbsArena.freedSize_split he, he, absorbed_split hl, ← hpe]
    exact hbl
  · rintro i (⟨h1, h2⟩ | ⟨s, hi⟩)
    · by_cases hi : i < p + n
      · exact .inl ⟨h1, hi⟩
      · obtain ⟨x, d, hx, hxi⟩ := exists_place_covering (s := p + n) (Nat.not_lt.mp hi)
          (Nat.add_assoc p n _ ▸ h2)
        have hfree : d.free = true := mem_takeWhile_imp (block_mem_of_mem_place hx)
        obtain ⟨k, f⟩ := d
        dsimp only at hfree
        subst hfree
        refine .inr ⟨x, k, hright x _ ?_, hxi⟩
        rw [← takeWhile_append_dropWhile (p := Block.free) (l := l₂), mem_place_append]
        exact .inl hx
    · exact .inr (AbsArena.freePage_of_mem hi)

/-! ## The whole region -/

/-- The constructor leaves the region as one free block. -/
theorem initGlobalFreePodList_ok (hm : ∀ s, a.hugePodMap.get s = none) :
    ∃ b, a.initGlobalFreePodList R = .ok b ∧ Shows b (AbsArena.fresh R) ∧
      State.Within {i | R.first ≤ i ∧ i ≤ R.last} a b := by
  have hpos := R.podCount_pos
  have hlast : R.first + R.podCount - 1 = R.last := by
    have := R.le
    unfold Region.podCount
    omega
  let c := (a.mapForPodI R.first).mapForPodI R.last
  have hcf : c.Made R.first :=
    State.made_mapForPodI.mpr (.inr (State.made_mapForPodI.mpr (.inl rfl)))
  have hcl : c.Made R.last := State.made_mapForPodI.mpr (.inl rfl)
  let d := c.adjust R.first (fun t =>
    { t with globalSize := R.podCount, prev := none, next := none, isFree := true })
  have hdl : d.Made R.last := State.made_adjust.mpr hcl
  let e := d.withTag R.last R.podCount true
  have hdm : d.hugePodMap = a.hugePodMap := by
    change c.hugePodMap = _
    simp [c]
  have hlists : Lists e (fun _ => []) := by
    refine ⟨?_, by simp, by simp⟩
    intro s
    refine LinkedList.nil_iff.mpr ?_
    change d.hugePodMap.get s = none
    rw [hdm, hm]
  have hdt : d.tag R.first = some (R.podCount, true) := by
    obtain ⟨t, ht, -⟩ := hcf.getPod
    simp [d, State.tag, State.adjust, ht]
  have het : e.tag R.first = some (R.podCount, true) := by
    rw [State.tag_withTag true hdl, update_apply]
    split
    · rfl
    · exact hdt
  obtain ⟨b, hb, hbl, hbt, hbw⟩ := State.hugePodMapAddEntry_ok hlists (by simp) het hpos
  rw [hlast] at hbt hbw
  refine ⟨b, ?_, ⟨?_, hbl⟩, ?_⟩
  · rw [State.initGlobalFreePodList]
    change c.modify R.first _ >>= _ = _
    rw [State.modify_eq hcf, ok_bind]
    change d.setTag R.last R.podCount true >>= _ = _
    rw [State.setTag_eq hdl, ok_bind]
    exact hb
  · intro p c hpc
    obtain ⟨rfl, rfl⟩ : p = R.first ∧ c = ⟨R.podCount, true⟩ := by
      simpa [AbsArena.fresh] using hpc
    dsimp only
    rw [hlast, hbt, update_self, update_apply]
    refine ⟨?_, rfl⟩
    split
    · rfl
    · exact het
  · have hf : R.first ∈ {i | R.first ≤ i ∧ i ≤ R.last} := ⟨le_rfl, R.le⟩
    have hl : R.last ∈ {i | R.first ≤ i ∧ i ≤ R.last} := ⟨R.le, le_rfl⟩
    refine ((((State.Within.mapForPodI hf).trans (State.Within.mapForPodI hl)).trans
      (State.Within.adjust hf _)).trans (State.Within.adjust hl _)).trans (hbw.mono ?_)
    rintro i (rfl | rfl | hi)
    · exact hf
    · exact hl
    · simp at hi

end Remon.Arena
