import Remon.Lib.LockProg
import Mathlib.Order.BooleanAlgebra.Set

/-! # A logic for operations that take locks

What an operation knows of the data that a lock guards holds as long as it has the lock. `wp`
says that the operation keeps to the locks, given that much.
-/

namespace Remon.Lib.LockProg
open Function

variable {L D C P T : Type} {α β : Type}

/-! ## What an operation knows of the data -/

/-- The data that each lock guards, the locks that an operation with the locks `H` may wait for or
try, and the places that it may come to. -/
structure Discipline (L D P : Type) where
  guards : L → Setoid D
  waits (H : Set L) (l : L) : Prop
  tries (H : Set L) (l : L) : Prop
  ok : P → Prop

section Logic

variable (R : Discipline L D P)

def Rely (H : Set L) (d d' : D) : Prop := ∀ l ∈ H, (R.guards l).r d d'

/-- Started with the locks `H` and data `d`, the operation waits for locks and tries them as the
discipline allows, releases only locks that it has, makes each change under its lock and to the
data of that lock alone, and ends with `Q`, as long as it comes only to places that are `ok`. -/
def wp : LockProg L D C P α → (α → Set L → D → Prop) → Set L → D → Prop
  | .ret a, Q, H, d => ∀ d', Rely R H d d' → Q a H d'
  | .lock l next, Q, H, d => R.waits H l ∧ ∀ d', Rely R H d d' → wp next Q (insert l H) d'
  | .tryLock l next, Q, H, d =>
    R.tries H l ∧ ∀ d', Rely R H d d' → wp (next true) Q (insert l H) d' ∧ wp (next false) Q H d'
  | .unlock l next, Q, H, d => l ∈ H ∧ ∀ d', Rely R H d d' → wp next Q (H \ {l}) d'
  | .read q next, Q, H, d => ∀ d', Rely R H d d' → wp (next (q d')) Q H d'
  | .choose next, Q, H, d => ∀ b, wp (next b) Q H d
  | .enter l _ next, Q, H, d => l ∈ H ∧ wp next Q H d
  | .leave l _ f next, Q, H, d =>
    l ∈ H ∧ ∀ d', Rely R H d d' → (∀ k, k ≠ l → (R.guards k).r d' (f d')) ∧ wp next Q H (f d')
  | .pass _ p next, Q, H, d => R.ok p → wp next Q H d

variable {R} {H H' : Set L} {d d' d'' : D} {Q Q' : α → Set L → D → Prop}

theorem Rely.refl : Rely R H d d := fun l _ => (R.guards l).refl d

theorem Rely.trans (h : Rely R H d d') (h' : Rely R H d' d'') : Rely R H d d'' :=
  fun l hl => (R.guards l).trans (h l hl) (h' l hl)

theorem wp_rely {p : LockProg L D C P α} (h : wp R p Q H d) (hd : Rely R H d d') :
    wp R p Q H d' := by
  induction p generalizing H with
  | ret a => exact fun d'' hd' => h d'' (hd.trans hd')
  | lock l next => exact ⟨h.1, fun d'' hd' => h.2 d'' (hd.trans hd')⟩
  | tryLock l next => exact ⟨h.1, fun d'' hd' => h.2 d'' (hd.trans hd')⟩
  | unlock l next => exact ⟨h.1, fun d'' hd' => h.2 d'' (hd.trans hd')⟩
  | read q next => exact fun d'' hd' => h d'' (hd.trans hd')
  | choose next ih => exact fun b => ih b (h b) hd
  | enter l c next ih => exact ⟨h.1, ih h.2 hd⟩
  | leave l c f next => exact ⟨h.1, fun d'' hd' => h.2 d'' (hd.trans hd')⟩
  | pass l p next ih => exact fun hp => ih (h hp) hd

theorem wp_bind {x : LockProg L D C P α} {f : α → LockProg L D C P β}
    {Q : β → Set L → D → Prop} (h : wp R x (fun a => wp R (f a) Q) H d) :
    wp R (x >>= f) Q H d := by
  induction x generalizing H d with
  | ret a => exact h d .refl
  | lock l next ih => exact ⟨h.1, fun d' hd => ih (h.2 d' hd)⟩
  | tryLock l next ih => exact ⟨h.1, fun d' hd => ⟨ih true (h.2 d' hd).1, ih false (h.2 d' hd).2⟩⟩
  | unlock l next ih => exact ⟨h.1, fun d' hd => ih (h.2 d' hd)⟩
  | read q next ih => exact fun d' hd => ih _ (h d' hd)
  | choose next ih => exact fun b => ih b (h b)
  | enter l c next ih => exact ⟨h.1, ih h.2⟩
  | leave l c g next ih => exact ⟨h.1, fun d' hd => ⟨(h.2 d' hd).1, ih (h.2 d' hd).2⟩⟩
  | pass l p next ih => exact fun hp => ih (h hp)

theorem wp_mono {p : LockProg L D C P α} (h : wp R p Q H d)
    (hQ : ∀ a H d, Q a H d → Q' a H d) : wp R p Q' H d := by
  induction p generalizing H d with
  | ret a => exact fun d' hd => hQ _ _ _ (h d' hd)
  | lock l next ih => exact ⟨h.1, fun d' hd => ih (h.2 d' hd)⟩
  | tryLock l next ih => exact ⟨h.1, fun d' hd => ⟨ih true (h.2 d' hd).1, ih false (h.2 d' hd).2⟩⟩
  | unlock l next ih => exact ⟨h.1, fun d' hd => ih (h.2 d' hd)⟩
  | read q next ih => exact fun d' hd => ih _ (h d' hd)
  | choose next ih => exact fun b => ih b (h b)
  | enter l c next ih => exact ⟨h.1, ih h.2⟩
  | leave l c g next ih => exact ⟨h.1, fun d' hd => ⟨(h.2 d' hd).1, ih (h.2 d' hd).2⟩⟩
  | pass l p next ih => exact fun hp => ih (h hp)

/-! ### Operations and the locks they keep -/

variable (R) in
/-- From any data, the operation starts with the locks `H` and ends with those of `H'`. -/
def Takes (H : Set L) (p : LockProg L D C P α) (H' : α → Set L) : Prop :=
  ∀ d, wp R p (fun a H _ => H = H' a) H d

variable (R) in
/-- The operation, started without locks, keeps to the locks and ends with those of `E`. -/
def Safe (E : Set L → Prop) (p : LockProg L D C P α) : Prop := ∀ d, wp R p (fun _ H _ => E H) ∅ d

variable {l : L}

def Within (guards : L → Setoid D) (l : L) (f : D → D) : Prop :=
  ∀ d k, k ≠ l → (guards k).r d (f d)

theorem Takes.safe {E : Set L → Prop} {p : LockProg L D C P α} (h : Takes R ∅ p fun _ => H)
    (hE : E H) : Safe R E p := by
  intro d
  apply wp_mono (h d)
  rintro _ _ _ rfl
  exact hE

namespace Takes

protected theorem pure {H' : α → Set L} {a : α} (h : H' a = H) :
    Takes R H (pure a : LockProg L D C P α) H' :=
  fun _ _ _ => h.symm

protected theorem bind {x : LockProg L D C P α} {f : α → LockProg L D C P β} {H₁ : α → Set L}
    {H₂ : β → Set L} (hx : Takes R H x H₁) (hf : ∀ a, Takes R (H₁ a) (f a) H₂) :
    Takes R H (x >>= f) H₂ := by
  intro d
  apply wp_bind
  apply wp_mono (hx d)
  rintro a _ d' rfl
  exact hf a d'

theorem acquire (h : R.waits H l) :
    Takes R H (acquire l : LockProg L D C P Unit) fun _ => insert l H :=
  fun _ => ⟨h, fun _ _ _ _ => rfl⟩

theorem attempt (h : R.tries H l) :
    Takes R H (attempt l : LockProg L D C P Bool) fun b => if b then insert l H else H :=
  fun _ => ⟨h, fun _ _ => ⟨fun _ _ => rfl, fun _ _ => rfl⟩⟩

theorem release (h : l ∉ H) :
    Takes R (insert l H) (release l : LockProg L D C P Unit) fun _ => H := by
  refine fun _ => ⟨Set.mem_insert l H, fun _ _ _ _ => ?_⟩
  exact Set.insert_sdiff_self_of_notMem h

theorem get {q : D → β} : Takes R H (get q : LockProg L D C P β) fun _ => H :=
  fun _ _ _ _ _ => rfl

theorem any : Takes R H (any β : LockProg L D C P β) fun _ => H :=
  fun _ _ _ _ => rfl

theorem change {c : C} {f : D → D} (h : l ∈ H) (hf : Within R.guards l f) :
    Takes R H (change l c f : LockProg L D C P Unit) fun _ => H :=
  fun _ => ⟨h, h, fun d' _ => ⟨hf d', fun _ _ => rfl⟩⟩

/-- What follows a place that a run does not come to is of no account. -/
theorem of_mark {p : P} {f : Unit → LockProg L D C P β} {H' : β → Set L} (hp : ¬ R.ok p) :
    Takes R H (LockProg.mark l p >>= f) H' :=
  fun _ h => absurd h hp

theorem forM {γ : Type} {xs : List γ} {f : γ → LockProg L D C P PUnit}
    (h : ∀ x ∈ xs, Takes R H (f x) fun _ => H) :
    Takes R H (xs.forM f) fun _ => H := by
  induction xs with
  | nil => exact .pure rfl
  | cons x xs ih =>
    exact .bind (h x List.mem_cons_self) fun _ => ih fun y hy => h y (List.mem_cons_of_mem x hy)

end Takes

end Logic

/-! ## Interleavings -/

/-- The operations in progress; one without a next step is at rest. -/
structure Threads (T L D C P : Type) : Type 1 where
  prog : T → LockProg L D C P Unit
  shared : Shared T L D

/-- The locks that operation `t` holds. -/
def Shared.held (sh : Shared T L D) (t : T) : Set L := {l | sh.owner l = some t}

namespace Threads

/-- The places that a step comes to are `ok`. -/
def Allowed (ok : P → Prop) : Event L C P → Prop
  | .pass _ p _ => ok p
  | _ => True

section Orderly

variable {R : Discipline L D P} {E : Set L → Prop} {w : Threads T L D C P} {t u : T} {l : L}

/-- No operation is in progress and no lock is taken. -/
structure AtRest (w : Threads T L D C P) : Prop where
  prog : ∀ t, w.prog t = .ret ()
  owner : ∀ l, w.shared.owner l = none

/-- The next step of `t` begins a change that belongs to `l`. -/
def Begins (w : Threads T L D C P) (t : T) (l : L) : Prop := ∃ c next, w.prog t = .enter l c next

/-- `t` is in the middle of a change that belongs to `l`. -/
def Amid (w : Threads T L D C P) (t : T) (l : L) : Prop := ∃ c f next, w.prog t = .leave l c f next

/-- Every operation in progress keeps to the locks and ends with those of `E`. -/
def Orderly (R : Discipline L D P) (E : Set L → Prop) (w : Threads T L D C P) : Prop :=
  ∀ t, wp R (w.prog t) (fun _ H _ => E H) (w.shared.held t) w.shared.data

theorem AtRest.orderly (h : w.AtRest) (hE : E ∅) : w.Orderly R E := by
  intro t
  have hnone : w.shared.held t = ∅ := by simp [Shared.held, h.owner]
  rw [h.prog t, hnone]
  exact fun _ _ => hE

theorem Orderly.owner_of_begins (h : w.Orderly R E) (hb : w.Begins t l) :
    w.shared.owner l = some t := by
  obtain ⟨c, next, hp⟩ := hb
  have := h t
  rw [hp] at this
  exact this.1

theorem Orderly.owner_of_amid (h : w.Orderly R E) (hb : w.Amid t l) :
    w.shared.owner l = some t := by
  obtain ⟨c, f, next, hp⟩ := hb
  have := h t
  rw [hp] at this
  exact this.1

/-- Two changes that belong to one lock do not overlap. -/
theorem Orderly.eq_of_amid (h : w.Orderly R E) (ht : w.Amid t l) (hu : w.Amid u l) : t = u :=
  Option.some.inj ((h.owner_of_amid ht).symm.trans (h.owner_of_amid hu))

end Orderly

/-! ### Steps and runs -/

variable [DecidableEq L]

section Held

variable {sh : Shared T L D} {t u : T} {l : L}

theorem held_take (t : T) (l : L) : (sh.take t l).held t = insert l (sh.held t) := by
  ext k
  by_cases hk : k = l
  · simp [Shared.held, Shared.take, hk]
  · simp [Shared.held, Shared.take, hk]

theorem held_take_other (h : sh.owner l = none) (hu : u ≠ t) :
    (sh.take t l).held u = sh.held u := by
  ext k
  by_cases hk : k = l
  · simp [Shared.held, Shared.take, hk, h, hu.symm]
  · simp [Shared.held, Shared.take, hk]

theorem held_free (t : T) (l : L) : (sh.free l).held t = sh.held t \ {l} := by
  ext k
  by_cases hk : k = l
  · simp [Shared.held, Shared.free, hk]
  · simp [Shared.held, Shared.free, hk]

end Held

variable [DecidableEq T] (entry : LockProg L D C P Unit → Prop) (ok : P → Prop)

/-- An operation that has no step and no lock starts anew, or one in progress makes a step. -/
inductive Next : Threads T L D C P → Threads T L D C P → Prop
  | start {w : Threads T L D C P} (t : T) {p} (hrest : w.prog t = .ret ())
      (hfree : ∀ l, w.shared.owner l ≠ some t) (hp : entry p) :
      Next w { w with prog := update w.prog t p }
  | step {w : Threads T L D C P} (t : T) {e p sh} (h : Step t (w.prog t) w.shared e p sh)
      (he : Allowed ok e) : Next w ⟨update w.prog t p, sh⟩

inductive Run (w₀ : Threads T L D C P) : Threads T L D C P → Prop
  | refl : Run w₀ w₀
  | next {w w' : Threads T L D C P} (h : Run w₀ w) (hn : Next entry ok w w') : Run w₀ w'

variable {entry ok} {R : Discipline L D P} {E : Set L → Prop} {Q : α → Set L → D → Prop} {t u : T}
variable {p p' : LockProg L D C P α} {sh sh' : Shared T L D} {e : Event L C P}

/-- A step keeps what is known of the operation that makes it. -/
theorem wp_step (h : Step t p sh e p' sh') (he : Allowed R.ok e)
    (hw : wp R p Q (sh.held t) sh.data) :
    wp R p' Q (sh'.held t) sh'.data := by
  cases h with
  | lock =>
    rw [held_take]
    exact hw.2 _ .refl
  | tryLock =>
    rw [held_take]
    exact (hw.2 _ .refl).1
  | busy => exact (hw.2 _ .refl).2
  | unlock =>
    rw [held_free]
    exact hw.2 _ .refl
  | read => exact hw _ .refl
  | choose b => exact hw b
  | enter => exact hw.2
  | leave => exact (hw.2 _ .refl).2
  | pass => exact hw he

/-- A step of one operation leaves the locks of another and the data that they guard alone. -/
theorem frame_step (h : Step t p sh e p' sh') (hw : wp R p Q (sh.held t) sh.data) (hu : u ≠ t) :
    sh'.held u = sh.held u ∧ Rely R (sh.held u) sh.data sh'.data := by
  have notmine : ∀ k ∈ sh.held t, k ∉ sh.held u := by
    intro k hk hk'
    exact hu (Option.some.inj ((show sh.owner k = some u from hk').symm.trans hk))
  cases h with
  | lock hl => exact ⟨held_take_other hl hu, .refl⟩
  | tryLock hl => exact ⟨held_take_other hl hu, .refl⟩
  | @unlock l =>
    exact ⟨(held_free u l).trans (Set.sdiff_singleton_eq_self (notmine l hw.1)), .refl⟩
  | leave =>
    refine ⟨rfl, fun k hk => (hw.2 _ .refl).1 k ?_⟩
    rintro rfl
    exact notmine k hw.1 hk
  | _ => exact ⟨rfl, .refl⟩

variable {w w' w₀ : Threads T L D C P}

theorem Next.orderly (hentry : ∀ p, entry p → Safe R E p) (h : Next entry R.ok w w')
    (hw : w.Orderly R E) : w'.Orderly R E := by
  intro u
  cases h with
  | start t _ hfree hp =>
    by_cases hu : u = t
    · subst hu
      have hnone : w.shared.held u = ∅ := Set.eq_empty_of_forall_notMem hfree
      simpa only [update_self, hnone] using hentry _ hp w.shared.data
    · simpa only [update_of_ne hu] using hw u
  | step t h he =>
    by_cases hu : u = t
    · subst hu
      simpa only [update_self] using wp_step h he (hw u)
    · obtain ⟨hheld, hrely⟩ := frame_step h (hw t) hu
      simpa only [update_of_ne hu, hheld] using wp_rely (hw u) hrely

/-- Operation `t` by itself comes from one program and state to another. -/
inductive Steps (ok : P → Prop) (t : T) (p : LockProg L D C P α) (sh : Shared T L D) :
    LockProg L D C P α → Shared T L D → Prop
  | refl : Steps ok t p sh p sh
  | next {p' sh' e p'' sh''} (h : Steps ok t p sh p' sh') (hs : Step t p' sh' e p'' sh'')
      (he : Allowed ok e) : Steps ok t p sh p'' sh''

theorem Steps.trans {p'' : LockProg L D C P α} {sh'' : Shared T L D}
    (h : Steps ok t p sh p' sh') (h' : Steps ok t p' sh' p'' sh'') : Steps ok t p sh p'' sh'' := by
  induction h' with
  | refl => exact h
  | next _ hs he ih => exact .next ih hs he

theorem Run.steps {p : LockProg L D C P Unit} (h : Run entry ok w₀ w)
    (hs : Steps ok t (w.prog t) w.shared p sh) : Run entry ok w₀ ⟨update w.prog t p, sh⟩ := by
  induction hs with
  | refl =>
    rw [update_eq_self]
    exact h
  | @next p' sh' e p'' sh'' _ hs he ih =>
    have hstep : Step t (update w.prog t p' t) sh' e p'' sh'' := by
      rw [update_self]
      exact hs
    simpa only [update_idem] using ih.next (.step t hstep he)

theorem Run.orderly (hentry : ∀ p, entry p → Safe R E p) (h : Run entry R.ok w₀ w)
    (hw : w₀.Orderly R E) : w.Orderly R E := by
  induction h with
  | refl => exact hw
  | next _ hn ih => exact hn.orderly hentry ih

end Threads

end Remon.Lib.LockProg
