import Mathlib.Data.Multiset.AddSub
import Mathlib.Data.Multiset.MapFold
import Mathlib.Data.Multiset.ZeroCons
import Mathlib.Data.Multiset.Filter
import Mathlib.Data.Multiset.UnionInter
import Mathlib.Algebra.BigOperators.Group.Multiset.Basic
import Cts.Lib.Runs

/-!
# Jobs that are done at most once

A pool of slots, each with one job. Workers lock a slot, take its job away, may have its effect, and
bring back a result or nothing. Both are multisets, since their order does not matter.
-/

namespace Lib.Jobs

variable {κ J T R : Type}

structure Slot (κ J R : Type) where
  id : κ
  job : J
  lock : Bool
  data : Option R

/-- A worker that is away with the job of a slot, and the effect it had so far. -/
structure Flight (κ J T : Type) where
  id : κ
  job : J
  effect : Option T

structure Pool (κ J T R : Type) where
  slots : Multiset (Slot κ J R)
  flights : Multiset (Flight κ J T)
  had : Multiset (κ × T)
  left : Multiset (Slot κ J R)

/-- The effect that a result stands for. -/
abbrev Effect (J T R : Type) := J → R → Option T

def Slot.effect (effect : Effect J T R) (x : Slot κ J R) : Option (κ × T) :=
  (x.data.bind (effect x.job)).map (x.id, ·)

def Flight.had (f : Flight κ J T) : Option (κ × T) := f.effect.map (f.id, ·)

def Slot.fresh (x : Slot κ J R) : Prop := x.lock = false ∧ x.data = none

def Pool.all (s : Pool κ J T R) : Multiset (Slot κ J R) := s.slots + s.left

/-- What the workers do. -/
inductive Work (effect : Effect J T R) : Pool κ J T R → Pool κ J T R → Prop
  | launch {s : Pool κ J T R} {x : Slot κ J R} {t : Multiset (Slot κ J R)} (h : s.slots = x ::ₘ t)
      (hf : x.fresh) :
      Work effect s { s with
        slots := { x with lock := true } ::ₘ t, flights := ⟨x.id, x.job, none⟩ ::ₘ s.flights }
  | perform {s : Pool κ J T R} {f : Flight κ J T} {r : Multiset (Flight κ J T)}
      (h : s.flights = f ::ₘ r) (hf : f.effect = none) (t : T) :
      Work effect s { s with
        flights := { f with effect := some t } ::ₘ r, had := (f.id, t) ::ₘ s.had }
  | settle {s : Pool κ J T R} {f : Flight κ J T} {r : Multiset (Flight κ J T)} {x : Slot κ J R}
      {t : Multiset (Slot κ J R)} (h : s.flights = f ::ₘ r) (hx : s.slots = x ::ₘ t)
      (hid : x.id = f.id) (d : Option R) (hd : f.effect = d.bind (effect f.job)) :
      Work effect s { s with slots := { x with lock := false, data := d } ::ₘ t, flights := r }
  | leave {s : Pool κ J T R} {x : Slot κ J R} {t : Multiset (Slot κ J R)} (h : s.slots = x ::ₘ t)
      (hd : x.data.isSome) :
      Work effect s { s with slots := t, left := x ::ₘ s.left }

/-- Jobs arrive, or the workers go on. -/
inductive Move (effect : Effect J T R) : Pool κ J T R → Pool κ J T R → Prop
  | arrive {s : Pool κ J T R} (xs : Multiset (Slot κ J R)) (hf : ∀ x ∈ xs, x.fresh)
      (hn : ((xs + s.all).map Slot.id).Nodup) : Move effect s { s with slots := xs + s.slots }
  | work {s s' : Pool κ J T R} (h : Work effect s s') : Move effect s s'

/-- The effects of the workers still away and those on record are all the effects there were. -/
structure Kept (effect : Effect J T R) (s : Pool κ J T R) : Prop where
  ids : (s.all.map Slot.id).Nodup
  flight_ids : (s.flights.map Flight.id).Nodup
  away : ∀ f ∈ s.flights, ∃ x ∈ s.slots, x.id = f.id ∧ x.job = f.job ∧ x.lock = true ∧ x.data = none
  left_settled : ∀ x ∈ s.left, x.data.isSome
  had_eq : s.had = s.flights.filterMap Flight.had + s.all.filterMap (Slot.effect effect)

variable {effect : Effect J T R} {s s' : Pool κ J T R}

theorem Pool.mem_all {x : Slot κ J R} : x ∈ s.all ↔ x ∈ s.slots ∨ x ∈ s.left := Multiset.mem_add

@[simp]
theorem Slot.effect_of_none {x : Slot κ J R} (h : x.data = none) : x.effect effect = none := by
  simp [Slot.effect, h]

theorem filterMap_eq_zero {α β : Type} {f : α → Option β} {xs : Multiset α}
    (h : ∀ x ∈ xs, f x = none) : xs.filterMap f = 0 := by
  refine Multiset.eq_zero_of_forall_notMem fun y hy => ?_
  obtain ⟨x, hx, hxy⟩ := (Multiset.mem_filterMap _ _).mp hy
  rw [h x hx] at hxy
  cases hxy

theorem kept_empty : Kept effect (⟨0, 0, 0, 0⟩ : Pool κ J T R) := by
  refine ⟨by simp [Pool.all], by simp, by simp, by simp, by simp [Pool.all]⟩

namespace Kept

theorem slot_unique (hk : Kept effect s) {x y : Slot κ J R} (hx : x ∈ s.all) (hy : y ∈ s.all)
    (h : x.id = y.id) : x = y := Multiset.inj_on_of_nodup_map hk.ids x hx y hy h

theorem slot_of_flight (hk : Kept effect s) {f : Flight κ J T} {x : Slot κ J R}
    (hf : f ∈ s.flights) (hx : x ∈ s.slots) (h : x.id = f.id) :
    x.job = f.job ∧ x.lock = true ∧ x.data = none := by
  obtain ⟨y, hy, hid, hrest⟩ := hk.away f hf
  rw [hk.slot_unique (Pool.mem_all.mpr (Or.inl hx)) (Pool.mem_all.mpr (Or.inl hy)) (h.trans hid.symm)]
  exact hrest

theorem no_flight_of_unlocked (hk : Kept effect s) {x : Slot κ J R} (hx : x ∈ s.all)
    (hl : x.lock = false) {f : Flight κ J T} (hf : f ∈ s.flights) : f.id ≠ x.id := by
  intro h
  obtain ⟨y, hy, hid, -, hlock, -⟩ := hk.away f hf
  rw [hk.slot_unique hx (Pool.mem_all.mpr (Or.inl hy)) (h.symm.trans hid.symm), hlock] at hl
  cases hl

/-! ## Every move keeps it -/

theorem arrive (hk : Kept effect s) {xs : Multiset (Slot κ J R)} (hf : ∀ x ∈ xs, x.fresh)
    (hn : ((xs + s.all).map Slot.id).Nodup) : Kept effect { s with slots := xs + s.slots } := by
  have hall : ({ s with slots := xs + s.slots } : Pool κ J T R).all = xs + s.all := by
    simp only [Pool.all, add_assoc]
  refine ⟨by rw [hall]; exact hn, hk.flight_ids, fun f hfl => ?_, hk.left_settled, ?_⟩
  · obtain ⟨x, hx, h⟩ := hk.away f hfl
    exact ⟨x, Multiset.mem_add.mpr (Or.inr hx), h⟩
  · rw [hall, Multiset.filterMap_add, filterMap_eq_zero fun x hx => Slot.effect_of_none (hf x hx).2,
      zero_add]
    exact hk.had_eq

theorem launch (hk : Kept effect s) {x : Slot κ J R} {t : Multiset (Slot κ J R)}
    (h : s.slots = x ::ₘ t) (hf : x.fresh) :
    Kept effect { s with
      slots := { x with lock := true } ::ₘ t, flights := ⟨x.id, x.job, none⟩ ::ₘ s.flights } := by
  have hx : x ∈ s.slots := by rw [h]; exact Multiset.mem_cons_self _ _
  have hids := hk.ids
  have heq := hk.had_eq
  simp only [Pool.all, h, Multiset.cons_add, Multiset.map_cons] at hids heq
  refine ⟨by simpa only [Pool.all, Multiset.cons_add, Multiset.map_cons] using hids, ?_,
    fun f hfl => ?_, hk.left_settled, ?_⟩
  · rw [Multiset.map_cons, Multiset.nodup_cons]
    refine ⟨fun hmem => ?_, hk.flight_ids⟩
    obtain ⟨f, hfl, hid⟩ := Multiset.mem_map.mp hmem
    exact hk.no_flight_of_unlocked (Pool.mem_all.mpr (Or.inl hx)) hf.1 hfl hid
  · rcases Multiset.mem_cons.mp hfl with rfl | hfl
    · exact ⟨_, Multiset.mem_cons_self _ _, rfl, rfl, rfl, hf.2⟩
    · obtain ⟨y, hy, hid, hrest⟩ := hk.away f hfl
      refine ⟨y, ?_, hid, hrest⟩
      rw [h] at hy
      refine Multiset.mem_cons_of_mem ((Multiset.mem_cons.mp hy).resolve_left ?_)
      intro hyx
      rw [hyx] at hid
      exact hk.no_flight_of_unlocked (Pool.mem_all.mpr (Or.inl hx)) hf.1 ‹f ∈ s.flights› hid.symm
  · rw [Multiset.filterMap_cons_none _ _ (Slot.effect_of_none hf.2)] at heq
    have hlocked : ({ x with lock := true } : Slot κ J R).effect effect = none :=
      Slot.effect_of_none hf.2
    simp only [Pool.all, Multiset.cons_add]
    rw [Multiset.filterMap_cons_none _ _ rfl, Multiset.filterMap_cons_none _ _ hlocked]
    exact heq

theorem perform (hk : Kept effect s) {f : Flight κ J T} {r : Multiset (Flight κ J T)}
    (h : s.flights = f ::ₘ r) (hf : f.effect = none) (t : T) :
    Kept effect { s with
      flights := { f with effect := some t } ::ₘ r, had := (f.id, t) ::ₘ s.had } := by
  have hids := hk.flight_ids
  rw [h, Multiset.map_cons] at hids
  refine ⟨hk.ids, by rw [Multiset.map_cons]; exact hids, fun g hg => ?_, hk.left_settled, ?_⟩
  · rcases Multiset.mem_cons.mp hg with rfl | hg
    · exact hk.away f (by rw [h]; exact Multiset.mem_cons_self _ _)
    · exact hk.away g (by rw [h]; exact Multiset.mem_cons_of_mem hg)
  · have heq := hk.had_eq
    rw [h, Multiset.filterMap_cons_none _ _ (by rw [Flight.had, hf]; rfl)] at heq
    have hhad : ({ f with effect := some t } : Flight κ J T).had = some (f.id, t) := rfl
    simp only
    rw [Multiset.filterMap_cons_some _ _ _ hhad, heq, Multiset.cons_add]
    rfl

theorem settle (hk : Kept effect s) {f : Flight κ J T} {r : Multiset (Flight κ J T)}
    {x : Slot κ J R} {t : Multiset (Slot κ J R)} (h : s.flights = f ::ₘ r) (hx : s.slots = x ::ₘ t)
    (hid : x.id = f.id) (d : Option R) (hd : f.effect = d.bind (effect f.job)) :
    Kept effect { s with slots := { x with lock := false, data := d } ::ₘ t, flights := r } := by
  have hf : f ∈ s.flights := by rw [h]; exact Multiset.mem_cons_self _ _
  have hxs : x ∈ s.slots := by rw [hx]; exact Multiset.mem_cons_self _ _
  obtain ⟨hjob, -, hdata⟩ := hk.slot_of_flight hf hxs hid
  have hids := hk.ids
  have hfids := hk.flight_ids
  have heq := hk.had_eq
  simp only [Pool.all, hx, Multiset.cons_add, Multiset.map_cons] at hids
  rw [h, Multiset.map_cons, Multiset.nodup_cons] at hfids
  refine ⟨by simpa only [Pool.all, Multiset.cons_add, Multiset.map_cons] using hids, hfids.2,
    fun g hg => ?_, hk.left_settled, ?_⟩
  · obtain ⟨y, hy, hgid, hrest⟩ := hk.away g (by rw [h]; exact Multiset.mem_cons_of_mem hg)
    refine ⟨y, ?_, hgid, hrest⟩
    rw [hx] at hy
    refine Multiset.mem_cons_of_mem ((Multiset.mem_cons.mp hy).resolve_left ?_)
    rintro rfl
    exact hfids.1 (by rw [← hid, hgid]; exact Multiset.mem_map_of_mem _ hg)
  · -- The effect of the flight moves to the slot.
    have hmoved : ({ x with lock := false, data := d } : Slot κ J R).effect effect = f.had := by
      rw [Slot.effect, Flight.had, hd, hjob, hid]
    simp only [Pool.all, hx, Multiset.cons_add] at heq ⊢
    rw [h, Multiset.filterMap_cons_none _ _ (Slot.effect_of_none hdata)] at heq
    cases he : f.had with
    | none =>
      rw [Multiset.filterMap_cons_none _ _ he] at heq
      rw [Multiset.filterMap_cons_none _ _ (hmoved.trans he)]
      exact heq
    | some e =>
      rw [Multiset.filterMap_cons_some _ _ _ he] at heq
      rw [Multiset.filterMap_cons_some _ _ _ (hmoved.trans he), heq, Multiset.cons_add,
        Multiset.add_cons]

theorem leave (hk : Kept effect s) {x : Slot κ J R} {t : Multiset (Slot κ J R)}
    (h : s.slots = x ::ₘ t) (hd : x.data.isSome) :
    Kept effect { s with slots := t, left := x ::ₘ s.left } := by
  have hall : ({ s with slots := t, left := x ::ₘ s.left } : Pool κ J T R).all = s.all := by
    simp only [Pool.all, h, Multiset.cons_add, Multiset.add_cons]
  refine ⟨by rw [hall]; exact hk.ids, hk.flight_ids, fun f hf => ?_, fun y hy => ?_, ?_⟩
  · obtain ⟨y, hy, hid, hjob, hlock, hdata⟩ := hk.away f hf
    refine ⟨y, ?_, hid, hjob, hlock, hdata⟩
    rw [h] at hy
    refine (Multiset.mem_cons.mp hy).resolve_left ?_
    rintro rfl
    rw [hdata] at hd
    cases hd
  · rcases Multiset.mem_cons.mp hy with rfl | hy
    · exact hd
    · exact hk.left_settled y hy
  · rw [hall]
    exact hk.had_eq

end Kept

theorem kept_work (hk : Kept effect s) (h : Work effect s s') : Kept effect s' := by
  cases h with
  | launch h hf => exact hk.launch h hf
  | perform h hf t => exact hk.perform h hf t
  | settle h hx hid d hd => exact hk.settle h hx hid d hd
  | leave h hd => exact hk.leave h hd

theorem kept_move (hk : Kept effect s) (h : Move effect s s') : Kept effect s' := by
  cases h with
  | arrive xs hf hn => exact hk.arrive hf hn
  | work h => exact kept_work hk h

theorem kept_runs (hk : Kept effect s) (h : Runs (Move effect) s s') : Kept effect s' :=
  h.invariant (fun t ht => by rw [ht]; exact hk) (fun _ _ _ ih hm => kept_move ih hm)

theorem moves_of_works (h : Runs (Work effect) s s') : Runs (Move effect) s s' :=
  h.mono fun _ _ => .work

/-! ## Jobs stay -/

/-- Every job that is there or has left. -/
def Pool.jobs (s : Pool κ J T R) : Multiset (κ × J) := s.all.map fun x => (x.id, x.job)

theorem jobs_work (h : Work effect s s') : s'.jobs = s.jobs := by
  cases h with
  | launch h hf => simp only [Pool.jobs, Pool.all, h, Multiset.cons_add, Multiset.map_cons]
  | perform => rfl
  | settle h hx hid d hd =>
    simp only [Pool.jobs, Pool.all, hx, Multiset.cons_add, Multiset.map_cons]
  | leave h hd =>
    simp only [Pool.jobs, Pool.all, h, Multiset.cons_add, Multiset.add_cons, Multiset.map_cons]

theorem jobs_works (h : Runs (Work effect) s s') : s'.jobs = s.jobs := by
  induction h with
  | start h => rw [h]
  | next _ hm ih => exact (jobs_work hm).trans ih

/-! ## Many at once -/

/-- Some of the slots are locked and their jobs taken away. -/
inductive Launched : List (Slot κ J R) → List (Slot κ J R) → List (κ × J) → Prop
  | nil : Launched [] [] []
  | pass {xs ys : List (Slot κ J R)} {jobs : List (κ × J)} (x : Slot κ J R)
      (h : Launched xs ys jobs) : Launched (x :: xs) (x :: ys) jobs
  | take {xs ys : List (Slot κ J R)} {jobs : List (κ × J)} {x : Slot κ J R} (hf : x.fresh)
      (h : Launched xs ys jobs) :
      Launched (x :: xs) ({ x with lock := true } :: ys) ((x.id, x.job) :: jobs)

variable {S L : Multiset (Slot κ J R)} {F : Multiset (Flight κ J T)} {H : Multiset (κ × T)}

theorem coe_cons_add {α : Type} (x : α) (xs : List α) (m : Multiset α) :
    ((x :: xs : List α) : Multiset α) + m = x ::ₘ ((xs : Multiset α) + m) := by
  rw [← Multiset.cons_coe, Multiset.cons_add]

theorem Launched.job_of {xs ys : List (Slot κ J R)} {jobs : List (κ × J)}
    (h : Launched xs ys jobs) {e : κ × J} (he : e ∈ jobs) : ∃ x ∈ xs, x.job = e.2 := by
  induction h with
  | nil => exact absurd he List.not_mem_nil
  | pass x _ ih =>
    obtain ⟨y, hy, hjob⟩ := ih he
    exact ⟨y, List.mem_cons_of_mem _ hy, hjob⟩
  | @take xs ys jobs x hf _ ih =>
    rcases List.mem_cons.mp he with rfl | he
    · exact ⟨x, List.mem_cons_self, rfl⟩
    · obtain ⟨y, hy, hjob⟩ := ih he
      exact ⟨y, List.mem_cons_of_mem _ hy, hjob⟩

theorem Launched.works (effect : Effect J T R) {xs ys : List (Slot κ J R)} {jobs : List (κ × J)}
    (h : Launched xs ys jobs) (S : Multiset (Slot κ J R)) :
    Runs (Work effect) ⟨(xs : Multiset (Slot κ J R)) + S, F, H, L⟩
      ⟨(ys : Multiset (Slot κ J R)) + S,
        (jobs.map fun e => (⟨e.1, e.2, none⟩ : Flight κ J T) : List (Flight κ J T)) + F, H, L⟩ := by
  induction h generalizing S with
  | nil => exact .start (by simp)
  | pass x _ ih =>
    have ih := ih (x ::ₘ S)
    simp only [Multiset.add_cons] at ih
    simp only [coe_cons_add]
    exact ih
  | @take xs ys jobs x hf _ ih =>
    have ih := ih (x ::ₘ S)
    simp only [Multiset.add_cons] at ih
    simp only [coe_cons_add, List.map_cons]
    exact ih.next (.launch rfl hf)

theorem performs (effect : Effect J T R) (fs : List (Flight κ J T)) :
    Runs (Work effect)
      (⟨S, (fs.map fun f => { f with effect := none } : List (Flight κ J T)) + F, H, L⟩ :
        Pool κ J T R)
      ⟨S, (fs : Multiset (Flight κ J T)) + F,
        (fs.filterMap Flight.had : List (κ × T)) + H, L⟩ := by
  induction fs generalizing F H with
  | nil => exact .start (by simp)
  | cons f fs ih =>
    rw [List.map_cons, coe_cons_add, coe_cons_add]
    cases hf : f.effect with
    | none =>
      have hhad : f.had = none := by simp [Flight.had, hf]
      have hnone : ({ f with effect := none } : Flight κ J T) = f := by rw [← hf]
      rw [List.filterMap_cons_none hhad, hnone]
      have ih := ih (F := f ::ₘ F) (H := H)
      simp only [Multiset.add_cons] at ih
      exact ih
    | some t =>
      have hhad : f.had = some (f.id, t) := by simp [Flight.had, hf]
      have hsome : ({ f with effect := some t } : Flight κ J T) = f := by rw [← hf]
      have hstep : Work effect
          (⟨S, { f with effect := none } ::ₘ
            ((fs.map fun f => { f with effect := none } : List (Flight κ J T)) + F), H, L⟩ :
            Pool κ J T R)
          ⟨S, { f with effect := some t } ::ₘ
            ((fs.map fun f => { f with effect := none } : List (Flight κ J T)) + F),
            (f.id, t) ::ₘ H, L⟩ :=
        .perform (f := { f with effect := none }) rfl rfl t
      rw [hsome] at hstep
      rw [List.filterMap_cons_some hhad, coe_cons_add]
      have ih := ih (F := f ::ₘ F) (H := (f.id, t) ::ₘ H)
      simp only [Multiset.add_cons] at ih
      exact Reachable.trans (.next (.start rfl) hstep) ih

section

variable [DecidableEq κ]

def applyResult (x : Slot κ J R) (r : κ × Option R) : Slot κ J R :=
  if r.1 = x.id then { x with lock := false, data := r.2 } else x

theorem settle_work (hk : Kept effect s) {f : Flight κ J T} {r : Multiset (Flight κ J T)}
    (h : s.flights = f ::ₘ r) {d : Option R} (hd : f.effect = d.bind (effect f.job)) :
    Work effect s
      { s with slots := s.slots.map fun x => applyResult x (f.id, d), flights := r } := by
  obtain ⟨x, hx, hid, -⟩ := hk.away f (by rw [h]; exact Multiset.mem_cons_self _ _)
  obtain ⟨t, ht⟩ := Multiset.exists_cons_of_mem hx
  have hids := hk.ids
  simp only [Pool.all, ht, Multiset.cons_add, Multiset.map_cons, Multiset.nodup_cons] at hids
  have hself : applyResult x (f.id, d) = { x with lock := false, data := d } := if_pos hid.symm
  have hothers : t.map (fun x => applyResult x (f.id, d)) = t := by
    refine (Multiset.map_congr rfl fun y hy => if_neg ?_).trans (Multiset.map_id t)
    intro heq
    refine hids.1 (Multiset.mem_map.mpr ⟨y, Multiset.mem_add.mpr (Or.inl hy), ?_⟩)
    exact heq.symm.trans hid.symm
  have hslots : s.slots.map (fun x => applyResult x (f.id, d)) =
      { x with lock := false, data := d } ::ₘ t := by
    rw [ht, Multiset.map_cons, hself, hothers]
  rw [hslots]
  exact .settle h ht hid d hd

theorem settles (fs : List (Flight κ J T × Option R))
    (hd : ∀ e ∈ fs, e.1.effect = e.2.bind (effect e.1.job))
    (hk : Kept effect (⟨S, (fs.map Prod.fst : List (Flight κ J T)) + F, H, L⟩ : Pool κ J T R)) :
    Runs (Work effect) ⟨S, (fs.map Prod.fst : List (Flight κ J T)) + F, H, L⟩
      ⟨S.map fun x => (fs.map fun e => (e.1.id, e.2)).foldl applyResult x, F, H, L⟩ := by
  induction fs generalizing S with
  | nil => exact .start (by simp)
  | cons e fs ih =>
    rw [List.map_cons, coe_cons_add] at hk ⊢
    have hstep := settle_work hk rfl (hd e List.mem_cons_self)
    have ih := ih (fun e he => hd e (List.mem_cons_of_mem _ he)) (kept_work hk hstep)
    rw [Multiset.map_map] at ih
    exact Reachable.trans (.next (.start rfl) hstep) ih

end

theorem leaves (effect : Effect J T R) (xs : List (Slot κ J R)) (hd : ∀ x ∈ xs, x.data.isSome) :
    Runs (Work effect) ⟨(xs : Multiset (Slot κ J R)) + S, F, H, L⟩
      ⟨S, F, H, (xs : Multiset (Slot κ J R)) + L⟩ := by
  induction xs generalizing L with
  | nil => exact .start (by simp)
  | cons x xs ih =>
    rw [coe_cons_add, coe_cons_add]
    have hstep : Work effect (⟨x ::ₘ ((xs : Multiset (Slot κ J R)) + S), F, H, L⟩ : Pool κ J T R)
        ⟨(xs : Multiset (Slot κ J R)) + S, F, H, x ::ₘ L⟩ := .leave rfl (hd x List.mem_cons_self)
    have ih := ih (L := x ::ₘ L) fun y hy => hd y (List.mem_cons_of_mem _ hy)
    simp only [Multiset.add_cons] at ih
    exact Reachable.trans (.next (.start rfl) hstep) ih

/-! ## What follows -/

omit R J T in
theorem nodup_fst_filterMap {α β : Type} {f : α → κ} {g : α → Option (κ × β)} {xs : Multiset α}
    (hg : ∀ x ∈ xs, ∀ e, g x = some e → e.1 = f x) (hn : (xs.map f).Nodup) :
    ((xs.filterMap g).map Prod.fst).Nodup := by
  induction xs using Multiset.induction_on with
  | empty => simp
  | cons x xs ih =>
    rw [Multiset.map_cons, Multiset.nodup_cons] at hn
    have ih := ih (fun y hy => hg y (Multiset.mem_cons_of_mem hy)) hn.2
    cases hx : g x with
    | none => rwa [Multiset.filterMap_cons_none _ _ hx]
    | some e =>
      rw [Multiset.filterMap_cons_some _ _ _ hx, Multiset.map_cons, Multiset.nodup_cons]
      refine ⟨fun hmem => hn.1 ?_, ih⟩
      obtain ⟨e', he', heq⟩ := Multiset.mem_map.mp hmem
      obtain ⟨y, hy, hye⟩ := (Multiset.mem_filterMap _ _).mp he'
      rw [← hg x (Multiset.mem_cons_self _ _) e hx, ← heq, hg y (Multiset.mem_cons_of_mem hy) e' hye]
      exact Multiset.mem_map_of_mem f hy

theorem Flight.had_id {f : Flight κ J T} {e : κ × T} (h : f.had = some e) : e.1 = f.id := by
  obtain ⟨t, -, rfl⟩ := Option.map_eq_some_iff.mp h
  rfl

theorem Slot.effect_id {x : Slot κ J R} {e : κ × T} (h : x.effect effect = some e) : e.1 = x.id := by
  obtain ⟨t, -, rfl⟩ := Option.map_eq_some_iff.mp h
  rfl

/-- No job has its effect twice. -/
theorem Kept.once (hk : Kept effect s) : (s.had.map Prod.fst).Nodup := by
  rw [hk.had_eq, Multiset.map_add, Multiset.nodup_add]
  refine ⟨nodup_fst_filterMap (fun _ _ _ => Flight.had_id) hk.flight_ids,
    nodup_fst_filterMap (fun _ _ _ => Slot.effect_id) hk.ids, ?_⟩
  refine Multiset.disjoint_left.mpr fun {i} hi hi' => ?_
  obtain ⟨e, he, rfl⟩ := Multiset.mem_map.mp hi
  obtain ⟨e', he', hee⟩ := Multiset.mem_map.mp hi'
  obtain ⟨f, hf, hfe⟩ := (Multiset.mem_filterMap _ _).mp he
  obtain ⟨x, hx, hxe⟩ := (Multiset.mem_filterMap _ _).mp he'
  -- A slot with an effect on record has no worker away.
  obtain ⟨y, hy, hid, -, -, hdata⟩ := hk.away f hf
  have hxy : x = y := by
    refine hk.slot_unique hx (Pool.mem_all.mpr (Or.inl hy)) ?_
    rw [hid, ← Flight.had_id hfe, ← Slot.effect_id hxe, hee]
  rw [hxy, Slot.effect_of_none hdata] at hxe
  cases hxe

theorem Kept.had_slot (hk : Kept effect s) {e : κ × T} (he : e ∈ s.had) :
    (∃ f ∈ s.flights, f.id = e.1 ∧ f.effect = some e.2) ∨
      ∃ x ∈ s.all, x.id = e.1 ∧ ∃ d, x.data = some d ∧ effect x.job d = some e.2 := by
  rw [hk.had_eq] at he
  rcases Multiset.mem_add.mp he with he | he
  · obtain ⟨f, hf, hfe⟩ := (Multiset.mem_filterMap _ _).mp he
    obtain ⟨t, ht, rfl⟩ := Option.map_eq_some_iff.mp hfe
    exact Or.inl ⟨f, hf, rfl, ht⟩
  · obtain ⟨x, hx, hxe⟩ := (Multiset.mem_filterMap _ _).mp he
    obtain ⟨t, ht, rfl⟩ := Option.map_eq_some_iff.mp hxe
    obtain ⟨d, hd, hdt⟩ := Option.bind_eq_some_iff.mp ht
    exact Or.inr ⟨x, hx, rfl, d, hd, hdt⟩

theorem Kept.not_had (hk : Kept effect s) {f : Flight κ J T} (hf : f ∈ s.flights)
    (hn : f.effect = none) {e : κ × T} (he : e ∈ s.had) : e.1 ≠ f.id := by
  intro hid
  rcases hk.had_slot he with ⟨g, hg, hgid, ht⟩ | ⟨x, hx, hxid, d, hd, -⟩
  · have hgf : g = f := Multiset.inj_on_of_nodup_map hk.flight_ids g hg f hf (hgid.trans hid)
    rw [hgf, hn] at ht
    cases ht
  · obtain ⟨y, hy, hyid, -, -, hdata⟩ := hk.away f hf
    have hxy := hk.slot_unique hx (Pool.mem_all.mpr (Or.inl hy)) (hxid.trans (hid.trans hyid.symm))
    rw [hxy, hdata] at hd
    cases hd

theorem Kept.away_le (hk : Kept effect s) {F : Multiset (Flight κ J T)} (hF : F ≤ s.flights)
    {P : Slot κ J R → Prop} [DecidablePred P]
    (hP : ∀ f ∈ F, ∀ x ∈ s.slots, x.id = f.id → x.data = none → P x) :
    (F.map fun f => (f.id, f.job)) ≤ (s.slots.filter P).map fun x => (x.id, x.job) := by
  have hids : (F.map Flight.id).Nodup := Multiset.nodup_of_le (Multiset.map_le_map hF) hk.flight_ids
  have hnodup : (F.map fun f => (f.id, f.job)).Nodup := by
    refine Multiset.Nodup.of_map Prod.fst ?_
    rw [Multiset.map_map]
    exact hids
  refine (Multiset.le_iff_subset hnodup).mpr fun e he => ?_
  obtain ⟨f, hf, rfl⟩ := Multiset.mem_map.mp he
  obtain ⟨x, hx, hid, hjob, -, hdata⟩ := hk.away f (Multiset.mem_of_le hF hf)
  refine Multiset.mem_map.mpr ⟨x, Multiset.mem_filter.mpr ⟨hx, hP f hf x hx hid hdata⟩, ?_⟩
  rw [hid, hjob]

theorem Kept.settled_had (hk : Kept effect s) {x : Slot κ J R} (hx : x ∈ s.all) {d : R}
    (hd : x.data = some d) (t : T) : (x.id, t) ∈ s.had ↔ effect x.job d = some t := by
  constructor
  · intro h
    rcases hk.had_slot h with ⟨f, hf, hid, -⟩ | ⟨y, hy, hid, d', hd', he⟩
    · obtain ⟨y, hy, hyid, -, -, hdata⟩ := hk.away f hf
      rw [hk.slot_unique (Pool.mem_all.mpr (Or.inl hy)) hx (hyid.trans hid), hd] at hdata
      cases hdata
    · obtain rfl := hk.slot_unique hy hx hid
      obtain rfl := Option.some.inj (hd.symm.trans hd')
      exact he
  · intro h
    rw [hk.had_eq]
    refine Multiset.mem_add.mpr (Or.inr ((Multiset.mem_filterMap _ _).mpr ⟨x, hx, ?_⟩))
    simp [Slot.effect, hd, h]

/-! ## Locks -/

/-- Each lock is that of a worker who is away. -/
def Manned (s : Pool κ J T R) : Prop :=
  ∀ x ∈ s.slots, x.lock = true → ∃ f ∈ s.flights, f.id = x.id

theorem manned_work (hk : Kept effect s) (hm : Manned s) (h : Work effect s s') : Manned s' := by
  cases h with
  | @launch x t h hf =>
    intro y hy hl
    rcases Multiset.mem_cons.mp hy with rfl | hy
    · exact ⟨_, Multiset.mem_cons_self _ _, rfl⟩
    · obtain ⟨f, hfl, hid⟩ := hm y (by rw [h]; exact Multiset.mem_cons_of_mem hy) hl
      exact ⟨f, Multiset.mem_cons_of_mem hfl, hid⟩
  | @perform f r h hf t =>
    intro y hy hl
    obtain ⟨g, hg, hid⟩ := hm y hy hl
    rw [h] at hg
    rcases Multiset.mem_cons.mp hg with rfl | hg
    · exact ⟨_, Multiset.mem_cons_self _ _, hid⟩
    · exact ⟨g, Multiset.mem_cons_of_mem hg, hid⟩
  | @settle f r x t h hx hid d hd =>
    intro y hy hl
    rcases Multiset.mem_cons.mp hy with rfl | hy
    · cases hl
    · obtain ⟨g, hg, hgid⟩ := hm y (by rw [hx]; exact Multiset.mem_cons_of_mem hy) hl
      rw [h] at hg
      refine ⟨g, (Multiset.mem_cons.mp hg).resolve_left ?_, hgid⟩
      rintro rfl
      -- The other slots have other ids.
      have hids := hk.ids
      simp only [Pool.all, hx, Multiset.cons_add, Multiset.map_cons, Multiset.nodup_cons] at hids
      refine hids.1 (Multiset.mem_map.mpr ⟨y, Multiset.mem_add.mpr (Or.inl hy), ?_⟩)
      exact hgid.symm.trans hid.symm
  | @leave x t h hd =>
    intro y hy hl
    exact hm y (by rw [h]; exact Multiset.mem_cons_of_mem hy) hl

theorem manned_move (hk : Kept effect s) (hm : Manned s) (h : Move effect s s') : Manned s' := by
  cases h with
  | arrive xs hf hn =>
    intro y hy hl
    rcases Multiset.mem_add.mp hy with hy | hy
    · rw [(hf y hy).1] at hl
      cases hl
    · exact hm y hy hl
  | work h => exact manned_work hk hm h

theorem manned_runs (hk : Kept effect s) (hm : Manned s) (h : Runs (Move effect) s s') :
    Manned s' := by
  refine (h.invariant (I := fun s => Kept effect s ∧ Manned s) ?_ ?_).2
  · rintro t rfl
    exact ⟨hk, hm⟩
  · exact fun _ _ _ ih hmove => ⟨kept_move ih.1 hmove, manned_move ih.1 ih.2 hmove⟩

/-! ## Jobs without a result -/

/-- The ids of the jobs that have no result yet. -/
def Pool.unsettled (s : Pool κ J T R) : Multiset κ :=
  (s.slots.filter fun x => x.data.isNone).map Slot.id

theorem Pool.mem_unsettled {s : Pool κ J T R} {id : κ} :
    id ∈ s.unsettled ↔ ∃ x ∈ s.slots, x.data = none ∧ x.id = id := by
  simp only [Pool.unsettled, Multiset.mem_map, Multiset.mem_filter, Option.isNone_iff_eq_none,
    and_assoc]

theorem unsettled_work (hk : Kept effect s) (h : Work effect s s') : s'.unsettled ≤ s.unsettled := by
  cases h with
  | @launch x t h hf =>
    unfold Pool.unsettled
    rw [h, Multiset.filter_cons_of_pos _ (by simp [hf.2]), Multiset.filter_cons_of_pos _
      (by simp [hf.2]), Multiset.map_cons, Multiset.map_cons]
  | perform => exact le_rfl
  | @settle f r x t h hx hid d hd =>
    have hdata := (hk.slot_of_flight (by rw [h]; exact Multiset.mem_cons_self _ _)
      (by rw [hx]; exact Multiset.mem_cons_self _ _) hid).2.2
    have hbefore : s.unsettled = x.id ::ₘ (t.filter fun y => y.data.isNone).map Slot.id := by
      rw [Pool.unsettled, hx, Multiset.filter_cons_of_pos t (by simp [hdata]), Multiset.map_cons]
    rw [hbefore]
    unfold Pool.unsettled
    cases d with
    | none => rw [Multiset.filter_cons_of_pos t (by rfl), Multiset.map_cons]
    | some d =>
      rw [Multiset.filter_cons_of_neg t (by simp)]
      exact Multiset.le_cons_self _ _
  | @leave x t h hd =>
    unfold Pool.unsettled
    rw [h, Multiset.filter_cons_of_neg _ (by cases hx : x.data <;> simp_all)]

theorem unsettled_works (hk : Kept effect s) (h : Runs (Work effect) s s') :
    s'.unsettled ≤ s.unsettled := by
  refine (h.invariant (I := fun t => Kept effect t ∧ t.unsettled ≤ s.unsettled) ?_ ?_).2
  · rintro t rfl
    exact ⟨hk, le_rfl⟩
  · exact fun _ _ _ ih hw => ⟨kept_work ih.1 hw, (unsettled_work ih.1 hw).trans ih.2⟩

theorem slots_work (h : Work effect s s') :
    Multiset.card s'.slots ≤ Multiset.card s.slots := by
  cases h with
  | launch h hf => simp [h]
  | perform => exact le_rfl
  | settle h hx hid d hd => simp [hx]
  | leave h hd => simp [h]

theorem slots_works (h : Runs (Work effect) s s') :
    Multiset.card s'.slots ≤ Multiset.card s.slots :=
  h.invariant (I := fun t => Multiset.card t.slots ≤ Multiset.card s.slots)
    (fun t ht => by rw [ht]) (fun _ _ _ ih hw => (slots_work hw).trans ih)

end Lib.Jobs
