/-!
# Runs of a transition system

What holds at the start and is kept by every step holds of every reachable state. The step case
may use that its state is reachable, so invariants build on one another.
-/

namespace Lib

variable {σ : Type} {init : σ → Prop} {step : σ → σ → Prop}

inductive Reachable (init : σ → Prop) (step : σ → σ → Prop) : σ → Prop
  | start {s : σ} (h : init s) : Reachable init step s
  | next {s s' : σ} (r : Reachable init step s) (h : step s s') : Reachable init step s'

theorem Reachable.invariant {I : σ → Prop} (h0 : ∀ s, init s → I s)
    (hs : ∀ s s', Reachable init step s → I s → step s s' → I s') {s : σ}
    (r : Reachable init step s) : I s := by
  induction r with
  | start h => exact h0 _ h
  | next r h ih => exact hs _ _ r ih h

/-- An assumption `P` about the whole run that a state's history records: once broken it stays
broken, so it may be assumed at both ends of every step. -/
theorem Reachable.invariant_while {P I : σ → Prop} (back : ∀ s s', step s s' → P s' → P s)
    (h0 : ∀ s, init s → P s → I s)
    (hs : ∀ s s', Reachable init step s → P s → P s' → I s → step s s' → I s') {s : σ}
    (r : Reachable init step s) (hP : P s) : I s := by
  induction r with
  | start h => exact h0 _ h hP
  | next r h ih => exact hs _ _ r (back _ _ h hP) hP (ih (back _ _ h hP)) h

theorem Reachable.mono {step' : σ → σ → Prop} (h : ∀ s s', step s s' → step' s s') {s : σ}
    (r : Reachable init step s) : Reachable init step' s := by
  induction r with
  | start h0 => exact .start h0
  | next _ hs ih => exact .next ih (h _ _ hs)

/-- Runs that start at a given state. -/
abbrev Runs (step : σ → σ → Prop) (s : σ) : σ → Prop := Reachable (fun t => t = s) step

theorem Reachable.trans {s t : σ} (r : Reachable init step s) (q : Runs step s t) :
    Reachable init step t := by
  induction q with
  | start h => subst h; exact r
  | next _ h ih => exact .next ih h

/-- Where something is left, a run leads to where less is left. So a run leads to where nothing is. -/
theorem runs_to_zero {I : σ → Prop} (left : σ → Nat)
    (h : ∀ s, I s → left s ≠ 0 → ∃ t, Runs step s t ∧ I t ∧ left t < left s) {s : σ} (hs : I s) :
    ∃ t, Runs step s t ∧ I t ∧ left t = 0 := by
  induction hn : left s using Nat.strongRecOn generalizing s with
  | ind n ih =>
    by_cases hz : left s = 0
    · exact ⟨s, .start rfl, hs, hz⟩
    · obtain ⟨t, hst, ht, hlt⟩ := h s hs hz
      obtain ⟨u, htu, hu, hzero⟩ := ih (left t) (hn ▸ hlt) ht rfl
      exact ⟨u, hst.trans htu, hu, hzero⟩

/-- A script of steps that may stop keeps what each of its steps keeps. -/
theorem kept_by_script {ε : Type} {play : σ → ε → Option σ} {I : σ → Prop}
    (hplay : ∀ s e s', I s → play s e = some s' → I s') {events : List ε} {s s' : σ} (h0 : I s)
    (h : events.foldlM play s = some s') : I s' := by
  induction events generalizing s with
  | nil =>
    obtain rfl := Option.some.inj h
    exact h0
  | cons e events ih =>
    rw [List.foldlM_cons] at h
    obtain ⟨t, ht, h⟩ := Option.bind_eq_some_iff.mp h
    exact ih (hplay s e t h0 ht) h

theorem end_of_script {ε : Type} {play : σ → ε → Option σ} {events : List ε} {s : σ}
    (h : (events.foldlM play s).isSome = true) :
    events.foldlM play s = some ((events.foldlM play s).getD s) := by
  obtain ⟨t, ht⟩ := Option.isSome_iff_exists.mp h
  rw [ht]
  rfl

end Lib
