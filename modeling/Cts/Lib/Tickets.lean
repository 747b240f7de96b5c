import Mathlib.Data.List.Nodup
import Mathlib.Logic.Function.Basic

/-!
# Tickets

Each holder asks for a ticket, holds the one it is issued and gives it up when the ticket is settled
or refunded. While a holder works on its ticket it is busy.
-/

namespace Lib.Tickets

variable {κ τ : Type}

inductive Phase (τ : Type)
  | idle
  | waiting
  | held (t : τ) (busy : Bool)

def Phase.ticket : Phase τ → Option τ
  | .held t _ => some t
  | _ => none

@[simp]
theorem Phase.ticket_idle : (.idle : Phase τ).ticket = none := rfl

@[simp]
theorem Phase.ticket_waiting : (.waiting : Phase τ).ticket = none := rfl

@[simp]
theorem Phase.ticket_held (t : τ) (busy : Bool) : (Phase.held t busy).ticket = some t := rfl

structure Desk (κ τ : Type) where
  phase : κ → Phase τ
  issued : List (κ × τ)
  settled : List (κ × τ)
  refunded : List (κ × τ)

def Desk.ticket (d : Desk κ τ) (k : κ) : Option τ := (d.phase k).ticket

/-- Every ticket issued is settled, refunded or held, and a settled one is not held any more. -/
structure Kept (ticket : κ → Option τ) (issued settled refunded : List (κ × τ)) : Prop where
  held_issued : ∀ k t, ticket k = some t → (k, t) ∈ issued
  held_open : ∀ k t, ticket k = some t → t ∉ settled.map Prod.snd
  settled_issued : ∀ e ∈ settled, e ∈ issued
  settled_once : (settled.map Prod.snd).Nodup
  kept : ∀ k t, (k, t) ∈ issued → (k, t) ∈ settled ∨ (k, t) ∈ refunded ∨ ticket k = some t

def Desk.Kept (d : Desk κ τ) : Prop := Tickets.Kept d.ticket d.issued d.settled d.refunded

theorem holder_unique {l : List (κ × τ)} (h : (l.map Prod.snd).Nodup) {k k' : κ} {t : τ}
    (hk : (k, t) ∈ l) (hk' : (k', t) ∈ l) : k = k' :=
  congrArg Prod.fst (List.inj_on_of_nodup_map h hk hk' rfl)

theorem kept_empty : Kept (fun _ => none : κ → Option τ) [] [] [] :=
  ⟨by simp, by simp, by simp, by simp, by simp⟩

variable [DecidableEq κ] {ticket : κ → Option τ} {issued settled refunded : List (κ × τ)}

inductive Move : Desk κ τ → Desk κ τ → Prop
  | stay {d : Desk κ τ} : Move d d
  | ask {d : Desk κ τ} {k : κ} (h : d.phase k = .idle) :
      Move d { d with phase := Function.update d.phase k .waiting }
  | deny {d : Desk κ τ} {k : κ} (h : d.phase k = .waiting) :
      Move d { d with phase := Function.update d.phase k .idle }
  | issue {d : Desk κ τ} {k : κ} (t : τ) (busy : Bool) (h : d.phase k = .waiting) :
      Move d { d with
        phase := Function.update d.phase k (.held t busy), issued := d.issued ++ [(k, t)] }
  | pass {d : Desk κ τ} {k : κ} {t : τ} {busy : Bool} (busy' : Bool) (h : d.phase k = .held t busy) :
      Move d { d with phase := Function.update d.phase k (.held t busy') }
  | settle {d : Desk κ τ} {k : κ} {t : τ} (h : d.phase k = .held t true) :
      Move d { d with phase := Function.update d.phase k .idle, settled := d.settled ++ [(k, t)] }
  | refund {d : Desk κ τ} {k : κ} {t : τ} (h : d.phase k = .held t true) :
      Move d { d with phase := Function.update d.phase k .idle, refunded := d.refunded ++ [(k, t)] }

/-! ## One lemma for each change of the tickets held -/

theorem ticket_update (d : Desk κ τ) (k : κ) (p : Phase τ) :
    ({ d with phase := Function.update d.phase k p } : Desk κ τ).ticket =
      Function.update d.ticket k p.ticket := by
  funext k'
  by_cases hk : k' = k
  · subst hk; simp [Desk.ticket]
  · simp [Desk.ticket, Function.update_of_ne hk]

theorem ticket_update_same (d : Desk κ τ) {k : κ} {p : Phase τ} (h : p.ticket = (d.phase k).ticket) :
    ({ d with phase := Function.update d.phase k p } : Desk κ τ).ticket = d.ticket := by
  rw [ticket_update, h]
  exact Function.update_eq_self _ _

theorem kept_issue (hk : Kept ticket issued settled refunded) {k : κ} {t : τ} (h : ticket k = none)
    (hf : ((issued ++ [(k, t)]).map Prod.snd).Nodup) :
    Kept (Function.update ticket k (some t)) (issued ++ [(k, t)]) settled refunded := by
  have hfresh : t ∉ issued.map Prod.snd := by
    rw [List.map_append, List.nodup_append] at hf
    exact fun hm => hf.2.2 t hm t (by simp) rfl
  have hopen : t ∉ settled.map Prod.snd := by
    intro hm
    obtain ⟨e, he, rfl⟩ := List.mem_map.mp hm
    exact hfresh (List.mem_map_of_mem (hk.settled_issued e he))
  refine ⟨fun k' t' hu => ?_, fun k' t' hu => ?_, fun e he => ?_, hk.settled_once, fun k' t' hi => ?_⟩
  · by_cases hkk : k' = k
    · subst hkk; simp at hu; simp [hu]
    · rw [Function.update_of_ne hkk] at hu
      exact List.mem_append_left _ (hk.held_issued k' t' hu)
  · by_cases hkk : k' = k
    · subst hkk; simp at hu; rwa [← hu]
    · rw [Function.update_of_ne hkk] at hu
      exact hk.held_open k' t' hu
  · exact List.mem_append_left _ (hk.settled_issued e he)
  · rcases List.mem_append.mp hi with hi | hi
    · refine (hk.kept k' t' hi).imp_right (Or.imp_right fun ht => ?_)
      rwa [Function.update_of_ne]
      rintro rfl
      rw [h] at ht
      cases ht
    · obtain ⟨rfl, rfl⟩ : k' = k ∧ t' = t := by simpa using hi
      exact Or.inr (Or.inr (by simp))

theorem kept_close (hk : Kept ticket issued settled refunded) {k : κ} {t : τ}
    (h : ticket k = some t) (hf : (issued.map Prod.snd).Nodup) {settled' refunded' : List (κ × τ)}
    (hc : (settled' = settled ++ [(k, t)] ∧ refunded' = refunded) ∨
      (settled' = settled ∧ refunded' = refunded ++ [(k, t)])) :
    Kept (Function.update ticket k none) issued settled' refunded' := by
  have hs : ∀ e, e ∈ settled' → e ∈ settled ∨ e = (k, t) := by
    rcases hc with ⟨rfl, -⟩ | ⟨rfl, -⟩ <;> simp +contextual
  have hsub : settled ⊆ settled' ∧ refunded ⊆ refunded' := by
    rcases hc with ⟨rfl, rfl⟩ | ⟨rfl, rfl⟩ <;> simp
  have hclosed : (k, t) ∈ settled' ∨ (k, t) ∈ refunded' := by
    rcases hc with ⟨rfl, -⟩ | ⟨-, rfl⟩ <;> simp
  refine ⟨fun k' t' hu => ?_, fun k' t' hu => ?_, fun e he => ?_, ?_, fun k' t' hi => ?_⟩
  · by_cases hkk : k' = k
    · subst hkk; simp at hu
    · rw [Function.update_of_ne hkk] at hu
      exact hk.held_issued k' t' hu
  · by_cases hkk : k' = k
    · subst hkk; simp at hu
    · rw [Function.update_of_ne hkk] at hu
      intro hm
      obtain ⟨e, he, rfl⟩ := List.mem_map.mp hm
      rcases hs e he with he | rfl
      · exact hk.held_open k' _ hu (List.mem_map_of_mem he)
      · exact hkk (holder_unique hf (hk.held_issued k' _ hu) (hk.held_issued k _ h))
  · rcases hs e he with he | rfl
    · exact hk.settled_issued e he
    · exact hk.held_issued k t h
  · rcases hc with ⟨rfl, -⟩ | ⟨rfl, -⟩
    · rw [List.map_append, List.nodup_append]
      refine ⟨hk.settled_once, by simp, fun a ha b hb => ?_⟩
      obtain rfl : b = t := by simpa using hb
      rintro rfl
      exact hk.held_open k a h ha
    · exact hk.settled_once
  · by_cases hkk : k' = k
    · subst hkk
      rcases hk.kept k' t' hi with ht | ht | ht
      · exact Or.inl (hsub.1 ht)
      · exact Or.inr (Or.inl (hsub.2 ht))
      · obtain rfl : t = t' := by rw [h] at ht; exact Option.some.inj ht
        exact hclosed.imp_right Or.inl
    · rw [Function.update_of_ne hkk]
      exact (hk.kept k' t' hi).imp (fun ht => hsub.1 ht) (Or.imp_left fun ht => hsub.2 ht)

theorem kept_move {d d' : Desk κ τ} (hf : (d'.issued.map Prod.snd).Nodup) (hk : d.Kept)
    (h : Move d d') : d'.Kept := by
  cases h with
  | stay => exact hk
  | @ask k hp | @deny k hp =>
    rw [Desk.Kept, ticket_update_same d (by rw [hp]; rfl)]
    exact hk
  | @pass k t busy busy' hp =>
    rw [Desk.Kept, ticket_update_same d (by rw [hp]; rfl)]
    exact hk
  | @issue k t busy hp =>
    have hn : d.ticket k = none := by simp [Desk.ticket, hp]
    have := kept_issue hk hn hf
    rwa [← Phase.ticket_held t busy, ← ticket_update] at this
  | @settle k t hp =>
    have hn : d.ticket k = some t := by simp [Desk.ticket, hp]
    have := kept_close hk hn hf (Or.inl ⟨rfl, rfl⟩)
    rwa [← Phase.ticket_idle, ← ticket_update] at this
  | @refund k t hp =>
    have hn : d.ticket k = some t := by simp [Desk.ticket, hp]
    have := kept_close hk hn hf (Or.inr ⟨rfl, rfl⟩)
    rwa [← Phase.ticket_idle, ← ticket_update] at this

/-! ## Refunded tickets -/

/-- Refunded tickets were issued, and nobody holds one any more. -/
structure Closed (ticket : κ → Option τ) (issued refunded : List (κ × τ)) : Prop where
  refunded_issued : ∀ e ∈ refunded, e ∈ issued
  not_held : ∀ k t, ticket k = some t → (k, t) ∉ refunded

def Desk.Closed (d : Desk κ τ) : Prop := Tickets.Closed d.ticket d.issued d.refunded

theorem closed_issue (hc : Closed ticket issued refunded) {k : κ} {t : τ}
    (hf : ((issued ++ [(k, t)]).map Prod.snd).Nodup) :
    Closed (Function.update ticket k (some t)) (issued ++ [(k, t)]) refunded := by
  refine ⟨fun e he => List.mem_append_left _ (hc.refunded_issued e he), fun k' t' ht hmem => ?_⟩
  by_cases hk : k' = k
  · subst hk
    obtain rfl : t = t' := by simpa using ht
    rw [List.map_append, List.nodup_append] at hf
    exact hf.2.2 t (List.mem_map_of_mem (hc.refunded_issued _ hmem)) t (by simp) rfl
  · rw [Function.update_of_ne hk] at ht
    exact hc.not_held k' t' ht hmem

theorem closed_close (hc : Closed ticket issued refunded) {k : κ} {t : τ} (h : (k, t) ∈ issued)
    {refunded' : List (κ × τ)} (hr : ∀ e ∈ refunded', e ∈ refunded ∨ e = (k, t)) :
    Closed (Function.update ticket k none) issued refunded' := by
  refine ⟨fun e he => ?_, fun k' t' ht hmem => ?_⟩
  · rcases hr e he with he | rfl
    · exact hc.refunded_issued e he
    · exact h
  · by_cases hk : k' = k
    · subst hk
      simp at ht
    · rw [Function.update_of_ne hk] at ht
      rcases hr _ hmem with hmem | heq
      · exact hc.not_held k' t' ht hmem
      · exact hk (congrArg Prod.fst heq)

theorem closed_move {d d' : Desk κ τ} (hf : (d'.issued.map Prod.snd).Nodup) (hk : d.Kept)
    (hc : d.Closed) (h : Move d d') : d'.Closed := by
  cases h with
  | stay => exact hc
  | @ask k hp | @deny k hp =>
    rw [Desk.Closed, ticket_update_same d (by rw [hp]; rfl)]
    exact hc
  | @pass k t busy busy' hp =>
    rw [Desk.Closed, ticket_update_same d (by rw [hp]; rfl)]
    exact hc
  | @issue k t busy hp =>
    have := closed_issue hc hf
    rwa [← Phase.ticket_held t busy, ← ticket_update] at this
  | @settle k t hp =>
    have hn : d.ticket k = some t := by simp [Desk.ticket, hp]
    have := closed_close hc (hk.held_issued k t hn) fun e he => Or.inl he
    rwa [← Phase.ticket_idle, ← ticket_update] at this
  | @refund k t hp =>
    have hn : d.ticket k = some t := by simp [Desk.ticket, hp]
    have hr : ∀ e ∈ d.refunded ++ [(k, t)], e ∈ d.refunded ∨ e = (k, t) := by simp
    have := closed_close hc (hk.held_issued k t hn) hr
    rwa [← Phase.ticket_idle, ← ticket_update] at this

end Lib.Tickets
