import Cts.Lib.Paging

/-!
# Paging through several sources

What is older is in older sources. A client asks one source after another, from the newest, until one has
something under its cursor. A source may also still hold a part of what newer ones hold.
-/

namespace Lib.Sources

open IndexedLog Paging

variable {α : Type} {f : α → Nat} {l later own again older : List α} {sources : List (List α)}

/-! ## The first reply that is not empty -/

/-- A `none` is a source that fails. -/
def firstReply : List (Option (List α)) → Option (List α)
  | [] => some []
  | none :: _ => none
  | some [] :: replies => firstReply replies
  | some (a :: page) :: _ => some (a :: page)

/-- The sources, newest first, hold `l`, each with a part of its own and maybe with some of what comes
later. -/
inductive Covers : List α → List (List α) → List α → Prop
  | nil (later : List α) : Covers later [] []
  | cons {later own again older : List α} {sources : List (List α)} (ha : again ⊆ later)
      (h : Covers (own ++ later) sources older) :
      Covers later ((own ++ again) :: sources) (older ++ own)

theorem Covers.filter (p : α → Bool) (h : Covers later sources l) :
    Covers (later.filter p) (sources.map (List.filter p)) (l.filter p) := by
  induction h with
  | nil => exact .nil _
  | cons ha _ ih =>
    rw [List.map_cons, List.filter_append, List.filter_append]
    rw [List.filter_append] at ih
    refine .cons (fun a hmem => ?_) ih
    rw [List.mem_filter] at hmem ⊢
    exact hmem.imp_left fun hmem => ha hmem

theorem Covers.snoc (h : Covers later sources l) (ha : again ⊆ l ++ later) :
    Covers later (sources ++ [own ++ again]) (own ++ l) := by
  induction h with
  | nil later =>
    rw [List.nil_append] at ha
    rw [List.append_nil]
    exact .cons ha (.nil (own ++ later))
  | @cons later own' again' older sources ha' _ ih =>
    rw [List.cons_append, ← List.append_assoc]
    refine .cons ha' (ih ?_)
    intro a hmem
    simpa [or_assoc] using ha hmem

/-- A page of a source: the newest elements under the start, if there are any. -/
def Replies (f : α → Nat) (start : Option Nat) (source : List α) (reply : Option (List α)) : Prop :=
  ∃ n, 0 < n ∧ reply = some (newest n (under f source start))

theorem newest_eq_nil_iff {n : Nat} (hn : 0 < n) : newest n l = [] ↔ l = [] := by
  unfold newest
  rw [List.drop_eq_nil_iff]
  constructor
  · intro h
    exact List.eq_nil_of_length_eq_zero (by omega)
  · rintro rfl
    simp

theorem under_append (l l' : List α) (start : Option Nat) :
    under f (l ++ l') start = under f l start ++ under f l' start := by
  cases start with
  | none => rfl
  | some start => exact List.filter_append _ _

theorem under_filter (p : α → Bool) (start : Option Nat) :
    under f (l.filter p) start = (under f l start).filter p := by
  cases start with
  | none => rfl
  | some start => exact List.filter_comm _ _ _

theorem under_map {β : Type} {f : β → Nat} {k : α → Nat} {g : α → β}
    (h : ∀ a ∈ l, f (g a) = k a) (start : Option Nat) :
    under f (l.map g) start = (under k l start).map g := by
  cases start with
  | none => rfl
  | some start =>
    change (l.map g).filter (fun b => f b < start) = (l.filter fun a => k a < start).map g
    rw [List.filter_map]
    congr 1
    apply List.filter_congr
    intro a ha
    rw [Function.comp_apply, h a ha]

theorem under_subset (h : again ⊆ later) (start : Option Nat) (hl : under f later start = []) :
    under f again start = [] := by
  cases start with
  | none =>
    obtain rfl : later = [] := hl
    exact List.subset_nil.mp h
  | some start =>
    refine List.filter_eq_nil_iff.mpr fun a ha => ?_
    exact List.filter_eq_nil_iff.mp hl a (h ha)

theorem firstReply_eq (h : Covers later sources l) {start : Option Nat}
    {replies : List (Option (List α))} (hl : under f later start = [])
    (hr : List.Forall₂ (Replies f start) sources replies) :
    ∃ page, firstReply replies = some page ∧ page <:+ under f l start ∧
      (page = [] → under f l start = []) := by
  induction h generalizing replies with
  | nil =>
    cases hr
    refine ⟨[], rfl, List.nil_suffix, fun _ => ?_⟩
    cases start <;> rfl
  | @cons later own again older sources ha _ ih =>
    cases hr with
    | @cons _ reply _ replies hreply hrest =>
      obtain ⟨n, hn, rfl⟩ := hreply
      rw [under_append, under_append, under_subset ha start hl, List.append_nil]
      cases hpage : newest n (under f own start) with
      | nil =>
        have hnone := (newest_eq_nil_iff hn).mp hpage
        rw [hnone, List.append_nil]
        apply ih _ hrest
        rw [under_append, hnone, hl]
        rfl
      | cons a page =>
        refine ⟨a :: page, rfl, ?_, fun hnil => absurd hnil (List.cons_ne_nil _ _)⟩
        rw [← hpage]
        exact (List.drop_suffix _ _).trans (List.suffix_append _ _)

/-! ## Page after page -/

/-- What a client makes of a reply: an empty one is the last. -/
def pageOf (reply : Option (List α)) : Page α := ⟨reply.getD [], reply.any List.isEmpty⟩

/-- The starts that a client gets to. -/
def Start (f : α → Nat) (l : List α) (start : Option Nat) : Prop :=
  ∀ k ∈ start, ∃ a ∈ l, f a = k

/-- The pages of a client that goes on under the first element of each, from the last to the first, are
all that there is. -/
theorem pages_complete (hl : SortedBy f l) {read : Option Nat → Option (List α)}
    (h : ∀ start, Start f l start → ∃ page, read start = some page ∧ page <:+ under f l start ∧
      (page = [] → under f l start = [])) {start : Option Nat} (hstart : Start f l start) :
    ∃ pages, Chain (fun start => pageOf (read start)) (firstKey f) start pages ∧
      pages.reverse.flatten = under f l start := by
  induction hlen : (under f l start).length using Nat.strongRecOn generalizing start with
  | ind n ih =>
    obtain ⟨page, hread, hsuffix, hnil⟩ := h start hstart
    cases page with
    | nil =>
      refine ⟨[[]], ?_, (hnil rfl).symm⟩
      have hlast : (pageOf (read start)).is_last = true := by rw [hread]; rfl
      have hitems : (pageOf (read start)).items = [] := by rw [hread]; rfl
      rw [← hitems]
      exact .last hlast
    | cons a page =>
      obtain ⟨rest, hrest⟩ := hsuffix
      have hmem : a ∈ under f l start := by
        rw [← hrest]
        simp
      have hget : (under f l start)[rest.length]? = some a := by
        rw [← hrest]
        simp
      have hsorted : SortedBy f (under f l start) := List.Pairwise.sublist ((under_sublist _).map f) hl
      have hunder : under f l (some (f a)) = rest := by
        rw [under_of_mem hmem, SortedBy.filter_lt hsorted hget, ← hrest, List.take_left']
        rfl
      have hnext : Start f l (some (f a)) := by
        rintro k hk
        obtain rfl := Option.mem_some_iff.mp hk
        exact ⟨a, (under_sublist _).subset hmem, rfl⟩
      have hlt : rest.length < n := by
        rw [← hlen, ← hrest]
        simp
      obtain ⟨pages, hpages, hflat⟩ := ih rest.length hlt hnext (by rw [hunder])
      have hmore : (pageOf (read start)).is_last = false := by rw [hread]; rfl
      have hitems : (pageOf (read start)).items = a :: page := by rw [hread]; rfl
      refine ⟨(a :: page) :: pages, ?_, ?_⟩
      · rw [← hitems]
        exact .more hmore (by rw [hitems]; rfl) hpages
      · rw [List.reverse_cons, List.flatten_append, List.flatten_singleton, hflat, hunder, hrest]

end Lib.Sources
