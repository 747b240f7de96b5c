import Cts.Bank.Books
import Cts.Lib.Paging

/-!
# The history of an account

What appends to the log appends to the index in the same message, for every account that the log
names.
-/

namespace Cts.Bank

open Lib Lib.IndexedLog

/-! ## Reading -/

def LOGS_CHUNK_SIZE : Nat := (1 * 1024 * 1024 + 512 * 1024) / 400

structure GetLogsBackwardsSponse where
  logs : List (Nat × Log)
  is_last_chunk : Bool
  deriving DecidableEq

def GetLogsBackwardsSponse.page (sponse : GetLogsBackwardsSponse) : Paging.Page (Nat × Log) :=
  ⟨sponse.logs, sponse.is_last_chunk⟩

/-- The loop over the heights. A height that the log does not have is a trap. -/
def get_logs (logs : List Log) (heights : List Nat) : Option (List (Nat × Log)) :=
  heights.mapM fun block_height => (logs[block_height]?).map fun log => (block_height, log)

/-- The end of the heights before the start, which is cut to 32 bits. -/
def till_start_before_block (list : List Nat) : Option Nat → Nat
  | none => list.length
  | some start_before_block => searchPoint list (Word.wrap 32 start_before_block) id

def get_logs_backwards (b : BankState) (icrc_id : IcrcId) (opt_start_before_block : Option Nat) :
    Option GetLogsBackwardsSponse :=
  match b.user_logs_pointers.get icrc_id.account with
  | none => some { logs := [], is_last_chunk := true }
  | some list =>
    let end_i := till_start_before_block list opt_start_before_block
    let start_i := end_i - LOGS_CHUNK_SIZE
    (get_logs b.logs ((list.take end_i).drop start_i)).map fun v =>
      { logs := v, is_last_chunk := start_i = 0 }

/-- The accounts that a log names as `from` or `to`. -/
def Log.accounts (log : Log) : List Account :=
  match log.tx.op with
  | .Mint «to» _ => [«to».account]
  | .Burn «from» _ => [«from».account]
  | .Xfer «from» «to» => [«from».account, «to».account]

/-- The entry of an account. An account without an entry has no heights. -/
def pointersAt (b : BankState) (a : Account) : List Nat := (b.user_logs_pointers.get a).getD []

/-! ## Messages -/

/-- The log and the pointers are the same. -/
def SameHistory (b b' : BankState) : Prop :=
  b'.logs = b.logs ∧ b'.user_logs_pointers = b.user_logs_pointers

/-- One log more, and its height for each account that it names. -/
structure Appends (log : Log) (b b' : BankState) : Prop where
  logs : b'.logs = b.logs ++ [log]
  pointers : ∀ a, pointersAt b' a =
    pointersAt b a ++ if a ∈ log.accounts then [Word.wrap 32 b.logs.length] else []

/-- At most one log more. -/
def Appended (b b' : BankState) : Prop := SameHistory b b' ∨ ∃ log, Appends log b b'

variable {b b' b'' : BankState}

theorem SameHistory.appended (h : SameHistory b b') (h' : Appended b' b'') : Appended b b'' := by
  obtain ⟨hlogs, hpointers⟩ := h
  rcases h' with ⟨hlogs', hpointers'⟩ | ⟨log, hlogs', hpointers'⟩
  · exact Or.inl ⟨hlogs'.trans hlogs, hpointers'.trans hpointers⟩
  · refine Or.inr ⟨log, ?_, fun a => ?_⟩
    · rw [hlogs', hlogs]
    · rw [hpointers', hlogs, pointersAt, hpointers]
      rfl

theorem add_cycles_balance_history (b : BankState) (i : IcrcId) (n : Nat) :
    SameHistory b (add_cycles_balance b i n) := by
  cases b
  exact ⟨rfl, rfl⟩

theorem subtract_cycles_balance_history (b : BankState) (i : IcrcId) (n : Nat) :
    SameHistory b (subtract_cycles_balance b i n) := by
  cases b
  exact ⟨rfl, rfl⟩

theorem insert_mint_history (b : BankState) (u : Principal) (d : MintCyclesMidCallData) :
    SameHistory b (insert_mint b u d) := by
  cases b
  exact ⟨rfl, rfl⟩

theorem remove_mint_history (b : BankState) (u : Principal) : SameHistory b (remove_mint b u) := by
  cases b
  exact ⟨rfl, rfl⟩

theorem point_log_pointers (b : BankState) (i : IcrcId) (height : Nat) (a : Account) :
    pointersAt (point_log b i height) a =
      pointersAt b a ++ if a = i.account then [Word.wrap 32 height] else [] := by
  unfold pointersAt point_log
  rw [OrdMap.get_insert]
  split_ifs with h
  · rw [h, Option.getD_some]
  · rw [List.append_nil]

theorem push_log_appends (b : BankState) {log : Log} {i : IcrcId} (h : log.accounts = [i.account]) :
    Appends log b (point_log (push_log b log).2 i (push_log b log).1) := by
  refine ⟨rfl, fun a => ?_⟩
  rw [point_log_pointers, h]
  simp only [List.mem_singleton]
  rfl

/-- A log that names two. For a transfer within one account its height is there once. -/
theorem push_log_appends_two (b : BankState) {log : Log} {i j : IcrcId}
    (h : log.accounts = [i.account, j.account]) :
    Appends log b (if j.account ≠ i.account then
        point_log (point_log (push_log b log).2 i (push_log b log).1) j (push_log b log).1
      else point_log (push_log b log).2 i (push_log b log).1) := by
  have hpush (a : Account) : pointersAt (push_log b log).2 a = pointersAt b a := rfl
  have hheight : (push_log b log).1 = b.logs.length := rfl
  split_ifs with hne
  · refine ⟨rfl, fun a => ?_⟩
    rw [point_log_pointers, point_log_pointers, hpush, hheight, h, List.append_assoc]
    congr 1
    by_cases ha : a = i.account
    · subst ha
      simp [Ne.symm hne]
    · simp [ha]
  · refine ⟨rfl, fun a => ?_⟩
    rw [point_log_pointers, hpush, hheight, h, not_not.mp hne]
    simp

theorem icrc1_transfer_appended {caller : Principal} {now height : Nat} {q : Icrc1TransferQuest}
    (h : icrc1_transfer caller now q b = .ok (height, b')) : Appended b b' := by
  rw [icrc1_transfer] at h
  iterate 4
    split at h
    · cases h
  cases h
  apply (subtract_cycles_balance_history b _ _).appended
  apply (add_cycles_balance_history _ q.to q.amount).appended
  exact Or.inr ⟨_, push_log_appends_two _ rfl⟩

theorem cycles_in_appended {caller : Principal} {now available height : Nat} {q : CyclesInQuest}
    (h : cycles_in caller now available q b = .ok (height, b')) : Appended b b' := by
  rw [cycles_in] at h
  iterate 4
    split at h
    · cases h
  cases h
  apply (add_cycles_balance_history b q.to q.cycles).appended
  exact Or.inr ⟨_, push_log_appends _ rfl⟩

theorem cycles_out_same {caller : Principal} {now : Nat} {q : CyclesOutQuest} {c : CyclesOutCall}
    (h : cycles_out caller now q b = .ok (c, b')) : SameHistory b b' := by
  obtain ⟨-, -, rfl⟩ := cycles_out_ok h
  exact subtract_cycles_balance_history b _ _

theorem cycles_out_reply_appended (c : CyclesOutCall) (r : Except CallError Unit) (now : Nat)
    (b : BankState) : Appended b (cycles_out_reply c r now b).2 := by
  cases r with
  | ok => exact Or.inr ⟨_, push_log_appends b rfl⟩
  | error e => exact Or.inl (add_cycles_balance_history b _ _)

theorem MintPiece.appended {user_id : Principal} {d : MintCyclesMidCallData}
    {r : BankState × MintProgress} (h : MintPiece user_id d b r) : Appended b r.1 := by
  cases h with
  | trapped | called => exact Or.inl ⟨rfl, rfl⟩
  | unlocked => exact Or.inl (insert_mint_history b user_id _)
  | removed => exact Or.inl (remove_mint_history b user_id)
  | credited cmc_cycles icp_block_height now hb hlog _ =>
    subst hb hlog
    apply (add_cycles_balance_history b d.quest.to _).appended
    apply (remove_mint_history _ user_id).appended
    exact Or.inr ⟨_, push_log_appends _ rfl⟩

/-! ## Runs -/

def BankSystem.clear (s : BankSystem) : BankSystem :=
  { s with bank := controller_clear_user_logs_pointers_cache s.bank }

theorem BankStep.appended {id : Principal} {s s' : BankSystem} (h : BankStep id s s') :
    Appended s.bank s'.bank ∨ s' = s.clear := by
  cases h with
  | icrc1_transfer h => exact Or.inl (icrc1_transfer_appended h)
  | cycles_in _ _ h => exact Or.inl (cycles_in_appended h)
  | cycles_out _ h => exact Or.inl (Or.inl (cycles_out_same h))
  | cycles_out_deposited | cycles_out_failed => exact Or.inl (cycles_out_reply_appended _ _ _ _)
  | mint_cycles h =>
    obtain ⟨-, d, args, -, -, -, rfl⟩ := mint_cycles_ok h
    exact Or.inl (Or.inl (insert_mint_history _ _ _))
  | complete_mint_cycles h =>
    obtain ⟨d, -, -, rfl⟩ := complete_mint_cycles_ok h
    exact Or.inl ((insert_mint_history _ _ _).appended (mint_cycles_piece _ _ _ _ _ _).appended)
  | icp_transfer_refused | icp_transferred =>
    obtain ⟨d, -, hpiece⟩ := mint_cycles_transferred_piece _ _ _ _ _ _
    exact Or.inl hpiece.appended
  | cmc_answered =>
    obtain ⟨d, -, hpiece⟩ := mint_cycles_notified_piece _ _ _ _
    exact Or.inl hpiece.appended
  | cmc_top_up => exact Or.inl (Or.inl ⟨rfl, rfl⟩)
  | clear_user_logs_pointers_cache => exact Or.inr rfl

/-- A step of the bank, with how many blocks there were when the pointers were last cleared. -/
inductive SinceStep (id : Principal) : BankSystem × Nat → BankSystem × Nat → Prop
  | cleared {s : BankSystem} {since : Nat} :
      SinceStep id (s, since) (s.clear, s.bank.logs.length)
  | other {s s' : BankSystem} {since : Nat} (h : BankStep id s s') (hother : s' ≠ s.clear) :
      SinceStep id (s, since) (s', since)

abbrev BankReachableSince (id : Principal) (held : Nat) (s : BankSystem) (since : Nat) : Prop :=
  Reachable (fun w : BankSystem × Nat => bankInit held w.1 ∧ w.2 = 0) (SinceStep id) (s, since)

/-- Every run of the bank is one of these. -/
theorem bank_reachable_since {id : Principal} {held : Nat} {s : BankSystem} :
    BankReachable id held s ↔ ∃ since, BankReachableSince id held s since := by
  constructor
  · intro r
    induction r with
    | start h => exact ⟨0, .start ⟨h, rfl⟩⟩
    | @next s s' _ h ih =>
      obtain ⟨since, hsince⟩ := ih
      by_cases hclear : s' = s.clear
      · subst hclear
        exact ⟨_, .next hsince .cleared⟩
      · exact ⟨since, .next hsince (.other h hclear)⟩
  · rintro ⟨since, r⟩
    refine r.invariant (I := fun w => BankReachable id held w.1) ?_ ?_
    · rintro w ⟨h, -⟩
      exact .start h
    · rintro w w' - hr h
      cases h with
      | cleared => exact .next hr .clear_user_logs_pointers_cache
      | other h _ => exact .next hr h

/-- The logs from a height on. -/
def recent (since : Nat) (logs : List Log) : Store Log :=
  { first := since, logs := logs.drop since }

/-- The pointers are the index of the logs since the last clearing. -/
structure Pointed (b : BankState) (since : Nat) : Prop where
  since_le : since ≤ b.logs.length
  pointers : ∀ a, pointersAt b a = (recent since b.logs).byKey Log.accounts a

theorem Pointed.append {since : Nat} {log : Log} (h : Pointed b since) (happ : Appends log b b')
    (hblocks : b'.logs.length < 2 ^ 32) : Pointed b' since := by
  have hlen : b'.logs.length = b.logs.length + 1 := by
    rw [happ.logs, List.length_append, List.length_singleton]
  have hnext : (recent since b.logs).next = b.logs.length := by
    unfold recent Store.next
    rw [List.length_drop, Nat.add_sub_of_le h.since_le]
  have hrecent : recent since b'.logs = { recent since b.logs with
      logs := (recent since b.logs).logs ++ [log] } := by
    unfold recent
    rw [happ.logs, List.drop_append_of_le_length h.since_le]
  constructor
  · exact h.since_le.trans (by omega)
  · intro a
    rw [happ.pointers, hrecent, Store.byKey_push, hnext, h.pointers, Word.wrap_of_lt (by omega)]

theorem Pointed.same {since : Nat} (h : Pointed b since) (hsame : SameHistory b b') :
    Pointed b' since := by
  obtain ⟨hlogs, hpointers⟩ := hsame
  constructor
  · rw [hlogs]
    exact h.since_le
  · intro a
    rw [pointersAt, hpointers, hlogs]
    exact h.pointers a

theorem pointed_clear (b : BankState) :
    Pointed (controller_clear_user_logs_pointers_cache b) b.logs.length := by
  refine ⟨le_rfl, fun a => ?_⟩
  have hrecent : recent b.logs.length b.logs = { first := b.logs.length, logs := [] } := by
    unfold recent
    rw [List.drop_length]
  exact (congrArg (Store.byKey Log.accounts a) hrecent).symm

theorem SinceStep.blocks_le {id : Principal} {w w' : BankSystem × Nat} (h : SinceStep id w w') :
    w.1.bank.logs.length ≤ w'.1.bank.logs.length := by
  cases h with
  | cleared => exact le_rfl
  | other h hother =>
    rcases h.appended with (⟨hlogs, -⟩ | ⟨log, happ⟩) | hclear
    · exact (congrArg List.length hlogs).ge
    · simp [happ.logs]
    · exact absurd hclear hother

theorem pointed_step {id : Principal} {w w' : BankSystem × Nat} (h : Pointed w.1.bank w.2)
    (hblocks : w'.1.bank.logs.length < 2 ^ 32) (hstep : SinceStep id w w') :
    Pointed w'.1.bank w'.2 := by
  cases hstep with
  | @cleared s since => exact pointed_clear s.bank
  | other hstep hother =>
    rcases hstep.appended with (hsame | ⟨log, happ⟩) | hclear
    · exact h.same hsame
    · exact h.append happ hblocks
    · exact absurd hclear hother

theorem pointed {id : Principal} {held : Nat} {s : BankSystem} {since : Nat}
    (r : BankReachableSince id held s since) (hblocks : s.bank.logs.length < 2 ^ 32) :
    Pointed s.bank since := by
  refine r.invariant_while (P := fun w => w.1.bank.logs.length < 2 ^ 32)
    (I := fun w => Pointed w.1.bank w.2) ?_ ?_ ?_ hblocks
  · intro w w' hstep hlt
    exact hstep.blocks_le.trans_lt hlt
  · rintro ⟨s, since⟩ ⟨rfl, rfl⟩ -
    exact pointed_clear .new
  · intro w w' _ _ hlt h hstep
    exact pointed_step h hlt hstep

/-! ## Pages -/

theorem get_logs_eq {logs : List Log} {history : List (Nat × Log)}
    (h : ∀ e ∈ history, logs[e.1]? = some e.2) : get_logs logs (history.map Prod.fst) = some history := by
  unfold get_logs
  induction history with
  | nil => rfl
  | cons e history ih =>
    have hhead := h e List.mem_cons_self
    have htail := ih fun e' he' => h e' (List.mem_cons_of_mem _ he')
    rw [List.map_cons, List.mapM_cons, hhead, htail]
    rfl

theorem exists_history {logs : List Log} {heights : List Nat}
    (h : ∀ height ∈ heights, ∃ log, logs[height]? = some log) :
    ∃ history : List (Nat × Log), history.map Prod.fst = heights ∧
      ∀ e ∈ history, logs[e.1]? = some e.2 := by
  induction heights with
  | nil => exact ⟨[], rfl, by simp⟩
  | cons height heights ih =>
    obtain ⟨log, hlog⟩ := h height List.mem_cons_self
    obtain ⟨history, rfl, hhistory⟩ := ih fun x hx => h x (List.mem_cons_of_mem _ hx)
    exact ⟨(height, log) :: history, rfl, List.forall_mem_cons.mpr ⟨hlog, hhistory⟩⟩

theorem till_start_le (list : List Nat) (start : Option Nat) :
    till_start_before_block list start ≤ list.length := by
  cases start with
  | none => exact le_rfl
  | some start => exact searchPoint_le _ _ _

theorem take_till_start {history : List (Nat × Log)} (h : SortedBy Prod.fst history)
    (start : Option Nat) :
    (history.map Prod.fst).take (till_start_before_block (history.map Prod.fst) start) =
      (Paging.under Prod.fst history (start.map (Word.wrap 32))).map Prod.fst := by
  have hsorted : SortedBy id (history.map Prod.fst) := by
    unfold SortedBy
    rw [List.map_id]
    exact h
  cases start with
  | none => exact List.take_length
  | some start =>
    rw [till_start_before_block, hsorted.take_searchPoint, List.filter_map]
    rfl

theorem get_logs_backwards_eq {i : IcrcId} {history : List (Nat × Log)}
    (hpointers : pointersAt b i.account = history.map Prod.fst) (hsorted : SortedBy Prod.fst history)
    (hlogs : ∀ e ∈ history, b.logs[e.1]? = some e.2) (start : Option Nat) :
    let before := Paging.under Prod.fst history (start.map (Word.wrap 32))
    get_logs_backwards b i start = some
      { logs := newest LOGS_CHUNK_SIZE before
        is_last_chunk := before.length ≤ LOGS_CHUNK_SIZE } := by
  intro before
  unfold get_logs_backwards
  unfold pointersAt at hpointers
  cases hget : b.user_logs_pointers.get i.account with
  | none =>
    rw [hget, Option.getD_none] at hpointers
    obtain rfl : history = [] := List.map_eq_nil_iff.mp hpointers.symm
    have hbefore : before = [] := by cases start <;> rfl
    rw [hbefore, newest_of_length_le (Nat.zero_le _)]
    simp
  | some list =>
    rw [hget, Option.getD_some] at hpointers
    subst hpointers
    have htake := take_till_start hsorted start
    have hlen : till_start_before_block (history.map Prod.fst) start = before.length := by
      have hle := till_start_le (history.map Prod.fst) start
      have := congrArg List.length htake
      rwa [List.length_take, Nat.min_eq_left hle, List.length_map] at this
    have hchunk : (before.map Prod.fst).drop (before.length - LOGS_CHUNK_SIZE) =
        (newest LOGS_CHUNK_SIZE before).map Prod.fst := by
      rw [← newest_map, newest, List.length_map]
    have hread : get_logs b.logs ((newest LOGS_CHUNK_SIZE before).map Prod.fst) =
        some (newest LOGS_CHUNK_SIZE before) := by
      apply get_logs_eq
      intro e he
      exact hlogs e ((Paging.under_sublist _).subset (List.mem_of_mem_drop he))
    simp only [htake]
    rw [hlen, hchunk, hread, Option.map_some]
    simp only [Nat.sub_eq_zero_iff_le]

/-- The pages of the history, newest first. -/
def historyPage (history : List (Nat × Log)) (start : Option Nat) : Paging.Page (Nat × Log) :=
  let before := Paging.under Prod.fst history (start.map (Word.wrap 32))
  ⟨newest LOGS_CHUNK_SIZE before, before.length ≤ LOGS_CHUNK_SIZE⟩

theorem historyPage_descends {history : List (Nat × Log)} (h : ∀ e ∈ history, e.1 < 2 ^ 32) :
    Paging.Descends Prod.fst history LOGS_CHUNK_SIZE (Word.wrap 32) (historyPage history) := by
  constructor
  · intro e he
    exact Word.wrap_of_lt (h e he)
  · intro start
    unfold historyPage
    simp only
  · intro start
    unfold historyPage
    simp only [decide_eq_true_eq]

/-- The pointers of an account are the heights of the logs that name it, and the pages of a client
are these logs. -/
structure HistoryComplete (b : BankState) (since : Nat) (i : IcrcId) : Prop where
  sorted : (pointersAt b i.account).Pairwise (· < ·)
  heights : ∀ height, height ∈ pointersAt b i.account ↔
    since ≤ height ∧ ∃ log, b.logs[height]? = some log ∧ i.account ∈ log.accounts
  pages : ∃ view : Option Nat → Paging.Page (Nat × Log),
    (∀ start, (get_logs_backwards b i start).map GetLogsBackwardsSponse.page = some (view start)) ∧
    (∃ pages, Paging.Chain view (Paging.firstKey Prod.fst) none pages) ∧
    ∀ pages, Paging.Chain view (Paging.firstKey Prod.fst) none pages →
      SortedBy Prod.fst pages.reverse.flatten ∧
      ∀ height log, (height, log) ∈ pages.reverse.flatten ↔
        since ≤ height ∧ b.logs[height]? = some log ∧ i.account ∈ log.accounts

theorem Pointed.mem {since height : Nat} (h : Pointed b since) (a : Account) :
    height ∈ pointersAt b a ↔
      since ≤ height ∧ ∃ log, b.logs[height]? = some log ∧ a ∈ log.accounts := by
  have hget {log : Log} : (recent since b.logs).get height = some log ↔
      since ≤ height ∧ b.logs[height]? = some log := by
    unfold recent Store.get
    simp only [List.getElem?_drop]
    split_ifs with hlt
    · simp [hlt]
    · rw [Nat.add_sub_of_le (not_lt.mp hlt)]
      simp [not_lt.mp hlt]
  rw [h.pointers, Store.mem_byKey]
  simp only [hget]
  tauto

theorem Pointed.pairwise {since : Nat} (h : Pointed b since) (a : Account) :
    (pointersAt b a).Pairwise (· < ·) := by
  rw [h.pointers]
  exact Store.byKey_pairwise _ _ _

theorem Pointed.history {since : Nat} (h : Pointed b since) (a : Account) :
    ∃ history : List (Nat × Log), history.map Prod.fst = pointersAt b a ∧
      SortedBy Prod.fst history ∧ (∀ e ∈ history, b.logs[e.1]? = some e.2) ∧
      ∀ height log, (height, log) ∈ history ↔
        since ≤ height ∧ b.logs[height]? = some log ∧ a ∈ log.accounts := by
  obtain ⟨history, hheights, hlogs⟩ := exists_history fun height hmem =>
    have ⟨log, hlog, _⟩ := ((h.mem a).mp hmem).2
    ⟨log, hlog⟩
  refine ⟨history, hheights, ?_, hlogs, fun height log => ⟨fun he => ?_, ?_⟩⟩
  · unfold SortedBy
    rw [hheights]
    exact h.pairwise a
  · have hlog := hlogs _ he
    have hheight : height ∈ pointersAt b a := hheights ▸ List.mem_map_of_mem he
    obtain ⟨hsince, log', hlog', haccount⟩ := (h.mem a).mp hheight
    obtain rfl := Option.some.inj (hlog.symm.trans hlog')
    exact ⟨hsince, hlog, haccount⟩
  · rintro ⟨hsince, hlog, haccount⟩
    have hheight := (h.mem a).mpr ⟨hsince, log, hlog, haccount⟩
    rw [← hheights] at hheight
    obtain ⟨⟨height', log'⟩, he, rfl⟩ := List.mem_map.mp hheight
    obtain rfl := Option.some.inj ((hlogs _ he).symm.trans hlog)
    exact he

/-- The history of an account is complete. -/
theorem account_history_is_complete {id : Principal} {held : Nat} {s : BankSystem} {since : Nat}
    (r : BankReachableSince id held s since) (hblocks : s.bank.logs.length < 2 ^ 32) (i : IcrcId) :
    HistoryComplete s.bank since i := by
  have h := pointed r hblocks
  obtain ⟨history, hheights, hsorted, hlogs, hmem⟩ := h.history i.account
  have hview : Paging.Descends Prod.fst history LOGS_CHUNK_SIZE (Word.wrap 32)
      (historyPage history) := by
    apply historyPage_descends
    intro e he
    exact (List.getElem?_eq_some_iff.mp (hlogs e he)).1.trans hblocks
  obtain ⟨all, hall, hflatten⟩ := hview.complete hsorted (by decide) none
  refine ⟨h.pairwise i.account, fun height => h.mem i.account, historyPage history, ?_, ⟨all, hall⟩, ?_⟩
  · intro start
    rw [get_logs_backwards_eq hheights.symm hsorted hlogs start, Option.map_some]
    unfold GetLogsBackwardsSponse.page historyPage
    simp only
  · intro pages hpages
    rw [hpages.unique hall, hflatten]
    exact ⟨hsorted, hmem⟩

theorem transferred_since {id : Principal} {held : Nat} {s : BankSystem} {since : Nat}
    (r : BankReachableSince id held s since) (caller : Principal) (now : Nat) (q : Icrc1TransferQuest) :
    BankReachableSince id held (s.transferred caller now q) since := by
  rcases transferred_step id s caller now q with hsame | ⟨hhistory, hstep⟩
  · rw [hsame]
    exact r
  · refine .next r (.other hstep fun hclear => ?_)
    have hlen := congrArg (fun s => s.history.length) hclear
    rw [hhistory, List.length_append] at hlen
    exact absurd hlen (Nat.succ_ne_self _)

theorem broughtIn_since : BankReachableSince bankId 0 (broughtIn (3 * TRILLION) (4 * TRILLION)) 0 := by
  have hok := Outcome.eq_ok (o := cycles_in someUser 0 (4 * TRILLION) (someCyclesIn (3 * TRILLION)) .new)
    (0, .new) (by decide +kernel)
  have hstep : BankStep bankId ⟨.new, 0, [], [], []⟩ (broughtIn (3 * TRILLION) (4 * TRILLION)) :=
    .cycles_in (by decide +kernel) (by decide +kernel) hok
  have hstart : BankReachableSince bankId 0 ⟨.new, 0, [], [], []⟩ 0 := .start ⟨rfl, rfl⟩
  refine .next hstart (.other hstep fun h => ?_)
  exact List.cons_ne_nil _ _ (congrArg BankSystem.history h)

def sent (target : IcrcId) : Icrc1TransferQuest :=
  { «to» := target, fee := none, memo := none, from_subaccount := none, created_at_time := none,
    amount := TRILLION / 4 }

/-- The user pays itself and then the bank's account. -/
def payBoth (s : BankSystem) : BankSystem :=
  (s.transferred someUser 0 (sent ⟨someUser, some ICRC_DEFAULT_SUBACCOUNT⟩)).transferred someUser 0
    (sent ⟨bankId, none⟩)

theorem payBoth_since {id : Principal} {held : Nat} {s : BankSystem} {since : Nat}
    (r : BankReachableSince id held s since) : BankReachableSince id held (payBoth s) since :=
  transferred_since (transferred_since r _ _ _) _ _ _

/-- Between the payments the pointers are cleared. -/
def paidTwice : BankSystem := payBoth (payBoth (broughtIn (3 * TRILLION) (4 * TRILLION))).clear

theorem paidTwice_since : BankReachableSince bankId 0 paidTwice 3 := by
  have hcleared := (payBoth_since broughtIn_since).next .cleared
  have hlen : (payBoth (broughtIn (3 * TRILLION) (4 * TRILLION))).bank.logs.length = 3 := by
    decide +kernel
  rw [hlen] at hcleared
  exact payBoth_since hcleared

/-- Since the clearing the user has a transfer to itself, which is there once, and one to the bank. The
account is asked for by the default subaccount. -/
theorem history_of_paid_twice :
    (paidTwice.bank.logs.length = 5 ∧ pointersAt paidTwice.bank
        (IcrcId.account ⟨someUser, some ICRC_DEFAULT_SUBACCOUNT⟩) = [3, 4] ∧
        pointersAt paidTwice.bank (IcrcId.account ⟨bankId, none⟩) = [4]) ∧
      HistoryComplete paidTwice.bank 3 ⟨someUser, some ICRC_DEFAULT_SUBACCOUNT⟩ :=
  ⟨by decide +kernel, account_history_is_complete paidTwice_since (by decide +kernel) _⟩

end Cts.Bank
