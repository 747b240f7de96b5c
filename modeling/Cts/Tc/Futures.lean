import Cts.Tc.Covered
import Cts.Tc.FinalRecords
import Cts.Tc.Progress
import Mathlib.Algebra.Order.BigOperators.Group.List

/-!
# Futures that go on

While nobody trades and the ledgers are honest a payout that names the fee is executed, any other
one is told the fee, and an update succeeds.
-/

namespace Cts.Tc

open Lib Lib.Jobs

/-! ## Honest ledgers -/

/-- A ledger executes what names its fee and asks for its fee otherwise. -/
def HonestAnswer (fee ledger_transfer_fee : Nat) (r : LedgerTransferReturnType) : Prop :=
  if ledger_transfer_fee = fee then didExecute r = true else r = .ok (.error (.BadFee fee))

/-- The ledgers, whose fees are `fee`, do nothing, or they execute one payout that waits for them. -/
inductive LedgersHonest (cfg : TcConfig) (fee : PositionKind → Nat) (s s' : TcState) : Prop
  | quiet (ledger : s'.ledger = s.ledger) (executed : s'.history.executed = s.history.executed)
  | executes {run : PayoutsRun} {q : Queue} {p : Payout} {l : Ledger} (mem : run ∈ s.runs)
      (payout : p ∈ run.payouts q) (sent : p.state = .sent)
      (executes : (s.ledger q.kind).Executes cfg.canister_id p.transfer (fee q.kind) l)
      (ledger : s'.ledger = Function.update s.ledger q.kind l)
      (executed : s'.history.executed = Function.update s.history.executed q
        (s.history.executed q ++ [(p.id, p.transfer)]))

/-- No controller marks a storage canister. -/
def MarksKept {K : Type} (storage storage' : LogStorage K) : Prop :=
  ∀ canister_id sc, storage.canister canister_id = some sc →
    ∃ sc', storage'.canister canister_id = some sc' ∧
      sc'.controller_mark_full = sc.controller_mark_full

/-- Nobody but the contract and the ledgers does anything: no calls of users, no transfers or mints of
others, no marks. The ledgers, whose fees are `fee`, answer payouts honestly. -/
structure NobodyTrades (cfg : TcConfig) (fee : PositionKind → Nat) (s s' : TcState) : Prop where
  calls : s'.calls = s.calls
  cycles_positions : s'.cm_data.cycles_positions = s.cm_data.cycles_positions
  token_positions : s'.cm_data.token_positions = s.cm_data.token_positions
  counter : s'.cm_data.positions_id_counter = s.cm_data.positions_id_counter
  answers : ∀ run' ∈ s'.runs, ∀ q, ∀ p ∈ run'.payouts q, ∀ r, p.state = .answered r →
    (∃ run ∈ s.runs, p ∈ run.payouts q) ∨ HonestAnswer (fee q.kind) p.ledger_transfer_fee r
  ledgers : LedgersHonest cfg fee s s'
  positions_marks : MarksKept s.positions_storage s'.positions_storage
  trades_marks : MarksKept s.trades_storage s'.trades_storage

def HonestStep (cfg : TcConfig) (fee : PositionKind → Nat) (s s' : TcState) : Prop :=
  TcStep cfg s s' ∧ NobodyTrades cfg fee s s'

/-- An honest step that works on the queues and brings no new jobs. -/
structure DrainStep (cfg : TcConfig) (fee : PositionKind → Nat) (s s' : TcState) : Prop where
  step : TcStep cfg s s'
  quiet : NobodyTrades cfg fee s s'
  worked : Worked s s'

/-- A state from which the contract can go on. -/
structure CanGoOn (cfg : TcConfig) (s : TcState) : Prop where
  reachable : TcReachable cfg s
  ids : s.cm_data.positions_id_counter ≤ 2 ^ 128

variable {cfg : TcConfig} {fee : PositionKind → Nat} {s s' : TcState} {q : Queue}
  {kind : PositionKind}

theorem DrainStep.goes_on (h : DrainStep cfg fee s s') (hs : CanGoOn cfg s) : CanGoOn cfg s' :=
  ⟨hs.reachable.next h.step, by rw [h.quiet.counter]; exact hs.ids⟩

theorem CanGoOn.market (h : CanGoOn cfg s) : Market False s := market_inv h.reachable False.elim

theorem DrainStep.left_le (h : DrainStep cfg fee s s') (hs : CanGoOn cfg s) :
    s'.leftToDo ≤ s.leftToDo := by
  have hq := queues_inv hs.reachable
  exact Nat.add_le_add (h.worked.left_le hq .Cycles) (h.worked.left_le hq .Token)

theorem MarksKept.of_eq {K : Type} {storage storage' : LogStorage K}
    (h : storage'.canister = storage.canister) : MarksKept storage storage' :=
  fun _ sc hsc => ⟨sc, h ▸ hsc, rfl⟩

/-- What the users and the ledgers see, and the storage canisters. -/
structure NobodySees (s s' : TcState) : Prop where
  calls : s'.calls = s.calls
  cycles_positions : s'.cm_data.cycles_positions = s.cm_data.cycles_positions
  token_positions : s'.cm_data.token_positions = s.cm_data.token_positions
  counter : s'.cm_data.positions_id_counter = s.cm_data.positions_id_counter
  ledger : s'.ledger = s.ledger
  executed : s'.history.executed = s.history.executed
  positions_canister : s'.positions_storage.canister = s.positions_storage.canister
  trades_canister : s'.trades_storage.canister = s.trades_storage.canister

theorem quiet_of_runs (h : NobodySees s s')
    (hruns : ∀ run ∈ s'.runs, ∀ q, ∀ p ∈ run.payouts q, (∃ old ∈ s.runs, p ∈ old.payouts q) ∨
      ∀ r, p.state ≠ .answered r) : NobodyTrades cfg fee s s' := by
  refine ⟨h.calls, h.cycles_positions, h.token_positions, h.counter, fun run hrun q p hp r hr => ?_,
    .quiet h.ledger h.executed, .of_eq h.positions_canister, .of_eq h.trades_canister⟩
  exact (hruns run hrun q p hp).imp_right fun h => absurd hr (h r)

/-! ## Futures -/

def Payout.waits (p : Payout) : Nat :=
  match p.state with
  | .sent => 2
  | .answered _ => 1
  | .done _ => 0

def Update.waits (u : Update) : Nat :=
  match u.state with
  | .sent _ => 1
  | .done _ => 0

def PayoutsRun.payoutsWaits (run : PayoutsRun) (q : Queue) : Nat :=
  ((run.payouts q).map Payout.waits).sum

def PayoutsRun.updatesWaits (run : PayoutsRun) (kind : PositionKind) : Nat :=
  ((run.updates kind).map Update.waits).sum

/-- How many steps the futures of a run are away from their ends. -/
def PayoutsRun.waits (run : PayoutsRun) : Nat :=
  run.payoutsWaits (.void .Cycles) + run.payoutsWaits (.void .Token) +
    run.payoutsWaits (.trade .Cycles) + run.payoutsWaits (.trade .Token) +
    run.updatesWaits .Cycles + run.updatesWaits .Token

def TcState.waits (s : TcState) : Nat := (s.runs.map PayoutsRun.waits).sum

/-- How many futures a run has. -/
def PayoutsRun.sizes (run : PayoutsRun) : (Queue → Nat) × (PositionKind → Nat) :=
  (fun q => (run.payouts q).length, fun kind => (run.updates kind).length)

section

variable {before after : List PayoutsRun} {run : PayoutsRun} {pre post : List Payout} {p p' : Payout}
  {upre upost : List Update} {u u' : Update}

theorem waits_set_payouts (hp : run.payouts q = pre ++ p :: post) (hlt : p'.waits < p.waits) :
    (run.set_payouts q (pre ++ p' :: post)).waits < run.waits := by
  have hself : (run.set_payouts q (pre ++ p' :: post)).payoutsWaits q < run.payoutsWaits q := by
    unfold PayoutsRun.payoutsWaits
    rw [run.set_payouts_self, hp]
    simp only [List.map_append, List.map_cons, List.sum_append, List.sum_cons]
    omega
  have hothers : ∀ q', q' ≠ q →
      (run.set_payouts q (pre ++ p' :: post)).payoutsWaits q' = run.payoutsWaits q' := by
    intro q' hq
    unfold PayoutsRun.payoutsWaits
    rw [run.set_payouts_of_ne hq]
  have hupdates : ∀ kind, (run.set_payouts q (pre ++ p' :: post)).updatesWaits kind =
      run.updatesWaits kind := fun _ => rfl
  unfold PayoutsRun.waits
  rw [hupdates, hupdates]
  rcases q with (_ | _) | (_ | _)
  · rw [hothers (.void .Token) (by simp), hothers (.trade .Cycles) (by simp),
      hothers (.trade .Token) (by simp)]
    omega
  · rw [hothers (.void .Cycles) (by simp), hothers (.trade .Cycles) (by simp),
      hothers (.trade .Token) (by simp)]
    omega
  · rw [hothers (.void .Cycles) (by simp), hothers (.void .Token) (by simp),
      hothers (.trade .Token) (by simp)]
    omega
  · rw [hothers (.void .Cycles) (by simp), hothers (.void .Token) (by simp),
      hothers (.trade .Cycles) (by simp)]
    omega

theorem waits_set_updates (hu : run.updates kind = upre ++ u :: upost) (hlt : u'.waits < u.waits) :
    (run.set_updates kind (upre ++ u' :: upost)).waits < run.waits := by
  have hself : (run.set_updates kind (upre ++ u' :: upost)).updatesWaits kind <
      run.updatesWaits kind := by
    unfold PayoutsRun.updatesWaits
    rw [run.set_updates_self, hu]
    simp only [List.map_append, List.map_cons, List.sum_append, List.sum_cons]
    omega
  have hothers : ∀ k, k ≠ kind →
      (run.set_updates kind (upre ++ u' :: upost)).updatesWaits k = run.updatesWaits k := by
    intro k hk
    unfold PayoutsRun.updatesWaits
    rw [run.set_updates_of_ne hk]
  have hpayouts : ∀ q, (run.set_updates kind (upre ++ u' :: upost)).payoutsWaits q =
      run.payoutsWaits q := fun _ => rfl
  unfold PayoutsRun.waits
  simp only [hpayouts]
  cases kind with
  | Cycles =>
    rw [hothers .Token (by simp)]
    omega
  | Token =>
    rw [hothers .Cycles (by simp)]
    omega

theorem waits_replaced {run' : PayoutsRun} (hr : s.runs = before ++ run :: after)
    (hr' : s'.runs = before ++ run' :: after) (hlt : run'.waits < run.waits) : s'.waits < s.waits := by
  unfold TcState.waits
  rw [hr, hr']
  simp only [List.map_append, List.map_cons, List.sum_append, List.sum_cons]
  omega

theorem exists_of_sum_ne_zero {α : Type} {f : α → Nat} {xs : List α} (h : (xs.map f).sum ≠ 0) :
    ∃ pre x post, xs = pre ++ x :: post ∧ f x ≠ 0 := by
  by_contra hn
  refine h (List.sum_eq_zero fun n hn' => ?_)
  obtain ⟨x, hx, rfl⟩ := List.mem_map.mp hn'
  obtain ⟨pre, post, rfl⟩ := List.append_of_mem hx
  by_contra hne
  exact hn ⟨pre, x, post, rfl, hne⟩

/-- A future that is not done. -/
inductive Waiting (run : PayoutsRun) : Prop
  | payout {q : Queue} {pre post : List Payout} {p : Payout} (hp : run.payouts q = pre ++ p :: post)
      (hw : p.waits ≠ 0)
  | update {kind : PositionKind} {pre post : List Update} {u : Update}
      (hu : run.updates kind = pre ++ u :: post) (hw : u.waits ≠ 0)

theorem waiting_of_waits (h : run.waits ≠ 0) : Waiting run := by
  have hpayouts : ∀ q, run.payoutsWaits q ≠ 0 → Waiting run := by
    intro q hq
    obtain ⟨pre, p, post, hp, hw⟩ := exists_of_sum_ne_zero hq
    exact .payout hp hw
  have hupdates : ∀ kind, run.updatesWaits kind ≠ 0 → Waiting run := by
    intro kind hk
    obtain ⟨pre, u, post, hu, hw⟩ := exists_of_sum_ne_zero hk
    exact .update hu hw
  by_contra hn
  refine h ?_
  unfold PayoutsRun.waits
  simp only [not_imp_comm.mp (hpayouts _) hn, not_imp_comm.mp (hupdates _) hn]

theorem finished_of_waits (h : run.waits = 0) : run.finished := by
  unfold PayoutsRun.waits at h
  constructor
  · intro q p hp
    have hzero : run.payoutsWaits q = 0 := by rcases q with (_ | _) | (_ | _) <;> omega
    have hle : p.waits ≤ run.payoutsWaits q := List.le_sum_of_mem (List.mem_map_of_mem hp)
    unfold Payout.isDone
    unfold Payout.waits at hle
    cases hs : p.state with
    | done r => rfl
    | sent => simp only [hs] at hle; omega
    | answered r => simp only [hs] at hle; omega
  · intro kind u hu
    have hzero : run.updatesWaits kind = 0 := by cases kind <;> omega
    have hle : u.waits ≤ run.updatesWaits kind :=
      List.le_sum_of_mem (List.mem_map_of_mem hu)
    unfold Update.isDone
    unfold Update.waits at hle
    cases hs : u.state with
    | done r => rfl
    | sent canister_id => simp only [hs] at hle; omega

end

/-! ## What a run is promised -/

/-- What becomes of a payout that named the fee `fee₀` when the fee is `fee`. The cell of its ledger
holds `cell`. -/
def Payout.Promise (fee fee₀ cell : Nat) (p : Payout) : Prop :=
  match p.state with
  | .sent => p.ledger_transfer_fee = fee₀
  | .answered r => p.ledger_transfer_fee = fee₀ ∧ HonestAnswer fee fee₀ r
  | .done r => r.isSome ∨ (fee₀ ≠ fee ∧ cell = fee)

/-- Each payout gets a result or its fee is learnt, and each update succeeds. -/
structure Promise (fee fee₀ : PositionKind → Nat) (s : TcState) : Prop where
  payouts : ∀ run ∈ s.runs, ∀ q, ∀ p ∈ run.payouts q,
    p.Promise (fee q.kind) (fee₀ q.kind) (s.fees q.kind)
  updates : ∀ run ∈ s.runs, ∀ kind, ∀ u ∈ run.updates kind, ∀ r, u.state = .done r → r = .ok ()
  fees : ∀ kind, s.fees kind = fee₀ kind ∨ s.fees kind = fee kind

theorem Payout.Promise.mono {fee fee₀ cell cell' : Nat} {p : Payout} (h : p.Promise fee fee₀ cell)
    (hc : cell' = cell ∨ cell' = fee) : p.Promise fee fee₀ cell' := by
  unfold Payout.Promise at h ⊢
  cases hs : p.state with
  | sent =>
    rw [hs] at h
    exact h
  | answered r =>
    rw [hs] at h
    exact h
  | done r =>
    rw [hs] at h
    refine h.imp_right fun ⟨hne, hcell⟩ => ⟨hne, ?_⟩
    rcases hc with hc | hc
    · exact hc.trans hcell
    · exact hc

/-- A future goes on. -/
structure FutureStep (cfg : TcConfig) (fee : PositionKind → Nat) (s s' : TcState) : Prop where
  drain : DrainStep cfg fee s s'
  waits : s'.waits < s.waits
  flushes : s'.positions_storage.flushes = s.positions_storage.flushes
  sizes : s'.runs.map PayoutsRun.sizes = s.runs.map PayoutsRun.sizes
  promise : ∀ fee₀, Promise fee fee₀ s → Promise fee fee₀ s'

section

variable {before after : List PayoutsRun} {run : PayoutsRun} {pre post : List Payout} {p p' : Payout}
  {upre upost : List Update} {u u' : Update}

theorem forall_payouts_set {P : Queue → Payout → Prop} (hr : s.runs = before ++ run :: after)
    (hp : run.payouts q = pre ++ p :: post) (h : ∀ run ∈ s.runs, ∀ q, ∀ x ∈ run.payouts q, P q x)
    (hp' : P q p') : ∀ run' ∈ before ++ run.set_payouts q (pre ++ p' :: post) :: after,
      ∀ q', ∀ x ∈ run'.payouts q', P q' x := by
  rw [hr] at h
  refine forall_mem_replaced h fun hrun q' x hx => ?_
  by_cases hq : q' = q
  · subst hq
    rw [run.set_payouts_self] at hx
    have hold := hrun q'
    rw [hp] at hold
    exact forall_mem_replaced hold (fun _ => hp') x hx
  · rw [run.set_payouts_of_ne hq] at hx
    exact hrun q' x hx

theorem sizes_set_payouts (hp : run.payouts q = pre ++ p :: post) :
    (run.set_payouts q (pre ++ p' :: post)).sizes = run.sizes := by
  refine Prod.ext (funext fun q' => ?_) rfl
  change ((run.set_payouts q (pre ++ p' :: post)).payouts q').length = (run.payouts q').length
  by_cases hq : q' = q
  · subst hq
    rw [run.set_payouts_self, hp, List.length_append, List.length_append]
    rfl
  · rw [run.set_payouts_of_ne hq]

theorem sizes_set_updates (hu : run.updates kind = upre ++ u :: upost) :
    (run.set_updates kind (upre ++ u' :: upost)).sizes = run.sizes := by
  refine Prod.ext rfl (funext fun k => ?_)
  change ((run.set_updates kind (upre ++ u' :: upost)).updates k).length = (run.updates k).length
  by_cases hk : k = kind
  · subst hk
    rw [run.set_updates_self, hu, List.length_append, List.length_append]
    rfl
  · rw [run.set_updates_of_ne hk]

theorem sizes_replaced {run' : PayoutsRun} (hr : s.runs = before ++ run :: after)
    (hr' : s'.runs = before ++ run' :: after) (h : run'.sizes = run.sizes) :
    s'.runs.map PayoutsRun.sizes = s.runs.map PayoutsRun.sizes := by
  rw [hr, hr']
  simp only [List.map_append, List.map_cons, h]

/-- What a step of one payout leaves as it is. -/
structure PayoutSame (s s' : TcState) : Prop where
  calls : s'.calls = s.calls
  cycles_positions : s'.cm_data.cycles_positions = s.cm_data.cycles_positions
  token_positions : s'.cm_data.token_positions = s.cm_data.token_positions
  counter : s'.cm_data.positions_id_counter = s.cm_data.positions_id_counter
  positions_storage : s'.positions_storage = s.positions_storage
  trades_storage : s'.trades_storage = s.trades_storage

theorem payout_future (hr : s.runs = before ++ run :: after) (hp : run.payouts q = pre ++ p :: post)
    (hstep : TcStep cfg s s') (hworked : Worked s s') (hsame : PayoutSame s s')
    (hledgers : LedgersHonest cfg fee s s')
    (hruns : s'.runs = before ++ run.set_payouts q (pre ++ p' :: post) :: after)
    (hlt : p'.waits < p.waits)
    (hanswer : ∀ r, p'.state = .answered r → HonestAnswer (fee q.kind) p'.ledger_transfer_fee r)
    (hpromise : ∀ fee₀, Promise fee fee₀ s →
      (∀ kind, s'.fees kind = s.fees kind ∨ s'.fees kind = fee kind) ∧
        p'.Promise (fee q.kind) (fee₀ q.kind) (s'.fees q.kind)) :
    FutureStep cfg fee s s' := by
  refine ⟨⟨hstep, ⟨hsame.calls, hsame.cycles_positions, hsame.token_positions, hsame.counter, ?_,
    hledgers, .of_eq (congrArg _ hsame.positions_storage), .of_eq (congrArg _ hsame.trades_storage)⟩,
    hworked⟩, waits_replaced hr hruns (waits_set_payouts hp hlt),
    congrArg _ hsame.positions_storage, sizes_replaced hr hruns (sizes_set_payouts hp),
    fun fee₀ h => ?_⟩
  · rw [hruns]
    exact forall_payouts_set
      (P := fun q x => ∀ r, x.state = .answered r → (∃ run ∈ s.runs, x ∈ run.payouts q) ∨
        HonestAnswer (fee q.kind) x.ledger_transfer_fee r) hr hp
      (fun run hrun q x hx r _ => Or.inl ⟨run, hrun, hx⟩) fun r hr => Or.inr (hanswer r hr)
  · obtain ⟨hfees, hp'⟩ := hpromise fee₀ h
    refine ⟨?_, ?_, fun kind => ?_⟩
    · rw [hruns]
      exact forall_payouts_set
        (P := fun q x => x.Promise (fee q.kind) (fee₀ q.kind) (s'.fees q.kind)) hr hp
        (fun run hrun q x hx => (h.payouts run hrun q x hx).mono (hfees q.kind)) hp'
    · have hold := h.updates
      rw [hr] at hold
      rw [hruns]
      exact forall_mem_replaced hold id
    · rcases hfees kind with heq | heq
      · rw [heq]
        exact h.fees kind
      · exact Or.inr heq

theorem payout_executed_future (hl : CanGoOn cfg s) (hr : s.runs = before ++ run :: after)
    (hp : run.payouts q = pre ++ p :: post) (hs : p.state = .sent)
    (hfee : p.ledger_transfer_fee = fee q.kind) : ∃ s', FutureStep cfg fee s s' := by
  have hrun : run ∈ s.runs := by rw [hr]; simp
  have hmem : p ∈ run.payouts q := by rw [hp]; simp
  have hcovered := waiting_covered hl.reachable hrun hmem hs
  have hexecutes : (s.ledger q.kind).Executes cfg.canister_id p.transfer (fee q.kind)
      ((s.ledger q.kind).transfer cfg.positionsAccount p.transfer.to.account p.transfer.amount
        (fee q.kind)) := by
    refine ⟨fun f hf => ?_, ?_, rfl⟩
    · obtain rfl := Option.some.inj hf
      exact hfee
    · rw [← hfee]
      exact hcovered
  refine ⟨_, payout_future hr hp (TcStep.payout_executed 0 hr hp hs hexecutes)
    (payout_executed_worked hr hp hs ⟨rfl, rfl, rfl, rfl, rfl, rfl⟩)
    ⟨rfl, rfl, rfl, rfl, rfl, rfl⟩ (.executes hrun hmem hs hexecutes rfl rfl) rfl
    (by simp [Payout.waits, hs]) (fun r hr' => ?_) fun fee₀ h => ⟨fun kind => Or.inl rfl, ?_⟩⟩
  · obtain rfl := PayoutState.answered.inj hr'
    exact (if_pos hfee).mpr rfl
  · have hp' := h.payouts run hrun q p hmem
    unfold Payout.Promise at hp' ⊢
    rw [hs] at hp'
    simp only at hp' ⊢
    exact ⟨hp', (if_pos (hp'.symm.trans hfee)).mpr rfl⟩

theorem payout_refused_future (hr : s.runs = before ++ run :: after)
    (hp : run.payouts q = pre ++ p :: post) (hs : p.state = .sent)
    (hfee : p.ledger_transfer_fee ≠ fee q.kind) : ∃ s', FutureStep cfg fee s s' := by
  have hrun : run ∈ s.runs := by rw [hr]; simp
  have hmem : p ∈ run.payouts q := by rw [hp]; simp
  have hanswer : ∀ f, f ≠ fee q.kind →
      HonestAnswer (fee q.kind) f (.ok (.error (.BadFee (fee q.kind)))) :=
    fun f hf => (if_neg hf).mpr rfl
  refine ⟨_, payout_future hr hp
    (TcStep.payout_refused (.ok (.error (.BadFee (fee q.kind)))) hr hp hs rfl) ?_
    ⟨rfl, rfl, rfl, rfl, rfl, rfl⟩ (.quiet rfl rfl) rfl (by simp [Payout.waits, hs])
    (fun r hr' => ?_)
    fun fee₀ h => ⟨fun kind => Or.inl rfl, ?_⟩⟩
  · refine payout_quiet hr hp ?_ ⟨rfl, rfl, rfl, rfl, rfl, rfl⟩
    simp [Payout.flight, Payout.effect, hs, didExecute]
  · obtain rfl := PayoutState.answered.inj hr'
    exact hanswer _ hfee
  · have hp' := h.payouts run hrun q p hmem
    unfold Payout.Promise at hp' ⊢
    rw [hs] at hp'
    simp only at hp' ⊢
    exact ⟨hp', hanswer _ (hp' ▸ hfee)⟩

theorem honest_executed {f₀ f : Nat} {r : LedgerTransferReturnType} (h : HonestAnswer f f₀ r)
    (heq : f₀ = f) : ∃ block, r = .ok (.ok block) := by
  have h := (if_pos heq).mp h
  match r with
  | .ok (.ok block) => exact ⟨block, rfl⟩
  | .ok (.error e) => cases h
  | .error e => cases h

theorem payout_replied_future (hfee : ∀ kind, fee kind < 2 ^ 128)
    (hr : s.runs = before ++ run :: after) (hp : run.payouts q = pre ++ p :: post)
    {r : LedgerTransferReturnType} (hs : p.state = .answered r) : ∃ s', FutureStep cfg fee s s' := by
  have hrun : run ∈ s.runs := by rw [hr]; simp
  have hmem : p ∈ run.payouts q := by rw [hp]; simp
  refine ⟨_, payout_future hr hp (TcStep.payout_replied hr hp hs)
    (payout_quiet hr hp (Payout.effect_answered _ hs) ⟨rfl, rfl, rfl, rfl, rfl, rfl⟩)
    ⟨rfl, ?_, ?_, ?_, rfl, rfl⟩ (.quiet rfl rfl) rfl (by simp [Payout.waits, hs])
    (fun r hr' => by cases hr')
    fun fee₀ h => ?_⟩
  · cases q.kind <;> rfl
  · cases q.kind <;> rfl
  · cases q.kind <;> rfl
  · have hp' := h.payouts run hrun q p hmem
    unfold Payout.Promise at hp'
    rw [hs] at hp'
    obtain ⟨hfee₀, hhonest⟩ := hp'
    change (∀ kind, (s.ledger_transfer_replied q.kind r).fees kind = _ ∨ _) ∧
      (_ ∨ _ ∧ (s.ledger_transfer_replied q.kind r).fees q.kind = _)
    by_cases heq : fee₀ q.kind = fee q.kind
    · -- It named the fee and was executed.
      obtain ⟨block, rfl⟩ := honest_executed hhonest heq
      refine ⟨fun kind => Or.inl ?_, Or.inl rfl⟩
      exact congrFun (Function.update_eq_self q.kind s.fees) kind
    · -- It did not, and the cell learns the fee.
      have hbad : r = .ok (.error (.BadFee (fee q.kind))) := (if_neg heq).mp hhonest
      have hcell : ∀ kind, (s.ledger_transfer_replied q.kind r).fees kind =
          if kind = q.kind then fee q.kind else s.fees kind := by
        intro kind
        subst hbad
        have hbadfee : bad_fee (.ok (.error (.BadFee (fee q.kind)))) = some (fee q.kind) :=
          congrArg some (if_pos (hfee q.kind))
        simp only [TcState.ledger_transfer_replied, hbadfee, Option.getD_some, Function.update_apply]
      refine ⟨fun kind => ?_, Or.inr ⟨heq, (hcell q.kind).trans (if_pos rfl)⟩⟩
      rw [hcell kind]
      by_cases hk : kind = q.kind
      · rw [if_pos hk, hk]
        exact Or.inr rfl
      · rw [if_neg hk]
        exact Or.inl rfl

theorem cm_update_log_mark {K : Type} [DecidableEq K] {sc sc' : StorageCanister K} {log_id : Nat}
    {log_b : List Byte} (h : sc.cm_update_log log_id log_b = some sc') :
    sc'.controller_mark_full = sc.controller_mark_full := by
  unfold StorageCanister.cm_update_log at h
  simp only at h
  split_ifs at h
  obtain rfl := Option.some.inj h
  rfl

theorem update_keeps_marks {storage : LogStorage Principal} {canister_id : Principal}
    {sc sc' : StorageCanister Principal} {log_id : Nat} {log_b : List Byte}
    (hsc : storage.canister canister_id = some sc) (h : sc.cm_update_log log_id log_b = some sc') :
    MarksKept storage
      { storage with canister := Function.update storage.canister canister_id (some sc') } := by
  intro id c hc
  by_cases hid : id = canister_id
  · subst hid
    obtain rfl := Option.some.inj (hc.symm.trans hsc)
    exact ⟨sc', Function.update_self _ _ _, cm_update_log_mark h⟩
  · exact ⟨c, (Function.update_of_ne hid _ _).trans hc, rfl⟩

theorem update_executed_future (hl : CanGoOn cfg s) (hr : s.runs = before ++ run :: after)
    (hu : run.updates kind = upre ++ u :: upost) {canister_id : Principal}
    (hs : u.state = .sent canister_id) : ∃ s', FutureStep cfg fee s s' := by
  have hrun : run ∈ s.runs := by rw [hr]; simp
  have hmem : u ∈ run.updates kind := by rw [hu]; simp
  obtain ⟨logs, hrecorded⟩ := recorded_inv hl.reachable hl.ids
  obtain ⟨sc, hsc, hup⟩ := hrecorded.accepts (queues_inv hl.reachable) hl.market hl.ids hrun hmem hs
  obtain ⟨sc', hsc'⟩ := Option.isSome_iff_exists.mp hup
  refine ⟨_, ⟨⟨TcStep.update_executed hr hu hs hsc hsc', ⟨rfl, rfl, rfl, rfl,
    fun run' hrun' q p hp r _ => Or.inl ?_, .quiet rfl rfl, update_keeps_marks hsc hsc',
    .of_eq rfl⟩, update_executed_worked hr hu hs ⟨rfl, rfl, rfl, rfl, rfl, rfl⟩⟩, ?_, rfl, ?_,
    fun fee₀ h => ?_⟩⟩
  · rcases List.mem_append.mp hrun' with hrun' | hrun'
    · exact ⟨run', by rw [hr]; simp [hrun'], hp⟩
    · rcases List.mem_cons.mp hrun' with rfl | hrun'
      · exact ⟨run, hrun, hp⟩
      · exact ⟨run', by rw [hr]; simp [hrun'], hp⟩
  · exact waits_replaced hr rfl (waits_set_updates hu (by simp [Update.waits, hs]))
  · exact sizes_replaced hr rfl (sizes_set_updates hu)
  · have hpayouts := h.payouts
    have hupdates := h.updates
    rw [hr] at hpayouts hupdates
    refine ⟨forall_mem_replaced hpayouts id, forall_mem_replaced hupdates fun hrun k v hv r hdone => ?_,
      h.fees⟩
    by_cases hk : k = kind
    · subst hk
      rw [run.set_updates_self] at hv
      have hold := hrun k
      rw [hu] at hold
      refine forall_mem_replaced (P := fun v => ∀ r, v.state = .done r → r = .ok ()) hold
        (fun _ r hr => ?_) v hv r hdone
      exact (UpdateState.done.inj hr).symm
    · rw [run.set_updates_of_ne hk] at hv
      exact hrun k v hv r hdone

theorem future_step (hl : CanGoOn cfg s) (hfee : ∀ kind, fee kind < 2 ^ 128) (hw : s.waits ≠ 0) :
    ∃ s', FutureStep cfg fee s s' := by
  obtain ⟨before, run, after, hr, hrun⟩ := exists_of_sum_ne_zero hw
  cases waiting_of_waits hrun with
  | @payout q pre post p hp hw =>
    cases hs : p.state with
    | sent =>
      by_cases hf : p.ledger_transfer_fee = fee q.kind
      · exact payout_executed_future hl hr hp hs hf
      · exact payout_refused_future hr hp hs hf
    | answered r => exact payout_replied_future hfee hr hp hs
    | done r => exact absurd (by simp [Payout.waits, hs]) hw
  | @update kind pre post u hu hw =>
    cases hs : u.state with
    | sent canister_id => exact update_executed_future hl hr hu hs
    | done r => exact absurd (by simp [Update.waits, hs]) hw

end

end Cts.Tc
