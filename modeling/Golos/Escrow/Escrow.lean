import Golos.Escrow.Lemmas

/-!
This module contains what reaches the balances of accounts, and the lifecycle of escrows in runs: the
money that enters and leaves them, the approvals that this takes, and the forced conversion that
pays an agent who has not approved.
-/

namespace Golos

open Checked

namespace EscrowDatabase

variable {db db' db'' : EscrowDatabase}

/-- The balances differ by what the new movements pay. -/
def Pays (db db' : EscrowDatabase) : Prop :=
  ∃ ms, db'.movements = db.movements ++ ms ∧ ∀ name symbol,
    db'.ledger.mainBalance name symbol =
      db.ledger.mainBalance name symbol + (ms.map fun m => m.paid name symbol).sum

theorem Pays.of_eq (hledger : db'.ledger = db.ledger) (hmovements : db'.movements = db.movements) :
    Pays db db' := by
  refine ⟨[], hmovements.trans (List.append_nil _).symm, ?_⟩
  intro name symbol
  rw [hledger, List.map_nil, List.sum_nil, Int.add_zero]

theorem Pays.trans (h : Pays db db') (h' : Pays db' db'') : Pays db db'' := by
  obtain ⟨ms, hms, hpaid⟩ := h
  obtain ⟨ms', hms', hpaid'⟩ := h'
  refine ⟨ms ++ ms', ?_, ?_⟩
  . rw [hms', hms, List.append_assoc]
  . intro name symbol
    rw [hpaid', hpaid, List.map_append, List.sum_append]
    omega

theorem Pays.foldlM {f : EscrowDatabase → EscrowObject → Result EscrowDatabase}
    (hf : ∀ db e db', f db e = .ok db' → Pays db db') {l : List EscrowObject}
    (h : l.foldlM f db = .ok db') : Pays db db' := by
  apply foldlM_invariant (P := fun db' _ => Pays db db') _ (.of_eq rfl rfl) h
  intro db₁ db₂ e _ hpays hstep
  exact hpays.trans (hf db₁ e db₂ hstep)

theorem amountIn_eq (a : Asset) (name name' : AccountName) (symbol : AssetSymbolType) :
    Ledger.single name a name' symbol = if name' = name then a.amountIn symbol else 0 := by
  unfold Ledger.single Asset.amountIn
  by_cases hname : name' = name
  . rw [if_pos hname]
    by_cases hsymbol : a.symbol = symbol
    . rw [if_pos ⟨hname, hsymbol.symm⟩, if_pos hsymbol]
    . rw [if_neg fun h => hsymbol h.2.symm, if_neg hsymbol]
  . rw [if_neg hname, if_neg fun h => hname h.1]

theorem mainBalance_adjustBalances {name : AccountName} {amounts : List Asset}
    (h : db.adjustBalances name amounts = .ok db') :
    ∃ ledger, db' = { db with ledger := ledger } ∧ ∀ name' symbol,
      ledger.mainBalance name' symbol = db.ledger.mainBalance name' symbol +
        if name' = name then (amounts.map fun a => a.amountIn symbol).sum else 0 := by
  simp only [adjustBalances, bind_eq_ok, pure_eq_ok] at h
  obtain ⟨ledger, hledger, rfl⟩ := h
  refine ⟨ledger, rfl, ?_⟩
  intro name' symbol
  generalize db.ledger = l at hledger ⊢
  induction amounts generalizing l with
  | nil =>
    cases hledger
    rw [List.map_nil, List.sum_nil, ite_self, Int.add_zero]
  | cons a amounts ih =>
    rw [List.foldlM_cons, bind_eq_ok] at hledger
    obtain ⟨l₁, hadjust, hledger⟩ := hledger
    rw [ih l₁ hledger, (Ledger.moves_adjustBalance hadjust).balance, amountIn_eq, List.map_cons,
      List.sum_cons]
    split
    . omega
    . omega

/-- One movement is paid in several amounts. -/
theorem Pays.of_adjustBalances {db₁ : EscrowDatabase} {name : AccountName} {amounts : List Asset}
    {m : Movement} (h : db.adjustBalances name amounts = .ok db₁) (hledger : db'.ledger = db₁.ledger)
    (hmovements : db'.movements = db.movements ++ [m])
    (hpaid : ∀ name' symbol, m.paid name' symbol =
      if name' = name then (amounts.map fun a => a.amountIn symbol).sum else 0) : Pays db db' := by
  obtain ⟨ledger, rfl, hbalance⟩ := mainBalance_adjustBalances h
  refine ⟨[m], hmovements, ?_⟩
  intro name' symbol
  rw [hledger, List.map_singleton, List.sum_singleton, hpaid]
  exact hbalance name' symbol

theorem pays_escrowTransfer {o : EscrowTransferOperation} (h : db.escrowTransfer o = .ok db') :
    Pays db db' := by
  have hpaid : ∀ {steem sbd steemDebit sbdDebit : Asset} {e : EscrowObject} {time : Nat},
      e.fromAccount = o.fromAccount → steem.neg = .ok steemDebit → sbd.neg = .ok sbdDebit →
      (∀ symbol, e.held symbol = steem.amountIn symbol + sbd.amountIn symbol) →
      ∀ name symbol, (⟨e, time, .deposit⟩ : Movement).paid name symbol =
        if name = o.fromAccount then ([steemDebit, sbdDebit].map fun a => a.amountIn symbol).sum
        else 0 := by
    intro steem sbd steemDebit sbdDebit e time hfrom hsteem hsbd hheld name symbol
    unfold Movement.paid
    dsimp only
    rw [hfrom, hheld, List.map_cons, List.map_singleton, List.sum_cons, List.sum_singleton,
      Asset.amountIn_of_neg hsteem, Asset.amountIn_of_neg hsbd, Int.neg_add]
  simp only [escrowTransfer, bind_eq_ok] at h
  obtain ⟨_, _, _, _, _, _, _, _, _, _, _, _, h⟩ := h
  split at h
  . simp only [bind_eq_ok, pure_eq_ok] at h
    obtain ⟨steem, hsteem, sbd, rfl, _, _, _, _, steemDebit, hsteemDebit, sbdDebit, hsbdDebit, db₁,
      hadjust, escrows, _, rfl⟩ := h
    obtain ⟨ledger, rfl, _⟩ := adjustBalances_cases hadjust
    refine .of_adjustBalances hadjust rfl rfl (hpaid rfl hsteemDebit hsbdDebit ?_)
    intro symbol
    rw [Asset.amountIn_of_add hsteem]
    unfold EscrowObject.held
    dsimp only
    omega
  . simp only [bind_eq_ok, pure_eq_ok] at h
    obtain ⟨steem, rfl, sbd, hsbd, _, _, _, _, steemDebit, hsteemDebit, sbdDebit, hsbdDebit, db₁,
      hadjust, escrows, _, rfl⟩ := h
    obtain ⟨ledger, rfl, _⟩ := adjustBalances_cases hadjust
    refine .of_adjustBalances hadjust rfl rfl (hpaid rfl hsteemDebit hsbdDebit ?_)
    intro symbol
    rw [Asset.amountIn_of_add hsbd]
    unfold EscrowObject.held
    dsimp only
    omega

theorem pays_refundEscrow {e : EscrowObject} (h : db.refundEscrow e = .ok db') : Pays db db' := by
  simp only [refundEscrow, bind_eq_ok, pure_eq_ok] at h
  obtain ⟨db₁, hadjust, rfl⟩ := h
  obtain ⟨ledger, rfl, _⟩ := adjustBalances_cases hadjust
  refine .of_adjustBalances hadjust rfl rfl ?_
  intro name symbol
  unfold Movement.paid EscrowObject.held
  simp only [List.map_cons, List.map_nil, List.sum_cons, List.sum_nil]
  split
  . omega
  . rfl

theorem pays_escrowApprove {o : EscrowApproveOperation} (h : db.escrowApprove o = .ok db') :
    Pays db db' := by
  simp only [escrowApprove, bind_eq_ok, ensure_eq_ok] at h
  obtain ⟨_, _, e, _, _, _, _, hagent, _, _, _, _, _, _, h⟩ := h
  split at h
  . split at h
    . simp only [bind_eq_ok, pure_eq_ok] at h
      obtain ⟨db₁, hadjust, rfl⟩ := h
      obtain ⟨ledger, rfl, _⟩ := adjustBalances_cases hadjust
      refine .of_adjustBalances hadjust rfl rfl ?_
      intro name symbol
      rw [List.map_singleton, List.sum_singleton, ← hagent]
      rfl
    . cases h
      exact .of_eq rfl rfl
  . exact pays_refundEscrow h

theorem pays_escrowDispute {o : EscrowDisputeOperation} (h : db.escrowDispute o = .ok db') :
    Pays db db' := by
  simp only [escrowDispute, bind_eq_ok, pure_eq_ok] at h
  obtain ⟨_, _, _, _, _, _, _, _, _, _, _, _, _, _, _, _, rfl⟩ := h
  exact .of_eq rfl rfl

theorem pays_escrowRelease {o : EscrowReleaseOperation} (h : db.escrowRelease o = .ok db') :
    Pays db db' := by
  simp only [escrowRelease, bind_eq_ok] at h
  obtain ⟨_, _, _, _, _, _, e, _, _, _, _, _, _, _, _, _, _, _, _, _, _, _, _, _, _, _, db₁, hadjust,
    steemBalance, _, sbdBalance, _, h⟩ := h
  obtain ⟨ledger, rfl, _⟩ := adjustBalances_cases hadjust
  have hpaid : ∀ name symbol,
      (⟨e, db.headBlockTime, .release o.who o.receiver o.sbdAmount o.steemAmount⟩ : Movement).paid
        name symbol =
      if name = o.receiver then
        ([o.steemAmount, o.sbdAmount].map fun a => a.amountIn symbol).sum
      else 0 := by
    intro name symbol
    unfold Movement.paid
    simp only [List.map_cons, List.map_nil, List.sum_cons, List.sum_nil]
    split
    . omega
    . rfl
  split at h
  . cases h
    exact .of_adjustBalances hadjust rfl rfl hpaid
  . cases h
    exact .of_adjustBalances hadjust rfl rfl hpaid

theorem pays_convertEscrow {e : EscrowObject} (h : db.convertEscrow e = .ok db') : Pays db db' := by
  simp only [convertEscrow, bind_eq_ok] at h
  obtain ⟨db₁, hbalance, e', _, hfee⟩ := h
  have hpays : Pays db db₁ := by
    unfold convertBalance at hbalance
    split at hbalance
    . simp only [bind_eq_ok, pure_eq_ok] at hbalance
      obtain ⟨_, _, _, _, _, _, _, _, rfl⟩ := hbalance
      refine ⟨[_], rfl, ?_⟩
      intro name symbol
      rw [List.map_singleton, List.sum_singleton]
      exact (Int.add_zero _).symm
    . cases hbalance
      exact .of_eq rfl rfl
  apply hpays.trans
  unfold convertFee at hfee
  split at hfee
  . simp only [bind_eq_ok, pure_eq_ok] at hfee
    obtain ⟨sbd, _, steem, _, _, _, db₂, hadjust, rfl⟩ := hfee
    obtain ⟨ledger, rfl, hbalance⟩ := mainBalance_adjustBalances hadjust
    refine ⟨[⟨e', db₁.headBlockTime, .feeConversion ledger.currentMedianHistory sbd steem⟩], rfl,
      ?_⟩
    intro name symbol
    rw [List.map_singleton, List.sum_singleton]
    apply (hbalance name symbol).trans
    rw [List.map_singleton, List.sum_singleton]
    rfl
  . cases hfee
    exact .of_eq rfl rfl

/-- Whatever happens to escrows, the records of movements are what is paid. -/
theorem pays_of_step {event : EscrowEvent} (hne : event ≠ .other) (h : db.Step event db') :
    Pays db db' := by
  cases event with
  | escrowTransfer => exact pays_escrowTransfer h
  | escrowApprove => exact pays_escrowApprove h
  | escrowDispute => exact pays_escrowDispute h
  | escrowRelease => exact pays_escrowRelease h
  | processSbdDebtConversions =>
    have h : db.processSbdDebtConversions = .ok db' := h
    unfold processSbdDebtConversions at h
    split at h
    . exact .foldlM (fun _ _ _ => pays_convertEscrow) h
    . cases h
      exact .of_eq rfl rfl
  | expireEscrowRatification => exact .foldlM (fun _ _ _ => pays_refundEscrow) h
  | other => exact absurd rfl hne

end EscrowDatabase

namespace EscrowDatabase

variable {db db' : EscrowDatabase}

theorem changes_of_step {event : EscrowEvent} (hnumbered : db.Numbered) (h : db.Step event db') :
    Changes db db' := by
  cases event with
  | escrowTransfer => exact (change_escrowTransfer h).change.changes
  | escrowApprove => exact (change_escrowApprove h).change.changes
  | escrowDispute => exact (change_escrowDispute h).change.changes
  | escrowRelease => exact (change_escrowRelease h).change.changes
  | processSbdDebtConversions =>
    have h : db.processSbdDebtConversions = .ok db' := h
    unfold processSbdDebtConversions at h
    split at h
    . exact (convertEscrows_cases (.all db.escrows) hnumbered h).1
    . cases h
      exact .refl _
  | expireEscrowRatification => exact (expireEscrowRatification_cases h).1
  | other => exact Change.changes (.none h.escrows h.nextEscrowId h.movements)

/-- The forced conversion of GBG does not pay an agent ahead of the approvals. -/
def Quiet (db : EscrowDatabase) : EscrowEvent → Prop
  | .processSbdDebtConversions =>
    db.convertsSbdDebt → ∀ e ∈ db.escrows.rows, ∀ steem, db.FeeWorth e steem → steem.amount = 0
  | _ => True

/-- A step keeps to the rules when it is quiet, and only then. -/
theorem lawful_iff_quiet {event : EscrowEvent} (hnumbered : db.Numbered) (hlawful : db.Lawful)
    (h : db.Step event db') : db'.Lawful ↔ db.Quiet event := by
  have hkept : (∀ m ∈ db'.movements, m ∈ db.movements ∨ m.Lawful) → db'.Lawful := by
    intro hnew m hm
    rcases hnew m hm with hm | hm
    . exact hlawful m hm
    . exact hm
  cases event with
  | escrowTransfer =>
    exact iff_of_true (hkept (change_escrowTransfer h).lawful) trivial
  | escrowApprove =>
    exact iff_of_true (hkept (change_escrowApprove h).lawful) trivial
  | escrowDispute =>
    exact iff_of_true (hkept (change_escrowDispute h).lawful) trivial
  | escrowRelease =>
    exact iff_of_true (hkept (change_escrowRelease h).lawful) trivial
  | processSbdDebtConversions =>
    have h : db.processSbdDebtConversions = .ok db' := h
    unfold processSbdDebtConversions at h
    split at h
    . next hconverts =>
      obtain ⟨_, hnew, hunlawful⟩ := convertEscrows_cases (.all db.escrows) hnumbered h
      constructor
      . intro hlawful' _ e he steem hworth
        by_contra hne
        exact hunlawful e he steem hworth hne hlawful'
      . intro hquiet
        apply hkept
        intro m hm
        rcases hnew m hm with hm | hm | ⟨e, he, steem, hworth, hne⟩
        . exact .inl hm
        . exact .inr hm
        . exact absurd (hquiet hconverts e he steem hworth) hne
    . next hconverts =>
      cases h
      exact iff_of_true hlawful fun hc => absurd hc hconverts
  | expireEscrowRatification =>
    exact iff_of_true (hkept (expireEscrowRatification_cases h).2.1) trivial
  | other =>
    refine iff_of_true ?_ trivial
    unfold Lawful
    rw [h.movements]
    exact hlawful

section balanced

theorem balanced_held (symbol : AssetSymbolType) :
    Balanced (fun m => m.net symbol) (fun e => e.held symbol) (· = 0) fun _ => True where
  opens _ _ _ := rfl
  advances _ _ _ _ _ hadvance _ := hadvance.held symbol
  closes _ _ _ hfee hclose := hclose.held hfee symbol

theorem balanced_fees :
    Balanced Movement.fees EscrowObject.fees (fun n => n = 0 ∨ n = 1) Movement.Lawful where
  opens time e hopen := by
    unfold EscrowObject.fees
    rw [hopen]
    rfl
  advances _ _ _ _ hfee hadvance hms := (hadvance.fees hms hfee).1
  closes time e m _ hclose := by
    cases hclose with
    | refund hopen =>
      unfold EscrowObject.fees
      rw [hopen]
      exact .inl rfl
    | release hmay =>
      unfold EscrowObject.fees
      rw [hmay.approved]
      exact .inr rfl

theorem balanced_refunds :
    Balanced (fun m => m.fees + m.refunds) EscrowObject.fees (· = 1) Movement.Lawful where
  opens time e hopen := by
    unfold EscrowObject.fees
    rw [hopen]
    rfl
  advances _ _ _ ms hfee hadvance hms := by
    obtain ⟨hfees, hrefunds⟩ := hadvance.fees hms hfee
    rw [List.sum_map_add, hrefunds, Int.add_zero]
    exact hfees
  closes _ _ _ _ hclose := by
    rw [← Int.add_assoc]
    exact hclose.fees

end balanced

/-- What holds of the money of all escrows and of its movements. -/
structure Lifecycle (db : EscrowDatabase) : Prop where
  lawful : db.Lawful
  /-- An open escrow holds what is left, and a closed one has given all of it away. -/
  held : ∀ symbol, db.Accounted (fun m => m.net symbol) (fun e => e.held symbol) (· = 0)
  /-- The agent is paid once both have approved, and never again. -/
  fees : db.Accounted Movement.fees EscrowObject.fees fun n => n = 0 ∨ n = 1
  /-- The fee of a closed escrow has been either paid or refunded. -/
  refunds : db.Accounted (fun m => m.fees + m.refunds) EscrowObject.fees (· = 1)

theorem accounted_of_changes {weight : Movement → ℤ} {value : EscrowObject → ℤ} {closed : ℤ → Prop}
    {ok : Movement → Prop} (hbalanced : Balanced weight value closed ok) (hnumbered : db.Numbered)
    (h : db.Accounted weight value closed) (hchanges : Changes db db')
    (hok : ∀ m ∈ db'.movements, ok m) : db'.Accounted weight value closed := by
  induction hchanges with
  | refl => exact h
  | tail hchanges hchange ih =>
    refine .change hbalanced (hchanges.numbered hnumbered) (ih ?_) hchange hok
    intro m hm
    obtain ⟨ms, hms⟩ := hchange.movements
    apply hok
    rw [hms]
    exact List.mem_append_left _ hm

theorem accounted_of_initial {weight : Movement → ℤ} {value : EscrowObject → ℤ} {closed : ℤ → Prop}
    (hescrows : db.escrows = .empty) (hnext : db.nextEscrowId = 0) (hmovements : db.movements = []) :
    db.Accounted weight value closed := by
  have htotal : ∀ id, db.total weight id = 0 := by
    intro id
    unfold total
    rw [hmovements]
    rfl
  constructor
  . rw [hescrows]
    intro e he
    exact absurd he List.not_mem_nil
  . rw [hnext]
    intro id hid
    exact absurd hid (Nat.not_lt_zero id)
  . exact fun id _ => htotal id

theorem numbered_of_reachable (h : escrowSystem.Reachable db) : db.Numbered := by
  apply h.invariant
  . rintro db ⟨hescrows, hnext, _⟩
    constructor
    . rw [hescrows]
      exact fun e he => absurd he List.not_mem_nil
    . rw [hescrows]
      exact fun e he => absurd he List.not_mem_nil
    . rw [hescrows]
      exact fun e he => absurd he List.not_mem_nil
  . intro db event db' hnumbered _ hstep
    exact (changes_of_step hnumbered hstep).numbered hnumbered

theorem lifecycle_of_quiet (h : escrowSystem.Reach Quiet db) : db.Lifecycle := by
  have hknown : ∀ db, escrowSystem.Reach Quiet db → db.Numbered :=
    fun _ h => numbered_of_reachable h.reachable
  refine h.invariant_of hknown ?_ ?_
  . rintro db ⟨hescrows, hnext, hmovements⟩
    refine ⟨?_, ?_, ?_, ?_⟩
    . unfold Lawful
      rw [hmovements]
      exact fun m hm => absurd hm List.not_mem_nil
    . exact fun _ => accounted_of_initial hescrows hnext hmovements
    . exact accounted_of_initial hescrows hnext hmovements
    . exact accounted_of_initial hescrows hnext hmovements
  . intro db event db' hnumbered hlifecycle hquiet hstep
    have hchanges := changes_of_step hnumbered hstep
    have hlawful := (lawful_iff_quiet hnumbered hlifecycle.lawful hstep).mpr hquiet
    refine ⟨hlawful, ?_, ?_, ?_⟩
    . intro symbol
      exact accounted_of_changes (balanced_held symbol) hnumbered (hlifecycle.held symbol) hchanges
        fun _ _ => trivial
    . exact accounted_of_changes balanced_fees hnumbered hlifecycle.fees hchanges hlawful
    . exact accounted_of_changes balanced_refunds hnumbered hlifecycle.refunds hchanges hlawful

/--
As long as the forced conversion of GBG is quiet, the lifecycle is kept in every state. What the
records say is what is paid, who has not been approved by a block end is gone after it, and the first
conversion that is not quiet breaks the rules. The step of the conversion is its loop over the escrows,
and `Pays` says what that loop pays, not what the loop over the accounts before it, an `other` step,
does to their balances.
-/
theorem escrow_lifecycle {db : EscrowDatabase} (h : escrowSystem.Reach Quiet db) :
    db.Lifecycle ∧ ∀ event db', db.Step event db' →
      (event ≠ .other → db.Pays db') ∧
        (event = .expireEscrowRatification → ∀ e ∈ db'.escrows.rows,
          e.isApproved = true ∨ db'.headBlockTime < e.ratificationDeadline) ∧
        (db'.Lawful ↔ db.Quiet event) := by
  have hlifecycle := lifecycle_of_quiet h
  refine ⟨hlifecycle, ?_⟩
  intro event db' hstep
  refine ⟨fun hne => pays_of_step hne hstep, ?_, ?_⟩
  . rintro rfl
    exact (expireEscrowRatification_cases hstep).2.2
  . exact lawful_iff_quiet (numbered_of_reachable h.reachable) hlifecycle.lawful hstep

section conversion

/-- A GBG is worth a GOLOS, and there are too many GBG. -/
def inDebt : EscrowDatabase where
  ledger :=
    { accounts := ((Table.empty.insert { name := "alice", sbdBalance := 2000000 } rfl).insert
        { name := "bob" } (by decide)).insert { name := "carol" } (by decide)
      currentMedianHistory := ⟨⟨1000, sbdSymbol⟩, ⟨1000, steemSymbol⟩⟩ }
  headBlockNum := steemitSbdDebtConvertInterval
  headBlockTime := 1000
  lastHardfork := 30
  sbdDebtPercent := 2500

def aliceToBob : EscrowTransferOperation where
  fromAccount := "alice"
  toAccount := "bob"
  agent := "carol"
  escrowId := 7
  sbdAmount := ⟨1000000, sbdSymbol⟩
  steemAmount := ⟨0, steemSymbol⟩
  fee := ⟨100000, sbdSymbol⟩
  ratificationDeadline := 2000
  escrowExpiration := 3000

def afterTransfer : EscrowDatabase :=
  (inDebt.escrowTransfer aliceToBob).toOption.getD {}

def afterConversion : EscrowDatabase :=
  afterTransfer.processSbdDebtConversions.toOption.getD {}

theorem step_afterTransfer : inDebt.escrowTransfer aliceToBob = .ok afterTransfer :=
  eq_ok_of_isSome (by decide +kernel)

theorem quiet_afterTransfer : escrowSystem.Reach Quiet afterTransfer := by
  have hinitial : escrowSystem.Reach Quiet inDebt := .initial ⟨rfl, rfl, rfl⟩
  exact .step (e := .escrowTransfer aliceToBob) hinitial trivial step_afterTransfer

/-- What is in the escrow has left alice. -/
theorem escrow_lifecycle_transfer :
    afterTransfer.Lifecycle ∧ afterTransfer.ledger.mainBalance "alice" sbdSymbol = 900000 :=
  ⟨(escrow_lifecycle quiet_afterTransfer).1, by decide +kernel⟩

/-- To convert a fee of worth before the approvals is against the rules. -/
theorem not_lawful_of_feeConversion {m : Movement} {symbol : AssetSymbolType}
    (hfee : m.isFeeConversion = true) (hopen : m.escrow.isApproved = false)
    (hpaid : m.paid m.escrow.agent symbol ≠ 0) : ¬m.Lawful := by
  obtain ⟨e, time, kind⟩ := m
  cases kind with
  | feeConversion rate sbd steem =>
    rintro ⟨_, hzero | happroved⟩
    . apply hpaid
      unfold Movement.paid
      exact (if_pos rfl).trans (Asset.amountIn_of_zero hzero symbol)
    . exact absurd (happroved.symm.trans hopen) (by decide)
  | _ => cases hfee

/-- Nobody has approved, and carol has been paid. -/
theorem agent_paid_before_approval :
    escrowSystem.Reachable afterConversion ∧
      (∀ e ∈ afterConversion.escrows.rows, e.toApproved = false ∧ e.agentApproved = false) ∧
      afterTransfer.ledger.mainBalance "carol" steemSymbol = 0 ∧
      afterConversion.ledger.mainBalance "carol" steemSymbol = 1000 ∧
      ¬afterConversion.Lawful := by
  have hconversion : afterTransfer.processSbdDebtConversions = .ok afterConversion :=
    eq_ok_of_isSome (by decide +kernel)
  have hpaid : ∃ m ∈ afterConversion.movements, m.isFeeConversion = true ∧
      m.escrow.isApproved = false ∧ m.paid m.escrow.agent steemSymbol ≠ 0 := by
    decide +kernel
  refine ⟨.step (e := .processSbdDebtConversions) quiet_afterTransfer.reachable trivial hconversion,
    by decide +kernel, by decide +kernel, by decide +kernel, ?_⟩
  intro hlawful
  obtain ⟨m, hm, hfee, hopen, hne⟩ := hpaid
  exact not_lawful_of_feeConversion hfee hopen hne (hlawful m hm)

end conversion

end EscrowDatabase

end Golos
