import Mathlib.Data.String.Basic
import Golos.Savings.Lemmas

/-!
This module contains how the requests to withdraw from savings are counted, and what each function
does to them.
-/

namespace Golos

open Checked Ledger

namespace SavingsDatabase

variable {db db' db'' : SavingsDatabase}

/-- The number of requests of an account. -/
def requestsOf (db : SavingsDatabase) (name : AccountName) : Nat :=
  db.savingsWithdraws.rows.countP fun w => w.fromAccount = name

/-- The counters are right, and the requests are in order. -/
structure Counted (db : SavingsDatabase) : Prop where
  counter : ∀ name c, db.counter name = some c → c.toNat = db.requestsOf name
  limit : ∀ name, db.requestsOf name ≤ steemitSavingsWithdrawRequestLimit
  sender : ∀ w ∈ db.savingsWithdraws.rows, (db.counter w.fromAccount).isSome
  id_lt : ∀ w ∈ db.savingsWithdraws.rows, w.id < db.nextWithdrawId
  unique : ∀ v ∈ db.savingsWithdraws.rows, ∀ w ∈ db.savingsWithdraws.rows,
    v.fromAccount = w.fromAccount → v.requestId = w.requestId → v = w
  amount : ∀ w ∈ db.savingsWithdraws.rows, 0 < w.amount.amount ∧ w.amount.amount ≤ 2 ^ 63

theorem requestsOf_pos {w : SavingsWithdrawObject} (h : w ∈ db.savingsWithdraws.rows) :
    0 < db.requestsOf w.fromAccount := by
  unfold requestsOf
  rw [List.countP_pos_iff]
  exact ⟨w, h, by simp⟩

namespace Counted

theorem congr (h : db.Counted) (hcounter : ∀ name, db'.counter name = db.counter name)
    (hwithdraws : db'.savingsWithdraws = db.savingsWithdraws)
    (hnext : db'.nextWithdrawId = db.nextWithdrawId) : db'.Counted := by
  have hrequests : ∀ name, db'.requestsOf name = db.requestsOf name := by
    intro name
    unfold requestsOf
    rw [hwithdraws]
  constructor
  . intro name c hc
    rw [hrequests]
    exact h.counter name c (hcounter name ▸ hc)
  . intro name
    rw [hrequests]
    exact h.limit name
  . rw [hwithdraws]
    intro w hw
    rw [hcounter]
    exact h.sender w hw
  . rw [hwithdraws, hnext]
    exact h.id_lt
  . rw [hwithdraws]
    exact h.unique
  . rw [hwithdraws]
    exact h.amount

theorem sameRequests (h : db.Counted) (hsame : SameRequests db db') : db'.Counted := by
  apply h.congr hsame.counter
  . rw [hsame.frame]
  . rw [hsame.frame]

/-- There is one more request, and its sender has counted it. -/
theorem insert (h : db.Counted) {w : SavingsWithdrawObject} {c : UInt8}
    (hinserts : Table.Inserts db.savingsWithdraws db'.savingsWithdraws w)
    (hid : w.id = db.nextWithdrawId) (hnext : db'.nextWithdrawId = db.nextWithdrawId + 1)
    (hfresh : ∀ v ∈ db.savingsWithdraws.rows, v.fromAccount = w.fromAccount →
      v.requestId ≠ w.requestId)
    (hamount : 0 < w.amount.amount ∧ w.amount.amount ≤ 2 ^ 63)
    (hc : db.counter w.fromAccount = some c)
    (hlimit : c.toNat < steemitSavingsWithdrawRequestLimit)
    (hcounter : ∀ name, db'.counter name =
      if name = w.fromAccount then some (c + 1) else db.counter name) : db'.Counted := by
  have hrequests : ∀ name, db'.requestsOf name =
      db.requestsOf name + if w.fromAccount = name then 1 else 0 := by
    intro name
    exact hinserts.countP fun v => v.fromAccount = name
  have hsucc : (c + 1).toNat = c.toNat + 1 := by
    unfold steemitSavingsWithdrawRequestLimit at hlimit
    rw [UInt8.toNat_add]
    exact Nat.mod_eq_of_lt (by simp; omega)
  constructor
  . intro name c' hc'
    rw [hrequests]
    rw [hcounter] at hc'
    split at hc'
    . next heq =>
      injection hc' with hc'
      rw [if_pos heq.symm, ← hc', hsucc, heq, h.counter _ c hc]
    . next hne =>
      rw [if_neg (Ne.symm hne), h.counter _ c' hc', Nat.add_zero]
  . intro name
    rw [hrequests]
    split
    . next heq =>
      rw [← heq, ← h.counter _ c hc]
      exact hlimit
    . exact h.limit name
  . intro v hv
    rw [hcounter]
    split
    . rfl
    . next hne =>
      rcases (hinserts.mem v).mp hv with hv | rfl
      . exact h.sender v hv
      . exact absurd rfl hne
  . intro v hv
    rw [hnext]
    rcases (hinserts.mem v).mp hv with hv | rfl
    . exact (h.id_lt v hv).trans (Nat.lt_succ_self _)
    . rw [hid]
      exact Nat.lt_succ_self _
  . intro u hu v hv hfrom hrequest
    rcases (hinserts.mem u).mp hu with hu | rfl
    . rcases (hinserts.mem v).mp hv with hv | rfl
      . exact h.unique u hu v hv hfrom hrequest
      . exact absurd hrequest (hfresh u hu hfrom)
    . rcases (hinserts.mem v).mp hv with hv | rfl
      . exact absurd hrequest.symm (hfresh v hv hfrom.symm)
      . rfl
  . intro v hv
    rcases (hinserts.mem v).mp hv with hv | rfl
    . exact h.amount v hv
    . exact hamount

/-- There is one request less, and its sender has counted it. -/
theorem remove (h : db.Counted) {w : SavingsWithdrawObject} {c : UInt8}
    (hw : w ∈ db.savingsWithdraws.rows)
    (hremoves : Table.Removes db.savingsWithdraws db'.savingsWithdraws [w])
    (hnext : db'.nextWithdrawId = db.nextWithdrawId) (hc : db.counter w.fromAccount = some c)
    (hcounter : ∀ name, db'.counter name =
      if name = w.fromAccount then some (c - 1) else db.counter name) : db'.Counted := by
  have hrequests : ∀ name, db'.requestsOf name + (if w.fromAccount = name then 1 else 0) =
      db.requestsOf name := by
    intro name
    have := hremoves.countP fun v => v.fromAccount = name
    rw [List.countP_singleton] at this
    simpa [requestsOf] using this
  have hpos := requestsOf_pos hw
  have hpred : (c - 1).toNat = c.toNat - 1 := by
    apply UInt8.toNat_sub_of_le
    rw [UInt8.le_iff_toNat_le, h.counter _ c hc]
    exact hpos
  have hrows : ∀ v ∈ db'.savingsWithdraws.rows, v ∈ db.savingsWithdraws.rows :=
    fun v hv => ((hremoves.mem v).mp hv).1
  constructor
  . intro name c' hc'
    have hname := hrequests name
    rw [hcounter] at hc'
    split at hc'
    . next heq =>
      injection hc' with hc'
      rw [if_pos heq.symm, heq] at hname
      rw [← hc', hpred, h.counter _ c hc, heq]
      omega
    . next hne =>
      rw [if_neg (Ne.symm hne)] at hname
      rw [h.counter _ c' hc']
      omega
  . intro name
    have := hrequests name
    have := h.limit name
    omega
  . intro v hv
    rw [hcounter]
    split
    . rfl
    . exact h.sender v (hrows v hv)
  . rw [hnext]
    exact fun v hv => h.id_lt v (hrows v hv)
  . exact fun u hu v hv => h.unique u (hrows u hu) v (hrows v hv)
  . exact fun v hv => h.amount v (hrows v hv)

/-- Only the amounts of the requests are different. -/
theorem map (h : db.Counted) {f : SavingsWithdrawObject → SavingsWithdrawObject}
    (hcounter : ∀ name, db'.counter name = db.counter name)
    (hnext : db'.nextWithdrawId = db.nextWithdrawId)
    (hrows : db'.savingsWithdraws.rows = db.savingsWithdraws.rows.map f)
    (hf : ∀ w ∈ db.savingsWithdraws.rows, f w = { w with amount := (f w).amount } ∧
      0 < (f w).amount.amount ∧ (f w).amount.amount ≤ 2 ^ 63) : db'.Counted := by
  have hfrom : ∀ w ∈ db.savingsWithdraws.rows, (f w).fromAccount = w.fromAccount := by
    intro w hw
    rw [(hf w hw).1]
  have hrequests : ∀ name, db'.requestsOf name = db.requestsOf name := by
    intro name
    unfold requestsOf
    rw [hrows, List.countP_map]
    apply List.countP_congr
    intro w hw
    simp [hfrom w hw]
  constructor
  . intro name c hc
    rw [hrequests]
    exact h.counter name c (hcounter name ▸ hc)
  . intro name
    rw [hrequests]
    exact h.limit name
  . rw [hrows, List.forall_mem_map]
    intro w hw
    rw [hcounter, hfrom w hw]
    exact h.sender w hw
  . rw [hrows, List.forall_mem_map, hnext]
    intro w hw
    rw [(hf w hw).1]
    exact h.id_lt w hw
  . simp only [hrows, List.forall_mem_map]
    intro v hv w hw hvw hrequest
    rw [hfrom v hv, hfrom w hw] at hvw
    rw [(hf v hv).1, (hf w hw).1] at hrequest
    rw [h.unique v hv w hw hvw hrequest]
  . rw [hrows, List.forall_mem_map]
    exact fun w hw => (hf w hw).2

end Counted

section counter

variable {name : AccountName} (f : UInt8 → UInt8) (h : db'.accounts = db.accounts.modify name fun a =>
  { a with savingsWithdrawRequests := f a.savingsWithdrawRequests })

include h

theorem counter_modifyCounter {c : UInt8} (hc : db.counter name = some c) (name' : AccountName) :
    db'.counter name' = if name' = name then some (f c) else db.counter name' := by
  unfold counter at hc ⊢
  rw [h, Table.find?_modify]
  split
  . next heq =>
    obtain ⟨a, ha, rfl⟩ := Option.map_eq_some_iff.mp hc
    simp [heq, ha]
  . rfl

theorem saved_modifyCounter (name' : AccountName) (s : AssetSymbolType) :
    db'.saved name' s = db.saved name' s := by
  unfold saved
  rw [h, Table.find?_modify]
  split
  . rw [Option.map_map]
    rfl
  . rfl

omit h

theorem counter_of_find? {name : AccountName} {a : SavingsAccountObject}
    (h : db.accounts.find? name = some a) : db.counter name = some a.savingsWithdrawRequests := by
  unfold counter
  rw [h, Option.map_some]

theorem findSavingsWithdraw_eq_some {owner : AccountName} {requestId : Nat}
    {w : SavingsWithdrawObject} (h : db.findSavingsWithdraw owner requestId = some w) :
    w ∈ db.savingsWithdraws.rows ∧ w.fromAccount = owner ∧ w.requestId = requestId := by
  refine ⟨List.mem_of_find?_eq_some h, ?_⟩
  simpa using List.find?_some h

theorem findSavingsWithdraw_eq_none {owner : AccountName} {requestId : Nat}
    (h : (db.findSavingsWithdraw owner requestId).isNone) :
    ∀ v ∈ db.savingsWithdraws.rows, v.fromAccount = owner → v.requestId ≠ requestId := by
  rw [Option.isNone_iff_eq_none] at h
  unfold findSavingsWithdraw at h
  rw [List.find?_eq_none] at h
  simpa using h

end counter

section evaluators

/-- The request that `transfer_from_savings` makes. -/
def newRequest (db : SavingsDatabase) (o : TransferFromSavingsOperation) : SavingsWithdrawObject where
  id := db.nextWithdrawId
  fromAccount := o.fromAccount
  toAccount := o.toAccount
  requestId := o.requestId
  amount := o.amount
  complete := db.headBlockTime + steemitSavingsWithdrawTime

/-- What `transfer_from_savings` does. -/
structure Requested (db db' : SavingsDatabase) (o : TransferFromSavingsOperation) : Prop where
  inserts : Table.Inserts db.savingsWithdraws db'.savingsWithdraws (db.newRequest o)
  nextWithdrawId : db'.nextWithdrawId = db.nextWithdrawId + 1
  saved : ∀ name s, db'.saved name s = db.saved name s - single o.fromAccount o.amount name s
  ledger : db'.ledger = db.ledger
  headBlockTime : db'.headBlockTime = db.headBlockTime

theorem amount_of_validate {o : TransferFromSavingsOperation} {u : Unit} (h : o.validate = .ok u) :
    0 < o.amount.amount := by
  simp only [TransferFromSavingsOperation.validate, checkGolosOrGbgGt0, checkMustBe, bind_eq_ok,
    ensure_eq_ok] at h
  obtain ⟨_, _, _, _, _, _, hpos⟩ := h
  exact hpos

theorem transferFromSavings_cases {o : TransferFromSavingsOperation} (hcounted : db.Counted)
    (h : db.transferFromSavings o = .ok db') : Requested db db' o ∧ db'.Counted := by
  simp only [transferFromSavings, bind_eq_ok, ensure_eq_ok, get_eq_ok, pure_eq_ok,
    getAccount_eq_ok, Asset.neg_eq_ok] at h
  obtain ⟨_, hvalidate, sender, hsender, _, _, _, hlimit, _, _, delta, ⟨hneg, rfl⟩, db₁, hadjust, _,
    hmissing, savingsWithdraws, hemplace, rfl⟩ := h
  have hsaves := saves_adjustSavingsBalance hadjust
  obtain ⟨accounts, rfl⟩ : ∃ accounts, db₁ = { db with accounts := accounts } := ⟨_, hsaves.frame⟩
  have hpos := amount_of_validate hvalidate
  have hinserts : Table.Inserts db.savingsWithdraws savingsWithdraws (db.newRequest o) :=
    .emplace hemplace
  have hcounter := counter_of_find? hsender
  constructor
  . refine ⟨hinserts, rfl, ?_, rfl, rfl⟩
    intro name s
    refine (saved_modifyCounter (· + 1) rfl name s).trans ((hsaves.saved name s).trans ?_)
    unfold single
    split
    . rfl
    . rw [Int.sub_zero, Int.add_zero]
  . have hle : o.amount.amount ≤ 2 ^ 63 := by
      unfold minInt64 at hneg
      omega
    refine hcounted.insert hinserts rfl rfl ?_ ⟨hpos, hle⟩ hcounter hlimit ?_
    . exact findSavingsWithdraw_eq_none hmissing
    . intro name
      rw [counter_modifyCounter (· + 1) rfl ((hsaves.counter _).trans hcounter), hsaves.counter]
      rfl

/-- What the end of a request leaves of the requests. -/
structure Settled (db db' : SavingsDatabase) (l : List SavingsWithdrawObject) : Prop where
  removes : Table.Removes db.savingsWithdraws db'.savingsWithdraws l
  nextWithdrawId : db'.nextWithdrawId = db.nextWithdrawId
  headBlockTime : db'.headBlockTime = db.headBlockTime

/-- What `cancel_transfer_from_savings` does. -/
structure Returned (db db' : SavingsDatabase) (w : SavingsWithdrawObject) : Prop
    extends Settled db db' [w] where
  mem : w ∈ db.savingsWithdraws.rows
  saved : ∀ name s, db'.saved name s = db.saved name s + single w.fromAccount w.amount name s
  ledger : db'.ledger = db.ledger

theorem cancelTransferFromSavings_cases {o : CancelTransferFromSavingsOperation}
    (hcounted : db.Counted) (h : db.cancelTransferFromSavings o = .ok db') :
    (∃ w, db.findSavingsWithdraw o.fromAccount o.requestId = some w ∧ Returned db db' w) ∧
      db'.Counted := by
  simp only [cancelTransferFromSavings, bind_eq_ok, get_eq_ok, pure_eq_ok, getAccount_eq_ok] at h
  obtain ⟨_, _, sender, hsender, w, hfind, db₁, hadjust, rfl⟩ := h
  obtain ⟨hw, hfrom, _⟩ := findSavingsWithdraw_eq_some hfind
  have hsaves := saves_adjustSavingsBalance hadjust
  obtain ⟨accounts, rfl⟩ : ∃ accounts, db₁ = { db with accounts := accounts } := ⟨_, hsaves.frame⟩
  rw [← hfrom] at hsaves hsender ⊢
  have hremoves := Table.Removes.erase hw
  have hcounter := counter_of_find? hsender
  constructor
  . refine ⟨w, hfrom ▸ hfind, ⟨hremoves, rfl, rfl⟩, hw, ?_, rfl⟩
    intro name s
    exact (saved_modifyCounter (· - 1) rfl name s).trans (hsaves.saved name s)
  . refine hcounted.remove hw ?_ ?_ hcounter ?_
    . exact hremoves
    . rfl
    . intro name
      rw [counter_modifyCounter (· - 1) rfl ((hsaves.counter _).trans hcounter), hsaves.counter]

end evaluators

section blocks

/-- The requests whose time has come. -/
def due (db : SavingsDatabase) : List SavingsWithdrawObject :=
  db.savingsWithdraws.rows.filter fun w => w.complete ≤ db.headBlockTime

/-- What a list of payments comes to. -/
def payments (l : List SavingsWithdrawObject) (name : AccountName) (s : AssetSymbolType) : ℤ :=
  (l.map fun w => single w.toAccount w.amount name s).sum

/-- What `process_savings_withdraws` does. -/
structure Paid (db db' : SavingsDatabase) (l : List SavingsWithdrawObject) : Prop
    extends Settled db db' l where
  saved : ∀ name s, db'.saved name s = db.saved name s
  ledger : ∀ name s,
    db'.ledger.mainBalance name s = db.ledger.mainBalance name s + payments l name s

theorem byCompleteFromRid_sorted (db : SavingsDatabase) :
    db.byCompleteFromRid.Pairwise fun v w => v.complete < w.complete ∨
      (v.complete = w.complete ∧ (v.fromAccount < w.fromAccount ∨
        (v.fromAccount = w.fromAccount ∧ v.requestId ≤ w.requestId))) := by
  apply List.pairwise_insertionSort_of
  . intro v _ w _
    rcases lt_trichotomy v.complete w.complete with h | h | h
    . exact .inl (.inl h)
    . rcases lt_trichotomy v.fromAccount w.fromAccount with h' | h' | h'
      . exact .inl (.inr ⟨h, .inl h'⟩)
      . rcases le_total v.requestId w.requestId with h'' | h''
        . exact .inl (.inr ⟨h, .inr ⟨h', h''⟩⟩)
        . exact .inr (.inr ⟨h.symm, .inr ⟨h'.symm, h''⟩⟩)
      . exact .inr (.inr ⟨h.symm, .inl h'⟩)
    . exact .inr (.inl h)
  . intro u _ v _ w _ huv hvw
    rcases huv with huv | ⟨huv, huv'⟩
    . rcases hvw with hvw | ⟨hvw, _⟩
      . exact .inl (huv.trans hvw)
      . exact .inl (hvw ▸ huv)
    . rcases hvw with hvw | ⟨hvw, hvw'⟩
      . exact .inl (huv ▸ hvw)
      . refine .inr ⟨huv.trans hvw, ?_⟩
        rcases huv' with huv' | ⟨huv', huv''⟩
        . rcases hvw' with hvw' | ⟨hvw', _⟩
          . exact .inl (huv'.trans hvw')
          . exact .inl (hvw' ▸ huv')
        . rcases hvw' with hvw' | ⟨hvw', hvw''⟩
          . exact .inl (huv' ▸ hvw')
          . exact .inr ⟨huv'.trans hvw', huv''.trans hvw''⟩

/-- The loop takes the requests whose time has come, and no others. -/
theorem takeWhile_perm_due (db : SavingsDatabase) :
    (db.byCompleteFromRid.takeWhile fun w => w.complete ≤ db.headBlockTime).Perm db.due := by
  rw [List.takeWhile_eq_filter _ db.byCompleteFromRid_sorted]
  . exact (List.perm_insertionSort _ _).filter _
  . intro v _ w _ hvw hw
    rw [decide_eq_true_eq] at hw ⊢
    omega

theorem payWithdraw_cases {w : SavingsWithdrawObject} (hcounted : db.Counted)
    (hw : w ∈ db.savingsWithdraws.rows) (h : db.payWithdraw w = .ok db') :
    Paid db db' [w] ∧ db'.savingsWithdraws = db.savingsWithdraws.erase w.id ∧ db'.Counted := by
  simp only [payWithdraw, bind_eq_ok, pure_eq_ok, getAccount_eq_ok] at h
  obtain ⟨db₁, hadjust, sender, hsender, rfl⟩ := h
  obtain ⟨hmoves, hframe⟩ := adjustBalance_cases hadjust
  obtain ⟨ledger, rfl⟩ : ∃ ledger, db₁ = { db with ledger := ledger } := ⟨_, hframe⟩
  have hremoves := Table.Removes.erase hw
  have hcounter : db.counter w.fromAccount = some sender.savingsWithdrawRequests :=
    counter_of_find? hsender
  rw [Table.key_of_find? hsender]
  refine ⟨⟨⟨hremoves, rfl, rfl⟩, ?_, ?_⟩, rfl, ?_⟩
  . exact saved_modifyCounter (· - 1) rfl
  . intro name s
    unfold payments
    rw [List.map_singleton, List.sum_singleton]
    exact hmoves.balance name s
  . refine hcounted.remove hw ?_ ?_ hcounter ?_
    . exact hremoves
    . rfl
    . exact counter_modifyCounter (· - 1) rfl hcounter

theorem payWithdraws_cases {l : List SavingsWithdrawObject} (hcounted : db.Counted)
    (hl : Table.Lists db.savingsWithdraws l) (h : l.foldlM payWithdraw db = .ok db') :
    Paid db db' l ∧ db'.Counted := by
  induction l generalizing db with
  | nil =>
    injection h with h
    rw [← h]
    refine ⟨⟨⟨.nil _, rfl, rfl⟩, fun _ _ => rfl, ?_⟩, hcounted⟩
    intro name s
    exact (Int.add_zero _).symm
  | cons w l ih =>
    rw [List.foldlM_cons, bind_eq_ok] at h
    obtain ⟨db₁, hpay, h⟩ := h
    have hw := Table.mem_of_find? (hl.row w List.mem_cons_self)
    obtain ⟨hpaid, herase, hcounted₁⟩ := payWithdraw_cases hcounted hw hpay
    obtain ⟨hrest, hcounted'⟩ := ih hcounted₁ (herase ▸ hl.erase) h
    refine ⟨⟨⟨.cons hw (herase ▸ hrest.removes), ?_, ?_⟩, ?_, ?_⟩, hcounted'⟩
    . rw [hrest.nextWithdrawId, hpaid.nextWithdrawId]
    . rw [hrest.headBlockTime, hpaid.headBlockTime]
    . intro name s
      rw [hrest.saved, hpaid.saved]
    . intro name s
      rw [hrest.ledger, hpaid.ledger]
      unfold payments
      rw [List.map_singleton, List.sum_singleton, List.map_cons, List.sum_cons, Int.add_assoc]

theorem processSavingsWithdraws_cases (hcounted : db.Counted)
    (h : db.processSavingsWithdraws = .ok db') : Paid db db' db.due ∧ db'.Counted := by
  have hperm := db.takeWhile_perm_due
  have hlists : Table.Lists db.savingsWithdraws
      (db.byCompleteFromRid.takeWhile fun w => w.complete ≤ db.headBlockTime) :=
    (Table.Lists.filter db.savingsWithdraws fun w => w.complete ≤ db.headBlockTime).perm hperm
  obtain ⟨hpaid, hcounted'⟩ := payWithdraws_cases hcounted hlists h
  refine ⟨⟨⟨⟨?_, ?_⟩, hpaid.nextWithdrawId, hpaid.headBlockTime⟩, hpaid.saved, ?_⟩, hcounted'⟩
  . intro w
    rw [hpaid.removes.mem, hperm.mem_iff]
  . intro f
    rw [hpaid.removes.sum, (hperm.map f).sum_eq]
  . intro name s
    rw [hpaid.ledger]
    unfold payments
    rw [(hperm.map _).sum_eq]

end blocks

section conversion

/-- What the forced conversion leaves of a request. -/
def converted (rate : Nat) (w : SavingsWithdrawObject) : SavingsWithdrawObject :=
  if w.amount.symbol = sbdSymbol then
    { w with
      amount := ⟨w.amount.amount - w.amount.amount * rate / steemit100Percent, sbdSymbol⟩ }
  else
    w

/-- The conversion leaves something of this request. -/
def Leaves (rate : Nat) (w : SavingsWithdrawObject) : Prop :=
  rate < steemit100Percent ∨ w.amount.symbol ≠ sbdSymbol

theorem convertedPart_eq {x : ℤ} (hx : 0 ≤ x) (hle : x ≤ 2 ^ 63)
    (hlt : x * db.sbdDebtConvertRate < 2 ^ 63 * steemit100Percent) :
    db.convertedPart x = .ok ⟨x * db.sbdDebtConvertRate / steemit100Percent, sbdSymbol⟩ := by
  have hnonneg : 0 ≤ x * db.sbdDebtConvertRate := Int.mul_nonneg hx (Int.natCast_nonneg _)
  have hmul : toUint128 x * db.sbdDebtConvertRate = (x * db.sbdDebtConvertRate).toNat := by
    unfold toUint128
    rw [Int.emod_eq_of_lt hx (by omega), Int.toNat_mul hx (Int.natCast_nonneg _), Int.toNat_natCast]
  have hdiv : toUint128 x * db.sbdDebtConvertRate % 2 ^ 128 / steemit100Percent =
      (x * db.sbdDebtConvertRate / steemit100Percent).toNat := by
    unfold steemit100Percent at hlt ⊢
    rw [hmul, Nat.mod_eq_of_lt (by omega)]
    omega
  unfold convertedPart
  rw [hdiv, ofUint128_of_le]
  . rfl
  . exact Int.ediv_nonneg hnonneg (Int.natCast_nonneg _)
  . unfold maxInt64
    rw [← Int.lt_add_one_iff]
    apply Int.ediv_lt_of_lt_mul (by decide)
    exact hlt

theorem amount_converted {rate : Nat} {w : SavingsWithdrawObject} (hleaves : Leaves rate w)
    (hpos : 0 < w.amount.amount) :
    0 < (converted rate w).amount.amount ∧ (converted rate w).amount.amount ≤ w.amount.amount := by
  unfold converted
  split
  . next hsymbol =>
    have hrate := hleaves.resolve_right (not_not_intro hsymbol)
    have hlt : w.amount.amount * rate / steemit100Percent < w.amount.amount := by
      apply Int.ediv_lt_of_lt_mul (by decide)
      exact Int.mul_lt_mul_of_pos_left (Int.ofNat_lt.mpr hrate) hpos
    have hnonneg : 0 ≤ w.amount.amount * rate / steemit100Percent :=
      Int.ediv_nonneg (Int.mul_nonneg hpos.le (Int.natCast_nonneg _)) (Int.natCast_nonneg _)
    dsimp only
    omega
  . exact ⟨hpos, le_rfl⟩

theorem convertWithdraw_cases {removed : Removed} {w : SavingsWithdrawObject}
    {l l' : List SavingsWithdrawObject} (hrows : db.savingsWithdraws.rows = l ++ w :: l')
    (hleaves : Leaves db.sbdDebtConvertRate w)
    (hamount : 0 < w.amount.amount ∧ w.amount.amount ≤ 2 ^ 63)
    (h : db.convertWithdraw removed w = .ok db') :
    db' = { db with ledger := db'.ledger, savingsWithdraws := db'.savingsWithdraws } ∧
      db'.savingsWithdraws.rows = l ++ converted db.sbdDebtConvertRate w :: l' := by
  unfold convertWithdraw at h
  split at h
  . next hskip =>
    have hsymbol : w.amount.symbol ≠ sbdSymbol := hskip.resolve_right (by omega)
    cases h
    refine ⟨rfl, ?_⟩
    unfold converted
    rw [if_neg hsymbol]
    exact hrows
  . next hskip =>
    rw [not_or, not_not] at hskip
    simp only [bind_eq_ok] at h
    obtain ⟨sbd, hsbd, steem, _, db₁, hadjust, h⟩ := h
    have hrate := hleaves.resolve_right (not_not_intro hskip.1)
    have hlt : w.amount.amount * db.sbdDebtConvertRate < 2 ^ 63 * steemit100Percent :=
      (Int.mul_le_mul_of_nonneg_right hamount.2 (Int.natCast_nonneg _)).trans_lt
        (Int.mul_lt_mul_of_pos_left (Int.ofNat_lt.mpr hrate) (by decide))
    rw [convertedPart_eq hamount.1.le hamount.2 hlt] at hsbd
    injection hsbd with hsbd
    have hconverted : converted db.sbdDebtConvertRate w = { w with
        amount := ⟨w.amount.amount - sbd.amount, sbdSymbol⟩ } := by
      unfold converted
      rw [if_pos hskip.1, ← hsbd]
    have hpos := (amount_converted hleaves hamount.1).1
    rw [hconverted] at hpos ⊢
    obtain ⟨ledger, rfl⟩ : ∃ ledger, db₁ = { db with ledger := ledger } :=
      ⟨_, (adjustBalance_cases hadjust).2⟩
    split at h
    . next heq =>
      rw [heq] at hpos
      exact absurd hpos (by simp)
    . simp only [bind_eq_ok, pure_eq_ok, Asset.sub_eq_ok] at h
      obtain ⟨amount, ⟨_, _, rfl⟩, rfl⟩ := h
      refine ⟨rfl, ?_⟩
      rw [← hskip.1]
      exact Table.rows_modify_of_append (fun v : SavingsWithdrawObject =>
        { v with amount := ⟨w.amount.amount - sbd.amount, w.amount.symbol⟩ }) (fun _ => rfl) hrows

/-- The loop over the requests. -/
theorem convertWithdraws_cases {removed : Removed} {l l' : List SavingsWithdrawObject}
    (hrows : db.savingsWithdraws.rows = l ++ l')
    (hleaves : ∀ w ∈ l', Leaves db.sbdDebtConvertRate w)
    (hamount : ∀ w ∈ l', 0 < w.amount.amount ∧ w.amount.amount ≤ 2 ^ 63)
    (h : l'.foldlM (fun db w => db.convertWithdraw removed w) db = .ok db') :
    db' = { db with ledger := db'.ledger, savingsWithdraws := db'.savingsWithdraws } ∧
      db'.savingsWithdraws.rows = l ++ l'.map (converted db.sbdDebtConvertRate) := by
  induction l' generalizing db l with
  | nil =>
    injection h with h
    rw [← h]
    exact ⟨rfl, hrows⟩
  | cons w l' ih =>
    rw [List.foldlM_cons, bind_eq_ok] at h
    obtain ⟨db₁, hturn, h⟩ := h
    obtain ⟨hframe, hrows₁⟩ := convertWithdraw_cases hrows (hleaves w List.mem_cons_self)
      (hamount w List.mem_cons_self) hturn
    have hrate : db₁.sbdDebtConvertRate = db.sbdDebtConvertRate := by rw [hframe]
    rw [List.append_cons] at hrows₁
    obtain ⟨hframe', hrows'⟩ := ih hrows₁
      (fun v hv => hrate ▸ hleaves v (List.mem_cons_of_mem w hv))
      (fun v hv => hamount v (List.mem_cons_of_mem w hv)) h
    constructor
    . rw [hframe', hframe]
    . rw [hrows', hrate, List.map_cons, List.append_assoc, List.singleton_append]

/-- What `process_sbd_debt_conversions` does to the requests. -/
structure Converted (db db' : SavingsDatabase) : Prop where
  rows : db'.savingsWithdraws.rows = if db.convertsSbdDebt then
      db.savingsWithdraws.rows.map (converted db.sbdDebtConvertRate)
    else
      db.savingsWithdraws.rows
  nextWithdrawId : db'.nextWithdrawId = db.nextWithdrawId
  headBlockTime : db'.headBlockTime = db.headBlockTime

theorem processSbdDebtConversions_cases {removed : Removed} (hcounted : db.Counted)
    (hleaves : db.convertsSbdDebt →
      ∀ w ∈ db.savingsWithdraws.rows, Leaves db.sbdDebtConvertRate w)
    (h : db.processSbdDebtConversions removed = .ok db') : Converted db db' ∧ db'.Counted := by
  unfold processSbdDebtConversions at h
  split at h
  . next hconverts =>
    rw [bind_eq_ok] at h
    obtain ⟨db₁, haccounts, hrequests⟩ := h
    have hsame : SameRequests db db₁ := sameRequests_foldlM (fun _ _ _ => sameRequests_convertAccount)
      haccounts
    have hrate : db₁.sbdDebtConvertRate = db.sbdDebtConvertRate := by rw [hsame.frame]
    have hrows : db₁.savingsWithdraws.rows = db.savingsWithdraws.rows := by rw [hsame.frame]
    rw [hrows] at hrequests
    obtain ⟨hframe, hrows'⟩ := convertWithdraws_cases (l := []) hrows (hrate ▸ hleaves hconverts)
      hcounted.amount hrequests
    rw [hrate, List.nil_append] at hrows'
    refine ⟨⟨?_, ?_, ?_⟩, ?_⟩
    . rw [if_pos hconverts, hrows']
    . rw [hframe, hsame.frame]
    . rw [hframe, hsame.frame]
    . apply hcounted.map _ _ hrows'
      . intro w hw
        have hle := hcounted.amount w hw
        have hconverted := amount_converted (hleaves hconverts w hw) hle.1
        refine ⟨?_, hconverted.1, hconverted.2.trans hle.2⟩
        unfold converted
        split
        . rfl
        . rfl
      . intro name
        rw [hframe]
        exact hsame.counter name
      . rw [hframe, hsame.frame]
  . next hconverts =>
    cases h
    exact ⟨⟨(if_neg hconverts).symm, rfl, rfl⟩, hcounted⟩

end conversion

end SavingsDatabase

end Golos
