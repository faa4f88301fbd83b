import Golos.Savings.Requests

/-!
This module contains what becomes of the requests to withdraw from savings: the counters are right,
and each request is paid when its time comes or returned before.
-/

namespace Golos

open Checked Ledger

namespace SavingsDatabase

variable {db db' : SavingsDatabase} {event : SavingsEvent}

/-- The forced conversion leaves something of each request. -/
def Allowed (db : SavingsDatabase) : SavingsEvent → Prop
  | .processSbdDebtConversions _ =>
    db.convertsSbdDebt → ∀ w ∈ db.savingsWithdraws.rows, Leaves db.sbdDebtConvertRate w
  | _ => True

/-- The requests that a step ends, each as it is then. -/
def settled (db : SavingsDatabase) : SavingsEvent → List SavingsWithdrawObject
  | .cancelTransferFromSavings o => (db.findSavingsWithdraw o.fromAccount o.requestId).toList
  | .processSavingsWithdraws => db.due
  | _ => []

/-- What a step does to the requests. -/
def Effect (db : SavingsDatabase) : SavingsEvent → SavingsDatabase → Prop
  | .transferFromSavings o, db' => Requested db db' o
  | .cancelTransferFromSavings o, db' =>
    ∃ w, db.findSavingsWithdraw o.fromAccount o.requestId = some w ∧ Returned db db' w
  | .processSbdDebtConversions _, db' => Converted db db'
  | .processSavingsWithdraws, db' => Paid db db' db.due
  | _, db' => db'.savingsWithdraws = db.savingsWithdraws ∧ db'.nextWithdrawId = db.nextWithdrawId

/-- Nothing is due between blocks. -/
def Punctual (db : SavingsDatabase) : Prop :=
  db.stage = .transactions ∨ db.stage = .withdrawn →
    ∀ w ∈ db.savingsWithdraws.rows, db.headBlockTime < w.complete

/-- The number of requests with an id. -/
def pending (db : SavingsDatabase) (id : Nat) : Nat :=
  db.savingsWithdraws.rows.countP fun w => w.id = id

section step

theorem counted_startBlock (h : db.Counted) (timestamp : Nat) :
    (db.startBlock timestamp).Counted := by
  refine h.congr ?_ rfl rfl
  intro name
  have hfind : (db.startBlock timestamp).accounts.find? name = (db.accounts.find? name).map _ :=
    Table.find?_modifyWhere db.accounts _
      (SavingsAccountObject.pass ((timestamp : ℤ) - db.headBlockTime)) (fun _ => rfl) name
  unfold counter
  rw [hfind, Option.map_map]
  rfl

theorem counter_otherChange (hother : db.OtherChange db') {name : AccountName} {c : UInt8}
    (hc : db'.counter name = some c) :
    db.counter name = some c ∨ (db.counter name = none ∧ c = 0) := by
  unfold counter at hc ⊢
  obtain ⟨a', ha', rfl⟩ := Option.map_eq_some_iff.mp hc
  cases hfind : db.accounts.find? name with
  | none =>
    rw [hother.new name hfind a' ha']
    exact .inr ⟨rfl, rfl⟩
  | some a =>
    obtain ⟨vestingShares, hkept⟩ := hother.kept a (Table.mem_of_find? hfind)
    rw [Table.key_of_find? hfind, ha'] at hkept
    rw [Option.some.inj hkept]
    exact .inl rfl

theorem counted_otherChange (h : db.Counted) (hother : db.OtherChange db') : db'.Counted := by
  have hrequests : ∀ name, db'.requestsOf name = db.requestsOf name := by
    intro name
    unfold requestsOf
    rw [hother.savingsWithdraws]
  constructor
  . intro name c hc
    rw [hrequests]
    rcases counter_otherChange hother hc with hc | ⟨hnone, rfl⟩
    . exact h.counter name c hc
    . -- nobody has requests before there is an account
      symm
      unfold requestsOf
      rw [UInt8.toNat_zero, List.countP_eq_zero]
      intro w hw heq
      have := h.sender w hw
      rw [of_decide_eq_true heq, hnone] at this
      cases this
  . intro name
    rw [hrequests]
    exact h.limit name
  . rw [hother.savingsWithdraws]
    intro w hw
    obtain ⟨c, hc⟩ := Option.isSome_iff_exists.mp (h.sender w hw)
    unfold counter at hc ⊢
    obtain ⟨a, ha, _⟩ := Option.map_eq_some_iff.mp hc
    obtain ⟨vestingShares, hkept⟩ := hother.kept a (Table.mem_of_find? ha)
    rw [Table.key_of_find? ha] at hkept
    rw [hkept]
    rfl
  . rw [hother.savingsWithdraws, hother.nextWithdrawId]
    exact h.id_lt
  . rw [hother.savingsWithdraws]
    exact h.unique
  . rw [hother.savingsWithdraws]
    exact h.amount

theorem counted_stage {stage : Stage} (h : db.Counted) : Counted { db with stage := stage } :=
  h.congr (fun _ => rfl) rfl rfl

/-- Nothing is due where nothing was, if what is new is not. -/
theorem punctual_of_rows {stage : Stage} (hpunctual : db.Punctual)
    (hstage : stage = .transactions ∨ stage = .withdrawn →
      db.stage = .transactions ∨ db.stage = .withdrawn)
    (htime : db'.headBlockTime = db.headBlockTime)
    (hrows : ∀ w ∈ db'.savingsWithdraws.rows,
      w ∈ db.savingsWithdraws.rows ∨ db.headBlockTime < w.complete) :
    Punctual { db' with stage := stage } := by
  intro hstage' w hw
  show db'.headBlockTime < w.complete
  rw [htime]
  rcases hrows w hw with hw | hlt
  . exact hpunctual (hstage hstage') w hw
  . exact hlt

/-- Inside a block there may be some that are due. -/
theorem punctual_of_stage {stage : Stage} (hneither : stage ≠ .transactions ∧ stage ≠ .withdrawn) :
    Punctual { db with stage := stage } := by
  rintro (h | h)
  . exact absurd h hneither.1
  . exact absurd h hneither.2

/-- What one step does, and what it keeps. -/
theorem effect_of_step (hcounted : db.Counted) (hpunctual : db.Punctual) (hok : db.Allowed event)
    (h : db.Step event db') : db.Effect event db' ∧ db'.Counted ∧ db'.Punctual := by
  cases event with
  | transferToSavings o =>
    obtain ⟨_, d, hd, rfl⟩ := h
    have hsame := sameRequests_transferToSavings hd
    have hrows : d.savingsWithdraws = db.savingsWithdraws := by rw [hsame.frame]
    refine ⟨⟨hrows, by rw [hsame.frame]⟩, counted_stage (hcounted.sameRequests hsame), ?_⟩
    apply punctual_of_rows hpunctual id (by rw [hsame.frame])
    intro w hw
    exact .inl (hrows ▸ hw)
  | transferFromSavings o =>
    obtain ⟨_, d, hd, rfl⟩ := h
    obtain ⟨hrequested, hcounted'⟩ := transferFromSavings_cases hcounted hd
    refine ⟨{ hrequested with }, counted_stage hcounted', ?_⟩
    apply punctual_of_rows hpunctual id hrequested.headBlockTime
    intro w hw
    rcases (hrequested.inserts.mem w).mp hw with hw | rfl
    . exact .inl hw
    . exact .inr (Nat.lt_add_of_pos_right (by decide))
  | cancelTransferFromSavings o =>
    obtain ⟨_, d, hd, rfl⟩ := h
    obtain ⟨⟨w, hfind, hreturned⟩, hcounted'⟩ := cancelTransferFromSavings_cases hcounted hd
    refine ⟨⟨w, hfind, { hreturned with }⟩, counted_stage hcounted', ?_⟩
    apply punctual_of_rows hpunctual id hreturned.headBlockTime
    intro v hv
    exact .inl ((hreturned.removes.mem v).mp hv).1
  | startBlock timestamp =>
    obtain ⟨_, _, d, hd, rfl⟩ := h
    obtain rfl := Except.ok.inj hd
    exact ⟨⟨rfl, rfl⟩, counted_stage (counted_startBlock hcounted timestamp),
      punctual_of_stage (by decide)⟩
  | clearNull =>
    obtain ⟨_, d, hd, rfl⟩ := h
    have hsame := sameRequests_clearNullSavings hd
    exact ⟨⟨by rw [hsame.frame], by rw [hsame.frame]⟩, counted_stage (hcounted.sameRequests hsame),
      punctual_of_stage (by decide)⟩
  | processSbdDebtConversions removed =>
    obtain ⟨_, d, hd, rfl⟩ := h
    obtain ⟨hconverted, hcounted'⟩ := processSbdDebtConversions_cases hcounted hok hd
    exact ⟨{ hconverted with }, counted_stage hcounted', punctual_of_stage (by decide)⟩
  | processSavingsWithdraws =>
    obtain ⟨_, d, hd, rfl⟩ := h
    obtain ⟨hpaid, hcounted'⟩ := processSavingsWithdraws_cases hcounted hd
    refine ⟨{ hpaid with }, counted_stage hcounted', ?_⟩
    intro _ w hw
    obtain ⟨hw, hnot⟩ := (hpaid.removes.mem w).mp hw
    show d.headBlockTime < w.complete
    rw [hpaid.headBlockTime]
    by_contra hle
    apply hnot
    unfold due
    rw [List.mem_filter, decide_eq_true_eq]
    exact ⟨hw, not_lt.mp hle⟩
  | processGbgPayments =>
    obtain ⟨hstage, d, hd, rfl⟩ := h
    have hsame := sameRequests_processGbgPayments hd
    have hrows : d.savingsWithdraws = db.savingsWithdraws := by rw [hsame.frame]
    refine ⟨⟨hrows, by rw [hsame.frame]⟩, counted_stage (hcounted.sameRequests hsame), ?_⟩
    apply punctual_of_rows hpunctual (fun _ => .inr hstage) (by rw [hsame.frame])
    intro w hw
    exact .inl (hrows ▸ hw)
  | other =>
    refine ⟨⟨h.savingsWithdraws, h.nextWithdrawId⟩, counted_otherChange hcounted h, ?_⟩
    intro hstage
    rw [h.stage] at hstage
    rw [h.savingsWithdraws, h.headBlockTime]
    exact hpunctual hstage

/-- The requests of an id that a step ends are those that are missing after it. -/
theorem pending_of_effect (h : db.Effect event db') (id : Nat) :
    ((db.settled event).countP fun w => w.id = id) + db'.pending id +
        (if id < db.nextWithdrawId then 1 else 0) =
      db.pending id + if id < db'.nextWithdrawId then 1 else 0 := by
  have hsame : db'.savingsWithdraws = db.savingsWithdraws ∧ db'.nextWithdrawId = db.nextWithdrawId →
      0 + db'.pending id + (if id < db.nextWithdrawId then 1 else 0) =
        db.pending id + if id < db'.nextWithdrawId then 1 else 0 := by
    rintro ⟨hrows, hnext⟩
    unfold pending
    rw [hrows, hnext, Nat.zero_add]
  have hsettled : ∀ l, Settled db db' l →
      (l.countP fun w => w.id = id) + db'.pending id +
          (if id < db.nextWithdrawId then 1 else 0) =
        db.pending id + if id < db'.nextWithdrawId then 1 else 0 := by
    intro l hl
    have := hl.removes.countP fun w => w.id = id
    rw [hl.nextWithdrawId, Nat.add_left_inj]
    unfold pending
    omega
  cases event with
  | transferFromSavings o =>
    have := h.inserts.countP fun w => w.id = id
    unfold settled pending
    rw [this, h.nextWithdrawId, List.countP_nil]
    show 0 + (_ + if db.nextWithdrawId = id then 1 else 0) + _ = _
    split_ifs <;> omega
  | cancelTransferFromSavings o =>
    obtain ⟨w, hfind, hreturned⟩ := h
    have hw : db.settled (.cancelTransferFromSavings o) = [w] := by
      show (db.findSavingsWithdraw o.fromAccount o.requestId).toList = [w]
      rw [hfind]
      rfl
    rw [hw]
    exact hsettled _ hreturned.toSettled
  | processSavingsWithdraws => exact hsettled _ h.toSettled
  | processSbdDebtConversions removed =>
    unfold settled pending
    rw [h.rows, h.nextWithdrawId, List.countP_nil, Nat.zero_add]
    split
    . rw [List.countP_map]
      congr 1
      apply List.countP_congr
      intro w _
      have hid : (converted db.sbdDebtConvertRate w).id = w.id := by
        unfold converted
        split
        . rfl
        . rfl
      simp [hid]
    . rfl
  | transferToSavings o => exact hsame h
  | startBlock timestamp => exact hsame h
  | clearNull => exact hsame h
  | processGbgPayments => exact hsame h
  | other => exact hsame h

end step

/-- What became of the requests by the steps taken. -/
structure Fate (past : List (SavingsDatabase × SavingsEvent)) (db : SavingsDatabase) : Prop where
  counted : db.Counted
  punctual : db.Punctual
  once : ∀ id, ((past.flatMap fun s => s.1.settled s.2).countP fun w => w.id = id) + db.pending id =
    if id < db.nextWithdrawId then 1 else 0

theorem fate_of_initial (h : savingsSystem.initial db) : Fate [] db := by
  obtain ⟨_, hempty, hnext, _, hnew⟩ := h
  have hrows : db.savingsWithdraws.rows = [] := by
    rw [hempty]
    rfl
  have hrequests : ∀ name, db.requestsOf name = 0 := by
    intro name
    unfold requestsOf
    rw [hrows, List.countP_nil]
  have hnone : ∀ w, w ∉ db.savingsWithdraws.rows := by
    rw [hrows]
    exact fun _ => List.not_mem_nil
  refine ⟨⟨?_, ?_, ?_, ?_, ?_, ?_⟩, ?_, ?_⟩
  . intro name c hc
    obtain ⟨a, ha, rfl⟩ := Option.map_eq_some_iff.mp hc
    rw [hrequests, hnew a (Table.mem_of_find? ha)]
    rfl
  . intro name
    rw [hrequests]
    exact Nat.zero_le _
  . exact fun w hw => absurd hw (hnone w)
  . exact fun w hw => absurd hw (hnone w)
  . exact fun w hw => absurd hw (hnone w)
  . exact fun w hw => absurd hw (hnone w)
  . exact fun _ w hw => absurd hw (hnone w)
  . intro id
    unfold pending
    rw [hrows, hnext, List.flatMap_nil, List.countP_nil, if_neg (Nat.not_lt_zero id)]

/--
In every run whose forced conversions leave something of each request, the counters are right, each
request is ended once or still pending, and each step does with the requests what it should.
-/
theorem withdrawals_of_run {past : List (SavingsDatabase × SavingsEvent)} {db : SavingsDatabase}
    (h : savingsSystem.Run past db) (hok : ∀ s ∈ past, s.1.Allowed s.2) :
    Fate past db ∧ ∀ event db', db.Allowed event → db.Step event db' → db.Effect event db' := by
  have hfate : Fate past db := by
    induction h with
    | initial h => exact fate_of_initial h
    | @step past db db' event hs h ih =>
      have hfate := ih fun s hs => hok s (List.mem_cons_of_mem _ hs)
      have hallowed : db.Allowed event := hok _ List.mem_cons_self
      obtain ⟨heffect, hcounted, hpunctual⟩ :=
        effect_of_step hfate.counted hfate.punctual hallowed h
      refine ⟨hcounted, hpunctual, ?_⟩
      intro id
      have hstep := pending_of_effect heffect id
      have hpast := hfate.once id
      rw [List.flatMap_cons, List.countP_append]
      show (db.settled event).countP _ + _ + _ = _
      omega
  refine ⟨hfate, ?_⟩
  intro event db' hok h
  exact (effect_of_step hfate.counted hfate.punctual hok h).1

section conversion

/-- A GBG is worth a GOLOS, there are too many GBG, and all of it is to be converted. -/
def inDebt : SavingsDatabase where
  ledger :=
    { accounts := ((Table.empty.insert { name := "alice", sbdBalance := 2000 } rfl).insert
        { name := "bob" } (by decide)).insert { name := "null" } (by decide)
      currentMedianHistory := ⟨⟨1000, sbdSymbol⟩, ⟨1000, steemSymbol⟩⟩ }
  accounts := ((Table.empty.insert { name := "alice" } (by decide)).insert
    { name := "bob" } (by decide)).insert { name := "null" } (by decide)
  headBlockNum := steemitSbdDebtConvertInterval - 1
  headBlockTime := 1000
  sbdDebtConvertRate := steemit100Percent
  sbdDebtPercent := 2500

def aliceSaves : TransferToSavingsOperation where
  fromAccount := "alice"
  toAccount := "alice"
  amount := ⟨1000, sbdSymbol⟩

def aliceWithdraws : TransferFromSavingsOperation where
  fromAccount := "alice"
  requestId := 7
  toAccount := "alice"
  amount := ⟨1000, sbdSymbol⟩

/-- The outcome of a stage. -/
def next (stage : Stage) (result : Result SavingsDatabase) : SavingsDatabase :=
  { result.toOption.getD {} with stage := stage }

theorem operates_next {result : Result SavingsDatabase} (hstage : db.stage = .transactions)
    (hresult : result.toOption.isSome = true) :
    db.Operates (next .transactions result) result :=
  ⟨.inl hstage, _, eq_ok_of_isSome hresult, by rw [hstage]; rfl⟩

theorem stages_next {before after : Stage} {result : Result SavingsDatabase}
    (hstage : db.stage = before) (hresult : result.toOption.isSome = true) :
    db.Stages (next after result) before after result :=
  ⟨hstage, _, eq_ok_of_isSome hresult, rfl⟩

def afterSaving : SavingsDatabase :=
  next .transactions (inDebt.transferToSavings aliceSaves)

def afterRequest : SavingsDatabase :=
  next .transactions (afterSaving.transferFromSavings aliceWithdraws)

def startedBlock : SavingsDatabase :=
  next .started (.ok (afterRequest.startBlock 1003))

def nullCleared : SavingsDatabase :=
  next .nullCleared startedBlock.clearNullSavings

/-- Where the request was, there is now something of bob. -/
def bobRemoved : Removed :=
  fun _ => "bob"

def afterConversion : SavingsDatabase :=
  next .converted (nullCleared.processSbdDebtConversions bobRemoved)

theorem run_afterRequest : savingsSystem.Run
    [(afterSaving, .transferFromSavings aliceWithdraws), (inDebt, .transferToSavings aliceSaves)]
    afterRequest := by
  have hvoted : inDebt.Voted := by
    refine ⟨by decide, by decide, .inr ⟨⟨?_, ?_, ?_, ?_, ?_⟩, .inr ⟨rfl, rfl⟩⟩, by decide, by decide⟩
    all_goals decide
  have hinitial : savingsSystem.initial inDebt := ⟨hvoted, rfl, rfl, rfl, by decide +kernel⟩
  refine .step (.step (.initial hinitial) (operates_next rfl ?_)) (operates_next rfl ?_)
  . decide +kernel
  . decide +kernel

/-- The request of alice is pending, and counted. -/
theorem withdrawals_of_run_afterRequest :
    afterRequest.Counted ∧ afterRequest.requestsOf "alice" = 1 ∧
      afterRequest.saved "alice" sbdSymbol = 0 :=
  ⟨(withdrawals_of_run run_afterRequest (by simp [Allowed])).1.counted, by decide +kernel,
    by decide +kernel⟩

/-- The request is gone, and it was bob who counted it. -/
theorem not_counted_afterConversion :
    savingsSystem.Reachable afterConversion ∧
      afterConversion.requestsOf "alice" = 0 ∧ afterConversion.counter "alice" = some 1 ∧
      afterConversion.requestsOf "bob" = 0 ∧ afterConversion.counter "bob" = some 255 ∧
      ¬afterConversion.Counted := by
  have hrun : savingsSystem.Reachable afterConversion := by
    have hstarted : savingsSystem.step afterRequest (.startBlock 1003) startedBlock :=
      ⟨by decide +kernel, stages_next rfl rfl⟩
    have hcleared : savingsSystem.step startedBlock .clearNull nullCleared :=
      stages_next rfl (by decide +kernel)
    have hconverted : savingsSystem.step nullCleared (.processSbdDebtConversions bobRemoved)
        afterConversion :=
      stages_next rfl (by decide +kernel)
    exact .step (.step (.step run_afterRequest.reachable trivial hstarted) trivial hcleared) trivial
      hconverted
  have halice : afterConversion.counter "alice" = some 1 := by decide +kernel
  have hnone : afterConversion.requestsOf "alice" = 0 := by decide +kernel
  refine ⟨hrun, hnone, halice, by decide +kernel, by decide +kernel, ?_⟩
  intro h
  have := h.counter "alice" 1 halice
  rw [hnone] at this
  exact absurd this (by decide)

end conversion

end SavingsDatabase

end Golos
