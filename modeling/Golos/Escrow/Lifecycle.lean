import Golos.Escrow.Impl

/-!
This module contains the life of an escrow apart from the chain: how it opens, what can become of it
and how it closes, with the movements of its money.
-/

namespace Golos

def Asset.amountIn (a : Asset) (symbol : AssetSymbolType) : ℤ :=
  if a.symbol = symbol then a.amount else 0

theorem Asset.amountIn_of_sub {a b c : Asset} (h : a.sub b = .ok c) (symbol : AssetSymbolType) :
    c.amountIn symbol = a.amountIn symbol - b.amountIn symbol := by
  obtain ⟨hsymbol, _, rfl⟩ := Asset.sub_eq_ok.mp h
  unfold amountIn
  rw [hsymbol]
  split
  . rfl
  . rfl

theorem Asset.amountIn_of_add {a b c : Asset} (h : a.add b = .ok c) (symbol : AssetSymbolType) :
    c.amountIn symbol = a.amountIn symbol + b.amountIn symbol := by
  obtain ⟨hsymbol, _, rfl⟩ := Asset.add_eq_ok.mp h
  unfold amountIn
  rw [hsymbol]
  split
  . rfl
  . rfl

theorem Asset.amountIn_of_neg {a b : Asset} (h : a.neg = .ok b) (symbol : AssetSymbolType) :
    b.amountIn symbol = -a.amountIn symbol := by
  obtain ⟨_, rfl⟩ := Asset.neg_eq_ok.mp h
  unfold amountIn
  split
  . rfl
  . rfl

theorem Asset.amountIn_of_zero {a : Asset} (h : a.amount = 0) (symbol : AssetSymbolType) :
    a.amountIn symbol = 0 := by
  unfold amountIn
  split
  . exact h
  . rfl

/-- What an escrow holds of a symbol. -/
def EscrowObject.held (e : EscrowObject) (symbol : AssetSymbolType) : ℤ :=
  e.sbdBalance.amountIn symbol + e.steemBalance.amountIn symbol + e.pendingFee.amountIn symbol

/-- What a movement adds to an escrow, of a symbol. -/
def Movement.net (m : Movement) (symbol : AssetSymbolType) : ℤ :=
  match m.kind with
  | .deposit => m.escrow.held symbol
  | .release _ _ sbd steem => -(sbd.amountIn symbol + steem.amountIn symbol)
  | .refund => -m.escrow.held symbol
  | .fee => -m.escrow.pendingFee.amountIn symbol
  | .conversion _ sbd steem => steem.amountIn symbol - sbd.amountIn symbol
  | .feeConversion _ sbd _ => -sbd.amountIn symbol

/-- What a movement pays to an account, of a symbol. -/
def Movement.paid (m : Movement) (name : AccountName) (symbol : AssetSymbolType) : ℤ :=
  match m.kind with
  | .deposit => if name = m.escrow.fromAccount then -m.escrow.held symbol else 0
  | .release _ receiver sbd steem =>
    if name = receiver then sbd.amountIn symbol + steem.amountIn symbol else 0
  | .refund => if name = m.escrow.fromAccount then m.escrow.held symbol else 0
  | .fee => if name = m.escrow.agent then m.escrow.pendingFee.amountIn symbol else 0
  | .conversion _ _ _ => 0
  | .feeConversion _ _ steem => if name = m.escrow.agent then steem.amountIn symbol else 0

/-- Who can release to whom, and when. -/
structure EscrowObject.MayRelease (e : EscrowObject) (time : Nat) (who receiver : AccountName) :
    Prop where
  approved : e.isApproved = true
  party : receiver = e.fromAccount ∨ receiver = e.toAccount
  disputed : e.disputed = true → who = e.agent
  undisputed : e.disputed = false → who = e.fromAccount ∨ who = e.toAccount
  early : e.disputed = false → time < e.escrowExpiration →
    (who = e.fromAccount → receiver = e.toAccount) ∧
      (who = e.toAccount → receiver = e.fromAccount)

/-- What each movement of money is bound to. -/
def Movement.Lawful (m : Movement) : Prop :=
  match m.kind with
  | .deposit => m.escrow.isApproved = false
  | .release who receiver sbd steem =>
    m.escrow.MayRelease m.time who receiver ∧
      (0 ≤ sbd.amount ∧ sbd.amount ≤ m.escrow.sbdBalance.amount) ∧
        0 ≤ steem.amount ∧ steem.amount ≤ m.escrow.steemBalance.amount
  | .refund => m.escrow.isApproved = false
  | .fee => m.escrow.isApproved = true
  | .conversion rate sbd steem => sbd.mulPrice rate = .ok steem
  | .feeConversion rate sbd steem =>
    sbd.mulPrice rate = .ok steem ∧ (steem.amount = 0 ∨ m.escrow.isApproved = true)

def Movement.isFeeConversion (m : Movement) : Bool :=
  match m.kind with
  | .feeConversion _ _ _ => true
  | _ => false

/-- Nothing that money depends on is different. -/
structure EscrowObject.SameMoney (e e' : EscrowObject) : Prop where
  id : e'.id = e.id
  sbdBalance : e'.sbdBalance = e.sbdBalance
  steemBalance : e'.steemBalance = e.steemBalance
  pendingFee : e'.pendingFee = e.pendingFee

theorem EscrowObject.SameMoney.held {e e' : EscrowObject} (h : e.SameMoney e')
    (symbol : AssetSymbolType) : e'.held symbol = e.held symbol := by
  unfold EscrowObject.held
  rw [h.sbdBalance, h.steemBalance, h.pendingFee]

/-- What can become of an escrow while it is open. -/
inductive EscrowObject.Advance (time : Nat) : EscrowObject → List Movement → EscrowObject → Prop
  | mark {e e' : EscrowObject} (hsame : e.SameMoney e') (h : e.isApproved = false)
      (h' : e'.isApproved = false) : Advance time e [] e'
  | ratify {e e' : EscrowObject} (hsame : e.SameMoney e') (h : e.isApproved = false)
      (h' : e'.isApproved = true) :
      Advance time e [⟨e', time, .fee⟩]
        { e' with pendingFee := { e'.pendingFee with amount := 0 } }
  | dispute {e : EscrowObject} : Advance time e [] { e with disputed := true }
  | release {e : EscrowObject} {who receiver : AccountName} {sbd steem sbd' steem' : Asset}
      (hmay : e.MayRelease time who receiver)
      (hsbd : e.sbdBalance.sub sbd = .ok sbd') (hsteem : e.steemBalance.sub steem = .ok steem')
      (hsbdRange : 0 ≤ sbd.amount ∧ sbd.amount ≤ e.sbdBalance.amount)
      (hsteemRange : 0 ≤ steem.amount ∧ steem.amount ≤ e.steemBalance.amount) :
      Advance time e [⟨e, time, .release who receiver sbd steem⟩]
        { e with steemBalance := steem', sbdBalance := sbd' }
  | convert {e : EscrowObject} {rate : Price} {sbd steem sbd' steem' : Asset}
      (hrate : sbd.mulPrice rate = .ok steem) (hsbd : e.sbdBalance.sub sbd = .ok sbd')
      (hsteem : e.steemBalance.add steem = .ok steem') :
      Advance time e [⟨e, time, .conversion rate sbd steem⟩]
        { e with sbdBalance := sbd', steemBalance := steem' }
  | convertFee {e : EscrowObject} {rate : Price} {sbd steem fee : Asset}
      (hfee : e.pendingFee.amount ≠ 0) (hrate : sbd.mulPrice rate = .ok steem)
      (hsub : e.pendingFee.sub sbd = .ok fee) :
      Advance time e [⟨e, time, .feeConversion rate sbd steem⟩] { e with pendingFee := fee }

/-- How an escrow closes. -/
inductive EscrowObject.Close (time : Nat) : EscrowObject → Movement → Prop
  | refund {e : EscrowObject} (h : e.isApproved = false) : Close time e ⟨e, time, .refund⟩
  | release {e : EscrowObject} {who receiver : AccountName} {sbd steem sbd' steem' : Asset}
      (hmay : e.MayRelease time who receiver)
      (hsbd : e.sbdBalance.sub sbd = .ok sbd') (hsteem : e.steemBalance.sub steem = .ok steem')
      (hsbdRange : 0 ≤ sbd.amount ∧ sbd.amount ≤ e.sbdBalance.amount)
      (hsteemRange : 0 ≤ steem.amount ∧ steem.amount ≤ e.steemBalance.amount)
      (hsbdNone : sbd'.amount = 0) (hsteemNone : steem'.amount = 0) :
      Close time e ⟨e, time, .release who receiver sbd steem⟩

/-- The fees that a movement pays to the agent. -/
def Movement.fees (m : Movement) : ℤ :=
  match m.kind with
  | .fee => 1
  | .feeConversion _ _ steem => if steem.amount = 0 then 0 else 1
  | _ => 0

def Movement.refunds (m : Movement) : ℤ :=
  match m.kind with
  | .refund => 1
  | _ => 0

/-- The fees that an open escrow has paid when all is lawful. -/
def EscrowObject.fees (e : EscrowObject) : ℤ :=
  if e.isApproved then 1 else 0

/-- The fee is gone once an escrow is approved. -/
def EscrowObject.FeePaid (e : EscrowObject) : Prop :=
  e.isApproved = true → e.pendingFee.amount = 0

namespace EscrowObject

variable {time : Nat} {e e' : EscrowObject} {ms : List Movement} {m : Movement}

theorem Advance.id_eq (h : Advance time e ms e') :
    e'.id = e.id ∧ ∀ m ∈ ms, m.escrow.id = e.id := by
  cases h with
  | mark hsame => exact ⟨hsame.id, fun m hm => absurd hm List.not_mem_nil⟩
  | ratify hsame =>
    refine ⟨hsame.id, ?_⟩
    intro m hm
    rw [List.mem_singleton.mp hm]
    exact hsame.id
  | dispute => exact ⟨rfl, fun m hm => absurd hm List.not_mem_nil⟩
  | release =>
    refine ⟨rfl, ?_⟩
    intro m hm
    rw [List.mem_singleton.mp hm]
  | convert =>
    refine ⟨rfl, ?_⟩
    intro m hm
    rw [List.mem_singleton.mp hm]
  | convertFee =>
    refine ⟨rfl, ?_⟩
    intro m hm
    rw [List.mem_singleton.mp hm]

theorem Close.id_eq (h : Close time e m) : m.escrow.id = e.id := by
  cases h with
  | refund => rfl
  | release => rfl

theorem Advance.feePaid (h : Advance time e ms e') (he : e.FeePaid) : e'.FeePaid := by
  cases h with
  | mark _ _ h' => exact fun happroved => absurd (happroved.symm.trans h') (by decide)
  | ratify => exact fun _ => rfl
  | dispute => exact he
  | release => exact he
  | convert => exact he
  | convertFee hfee => exact fun happroved => absurd (he happroved) hfee

/-- Money is neither made nor lost. -/
theorem Advance.held (h : Advance time e ms e') (symbol : AssetSymbolType) :
    e'.held symbol = e.held symbol + (ms.map fun m => m.net symbol).sum := by
  cases h with
  | mark hsame =>
    rw [hsame.held, List.map_nil, List.sum_nil, Int.add_zero]
  | @ratify marked hsame =>
    have hzero : Asset.amountIn { marked.pendingFee with amount := 0 } symbol = 0 :=
      Asset.amountIn_of_zero rfl symbol
    rw [← hsame.held, List.map_singleton, List.sum_singleton]
    unfold EscrowObject.held Movement.net
    dsimp only
    rw [hzero]
    omega
  | dispute => exact (Int.add_zero _).symm
  | release _ hsbd hsteem =>
    rw [List.map_singleton, List.sum_singleton]
    unfold EscrowObject.held Movement.net
    dsimp only
    rw [Asset.amountIn_of_sub hsbd, Asset.amountIn_of_sub hsteem]
    omega
  | convert _ hsbd hsteem =>
    rw [List.map_singleton, List.sum_singleton]
    unfold EscrowObject.held Movement.net
    dsimp only
    rw [Asset.amountIn_of_sub hsbd, Asset.amountIn_of_add hsteem]
    omega
  | convertFee _ _ hsub =>
    rw [List.map_singleton, List.sum_singleton]
    unfold EscrowObject.held Movement.net
    dsimp only
    rw [Asset.amountIn_of_sub hsub]
    omega

/-- All the money is gone when an escrow closes. -/
theorem Close.held (h : Close time e m) (he : e.FeePaid) (symbol : AssetSymbolType) :
    e.held symbol + m.net symbol = 0 := by
  cases h with
  | refund => exact Int.add_right_neg _
  | release hmay hsbd hsteem _ _ hsbdNone hsteemNone =>
    have h₁ := Asset.amountIn_of_sub hsbd symbol
    have h₂ := Asset.amountIn_of_sub hsteem symbol
    rw [Asset.amountIn_of_zero hsbdNone] at h₁
    rw [Asset.amountIn_of_zero hsteemNone] at h₂
    unfold EscrowObject.held Movement.net
    dsimp only
    rw [Asset.amountIn_of_zero (he hmay.approved)]
    omega

/-- What an open escrow does is lawful but for the conversion of its fee. -/
theorem Advance.lawful (h : Advance time e ms e')
    (hfee : ∀ m ∈ ms, m.isFeeConversion = false) : ∀ m ∈ ms, m.Lawful := by
  cases h with
  | mark => exact fun m hm => absurd hm List.not_mem_nil
  | ratify _ _ h' =>
    intro m hm
    rw [List.mem_singleton.mp hm]
    exact h'
  | dispute => exact fun m hm => absurd hm List.not_mem_nil
  | release hmay _ _ hsbdRange hsteemRange =>
    intro m hm
    rw [List.mem_singleton.mp hm]
    exact ⟨hmay, hsbdRange, hsteemRange⟩
  | convert hrate =>
    intro m hm
    rw [List.mem_singleton.mp hm]
    exact hrate
  | convertFee => exact absurd (hfee _ List.mem_cons_self) Bool.noConfusion

theorem Close.lawful (h : Close time e m) : m.Lawful := by
  cases h with
  | refund h => exact h
  | release hmay _ _ hsbdRange hsteemRange => exact ⟨hmay, hsbdRange, hsteemRange⟩

/-- As long as all is lawful, the fee is paid with the second approval and only then. -/
theorem Advance.fees (h : Advance time e ms e') (hms : ∀ m ∈ ms, m.Lawful) (he : e.FeePaid) :
    e'.fees = e.fees + (ms.map Movement.fees).sum ∧ (ms.map Movement.refunds).sum = 0 := by
  cases h with
  | mark _ h h' =>
    unfold EscrowObject.fees
    rw [h, h']
    exact ⟨rfl, rfl⟩
  | @ratify marked _ h h' =>
    unfold EscrowObject.fees
    refine ⟨?_, rfl⟩
    rw [h]
    show (if marked.isApproved = true then (1 : ℤ) else 0) = _
    rw [h']
    rfl
  | dispute => exact ⟨(Int.add_zero _).symm, rfl⟩
  | release => exact ⟨(Int.add_zero _).symm, rfl⟩
  | convert => exact ⟨(Int.add_zero _).symm, rfl⟩
  | convertFee hfee =>
    refine ⟨?_, rfl⟩
    obtain ⟨_, hzero⟩ := hms _ List.mem_cons_self
    have hzero := hzero.resolve_right fun happroved => hfee (he happroved)
    rw [List.map_singleton, List.sum_singleton]
    unfold Movement.fees
    dsimp only
    rw [if_pos hzero]
    exact (Int.add_zero _).symm

/-- An escrow closes with its fee paid or refunded. -/
theorem Close.fees (h : Close time e m) : e.fees + m.fees + m.refunds = 1 := by
  cases h with
  | refund h =>
    unfold EscrowObject.fees
    rw [h]
    rfl
  | release hmay =>
    unfold EscrowObject.fees
    rw [hmay.approved]
    rfl

end EscrowObject

end Golos
