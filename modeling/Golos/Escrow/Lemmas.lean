import Golos.Escrow.Lifecycle
import Golos.Ledger.Lemmas
import Golos.Witness.Impl.Evaluators

/-!
This module contains how the operations and the block ends take escrows through their lives, and
what the records of movements come to.
-/

namespace Golos

open Checked

namespace EscrowDatabase

variable {db db' db'' : EscrowDatabase}

/-- One change in the life of one escrow. -/
inductive Change (db db' : EscrowDatabase) : Prop
  | none (hescrows : db'.escrows = db.escrows) (hnext : db'.nextEscrowId = db.nextEscrowId)
      (hmovements : db'.movements = db.movements)
  | opens {e : EscrowObject} (hid : e.id = db.nextEscrowId) (hopen : e.isApproved = false)
      (hescrows : Table.Inserts db.escrows db'.escrows e)
      (hnext : db'.nextEscrowId = db.nextEscrowId + 1)
      (hmovements : db'.movements = db.movements ++ [⟨e, db.headBlockTime, .deposit⟩])
  | advances {e e' : EscrowObject} {ms : List Movement}
      (hadvance : e.Advance db.headBlockTime ms e') (hkey : e'.byFromId = e.byFromId)
      (hescrows : Table.Updates db.escrows db'.escrows e e')
      (hnext : db'.nextEscrowId = db.nextEscrowId) (hmovements : db'.movements = db.movements ++ ms)
  | closes {e : EscrowObject} {m : Movement} (hclose : e.Close db.headBlockTime m)
      (hmem : e ∈ db.escrows.rows) (hescrows : Table.Removes db.escrows db'.escrows [e])
      (hnext : db'.nextEscrowId = db.nextEscrowId) (hmovements : db'.movements = db.movements ++ [m])

/-- One change after the other. -/
inductive Changes : EscrowDatabase → EscrowDatabase → Prop
  | refl (db : EscrowDatabase) : Changes db db
  | tail {db db' db'' : EscrowDatabase} (h : Changes db db') (h' : Change db' db'') :
      Changes db db''

theorem Change.changes (h : Change db db') : Changes db db' :=
  .tail (.refl db) h

theorem Changes.trans (h : Changes db db') (h' : Changes db' db'') : Changes db db'' := by
  induction h' with
  | refl => exact h
  | tail _ hchange ih => exact .tail ih hchange

section accounts

/-- The movements of the escrow with an id, each with its weight. -/
def total (db : EscrowDatabase) (weight : Movement → ℤ) (id : Nat) : ℤ :=
  (db.movements.map fun m => if m.escrow.id = id then weight m else 0).sum

theorem total_append {weight : Movement → ℤ} {ms : List Movement}
    (h : db'.movements = db.movements ++ ms) (id : Nat) :
    db'.total weight id = db.total weight id +
      (ms.map fun m => if m.escrow.id = id then weight m else 0).sum := by
  unfold total
  rw [h, List.map_append, List.sum_append]

theorem sum_of_id {weight : Movement → ℤ} {ms : List Movement} {id : Nat}
    (h : ∀ m ∈ ms, m.escrow.id = id) :
    (ms.map fun m => if m.escrow.id = id then weight m else 0).sum = (ms.map weight).sum := by
  congr 1
  apply List.map_congr_left
  intro m hm
  rw [if_pos (h m hm)]

theorem sum_of_ne_id {weight : Movement → ℤ} {ms : List Movement} {id id' : Nat}
    (h : ∀ m ∈ ms, m.escrow.id = id) (hne : id' ≠ id) :
    (ms.map fun m => if m.escrow.id = id' then weight m else 0).sum = 0 := by
  apply List.sum_eq_zero
  intro x hx
  obtain ⟨m, hm, rfl⟩ := List.mem_map.mp hx
  rw [if_neg fun heq => hne (heq.symm.trans (h m hm))]

/-- The ids of the escrows are in order. -/
structure Numbered (db : EscrowDatabase) : Prop where
  lt : ∀ e ∈ db.escrows.rows, e.id < db.nextEscrowId
  inj : ∀ e ∈ db.escrows.rows, ∀ e' ∈ db.escrows.rows, e.id = e'.id → e = e'
  feePaid : ∀ e ∈ db.escrows.rows, e.FeePaid

/-- The movements of each escrow come to a value that is read from the escrow while it is open, and
to one that is `closed` afterwards. -/
structure Accounted (db : EscrowDatabase) (weight : Movement → ℤ) (value : EscrowObject → ℤ)
    (closed : ℤ → Prop) : Prop where
  isOpen : ∀ e ∈ db.escrows.rows, db.total weight e.id = value e
  isClosed : ∀ id < db.nextEscrowId, (∀ e ∈ db.escrows.rows, e.id ≠ id) →
    closed (db.total weight id)
  unused : ∀ id, db.nextEscrowId ≤ id → db.total weight id = 0

/-- What each change of an escrow does to its account, as long as its movements are `ok`. -/
structure Balanced (weight : Movement → ℤ) (value : EscrowObject → ℤ) (closed : ℤ → Prop)
    (ok : Movement → Prop) : Prop where
  opens : ∀ (time : Nat) (e : EscrowObject), e.isApproved = false →
    weight ⟨e, time, .deposit⟩ = value e
  advances : ∀ (time : Nat) (e e' : EscrowObject) ms, e.FeePaid → e.Advance time ms e' →
    (∀ m ∈ ms, ok m) → value e' = value e + (ms.map weight).sum
  closes : ∀ (time : Nat) (e : EscrowObject) m, e.FeePaid → e.Close time m →
    closed (value e + weight m)

theorem Numbered.change (h : db.Numbered) (hchange : Change db db') : db'.Numbered := by
  cases hchange with
  | none hescrows hnext =>
    constructor
    . rw [hescrows, hnext]
      exact h.lt
    . rw [hescrows]
      exact h.inj
    . rw [hescrows]
      exact h.feePaid
  | @opens e hid hopen hescrows hnext =>
    constructor
    . rw [hnext]
      intro b hb
      rcases (hescrows.mem b).mp hb with hb | rfl
      . exact (h.lt b hb).trans (Nat.lt_succ_self _)
      . rw [hid]
        exact Nat.lt_succ_self _
    . intro b hb c hc heq
      rcases (hescrows.mem b).mp hb with hb | rfl
      . rcases (hescrows.mem c).mp hc with hc | rfl
        . exact h.inj b hb c hc heq
        . exact absurd (heq.trans hid) (h.lt b hb).ne
      . rcases (hescrows.mem c).mp hc with hc | rfl
        . exact absurd (heq.symm.trans hid) (h.lt c hc).ne
        . rfl
    . intro b hb
      rcases (hescrows.mem b).mp hb with hb | rfl
      . exact h.feePaid b hb
      . exact fun happroved => absurd (happroved.symm.trans hopen) (by decide)
  | @advances e e' ms hadvance hkey hescrows hnext =>
    have he := Table.mem_of_find? hescrows.row
    have hid := hadvance.id_eq.1
    constructor
    . rw [hnext]
      intro b hb
      rcases (hescrows.mem_rows hkey).mp hb with ⟨hb, _⟩ | rfl
      . exact h.lt b hb
      . rw [hid]
        exact h.lt e he
    . intro b hb c hc heq
      rcases (hescrows.mem_rows hkey).mp hb with ⟨hb, hbne⟩ | rfl
      . rcases (hescrows.mem_rows hkey).mp hc with ⟨hc, _⟩ | rfl
        . exact h.inj b hb c hc heq
        . exact absurd (congrArg _ (h.inj b hb e he (heq.trans hid))) hbne
      . rcases (hescrows.mem_rows hkey).mp hc with ⟨hc, hcne⟩ | rfl
        . exact absurd (congrArg _ (h.inj c hc e he (heq.symm.trans hid))) hcne
        . rfl
    . intro b hb
      rcases (hescrows.mem_rows hkey).mp hb with ⟨hb, _⟩ | rfl
      . exact h.feePaid b hb
      . exact hadvance.feePaid (h.feePaid e he)
  | closes hclose hmem hescrows hnext =>
    constructor
    . rw [hnext]
      intro b hb
      exact h.lt b ((hescrows.mem b).mp hb).1
    . intro b hb c hc
      exact h.inj b ((hescrows.mem b).mp hb).1 c ((hescrows.mem c).mp hc).1
    . intro b hb
      exact h.feePaid b ((hescrows.mem b).mp hb).1

/-- All movements so far are lawful. -/
def Lawful (db : EscrowDatabase) : Prop :=
  ∀ m ∈ db.movements, m.Lawful

theorem Change.movements (h : Change db db') :
    ∃ ms, db'.movements = db.movements ++ ms := by
  cases h with
  | none _ _ hmovements => exact ⟨[], hmovements.trans (List.append_nil _).symm⟩
  | opens _ _ _ _ hmovements => exact ⟨_, hmovements⟩
  | advances _ _ _ _ hmovements => exact ⟨_, hmovements⟩
  | closes _ _ _ _ hmovements => exact ⟨_, hmovements⟩

theorem Changes.movements (h : Changes db db') :
    ∃ ms, db'.movements = db.movements ++ ms := by
  induction h with
  | refl => exact ⟨[], (List.append_nil _).symm⟩
  | tail _ hchange ih =>
    obtain ⟨ms, hms⟩ := ih
    obtain ⟨ms', hms'⟩ := hchange.movements
    exact ⟨ms ++ ms', by rw [hms', hms, List.append_assoc]⟩

theorem Changes.lawful (h : Changes db db') (hlawful : db'.Lawful) : db.Lawful := by
  obtain ⟨ms, hms⟩ := h.movements
  intro m hm
  apply hlawful
  rw [hms]
  exact List.mem_append_left _ hm

/-- The accounts follow every change whose movements are `ok`. -/
theorem Accounted.change {weight : Movement → ℤ} {value : EscrowObject → ℤ} {closed : ℤ → Prop}
    {ok : Movement → Prop} (hbalanced : Balanced weight value closed ok) (hnumbered : db.Numbered)
    (h : db.Accounted weight value closed) (hchange : Change db db')
    (hok : ∀ m ∈ db'.movements, ok m) : db'.Accounted weight value closed := by
  cases hchange with
  | none hescrows hnext hms =>
    have htotal : ∀ id, db'.total weight id = db.total weight id := by
      intro id
      unfold total
      rw [hms]
    constructor
    . rw [hescrows]
      intro e he
      rw [htotal]
      exact h.isOpen e he
    . rw [hescrows, hnext]
      intro id hid hnone
      rw [htotal]
      exact h.isClosed id hid hnone
    . rw [hnext]
      intro id hid
      rw [htotal]
      exact h.unused id hid
  | @opens e hid hopen hescrows hnext hms =>
    have hids : ∀ m ∈ [(⟨e, db.headBlockTime, .deposit⟩ : Movement)],
        m.escrow.id = db.nextEscrowId := by
      intro m hm
      rw [List.mem_singleton.mp hm]
      exact hid
    have hsame : ∀ id, id ≠ db.nextEscrowId → db'.total weight id = db.total weight id := by
      intro id hne
      rw [total_append hms, sum_of_ne_id hids hne, Int.add_zero]
    constructor
    . intro b hb
      rcases (hescrows.mem b).mp hb with hb | rfl
      . rw [hsame b.id (hnumbered.lt b hb).ne]
        exact h.isOpen b hb
      . rw [total_append hms, hid, sum_of_id hids, h.unused _ (le_refl _), List.map_singleton,
          List.sum_singleton, Int.zero_add]
        exact hbalanced.opens _ b hopen
    . rw [hnext]
      intro id hlt hnone
      have hne : id ≠ db.nextEscrowId := by
        rw [← hid]
        exact (hnone e ((hescrows.mem e).mpr (.inr rfl))).symm
      rw [hsame id hne]
      apply h.isClosed id (by omega)
      intro b hb
      exact hnone b ((hescrows.mem b).mpr (.inl hb))
    . rw [hnext]
      intro id hle
      rw [hsame id (by omega)]
      exact h.unused id (by omega)
  | @advances e e' ms hadvance hkey hescrows hnext hms =>
    have he := Table.mem_of_find? hescrows.row
    obtain ⟨hid, hids⟩ := hadvance.id_eq
    have hsame : ∀ id, id ≠ e.id → db'.total weight id = db.total weight id := by
      intro id hne
      rw [total_append hms, sum_of_ne_id hids hne, Int.add_zero]
    constructor
    . intro b hb
      rcases (hescrows.mem_rows hkey).mp hb with ⟨hb, hne⟩ | rfl
      . rw [hsame b.id fun heq => hne (congrArg _ (hnumbered.inj b hb e he heq))]
        exact h.isOpen b hb
      . rw [total_append hms, hid, sum_of_id hids, h.isOpen e he]
        refine (hbalanced.advances _ e b ms (hnumbered.feePaid e he) hadvance ?_).symm
        intro m hm
        apply hok
        rw [hms]
        exact List.mem_append_right _ hm
    . rw [hnext]
      intro id hlt hnone
      have hne : id ≠ e.id := by
        rw [← hid]
        exact (hnone e' ((hescrows.mem_rows hkey).mpr (.inr rfl))).symm
      rw [hsame id hne]
      apply h.isClosed id hlt
      intro b hb heq
      by_cases hbe : b = e
      . exact hne (heq.symm.trans (congrArg _ hbe))
      . refine hnone b ((hescrows.mem_rows hkey).mpr (.inl ⟨hb, ?_⟩)) heq
        intro hkeys
        exact hbe (db.escrows.mem_rows_inj hb he hkeys)
    . rw [hnext]
      intro id hle
      rw [hsame id (by have := hnumbered.lt e he; omega)]
      exact h.unused id hle
  | @closes e m hclose hmem hescrows hnext hms =>
    have hids : ∀ m' ∈ [m], m'.escrow.id = e.id := by
      intro m' hm'
      rw [List.mem_singleton.mp hm']
      exact hclose.id_eq
    have hsame : ∀ id, id ≠ e.id → db'.total weight id = db.total weight id := by
      intro id hne
      rw [total_append hms, sum_of_ne_id hids hne, Int.add_zero]
    constructor
    . intro b hb
      obtain ⟨hb, hne⟩ := (hescrows.mem b).mp hb
      rw [hsame b.id fun heq => hne (List.mem_singleton.mpr (hnumbered.inj b hb e hmem heq))]
      exact h.isOpen b hb
    . rw [hnext]
      intro id hlt hnone
      by_cases heq : id = e.id
      . rw [heq, total_append hms, sum_of_id hids, h.isOpen e hmem, List.map_singleton,
          List.sum_singleton]
        exact hbalanced.closes _ e m (hnumbered.feePaid e hmem) hclose
      . rw [hsame id heq]
        apply h.isClosed id hlt
        intro b hb hbid
        refine hnone b ((hescrows.mem b).mpr ⟨hb, ?_⟩) hbid
        intro hbe
        exact heq (hbid.symm.trans (congrArg _ (List.mem_singleton.mp hbe)))
    . rw [hnext]
      intro id hle
      rw [hsame id (by have := hnumbered.lt e hmem; omega)]
      exact h.unused id hle

end accounts

/-- A change with lawful movements. -/
structure LawfulChange (db db' : EscrowDatabase) : Prop where
  change : Change db db'
  lawful : ∀ m ∈ db'.movements, m ∈ db.movements ∨ m.Lawful

namespace LawfulChange

theorem of_append {ms : List Movement} (hchange : Change db db')
    (hmovements : db'.movements = db.movements ++ ms) (hms : ∀ m ∈ ms, m.Lawful) :
    LawfulChange db db' := by
  refine ⟨hchange, ?_⟩
  intro m hm
  rw [hmovements] at hm
  rcases List.mem_append.mp hm with hm | hm
  . exact .inl hm
  . exact .inr (hms m hm)

theorem opens {e : EscrowObject} (hid : e.id = db.nextEscrowId) (hopen : e.isApproved = false)
    (hescrows : Table.Inserts db.escrows db'.escrows e)
    (hnext : db'.nextEscrowId = db.nextEscrowId + 1)
    (hmovements : db'.movements = db.movements ++ [⟨e, db.headBlockTime, .deposit⟩]) :
    LawfulChange db db' := by
  apply of_append (.opens hid hopen hescrows hnext hmovements) hmovements
  intro m hm
  rw [List.mem_singleton.mp hm]
  exact hopen

theorem advances {e e' : EscrowObject} {ms : List Movement}
    (hadvance : e.Advance db.headBlockTime ms e')
    (hfee : ∀ m ∈ ms, m.isFeeConversion = false) (hkey : e'.byFromId = e.byFromId)
    (hescrows : Table.Updates db.escrows db'.escrows e e')
    (hnext : db'.nextEscrowId = db.nextEscrowId)
    (hmovements : db'.movements = db.movements ++ ms) : LawfulChange db db' :=
  of_append (.advances hadvance hkey hescrows hnext hmovements) hmovements (hadvance.lawful hfee)

theorem closes {e : EscrowObject} {m : Movement} (hclose : e.Close db.headBlockTime m)
    (hmem : e ∈ db.escrows.rows) (hescrows : Table.Removes db.escrows db'.escrows [e])
    (hnext : db'.nextEscrowId = db.nextEscrowId)
    (hmovements : db'.movements = db.movements ++ [m]) : LawfulChange db db' := by
  apply of_append (.closes hclose hmem hescrows hnext hmovements) hmovements
  intro m' hm'
  rw [List.mem_singleton.mp hm']
  exact hclose.lawful

end LawfulChange

section spec

theorem adjustBalances_cases {name : AccountName} {amounts : List Asset}
    (h : db.adjustBalances name amounts = .ok db') :
    ∃ ledger, db' = { db with ledger := ledger } ∧
      ledger.currentMedianHistory = db.ledger.currentMedianHistory := by
  simp only [adjustBalances, bind_eq_ok, pure_eq_ok] at h
  obtain ⟨ledger, hledger, rfl⟩ := h
  refine ⟨ledger, rfl, ?_⟩
  apply foldlM_invariant (P := fun ledger _ =>
    ledger.currentMedianHistory = db.ledger.currentMedianHistory) _ rfl hledger
  intro l l' a _ hl hadjust
  exact (Ledger.moves_adjustBalance hadjust).currentMedianHistory.trans hl

theorem change_escrowTransfer {o : EscrowTransferOperation} (h : db.escrowTransfer o = .ok db') :
    LawfulChange db db' := by
  have hopen : ∀ db₁ : EscrowDatabase, db₁.escrows = db.escrows →
      db₁.nextEscrowId = db.nextEscrowId → db₁.movements = db.movements →
      db₁.headBlockTime = db.headBlockTime →
      ∀ (e : EscrowObject) (escrows : Table EscrowObject.byFromId), e.id = db₁.nextEscrowId →
      e.isApproved = false → db₁.escrows.emplace e = some escrows →
      LawfulChange db (record { db₁ with escrows := escrows, nextEscrowId := db₁.nextEscrowId + 1 } e
        .deposit) := by
    intro db₁ hescrows hnext hmovements htime e escrows hid hopen hemplace
    rw [hescrows] at hemplace
    refine .opens (hid.trans hnext) hopen (.emplace hemplace) ?_ ?_
    . exact congrArg (· + 1) hnext
    . show db₁.movements ++ [⟨e, db₁.headBlockTime, .deposit⟩] = _
      rw [hmovements, htime]
  simp only [escrowTransfer, bind_eq_ok] at h
  obtain ⟨_, _, _, _, _, _, _, _, _, _, _, _, h⟩ := h
  split at h
  . simp only [bind_eq_ok, get_eq_ok, pure_eq_ok] at h
    obtain ⟨_, _, _, _, _, _, _, _, _, _, _, _, db₁, hadjust, escrows, hemplace, rfl⟩ := h
    obtain ⟨ledger, rfl, _⟩ := adjustBalances_cases hadjust
    exact hopen { db with ledger := ledger } rfl rfl rfl rfl _ escrows rfl rfl hemplace
  . simp only [bind_eq_ok, get_eq_ok, pure_eq_ok] at h
    obtain ⟨_, _, _, _, _, _, _, _, _, _, _, _, db₁, hadjust, escrows, hemplace, rfl⟩ := h
    obtain ⟨ledger, rfl, _⟩ := adjustBalances_cases hadjust
    exact hopen { db with ledger := ledger } rfl rfl rfl rfl _ escrows rfl rfl hemplace

theorem refundEscrow_cases {e : EscrowObject} (h : db.refundEscrow e = .ok db') :
    ∃ ledger, db' =
      { db with
        ledger := ledger
        escrows := db.escrows.erase e.byFromId
        movements := db.movements ++ [⟨e, db.headBlockTime, .refund⟩] } := by
  simp only [refundEscrow, bind_eq_ok, pure_eq_ok] at h
  obtain ⟨db₁, hadjust, rfl⟩ := h
  obtain ⟨ledger, rfl, _⟩ := adjustBalances_cases hadjust
  exact ⟨ledger, rfl⟩

theorem change_refundEscrow {e : EscrowObject} (he : e ∈ db.escrows.rows)
    (happroved : e.isApproved = false) (h : db.refundEscrow e = .ok db') : LawfulChange db db' := by
  obtain ⟨ledger, rfl⟩ := refundEscrow_cases h
  exact .closes (.refund happroved) he (.erase he) rfl rfl

theorem getEscrow_eq_ok {name : AccountName} {escrowId : Nat} {e : EscrowObject} :
    db.getEscrow name escrowId = .ok e ↔ db.escrows.find? (name, escrowId) = some e :=
  get_eq_ok

theorem change_escrowApprove {o : EscrowApproveOperation} (h : db.escrowApprove o = .ok db') :
    LawfulChange db db' := by
  simp only [escrowApprove, bind_eq_ok, ensure_eq_ok, getEscrow_eq_ok] at h
  obtain ⟨_, hvalidate, e, hfind, _, hto, _, hagent, _, _, _, htoApproved, _, hagentApproved, h⟩ := h
  have he := Table.mem_of_find? hfind
  have hkey := Table.key_of_find? hfind
  -- somebody who has not approved yet decides now
  have happroved : e.isApproved = false := by
    simp only [EscrowApproveOperation.validate, bind_eq_ok, ensure_eq_ok] at hvalidate
    obtain ⟨_, _, _, _, _, _, _, _, hwho⟩ := hvalidate
    unfold EscrowObject.isApproved
    rcases hwho with hwho | hwho
    . have := htoApproved hwho
      rw [Bool.not_eq_true] at this
      rw [this, Bool.false_and]
    . have := hagentApproved hwho
      rw [Bool.not_eq_true] at this
      rw [this, Bool.and_false]
  split at h
  . split at h
    . next hmarked =>
      simp only [bind_eq_ok, pure_eq_ok] at h
      obtain ⟨db₁, hadjust, rfl⟩ := h
      obtain ⟨ledger, rfl, _⟩ := adjustBalances_cases hadjust
      have hratify := @EscrowObject.Advance.ratify db.headBlockTime e (o.mark e)
        ⟨rfl, rfl, rfl, rfl⟩ happroved hmarked
      refine .advances hratify (by simp [Movement.isFeeConversion]) rfl ?_ rfl rfl
      exact .modify_of_eq _ (Table.find?_of_mem he) rfl
    . next hmarked =>
      rw [Bool.not_eq_true] at hmarked
      cases h
      have hmark := @EscrowObject.Advance.mark db.headBlockTime e (o.mark e)
        ⟨rfl, rfl, rfl, rfl⟩ happroved hmarked
      refine .advances hmark (by simp) rfl ?_ rfl (List.append_nil _).symm
      exact .modify_of_eq _ (Table.find?_of_mem he) rfl
  . exact change_refundEscrow he happroved h

theorem change_escrowDispute {o : EscrowDisputeOperation} (h : db.escrowDispute o = .ok db') :
    LawfulChange db db' := by
  simp only [escrowDispute, bind_eq_ok, pure_eq_ok, getEscrow_eq_ok] at h
  obtain ⟨_, _, _, _, e, hfind, _, _, _, _, _, _, _, _, _, _, rfl⟩ := h
  refine .advances (@EscrowObject.Advance.dispute _ e) (by simp) rfl ?_ rfl
    (List.append_nil _).symm
  exact .modify_of_eq _ (Table.find?_of_mem (Table.mem_of_find? hfind)) rfl

theorem le_of_le_eq_ok {a b : Asset} {p : Bool} (h : a.le b = .ok p) (hp : p = true) :
    a.amount ≤ b.amount := by
  simp only [Asset.le, bind_eq_ok, pure_eq_ok] at h
  obtain ⟨_, _, rfl⟩ := h
  exact of_decide_eq_true hp

theorem mayRelease_of_checkRelease {e : EscrowObject} {o : EscrowReleaseOperation} {u : Unit}
    (happroved : e.isApproved = true)
    (hreceiver : o.receiver = e.fromAccount ∨ o.receiver = e.toAccount)
    (h : db.checkRelease e o = .ok u) : e.MayRelease db.headBlockTime o.who o.receiver := by
  unfold checkRelease at h
  split at h
  . next hdisputed =>
    have hnot : e.disputed ≠ false := by
      rw [hdisputed]
      decide
    rw [ensure_eq_ok] at h
    exact ⟨happroved, hreceiver, fun _ => h, fun hd => absurd hd hnot, fun hd => absurd hd hnot⟩
  . next hdisputed =>
    simp only [bind_eq_ok, ensure_eq_ok] at h
    obtain ⟨_, hwho, h⟩ := h
    refine ⟨happroved, hreceiver, fun hd => absurd hd hdisputed, fun _ => hwho, ?_⟩
    intro _ hearly
    rw [if_pos hearly] at h
    split at h
    . next hfrom =>
      rw [ensure_eq_ok] at h
      refine ⟨fun _ => h, ?_⟩
      intro hto
      -- the two parties are one
      rw [h, ← hto, hfrom]
    . next hfrom =>
      refine ⟨fun hf => absurd hf hfrom, ?_⟩
      intro hto
      rw [if_pos hto, ensure_eq_ok] at h
      exact h

theorem change_escrowRelease {o : EscrowReleaseOperation} (h : db.escrowRelease o = .ok db') :
    LawfulChange db db' := by
  simp only [escrowRelease, bind_eq_ok, ensure_eq_ok, getEscrow_eq_ok] at h
  obtain ⟨_, hvalidate, _, _, _, _, e, hfind, _, hsteemLe, _, hsteemEnough, _, hsbdLe, _,
    hsbdEnough, _, _, _, _, _, hreceiver, _, happroved, _, hcheck, db₁, hadjust, steemBalance,
    hsteem, sbdBalance, hsbd, h⟩ := h
  have he := Table.mem_of_find? hfind
  have hmay := mayRelease_of_checkRelease happroved hreceiver hcheck
  simp only [EscrowReleaseOperation.validate, bind_eq_ok, checkAssetGe_eq_ok] at hvalidate
  obtain ⟨_, _, _, _, _, _, _, _, _, _, _, _, _, _, _, hsbdZero, _, hsteemZero, _⟩ := hvalidate
  have hsbdRange : 0 ≤ o.sbdAmount.amount ∧ o.sbdAmount.amount ≤ e.sbdBalance.amount :=
    ⟨hsbdZero.2, le_of_le_eq_ok hsbdLe hsbdEnough⟩
  have hsteemRange : 0 ≤ o.steemAmount.amount ∧ o.steemAmount.amount ≤ e.steemBalance.amount :=
    ⟨hsteemZero.2, le_of_le_eq_ok hsteemLe hsteemEnough⟩
  obtain ⟨ledger, rfl, _⟩ := adjustBalances_cases hadjust
  split at h
  . next hnone =>
    cases h
    exact .closes (.release hmay hsbd hsteem hsbdRange hsteemRange hnone.2 hnone.1) he (.erase he)
      rfl rfl
  . cases h
    refine .advances (.release hmay hsbd hsteem hsbdRange hsteemRange)
      (by simp [Movement.isFeeConversion]) rfl ?_ rfl rfl
    exact .modify_of_eq _ (Table.find?_of_mem he) rfl

end spec

section expiry

theorem byRatificationDeadline_sorted (db : EscrowDatabase) :
    db.byRatificationDeadline.Pairwise fun e e' =>
      e.isApproved < e'.isApproved ∨ (e.isApproved = e'.isApproved ∧
        (e.ratificationDeadline < e'.ratificationDeadline ∨
          (e.ratificationDeadline = e'.ratificationDeadline ∧ e.id ≤ e'.id))) := by
  apply List.pairwise_insertionSort_of
  . intro a _ b _
    rcases lt_trichotomy a.isApproved b.isApproved with h | h | h
    . exact .inl (.inl h)
    . rcases (by omega : (a.ratificationDeadline < b.ratificationDeadline ∨
          (a.ratificationDeadline = b.ratificationDeadline ∧ a.id ≤ b.id)) ∨
        (b.ratificationDeadline < a.ratificationDeadline ∨
          (b.ratificationDeadline = a.ratificationDeadline ∧ b.id ≤ a.id))) with hab | hba
      . exact .inl (.inr ⟨h, hab⟩)
      . exact .inr (.inr ⟨h.symm, hba⟩)
    . exact .inr (.inl h)
  . intro a _ b _ c _ hab hbc
    rcases hab with hab | ⟨hab, hab'⟩
    . rcases hbc with hbc | ⟨hbc, _⟩
      . exact .inl (hab.trans hbc)
      . exact .inl (hbc ▸ hab)
    . rcases hbc with hbc | ⟨hbc, hbc'⟩
      . exact .inl (hab ▸ hbc)
      . exact .inr ⟨hab.trans hbc, by omega⟩

/-- The loop over the escrows that have not been approved in time. -/
theorem refundEscrows_cases {l : List EscrowObject} (hl : Table.Lists db.escrows l)
    (happroved : ∀ e ∈ l, e.isApproved = false) (h : l.foldlM refundEscrow db = .ok db') :
    Changes db db' ∧ (∀ m ∈ db'.movements, m ∈ db.movements ∨ m.Lawful) ∧
      Table.Removes db.escrows db'.escrows l ∧ db'.headBlockTime = db.headBlockTime := by
  induction l generalizing db with
  | nil =>
    injection h with h
    exact h ▸ ⟨.refl db, fun m hm => .inl hm, .nil _, rfl⟩
  | cons e l ih =>
    rw [List.foldlM_cons, bind_eq_ok] at h
    obtain ⟨db₁, hrefund, h⟩ := h
    have he := Table.mem_of_find? (hl.row e List.mem_cons_self)
    have hchange := change_refundEscrow he (happroved e List.mem_cons_self) hrefund
    obtain ⟨ledger, rfl⟩ := refundEscrow_cases hrefund
    obtain ⟨hchanges, hlawful, hremoves, htime⟩ := ih hl.erase
      (fun e' he' => happroved e' (List.mem_cons_of_mem _ he')) h
    refine ⟨hchange.change.changes.trans hchanges, ?_, .cons he hremoves, htime⟩
    intro m hm
    rcases hlawful m hm with hm | hm
    . exact hchange.lawful m hm
    . exact .inr hm

theorem expireEscrowRatification_cases (h : db.expireEscrowRatification = .ok db') :
    Changes db db' ∧ (∀ m ∈ db'.movements, m ∈ db.movements ∨ m.Lawful) ∧
      ∀ e ∈ db'.escrows.rows,
        e.isApproved = true ∨ db'.headBlockTime < e.ratificationDeadline := by
  have hperm : db.byRatificationDeadline.Perm db.escrows.rows := List.perm_insertionSort _ _
  have hsub := List.takeWhile_sublist (fun e : EscrowObject =>
    !e.isApproved && decide (e.ratificationDeadline ≤ db.headBlockTime))
    (l := db.byRatificationDeadline)
  have hlists : Table.Lists db.escrows (db.byRatificationDeadline.takeWhile fun e =>
      !e.isApproved && e.ratificationDeadline ≤ db.headBlockTime) := by
    constructor
    . exact ((hperm.map _).nodup_iff.mpr db.escrows.nodup).sublist (hsub.map _)
    . intro e he
      exact Table.find?_of_mem (hperm.mem_iff.mp (hsub.subset he))
  obtain ⟨hchanges, hlawful, hremoves, htime⟩ := refundEscrows_cases hlists (by
    intro e he
    have := List.mem_takeWhile_imp he
    rw [Bool.and_eq_true, Bool.not_eq_true'] at this
    exact this.1) h
  refine ⟨hchanges, hlawful, ?_⟩
  intro e he
  obtain ⟨he, hnot⟩ := (hremoves.mem e).mp he
  have he := hperm.mem_iff.mpr he
  rw [← List.takeWhile_append_dropWhile (p := fun e : EscrowObject =>
    !e.isApproved && decide (e.ratificationDeadline ≤ db.headBlockTime))
    (l := db.byRatificationDeadline), List.mem_append] at he
  -- what the loop passes over is behind all that it takes
  have hlate := List.not_of_mem_dropWhile _ db.byRatificationDeadline_sorted (by
    intro a _ b _ hab hb
    rw [Bool.and_eq_true, Bool.not_eq_true', decide_eq_true_eq] at hb ⊢
    rcases hab with hab | ⟨hab, hab'⟩
    . rw [hb.1] at hab
      exact absurd hab (by simp)
    . exact ⟨hab.trans hb.1, by omega⟩) (he.resolve_left hnot)
  rw [Bool.and_eq_false_iff, Bool.not_eq_false', decide_eq_false_iff_not, not_le] at hlate
  rw [htime]
  exact hlate

end expiry

section conversion

theorem convertBalance_cases {e : EscrowObject} (he : e ∈ db.escrows.rows)
    (h : db.convertBalance e = .ok db') :
    LawfulChange db db' ∧ db'.ledger = db.ledger ∧
      db'.sbdDebtConvertRate = db.sbdDebtConvertRate ∧
      (∃ e' : EscrowObject, e'.byFromId = e.byFromId ∧ e'.pendingFee = e.pendingFee ∧
        db'.escrows.find? e.byFromId = some e') ∧
      ∀ k, k ≠ e.byFromId → db'.escrows.find? k = db.escrows.find? k := by
  have hfind := Table.find?_of_mem he
  unfold convertBalance at h
  split at h
  . simp only [bind_eq_ok, pure_eq_ok] at h
    obtain ⟨sbd, _, steem, hrate, sbd', hsbd, steem', hsteem, rfl⟩ := h
    have hupdates := Table.Updates.modify_of_eq (fun e : EscrowObject =>
      { e with sbdBalance := sbd', steemBalance := steem' }) hfind rfl
    refine ⟨.advances (.convert hrate hsbd hsteem) ?_ rfl hupdates rfl rfl, rfl, rfl, ?_, ?_⟩
    . simp [Movement.isFeeConversion]
    . exact ⟨{ e with sbdBalance := sbd', steemBalance := steem' }, rfl, rfl,
        (hupdates.find? _).trans (if_pos rfl)⟩
    . intro k hk
      exact (hupdates.find? k).trans (if_neg hk)
  . cases h
    exact ⟨⟨.none rfl rfl rfl, fun m hm => .inl hm⟩, rfl, rfl, ⟨e, rfl, rfl, hfind⟩,
      fun _ _ => rfl⟩

/-- What the fee of an escrow is worth to its agent when it is converted. -/
def FeeWorth (db : EscrowDatabase) (e : EscrowObject) (steem : Asset) : Prop :=
  e.pendingFee.symbol = sbdSymbol ∧ e.pendingFee.amount ≠ 0 ∧ ∃ sbd,
    db.convertedPart e.pendingFee = .ok sbd ∧
      sbd.mulPrice db.ledger.currentMedianHistory = .ok steem

theorem FeeWorth.congr {e e' : EscrowObject} {steem : Asset} (h : db.FeeWorth e steem)
    (hfee : e'.pendingFee = e.pendingFee)
    (hmedian : db'.ledger.currentMedianHistory = db.ledger.currentMedianHistory)
    (hrate : db'.sbdDebtConvertRate = db.sbdDebtConvertRate) : db'.FeeWorth e' steem := by
  unfold FeeWorth convertedPart at h ⊢
  rw [hfee, hmedian, hrate]
  exact h

/-- What the conversion of an escrow does. -/
structure Converts (db db' : EscrowDatabase) (e : EscrowObject) : Prop where
  changes : Changes db db'
  currentMedianHistory : db'.ledger.currentMedianHistory = db.ledger.currentMedianHistory
  sbdDebtConvertRate : db'.sbdDebtConvertRate = db.sbdDebtConvertRate
  lawful : ∀ m ∈ db'.movements, m ∈ db.movements ∨ m.Lawful ∨
    ∃ steem, db.FeeWorth e steem ∧ steem.amount ≠ 0
  unlawful : ∀ steem, db.FeeWorth e steem → steem.amount ≠ 0 → ¬db'.Lawful
  others : ∀ k, k ≠ e.byFromId → db'.escrows.find? k = db.escrows.find? k

theorem converts_convertFee {e : EscrowObject} (he : e ∈ db.escrows.rows) (hfee : e.FeePaid)
    (h : db.convertFee e = .ok db') : Converts db db' e := by
  have hfind := Table.find?_of_mem he
  unfold convertFee at h
  split at h
  . next hpending =>
    simp only [bind_eq_ok, pure_eq_ok] at h
    obtain ⟨sbd, hsbd, steem, hrate, fee, hsub, db₁, hadjust, rfl⟩ := h
    obtain ⟨ledger, rfl, hmedian⟩ := adjustBalances_cases hadjust
    have hworth : db.FeeWorth e steem := ⟨hpending.1, hpending.2, sbd, hsbd, hrate⟩
    have hupdates := Table.Updates.modify_of_eq (fun e : EscrowObject =>
      { e with pendingFee := fee }) hfind rfl
    constructor
    . apply Change.changes
      refine .advances (.convertFee hpending.2 hrate hsub) rfl hupdates rfl ?_
      show _ ++ [(⟨e, db.headBlockTime, .feeConversion ledger.currentMedianHistory sbd steem⟩ :
        Movement)] = _
      rw [hmedian]
      rfl
    . exact hmedian
    . rfl
    . intro m hm
      rcases List.mem_append.mp hm with hm | hm
      . exact .inl hm
      . rw [List.mem_singleton.mp hm]
        by_cases hzero : steem.amount = 0
        . refine .inr (.inl ⟨?_, .inl hzero⟩)
          show sbd.mulPrice ledger.currentMedianHistory = .ok steem
          rw [hmedian]
          exact hrate
        . exact .inr (.inr ⟨steem, hworth, hzero⟩)
    . rintro steem' ⟨_, _, sbd', hsbd', hrate'⟩ hne hlawful
      obtain rfl := Except.ok.inj (hsbd.symm.trans hsbd')
      obtain rfl := Except.ok.inj (hrate.symm.trans hrate')
      -- an escrow with a fee is not approved
      rcases hlawful _ (List.mem_append_right _ List.mem_cons_self) with ⟨_, hzero | happroved⟩
      . exact hne hzero
      . exact hpending.2 (hfee happroved)
    . intro k hk
      exact (hupdates.find? k).trans (if_neg hk)
  . next hpending =>
    cases h
    refine ⟨.refl db, rfl, rfl, fun m hm => .inl hm, ?_, fun _ _ => rfl⟩
    rintro steem ⟨hsymbol, hne, _⟩
    exact absurd ⟨hsymbol, hne⟩ hpending

theorem Changes.numbered (h : Changes db db') (hnumbered : db.Numbered) : db'.Numbered := by
  induction h with
  | refl => exact hnumbered
  | tail _ hchange ih => exact ih.change hchange

theorem converts_convertEscrow {e : EscrowObject} (he : e ∈ db.escrows.rows)
    (hnumbered : db.Numbered) (h : db.convertEscrow e = .ok db') : Converts db db' e := by
  simp only [convertEscrow, bind_eq_ok, getEscrow_eq_ok] at h
  obtain ⟨db₁, hbalance, e₁, hfind, h⟩ := h
  obtain ⟨⟨hchange, hlawful⟩, hledger, hrate, ⟨e', hkey', hfee', hfind'⟩, hothers⟩ :=
    convertBalance_cases he hbalance
  obtain rfl := Option.some.inj (hfind'.symm.trans hfind)
  have he' := Table.mem_of_find? hfind
  have hconverts := converts_convertFee he' ((hnumbered.change hchange).feePaid _ he') h
  have hmedian := congrArg Ledger.currentMedianHistory hledger
  constructor
  . exact hchange.changes.trans hconverts.changes
  . exact hconverts.currentMedianHistory.trans hmedian
  . exact hconverts.sbdDebtConvertRate.trans hrate
  . intro m hm
    rcases hconverts.lawful m hm with hm | hm | ⟨steem, hworth, hne⟩
    . rcases hlawful m hm with hm | hm
      . exact .inl hm
      . exact .inr (.inl hm)
    . exact .inr (.inl hm)
    . exact .inr (.inr ⟨steem, hworth.congr hfee'.symm hmedian.symm hrate.symm, hne⟩)
  . intro steem hworth hne
    exact hconverts.unlawful steem (hworth.congr hfee' hmedian hrate) hne
  . intro k hk
    rw [hconverts.others k (hkey' ▸ hk)]
    exact hothers k hk

/-- The loop over the escrows, each of which is as it was when its turn comes. -/
theorem convertEscrows_cases {l : List EscrowObject} (hl : Table.Lists db.escrows l)
    (hnumbered : db.Numbered) (h : l.foldlM convertEscrow db = .ok db') :
    Changes db db' ∧
      (∀ m ∈ db'.movements, m ∈ db.movements ∨ m.Lawful ∨
        ∃ e ∈ l, ∃ steem, db.FeeWorth e steem ∧ steem.amount ≠ 0) ∧
      ∀ e ∈ l, ∀ steem, db.FeeWorth e steem → steem.amount ≠ 0 → ¬db'.Lawful := by
  induction l generalizing db with
  | nil =>
    cases h
    exact ⟨.refl _, fun m hm => .inl hm, fun e he => absurd he List.not_mem_nil⟩
  | cons e l ih =>
    rw [List.foldlM_cons, bind_eq_ok] at h
    obtain ⟨db₁, hconvert, h⟩ := h
    have he := Table.mem_of_find? (hl.row e List.mem_cons_self)
    have hconverts := converts_convertEscrow he hnumbered hconvert
    have hlists : Table.Lists db₁.escrows l := by
      refine ⟨hl.tail.nodup, ?_⟩
      intro e' he'
      have hnodup := hl.nodup
      rw [List.map_cons, List.nodup_cons] at hnodup
      rw [hconverts.others]
      . exact hl.tail.row e' he'
      . intro heq
        apply hnodup.1
        rw [← heq]
        exact List.mem_map_of_mem he'
    obtain ⟨hchanges, hlawful, hunlawful⟩ := ih hlists (hconverts.changes.numbered hnumbered) h
    refine ⟨hconverts.changes.trans hchanges, ?_, ?_⟩
    . intro m hm
      rcases hlawful m hm with hm | hm | ⟨e', he', steem, hworth, hne⟩
      . rcases hconverts.lawful m hm with hm | hm | ⟨steem, hworth, hne⟩
        . exact .inl hm
        . exact .inr (.inl hm)
        . exact .inr (.inr ⟨e, List.mem_cons_self, steem, hworth, hne⟩)
      . exact .inr (.inl hm)
      . refine .inr (.inr ⟨e', List.mem_cons_of_mem e he', steem, ?_, hne⟩)
        exact hworth.congr rfl hconverts.currentMedianHistory.symm
          hconverts.sbdDebtConvertRate.symm
    . intro e' he' steem hworth hne
      rcases List.mem_cons.mp he' with rfl | he'
      . intro hall
        exact hconverts.unlawful steem hworth hne (hchanges.lawful hall)
      . apply hunlawful e' he' steem _ hne
        exact hworth.congr rfl hconverts.currentMedianHistory hconverts.sbdDebtConvertRate

end conversion

end EscrowDatabase

end Golos
