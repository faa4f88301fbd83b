import Golos.Lib.Trace
import Golos.Notification.Impl.Database

/-!
This module contains what the notifications sent while a transaction is applied have to do with the
position that the database keeps, and when the recorded ones identify their operations.
-/

namespace Golos

variable {D O T : Type}

namespace SentNotification

variable (n : SentNotification O)

/-- The notification is about an operation of the transaction or about a virtual operation. -/
def IsIdentifying : Prop :=
  n.isVirtual = true ∨ n.place.nested = false

instance : Decidable n.IsIdentifying :=
  inferInstanceAs (Decidable (_ ∨ _))

/-- It is the first of two about the same. -/
def Announces : Prop :=
  n.IsIdentifying ∧ n.phase = .pre

instance : Decidable n.Announces :=
  inferInstanceAs (Decidable (_ ∧ _))

def Identifies (trxId : TransactionIdType) : Prop :=
  n.note.trxId = trxId ∧ n.note.opInTrx.toNat = n.place.index

instance (trxId : TransactionIdType) : Decidable (n.Identifies trxId) :=
  inferInstanceAs (Decidable (_ ∧ _))

end SentNotification

namespace ApplicationEvent

def announces : ApplicationEvent O T → Bool
  | .sent n => n.Announces
  | .preApplication _ => false

/-- The number of a virtual operation that is announced. -/
def virtualOp : ApplicationEvent O T → Option UInt32
  | .sent n => if n.isVirtual = true ∧ n.phase = .pre then some n.note.virtualOp else none
  | .preApplication _ => none

def isPreApplication : ApplicationEvent O T → Bool
  | .sent _ => false
  | .preApplication _ => true

end ApplicationEvent

def virtualOps (l : List (ApplicationEvent O T)) : List UInt32 :=
  l.filterMap ApplicationEvent.virtualOp

/--
The notifications about the operations of a transaction and about virtual operations have the id of
the transaction and the number of the operation, and the virtual operations are numbered upwards.
-/
def Identified (trxId : TransactionIdType) (l : List (ApplicationEvent O T)) : Prop :=
  (∀ n, ApplicationEvent.sent n ∈ l → n.IsIdentifying → n.Identifies trxId) ∧
    (virtualOps l).Pairwise (· < ·)

/--
Nothing that a position identifies is announced after a proposed transaction began to be tried out,
and nothing beyond the numbers that the position has room for.
-/
structure Undisturbed (l : List (ApplicationEvent O T)) : Prop where
  after : l.Pairwise fun e e' => e.isPreApplication = true → e'.announces = false
  operations : ∀ n, ApplicationEvent.sent n ∈ l → n.Announces → n.place.index < 2 ^ 16
  virtual : (virtualOps l).length < 2 ^ 32

/-- The transaction has an id, and no transaction that is tried out has the same. -/
structure Distinct (c : NotifyingChain D O T) (trxId : TransactionIdType)
    (l : List (ApplicationEvent O T)) : Prop where
  ne_zero : trxId ≠ 0
  ne_id : ∀ trx, ApplicationEvent.preApplication trx ∈ l → c.id trx ≠ trxId

/-- No transaction has been tried out. -/
def Undivided (l : List (ApplicationEvent O T)) : Prop :=
  ∀ e ∈ l, e.isPreApplication = false

/--
What is sent, event by event. What is announced has the position that is due as long as no proposed
transaction was tried out, and another id afterwards.
-/
inductive Recorded (c : NotifyingChain D O T) (trxId : TransactionIdType) :
    List (ApplicationEvent O T) → Prop
  | nil : Recorded c trxId []
  | preApplication {l : List (ApplicationEvent O T)} (h : Recorded c trxId l) (trx : T) :
    Recorded c trxId (l ++ [.preApplication trx])
  | announced {l : List (ApplicationEvent O T)} (h : Recorded c trxId l) (n : SentNotification O)
    (hn : n.Announces)
    (hposition : Undivided l → n.note.trxId = trxId ∧
      n.note.opInTrx = .ofNat n.place.index ∧
      (n.isVirtual = true → n.note.virtualOp = .ofNat ((virtualOps l).length + 1)))
    (hlost : ¬Undivided l → Distinct c trxId l → n.note.trxId ≠ trxId) :
    Recorded c trxId (l ++ [.sent n])
  | repeated {l : List (ApplicationEvent O T)} (h : Recorded c trxId l) (n n' : SentNotification O)
    (hn : n.phase = .post) (hn' : .sent n' ∈ l) (hplace : n.place = n'.place)
    (hvirtual : n.isVirtual = n'.isVirtual) (htrxId : n.note.trxId = n'.note.trxId)
    (hopInTrx : n.note.opInTrx = n'.note.opInTrx) : Recorded c trxId (l ++ [.sent n])
  | nested {l : List (ApplicationEvent O T)} (h : Recorded c trxId l) (n : SentNotification O)
    (hn : ¬n.IsIdentifying) : Recorded c trxId (l ++ [.sent n])

section snoc

variable {l : List (ApplicationEvent O T)} {e : ApplicationEvent O T}

theorem undivided_snoc : Undivided (l ++ [e]) ↔ Undivided l ∧ e.isPreApplication = false := by
  unfold Undivided
  simp only [List.mem_append, List.mem_singleton]
  constructor
  . intro h
    exact ⟨fun e' he' => h e' (.inl he'), h e (.inr rfl)⟩
  . rintro ⟨hl, he⟩ e' (he' | rfl)
    . exact hl e' he'
    . exact he

theorem virtualOps_snoc : virtualOps (l ++ [e]) = virtualOps l ++ e.virtualOp.toList := by
  unfold virtualOps
  rw [List.filterMap_append]
  cases h : e.virtualOp with
  | none => simp [h]
  | some v => simp [h]

theorem Undisturbed.of_snoc (h : Undisturbed (l ++ [e])) : Undisturbed l where
  after := (List.pairwise_append.mp h.after).1
  operations n hn := h.operations n (List.mem_append_left _ hn)
  virtual := by
    have := h.virtual
    rw [virtualOps_snoc, List.length_append] at this
    omega

theorem Distinct.of_snoc {c : NotifyingChain D O T} {trxId : TransactionIdType}
    (h : Distinct c trxId (l ++ [e])) : Distinct c trxId l where
  ne_zero := h.ne_zero
  ne_id trx htrx := h.ne_id trx (List.mem_append_left _ htrx)

theorem Undisturbed.undivided (h : Undisturbed (l ++ [e])) (he : e.announces = true) :
    Undivided l := by
  intro e' he'
  have := (List.pairwise_append.mp h.after).2.2 e' he' e (List.mem_singleton_self e)
  cases hpre : e'.isPreApplication with
  | false => rfl
  | true =>
    rw [this hpre] at he
    cases he

/-- An event that announces nothing does not disturb. -/
theorem Undisturbed.snoc (h : Undisturbed l) (he : e.announces = false)
    (hvirtual : e.virtualOp = none) : Undisturbed (l ++ [e]) where
  after := by
    rw [List.pairwise_append]
    refine ⟨h.after, List.pairwise_singleton _ _, ?_⟩
    intro e' _ e'' he'' _
    rw [List.mem_singleton.mp he'']
    exact he
  operations n hn hannounces := by
    rcases List.mem_append.mp hn with hn | hn
    . exact h.operations n hn hannounces
    . rw [← List.mem_singleton.mp hn] at he
      simp [ApplicationEvent.announces, hannounces] at he
  virtual := by
    rw [virtualOps_snoc, hvirtual]
    simpa using h.virtual

theorem identified_snoc {trxId : TransactionIdType} :
    Identified trxId (l ++ [e]) ↔ Identified trxId l ∧
      (∀ n, e = .sent n → n.IsIdentifying → n.Identifies trxId) ∧
        ∀ v, e.virtualOp = some v → ∀ v' ∈ virtualOps l, v' < v := by
  unfold Identified
  rw [virtualOps_snoc, List.pairwise_append]
  simp only [List.mem_append, List.mem_singleton, Option.mem_toList]
  constructor
  . rintro ⟨hl, hpairwise, _, hv⟩
    exact ⟨⟨fun n hn => hl n (.inl hn), hpairwise⟩, fun n hn => hl n (.inr hn.symm),
      fun v hv' v' hv'' => hv v' hv'' v hv'⟩
  . rintro ⟨⟨hl, hpairwise⟩, he, hv⟩
    refine ⟨?_, hpairwise, ?_, fun v' hv'' v hv' => hv v hv' v' hv''⟩
    . rintro n (hn | hn)
      . exact hl n hn
      . exact he n hn.symm
    . cases e.virtualOp with
      | none => exact .nil
      | some v => exact List.pairwise_singleton _ v

end snoc

end Golos

namespace Golos

variable {D O T : Type} {c : NotifyingChain D O T} {trxId : TransactionIdType}
  {l : List (ApplicationEvent O T)}

namespace SentNotification

variable {n : SentNotification O}

theorem announces_sent (hn : n.Announces) :
    (ApplicationEvent.sent n : ApplicationEvent O T).announces = true := by
  unfold ApplicationEvent.announces
  simpa using hn

theorem announces_eq_false (hn : ¬n.Announces) :
    (ApplicationEvent.sent n : ApplicationEvent O T).announces = false := by
  unfold ApplicationEvent.announces
  simpa using hn

theorem virtualOp_sent (hn : n.Announces) (hvirtual : n.isVirtual = true) :
    (ApplicationEvent.sent n : ApplicationEvent O T).virtualOp = some n.note.virtualOp :=
  if_pos ⟨hvirtual, hn.2⟩

theorem virtualOp_sent_eq_none (h : n.isVirtual = false ∨ n.phase = .post) :
    (ApplicationEvent.sent n : ApplicationEvent O T).virtualOp = none := by
  apply if_neg
  rintro ⟨hvirtual, hpre⟩
  rcases h with h | h
  . rw [hvirtual] at h
    cases h
  . rw [hpre] at h
    cases h

theorem identifies_iff (htrxId : n.note.trxId = trxId)
    (hopInTrx : n.note.opInTrx = .ofNat n.place.index) :
    n.Identifies trxId ↔ n.place.index < 2 ^ 16 := by
  unfold Identifies
  rw [hopInTrx]
  have : (UInt16.ofNat n.place.index).toNat = n.place.index % 2 ^ 16 := UInt16.toNat_ofNat'
  constructor
  . rintro ⟨_, h⟩
    omega
  . intro h
    exact ⟨htrxId, by omega⟩

end SentNotification

/-- Until a proposed transaction is tried out, virtual operations are numbered from 1. -/
theorem Recorded.virtualOps_le (h : Recorded c trxId l) (hl : Undivided l)
    (hlength : (virtualOps l).length < 2 ^ 32) :
    ∀ v ∈ virtualOps l, v.toNat ≤ (virtualOps l).length := by
  induction h with
  | nil => simp [virtualOps]
  | preApplication h trx ih =>
    have := (undivided_snoc.mp hl).2
    cases this
  | @announced l h n hn hposition _ ih =>
    have hl' := (undivided_snoc.mp hl).1
    rw [virtualOps_snoc] at hlength ⊢
    cases hvirtual : n.isVirtual with
    | false =>
      rw [SentNotification.virtualOp_sent_eq_none (.inl hvirtual)] at hlength ⊢
      simp only [Option.toList_none, List.append_nil] at hlength ⊢
      exact ih hl' hlength
    | true =>
      have hnumber := (hposition hl').2.2 hvirtual
      rw [SentNotification.virtualOp_sent hn hvirtual] at hlength ⊢
      simp only [Option.toList_some, List.length_append, List.length_singleton, List.mem_append,
        List.mem_singleton] at hlength ⊢
      rintro v (hv | rfl)
      . have := ih hl' (by omega) v hv
        omega
      . rw [hnumber, UInt32.toNat_ofNat']
        omega
  | repeated h n n' hn _ _ _ _ _ ih =>
    rw [virtualOps_snoc, SentNotification.virtualOp_sent_eq_none (.inr hn)] at hlength ⊢
    simp only [Option.toList_none, List.append_nil] at hlength ⊢
    exact ih (undivided_snoc.mp hl).1 hlength
  | nested h n hn ih =>
    have hvirtual : n.isVirtual = false := by
      simp only [SentNotification.IsIdentifying, not_or] at hn
      simpa using hn.1
    rw [virtualOps_snoc, SentNotification.virtualOp_sent_eq_none (.inl hvirtual)] at hlength ⊢
    simp only [Option.toList_none, List.append_nil] at hlength ⊢
    exact ih (undivided_snoc.mp hl).1 hlength

/-- The number after the numbers so far is greater than these, unless there is no room for it. -/
theorem Recorded.lt_next_iff (h : Recorded c trxId l) (hl : Undivided l)
    (hlength : (virtualOps l).length < 2 ^ 32) :
    (∀ v ∈ virtualOps l, v < UInt32.ofNat ((virtualOps l).length + 1)) ↔
      (virtualOps l).length + 1 < 2 ^ 32 := by
  have hle := h.virtualOps_le hl hlength
  have hnext : (UInt32.ofNat ((virtualOps l).length + 1)).toNat =
      ((virtualOps l).length + 1) % 2 ^ 32 := UInt32.toNat_ofNat'
  constructor
  . intro hlt
    by_contra hfull
    -- the number is 0, and there are numbers before it
    obtain ⟨v, hv⟩ := List.exists_mem_of_length_pos (l := virtualOps l) (by omega)
    have := UInt32.lt_iff_toNat_lt.mp (hlt v hv)
    omega
  . intro hroom v hv
    rw [UInt32.lt_iff_toNat_lt, hnext]
    have := hle v hv
    omega

theorem Recorded.identified_of_undisturbed (h : Recorded c trxId l) (hl : Undisturbed l) :
    Identified trxId l := by
  induction h with
  | nil => exact ⟨fun n hn => (nomatch hn), .nil⟩
  | preApplication h trx ih =>
    rw [identified_snoc]
    exact ⟨ih hl.of_snoc, fun n hn => (nomatch hn), fun v hv => (nomatch hv)⟩
  | @announced l h n hn hposition _ ih =>
    have hundivided := hl.undivided (SentNotification.announces_sent hn)
    obtain ⟨htrxId, hopInTrx, hnumber⟩ := hposition hundivided
    rw [identified_snoc]
    refine ⟨ih hl.of_snoc, ?_, ?_⟩
    . rintro _ ⟨⟩ _
      rw [SentNotification.identifies_iff htrxId hopInTrx]
      exact hl.operations n (List.mem_append_right _ (List.mem_singleton_self _)) hn
    . intro v hv
      cases hvirtual : n.isVirtual with
      | false =>
        rw [SentNotification.virtualOp_sent_eq_none (.inl hvirtual)] at hv
        cases hv
      | true =>
        have hlength := hl.virtual
        rw [SentNotification.virtualOp_sent hn hvirtual] at hv
        rw [virtualOps_snoc, SentNotification.virtualOp_sent hn hvirtual] at hlength
        simp only [Option.toList_some, List.length_append, List.length_singleton] at hlength
        cases hv
        rw [hnumber hvirtual]
        exact (h.lt_next_iff hundivided (by omega)).mpr hlength
  | repeated h n n' hn hn' hplace hvirtual htrxId hopInTrx ih =>
    have hidentified := ih hl.of_snoc
    rw [identified_snoc]
    refine ⟨hidentified, ?_, ?_⟩
    . rintro _ ⟨⟩ hidentifying
      unfold SentNotification.IsIdentifying at hidentifying
      rw [hvirtual, hplace] at hidentifying
      have := hidentified.1 n' hn' hidentifying
      unfold SentNotification.Identifies at this ⊢
      rw [htrxId, hopInTrx, hplace]
      exact this
    . intro v hv
      rw [SentNotification.virtualOp_sent_eq_none (.inr hn)] at hv
      cases hv
  | nested h n hn ih =>
    rw [identified_snoc]
    refine ⟨ih hl.of_snoc, ?_, ?_⟩
    . rintro _ ⟨⟩ hidentifying
      exact absurd hidentifying hn
    . intro v hv
      simp only [SentNotification.IsIdentifying, not_or] at hn
      rw [SentNotification.virtualOp_sent_eq_none (.inl (by simpa using hn.1))] at hv
      cases hv

theorem Recorded.undisturbed_of_identified (h : Recorded c trxId l) (hdistinct : Distinct c trxId l)
    (hl : Identified trxId l) : Undisturbed l := by
  induction h with
  | nil => exact ⟨.nil, fun n hn => (nomatch hn), by simp [virtualOps]⟩
  | preApplication h trx ih =>
    rw [identified_snoc] at hl
    exact (ih hdistinct.of_snoc hl.1).snoc rfl rfl
  | @announced l h n hn hposition hlost ih =>
    rw [identified_snoc] at hl
    obtain ⟨hl, hidentifies, hnumbers⟩ := hl
    have hundisturbed := ih hdistinct.of_snoc hl
    have hn' := hidentifies n rfl hn.1
    have hundivided : Undivided l := by
      by_contra hdivided
      exact hlost hdivided hdistinct.of_snoc hn'.1
    obtain ⟨htrxId, hopInTrx, hnumber⟩ := hposition hundivided
    constructor
    . rw [List.pairwise_append]
      refine ⟨hundisturbed.after, List.pairwise_singleton _ _, ?_⟩
      intro e he e' _ hpre
      rw [hundivided e he] at hpre
      cases hpre
    . intro n' hmem hannounces
      rcases List.mem_append.mp hmem with hmem | hmem
      . exact hundisturbed.operations n' hmem hannounces
      . cases List.mem_singleton.mp hmem
        exact (SentNotification.identifies_iff htrxId hopInTrx).mp hn'
    . rw [virtualOps_snoc]
      cases hvirtual : n.isVirtual with
      | false =>
        rw [SentNotification.virtualOp_sent_eq_none (.inl hvirtual)]
        simpa using hundisturbed.virtual
      | true =>
        have hlt := hnumbers _ (SentNotification.virtualOp_sent hn hvirtual)
        rw [hnumber hvirtual] at hlt
        rw [SentNotification.virtualOp_sent hn hvirtual]
        simp only [Option.toList_some, List.length_append, List.length_singleton]
        exact (h.lt_next_iff hundivided hundisturbed.virtual).mp hlt
  | repeated h n n' hn _ _ _ _ _ ih =>
    rw [identified_snoc] at hl
    apply (ih hdistinct.of_snoc hl.1).snoc
    . apply SentNotification.announces_eq_false
      rintro ⟨_, hpre⟩
      rw [hn] at hpre
      cases hpre
    . exact SentNotification.virtualOp_sent_eq_none (.inr hn)
  | nested h n hn ih =>
    rw [identified_snoc] at hl
    apply (ih hdistinct.of_snoc hl.1).snoc
    . exact SentNotification.announces_eq_false fun h => hn h.1
    . simp only [SentNotification.IsIdentifying, not_or] at hn
      exact SentNotification.virtualOp_sent_eq_none (.inl (by simpa using hn.1))

end Golos
