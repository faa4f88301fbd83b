import Golos.Witness.Impl.Evaluators

/-!
This module contains what the medians of chain properties are.
-/

namespace Golos.Witness

open Checked

variable {active : List ChainProperties}

/-- `x` has the rank of the median among the values of the properties. -/
def IsMedianOf {κ : Type} [LinearOrder κ] (value : ChainProperties → κ)
    (active : List ChainProperties) (x : κ) : Prop :=
  OrderStat.nthElement (active.map value) (active.length / 2) = some x

theorem medianBy_spec {κ : Type} [LinearOrder κ] (key : ChainProperties → κ) (h : active ≠ []) :
    medianBy active key ∈ active ∧ IsMedianOf key active (key (medianBy active key)) := by
  have hlt : active.length / 2 < active.length := by
    have := List.length_pos_iff.mpr h
    omega
  obtain ⟨p, hp⟩ := Option.isSome_iff_exists.mp (OrderStat.nthElementOn_isSome key hlt)
  unfold IsMedianOf medianBy
  rw [← OrderStat.map_nthElementOn, hp]
  exact ⟨OrderStat.mem_of_nthElementOn hp, rfl⟩

theorem calcMedianBattery_spec {window items : ChainProperties → Nat} {x : Nat × Nat}
    (h : active ≠ []) (hx : calcMedianBattery active window items = .ok x) :
    ∃ p ∈ active, (window p, items p) = x ∧
      IsMedianOf (batteryKey window items) active (batteryKey window items p) ∧ items p ≠ 0 := by
  simp only [calcMedianBattery, bind_eq_ok, ensure_eq_ok, pure_eq_ok] at hx
  obtain ⟨_, hne, rfl⟩ := hx
  obtain ⟨hmem, hmedian⟩ := medianBy_spec (batteryKey window items) h
  exact ⟨_, hmem, rfl, hmedian, hne _ hmem⟩

/-- The windows, each with the number of operations in it. -/
def batteryParams : List ((ChainProperties → Nat) × (ChainProperties → Nat)) :=
  [((·.postsWindow), (·.postsPerWindow)), ((·.commentsWindow), (·.commentsPerWindow)),
    ((·.votesWindow), (·.votesPerWindow))]

theorem battery_of_eq {window items : ChainProperties → Nat} {m : ChainProperties}
    (h : ∃ p ∈ active, (window p, items p) = (window m, items m) ∧
      IsMedianOf (batteryKey window items) active (batteryKey window items p) ∧ items p ≠ 0) :
    IsMedianOf (batteryKey window items) active (batteryKey window items m) ∧
      ∃ p ∈ active, window p = window m ∧ items p = items m := by
  obtain ⟨p, hp, heq, hmedian, _⟩ := h
  obtain ⟨hwindow, hitems⟩ := Prod.mk.inj heq
  refine ⟨?_, p, hp, hwindow, hitems⟩
  have hkey : batteryKey window items p = batteryKey window items m := by
    unfold batteryKey
    rw [hwindow, hitems]
  rw [← hkey]
  exact hmedian

end Golos.Witness
