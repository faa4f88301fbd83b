import Mathlib.Data.List.Nodup
import Mathlib.Data.List.Perm.Basic

/-!
This module contains the guard against accepting a thing twice: an index of what was accepted, from
which things are dropped once they have expired.
-/

namespace ReplayGuard

variable {α : Type u} {ι : Type v} (id : α → ι) (expiration : α → Nat)

/--
No two accepted things have the same id, and each is still known unless it expired before `pruned`,
the time up to which the index has forgotten.
-/
structure Guarded (accepted : List α) (known : ι → Option Nat) (pruned : Nat) : Prop where
  distinct : (accepted.map id).Nodup
  known : ∀ a ∈ accepted, known (id a) = some (expiration a) ∨ expiration a < pruned

namespace Guarded

variable {id expiration} {accepted accepted' : List α} {known known' : ι → Option Nat}
  {pruned pruned' : Nat}

theorem nil : Guarded id expiration [] known pruned :=
  ⟨List.nodup_nil, fun _ ha => by cases ha⟩

theorem perm (h : Guarded id expiration accepted known pruned) (hperm : accepted.Perm accepted') :
    Guarded id expiration accepted' known pruned := by
  constructor
  . exact (hperm.map id).nodup_iff.mp h.distinct
  . intro a ha
    exact h.known a (hperm.mem_iff.mpr ha)

/-- The index may forget what has expired by a later time, and learn anything. -/
theorem prune (h : Guarded id expiration accepted known pruned) (hle : pruned ≤ pruned')
    (hkept : ∀ a ∈ accepted, known (id a) = some (expiration a) → pruned' ≤ expiration a →
      known' (id a) = some (expiration a)) :
    Guarded id expiration accepted known' pruned' := by
  constructor
  . exact h.distinct
  . intro a ha
    rcases h.known a ha with hknown | hexpired
    . rcases Nat.lt_or_ge (expiration a) pruned' with hlt | hge
      . exact .inr hlt
      . exact .inl (hkept a ha hknown hge)
    . exact .inr (Nat.lt_of_lt_of_le hexpired hle)

/-- What is unknown and not expired is new. -/
theorem not_mem (h : Guarded id expiration accepted known pruned)
    (hid : ∀ a b, id a = id b → expiration a = expiration b) {a : α} (hfresh : known (id a) = none)
    (hlive : pruned ≤ expiration a) : id a ∉ accepted.map id := by
  intro hin
  obtain ⟨b, hb, hsame⟩ := List.mem_map.mp hin
  have hexpiration := hid b a hsame
  rcases h.known b hb with hknown | hexpired
  . rw [hsame, hfresh] at hknown
    cases hknown
  . omega

theorem accept (h : Guarded id expiration accepted known pruned)
    (hid : ∀ a b, id a = id b → expiration a = expiration b) {a : α} (hfresh : known (id a) = none)
    (hlive : pruned ≤ expiration a) (hnew : known' (id a) = some (expiration a))
    (hkept : ∀ i e, known i = some e → known' i = some e) :
    Guarded id expiration (a :: accepted) known' pruned := by
  constructor
  . rw [List.map_cons, List.nodup_cons]
    exact ⟨h.not_mem hid hfresh hlive, h.distinct⟩
  . intro b hb
    rcases List.mem_cons.mp hb with rfl | hb
    . exact .inl hnew
    . rcases h.known b hb with hknown | hexpired
      . exact .inl (hkept _ _ hknown)
      . exact .inr hexpired

end Guarded

end ReplayGuard
