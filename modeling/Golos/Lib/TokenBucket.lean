import Mathlib.Algebra.Order.Group.Nat

/-!
This module contains token buckets, which actions take tokens from and which fill up with time, and
how many actions they let pass in a span of time.
-/

structure TokenBucket where
  level : Nat
  last : Nat
  deriving DecidableEq

namespace TokenBucket

-- A token comes back in every `unit` of time, up to `capacity`, and an action takes `cost` tokens.
variable (capacity cost unit : Nat)

/-- What has come back by a time. -/
def refilled (b : TokenBucket) (now : Nat) : Nat :=
  min (b.level + (now - b.last) / unit) capacity

/-- An action takes its tokens, or passes without them and leaves the level where it was. -/
inductive Act (b : TokenBucket) (now : Nat) : Bool → TokenBucket → Prop
  | take {available : Nat} (h : available ≤ b.refilled capacity unit now) (hcost : cost ≤ available) :
    Act b now true ⟨available - cost, now⟩
  | pass : Act b now false ⟨b.level, now⟩

/-- The actions that took tokens since a time have taken no more than there were and came back. -/
structure Budget (start taken : Nat) (b : TokenBucket) : Prop where
  start_le : start ≤ b.last
  le : taken * cost + b.level ≤ capacity + (b.last - start) / unit

variable {capacity cost unit : Nat} {start taken now : Nat} {b b' : TokenBucket}

theorem add_div_le (unit : Nat) {a b c : Nat} (hab : a ≤ b) (hbc : b ≤ c) :
    (b - a) / unit + (c - b) / unit ≤ (c - a) / unit := by
  have heq : c - a = b - a + (c - b) := by omega
  rw [heq]
  exact Nat.div_add_div_le_add_div

/-- The first action that takes tokens. -/
theorem Budget.first (hstart : start ≤ now) (h : Act capacity cost unit b now true b') :
    Budget capacity cost unit start 1 b' := by
  cases h with
  | @take available h hcost =>
    refine ⟨hstart, ?_⟩
    have hcapacity := Nat.le_trans h (Nat.min_le_right _ _)
    dsimp only
    rw [Nat.one_mul, Nat.add_sub_cancel' hcost]
    exact Nat.le_add_right_of_le hcapacity

theorem Budget.act {takes : Bool} (hb : Budget capacity cost unit start taken b)
    (hlast : b.last ≤ now) (h : Act capacity cost unit b now takes b') :
    Budget capacity cost unit start (taken + takes.toNat) b' := by
  have hstart := hb.start_le
  have hle := hb.le
  have hdiv := add_div_le unit hstart hlast
  cases h with
  | @take available h hcost =>
    refine ⟨Nat.le_trans hstart hlast, ?_⟩
    have havailable := Nat.le_trans h (Nat.min_le_left _ _)
    dsimp only [Bool.toNat_true]
    rw [Nat.succ_mul]
    omega
  | pass =>
    refine ⟨Nat.le_trans hstart hlast, ?_⟩
    have := Nat.zero_le ((now - b.last) / unit)
    dsimp only [Bool.toNat_false]
    rw [Nat.add_zero]
    omega

/-- In a span of time no more tokens are taken than fit into the bucket and come back. -/
theorem Budget.taken_le {span : Nat} (hb : Budget capacity cost unit start taken b)
    (hunit : 0 < unit) (hcost : 0 < cost) (hspan : b.last ≤ start + unit * span) :
    taken ≤ (capacity + span) / cost := by
  have hle := hb.le
  have hdiv : (b.last - start) / unit ≤ span := by
    rw [Nat.div_le_iff_le_mul_add_pred hunit]
    omega
  rw [Nat.le_div_iff_mul_le hcost]
  omega

end TokenBucket
