import Mathlib.Data.List.Count
import Mathlib.Data.List.Range

/-!
This module contains shift registers: words whose bits remember the latest of a sequence of flags,
and the number of their bits that are set.
-/

namespace ShiftRegister

variable {w : Nat}

/-- Shift a flag in at the low end; the bit at the high end is lost. -/
def push (x : BitVec w) (flag : Bool) : BitVec w :=
  (x <<< 1) + (if flag then 1 else 0)

theorem push_eq_shiftConcat (x : BitVec w) (flag : Bool) : push x flag = x.shiftConcat flag := by
  apply BitVec.eq_of_toNat_eq
  unfold push
  rw [BitVec.toNat_shiftConcat, BitVec.toNat_add, BitVec.toNat_shiftLeft]
  cases flag with
  | false => simp
  | true => simp [Nat.mod_add_mod]

theorem getLsbD_push_zero (x : BitVec w) (flag : Bool) (h : 0 < w) :
    (push x flag).getLsbD 0 = flag := by
  rw [push_eq_shiftConcat, BitVec.getLsbD_shiftConcat]
  simp [h]

theorem getLsbD_push_succ (x : BitVec w) (flag : Bool) {i : Nat} (h : i + 1 < w) :
    (push x flag).getLsbD (i + 1) = x.getLsbD i := by
  rw [push_eq_shiftConcat, BitVec.getLsbD_shiftConcat]
  simp [h]

/-- The latest flags fill the low end, the latest of them at the lowest place. -/
theorem getLsbD_foldl_push (x : BitVec w) (flags : List Bool) {i : Nat} (h : i < w) :
    (flags.foldl push x).getLsbD i = (flags.reverse[i]?).getD (x.getLsbD (i - flags.length)) := by
  induction flags generalizing x with
  | nil => simp
  | cons flag flags ih =>
    rw [List.foldl_cons, ih, List.reverse_cons, List.getElem?_append]
    rw [List.length_reverse, List.length_cons]
    split
    . next hi =>
      rw [List.getElem?_eq_getElem (by rwa [List.length_reverse])]
      rfl
    . next hi =>
      rw [List.getElem?_eq_none (by rw [List.length_reverse]; omega)]
      cases hd : i - flags.length with
      | zero =>
        rw [getLsbD_push_zero x flag (by omega)]
        rfl
      | succ d =>
        rw [Option.getD_none, getLsbD_push_succ x flag (by omega)]
        rw [show i - (flags.length + 1) = d by omega]
        rfl

/-- The number of bits that are set. -/
def popcount (x : BitVec w) : Nat :=
  (List.range w).countP x.getLsbD

theorem popcount_le (x : BitVec w) : popcount x ≤ w := by
  have := List.countP_le_length (p := x.getLsbD) (l := List.range w)
  rwa [List.length_range] at this

theorem popcount_allOnes : popcount (BitVec.allOnes w) = w := by
  unfold popcount
  rw [List.countP_eq_length.mpr, List.length_range]
  intro i hi
  simpa using hi

/-- What is shifted in is counted, what is shifted out is not any more. -/
theorem popcount_push (x : BitVec (w + 1)) (flag : Bool) :
    popcount (push x flag) + x.msb.toNat = popcount x + flag.toNat := by
  have hlow : popcount (push x flag) = (List.range w).countP x.getLsbD + flag.toNat := by
    unfold popcount
    rw [List.range_succ_eq_map, List.countP_cons, List.countP_map]
    rw [getLsbD_push_zero x flag (Nat.succ_pos w)]
    congr 1
    . apply List.countP_congr
      intro i hi
      rw [Function.comp_apply, getLsbD_push_succ]
      have := List.mem_range.mp hi
      omega
    . cases flag <;> rfl
  have hhigh : popcount x = (List.range w).countP x.getLsbD + x.msb.toNat := by
    unfold popcount
    rw [List.range_succ, List.countP_append, List.countP_singleton]
    congr 1
    rw [BitVec.msb_eq_getLsbD_last, Nat.add_sub_cancel]
    cases x.getLsbD w <;> rfl
  omega

end ShiftRegister
