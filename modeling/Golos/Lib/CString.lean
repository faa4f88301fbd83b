import Mathlib.Data.List.TakeWhile

/-!
This module contains C strings: what the functions of C that go up to the first NUL see of a text
that may have more of them.
-/

/-- The characters before the first NUL. Two texts are equal to `strcmp` when these are. -/
def cString (s : String) : String :=
  String.ofList (s.toList.takeWhile (· ≠ '\x00'))

namespace cString

variable {s t : String}

theorem toList_cString (s : String) : (cString s).toList = s.toList.takeWhile (· ≠ '\x00') :=
  String.toList_ofList

theorem prefix_toList (s : String) : (cString s).toList <+: s.toList := by
  rw [toList_cString]
  apply List.takeWhile_prefix

theorem eq_self (h : '\x00' ∉ s.toList) : cString s = s := by
  rw [← String.toList_inj, toList_cString, List.takeWhile_eq_self_iff]
  intro c hc
  exact decide_eq_true fun heq => h (heq ▸ hc)

/-- What is appended after a NUL is not seen. -/
theorem append_of_mem (h : '\x00' ∈ s.toList) (t : String) : cString (s ++ t) = cString s := by
  rw [← String.toList_inj, toList_cString, toList_cString, String.toList_append,
    List.takeWhile_append, if_neg]
  intro hlength
  have hall := List.takeWhile_eq_self_iff.mp
    ((List.takeWhile_prefix (p := fun c : Char => decide (c ≠ '\x00'))).eq_of_length hlength)
  simpa using hall '\x00' h

end cString
