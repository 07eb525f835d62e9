import Mathlib.Algebra.Order.Ring.Int
import Mathlib.Tactic.Common

/-!
# A millisecond counter that wraps

A clock of 32 bits starts again at zero after 49.7 days.  The time between two of its values is a
difference modulo its range: it is right across one wrap, where comparing the values is not.

* `elapsed` — the time from one value to a later one;
* `elapsed_of_le`, `elapsed_of_lt` — its value before and after the counter has wrapped;
* `elapsed_add` — times add up as long as they stay below one turn of the counter.
-/

namespace Clock

/-- The milliseconds from the value `t` to the value `now`. -/
def elapsed (t now : UInt32) : ℕ := (now.toNat + 2 ^ 32 - t.toNat) % 2 ^ 32

variable {t now : UInt32}

/-- The wrapping subtraction of C is the elapsed time. -/
theorem toNat_sub_eq_elapsed (t now : UInt32) : (now - t).toNat = elapsed t now := by
  have ht := t.toNat_lt
  rw [UInt32.toNat_sub, elapsed]
  congr 1
  omega

theorem elapsed_of_le (h : t.toNat ≤ now.toNat) : elapsed t now = now.toNat - t.toNat := by
  have hnow := now.toNat_lt
  rw [elapsed]
  omega

theorem elapsed_of_lt (h : now.toNat < t.toNat) :
    elapsed t now = 2 ^ 32 + now.toNat - t.toNat := by
  have ht := t.toNat_lt
  rw [elapsed]
  omega

theorem elapsed_add {u : UInt32} (h : elapsed t now + elapsed now u < 2 ^ 32) :
    elapsed t u = elapsed t now + elapsed now u := by
  have ht := t.toNat_lt
  have hnow := now.toNat_lt
  have hu := u.toNat_lt
  simp only [elapsed] at h ⊢
  omega

/-- A later value is the earlier one and the time between, modulo the range. -/
theorem toNat_eq (t now : UInt32) : now.toNat = (t.toNat + elapsed t now) % 2 ^ 32 := by
  have ht := t.toNat_lt
  have hnow := now.toNat_lt
  rw [elapsed]
  omega

end Clock
