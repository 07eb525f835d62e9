import Mathlib.Data.List.Basic
import Mathlib.Data.List.GetD
import Mathlib.Tactic.Common

/-!
# NOR flash: erase sets bits, program clears them

A flash device is a function from byte addresses to bytes.  Erasing a range sets every bit of it;
programming a range can only clear bits, so the byte that ends up there is the bitwise and of what was
there and what was written.  An operation that fails may leave any prefix of its effect behind.

* `erase_apply_of_mem`, `erase_apply_of_not_mem`, `program_apply_of_mem`, `program_apply_of_not_mem` —
  both operations pointwise;
* `program_erased` — programming erased cells stores the data itself;
* `erase_blank`, `program_take_blank` — what keeps a blank cell blank;
* `slice` — the bytes of an address range, with the extensionality rule `slice_eq_take`.
-/

namespace NorFlash

/-- The contents of a flash device. -/
abbrev Cells := ℕ → UInt8

/-- The value of an erased cell. -/
def blank : UInt8 := 0xFF

/-- Set every bit of the `len` cells from `a`. -/
def erase (f : Cells) (a len : ℕ) : Cells :=
  fun x => if a ≤ x ∧ x < a + len then blank else f x

/-- Clear, in the cells from `a`, the bits that are clear in `data`. -/
def program (f : Cells) (a : ℕ) (data : List UInt8) : Cells :=
  fun x => if a ≤ x ∧ x < a + data.length then f x &&& data.getD (x - a) 0 else f x

/-- The `len` bytes from `a`. -/
def slice (f : Cells) (a len : ℕ) : List UInt8 := (List.range len).map fun i => f (a + i)

theorem blank_and (b : UInt8) : blank &&& b = b := by
  apply UInt8.eq_of_toBitVec_eq
  simp [blank]
  exact BitVec.allOnes_and

theorem and_self_byte (b : UInt8) : b &&& b = b := by
  apply UInt8.eq_of_toBitVec_eq
  simp

variable {f : Cells} {a len x : ℕ} {data : List UInt8}

theorem erase_apply_of_mem (h : a ≤ x ∧ x < a + len) : erase f a len x = blank := if_pos h

theorem erase_apply_of_not_mem (h : ¬(a ≤ x ∧ x < a + len)) : erase f a len x = f x := if_neg h

theorem program_apply_of_mem (h : a ≤ x ∧ x < a + data.length) :
    program f a data x = f x &&& data.getD (x - a) 0 := if_pos h

theorem program_apply_of_not_mem (h : ¬(a ≤ x ∧ x < a + data.length)) :
    program f a data x = f x := if_neg h

/-- Programming an erased cell stores the byte itself. -/
theorem program_erased (h : a ≤ x ∧ x < a + data.length) (hf : f x = blank) :
    program f a data x = data.getD (x - a) 0 := by
  rw [program_apply_of_mem h, hf, blank_and]

/-- Programming any prefix of data that is blank at a blank cell leaves it blank. -/
theorem program_take_blank {k : ℕ} (hf : f x = blank)
    (hd : a ≤ x → x < a + data.length → data.getD (x - a) 0 = blank) :
    program f a (data.take k) x = blank := by
  by_cases hmem : a ≤ x ∧ x < a + (data.take k).length
  · rw [program_erased hmem hf]
    have hlen := hmem.2
    rw [List.length_take] at hlen
    have hget := hd hmem.1 (by omega)
    rw [List.getD_eq_getElem?_getD] at hget ⊢
    rw [List.getElem?_take_of_lt (by omega), hget]
  · rw [program_apply_of_not_mem hmem, hf]

theorem erase_blank (hf : f x = blank) : erase f a len x = blank := by
  by_cases hmem : a ≤ x ∧ x < a + len
  · exact erase_apply_of_mem hmem
  · rw [erase_apply_of_not_mem hmem, hf]

@[simp] theorem slice_length : (slice f a len).length = len := by simp [slice]

/-- A slice is read off cell by cell. -/
theorem slice_eq_take {l : List UInt8} (hl : len ≤ l.length)
    (h : ∀ i, i < len → f (a + i) = l.getD i 0) : slice f a len = l.take len := by
  apply List.ext_getElem
  · simp [hl]
  · intro i hi _
    have hi' : i < len := by simpa using hi
    have hget : l.getD i 0 = l[i] := List.getD_eq_getElem _ _ (by omega)
    simp only [slice, List.getElem_map, List.getElem_range, List.getElem_take]
    rw [h i hi', hget]

end NorFlash
