import Mathlib.Data.List.Infix
import Mathlib.Tactic.Common

/-!
# A matcher that starts over

The cheapest way to look for a word in a stream: count how many letters of the word have matched, and at a
letter that does not fit start over, with that letter as a possible first one.  It never looks back, so it
misses an occurrence that begins inside a match that fails.

* `advance`, `scan` — the matcher;
* `scan_sound` — what it finds is there;
* `Longest` — the count is that of the longest beginning of the word the stream ends with, which is all a
  matcher needs to know;
* `scan_complete_iff` — it finds every occurrence in every stream exactly if no proper border of a beginning
  of the word goes on otherwise than that beginning does.
-/

namespace Restart

variable {α : Type} [DecidableEq α] {t u w rest : List α} {k : ℕ} {c : α}

/-- The count after one more letter. -/
def advance (t : List α) (k : ℕ) (c : α) : ℕ :=
  if t[k]? = some c then k + 1 else if t[0]? = some c then 1 else 0

/-- What is left of the stream behind the first match. -/
def scan (t : List α) : ℕ → List α → Option (List α)
  | _, [] => none
  | k, c :: w => if advance t k c < t.length then scan t (advance t k c) w else some w

theorem advance_le (t : List α) (k : ℕ) (c : α) : advance t k c ≤ k + 1 := by
  unfold advance
  split_ifs <;> omega

/-! ### What is found is there -/

omit [DecidableEq α] in
/-- A beginning of the word ends the stream if its last letter does and the shorter one stood before it. -/
theorem take_succ_suffix_iff (hk : k < t.length) :
    t.take (k + 1) <:+ u ++ [c] ↔ t.take k <:+ u ∧ t[k]? = some c := by
  rw [List.take_add_one, List.getElem?_eq_getElem hk, Option.toList_some, ← List.reverse_prefix,
    ← List.reverse_prefix, List.reverse_append, List.reverse_append, List.reverse_singleton,
    List.reverse_singleton, List.singleton_append, List.singleton_append, List.cons_prefix_cons,
    Option.some.injEq, and_comm]

theorem take_advance_suffix (h : t.take k <:+ u) : t.take (advance t k c) <:+ u ++ [c] := by
  unfold advance
  split_ifs with hnext hfirst
  · obtain ⟨hk, -⟩ := List.getElem?_eq_some_iff.mp hnext
    exact (take_succ_suffix_iff hk).mpr ⟨h, hnext⟩
  · obtain ⟨hk, -⟩ := List.getElem?_eq_some_iff.mp hfirst
    exact (take_succ_suffix_iff hk).mpr ⟨by simp, hfirst⟩
  · simp

/-- **What is found is there**, at the end of what was read. -/
theorem scan_sound (h : t.take k <:+ u) (hscan : scan t k w = some rest) :
    ∃ v, w = v ++ rest ∧ t <:+ u ++ v := by
  induction w generalizing k u with
  | nil => cases hscan
  | cons c w ih =>
      have hnext := take_advance_suffix (c := c) h
      rw [scan] at hscan
      split_ifs at hscan with hlt
      · obtain ⟨v, rfl, hv⟩ := ih hnext hscan
        exact ⟨c :: v, rfl, by simpa using hv⟩
      · obtain rfl : w = rest := Option.some.inj hscan
        rw [List.take_of_length_le (by omega)] at hnext
        exact ⟨[c], rfl, hnext⟩

/-! ### When nothing is missed -/

/-- No proper border of a beginning of the word goes on otherwise than that beginning does. -/
def Restartable (t : List α) : Prop :=
  ∀ j k, 0 < j → j < k → k < t.length → t.take j <:+ t.take k → t[j]? = t[k]?

instance (t : List α) : Decidable (Restartable t) :=
  decidable_of_iff (∀ k < t.length, ∀ j < k, 0 < j → t.take j <:+ t.take k → t[j]? = t[k]?)
    ⟨fun h j k hj hjk hk => h k hk j hjk hj, fun h k hk j hjk hj => h j k hj hjk hk⟩

/-- The stream `u` ends with `k` letters of the word, and with no more. -/
structure Longest (t u : List α) (k : ℕ) : Prop where
  lt_length : k < t.length
  suffix : t.take k <:+ u
  longest : ∀ j, j ≤ t.length → t.take j <:+ u → j ≤ k

omit [DecidableEq α] in
theorem longest_nil (h : t ≠ []) : Longest t [] 0 := by
  have hpos := List.length_pos_of_ne_nil h
  refine ⟨hpos, by simp, fun j hj hsuf => ?_⟩
  have hlen := congrArg List.length (List.suffix_nil.mp hsuf)
  rw [List.length_take, List.length_nil] at hlen
  omega

omit [DecidableEq α] in
theorem Longest.not_suffix (h : Longest t u k) : ¬t <:+ u := by
  intro hsuf
  have hle := h.longest t.length le_rfl (by rwa [List.take_length])
  have hlt := h.lt_length
  omega

/-- **One letter more.**  Of a longer end of the stream all but the last letter was there before; were it
shorter than the count, it would be a border of what has matched, and so go on as that does. -/
theorem Longest.le_advance (h : Longest t u k) (hr : Restartable t) {j : ℕ} (hj : j ≤ t.length)
    (hsuf : t.take j <:+ u ++ [c]) : j ≤ advance t k c := by
  cases j with
  | zero => exact Nat.zero_le _
  | succ j =>
      obtain ⟨hshort, hc⟩ := (take_succ_suffix_iff (by omega)).mp hsuf
      have hjk := h.longest j (by omega) hshort
      by_cases hnext : t[k]? = some c
      · rw [advance, if_pos hnext]
        omega
      · rw [advance, if_neg hnext]
        have hne : j ≠ k := by
          rintro rfl
          exact hnext hc
        have hborder : t.take j <:+ t.take k := by
          refine List.suffix_of_suffix_length_le hshort h.suffix ?_
          rw [List.length_take, List.length_take]
          omega
        have hzero : j = 0 := by
          by_contra hpos
          have hgo := hr j k (by omega) (by omega) h.lt_length hborder
          rw [hc] at hgo
          exact hnext hgo.symm
        subst hzero
        rw [if_pos hc]

theorem Longest.advance (h : Longest t u k) (hr : Restartable t) (hlt : Restart.advance t k c < t.length) :
    Longest t (u ++ [c]) (Restart.advance t k c) :=
  ⟨hlt, take_advance_suffix h.suffix, fun _ hj hsuf => h.le_advance hr hj hsuf⟩

/-- Nothing is found exactly if the word ends no part of the stream. -/
theorem Longest.scan_none (h : Longest t u k) (hr : Restartable t) (hscan : scan t k w = none) :
    ∀ v, v <+: w → ¬t <:+ u ++ v := by
  induction w generalizing k u with
  | nil =>
      intro v hv
      rw [List.prefix_nil.mp hv, List.append_nil]
      exact h.not_suffix
  | cons c w ih =>
      rw [scan] at hscan
      split_ifs at hscan with hlt
      intro v hv
      cases v with
      | nil =>
          rw [List.append_nil]
          exact h.not_suffix
      | cons d v =>
          obtain ⟨rfl, hv'⟩ := List.cons_prefix_cons.mp hv
          have hrest := ih (h.advance hr hlt) hscan v hv'
          rwa [List.append_assoc, List.singleton_append] at hrest

theorem scan_complete (hr : Restartable t) (hne : t ≠ []) (hin : t <:+: w) : scan t 0 w ≠ none := by
  intro hnone
  obtain ⟨a, b, rfl⟩ := hin
  refine (longest_nil hne).scan_none hr hnone (a ++ t) (List.prefix_append _ _) ?_
  exact ⟨a, rfl⟩

/-! ### What is missed otherwise -/

/-- While the word itself is read the count goes up. -/
theorem scan_take (m : ℕ) (hm : k + m < t.length) : scan t k ((t.drop k).take m ++ w) = scan t (k + m) w := by
  induction m generalizing k with
  | zero => simp
  | succ m ih =>
      have hk : k < t.length := by omega
      have hadv : advance t k t[k] = k + 1 := by
        rw [advance, if_pos (List.getElem?_eq_getElem hk)]
      rw [List.drop_eq_getElem_cons hk, List.take_succ_cons, List.cons_append, scan, hadv,
        if_pos (by omega), ih (by omega), Nat.add_right_comm, Nat.add_assoc]

/-- Too few letters are left to match the rest. -/
theorem scan_short (h : k + w.length < t.length) : scan t k w = none := by
  induction w generalizing k with
  | nil => rfl
  | cons c w ih =>
      have hle := advance_le t k c
      rw [List.length_cons] at h
      rw [scan, if_pos (by omega)]
      exact ih (by omega)

/-- **A border that goes on otherwise is missed**: the word is there, behind the letters that matched. -/
theorem scan_missed {j k : ℕ} (hj : 0 < j) (hjk : j < k) (hk : k < t.length)
    (hborder : t.take j <:+ t.take k) (hne : t[j]? ≠ t[k]?) :
    t <:+: t.take k ++ t.drop j ∧ scan t 0 (t.take k ++ t.drop j) = none := by
  constructor
  · obtain ⟨a, ha⟩ := hborder
    rw [← ha, List.append_assoc, List.take_append_drop]
    exact (List.suffix_append a t).isInfix
  · have htake : scan t 0 ((t.drop 0).take k ++ t.drop j) = scan t (0 + k) (t.drop j) :=
      scan_take k (by omega)
    rw [List.drop_zero, Nat.zero_add] at htake
    rw [htake]
    have hj' : j < t.length := by omega
    have hnot : ¬t[k]? = some t[j] := by
      intro heq
      rw [heq, List.getElem?_eq_getElem hj'] at hne
      exact hne rfl
    have hadv : advance t k t[j] ≤ 1 := by
      rw [advance, if_neg hnot]
      split_ifs <;> omega
    rw [List.drop_eq_getElem_cons hj', scan, if_pos (by omega)]
    refine scan_short ?_
    rw [List.length_drop]
    omega

/-- **Every occurrence in every stream is found exactly if the word is restartable.** -/
theorem scan_complete_iff (hne : t ≠ []) :
    (∀ w, (∀ c ∈ w, c ∈ t) → t <:+: w → scan t 0 w ≠ none) ↔ Restartable t := by
  constructor
  · intro hall j k hj hjk hk hborder
    by_contra hgo
    obtain ⟨hin, hnone⟩ := scan_missed hj hjk hk hborder hgo
    refine hall _ ?_ hin hnone
    intro c hc
    rcases List.mem_append.mp hc with hc | hc
    · exact List.mem_of_mem_take hc
    · exact List.mem_of_mem_drop hc
  · exact fun hr w _ hin => scan_complete hr hne hin

end Restart
