import EspFirmware.Lib.CString
import Mathlib.Data.List.DropRight
import Mathlib.Data.List.GetD

/-!
# String helpers

`strtrim` and `getPositionOf` of `Helpers/StringHelpers.cpp`, on a `char` array.  `strtrim` is kept loop
by loop; a read past the array is `none`.

* `strtrimCells` — the cells the loops read and write;
* `strtrim_trims` — on a terminated string it removes exactly the surrounding spaces, in place and without
  a look past the terminator, and a second call changes nothing;
* `strtrim_eq_none` — without a terminator it leaves the array;
* `getPositionOf_nul` — the position of the first NUL is the string's length.
-/

namespace EspFirmware

open CString

/-- `while (*str && *str++ == ' ') ++start;`: the leading spaces, and how far `str` has moved. -/
def skipLeading : List UInt8 → Option (ℕ × ℕ)
  | [] => none
  | c :: cs =>
      if c = 0 then some (0, 0)
      else if c = space then (skipLeading cs).map fun r => (r.1 + 1, r.2 + 1)
      else some (0, 1)

/-- `while (*str++);`: how far `str` moves, the terminator included. -/
def pastNul : List UInt8 → Option ℕ
  | [] => none
  | c :: cs => if c = 0 then some 1 else (pastNul cs).map (· + 1)

/-- `while (end > 0 && buffer[end - 1] == ' ') --end;` -/
def backUp (buf : List UInt8) : ℕ → ℕ
  | 0 => 0
  | e + 1 => if buf.getD e 0 = space then backUp buf e else e + 1

/-- `while ((*buffer++ = *str++));` with `str` standing `start` bytes ahead of `buffer`. -/
def copyDown (start : ℕ) : ℕ → List UInt8 → ℕ → Option (List UInt8)
  | 0, _, _ => none
  | fuel + 1, buf, i =>
      match buf[i + start]? with
      | none => none
      | some c => if c = 0 then some (buf.set i c) else copyDown start fuel (buf.set i c) (i + 1)

/-- `strtrim`: the array afterwards. -/
def strtrim (buf : List UInt8) : Option (List UInt8) :=
  match skipLeading buf with
  | none => none
  | some (start, moved) =>
      match pastNul (buf.drop moved) with
      | none => none
      | some n =>
          let e := backUp buf (moved + n - 1)
          let buf := buf.set e 0
          if e ≤ start ∨ start = 0 then some buf else copyDown start buf.length buf 0

/-! The indices each loop reads or writes, in the order it does. -/

def skipLeadingCells (i : ℕ) : List UInt8 → List ℕ
  | [] => [i]
  | c :: cs =>
      if c = 0 then [i]
      else if c = space then i :: i :: skipLeadingCells (i + 1) cs
      else [i, i]

def pastNulCells (i : ℕ) : List UInt8 → List ℕ
  | [] => [i]
  | c :: cs => i :: if c = 0 then [] else pastNulCells (i + 1) cs

def backUpCells (buf : List UInt8) : ℕ → List ℕ
  | 0 => []
  | e + 1 => e :: if buf.getD e 0 = space then backUpCells buf e else []

def copyDownCells (start : ℕ) : ℕ → List UInt8 → ℕ → List ℕ
  | 0, _, _ => []
  | fuel + 1, buf, i =>
      (i + start) ::
        match buf[i + start]? with
        | none => []
        | some c => i :: if c = 0 then [] else copyDownCells start fuel (buf.set i c) (i + 1)

/-- The indices `strtrim` reads or writes. -/
def strtrimCells (buf : List UInt8) : List ℕ :=
  skipLeadingCells 0 buf ++
    match skipLeading buf with
    | none => []
    | some (start, moved) =>
        pastNulCells moved (buf.drop moved) ++
          match pastNul (buf.drop moved) with
          | none => []
          | some n =>
              let e := backUp buf (moved + n - 1)
              let buf' := buf.set e 0
              backUpCells buf (moved + n - 1) ++
                e :: if e ≤ start ∨ start = 0 then [] else copyDownCells start buf'.length buf' 0

/-- `getPositionOf`: the first position of `c` among the first `size` cells, or `-1`. -/
def getPositionOf (array : List UInt8) (size : ℕ) (c : UInt8) : ℤ :=
  match (array.take size).idxOf? c with
  | some i => i
  | none => -1

/-! ### What `strtrim` computes -/

/-- A string without its leading and trailing spaces. -/
def trimSpaces (s : List UInt8) : List UInt8 :=
  (s.rdropWhile (· == space)).dropWhile (· == space)

/-- The number of leading spaces of a string. -/
def leading (s : List UInt8) : ℕ := (s.takeWhile (· == space)).length

theorem skipLeading_eq {s t : List UInt8} (h : (0 : UInt8) ∉ s) :
    ∃ moved, skipLeading (s ++ 0 :: t) = some (leading s, moved) ∧ moved ≤ s.length := by
  induction s with
  | nil => exact ⟨0, by simp [skipLeading, leading], le_rfl⟩
  | cons c s ih =>
      have hc : c ≠ 0 := fun hc => h (by simp [hc])
      obtain ⟨moved, hm, hle⟩ := ih fun hs => h (by simp [hs])
      by_cases hsp : c = space
      · refine ⟨moved + 1, ?_, by simp only [List.length_cons]; omega⟩
        simp [skipLeading, hsp, hm, leading, space]
      · exact ⟨1, by simp [skipLeading, hc, hsp, leading], by simp⟩

theorem pastNul_eq {s t : List UInt8} (h : (0 : UInt8) ∉ s) :
    pastNul (s ++ 0 :: t) = some (s.length + 1) := by
  induction s with
  | nil => simp [pastNul]
  | cons c s ih =>
      have hc : c ≠ 0 := fun hc => h (by simp [hc])
      simp [pastNul, hc, ih fun hs => h (by simp [hs])]

theorem pastNul_eq_none {s : List UInt8} (h : (0 : UInt8) ∉ s) : pastNul s = none := by
  induction s with
  | nil => rfl
  | cons c s ih =>
      have hc : c ≠ 0 := fun hc => h (by simp [hc])
      simp [pastNul, hc, ih fun hs => h (by simp [hs])]

/-- Trimming at the end does not reach what stands before a text that is not all trimmed away. -/
theorem rdropWhile_append_of_ne_nil {α : Type} {p : α → Bool} (l : List α) {m : List α}
    (h : m.rdropWhile p ≠ []) : (l ++ m).rdropWhile p = l ++ m.rdropWhile p := by
  have hd : m.reverse.dropWhile p ≠ [] := by
    intro hnil
    exact h (by rw [List.rdropWhile, hnil]; rfl)
  rw [List.rdropWhile, List.reverse_append, List.dropWhile_append, if_neg (by simpa using hd),
    List.reverse_append, List.reverse_reverse]
  rfl

theorem rdropWhile_append_of_last {α : Type} {p : α → Bool} {l : List α} (hl : l ≠ [])
    (hlast : p (l.getLast hl) = false) (m : List α) :
    (l ++ m).rdropWhile p = l ++ m.rdropWhile p := by
  induction m using List.reverseRecOn with
  | nil =>
      rw [List.append_nil, List.rdropWhile_nil, List.append_nil]
      exact List.rdropWhile_eq_self_iff.mpr fun _ => by simp [hlast]
  | append_singleton m b ih =>
      rw [← List.append_assoc]
      by_cases hb : p b = true
      · rw [List.rdropWhile_concat_pos _ _ _ hb, ih, List.rdropWhile_concat_pos _ _ _ hb]
      · rw [List.rdropWhile_concat_neg _ _ _ hb, List.rdropWhile_concat_neg _ _ _ hb,
          List.append_assoc]

/-- Backing up over trailing spaces is `rdropWhile`. -/
theorem backUp_eq (s t : List UInt8) (e : ℕ) (he : e ≤ s.length) :
    backUp (s ++ t) e = ((s.take e).rdropWhile (· == space)).length := by
  induction e with
  | zero => simp [backUp]
  | succ e ih =>
      have hlt : e < s.length := by omega
      have hget : (s ++ t).getD e 0 = s[e] := by
        rw [List.getD_append _ _ _ _ hlt, List.getD_eq_getElem _ _ hlt]
      have htake : s.take (e + 1) = s.take e ++ [s[e]] := by
        rw [← List.take_concat_get hlt, List.concat_eq_append]
      rw [backUp, hget, htake, List.rdropWhile_concat]
      by_cases hsp : s[e] = space
      · simp [hsp, ih (by omega)]
      · simp [hsp]
        omega

/-- Copying down moves a terminated string to the front, over what stood there, and stops at its
terminator. -/
theorem copyDown_eq {s t : List UInt8} (h : (0 : UInt8) ∉ s) :
    ∀ (pre mid : List UInt8) (fuel : ℕ), mid ≠ [] → s.length < fuel →
      (∃ pad, copyDown mid.length fuel (pre ++ mid ++ (s ++ 0 :: t)) pre.length
        = some (pre ++ s ++ 0 :: (pad ++ t)) ∧ pad.length = mid.length) ∧
      ∀ j ∈ copyDownCells mid.length fuel (pre ++ mid ++ (s ++ 0 :: t)) pre.length,
        j ≤ pre.length + mid.length + s.length := by
  induction s with
  | nil =>
      intro pre mid fuel hmid hfuel
      obtain ⟨fuel, rfl⟩ : ∃ k, fuel = k + 1 := ⟨fuel - 1, by simp at hfuel; omega⟩
      obtain ⟨m, mid', rfl⟩ := List.exists_cons_of_ne_nil hmid
      have hget : (pre ++ (m :: mid') ++ ([] ++ 0 :: t))[pre.length + (m :: mid').length]? = some 0 := by
        simp
      refine ⟨⟨mid' ++ [0], ?_, by simp⟩, ?_⟩
      · rw [copyDown, hget]
        simp
      · intro j hj
        rw [copyDownCells, hget] at hj
        simp only [if_true, List.mem_cons, List.not_mem_nil, or_false] at hj
        rcases hj with rfl | rfl <;> omega
  | cons c s ih =>
      intro pre mid fuel hmid hfuel
      obtain ⟨fuel, rfl⟩ : ∃ k, fuel = k + 1 := ⟨fuel - 1, by simp at hfuel; omega⟩
      obtain ⟨m, mid', rfl⟩ := List.exists_cons_of_ne_nil hmid
      have hc : c ≠ 0 := fun hc => h (by simp [hc])
      have hget : (pre ++ (m :: mid') ++ (c :: s ++ 0 :: t))[pre.length + (m :: mid').length]?
          = some c := by
        simp
      have hset : (pre ++ (m :: mid') ++ (c :: s ++ 0 :: t)).set pre.length c
          = (pre ++ [c]) ++ (mid' ++ [c]) ++ (s ++ 0 :: t) := by
        simp
      have hmidLen : (m :: mid').length = (mid' ++ [c]).length := by simp
      have hpreLen : pre.length + 1 = (pre ++ [c]).length := by simp
      obtain ⟨⟨pad, hpad, hlen⟩, hcells⟩ := ih (fun hs => h (by simp [hs])) (pre ++ [c]) (mid' ++ [c])
        fuel (by simp) (by simp at hfuel; omega)
      refine ⟨⟨pad, ?_, by simpa using hlen⟩, ?_⟩
      · rw [copyDown, hget]
        simp only [hc, if_false]
        rw [hset, hmidLen, hpreLen, hpad]
        simp
      · intro j hj
        rw [copyDownCells, hget] at hj
        simp only [hc, if_false, List.mem_cons] at hj
        rcases hj with rfl | rfl | hj
        · simp only [List.length_cons]
          omega
        · omega
        · rw [hset, hmidLen, hpreLen] at hj
          have hle := hcells j hj
          simp only [List.length_append, List.length_cons, List.length_nil] at hle ⊢
          omega

theorem skipLeadingCells_le (s t : List UInt8) (i : ℕ) :
    ∀ j ∈ skipLeadingCells i (s ++ 0 :: t), j ≤ i + s.length := by
  induction s generalizing i with
  | nil => simp [skipLeadingCells]
  | cons c s ih =>
      intro j hj
      rw [List.cons_append, skipLeadingCells] at hj
      rw [List.length_cons]
      split_ifs at hj with hz hsp
      · simp only [List.mem_singleton] at hj
        omega
      · simp only [List.mem_cons] at hj
        rcases hj with rfl | rfl | hj
        · omega
        · omega
        · have hle := ih (i + 1) j hj
          omega
      · simp only [List.mem_cons, List.not_mem_nil, or_false] at hj
        omega

theorem pastNulCells_le (s t : List UInt8) (i : ℕ) :
    ∀ j ∈ pastNulCells i (s ++ 0 :: t), j ≤ i + s.length := by
  induction s generalizing i with
  | nil => simp [pastNulCells]
  | cons c s ih =>
      intro j hj
      rw [List.cons_append, pastNulCells, List.mem_cons] at hj
      rw [List.length_cons]
      rcases hj with rfl | hj
      · omega
      · split_ifs at hj
        · simp at hj
        · have hle := ih (i + 1) j hj
          omega

theorem backUpCells_lt (buf : List UInt8) (e : ℕ) : ∀ j ∈ backUpCells buf e, j < e := by
  induction e with
  | zero => simp [backUpCells]
  | succ e ih =>
      intro j hj
      rw [backUpCells, List.mem_cons] at hj
      rcases hj with rfl | hj
      · omega
      · split_ifs at hj
        · have hlt := ih j hj
          omega
        · simp at hj

theorem leading_eq_zero {s : List UInt8} (h : leading s = 0) : s.dropWhile (· == space) = s := by
  cases s with
  | nil => rfl
  | cons c s =>
      by_cases hc : c = space
      · simp [leading, hc] at h
      · simp [hc]

theorem drop_leading (s : List UInt8) : s.drop (leading s) = s.dropWhile (· == space) := by
  induction s with
  | nil => rfl
  | cons c s ih =>
      by_cases hc : c = space
      · simpa [leading, hc] using ih
      · simp [leading, hc]

/-- Unless a string is all spaces, its leading spaces are those of the string without its trailing
ones, and something follows them. -/
theorem leading_rdropWhile {s : List UInt8} (h : s.rdropWhile (· == space) ≠ []) :
    leading (s.rdropWhile (· == space)) = leading s ∧
      leading s < (s.rdropWhile (· == space)).length := by
  have happ := List.rdropWhile_append_rtakeWhile (p := (· == space)) (l := s)
  have hlast := List.rdropWhile_last_not (· == space) s h
  generalize s.rdropWhile (· == space) = a at *
  have hpre : a.takeWhile (· == space) <+: a := List.takeWhile_prefix _
  have hshort : (a.takeWhile (· == space)).length ≠ a.length := by
    intro hall
    have hself : a.takeWhile (· == space) = a := hpre.eq_of_length hall
    exact hlast (List.takeWhile_eq_self_iff.mp hself _ (List.getLast_mem h))
  have hlead : leading s = leading a := by
    rw [leading, ← happ, List.takeWhile_append, if_neg hshort]
    rfl
  have hle : leading a ≤ a.length := hpre.length_le
  refine ⟨hlead.symm, ?_⟩
  rw [hlead]
  exact lt_of_le_of_ne hle hshort

/-- A string without its surrounding spaces has none. -/
theorem trimSpaces_trimSpaces (s : List UInt8) : trimSpaces (trimSpaces s) = trimSpaces s := by
  have hback : (trimSpaces s).rdropWhile (· == space) = trimSpaces s := by
    rw [List.rdropWhile_eq_self_iff]
    intro hne
    have ha : s.rdropWhile (· == space) ≠ [] := by
      intro hnil
      exact hne (by rw [trimSpaces, hnil]; rfl)
    have hlast : (trimSpaces s).getLast hne = (s.rdropWhile (· == space)).getLast ha :=
      (List.dropWhile_suffix _).getLast hne
    rw [hlast]
    exact List.rdropWhile_last_not (· == space) s ha
  rw [trimSpaces, hback]
  exact List.dropWhile_idempotent _ _

/-- The array once the trailing spaces are cut off. -/
theorem cut_eq (s t : List UInt8) :
    ∃ junk, (s ++ 0 :: t).set (s.rdropWhile (· == space)).length 0
        = s.rdropWhile (· == space) ++ 0 :: (junk ++ t) ∧
      (s.rdropWhile (· == space)).length + junk.length = s.length := by
  obtain ⟨tail, htail⟩ : s.rdropWhile (· == space) <+: s := List.rdropWhile_prefix _ _
  generalize s.rdropWhile (· == space) = a at *
  rw [← htail]
  cases tail with
  | nil => exact ⟨[], by simp, by simp⟩
  | cons c tail => exact ⟨tail ++ [0], by simp, by simp⟩

/-- The scans of `strtrim`: they find the leading spaces and the end of the string, and stay in front of
the terminator. -/
theorem strtrim_scan {s : List UInt8} (hs : (0 : UInt8) ∉ s) (t : List UInt8) {e : ℕ} {cut : List UInt8}
    (he : e = (s.rdropWhile (· == space)).length) (hcut : cut = (s ++ 0 :: t).set e 0) :
    strtrim (s ++ 0 :: t) = (if e ≤ leading s ∨ leading s = 0 then some cut
      else copyDown (leading s) cut.length cut 0) ∧
    ∀ j ∈ strtrimCells (s ++ 0 :: t), j ≤ s.length ∨
      ¬(e ≤ leading s ∨ leading s = 0) ∧ j ∈ copyDownCells (leading s) cut.length cut 0 := by
  obtain ⟨moved, hskip, hmoved⟩ := skipLeading_eq (t := t) hs
  have hdrop : (s ++ 0 :: t).drop moved = s.drop moved ++ 0 :: t := by
    rw [List.drop_append_of_le_length hmoved]
  have hpast : pastNul (s.drop moved ++ 0 :: t) = some (s.length - moved + 1) := by
    rw [pastNul_eq fun hm => hs (List.mem_of_mem_drop hm), List.length_drop]
  have hend : moved + (s.length - moved + 1) - 1 = s.length := by omega
  have hback : backUp (s ++ 0 :: t) s.length = e := by
    rw [backUp_eq s (0 :: t) s.length le_rfl, List.take_length, he]
  have hle : e ≤ s.length := by
    rw [he]
    exact (List.rdropWhile_prefix _ _).length_le
  simp only [strtrim, strtrimCells, hskip, hdrop, hpast, hend, hback, ← hcut]
  refine ⟨trivial, fun j hj => ?_⟩
  simp only [List.mem_append, List.mem_cons] at hj
  rcases hj with hj | hj | hj | rfl | hj
  · have hlt := skipLeadingCells_le s t 0 j hj
    exact .inl (by omega)
  · have hlt := pastNulCells_le (s.drop moved) t moved j hj
    rw [List.length_drop] at hlt
    exact .inl (by omega)
  · exact .inl (backUpCells_lt _ _ j hj).le
  · exact .inl hle
  · split_ifs at hj with hstay
    · simp at hj
    · exact .inr ⟨hstay, hj⟩

/-- Where nothing is copied down, cutting off the trailing spaces was all. -/
theorem trimSpaces_of_stays {s : List UInt8}
    (h : (s.rdropWhile (· == space)).length ≤ leading s ∨ leading s = 0) :
    trimSpaces s = s.rdropWhile (· == space) := by
  rw [trimSpaces]
  by_cases hnil : s.rdropWhile (· == space) = []
  · simp [hnil]
  · obtain ⟨hlead, hlt⟩ := leading_rdropWhile hnil
    rcases h with hle | hzero
    · omega
    · exact leading_eq_zero (by rw [hlead, hzero])

theorem trimSpaces_of_moves {s : List UInt8}
    (h : ¬((s.rdropWhile (· == space)).length ≤ leading s ∨ leading s = 0)) :
    trimSpaces s = (s.rdropWhile (· == space)).drop (leading s) := by
  have hne : s.rdropWhile (· == space) ≠ [] := by
    intro hnil
    simp [hnil] at h
  rw [trimSpaces, ← (leading_rdropWhile hne).1, drop_leading]

/-- `strtrim` on a string `s` and its terminator, with `t` behind them. -/
theorem strtrim_eq {s : List UInt8} (hs : (0 : UInt8) ∉ s) (t : List UInt8) :
    (∃ pad, strtrim (s ++ 0 :: t) = some (trimSpaces s ++ 0 :: (pad ++ t)) ∧
      (trimSpaces s).length + pad.length = s.length) ∧
    ∀ j ∈ strtrimCells (s ++ 0 :: t), j ≤ s.length := by
  obtain ⟨hrun, hscan⟩ := strtrim_scan hs t rfl rfl
  obtain ⟨junk, hcut, hjunk⟩ := cut_eq s t
  rw [hcut] at hrun hscan
  have hza : (0 : UInt8) ∉ s.rdropWhile (· == space) := fun hz =>
    hs ((List.rdropWhile_prefix _ _).subset hz)
  by_cases hstay : (s.rdropWhile (· == space)).length ≤ leading s ∨ leading s = 0
  · rw [if_pos hstay] at hrun
    rw [trimSpaces_of_stays hstay]
    exact ⟨⟨junk, hrun, hjunk⟩, fun j hj => (hscan j hj).resolve_right fun hc => hc.1 hstay⟩
  · rw [if_neg hstay] at hrun
    rw [trimSpaces_of_moves hstay]
    generalize s.rdropWhile (· == space) = a at *
    have hmid : (a.take (leading s)).length = leading s := by
      rw [List.length_take]
      omega
    have hsplit : a ++ 0 :: (junk ++ t)
        = [] ++ a.take (leading s) ++ (a.drop (leading s) ++ 0 :: (junk ++ t)) := by
      rw [List.nil_append, ← List.append_assoc, List.take_append_drop]
    obtain ⟨⟨pad, hpad, hpadLen⟩, hcells⟩ := copyDown_eq (s := a.drop (leading s)) (t := junk ++ t)
      (fun hz => hza (List.mem_of_mem_drop hz)) [] (a.take (leading s)) (a ++ 0 :: (junk ++ t)).length
      (by intro hnil; rw [hnil] at hmid; simp at hmid; omega)
      (by simp; omega)
    rw [← hsplit, hmid] at hpad hcells
    refine ⟨⟨pad ++ junk, ?_, ?_⟩, fun j hj => ?_⟩
    · rw [hrun, List.append_assoc]
      simpa using hpad
    · rw [List.length_append, List.length_drop, hpadLen, hmid]
      omega
    · rcases hscan j hj with hle | ⟨-, hmem⟩
      · exact hle
      · have hle := hcells j hmem
        simp only [List.length_nil, List.length_drop] at hle
        omega

/-- `strtrim` of an array with a terminator. -/
theorem strtrim_spec {buf : List UInt8} (h : (0 : UInt8) ∈ buf) :
    ∃ buf', strtrim buf = some buf' ∧ cstr buf' = trimSpaces (cstr buf) ∧
      buf'.length = buf.length ∧ (0 : UInt8) ∈ buf' := by
  obtain ⟨s, t, rfl, hs⟩ := List.eq_append_cons_of_mem h
  obtain ⟨⟨pad, hrun, hpad⟩, -⟩ := strtrim_eq hs t
  have hz : (0 : UInt8) ∉ trimSpaces s := fun hm =>
    hs ((List.rdropWhile_prefix _ _).subset ((List.dropWhile_suffix _).subset hm))
  refine ⟨_, hrun, ?_, ?_, by simp⟩
  · rw [cstr_append_zero hz, cstr_append_zero hs]
  · simp only [List.length_append, List.length_cons]
    omega

/-- **`strtrim` removes exactly the surrounding spaces, in place and in bounds.**  For every string `s`
and whatever stands behind its terminator: the array then holds `s` without its leading and trailing
spaces and a terminator, what stood behind is untouched, no cell behind the terminator of `s` is read or
written, and trimming the result again leaves the whole array as it is. -/
theorem strtrim_trims {s : List UInt8} (hs : (0 : UInt8) ∉ s) (t : List UInt8) :
    ∃ pad, strtrim (s ++ 0 :: t) = some (trimSpaces s ++ 0 :: (pad ++ t)) ∧
      (trimSpaces s).length + pad.length = s.length ∧
      (∀ j ∈ strtrimCells (s ++ 0 :: t), j ≤ s.length) ∧
      strtrim (trimSpaces s ++ 0 :: (pad ++ t)) = some (trimSpaces s ++ 0 :: (pad ++ t)) := by
  obtain ⟨⟨pad, hrun, hpad⟩, hcells⟩ := strtrim_eq hs t
  have hz : (0 : UInt8) ∉ trimSpaces s := fun hm =>
    hs ((List.rdropWhile_prefix _ _).subset ((List.dropWhile_suffix _).subset hm))
  obtain ⟨⟨pad', hagain, hpad'⟩, -⟩ := strtrim_eq hz (pad ++ t)
  rw [trimSpaces_trimSpaces] at hagain hpad'
  obtain rfl : pad' = [] := List.eq_nil_of_length_eq_zero (by omega)
  exact ⟨pad, hrun, hpad, hcells, hagain⟩

/-- Inner spaces stay. -/
theorem strtrim_trims_inner :
    (0 : UInt8) ∉ ascii "  a b " ∧
      ∃ pad, strtrim (ascii "  a b " ++ 0 :: [7]) = some (trimSpaces (ascii "  a b ") ++ 0 :: (pad ++ [7])) ∧
        (trimSpaces (ascii "  a b ")).length + pad.length = (ascii "  a b ").length ∧
        (∀ j ∈ strtrimCells (ascii "  a b " ++ 0 :: [7]), j ≤ (ascii "  a b ").length) ∧
        strtrim (trimSpaces (ascii "  a b ") ++ 0 :: (pad ++ [7]))
          = some (trimSpaces (ascii "  a b ") ++ 0 :: (pad ++ [7])) :=
  have hz : (0 : UInt8) ∉ ascii "  a b " := by decide
  ⟨hz, strtrim_trims hz [7]⟩

/-- Without a terminator in the array `strtrim` reads past it. -/
theorem strtrim_eq_none {buf : List UInt8} (h : (0 : UInt8) ∉ buf) : strtrim buf = none := by
  unfold strtrim
  split
  · rfl
  · rename_i start moved _
    rw [pastNul_eq_none fun hm => h (List.mem_of_mem_drop hm)]

theorem getPositionOf_nul {buf : List UInt8} {size : ℕ} (hsize : buf.length = size)
    (h : (0 : UInt8) ∈ buf) : getPositionOf buf size 0 = strlen buf := by
  obtain ⟨s, t, rfl, hs⟩ := List.eq_append_cons_of_mem h
  have hidx : (s ++ 0 :: t).idxOf? 0 = some s.length := by
    rw [List.idxOf?_eq_some_iff]
    refine ⟨by simp, by simp, ?_⟩
    intro j hj heq
    rw [List.getElem_append_left hj] at heq
    exact hs (heq ▸ List.getElem_mem _)
  rw [getPositionOf, ← hsize, List.take_length, hidx, strlen, cstr_append_zero hs]

end EspFirmware
