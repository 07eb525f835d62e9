import EspFirmware.Lib.CString
import Mathlib.Algebra.Order.Ring.Int
import Mathlib.Data.List.Nodup
import Mathlib.Data.Set.Basic
import Mathlib.Logic.Function.Basic
import Mathlib.Tactic.Ring

/-!
# Random strings

`GenerateRandomString` of `Helpers/StringHelpers.cpp` and the two functions that call it.  A character is
picked with a remainder by the length of the alphabet less one, which is the arithmetic of an array that
counts its terminator; `strlen` does not.  The counter is a `short`, which the model keeps: a run is given
a number of loop tests, and one that needs more has no result.

* `pick`, `fillLoop`, `generateRandomString` — the assignments a call makes;
* `produced` — the strings a call can leave;
* `usesWholeAlphabet_iff` — the last character is never picked, so only empty strings come out right;
* `fillsWindow_iff` — a call ends, and writes its own cells only, for the lengths a `short` can count to.
-/

namespace EspFirmware

open CString

/-- What stops a round of the loop: a remainder by zero, or an index outside the alphabet. -/
inductive PickFault where
  | divisionByZero
  | outOfBounds
  deriving Repr, DecidableEq

/-- `n - 1` of a `size_t`. -/
def lessOne : ℕ → ℕ
  | 0 => 2 ^ 32 - 1
  | n + 1 => n

/-- `allowedChars[rand() % (strlen(allowedChars) - 1)]`. -/
def pick (allowedChars : List UInt8) (rand : ℕ) : Except PickFault UInt8 :=
  if lessOne (strlen allowedChars) = 0 then .error .divisionByZero
  else
    match (cstr allowedChars ++ [0])[rand % lessOne (strlen allowedChars)]? with
    | none => .error .outOfBounds
    | some c => .ok c

/-- An assignment `s[cell] = byte`. -/
structure Write where
  cell : ℤ
  byte : UInt8
  deriving Repr, DecidableEq

/-- `for (short int i = 0; i < len; ++i)`, from the `k`-th value of `rand()` on. -/
def fillLoop (allowedChars : List UInt8) (len offset : ℤ) (rand : ℕ → ℕ) :
    ℕ → ℕ → Int16 → Option (Except PickFault (List Write))
  | 0, _, _ => none
  | fuel + 1, k, i =>
      if i.toInt < len then
        match pick allowedChars (rand k) with
        | .error e => some (.error e)
        | .ok c =>
            (fillLoop allowedChars len offset rand fuel (k + 1) (i + 1)).map fun r =>
              r.map (⟨i.toInt + offset, c⟩ :: ·)
      else some (.ok [])

/-- `GenerateRandomString`: its assignments in their order. -/
def generateRandomString (allowedChars : List UInt8) (len offset : ℤ) (rand : ℕ → ℕ) (fuel : ℕ) :
    Option (Except PickFault (List Write)) :=
  (fillLoop allowedChars len offset rand fuel 0 0).map fun r => r.map (· ++ [⟨len + offset, 0⟩])

/-- `alphanum`. -/
def alphanum : List UInt8 :=
  ascii "123456789ABCDEFGHIJKLMNPQRSTUVWXYZabcdefghijklmnpqrstuvwxyz"

/-- `numericChars`. -/
def numericChars : List UInt8 := ascii "123456789"

/-- `GenerateRandomKey`. -/
def generateRandomKey (len offset : ℤ) (rand : ℕ → ℕ) (fuel : ℕ) :
    Option (Except PickFault (List Write)) :=
  generateRandomString alphanum len offset rand fuel

/-- `GenerateRandomNumberString`. -/
def generateRandomNumberString (len offset : ℤ) (rand : ℕ → ℕ) (fuel : ℕ) :
    Option (Except PickFault (List Write)) :=
  generateRandomString numericChars len offset rand fuel

/-! ### Strings in memory -/

/-- The memory after some assignments. -/
def afterWrites (memory : ℤ → UInt8) (writes : List Write) : ℤ → UInt8 :=
  writes.foldl (fun m w => Function.update m w.cell w.byte) memory

/-- The string that stands at an address. -/
def StringAt (memory : ℤ → UInt8) : ℤ → List UInt8 → Prop
  | a, [] => memory a = 0
  | a, c :: w => memory a = c ∧ c ≠ 0 ∧ StringAt memory (a + 1) w

theorem StringAt.unique {memory : ℤ → UInt8} {a : ℤ} {v w : List UInt8} (hv : StringAt memory a v)
    (hw : StringAt memory a w) : v = w := by
  induction v generalizing a w with
  | nil =>
      cases w with
      | nil => rfl
      | cons c w => exact absurd (hw.1.symm.trans hv) hw.2.1
  | cons b v ih =>
      cases w with
      | nil => exact absurd (hv.1.symm.trans hw) hv.2.1
      | cons c w => rw [ih hv.2.2 hw.2.2, hv.1.symm.trans hw.1]

/-- The characters `cs` stored one after another from the cell `a` on. -/
def stores (a : ℤ) : List UInt8 → List Write
  | [] => []
  | c :: cs => ⟨a, c⟩ :: stores (a + 1) cs

theorem cell_of_mem_stores {a : ℤ} {cs : List UInt8} {w : Write} (h : w ∈ stores a cs) :
    a ≤ w.cell ∧ w.cell < a + cs.length := by
  induction cs generalizing a with
  | nil => simp [stores] at h
  | cons c cs ih =>
      rw [stores, List.mem_cons] at h
      rw [List.length_cons]
      rcases h with rfl | h
      · show a ≤ a ∧ a < a + ((cs.length + 1 : ℕ) : ℤ)
        omega
      · have hcell := ih h
        omega

/-- A cell that is not assigned keeps its value. -/
theorem afterWrites_of_not_mem {memory : ℤ → UInt8} {writes : List Write} {a : ℤ}
    (h : ∀ w ∈ writes, w.cell ≠ a) : afterWrites memory writes a = memory a := by
  induction writes generalizing memory with
  | nil => rfl
  | cons w writes ih =>
      show afterWrites (Function.update memory w.cell w.byte) writes a = _
      rw [ih fun w' hw' => h w' (List.mem_cons_of_mem _ hw'),
        Function.update_of_ne (h w List.mem_cons_self).symm]

/-- Storing characters and a terminator makes a string. -/
theorem stringAt_stores (memory : ℤ → UInt8) (a : ℤ) {cs : List UInt8} (hz : (0 : UInt8) ∉ cs) :
    StringAt (afterWrites memory (stores a cs ++ [⟨a + cs.length, 0⟩])) a cs := by
  induction cs generalizing memory a with
  | nil => simp [StringAt, stores, afterWrites]
  | cons c cs ih =>
      have hend : a + ((c :: cs).length : ℤ) = a + 1 + (cs.length : ℤ) := by
        push_cast [List.length_cons]
        ring
      rw [hend]
      show StringAt (afterWrites (Function.update memory a c) (stores (a + 1) cs ++ [⟨_, 0⟩])) a (c :: cs)
      refine ⟨?_, fun hc => hz (by simp [hc]), ih _ _ fun hm => hz (List.mem_cons_of_mem _ hm)⟩
      rw [afterWrites_of_not_mem, Function.update_self]
      intro w hw
      rw [List.mem_append, List.mem_singleton] at hw
      rcases hw with hw | rfl
      · have hle := (cell_of_mem_stores hw).1
        omega
      · show a + 1 + (cs.length : ℤ) ≠ a
        omega

/-! ### What a call stores -/

variable {allowedChars : List UInt8}

/-- A character that is picked is not the last one. -/
theorem mem_dropLast_of_pick (hz : (0 : UInt8) ∉ allowedChars) (hne : allowedChars ≠ []) {rand : ℕ}
    {c : UInt8} (h : pick allowedChars rand = .ok c) : c ∈ allowedChars.dropLast := by
  have hlen : lessOne allowedChars.length = allowedChars.dropLast.length := by
    obtain ⟨b, t, rfl⟩ := List.exists_cons_of_ne_nil hne
    rw [List.length_dropLast]
    rfl
  rw [pick, strlen, cstr_eq_self hz, hlen] at h
  split_ifs at h with hn
  have hlt := Nat.mod_lt rand (Nat.pos_of_ne_zero hn)
  have hsplit : allowedChars ++ [0] = allowedChars.dropLast ++ [allowedChars.getLast hne, 0] := by
    conv_lhs => rw [← List.dropLast_append_getLast hne]
    simp
  rw [hsplit, List.getElem?_append_left hlt, List.getElem?_eq_getElem hlt] at h
  cases h
  exact List.getElem_mem _

/-- With one character to choose from nothing is picked. -/
theorem pick_singleton {c : UInt8} (hc : c ≠ 0) (rand : ℕ) :
    pick [c] rand = .error .divisionByZero := by
  have hlen : strlen [c] = 1 := by simp [strlen, cstr, hc]
  rw [pick, hlen]
  rfl

theorem toInt_add_one {i : Int16} (h : i.toInt < 32767) : (i + 1).toInt = i.toInt + 1 := by
  have hlo := i.le_toInt
  rw [Int16.toInt_add, show (1 : Int16).toInt = 1 from rfl]
  exact Int.bmod_eq_of_le (by omega) (by omega)

/-- While the counter does not wrap, the loop stores one picked character after another. -/
theorem fillLoop_stores {len offset : ℤ} {rand : ℕ → ℕ} (hlen : len ≤ 32767) (n : ℕ) :
    ∀ (fuel k : ℕ) (i : Int16) {writes : List Write}, i.toInt + n = len →
      fillLoop allowedChars len offset rand fuel k i = some (.ok writes) →
      ∃ cs : List UInt8, cs.length = n ∧ (∀ c ∈ cs, ∃ r, pick allowedChars r = .ok c) ∧
        writes = stores (i.toInt + offset) cs := by
  induction n with
  | zero =>
      intro fuel k i writes hi h
      cases fuel with
      | zero => cases h
      | succ fuel =>
          rw [fillLoop, if_neg (by omega)] at h
          cases h
          exact ⟨[], rfl, by simp, rfl⟩
  | succ n ih =>
      intro fuel k i writes hi h
      cases fuel with
      | zero => cases h
      | succ fuel =>
          rw [fillLoop, if_pos (by omega)] at h
          split at h
          · cases h
          · rename_i c hc
            obtain ⟨r, hr, hmap⟩ := Option.map_eq_some_iff.mp h
            cases r with
            | error e => cases hmap
            | ok rest =>
                cases hmap
                have hnext : (i + 1).toInt = i.toInt + 1 := toInt_add_one (by omega)
                obtain ⟨cs, hcs, hpicked, rfl⟩ := ih fuel (k + 1) (i + 1) (by rw [hnext]; omega) hr
                refine ⟨c :: cs, by simp [hcs], ?_, ?_⟩
                · intro c' hc'
                  rcases List.mem_cons.mp hc' with rfl | hc'
                  · exact ⟨_, hc⟩
                  · exact hpicked c' hc'
                · rw [hnext, stores, show i.toInt + 1 + offset = i.toInt + offset + 1 by ring]

/-! ### The strings a call can leave -/

/-- The strings that can stand at `s + offset` after a call, over all values of `rand()`. -/
def produced (allowedChars : List UInt8) (memory : ℤ → UInt8) (len offset : ℤ) : Set (List UInt8) :=
  { w | ∃ rand : ℕ → ℕ, (∀ k, rand k < 2 ^ 31) ∧ ∃ fuel writes,
    generateRandomString allowedChars len offset rand fuel = some (.ok writes) ∧
      StringAt (afterWrites memory writes) offset w }

/-- Exactly the strings of `len` allowed characters can be produced, and no call divides by zero. -/
structure UsesWholeAlphabet (allowedChars : List UInt8) (memory : ℤ → UInt8) (len : ℕ) (offset : ℤ) :
    Prop where
  produced_eq : produced allowedChars memory len offset
    = { w | w.length = len ∧ ∀ c ∈ w, c ∈ allowedChars }
  noDivision : ∀ rand : ℕ → ℕ, (∀ k, rand k < 2 ^ 31) → ∀ fuel,
    generateRandomString allowedChars len offset rand fuel ≠ some (.error .divisionByZero)

/-- What is produced has no last character of the alphabet in it. -/
theorem mem_dropLast_of_produced (hz : (0 : UInt8) ∉ allowedChars) (hne : allowedChars ≠ [])
    {memory : ℤ → UInt8} {len : ℕ} (hlen : len ≤ 32767) {offset : ℤ} {w : List UInt8}
    (h : w ∈ produced allowedChars memory len offset) :
    w.length = len ∧ ∀ c ∈ w, c ∈ allowedChars.dropLast := by
  obtain ⟨rand, -, fuel, writes, hrun, hw⟩ := h
  obtain ⟨r, hr, hmap⟩ := Option.map_eq_some_iff.mp hrun
  cases r with
  | error e => cases hmap
  | ok stored =>
      cases hmap
      obtain ⟨cs, hcs, hpicked, rfl⟩ := fillLoop_stores (by exact_mod_cast hlen) len fuel 0 0
        (by rw [Int16.toInt_zero, zero_add]) hr
      have hmem : ∀ c ∈ cs, c ∈ allowedChars.dropLast := by
        intro c hc
        obtain ⟨r, hpick⟩ := hpicked c hc
        exact mem_dropLast_of_pick hz hne hpick
      have hzcs : (0 : UInt8) ∉ cs := fun h0 => hz (List.dropLast_subset _ (hmem 0 h0))
      have hstring := stringAt_stores memory offset hzcs
      rw [hcs, add_comm offset] at hstring
      rw [Int16.toInt_zero, zero_add] at hw
      obtain rfl := hw.unique hstring
      exact ⟨hcs, hmem⟩

theorem fillLoop_empty (offset : ℤ) (rand : ℕ → ℕ) (fuel : ℕ) :
    fillLoop allowedChars 0 offset rand (fuel + 1) 0 0 = some (.ok []) := by
  rw [fillLoop, if_neg (by decide)]

/-- An empty string is produced right. -/
theorem usesWholeAlphabet_zero (memory : ℤ → UInt8) (offset : ℤ) :
    UsesWholeAlphabet allowedChars memory 0 offset where
  produced_eq := by
    have hstring : StringAt (afterWrites memory [⟨0 + offset, 0⟩]) offset [] := by
      simp [StringAt, afterWrites]
    have hone : ∀ rand fuel, generateRandomString allowedChars 0 offset rand (fuel + 1)
        = some (.ok [⟨0 + offset, 0⟩]) := by
      intro rand fuel
      rw [generateRandomString, fillLoop_empty]
      rfl
    ext w
    constructor
    · rintro ⟨rand, -, fuel, writes, hrun, hw⟩
      cases fuel with
      | zero => cases hrun
      | succ fuel =>
          have heq := (hone rand fuel).symm.trans hrun
          cases heq
          rw [hw.unique hstring]
          simp
    · rintro ⟨hlen, -⟩
      obtain rfl := List.eq_nil_of_length_eq_zero hlen
      exact ⟨fun _ => 0, fun _ => Nat.two_pow_pos 31, 1, _, hone _ 0, hstring⟩
  noDivision rand _ fuel := by
    cases fuel with
    | zero =>
        intro h
        cases h
    | succ fuel =>
        show generateRandomString allowedChars 0 offset rand (fuel + 1) ≠ _
        rw [generateRandomString, fillLoop_empty]
        intro h
        cases h

/-- **Only empty strings use the whole alphabet.**  For every alphabet without repetitions, every memory
and every place in it: the strings of `len` characters that can be produced are all those over the
alphabet, without a division by zero, exactly if `len` is zero. -/
theorem usesWholeAlphabet_iff (hz : (0 : UInt8) ∉ allowedChars) (hne : allowedChars ≠ [])
    (hnodup : allowedChars.Nodup) (memory : ℤ → UInt8) {len : ℕ} (hlen : len ≤ 32767) (offset : ℤ) :
    UsesWholeAlphabet allowedChars memory len offset ↔ len = 0 := by
  constructor
  · intro h
    by_contra hpos
    -- a string of last characters is over the alphabet but cannot be produced
    have hlast : List.replicate len (allowedChars.getLast hne)
        ∈ produced allowedChars memory len offset := by
      rw [h.produced_eq]
      refine ⟨List.length_replicate, fun c hc => ?_⟩
      rw [List.eq_of_mem_replicate hc]
      exact List.getLast_mem hne
    have hmem := (mem_dropLast_of_produced hz hne hlen hlast).2 (allowedChars.getLast hne)
      (List.mem_replicate.mpr ⟨hpos, rfl⟩)
    rw [← List.dropLast_append_getLast hne] at hnodup
    exact (List.nodup_append.mp hnodup).2.2 _ hmem _ (List.mem_singleton_self _) rfl
  · rintro rfl
    exact usesWholeAlphabet_zero memory offset

/-- An empty key uses what there is. -/
theorem usesWholeAlphabet_iff_numericChars :
    (0 : UInt8) ∉ numericChars ∧ numericChars ≠ [] ∧ numericChars.Nodup ∧
      UsesWholeAlphabet numericChars (fun _ => 0) 0 4 := by
  have hz : (0 : UInt8) ∉ numericChars := by decide
  have hne : numericChars ≠ [] := by decide
  have hnodup : numericChars.Nodup := by decide
  exact ⟨hz, hne, hnodup,
    (usesWholeAlphabet_iff hz hne hnodup (fun _ => 0) (by decide) 4).mpr rfl⟩

/-- No number string has a nine in it, and an alphabet of one character is a division by zero. -/
theorem randomString_short :
    ¬UsesWholeAlphabet numericChars (fun _ => 0) 1 0 ∧
      [57] ∉ produced numericChars (fun _ => 0) 1 0 ∧
      ¬UsesWholeAlphabet [65] (fun _ => 0) 1 0 := by
  have hnine : [57] ∉ produced numericChars (fun _ => 0) 1 0 := by
    intro h
    have hone : [57] ∈ produced numericChars (fun _ => 0) (1 : ℕ) 0 := h
    have hmem := (mem_dropLast_of_produced (by decide) (by decide) (by decide) hone).2 57 (by simp)
    exact absurd hmem (by decide)
  refine ⟨fun h => hnine ?_, hnine, fun h => ?_⟩
  · have heq := h.produced_eq
    rw [Nat.cast_one] at heq
    rw [heq]
    exact ⟨rfl, List.forall_mem_singleton.mpr (by decide)⟩
  · exact h.noDivision (fun _ => 0) (fun _ => Nat.two_pow_pos 31) 1 (by
      rw [generateRandomString, fillLoop, if_pos (by decide), pick_singleton (by decide)]
      rfl)

/-! ### The cells a call writes -/

theorem byte_of_mem_stores {a : ℤ} {cs : List UInt8} {w : Write} (h : w ∈ stores a cs) :
    w.byte ∈ cs := by
  induction cs generalizing a with
  | nil => simp [stores] at h
  | cons c cs ih =>
      rw [stores, List.mem_cons] at h
      rcases h with rfl | h
      · exact List.mem_cons_self
      · exact List.mem_cons_of_mem c (ih h)

/-- No cell between the first and the last is left out. -/
theorem exists_mem_stores {a x : ℤ} {cs : List UInt8} (hlo : a ≤ x) (hhi : x < a + cs.length) :
    ∃ w ∈ stores a cs, w.cell = x := by
  induction cs generalizing a with
  | nil =>
      rw [List.length_nil] at hhi
      omega
  | cons c cs ih =>
      rw [stores]
      rcases hlo.eq_or_lt with rfl | hlt
      · exact ⟨_, List.mem_cons_self, rfl⟩
      · rw [List.length_cons] at hhi
        obtain ⟨w, hw, hcell⟩ := ih (a := a + 1) (by omega) (by omega)
        exact ⟨w, List.mem_cons_of_mem _ hw, hcell⟩

/-- The assignments fill `s[offset] .. s[offset + len - 1]` with allowed characters, put a NUL behind them
and touch no other cell. -/
structure WritesWindow (allowedChars : List UInt8) (len : ℕ) (offset : ℤ) (writes : List Write) :
    Prop where
  cells : ∀ a, (∃ w ∈ writes, w.cell = a) ↔ offset ≤ a ∧ a ≤ offset + len
  chars : ∀ w ∈ writes, w.cell < offset + len → w.byte ∈ cstr allowedChars
  nul : ∀ w ∈ writes, w.cell = offset + len → w.byte = 0

/-- A call comes to its end, and what it has written is its window. -/
def FillsWindow (allowedChars : List UInt8) (len : ℕ) (offset : ℤ) (rand : ℕ → ℕ) : Prop :=
  ∃ fuel writes, generateRandomString allowedChars len offset rand fuel = some (.ok writes) ∧
    WritesWindow allowedChars len offset writes

/-- With two characters to choose from, each `rand()` picks one of them. -/
theorem pick_mem (h2 : 2 ≤ strlen allowedChars) (rand : ℕ) :
    ∃ c ∈ cstr allowedChars, pick allowedChars rand = .ok c := by
  have hless : lessOne (strlen allowedChars) = strlen allowedChars - 1 := by
    obtain ⟨n, hn⟩ : ∃ n, strlen allowedChars = n + 1 := ⟨strlen allowedChars - 1, by omega⟩
    rw [hn]
    rfl
  have hmod := Nat.mod_lt rand (show 0 < strlen allowedChars - 1 by omega)
  have hlt : rand % (strlen allowedChars - 1) < (cstr allowedChars).length := by
    show _ < strlen allowedChars
    omega
  refine ⟨(cstr allowedChars)[rand % (strlen allowedChars - 1)], List.getElem_mem hlt, ?_⟩
  rw [pick, hless, if_neg (by omega), List.getElem?_append_left hlt, List.getElem?_eq_getElem hlt]

section Termination

variable {offset : ℤ} {rand : ℕ → ℕ} (hpick : ∀ r, ∃ c ∈ cstr allowedChars, pick allowedChars r = .ok c)
include hpick

/-- One test more than there are characters ends the loop. -/
theorem fillLoop_terminates {len : ℤ} (hlen : len ≤ 32767) (n : ℕ) :
    ∀ (k : ℕ) (i : Int16), i.toInt + n = len →
      ∃ writes, fillLoop allowedChars len offset rand (n + 1) k i = some (.ok writes) := by
  induction n with
  | zero =>
      intro k i hi
      rw [fillLoop, if_neg (by omega)]
      exact ⟨[], rfl⟩
  | succ n ih =>
      intro k i hi
      obtain ⟨c, -, hc⟩ := hpick (rand k)
      have hnext : (i + 1).toInt = i.toInt + 1 := toInt_add_one (by omega)
      obtain ⟨writes, hrest⟩ := ih (k + 1) (i + 1) (by rw [hnext]; omega)
      rw [fillLoop, if_pos (by omega), hc]
      show ∃ writes, Option.map _ (fillLoop allowedChars len offset rand (n + 1) (k + 1) (i + 1)) = _
      rw [hrest]
      exact ⟨_, rfl⟩

/-- Above the largest `short` no value of the counter fails the test, also not after it has wrapped. -/
theorem fillLoop_diverges {len : ℤ} (hlen : 32767 < len) (fuel : ℕ) :
    ∀ (k : ℕ) (i : Int16), fillLoop allowedChars len offset rand fuel k i = none := by
  induction fuel with
  | zero => exact fun _ _ => rfl
  | succ fuel ih =>
      intro k i
      have hle := i.toInt_lt
      obtain ⟨c, -, hc⟩ := hpick (rand k)
      rw [fillLoop, if_pos (by omega), hc]
      show Option.map _ (fillLoop allowedChars len offset rand fuel (k + 1) (i + 1)) = none
      rw [ih]
      rfl

end Termination

/-- Allowed characters from `offset` on and a NUL behind them are the window. -/
theorem writesWindow_stores {cs : List UInt8} {offset : ℤ} (hcs : ∀ c ∈ cs, c ∈ cstr allowedChars) :
    WritesWindow allowedChars cs.length offset
      (stores offset cs ++ [⟨(cs.length : ℤ) + offset, 0⟩]) where
  cells a := by
    constructor
    · intro h
      obtain ⟨w, hw, rfl⟩ := h
      rcases List.mem_append.mp hw with hw | hw
      · have hcell := cell_of_mem_stores hw
        omega
      · rw [List.mem_singleton.mp hw]
        show offset ≤ (cs.length : ℤ) + offset ∧ (cs.length : ℤ) + offset ≤ offset + cs.length
        omega
    · intro h
      by_cases hlast : a = offset + cs.length
      · exact ⟨_, List.mem_append_right _ (List.mem_singleton_self _), by rw [hlast, add_comm]⟩
      · obtain ⟨w, hw, hcell⟩ := exists_mem_stores h.1 (show a < offset + cs.length by omega)
        exact ⟨w, List.mem_append_left _ hw, hcell⟩
  chars w hw hlt := by
    rcases List.mem_append.mp hw with hw | hw
    · exact hcs _ (byte_of_mem_stores hw)
    · rw [List.mem_singleton.mp hw] at hlt
      change (cs.length : ℤ) + offset < _ at hlt
      omega
  nul w hw heq := by
    rcases List.mem_append.mp hw with hw | hw
    · have hcell := cell_of_mem_stores hw
      omega
    · rw [List.mem_singleton.mp hw]

/-- **A call fills its window exactly if the length is a `short`.**  For every alphabet of two characters
or more, every length and offset and whatever `rand()` returns: the loop ends and the cells written are
those of the string and its terminator, exactly if `len` is at most 32767; otherwise the counter wraps
and the loop goes on for ever. -/
theorem fillsWindow_iff (h2 : 2 ≤ strlen allowedChars) (len : ℕ) (offset : ℤ) (rand : ℕ → ℕ) :
    FillsWindow allowedChars len offset rand ↔ len ≤ 32767 := by
  constructor
  · intro h
    obtain ⟨fuel, writes, hrun, -⟩ := h
    by_contra hlen
    have hlong : (32767 : ℤ) < len := by omega
    rw [generateRandomString, fillLoop_diverges (pick_mem h2) hlong] at hrun
    cases hrun
  · intro hlen
    have hshort : (len : ℤ) ≤ 32767 := by omega
    have hstart : (0 : Int16).toInt + (len : ℤ) = len := by rw [Int16.toInt_zero, zero_add]
    obtain ⟨writes, hloop⟩ :
        ∃ writes, fillLoop allowedChars len offset rand (len + 1) 0 0 = some (.ok writes) :=
      fillLoop_terminates (pick_mem h2) hshort len 0 0 hstart
    obtain ⟨cs, rfl, hpicked, rfl⟩ := fillLoop_stores hshort len (len + 1) 0 0 hstart hloop
    have hcs : ∀ c ∈ cs, c ∈ cstr allowedChars := by
      intro c hc
      obtain ⟨r, hr⟩ := hpicked c hc
      obtain ⟨c', hc', hr'⟩ := pick_mem h2 r
      rw [hr] at hr'
      cases hr'
      exact hc'
    refine ⟨cs.length + 1, _, ?_, writesWindow_stores hcs⟩
    rw [generateRandomString, hloop, Int16.toInt_zero, zero_add]
    rfl

/-- A number of four digits fills its five cells. -/
theorem fillsWindow_four : 2 ≤ strlen numericChars ∧ FillsWindow numericChars 4 3 (fun k => k) := by
  have h2 : 2 ≤ strlen numericChars := by decide
  exact ⟨h2, (fillsWindow_iff h2 4 3 fun k => k).mpr (by decide)⟩

/-- A key of 32768 characters is never finished, however many tests the loop is given. -/
theorem longKey_diverges :
    ¬FillsWindow alphanum 32768 0 (fun _ => 0) ∧
      ∀ fuel, generateRandomKey 32768 0 (fun _ => 0) fuel = none := by
  have hloop : ∀ fuel, generateRandomKey 32768 0 (fun _ => 0) fuel = none := by
    intro fuel
    rw [generateRandomKey, generateRandomString, fillLoop_diverges (pick_mem (by decide)) (by decide)]
    rfl
  refine ⟨fun h => ?_, hloop⟩
  obtain ⟨fuel, writes, hrun, -⟩ := h
  cases (hloop fuel).symm.trans hrun

end EspFirmware
