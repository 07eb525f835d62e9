import Mathlib.Algebra.Order.Ring.Int
import Mathlib.Data.List.Basic
import Mathlib.Data.List.Infix
import Mathlib.Data.List.TakeWhile
import Mathlib.Tactic.Common

/-!
# C strings in byte arrays

A `char` array is a list of bytes and the string in it is what stands before the first NUL.  The library
functions here are those of `string.h` and `stdlib.h` a program needs to take a line of text apart; each
reads its arguments only up to their terminators.

* `cstr`, `strlen`, `strEq`, `startsWith`, `strstr` — reading;
* `strncpy` — copying with NUL padding;
* `strtok` — the next token and the rest of the string;
* `atol` — 32-bit `long`, saturating as `strtol` does.
-/

namespace CString

/-- The bytes of an ASCII literal. -/
def ascii (s : String) : List UInt8 := s.toList.map fun c => c.toNat.toUInt8

def space : UInt8 := 32

/-- The string in a `char` array. -/
def cstr (a : List UInt8) : List UInt8 := a.takeWhile (· != 0)

/-- `strlen`. -/
def strlen (a : List UInt8) : ℕ := (cstr a).length

/-- `strcmp(a, b) == 0`. -/
def strEq (a b : List UInt8) : Bool := decide (cstr a = cstr b)

/-- `strncmp(a, p, strlen(p)) == 0`. -/
def startsWith (p a : List UInt8) : Bool := decide (p <+: cstr a)

/-- `strstr(a, p) != NULL`. -/
def strstr (a p : List UInt8) : Bool := decide (p <:+: cstr a)

/-- `strncpy(dst, src, n)`: the array `dst` afterwards. -/
def strncpy (dst src : List UInt8) (n : ℕ) : List UInt8 :=
  (cstr src ++ List.replicate n 0).take n ++ dst.drop n

/-- `strtok`: the next token of a string and what is left for the next call. -/
def strtok (delim : UInt8) (s : List UInt8) : Option (List UInt8 × List UInt8) :=
  match s.dropWhile (· == delim) with
  | [] => none
  | b :: t =>
      some ((b :: t).takeWhile (· != delim), ((b :: t).dropWhile (· != delim)).drop 1)

/-- `strtok(s, delim)` followed by `strtok(NULL, delim)`: the second token. -/
def secondToken (delim : UInt8) (s : List UInt8) : Option (List UInt8) :=
  match strtok delim s with
  | none => none
  | some (_, rest) => (strtok delim rest).map Prod.fst

/-- `isspace` in the C locale. -/
def isSpace (b : UInt8) : Bool := b == 32 || (9 ≤ b && b ≤ 13)

/-- `isdigit`. -/
def isDigit (b : UInt8) : Bool := 48 ≤ b && b ≤ 57

/-- The value of a run of decimal digits. -/
def decimal (ds : List UInt8) : ℕ := ds.foldl (fun acc d => acc * 10 + (d.toNat - 48)) 0

/-- A 32-bit `long`. -/
abbrev Long := { x : ℤ // -2 ^ 31 ≤ x ∧ x < 2 ^ 31 }

def Long.zero : Long := ⟨0, by decide⟩

/-- The nearest `long`, as `strtol` returns on overflow. -/
def saturate (x : ℤ) : Long := ⟨max (-2 ^ 31) (min x (2 ^ 31 - 1)), by omega⟩

/-- `atol`: white space, an optional sign, decimal digits. -/
def atol (a : List UInt8) : Long :=
  match (cstr a).dropWhile isSpace with
  | 45 :: t => saturate (-(decimal (t.takeWhile isDigit) : ℤ))
  | 43 :: t => saturate (decimal (t.takeWhile isDigit))
  | s => saturate (decimal (s.takeWhile isDigit))

/-! ### Arrays of a fixed size -/

/-- A `char` array of `N` bytes. -/
abbrev CharArray (N : ℕ) := { a : List UInt8 // a.length = N }

theorem strncpy_length {dst : List UInt8} (src : List UInt8) {n : ℕ} (h : n ≤ dst.length) :
    (strncpy dst src n).length = dst.length := by
  simp only [strncpy, List.length_append, List.length_take, List.length_replicate,
    List.length_drop]
  omega

namespace CharArray

variable {N : ℕ}

/-- A zero-initialised array. -/
def zero (N : ℕ) : CharArray N := ⟨List.replicate N 0, by simp⟩

/-- `strncpy(dst, src, n)` with `n` inside the array. -/
def strncpy (dst : CharArray N) (src : List UInt8) (n : ℕ) (h : n ≤ N) : CharArray N :=
  ⟨CString.strncpy dst.1 src n, by rw [strncpy_length src (by rw [dst.2]; exact h), dst.2]⟩

/-- The string in the array. -/
def str (a : CharArray N) : List UInt8 := cstr a.1

theorem str_length_le (a : CharArray N) : a.str.length ≤ N := by
  have h : cstr a.1 <+: a.1 := List.takeWhile_prefix _
  have hle := h.length_le
  rw [a.2] at hle
  exact hle

end CharArray

/-! ### The string in an array -/

theorem cstr_not_mem_zero (a : List UInt8) : (0 : UInt8) ∉ cstr a := by
  intro h
  simpa using List.mem_takeWhile_imp h

theorem cstr_eq_self {a : List UInt8} (h : (0 : UInt8) ∉ a) : cstr a = a := by
  rw [cstr, List.takeWhile_eq_self_iff]
  intro b hb
  simpa using fun hz : b = 0 => h (hz ▸ hb)

theorem cstr_append {a : List UInt8} (h : (0 : UInt8) ∉ a) (t : List UInt8) :
    cstr (a ++ t) = a ++ cstr t := by
  have ha : ∀ b ∈ a, (b != 0) = true := fun b hb => by simpa using fun hz : b = 0 => h (hz ▸ hb)
  rw [cstr, List.takeWhile_append_of_pos ha, cstr]

theorem cstr_append_zero {a : List UInt8} (h : (0 : UInt8) ∉ a) (t : List UInt8) :
    cstr (a ++ 0 :: t) = a := by
  rw [cstr_append h]
  simp [cstr]

/-- What follows a NUL is not seen. -/
theorem cstr_append_nul (a t : List UInt8) : cstr (a ++ 0 :: t) = cstr a := by
  induction a with
  | nil => rfl
  | cons b a ih =>
      by_cases hb : b = 0
      · simp [cstr, hb]
      · simpa [cstr, hb] using ih

@[simp] theorem cstr_nil : cstr [] = [] := rfl

theorem length_of_startsWith {p a : List UInt8} (h : startsWith p a = true) : p.length ≤ a.length := by
  rw [startsWith, decide_eq_true_eq] at h
  exact h.length_le.trans (List.takeWhile_sublist _).length_le

theorem length_of_strstr {a p : List UInt8} (h : strstr a p = true) : p.length ≤ a.length := by
  rw [strstr, decide_eq_true_eq] at h
  exact h.length_le.trans (List.takeWhile_sublist _).length_le

@[simp] theorem cstr_cstr (a : List UInt8) : cstr (cstr a) = cstr a :=
  cstr_eq_self (cstr_not_mem_zero a)

/-- Zero padding does not change the string. -/
theorem cstr_append_replicate (a : List UInt8) (n : ℕ) :
    cstr (a ++ List.replicate n 0) = cstr a := by
  induction a with
  | nil => cases n <;> simp [cstr, List.replicate_succ]
  | cons b a ih =>
      by_cases hb : b = 0
      · simp [cstr, hb]
      · simp only [cstr, List.cons_append] at ih ⊢
        rw [List.takeWhile_cons_of_pos (by simpa using hb),
          List.takeWhile_cons_of_pos (by simpa using hb), ih]

@[simp] theorem strlen_replicate_zero (n : ℕ) : strlen (List.replicate n 0) = 0 := by
  have h := cstr_append_replicate [] n
  simp only [List.nil_append] at h
  simp [strlen, h]

/-- A copy of no bytes changes nothing. -/
@[simp] theorem strncpy_zero (dst src : List UInt8) : strncpy dst src 0 = dst := by
  simp [strncpy]

/-- `strncpy` leaves the string itself when it is shorter than the array, its first bytes otherwise. -/
theorem cstr_strncpy (dst src : List UInt8) (n : ℕ) (h : dst.length = n) :
    cstr (CString.strncpy dst src n) = (cstr src).take n := by
  rw [CString.strncpy, List.drop_eq_nil_of_le (by omega), List.append_nil]
  have hz : (0 : UInt8) ∉ (cstr src).take n := fun hm =>
    cstr_not_mem_zero src (List.mem_of_mem_take hm)
  rw [List.take_append, List.take_replicate, cstr_append_replicate, cstr_eq_self hz]

/-- The array holds a terminator exactly if its string does not fill it. -/
theorem nul_iff {N : ℕ} (a : CharArray N) : (0 : UInt8) ∈ a.1 ↔ a.str.length < N := by
  have hlen := a.2
  have hpre : a.str <+: a.1 := List.takeWhile_prefix _
  constructor
  · intro hm
    by_contra hge
    have heq := hpre.eq_of_length (by have := hpre.length_le; omega)
    exact cstr_not_mem_zero a.1 (by rw [show cstr a.1 = a.1 from heq]; exact hm)
  · intro hlt
    by_contra hm
    have heq : a.str = a.1 := cstr_eq_self hm
    rw [heq] at hlt
    omega

/-! ### Tokens -/

theorem dropWhile_replicate (delim : UInt8) (n : ℕ) (s : List UInt8) :
    (List.replicate n delim ++ s).dropWhile (· == delim) = s.dropWhile (· == delim) :=
  List.dropWhile_append_of_pos fun b hb => by simp [List.eq_of_mem_replicate hb]

/-- Leading delimiters are skipped. -/
theorem strtok_replicate (delim : UInt8) (n : ℕ) (s : List UInt8) :
    strtok delim (List.replicate n delim ++ s) = strtok delim s := by
  rw [strtok, strtok, dropWhile_replicate]


/-- A word up to a delimiter or the end is the next token. -/
theorem strtok_word {delim : UInt8} {word rest : List UInt8} (hne : word ≠ []) (hword : delim ∉ word)
    (hrest : rest = [] ∨ ∃ t, rest = delim :: t) :
    strtok delim (word ++ rest) = some (word, rest.drop 1) := by
  have hall : ∀ b ∈ word, (b != delim) = true := by
    intro b hb
    rw [bne_iff_ne]
    rintro rfl
    exact hword hb
  have hstart : (word ++ rest).dropWhile (· == delim) = word ++ rest := by
    cases word with
    | nil => exact absurd rfl hne
    | cons b word =>
        have hb : (b != delim) = true := hall b List.mem_cons_self
        rw [bne_iff_ne] at hb
        simp [hb]
  have htake : (word ++ rest).takeWhile (· != delim) = word := by
    rw [List.takeWhile_append_of_pos hall]
    rcases hrest with rfl | ⟨t, rfl⟩ <;> simp
  have hdrop : (word ++ rest).dropWhile (· != delim) = rest := by
    rw [List.dropWhile_append_of_pos hall]
    rcases hrest with rfl | ⟨t, rfl⟩ <;> simp
  have hcons : ∃ b t, word ++ rest = b :: t := by
    cases word with
    | nil => exact absurd rfl hne
    | cons b word => exact ⟨b, word ++ rest, rfl⟩
  obtain ⟨b, t, hbt⟩ := hcons
  rw [strtok, hstart, hbt]
  simp only
  rw [← hbt, htake, hdrop]

/-- The second of two words with one delimiter between them. -/
theorem secondToken_words {delim : UInt8} {first second rest : List UInt8} (hfirst : first ≠ [])
    (hdelim : delim ∉ first) (hsecond : second ≠ []) (hdelim' : delim ∉ second)
    (hrest : rest = [] ∨ ∃ t, rest = delim :: t) :
    secondToken delim (first ++ delim :: (second ++ rest)) = some second := by
  rw [secondToken, strtok_word hfirst hdelim (.inr ⟨_, rfl⟩)]
  simp only [List.drop_succ_cons, List.drop_zero]
  rw [strtok_word hsecond hdelim' hrest]
  rfl

theorem CharArray.str_strncpy {N : ℕ} (dst : CharArray N) (src : List UInt8) :
    (dst.strncpy src N le_rfl).str = (cstr src).take N :=
  cstr_strncpy dst.1 src N dst.2

/-! ### Numbers -/

/-- `atol` of a decimal numeral in the range of a `long`. -/
theorem atol_numeral {v : List UInt8} (hne : v ≠ []) (hdigits : ∀ b ∈ v, isDigit b = true)
    (hsmall : decimal v < 2 ^ 31) : (atol v).1 = decimal v := by
  have hz : (0 : UInt8) ∉ v := fun hm => absurd (hdigits 0 hm) (by decide)
  obtain ⟨c, t, rfl⟩ := List.exists_cons_of_ne_nil hne
  have hc := hdigits c (by simp)
  have hspace : isSpace c = false := by
    cases hs : isSpace c with
    | false => rfl
    | true =>
        simp only [isSpace, isDigit, Bool.or_eq_true, Bool.and_eq_true, beq_iff_eq, decide_eq_true_eq,
          UInt8.le_iff_toNat_le] at hs hc
        rcases hs with rfl | hs
        · exact absurd hc.1 (by decide)
        · have h₁ : (48 : UInt8).toNat = 48 := rfl
          have h₂ : (13 : UInt8).toNat = 13 := rfl
          omega
  have htake : (c :: t).takeWhile isDigit = c :: t := List.takeWhile_eq_self_iff.mpr hdigits
  have hskip : (c :: t).dropWhile isSpace = c :: t :=
    List.dropWhile_cons_of_neg (by rw [hspace]; simp)
  rw [atol, cstr_eq_self hz, hskip]
  have hsat : (saturate (decimal (c :: t))).1 = decimal (c :: t) := by
    simp only [saturate]
    omega
  split
  · rename_i u heq
    rw [(List.cons.inj heq).1] at hc
    exact absurd hc (by decide)
  · rename_i u heq
    rw [(List.cons.inj heq).1] at hc
    exact absurd hc (by decide)
  · rw [htake, hsat]

end CString
