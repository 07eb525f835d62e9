import EspFirmware.Lib.CString

/-!
# The cells a computation touches

A pointer is an index into the bytes of memory from some address on.  A computation on them returns its
result with the list of the cells it has read or written; one that runs off the bytes has no result.  The
first `N` cells are an array, and a computation either returns after touching only these or touches another
one.  Which of the two it does is decided step by step, by the rules for `>>=`.

* `Traced` — a computation with the cells it touches;
* `Within`, `Leaves` — it returns inside the first `N` cells, or touches a cell behind them;
* `Refines` — it follows a fallible function that fails exactly where the array is left;
* `scanTo` — the loop that all reading functions of the C library are made of;
* `strtokAt`, `atoiAt` — `strtok` and `atoi` through a pointer;
* `FirstToken` — the three ways in which an array can end the search for a token.
-/

namespace Footprint

open CString

/-- A computation on memory: its result and the cells touched on the way to it. -/
inductive Traced (α : Type) where
  | done (x : α) (cells : List ℕ)
  | outside
  deriving Repr, DecidableEq

namespace Traced

variable {α β : Type}

/-- Cells already touched are put in front. -/
def after (cells : List ℕ) : Traced β → Traced β
  | .done y cells' => .done y (cells ++ cells')
  | .outside => .outside

instance : Monad Traced where
  pure x := .done x []
  bind run f :=
    match run with
    | .done x cells => after cells (f x)
    | .outside => .outside

/-- A read or a write of one cell. -/
def touch (p : ℕ) : Traced Unit := .done () [p]

/-- What a sequence of two computations returns and touches. -/
theorem of_bind_eq_done {run : Traced α} {f : α → Traced β} {y : β} {cells : List ℕ}
    (h : run >>= f = .done y cells) :
    ∃ x first second, run = .done x first ∧ f x = .done y second ∧ cells = first ++ second := by
  cases run with
  | outside => cases h
  | done x first =>
      change after first (f x) = .done y cells at h
      cases hf : f x with
      | outside =>
          rw [hf] at h
          cases h
      | done y' second =>
          rw [hf] at h
          cases h
          exact ⟨x, first, second, rfl, hf, rfl⟩

end Traced

section Rules

variable {α β : Type} {N : ℕ} {run : Traced α} {f : α → Traced β} {x : α} {y : β}

/-- The computation returns `x` and has touched cells below `N` only. -/
def Within (N : ℕ) (run : Traced α) (x : α) : Prop :=
  ∃ cells, run = .done x cells ∧ ∀ c ∈ cells, c < N

/-- The computation does not return before it has touched a cell from `N` on. -/
def Leaves (N : ℕ) (run : Traced α) : Prop :=
  ∀ x cells, run = .done x cells → ∃ c ∈ cells, N ≤ c

theorem Within.pure (x : α) : Within N (pure x) x := ⟨[], rfl, by simp⟩

theorem Within.touch {p : ℕ} (h : p < N) : Within N (Traced.touch p) () := by
  refine ⟨[p], rfl, fun c hc => ?_⟩
  rw [List.mem_singleton.mp hc]
  exact h

theorem Within.bind (hrun : Within N run x) (hf : Within N (f x) y) : Within N (run >>= f) y := by
  obtain ⟨first, rfl, hfirst⟩ := hrun
  obtain ⟨second, hy, hsecond⟩ := hf
  refine ⟨first ++ second, ?_, fun c hc => ?_⟩
  · show Traced.after first (f x) = _
    rw [hy]
    rfl
  · rcases List.mem_append.mp hc with hc | hc
    · exact hfirst c hc
    · exact hsecond c hc

theorem Leaves.outside : Leaves N (.outside : Traced α) := by
  intro x cells h
  cases h

theorem Leaves.touch {p : ℕ} (h : N ≤ p) : Leaves N (Traced.touch p) := by
  intro x cells heq
  cases heq
  exact ⟨p, List.mem_singleton_self p, h⟩

theorem Leaves.bind (hrun : Leaves N run) : Leaves N (run >>= f) := by
  intro y cells h
  obtain ⟨x, first, second, hx, -, rfl⟩ := Traced.of_bind_eq_done h
  obtain ⟨c, hc, hle⟩ := hrun x first hx
  exact ⟨c, List.mem_append_left _ hc, hle⟩

theorem Within.bind_leaves (hrun : Within N run x) (hf : Leaves N (f x)) : Leaves N (run >>= f) := by
  obtain ⟨first, rfl, -⟩ := hrun
  intro y cells h
  obtain ⟨x', first', second, hx, hy, rfl⟩ := Traced.of_bind_eq_done h
  cases hx
  obtain ⟨c, hc, hle⟩ := hf y second hy
  exact ⟨c, List.mem_append_right _ hc, hle⟩

theorem Within.unique {x' : α} (h : Within N run x) (h' : Within N run x') : x = x' := by
  obtain ⟨cells, rfl, -⟩ := h
  obtain ⟨cells', heq, -⟩ := h'
  cases heq
  rfl

theorem Leaves.not_within (h : Leaves N run) (x : α) : ¬Within N run x := by
  intro hw
  obtain ⟨cells, heq, hlt⟩ := hw
  obtain ⟨c, hc, hle⟩ := h x cells heq
  exact absurd (hlt c hc) hle.not_gt

/-- On the first `N` cells the computation is the function `spec`: where that returns, it stays inside
with a result in the relation `R`; where that fails, it leaves them. -/
def Refines {ε γ : Type} (N : ℕ) (R : α → γ → Prop) (run : Traced α) : Except ε γ → Prop
  | .ok z => ∃ x, Within N run x ∧ R x z
  | .error _ => Leaves N run

section Refinement

variable {ε γ δ : Type} {R : α → γ → Prop} {S : β → δ → Prop}

theorem Refines.pure {spec : γ} (h : R x spec) : Refines N R (Pure.pure x) (.ok spec : Except ε γ) :=
  ⟨x, Within.pure x, h⟩

theorem Refines.bind {spec : Except ε γ} {g : γ → Except ε δ} (hrun : Refines N R run spec)
    (hf : ∀ x z, R x z → Refines N S (f x) (g z)) : Refines N S (run >>= f) (spec >>= g) := by
  cases spec with
  | error e => exact Leaves.bind hrun
  | ok z =>
      obtain ⟨x, hx, hR⟩ := hrun
      have hnext := hf x z hR
      show Refines N S (run >>= f) (g z)
      cases hg : g z with
      | error e =>
          rw [hg] at hnext
          exact hx.bind_leaves hnext
      | ok u =>
          rw [hg] at hnext
          obtain ⟨y, hy, hS⟩ := hnext
          exact ⟨y, hx.bind hy, hS⟩

/-- A step inside the array that the function does not take. -/
theorem Within.refines {spec : Except ε δ} (hrun : Within N run x) (hf : Refines N S (f x) spec) :
    Refines N S (run >>= f) spec := by
  cases spec with
  | error e => exact hrun.bind_leaves hf
  | ok u =>
      obtain ⟨y, hy, hS⟩ := hf
      exact ⟨y, hrun.bind hy, hS⟩

/-- The computation returns inside the array exactly what the function returns. -/
theorem Refines.within_iff {spec : Except ε α} (h : Refines N (· = ·) run spec) (x : α) :
    Within N run x ↔ spec = .ok x := by
  cases spec with
  | error e =>
      constructor
      · intro hw
        exact absurd hw (Leaves.not_within h x)
      · intro heq
        cases heq
  | ok z =>
      obtain ⟨x', hx', rfl⟩ := h
      constructor
      · intro hw
        rw [hw.unique hx']
      · intro heq
        cases heq
        exact hx'

end Refinement

end Rules

/-! ### Scans -/

/-- The cell a scan stops at, and its byte. -/
structure Stop where
  cell : ℕ
  byte : UInt8
  deriving Repr, DecidableEq

/-- The bytes from the cell `p` on are read one after another, up to the first that stops the scan. -/
def scanTo (stop : UInt8 → Bool) : List UInt8 → ℕ → Traced Stop
  | [], _ => .outside
  | b :: s, p => do
      Traced.touch p
      if stop b then return ⟨p, b⟩ else scanTo stop s (p + 1)

section Scan

variable {N : ℕ} {stop : UInt8 → Bool}

/-- A scan stops at the first byte that stops it. -/
theorem scanTo_within {u : List UInt8} {b : UInt8} (hu : ∀ c ∈ u, stop c = false) (hb : stop b = true)
    (v : List UInt8) {p : ℕ} (hN : p + u.length < N) :
    Within N (scanTo stop (u ++ b :: v) p) ⟨p + u.length, b⟩ := by
  induction u generalizing p with
  | nil =>
      refine (Within.touch hN).bind ?_
      rw [if_pos hb]
      exact Within.pure _
  | cons a u ih =>
      rw [List.length_cons] at hN ⊢
      refine (Within.touch (by omega)).bind ?_
      rw [hu a List.mem_cons_self, if_neg Bool.false_ne_true,
        show p + (u.length + 1) = p + 1 + u.length by omega]
      exact ih (fun c hc => hu c (List.mem_cons_of_mem a hc)) (by omega)

/-- A scan that finds nothing to stop at in the array goes past its end. -/
theorem scanTo_leaves {u : List UInt8} (hu : ∀ c ∈ u, stop c = false) (v : List UInt8) {p : ℕ}
    (hN : N ≤ p + u.length) : Leaves N (scanTo stop (u ++ v) p) := by
  induction u generalizing p with
  | nil =>
      cases v with
      | nil => exact Leaves.outside
      | cons b v => exact (Leaves.touch hN).bind
  | cons a u ih =>
      rw [List.length_cons] at hN
      rcases Nat.lt_or_ge p N with hp | hp
      · refine (Within.touch hp).bind_leaves ?_
        rw [hu a List.mem_cons_self, if_neg Bool.false_ne_true]
        exact ih (fun c hc => hu c (List.mem_cons_of_mem a hc)) (by omega)
      · exact (Leaves.touch hp).bind

/-- A scan does not pass a byte that stops it. -/
theorem scanTo_upTo (stop : UInt8 → Bool) {b : UInt8} (hb : stop b = true) (s v : List UInt8) {p : ℕ}
    (hN : p + s.length < N) :
    ∃ k c, Within N (scanTo stop (s ++ b :: v) p) ⟨p + k, c⟩ ∧ (k < s.length ∨ k = s.length ∧ c = b) := by
  induction s generalizing p with
  | nil => exact ⟨0, b, scanTo_within (by simp) hb v hN, .inr ⟨rfl, rfl⟩⟩
  | cons a s ih =>
      cases ha : stop a with
      | true =>
          have hp : p < N := by omega
          exact ⟨0, a, scanTo_within (u := []) (by simp) ha _ hp, .inl (by simp)⟩
      | false =>
          rw [List.length_cons] at hN ⊢
          obtain ⟨k, c, hscan, hk⟩ := ih (p := p + 1) (by omega)
          refine ⟨k + 1, c, ?_, by grind⟩
          refine (Within.touch (show p < N by omega)).bind ?_
          rw [ha, if_neg Bool.false_ne_true, show p + (k + 1) = p + 1 + k by omega]
          exact hscan

end Scan

theorem drop_add_length {memory u t : List UInt8} {p : ℕ} (h : memory.drop p = u ++ t) :
    memory.drop (p + u.length) = t := by
  rw [← List.drop_drop, h, List.drop_left]

theorem drop_succ {memory t : List UInt8} {b : UInt8} {p : ℕ} (h : memory.drop p = b :: t) :
    memory.drop (p + 1) = t := drop_add_length (u := [b]) h

/-- A byte is overwritten. -/
theorem drop_set {memory u t : List UInt8} {b : UInt8} {p : ℕ} (h : memory.drop p = u ++ b :: t)
    (c : UInt8) : (memory.set (p + u.length) c).drop p = u ++ c :: t := by
  rw [List.drop_set, if_neg (by omega), h, Nat.add_sub_cancel_left, List.set_append_right _ _ le_rfl,
    Nat.sub_self, List.set_cons_zero]

/-! ### `atoi` -/

/-- `atoi(p)`: white space, a sign and digits, up to the first byte that is none of them. -/
def atoiAt (memory : List UInt8) (p : ℕ) : Traced Long := do
  let first ← scanTo (fun b => !isSpace b) (memory.drop p) p
  let digits := if first.byte = 45 ∨ first.byte = 43 then first.cell + 1 else first.cell
  let _ ← scanTo (fun b => !isDigit b) (memory.drop digits) digits
  return atol (memory.drop p)

/-- `atoi` of a string in the array stays in it. -/
theorem atoiAt_within {N p : ℕ} {memory s v : List UInt8} (hm : memory.drop p = s ++ 0 :: v)
    (hN : p + s.length < N) : Within N (atoiAt memory p) (atol s) := by
  have hvalue : atol (memory.drop p) = atol s := by
    rw [hm, atol, atol, cstr_append_nul]
  obtain ⟨k, c, hfirst, hk⟩ := scanTo_upTo (fun b => !isSpace b) (b := 0) rfl s v hN
  rw [← hm] at hfirst
  refine hfirst.bind ?_
  -- a sign is no terminator, so the digits start inside the string or at its end
  obtain ⟨j, hj, hdigits⟩ : ∃ j ≤ s.length,
      (if c = 45 ∨ c = 43 then p + k + 1 else p + k) = p + j := by
    by_cases hsign : c = 45 ∨ c = 43
    · have hc : c ≠ 0 := by
        rcases hsign with rfl | rfl <;> decide
      exact ⟨k + 1, by grind, if_pos hsign⟩
    · exact ⟨k, by omega, if_neg hsign⟩
  have hdrop : memory.drop (p + j) = s.drop j ++ 0 :: v := by
    rw [← List.drop_drop, hm, List.drop_append_of_le_length hj]
  obtain ⟨i, d, hscan, -⟩ := scanTo_upTo (fun b => !isDigit b) (b := 0) rfl (s.drop j) v (p := p + j)
    (N := N) (by rw [List.length_drop]; omega)
  rw [← hdrop] at hscan
  show Within N (scanTo _ (memory.drop (if c = 45 ∨ c = 43 then p + k + 1 else p + k))
    (if c = 45 ∨ c = 43 then p + k + 1 else p + k) >>= _) (atol s)
  rw [hdigits, hvalue]
  exact hscan.bind (Within.pure _)

/-! ### `strtok` -/

/-- What `strtok` leaves: the token it returns, the pointer it keeps for the next call, and memory. -/
structure Tok where
  token : Option ℕ
  lasts : Option ℕ
  memory : List UInt8
  deriving Repr, DecidableEq

/-- The bytes that end a token. -/
def endsToken (delim b : UInt8) : Bool := b == delim || b == 0

/-- The second loop of `strtok`, for a token that starts at `start`: a delimiter behind it is
overwritten. -/
def endToken (delim : UInt8) (memory : List UInt8) (start : ℕ) : Traced Tok := do
  let stop ← scanTo (endsToken delim) (memory.drop (start + 1)) (start + 1)
  if stop.byte = 0 then return ⟨some start, none, memory⟩
  else do
    Traced.touch stop.cell
    return ⟨some start, some (stop.cell + 1), memory.set stop.cell 0⟩

/-- `strtok(p, delim)`. -/
def strtokAt (delim : UInt8) (memory : List UInt8) (p : ℕ) : Traced Tok := do
  let start ← scanTo (· != delim) (memory.drop p) p
  if start.byte = 0 then return ⟨none, none, memory⟩ else endToken delim memory start.cell

/-- `strtok(NULL, delim)`. -/
def strtokNext (delim : UInt8) (tok : Tok) : Traced Tok :=
  match tok.lasts with
  | none => return ⟨none, none, tok.memory⟩
  | some p => strtokAt delim tok.memory p

/-- How the rest of an array ends the search for a token: it runs out, or there is a terminator, or a
delimiter behind the token. -/
inductive FirstToken (delim : UInt8) : List UInt8 → Prop
  | runsOut (n : ℕ) {word : List UInt8} (hword : ∀ b ∈ word, endsToken delim b = false) :
      FirstToken delim (List.replicate n delim ++ word)
  | atNul (n : ℕ) {word : List UInt8} (hword : ∀ b ∈ word, endsToken delim b = false)
      (v : List UInt8) : FirstToken delim (List.replicate n delim ++ (word ++ 0 :: v))
  | atDelim (n : ℕ) {word : List UInt8} (hword : ∀ b ∈ word, endsToken delim b = false)
      (hne : word ≠ []) (v : List UInt8) :
      FirstToken delim (List.replicate n delim ++ (word ++ delim :: v))

section Strtok

variable {N p : ℕ} {delim : UInt8}

theorem endsToken_eq_false {b : UInt8} : endsToken delim b = false ↔ b ≠ delim ∧ b ≠ 0 := by
  simp [endsToken]

/-- A byte before a delimiter is a token of its own, before anything else it joins the first one. -/
theorem FirstToken.cons {b : UInt8} (hb : endsToken delim b = false) {w : List UInt8}
    (h : FirstToken delim w) : FirstToken delim (b :: w) := by
  have hdelim : ∀ v, FirstToken delim (b :: delim :: v) := fun v =>
    FirstToken.atDelim 0 (List.forall_mem_singleton.mpr hb) (List.cons_ne_nil b []) v
  cases h with
  | runsOut n hword =>
      cases n with
      | zero => exact FirstToken.runsOut 0 (List.forall_mem_cons.mpr ⟨hb, hword⟩)
      | succ n => exact hdelim _
  | atNul n hword v =>
      cases n with
      | zero => exact FirstToken.atNul 0 (List.forall_mem_cons.mpr ⟨hb, hword⟩) v
      | succ n => exact hdelim _
  | atDelim n hword hne v =>
      cases n with
      | zero =>
          exact FirstToken.atDelim 0 (List.forall_mem_cons.mpr ⟨hb, hword⟩) (List.cons_ne_nil b _) v
      | succ n => exact hdelim _

/-- Every array is of one of the three kinds. -/
theorem firstToken (delim : UInt8) (w : List UInt8) : FirstToken delim w := by
  induction w with
  | nil => exact FirstToken.runsOut 0 (List.forall_mem_nil _)
  | cons b w ih =>
      by_cases hd : b = delim
      · rw [hd]
        cases ih with
        | runsOut n hword => exact FirstToken.runsOut (n + 1) hword
        | atNul n hword v => exact FirstToken.atNul (n + 1) hword v
        | atDelim n hword hne v => exact FirstToken.atDelim (n + 1) hword hne v
      · by_cases hz : b = 0
        · rw [hz]
          exact FirstToken.atNul 0 (List.forall_mem_nil _) w
        · exact ih.cons (endsToken_eq_false.mpr ⟨hd, hz⟩)

variable {memory word v : List UInt8} {n : ℕ} {b : UInt8}

theorem replicate_not_stop (delim : UInt8) (n : ℕ) :
    ∀ c ∈ List.replicate n delim, (c != delim) = false := by
  intro c hc
  simp [List.eq_of_mem_replicate hc]

/-- The first loop skips the delimiters. -/
theorem skip_within (hm : memory.drop p = List.replicate n delim ++ b :: v) (hb : b ≠ delim)
    (hN : p + n < N) : Within N (scanTo (· != delim) (memory.drop p) p) ⟨p + n, b⟩ := by
  have hscan := scanTo_within (replicate_not_stop delim n) (bne_iff_ne.mpr hb) v (p := p) (N := N)
    (by rw [List.length_replicate]; exact hN)
  rw [List.length_replicate, ← hm] at hscan
  exact hscan

theorem drop_skipped (hm : memory.drop p = List.replicate n delim ++ v) : memory.drop (p + n) = v := by
  have hdrop := drop_add_length hm
  rw [List.length_replicate] at hdrop
  exact hdrop

/-- At the first byte of a token `strtok` goes on with its second loop. -/
theorem strtokAt_word (hm : memory.drop p = List.replicate n delim ++ b :: v)
    (hb : endsToken delim b = false) (hN : p + n < N) :
    (∀ tok, Within N (endToken delim memory (p + n)) tok → Within N (strtokAt delim memory p) tok) ∧
      (Leaves N (endToken delim memory (p + n)) → Leaves N (strtokAt delim memory p)) := by
  obtain ⟨hbd, hbz⟩ := endsToken_eq_false.mp hb
  have hskip := skip_within hm hbd hN
  refine ⟨fun tok hend => hskip.bind ?_, fun hend => hskip.bind_leaves ?_⟩
  · show Within N (if b = 0 then _ else endToken delim memory (p + n)) tok
    rw [if_neg hbz]
    exact hend
  · show Leaves N (if b = 0 then _ else endToken delim memory (p + n))
    rw [if_neg hbz]
    exact hend

/-- Without a terminator or a delimiter behind the token, `strtok` leaves the array. -/
theorem strtokAt_leaves {behind : List UInt8}
    (hm : memory.drop p = List.replicate n delim ++ (word ++ behind))
    (hword : ∀ b ∈ word, endsToken delim b = false) (hN : p + (n + word.length) = N) :
    Leaves N (strtokAt delim memory p) := by
  cases word with
  | nil =>
      have hscan := scanTo_leaves (replicate_not_stop delim n) behind (p := p) (N := N)
        (by rw [List.length_replicate]; exact hN.ge)
      rw [List.nil_append] at hm
      rw [← hm] at hscan
      exact hscan.bind
  | cons b word =>
      rw [List.length_cons] at hN
      obtain ⟨hb, hrest⟩ := List.forall_mem_cons.mp hword
      apply (strtokAt_word hm hb (by omega)).2
      rw [endToken, drop_succ (drop_skipped hm)]
      exact (scanTo_leaves hrest behind (by omega)).bind

/-- At a terminator `strtok` ends with the token before it, if there is one. -/
theorem strtokAt_nul (hdelim : delim ≠ 0)
    (hm : memory.drop p = List.replicate n delim ++ (word ++ 0 :: v))
    (hword : ∀ b ∈ word, endsToken delim b = false) (hN : p + (n + word.length) < N) :
    Within N (strtokAt delim memory p) ⟨if word = [] then none else some (p + n), none, memory⟩ := by
  cases word with
  | nil =>
      refine (skip_within hm hdelim.symm hN).bind ?_
      exact Within.pure _
  | cons b word =>
      rw [List.length_cons] at hN
      obtain ⟨hb, hrest⟩ := List.forall_mem_cons.mp hword
      apply (strtokAt_word hm hb (by omega)).1
      rw [endToken, drop_succ (drop_skipped hm)]
      refine (scanTo_within hrest (by simp [endsToken]) v (by omega)).bind ?_
      exact Within.pure _

/-- At a delimiter `strtok` ends the token with a NUL and keeps the cell behind it. -/
theorem strtokAt_delim (hdelim : delim ≠ 0)
    (hm : memory.drop p = List.replicate n delim ++ (word ++ delim :: v)) (hne : word ≠ [])
    (hword : ∀ b ∈ word, endsToken delim b = false) (hN : p + (n + word.length) < N) :
    Within N (strtokAt delim memory p)
      ⟨some (p + n), some (p + (n + word.length) + 1), memory.set (p + (n + word.length)) 0⟩ := by
  cases word with
  | nil => exact absurd rfl hne
  | cons b word =>
      rw [List.length_cons] at hN ⊢
      obtain ⟨hb, hrest⟩ := List.forall_mem_cons.mp hword
      have hcell : p + (n + (word.length + 1)) = p + n + 1 + word.length := by omega
      rw [hcell] at hN ⊢
      apply (strtokAt_word hm hb (by omega)).1
      rw [endToken, drop_succ (drop_skipped hm)]
      refine (scanTo_within hrest (by simp [endsToken]) v hN).bind ?_
      show Within N (if delim = 0 then _ else _) _
      rw [if_neg hdelim]
      exact (Within.touch hN).bind (Within.pure _)

/-- A token that was ended with a NUL is a string in memory, and what is left stands behind it. -/
theorem drop_ended (hm : memory.drop p = List.replicate n delim ++ (word ++ delim :: v)) :
    (memory.set (p + (n + word.length)) 0).drop (p + n) = word ++ 0 :: v ∧
      (memory.set (p + (n + word.length)) 0).drop (p + (n + word.length) + 1) = v := by
  have htoken : (memory.set (p + (n + word.length)) 0).drop (p + n) = word ++ 0 :: v := by
    rw [← Nat.add_assoc]
    exact drop_set (drop_skipped hm) 0
  have hrest := drop_add_length htoken
  refine ⟨htoken, ?_⟩
  rw [← Nat.add_assoc] at hrest ⊢
  exact drop_succ hrest

end Strtok

end Footprint
