import EspFirmware.Lib.Restart
import EspFirmware.Logging
import EspFirmware.Stream

/-!
# Searching and reading numbers in a stream

`Stream::findUntil` looks for a text in what arrives, one byte at a time and without looking back.
`Stream::parseInt` reads a decimal number, and is the inverse of `Print::print`.

* `findUntil`, `find` — the search, with the zero byte that ends it;
* `findUntil_sound` — a text that is found is there, right in front of what is left;
* `find_complete_iff` — the texts of which `find` misses no occurrence;
* `parseInt` — the number, the characters before it and the one character that may stand between digits;
* `parseInt_print` — every `long` that is printed is read back.
-/

namespace EspFirmware

open CString Printf Restart

/-! ### `Stream::findUntil` -/

/-- The loop of `findUntil`. -/
def findLoop (target terminator : List UInt8) (index termIndex : ℕ) (s : List Arrival) :
    Bool × List Arrival :=
  match h : Arrival.timedRead s with
  | (none, s') => (false, s')
  | (some c, s') =>
      if c = 0 then (false, s')
      else
        -- start over if the character does not fit, and see whether it begins the target
        let index := if target[index]? = some c then index else 0
        let matched := target[index]? = some c
        let index := if matched then index + 1 else index
        if matched ∧ target.length ≤ index then (true, s')
        else if 0 < terminator.length ∧ terminator[termIndex]? = some c then
          if terminator.length ≤ termIndex + 1 then (false, s')
          else findLoop target terminator index (termIndex + 1) s'
        else findLoop target terminator index 0 s'
termination_by s.length
decreasing_by all_goals exact (Arrival.timedRead_some h).2

/-- `findUntil(target, targetLen, terminator, termLen)`. -/
def findUntil (target terminator : List UInt8) (s : List Arrival) : Bool × List Arrival :=
  if target.headD 0 = 0 then (true, s) else findLoop target terminator 0 0 s

/-- `find(target)`. -/
def find (target : List UInt8) (s : List Arrival) : Bool × List Arrival := findUntil (cstr target) [] s

/-- The bytes a search reads: up to a zero, a timeout or the end of the connection. -/
def searched : List Arrival → List UInt8
  | .byte b :: s => if b = 0 then [] else b :: searched s
  | .pause false :: s => searched s
  | _ => []

theorem searched_none {s s' : List Arrival} (h : Arrival.timedRead s = (none, s')) : searched s = [] := by
  induction s with
  | nil => rfl
  | cons a s ih =>
      cases a with
      | byte b => simp [Arrival.timedRead] at h
      | closed c => rfl
      | pause long =>
          cases long with
          | true => rfl
          | false => exact ih (by simpa [Arrival.timedRead] using h)

theorem searched_some {s s' : List Arrival} {c : UInt8} (h : Arrival.timedRead s = (some c, s')) :
    searched s = if c = 0 then [] else c :: searched s' := by
  induction s with
  | nil => simp [Arrival.timedRead] at h
  | cons a s ih =>
      cases a with
      | byte b =>
          obtain ⟨rfl, rfl⟩ : b = c ∧ s = s' := by simpa [Arrival.timedRead] using h
          rfl
      | closed c => simp [Arrival.timedRead] at h
      | pause long =>
          cases long with
          | true => simp [Arrival.timedRead] at h
          | false => exact ih (by simpa [Arrival.timedRead] using h)

/-- The two comparisons of the loop are one step of the matcher. -/
theorem index_eq_advance (target : List UInt8) (index : ℕ) (c : UInt8) :
    (if target[if target[index]? = some c then index else 0]? = some c then
      (if target[index]? = some c then index else 0) + 1
      else if target[index]? = some c then index else 0) = advance target index c := by
  unfold advance
  by_cases hnext : target[index]? = some c
  · simp [hnext]
  · simp [hnext]

theorem matched_iff {target : List UInt8} (hne : target ≠ []) (index : ℕ) (c : UInt8) :
    (target[if target[index]? = some c then index else 0]? = some c ∧
      target.length ≤ advance target index c) ↔ ¬advance target index c < target.length := by
  have hpos := List.length_pos_of_ne_nil hne
  constructor
  · exact fun h => Nat.not_lt.mpr h.2
  · intro hlt
    refine ⟨?_, Nat.not_lt.mp hlt⟩
    by_contra hnot
    rw [← index_eq_advance, if_neg hnot] at hlt
    by_cases hnext : target[index]? = some c
    · rw [if_pos hnext] at hnot
      exact hnot hnext
    · rw [if_neg hnext] at hlt
      exact hlt hpos

variable {target terminator : List UInt8} {index termIndex : ℕ} {s s' : List Arrival} {c : UInt8}

theorem findLoop_none (h : Arrival.timedRead s = (none, s')) :
    findLoop target terminator index termIndex s = (false, s') := by
  rw [findLoop]
  split
  · rename_i heq
    rw [h] at heq
    cases heq
    rfl
  · rename_i heq
    rw [h] at heq
    cases heq

theorem findLoop_zero (h : Arrival.timedRead s = (some 0, s')) :
    findLoop target terminator index termIndex s = (false, s') := by
  rw [findLoop]
  split
  · rename_i heq
    rw [h] at heq
    cases heq
  · rename_i heq
    rw [h] at heq
    cases heq
    rfl

/-- One round of the loop. -/
theorem findLoop_some (hne : target ≠ []) (h : Arrival.timedRead s = (some c, s')) (hc : c ≠ 0) :
    findLoop target terminator index termIndex s =
      if ¬advance target index c < target.length then (true, s')
      else if 0 < terminator.length ∧ terminator[termIndex]? = some c then
        if terminator.length ≤ termIndex + 1 then (false, s')
        else findLoop target terminator (advance target index c) (termIndex + 1) s'
      else findLoop target terminator (advance target index c) 0 s' := by
  rw [findLoop]
  split
  · rename_i heq
    rw [h] at heq
    cases heq
  · rename_i heq
    rw [h] at heq
    cases heq
    simp only [if_neg hc, index_eq_advance, matched_iff hne]

/-- The count is that of characters of the target that were read last. -/
theorem findLoop_sound (hne : target ≠ []) {u : List UInt8} (hindex : target.take index <:+ u)
    (h : findLoop target terminator index termIndex s = (true, s')) :
    ∃ v, searched s = v ++ searched s' ∧ target <:+ u ++ v := by
  induction hk : s.length using Nat.strong_induction_on generalizing s u index termIndex with
  | _ k ih =>
  subst hk
  rcases hread : Arrival.timedRead s with ⟨_ | c, t⟩
  · rw [findLoop_none hread] at h
    cases h
  by_cases hc : c = 0
  · rw [hc] at hread
    rw [findLoop_zero hread] at h
    cases h
  have hnext := take_advance_suffix (c := c) hindex
  have hlt := (Arrival.timedRead_some hread).2
  have hrest : ∀ {termIndex' : ℕ},
      findLoop target terminator (advance target index c) termIndex' t = (true, s') →
        ∃ v, searched s = v ++ searched s' ∧ target <:+ u ++ v := by
    intro termIndex' hloop
    obtain ⟨v, hv, hsuf⟩ := ih t.length hlt hnext hloop rfl
    refine ⟨c :: v, ?_, by simpa using hsuf⟩
    rw [searched_some hread, if_neg hc, hv]
    rfl
  rw [findLoop_some hne hread hc] at h
  split_ifs at h with hmatch hterm hend
  · cases h
  · exact hrest h
  · exact hrest h
  · obtain rfl : t = s' := congrArg Prod.snd h
    rw [List.take_of_length_le (Nat.not_lt.mp hmatch)] at hnext
    exact ⟨[c], by rw [searched_some hread, if_neg hc]; rfl, hnext⟩

/-- **A text that is found is there.**  Whatever the target, the terminator and the stream: what was read
ends with the target, and what is left comes right behind it. -/
theorem findUntil_sound (target terminator : List UInt8) (s : List Arrival)
    (h : (findUntil target terminator s).1 = true) :
    target.headD 0 = 0 ∨
      ∃ v, searched s = v ++ searched (findUntil target terminator s).2 ∧ target <:+ v := by
  by_cases hzero : target.headD 0 = 0
  · exact .inl hzero
  · right
    have hne : target ≠ [] := by
      rintro rfl
      exact hzero rfl
    rw [findUntil, if_neg hzero] at h ⊢
    obtain ⟨v, hv, hsuf⟩ := findLoop_sound hne (u := []) (by simp) (Prod.ext h rfl)
    exact ⟨v, hv, by simpa using hsuf⟩

/-- A colon found behind a short pause, before the end of the line. -/
theorem findUntil_sound_colon :
    (findUntil [58] [13] [.pause false, .byte 58, .byte 32, .byte 13]).1 = true ∧
      ∃ v : List UInt8, [58, 32, 13] = v ++ [32, 13] ∧ [58] <:+ v := by
  have hrun : findUntil [58] [13] [.pause false, .byte 58, .byte 32, .byte 13]
      = (true, [.byte 32, .byte 13]) := by
    rw [findUntil, if_neg (by decide), findLoop_some (by decide) rfl (by decide), if_pos (by decide)]
  have hsound := findUntil_sound [58] [13] [.pause false, .byte 58, .byte 32, .byte 13] (by rw [hrun])
  rw [hrun] at hsound ⊢
  exact ⟨rfl, hsound.resolve_left (by decide)⟩

/-! ### What `find` misses -/

/-- Without a terminator the loop is the matcher over what is searched. -/
theorem findLoop_eq_scan (hne : target ≠ []) (s : List Arrival) (index : ℕ) :
    (findLoop target [] index 0 s).1 = (scan target index (searched s)).isSome := by
  induction hk : s.length using Nat.strong_induction_on generalizing s index with
  | _ k ih =>
  subst hk
  rcases hread : Arrival.timedRead s with ⟨_ | c, t⟩
  · rw [findLoop_none hread, searched_none hread]
    rfl
  have hlt := (Arrival.timedRead_some hread).2
  rw [searched_some hread]
  by_cases hc : c = 0
  · rw [hc] at hread
    rw [findLoop_zero hread, if_pos hc]
    rfl
  · rw [findLoop_some hne hread hc, if_neg hc, scan]
    by_cases hmatch : advance target index c < target.length
    · rw [if_neg (not_not.mpr hmatch), if_neg (by simp), if_pos hmatch]
      exact ih t.length hlt t _ rfl
    · rw [if_pos hmatch, if_neg hmatch]
      rfl

theorem find_eq_scan {target : List UInt8} (hne : target ≠ []) (hzero : 0 ∉ target) (s : List Arrival) :
    (find target s).1 = (scan target 0 (searched s)).isSome := by
  have hhead : target.headD 0 ≠ 0 := by
    obtain ⟨b, bs, rfl⟩ := List.exists_cons_of_ne_nil hne
    intro hb
    exact hzero (by rw [← hb]; exact List.mem_cons_self)
  rw [find, cstr_eq_self hzero, findUntil, if_neg hhead]
  exact findLoop_eq_scan hne s 0

theorem searched_map_byte {w : List UInt8} (h : 0 ∉ w) : searched (w.map .byte) = w := by
  induction w with
  | nil => rfl
  | cons b w ih =>
      rw [List.mem_cons, not_or] at h
      rw [List.map_cons, searched, if_neg (Ne.symm h.1), ih h.2]

/-- **The texts of which `find` misses no occurrence.**  For every text: `find` finds it in every stream in
which it arrives, and only there, exactly if no proper border of a beginning of the text goes on otherwise
than that beginning.  An `aab` is missed in `aaab`. -/
theorem find_complete_iff (target : List UInt8) (hne : target ≠ []) (hzero : 0 ∉ target) :
    (∀ s, (find target s).1 = true ↔ target <:+: searched s) ↔ Restartable target := by
  rw [← scan_complete_iff hne]
  constructor
  · intro hall w hw hin hnone
    have hw0 : 0 ∉ w := fun h0 => hzero (hw 0 h0)
    have hfound := (hall (w.map .byte)).mpr (by rw [searched_map_byte hw0]; exact hin)
    rw [find_eq_scan hne hzero, searched_map_byte hw0, hnone] at hfound
    cases hfound
  · intro hall s
    have hr := (scan_complete_iff hne).mp hall
    rw [find_eq_scan hne hzero]
    constructor
    · intro hsome
      obtain ⟨rest, hscan⟩ := Option.isSome_iff_exists.mp hsome
      obtain ⟨v, hv, hsuf⟩ := scan_sound (u := []) (by simp) hscan
      rw [hv]
      exact List.infix_append_of_infix_left (by simpa using hsuf.isInfix)
    · exact fun hin => Option.isSome_iff_ne_none.mpr (scan_complete hr hne hin)

/-- The end of a response header is never missed. -/
theorem find_complete_iff_blankLine :
    Restartable [(13 : UInt8), 10, 13, 10] ∧
      ∀ s, (find [13, 10, 13, 10] s).1 = true ↔ [13, 10, 13, 10] <:+: searched s := by
  have hr : Restartable [(13 : UInt8), 10, 13, 10] := by decide
  exact ⟨hr, (find_complete_iff [13, 10, 13, 10] (by decide) (by decide)).mpr hr⟩

/-! ### `Stream::parseInt` -/

/-- `Stream::timedPeek`: the client's `peek` waits for the timeout itself, so the loop around it runs
once. -/
def timedPeek (s : List Arrival) : Option UInt8 × List Arrival := Arrival.peek s

theorem timedPeek_some {s s' : List Arrival} {c : UInt8} (h : timedPeek s = (some c, s')) :
    ∃ t, s' = .byte c :: t ∧ t.length < s.length := by
  induction s with
  | nil => simp [timedPeek, Arrival.peek] at h
  | cons a s ih =>
      cases a with
      | byte b =>
          obtain ⟨rfl, rfl⟩ : b = c ∧ .byte b :: s = s' := by simpa [timedPeek, Arrival.peek] using h
          exact ⟨s, rfl, by simp⟩
      | closed code => simp [timedPeek, Arrival.peek] at h
      | pause long =>
          cases long with
          | true => simp [timedPeek, Arrival.peek] at h
          | false =>
              obtain ⟨t, ht, hlt⟩ := ih (by simpa [timedPeek, Arrival.peek] using h)
              exact ⟨t, ht, by rw [List.length_cons]; omega⟩

/-- `peekNextDigit`. -/
def peekNextDigit (s : List Arrival) : Option UInt8 × List Arrival :=
  match _h : timedPeek s with
  | (none, s') => (none, s')
  | (some c, s') =>
      if c = 45 then (some c, s')
      else if isDigit c then (some c, s')
      else peekNextDigit (Arrival.read s').2
termination_by s.length
decreasing_by
  obtain ⟨t, rfl, hlt⟩ := timedPeek_some _h
  exact hlt

/-- `isNegative` and `value`, with the `long` as it wraps. -/
structure ParsedInt where
  isNegative : Bool
  value : BitVec 32
  deriving Repr, DecidableEq

/-- What the loop of `parseInt` does with one character. -/
def ParsedInt.add (skipChar : UInt8) (n : ParsedInt) (c : UInt8) : ParsedInt :=
  if c = skipChar then n
  else if c = 45 then { n with isNegative := true }
  else if isDigit c then { n with value := n.value * 10 + BitVec.ofNat 32 c.toNat - 48 }
  else n

/-- The loop of `parseInt`, with the character that was peeked. -/
def parseIntLoop (skipChar c : UInt8) (n : ParsedInt) (s : List Arrival) : ParsedInt × List Arrival :=
  match _h : timedPeek (Arrival.read s).2 with
  | (none, s') => (n.add skipChar c, s')
  | (some c', s') =>
      if isDigit c' ∨ c' = skipChar then parseIntLoop skipChar c' (n.add skipChar c) s'
      else (n.add skipChar c, s')
termination_by s.length
decreasing_by
  obtain ⟨t, rfl, hlt⟩ := timedPeek_some _h
  have hle : (Arrival.read s).2.length ≤ s.length - 1 := by
    cases s with
    | nil => simp [Arrival.read]
    | cons a s => cases a <;> simp [Arrival.read]
  rw [List.length_cons]
  omega

/-- `parseInt(skipChar)`. -/
def parseInt (skipChar : UInt8) (s : List Arrival) : BitVec 32 × List Arrival :=
  match peekNextDigit s with
  | (none, s') => (0, s')
  | (some c, s') =>
      let (n, s'') := parseIntLoop skipChar c ⟨false, 0⟩ s'
      (if n.isNegative then -n.value else n.value, s'')

/-- `NO_SKIP_CHAR`. -/
def noSkipChar : UInt8 := 1

/-! ### Characters that come in time -/

/-- The bytes that come before the first timeout. -/
def prompt : List Arrival → List UInt8
  | .byte b :: s => b :: prompt s
  | .pause false :: s => prompt s
  | _ => []

theorem timedPeek_prompt {s : List Arrival} {c : UInt8} {bs : List UInt8} (h : prompt s = c :: bs) :
    ∃ t, timedPeek s = (some c, .byte c :: t) ∧ prompt t = bs := by
  induction s with
  | nil => cases h
  | cons a s ih =>
      cases a with
      | byte b =>
          obtain ⟨rfl, rfl⟩ := List.cons.inj h
          exact ⟨s, rfl, rfl⟩
      | closed code => cases h
      | pause long =>
          cases long with
          | true => cases h
          | false => exact ih h

theorem timedPeek_prompt_nil {s : List Arrival} (h : prompt s = []) : ∃ s', timedPeek s = (none, s') := by
  induction s with
  | nil => exact ⟨[], rfl⟩
  | cons a s ih =>
      cases a with
      | byte b => cases h
      | closed code => exact ⟨s, rfl⟩
      | pause long =>
          cases long with
          | true => exact ⟨s, rfl⟩
          | false => exact ih h

theorem peekNextDigit_some {s s' : List Arrival} {c : UInt8} (h : timedPeek s = (some c, s')) :
    peekNextDigit s = if c = 45 then (some c, s') else if isDigit c then (some c, s')
      else peekNextDigit (Arrival.read s').2 := by
  rw [peekNextDigit]
  split
  · rename_i heq
    rw [h] at heq
    cases heq
  · rename_i heq
    rw [h] at heq
    cases heq
    rfl

/-- What stands before a number is skipped. -/
theorem peekNextDigit_prompt {junk bs : List UInt8} {c : UInt8}
    (hjunk : ∀ b ∈ junk, b ≠ 45 ∧ isDigit b = false) (hc : c = 45 ∨ isDigit c = true) {s : List Arrival}
    (h : prompt s = junk ++ c :: bs) :
    ∃ t, peekNextDigit s = (some c, .byte c :: t) ∧ prompt t = bs := by
  induction junk generalizing s with
  | nil =>
      obtain ⟨t, ht, hbs⟩ := timedPeek_prompt h
      refine ⟨t, ?_, hbs⟩
      rw [peekNextDigit_some ht]
      rcases hc with rfl | hc
      · rfl
      · rw [if_pos hc, ite_self]
  | cons b junk ih =>
      obtain ⟨t, ht, hbs⟩ := timedPeek_prompt h
      obtain ⟨hb, hdigit⟩ := hjunk b List.mem_cons_self
      obtain ⟨t', ht', hbs'⟩ := ih (fun d hd => hjunk d (List.mem_cons_of_mem _ hd)) hbs
      refine ⟨t', ?_, hbs'⟩
      rw [peekNextDigit_some ht, if_neg hb, if_neg (by simp [hdigit])]
      exact ht'

section Loop

variable {skipChar c d : UInt8} {n : ParsedInt} {t s' : List Arrival}

theorem parseIntLoop_none (h : timedPeek t = (none, s')) :
    parseIntLoop skipChar c n (.byte c :: t) = (n.add skipChar c, s') := by
  rw [parseIntLoop]
  split
  · rename_i heq
    rw [show (Arrival.read (.byte c :: t)).2 = t from rfl, h] at heq
    cases heq
    rfl
  · rename_i heq
    rw [show (Arrival.read (.byte c :: t)).2 = t from rfl, h] at heq
    cases heq

theorem parseIntLoop_some (h : timedPeek t = (some d, s')) :
    parseIntLoop skipChar c n (.byte c :: t) =
      if isDigit d ∨ d = skipChar then parseIntLoop skipChar d (n.add skipChar c) s'
      else (n.add skipChar c, s') := by
  rw [parseIntLoop]
  split
  · rename_i heq
    rw [show (Arrival.read (.byte c :: t)).2 = t from rfl, h] at heq
    cases heq
  · rename_i heq
    rw [show (Arrival.read (.byte c :: t)).2 = t from rfl, h] at heq
    cases heq
    rfl

/-- Digits are taken up to the first character that is none. -/
theorem parseIntLoop_prompt {ds tail : List UInt8} (hds : ∀ e ∈ ds, isDigit e = true)
    (htail : ∀ e ∈ tail.head?, isDigit e = false ∧ e ≠ skipChar) (h : prompt t = ds ++ tail) :
    ∃ s', parseIntLoop skipChar c n (.byte c :: t) = ((c :: ds).foldl (ParsedInt.add skipChar) n, s') ∧
      (tail ≠ [] → prompt s' = tail) := by
  induction ds generalizing c n t with
  | nil =>
      cases tail with
      | nil =>
          obtain ⟨s', hs'⟩ := timedPeek_prompt_nil h
          exact ⟨s', parseIntLoop_none hs', by simp⟩
      | cons e tail =>
          obtain ⟨t', ht', hbs⟩ := timedPeek_prompt h
          obtain ⟨hdigit, hskip⟩ := htail e rfl
          refine ⟨.byte e :: t', ?_, fun _ => by rw [prompt, hbs]⟩
          rw [parseIntLoop_some ht', if_neg (by simp [hdigit, hskip])]
          rfl
  | cons e ds ih =>
      obtain ⟨t', ht', hbs⟩ := timedPeek_prompt h
      have hdigit := hds e List.mem_cons_self
      obtain ⟨s', hs', htail'⟩ := ih (fun f hf => hds f (List.mem_cons_of_mem _ hf)) (c := e)
        (n := n.add skipChar c) hbs
      refine ⟨s', ?_, htail'⟩
      rw [parseIntLoop_some ht', if_pos (.inl hdigit)]
      exact hs'

end Loop

/-! ### Reading back what was printed -/

theorem isDigit_digit : ∀ d < 10, isDigit (digit upper d) = true ∧ (digit upper d).toNat = 48 + d ∧
    digit upper d ≠ 45 ∧ digit upper d ≠ noSkipChar := by decide

theorem numeral_isDigit (n : ℕ) : ∀ c ∈ numeral upper 10 n, isDigit c = true := by
  intro c hc
  rw [numeral] at hc
  split_ifs at hc with hn
  · rw [List.mem_singleton.mp hc]
    decide
  · obtain ⟨d, hd, rfl⟩ := List.mem_map.mp hc
    exact (isDigit_digit d (Nat.digits_lt_base (by decide) (List.mem_reverse.mp hd))).1

theorem add_digit (neg : Bool) (m d : ℕ) (hd : d < 10) :
    ParsedInt.add noSkipChar ⟨neg, BitVec.ofNat 32 m⟩ (digit upper d) = ⟨neg, BitVec.ofNat 32 (m * 10 + d)⟩ := by
  obtain ⟨hdigit, hvalue, hminus, hskip⟩ := isDigit_digit d hd
  rw [ParsedInt.add, if_neg hskip, if_neg hminus, if_pos hdigit, hvalue]
  congr 1
  apply BitVec.eq_of_toNat_eq
  have hten : (10 : BitVec 32).toNat = 10 := rfl
  have hzero : (48 : BitVec 32).toNat = 48 := rfl
  simp only [BitVec.toNat_sub, BitVec.toNat_add, BitVec.toNat_mul, BitVec.toNat_ofNat, hten, hzero]
  omega

/-- The digits of a number give the number. -/
theorem foldl_numeral (neg : Bool) (m : ℕ) :
    (numeral upper 10 m).foldl (ParsedInt.add noSkipChar) ⟨neg, 0⟩ = ⟨neg, BitVec.ofNat 32 m⟩ := by
  induction m using Nat.strong_induction_on with
  | _ m ih =>
      by_cases hm : m < 10
      · rw [numeral_of_lt hm]
        have hadd := add_digit neg 0 m hm
        rw [Nat.zero_mul, Nat.zero_add] at hadd
        exact hadd
      · have hlt : m / 10 < m := by omega
        rw [numeral_step (by decide) (by omega), List.foldl_append, ih _ hlt]
        have hadd := add_digit neg (m / 10) (m % 10) (Nat.mod_lt _ (by decide))
        rw [Nat.div_add_mod' m 10] at hadd
        exact hadd

/-- **Every `long` that is printed is read back.**  Whatever stands before it, as long as it is no digit and
no minus sign, and whatever comes after it, as long as it is no digit and not the byte 1 that stands for no
skipped character; the reader stops right behind the number.  In time means that no wait for a byte outlasts
the stream timeout. -/
theorem parseInt_print (n : BitVec 32) (junk tail : List UInt8) (s : List Arrival)
    (h : prompt s = junk ++ print n DEC ++ tail) (hjunk : ∀ b ∈ junk, b ≠ 45 ∧ isDigit b = false)
    (htail : ∀ b ∈ tail.head?, isDigit b = false ∧ b ≠ noSkipChar) :
    (parseInt noSkipChar s).1 = n ∧ (tail ≠ [] → prompt (parseInt noSkipChar s).2 = tail) := by
  rw [print, if_neg (by decide), if_pos (by decide), printNumber_eq _ (by decide),
    printNumber_eq _ (by decide), List.append_assoc] at h
  split_ifs at h with hneg
  · obtain ⟨t, hnext, hrest⟩ := peekNextDigit_prompt hjunk (.inl rfl) h
    obtain ⟨s', hloop, hs'⟩ := parseIntLoop_prompt (c := 45) (n := ⟨false, 0⟩)
      (numeral_isDigit (-n).toNat) htail hrest
    have hminus : ParsedInt.add noSkipChar ⟨false, 0⟩ 45 = ⟨true, 0⟩ := by decide
    simp only [parseInt, hnext, hloop, List.foldl_cons, hminus, foldl_numeral, if_true]
    rw [BitVec.ofNat_toNat, BitVec.setWidth_eq, BitVec.neg_neg]
    exact ⟨rfl, hs'⟩
  · obtain ⟨c, ds, hds⟩ := List.exists_cons_of_ne_nil (numeral_ne_nil upper 10 n.toNat)
    have hdigits := numeral_isDigit n.toNat
    have hvalue := foldl_numeral false n.toNat
    rw [hds] at h hdigits hvalue
    obtain ⟨t, hnext, hrest⟩ := peekNextDigit_prompt hjunk (.inr (hdigits c List.mem_cons_self)) h
    obtain ⟨s', hloop, hs'⟩ := parseIntLoop_prompt (c := c) (n := ⟨false, 0⟩)
      (fun d hd => hdigits d (List.mem_cons_of_mem _ hd)) htail hrest
    simp only [parseInt, hnext, hloop, hvalue]
    rw [BitVec.ofNat_toNat, BitVec.setWidth_eq]
    exact ⟨rfl, hs'⟩

/-- The smallest `long`, whose amount is no `long`, behind a space and with a pause after the sign. -/
theorem parseInt_print_smallest :
    (parseInt noSkipChar (.byte 32 :: .byte 45 :: .pause false ::
      ((ascii "2147483648;").map .byte))).1 = -2147483648 := by
  have hprompt : prompt (.byte 32 :: .byte 45 :: .pause false :: ((ascii "2147483648;").map .byte))
      = [32] ++ print (-2147483648) DEC ++ [59] := by
    rw [print_dec]
    decide
  exact (parseInt_print (-2147483648) [32] [59] _ hprompt (by simp [isDigit])
    (by simp [isDigit, noSkipChar])).1

end EspFirmware
