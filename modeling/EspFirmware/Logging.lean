import EspFirmware.Lib.CString
import EspFirmware.Lib.Printf

/-!
# The log formatter

`_CT_LOG_PRINT` of `Logging.cpp` takes a format string apart by itself and prints each piece with
`Serial.print`, whose numbers are those of `Print.cpp`.  It reads one character after a `%`: `%ld` is
printed by its `l`, and the `d` is an ordinary character then.  For `%c` it prints an `int`.

* `printNumber`, `print` — the numbers of `Print.cpp`;
* `conversion`, `formatLoop`, `ctLogPrint` — the formatter, from when it holds the lock on;
* `formatLoop_items` — what it prints for the items of a format, piece by piece;
* `ctLogPrint_prints_iff` — it prints what `printf` prints exactly if there is no `%c` and no `%ld`.
-/

namespace EspFirmware

open CString Printf

/-! ### `Print.cpp` -/

/-- The loop of `Print::printNumber`, which writes the digits into a buffer from its end. -/
def printNumberLoop (base : ℕ) (hbase : 2 ≤ base) (n : ℕ) (str : List UInt8) : List UInt8 :=
  let c := n - base * (n / base)
  let str := (if c < 10 then c + 48 else c + 65 - 10).toUInt8 :: str
  if _h : n / base = 0 then str else printNumberLoop base hbase (n / base) str
termination_by n
decreasing_by
  refine Nat.div_lt_self (Nat.pos_of_ne_zero fun hn => _h ?_) hbase
  rw [hn, Nat.zero_div]

/-- `Print::printNumber`. -/
def printNumber (n : BitVec 32) (base : ℕ) : List UInt8 :=
  if h : base < 2 then printNumberLoop 10 (by decide) n.toNat []
  else printNumberLoop base (not_lt.mp h) n.toNat []

/-- `Print::print(long n, int base)`; the negation wraps. -/
def print (n : BitVec 32) (base : ℕ) : List UInt8 :=
  if base = 0 then [n.toNat.toUInt8]
  else if base = 10 then
    if n.toInt < 0 then 45 :: printNumber (-n) 10 else printNumber n 10
  else printNumber n base

/-- `DEC`, `HEX` and `BIN`. -/
def DEC : ℕ := 10

def HEX : ℕ := 16

def BIN : ℕ := 2

/-! ### `Logging.cpp` -/

/-- What a conversion that takes an `int` prints; without one `va_arg` is undefined. -/
def withInt (f : BitVec 32 → List UInt8) : List Arg → Option (List UInt8 × List Arg)
  | .int n :: args => some (f n, args)
  | _ => none

/-- What a conversion that takes a string prints. -/
def withStr (f : List UInt8 → List UInt8) : List Arg → Option (List UInt8 × List Arg)
  | .str s :: args => some (f s, args)
  | _ => none

/-- The tests on the character after a `%`: what is printed and the arguments that are left.  A character
that is none of them is printed itself. -/
def conversion (c : UInt8) (args : List Arg) : Option (List UInt8 × List Arg) :=
  if c = 37 then some ([37], args)
  else if c = 115 then withStr cstr args -- s
  else if c = 100 ∨ c = 105 then withInt (print · DEC) args -- d, i
  else if c = 120 then withInt (print · HEX) args -- x
  else if c = 88 then withInt (fun n => ascii "0x" ++ print n HEX) args -- X
  else if c = 98 then withInt (print · BIN) args -- b
  else if c = 66 then withInt (fun n => ascii "0b" ++ print n BIN) args -- B
  else if c = 108 then withInt (print · DEC) args -- l
  else if c = 99 then withInt (print · DEC) args -- c
  else if c = 116 then withInt (fun n => if n = 1 then ascii "T" else ascii "F") args -- t
  else if c = 84 then withInt (fun n => if n = 1 then ascii "true" else ascii "false") args -- T
  else some ([c], args)

/-- The loop through the format string. -/
def formatLoop : List UInt8 → List Arg → Option (List UInt8)
  | [], _ => some []
  | [b], _ => if b = 37 then some [] else some [b]
  | b :: c :: format, args =>
      if b = 37 then do
        let (out, args') ← conversion c args
        let text ← formatLoop format args'
        some (out ++ text)
      else do
        let text ← formatLoop (c :: format) args
        some (b :: text)

inductive LogLevel where
  | error | warn | info | debug | verbose
  deriving Repr, DecidableEq

/-- `LOG_LEVEL_ERROR` to `LOG_LEVEL_VERBOSE`. -/
def LogLevel.value : LogLevel → ℕ
  | .error => 1
  | .warn => 2
  | .info => 3
  | .debug => 4
  | .verbose => 5

/-- `CT_LOG_LEVEL` without `RELEASE_MODE`. -/
def ctLogLevel : ℕ := 4

/-- The colour and letter of a level. -/
def LogLevel.text : LogLevel → List UInt8
  | .error => ascii "\x1b[31mE "
  | .warn => ascii "\x1b[33mW "
  | .info => ascii "\x1b[32mI "
  | .debug => ascii "D "
  | .verbose => ascii "V "

/-- The level, and the tag unless it is null. -/
def tagPrefix (level : LogLevel) : Option (List UInt8) → List UInt8
  | none => level.text
  | some tag => level.text ++ cstr tag ++ ascii ": "

/-- `println` of the colour reset. -/
def colorReset : List UInt8 := ascii "\x1b[0m\r\n"

/-- `_CT_LOG_PRINT`: what is written to `Serial`. -/
def ctLogPrint (level : LogLevel) (tag : Option (List UInt8)) (format : List UInt8) (args : List Arg) :
    Option (List UInt8) :=
  if ctLogLevel < level.value then some []
  else do
    let text ← formatLoop (cstr format) args
    some (tagPrefix level tag ++ text ++ colorReset)

/-! ### Numbers -/

theorem digit_eq (n base : ℕ) :
    (if n - base * (n / base) < 10 then n - base * (n / base) + 48
      else n - base * (n / base) + 65 - 10).toUInt8 = digit upper (n % base) := by
  have hmod : n - base * (n / base) = n % base := by
    have hdiv := Nat.div_add_mod n base
    omega
  rw [hmod, digit, upper]
  congr 1
  split_ifs <;> omega

theorem printNumberLoop_eq {base : ℕ} (hbase : 2 ≤ base) (n : ℕ) (str : List UInt8) :
    printNumberLoop base hbase n str = numeral upper base n ++ str := by
  induction n using Nat.strong_induction_on generalizing str with
  | _ n ih =>
      rw [printNumberLoop]
      simp only [digit_eq]
      split
      · rename_i hq
        have hlt : n < base := by
          rcases (Nat.div_eq_zero_iff).mp hq with hzero | hlt
          · omega
          · exact hlt
        rw [numeral_of_lt hlt, Nat.mod_eq_of_lt hlt]
        rfl
      · rename_i hq
        have hle : base ≤ n := not_lt.mp fun hlt => hq (Nat.div_eq_of_lt hlt)
        have hlt : n / base < n := Nat.div_lt_self (by omega) hbase
        rw [ih (n / base) hlt, numeral_step (by omega) hle, List.append_assoc]
        rfl

theorem printNumber_eq (n : BitVec 32) {base : ℕ} (h : 2 ≤ base) :
    printNumber n base = numeral upper base n.toNat := by
  rw [printNumber, dif_neg (not_lt.mpr h), printNumberLoop_eq, List.append_nil]

/-- Decimal digits have no case. -/
theorem numeral_ten (letter letter' n : ℕ) : numeral letter 10 n = numeral letter' 10 n := by
  have hdigit : ∀ d < 10, digit letter d = digit letter' d := by
    intro d hd
    rw [digit, digit, if_pos hd, if_pos hd]
  rw [numeral, numeral, hdigit 0 (by decide)]
  split_ifs with hn
  · rfl
  · refine List.map_congr_left fun d hd => hdigit d ?_
    exact Nat.digits_lt_base (by decide) (List.mem_reverse.mp hd)

/-- `print` of a number in base ten is `%d`. -/
theorem print_dec (n : BitVec 32) : print n DEC = Item.signed n := by
  have hcond := BitVec.toInt_eq_toNat_cond n
  have hlt := n.isLt
  have hneg := BitVec.toNat_neg n
  rw [print, if_neg (by decide), if_pos (by decide), Item.signed, printNumber_eq _ (by decide),
    printNumber_eq _ (by decide), numeral_ten upper lower, numeral_ten upper lower]
  split_ifs with hn
  · have habs : (-n).toNat = n.toInt.natAbs := by
      rw [hneg]
      split_ifs at hcond <;> omega
    rw [habs]
  · have habs : n.toNat = n.toInt.natAbs := by
      split_ifs at hcond <;> omega
    rw [habs]

theorem print_hex (n : BitVec 32) : print n HEX = numeral upper 16 n.toNat := by
  rw [print, if_neg (by decide), if_neg (by decide)]
  exact printNumber_eq n (by decide)

theorem lowerCase_digit : ∀ d < 16, Item.lowerCase (digit upper d) = digit lower d := by decide

/-- `print` of a number in base sixteen is `%x` in upper case. -/
theorem lowerCase_numeral (n : ℕ) :
    (numeral upper 16 n).map Item.lowerCase = numeral lower 16 n := by
  rw [numeral, numeral]
  split_ifs with hn
  · rfl
  · rw [List.map_map]
    refine List.map_congr_left fun d hd => ?_
    exact lowerCase_digit d (Nat.digits_lt_base (by decide) (List.mem_reverse.mp hd))

/-! ### The pieces -/

/-- What the formatter prints for an item. -/
def piece : Item → List UInt8
  | .lit b _ => [b]
  | .percent => [37]
  | .s text _ => cstr text
  | .d n => print n DEC
  | .i n => print n DEC
  | .x n => print n HEX
  | .c n => print n DEC
  | .ld n => print n DEC ++ [100]

theorem bind_some_append (out : List UInt8) (x : Option (List UInt8)) :
    (x >>= fun text => some (out ++ text)) = x.map (out ++ ·) := by
  cases x <;> rfl

/-- A character other than `%`. -/
theorem formatLoop_lit {b : UInt8} (h : b ≠ 37) (format : List UInt8) (args : List Arg) :
    formatLoop (b :: format) args = (formatLoop format args).map ([b] ++ ·) := by
  cases format with
  | nil =>
      show (if b = 37 then some [] else some [b]) = _
      rw [if_neg h]
      rfl
  | cons c format =>
      show (if b = 37 then _ else _) = _
      rw [if_neg h]
      exact bind_some_append [b] _

/-- One item of a format. -/
theorem formatLoop_item (item : Item) (format : List UInt8) (args : List Arg) :
    formatLoop (item.format ++ format) (item.args ++ args)
      = (formatLoop format args).map (piece item ++ ·) := by
  cases item with
  | lit b h => exact formatLoop_lit h.2 format args
  | percent => exact bind_some_append [37] _
  | s text h => exact bind_some_append (cstr text) _
  | d n => exact bind_some_append (print n DEC) _
  | i n => exact bind_some_append (print n DEC) _
  | x n => exact bind_some_append (print n HEX) _
  | c n => exact bind_some_append (print n DEC) _
  | ld n =>
      -- the `d` is left in the format
      show (formatLoop (100 :: format) args >>= fun text => some (print n DEC ++ text)) = _
      rw [bind_some_append, formatLoop_lit (by decide), Option.map_map]
      congr 1
      funext text
      simp [piece]

theorem formatLoop_items (items : List Item) :
    formatLoop (Printf.format items) (Printf.args items) = some (items.map piece).flatten := by
  induction items with
  | nil => rfl
  | cons item items ih =>
      have hitem := formatLoop_item item (Printf.format items) (Printf.args items)
      rw [ih] at hitem
      exact hitem

theorem not_mem_format (items : List Item) : (0 : UInt8) ∉ Printf.format items := by
  rw [Printf.format, List.mem_flatMap]
  rintro ⟨item, -, hmem⟩
  cases item with
  | lit b h => exact h.1 (List.mem_singleton.mp hmem).symm
  | _ => exact absurd hmem (by simp [Item.format])

theorem ctLogPrint_items {level : LogLevel} (hlevel : level.value ≤ ctLogLevel)
    (tag : Option (List UInt8)) (items : List Item) :
    ctLogPrint level tag (Printf.format items) (Printf.args items)
      = some (tagPrefix level tag ++ (items.map piece).flatten ++ colorReset) := by
  rw [ctLogPrint, if_neg (not_lt.mpr hlevel), cstr_eq_self (not_mem_format items), formatLoop_items]
  rfl

/-! ### Where the pieces are those of `printf` -/

/-- A conversion of which the formatter makes something else. -/
def misprinted : Item → Bool
  | .c _ => true
  | .ld _ => true
  | _ => false

/-- Other items are printed as `printf` prints them. -/
theorem piece_prints {item : Item} (h : misprinted item = false) : item.Prints (piece item) := by
  cases item with
  | lit b hb => rfl
  | percent => rfl
  | s text hz => exact cstr_eq_self hz
  | d n => exact print_dec n
  | i n => exact print_dec n
  | x n =>
      show (print n HEX).map Item.lowerCase = numeral lower 16 n.toNat
      rw [print_hex, lowerCase_numeral]
  | c n => simp [misprinted] at h
  | ld n => simp [misprinted] at h

theorem signed_ne_nil (n : BitVec 32) : Item.signed n ≠ [] := by
  rw [Item.signed]
  split_ifs
  · simp
  · exact numeral_ne_nil _ _ _

/-- No piece is shorter than the text of `printf`. -/
theorem length_text_le (item : Item) : item.text.length ≤ (piece item).length := by
  cases item with
  | c n =>
      show 1 ≤ (print n DEC).length
      rw [print_dec]
      exact List.length_pos_of_ne_nil (signed_ne_nil n)
  | ld n =>
      show (Item.signed n).length ≤ (print n DEC ++ [100]).length
      rw [print_dec, List.length_append]
      omega
  | lit b hb => exact (piece_prints rfl).length_eq.ge
  | percent => exact (piece_prints rfl).length_eq.ge
  | s text hz => exact (piece_prints rfl).length_eq.ge
  | d n => exact (piece_prints rfl).length_eq.ge
  | i n => exact (piece_prints rfl).length_eq.ge
  | x n => exact (piece_prints rfl).length_eq.ge

/-- The number of a character is not the character: it has more than one digit, or its digit is another
character. -/
theorem signed_ne_char (n : BitVec 32) : Item.signed n ≠ [n.toNat.toUInt8] := by
  intro h
  rw [Item.signed] at h
  split_ifs at h with hneg
  · exact numeral_ne_nil _ _ _ (List.cons.inj h).2
  · have habs : n.toInt.natAbs = n.toNat := by
      have hcond := BitVec.toInt_eq_toNat_cond n
      have hlt := n.isLt
      split_ifs at hcond <;> omega
    rw [habs] at h
    by_cases hlt : n.toNat < 10
    · rw [numeral_of_lt hlt] at h
      have hdigits : ∀ k < 10, digit lower k ≠ k.toUInt8 := by decide
      exact hdigits _ hlt (List.cons.inj h).1
    · rw [numeral_step (by decide) (not_lt.mp hlt)] at h
      have hlen := congrArg List.length h
      simp only [List.length_append, List.length_singleton] at hlen
      have hpos := List.length_pos_of_ne_nil (numeral_ne_nil lower 10 (n.toNat / 10))
      omega

/-- A conversion that is misprinted is printed as something else. -/
theorem not_prints_piece {item : Item} (h : misprinted item = true) : ¬item.Prints (piece item) := by
  cases item with
  | c n =>
      intro hprints
      have heq : print n DEC = [n.toNat.toUInt8] := hprints
      rw [print_dec] at heq
      exact signed_ne_char n heq
  | ld n =>
      intro hprints
      have heq : print n DEC ++ [100] = Item.signed n := hprints
      rw [print_dec] at heq
      simp at heq
  | lit b hb => simp [misprinted] at h
  | percent => simp [misprinted] at h
  | s text hz => simp [misprinted] at h
  | d n => simp [misprinted] at h
  | i n => simp [misprinted] at h
  | x n => simp [misprinted] at h

/-- The pieces make up a text of `printf` only one by one. -/
theorem prints_pieces_iff (items : List Item) :
    Prints items (items.map piece).flatten ↔ ∀ item ∈ items, item.Prints (piece item) := by
  constructor
  · rintro ⟨pieces, hpieces, heq⟩
    have hle : List.Forall₂ (fun p q => p.length ≤ q.length) pieces (items.map piece) := by
      clear heq
      induction hpieces with
      | nil => exact .nil
      | @cons item p items ps hp _ ih =>
          have hlen := length_text_le item
          rw [← hp.length_eq] at hlen
          exact .cons hlen ih
    obtain rfl := pieces_eq hle heq.symm
    rw [List.forall₂_map_right_iff, List.forall₂_same] at hpieces
    exact hpieces
  · intro h
    refine ⟨items.map piece, ?_, rfl⟩
    rw [List.forall₂_map_right_iff, List.forall₂_same]
    exact h

/-- **The log formatter agrees with `printf` exactly without `%c` and `%ld`.**  For every format of
literal characters and the conversions, with any arguments that match: what stands between the tag and
the colour reset is what `printf` prints, up to the case of hexadecimal digits, if and only if none of the
conversions is a `%c` or a `%ld`. -/
theorem ctLogPrint_prints_iff {level : LogLevel} (hlevel : level.value ≤ ctLogLevel)
    (tag : Option (List UInt8)) (items : List Item) :
    (∃ text, ctLogPrint level tag (Printf.format items) (Printf.args items)
        = some (tagPrefix level tag ++ text ++ colorReset) ∧ Prints items text) ↔
      ∀ item ∈ items, misprinted item = false := by
  rw [ctLogPrint_items hlevel]
  constructor
  · rintro ⟨text, heq, hprints⟩
    have htext : (items.map piece).flatten = text := by
      have hcancel := List.append_cancel_right (Option.some.inj heq)
      exact List.append_cancel_left hcancel
    rw [← htext, prints_pieces_iff] at hprints
    intro item hmem
    by_contra hbad
    exact not_prints_piece (by simpa using hbad) (hprints item hmem)
  · intro hgood
    refine ⟨_, rfl, ?_⟩
    rw [prints_pieces_iff]
    exact fun item hmem => piece_prints (hgood item hmem)

/-- `"%d/%x"` at level info. -/
theorem ctLogPrint_prints_info :
    LogLevel.info.value ≤ ctLogLevel ∧
      ∃ text, ctLogPrint .info (some (ascii "MAIN")) (Printf.format [.d (-7), .lit 47 (by decide), .x 255])
          (Printf.args [.d (-7), .lit 47 (by decide), .x 255])
          = some (tagPrefix .info (some (ascii "MAIN")) ++ text ++ colorReset) ∧
        Prints [.d (-7), .lit 47 (by decide), .x 255] text :=
  have hlevel : LogLevel.info.value ≤ ctLogLevel := by decide
  ⟨hlevel, (ctLogPrint_prints_iff hlevel _ _).mpr (by simp [misprinted])⟩

/-- `"%ld"`, as the startup time is logged: a stray `d` follows the number. -/
theorem longDecimal_stray :
    Printf.format [.ld 250] = ascii "%ld" ∧ Printf.args [.ld 250] = [.int 250] ∧
      ctLogPrint .warn none (ascii "%ld") [.int 250]
        = some (tagPrefix .warn none ++ ascii "250d" ++ colorReset) ∧
      ¬∃ text, ctLogPrint .warn none (ascii "%ld") [.int 250]
          = some (tagPrefix .warn none ++ text ++ colorReset) ∧ Prints [.ld 250] text := by
  have hnumber : print 250 DEC = ascii "250" := by
    rw [print_dec]
    decide
  have hlog : ctLogPrint .warn none (ascii "%ld") [.int 250]
      = some (tagPrefix .warn none ++ ascii "250d" ++ colorReset) := by
    have hlevel : LogLevel.warn.value ≤ ctLogLevel := by decide
    have hitems := ctLogPrint_items hlevel none [.ld 250]
    rw [List.map_singleton, piece, hnumber] at hitems
    exact hitems
  refine ⟨rfl, rfl, hlog, ?_⟩
  rintro ⟨text, heq, pieces, hpieces, rfl⟩
  rw [hlog] at heq
  have htext := List.append_cancel_left (List.append_cancel_right (Option.some.inj heq))
  cases hpieces with
  | cons hp hrest =>
      cases hrest
      rw [show _ = Item.signed 250 from hp] at htext
      exact absurd htext (by decide)

end EspFirmware
