import Mathlib.Data.List.Forall2
import Mathlib.Data.Nat.Digits.Defs
import Mathlib.Tactic.Common

/-!
# The conversions of `printf`

A format is a list of items: literal characters, and conversions each with the argument it takes.  Its
format string and its argument list are read off the items, so every list of items is a format with a
matching list of arguments.  `int` and `long` have 32 bits.

* `numeral` — a number in a base, without leading zeros;
* `Item`, `format`, `args` — formats with their arguments;
* `Item.Prints`, `Prints` — what C prints for them, a hexadecimal digit in either case.
-/

namespace Printf

/-! ### Numerals -/

/-- The character of a digit; `letter` is the one of the digit ten. -/
def digit (letter d : ℕ) : UInt8 := (if d < 10 then 48 + d else letter + (d - 10)).toUInt8

def upper : ℕ := 65

def lower : ℕ := 97

/-- The number `n` in a base. -/
def numeral (letter base n : ℕ) : List UInt8 :=
  if n = 0 then [digit letter 0] else (Nat.digits base n).reverse.map (digit letter)

theorem numeral_of_lt {letter base n : ℕ} (h : n < base) : numeral letter base n = [digit letter n] := by
  by_cases hn : n = 0
  · rw [numeral, if_pos hn, hn]
  · rw [numeral, if_neg hn, Nat.digits_of_lt base n hn h]
    rfl

theorem numeral_step {letter base n : ℕ} (hb : 1 < base) (h : base ≤ n) :
    numeral letter base n = numeral letter base (n / base) ++ [digit letter (n % base)] := by
  have hn : n ≠ 0 := by omega
  have hq : n / base ≠ 0 := (Nat.div_pos h (by omega)).ne'
  rw [numeral, if_neg hn, numeral, if_neg hq, Nat.digits_def' hb (Nat.pos_of_ne_zero hn)]
  simp

theorem numeral_ne_nil (letter base n : ℕ) : numeral letter base n ≠ [] := by
  rw [numeral]
  split_ifs with hn
  · simp
  · simpa using fun h => hn (Nat.digits_eq_nil_iff_eq_zero.mp h)

/-! ### Formats -/

/-- An argument as it is passed. -/
inductive Arg where
  | int (n : BitVec 32)
  | str (s : List UInt8)
  deriving Repr, DecidableEq

/-- A literal character, `%%`, or a conversion with its argument. -/
inductive Item where
  | lit (b : UInt8) (h : b ≠ 0 ∧ b ≠ 37)
  | percent
  | s (text : List UInt8) (h : (0 : UInt8) ∉ text)
  | d (n : BitVec 32)
  | i (n : BitVec 32)
  | x (n : BitVec 32)
  | c (n : BitVec 32)
  | ld (n : BitVec 32)

namespace Item

/-- The characters of the item in the format string. -/
def format : Item → List UInt8
  | lit b _ => [b]
  | percent => [37, 37]
  | s _ _ => [37, 115]
  | d _ => [37, 100]
  | i _ => [37, 105]
  | x _ => [37, 120]
  | c _ => [37, 99]
  | ld _ => [37, 108, 100]

/-- The arguments the item takes. -/
def args : Item → List Arg
  | lit _ _ => []
  | percent => []
  | s text _ => [.str text]
  | d n => [.int n]
  | i n => [.int n]
  | x n => [.int n]
  | c n => [.int n]
  | ld n => [.int n]

/-- A signed number. -/
def signed (n : BitVec 32) : List UInt8 :=
  if n.toInt < 0 then 45 :: numeral lower 10 n.toInt.natAbs else numeral lower 10 n.toInt.natAbs

/-- The text C prints for the item. -/
def text : Item → List UInt8
  | lit b _ => [b]
  | percent => [37]
  | s text _ => text
  | d n => signed n
  | i n => signed n
  | x n => numeral lower 16 n.toNat
  | c n => [n.toNat.toUInt8]
  | ld n => signed n

/-- The lower case of a hexadecimal digit. -/
def lowerCase (b : UInt8) : UInt8 := if 65 ≤ b ∧ b ≤ 70 then b + 32 else b

/-- The item prints `t`, a hexadecimal digit in either case. -/
def Prints : Item → List UInt8 → Prop
  | x n, t => t.map lowerCase = (x n).text
  | item, t => t = item.text

theorem Prints.length_eq {item : Item} {t : List UInt8} (h : item.Prints t) :
    t.length = item.text.length := by
  cases item with
  | x n =>
      have hlen := congrArg List.length h
      rwa [List.length_map] at hlen
  | _ => exact congrArg List.length h

end Item

/-- The format string. -/
def format (items : List Item) : List UInt8 := items.flatMap Item.format

/-- The argument list. -/
def args (items : List Item) : List Arg := items.flatMap Item.args

/-- The items print `t`, one piece after another. -/
def Prints (items : List Item) (t : List UInt8) : Prop :=
  ∃ pieces, List.Forall₂ Item.Prints items pieces ∧ t = pieces.flatten

/-! ### Pieces of a text -/

theorem length_flatten_le {α : Type} {ps qs : List (List α)}
    (h : List.Forall₂ (fun p q => p.length ≤ q.length) ps qs) :
    ps.flatten.length ≤ qs.flatten.length := by
  induction h with
  | nil => exact le_rfl
  | cons hpq _ ih =>
      simp only [List.flatten_cons, List.length_append]
      omega

/-- Two ways to cut one text, where no piece of the first is longer than its partner, are the same. -/
theorem pieces_eq {α : Type} {ps qs : List (List α)}
    (h : List.Forall₂ (fun p q => p.length ≤ q.length) ps qs) (heq : ps.flatten = qs.flatten) :
    ps = qs := by
  induction h with
  | nil => rfl
  | @cons p q ps qs hpq hrest ih =>
      rw [List.flatten_cons, List.flatten_cons] at heq
      have hle := length_flatten_le hrest
      have htotal := congrArg List.length heq
      simp only [List.length_append] at htotal
      obtain ⟨hp, hps⟩ := List.append_inj heq (by omega)
      rw [hp, ih hps]

end Printf
