/-
# Numerals of a fixed width

A numeral system is a base with a character for each digit and the value of each character.
`write w n` is the numeral of `n` in `w` digits, filled up with zeros; `read w` takes `w` digits
off the front of a text.

* `read_write`: a numeral that is wide enough is read back, and nothing behind it.
-/
import Mathlib.Data.List.Basic
import Mathlib.Tactic.Ring

/-- The digits of a base. -/
structure Radix where
  base : Nat
  digit : Nat → Char
  value : Char → Option Nat
  pos : 0 < base
  value_digit : ∀ d < base, value (digit d) = some d

namespace Radix

/-! ## 1. Writing and reading -/

variable (b : Radix)

/-- `'%0wd'` and its like, for a number below `base ^ w`. -/
def write : Nat → Nat → List Char
  | 0, _ => []
  | w + 1, n => b.digit (n / b.base ^ w % b.base) :: write w n

def readFrom (acc : Nat) : Nat → List Char → Option (Nat × List Char)
  | 0, t => some (acc, t)
  | _ + 1, [] => none
  | w + 1, c :: t => (b.value c).bind fun d => readFrom (acc * b.base + d) w t

/-- Exactly `w` digits: their value, and the text behind them. -/
def read (w : Nat) (t : List Char) : Option (Nat × List Char) := b.readFrom 0 w t

def isDigit (c : Char) : Bool := (b.value c).isSome

/-! ## 2. The round trip -/

variable {b} {w n : Nat}

@[simp] theorem length_write : (b.write w n).length = w := by
  induction w with
  | zero => rfl
  | succ w ih => rw [write, List.length_cons, ih]

/-- A numeral is made of digits. -/
theorem mem_write {c : Char} (h : c ∈ b.write w n) : ∃ d < b.base, c = b.digit d := by
  induction w with
  | zero => exact absurd h List.not_mem_nil
  | succ w ih =>
    rcases List.mem_cons.mp h with hhead | htail
    · exact ⟨_, Nat.mod_lt _ b.pos, hhead⟩
    · exact ih htail

theorem isDigit_write {c : Char} (h : c ∈ b.write w n) : b.isDigit c = true := by
  obtain ⟨d, hd, rfl⟩ := mem_write h
  rw [isDigit, b.value_digit d hd]
  rfl

theorem readFrom_write (acc : Nat) (rest : List Char) :
    b.readFrom acc w (b.write w n ++ rest) = some (acc * b.base ^ w + n % b.base ^ w, rest) := by
  induction w generalizing acc with
  | zero => simp [write, readFrom, Nat.mod_one]
  | succ w ih =>
    have hvalue := b.value_digit _ (Nat.mod_lt (n / b.base ^ w) b.pos)
    have hmod : n % b.base ^ (w + 1) = n % b.base ^ w + b.base ^ w * (n / b.base ^ w % b.base) :=
      Nat.mod_pow_succ
    simp only [write, List.cons_append, readFrom, hvalue, Option.bind_some, ih, hmod]
    congr 2
    ring

/-- **A numeral that is wide enough is read back.** -/
theorem read_write (h : n < b.base ^ w) (rest : List Char) :
    b.read w (b.write w n ++ rest) = some (n, rest) := by
  rw [read, readFrom_write, Nat.mod_eq_of_lt h, Nat.zero_mul, Nat.zero_add]

/-! ## 3. Decimal and hexadecimal -/

/-- ASCII decimal digits. -/
def decimal : Radix where
  base := 10
  digit d := Char.ofNat (48 + d)
  value c := if '0' ≤ c ∧ c ≤ '9' then some (c.toNat - 48) else none
  pos := by decide
  value_digit := by decide

/-- Lower case digits are written, both cases are read. -/
def hex : Radix where
  base := 16
  digit d := if d < 10 then Char.ofNat (48 + d) else Char.ofNat (87 + d)
  value c :=
    if '0' ≤ c ∧ c ≤ '9' then some (c.toNat - 48)
    else if 'a' ≤ c ∧ c ≤ 'f' then some (c.toNat - 87)
    else if 'A' ≤ c ∧ c ≤ 'F' then some (c.toNat - 55)
    else none
  pos := by decide
  value_digit := by decide

end Radix
