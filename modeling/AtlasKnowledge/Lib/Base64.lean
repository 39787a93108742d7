/-
# URL-safe base64

The encoder of `base64.urlsafe_b64encode` and the lenient decoder behind
`base64.urlsafe_b64decode`: characters outside the alphabet are skipped, `+` and `/` are read as
`-` and `_`, and padding that completes a group of four ends the text.

* `decode_encode`: what was encoded is decoded to itself.
-/
import Mathlib.Data.List.Basic

namespace Base64

/-! ## 1. The alphabet -/

/-- The character of a group of six bits. -/
def digit (v : Nat) : Char :=
  if v < 26 then Char.ofNat (65 + v)
  else if v < 52 then Char.ofNat (71 + v)
  else if v < 62 then Char.ofNat (v - 4)
  else if v = 62 then '-' else '_'

/-- The six bits of a character, or `none` outside the alphabet. -/
def value (c : Char) : Option Nat :=
  if 'A' ≤ c ∧ c ≤ 'Z' then some (c.toNat - 65)
  else if 'a' ≤ c ∧ c ≤ 'z' then some (c.toNat - 71)
  else if '0' ≤ c ∧ c ≤ '9' then some (c.toNat + 4)
  else if c = '-' ∨ c = '+' then some 62
  else if c = '_' ∨ c = '/' then some 63
  else none

/-! ## 2. The codec -/

/-- `urlsafe_b64encode`. -/
def encode : List UInt8 → List Char
  | [] => []
  | [a] => [digit (a.toNat / 4), digit (a.toNat % 4 * 16), '=', '=']
  | [a, b] =>
    [digit (a.toNat / 4), digit (a.toNat % 4 * 16 + b.toNat / 16), digit (b.toNat % 16 * 4), '=']
  | a :: b :: c :: rest =>
    digit (a.toNat / 4) :: digit (a.toNat % 4 * 16 + b.toNat / 16) ::
      digit (b.toNat % 16 * 4 + c.toNat / 64) :: digit (c.toNat % 64) :: encode rest

/-- What the decoder keeps between two characters: the position in the group of four, the bits
not yet written, and the padding seen since the last character of the alphabet. -/
structure Quad where
  pos : Nat := 0
  left : Nat := 0
  pads : Nat := 0

/-- A character of the alphabet: the byte it completes, and what is kept. -/
def Quad.push (q : Quad) (v : Nat) : List UInt8 × Quad :=
  match q.pos with
  | 0 => ([], { pos := 1, left := v })
  | 1 => ([UInt8.ofNat (q.left * 4 + v / 16)], { pos := 2, left := v % 16 })
  | 2 => ([UInt8.ofNat (q.left * 16 + v / 4)], { pos := 3, left := v % 4 })
  | _ => ([UInt8.ofNat (q.left * 64 + v)], {})

/-- The loop of `a2b_base64`; `none` is a `binascii.Error`. -/
def decodeFrom (q : Quad) : List Char → Option (List UInt8)
  | [] => if q.pos = 0 then some [] else none
  | c :: cs =>
    if c = '=' then
      if 2 ≤ q.pos ∧ 4 ≤ q.pos + (q.pads + 1) then some []
      else decodeFrom { q with pads := if 2 ≤ q.pos then q.pads + 1 else q.pads } cs
    else
      match value c with
      | none => decodeFrom q cs
      | some v => (decodeFrom (q.push v).2 cs).map ((q.push v).1 ++ ·)

/-- `urlsafe_b64decode`. -/
def decode (s : List Char) : Option (List UInt8) := decodeFrom {} s

/-! ## 3. The round trip -/

/-- Every group of six bits comes back, and none of them is the padding. -/
theorem value_digit {v : Nat} (h : v < 64) : value (digit v) = some v ∧ digit v ≠ '=' := by
  have hall : ∀ v : Fin 64, value (digit v) = some v.val ∧ digit v ≠ '=' := by decide
  exact hall ⟨v, h⟩

/-- The decoder on a character the encoder wrote. -/
theorem decodeFrom_digit (q : Quad) {v : Nat} (h : v < 64) (cs : List Char) :
    decodeFrom q (digit v :: cs) = (decodeFrom (q.push v).2 cs).map ((q.push v).1 ++ ·) := by
  obtain ⟨hvalue, hne⟩ := value_digit h
  rw [decodeFrom, if_neg hne, hvalue]

/-- The encoder writes ASCII. -/
theorem digit_ascii {v : Nat} (h : v < 64) : (digit v).toNat < 128 := by
  have hall : ∀ v : Fin 64, (digit v).toNat < 128 := by decide
  exact hall ⟨v, h⟩

theorem encode_ascii (bs : List UInt8) : ∀ c ∈ encode bs, c.toNat < 128 := by
  have hpad : ('=' : Char).toNat < 128 := by decide
  induction bs using encode.induct with
  | case1 => simp [encode]
  | case2 a =>
    have ha := a.toNat_lt
    simp only [encode, List.forall_mem_cons]
    exact ⟨digit_ascii (by omega), digit_ascii (by omega), hpad, hpad, by simp⟩
  | case3 a b =>
    have ha := a.toNat_lt
    have hb := b.toNat_lt
    simp only [encode, List.forall_mem_cons]
    exact ⟨digit_ascii (by omega), digit_ascii (by omega), digit_ascii (by omega), hpad, by simp⟩
  | case4 a b c rest ih =>
    have ha := a.toNat_lt
    have hb := b.toNat_lt
    have hc := c.toNat_lt
    simp only [encode, List.forall_mem_cons]
    exact ⟨digit_ascii (by omega), digit_ascii (by omega), digit_ascii (by omega),
      digit_ascii (by omega), ih⟩

theorem ofNat_of_eq {a : UInt8} {n : Nat} (h : n = a.toNat) : UInt8.ofNat n = a := by
  rw [h, UInt8.ofNat_toNat]

/-- **What was encoded is decoded to itself.**  The cases are the encoder's: a full group of
three bytes leaves the decoder where it began, a shorter one is completed by its padding. -/
theorem decode_encode (bs : List UInt8) : decode (encode bs) = some bs := by
  unfold decode
  induction bs using encode.induct with
  | case1 => rfl
  | case2 a =>
    have ha := a.toNat_lt
    have hbyte : UInt8.ofNat (a.toNat / 4 * 4 + a.toNat % 4 * 16 / 16) = a :=
      ofNat_of_eq (by omega)
    rw [encode, decodeFrom_digit _ (by omega), decodeFrom_digit _ (by omega)]
    simp only [Quad.push, decodeFrom, hbyte]
    rfl
  | case3 a b =>
    have ha := a.toNat_lt
    have hb := b.toNat_lt
    have hfirst : UInt8.ofNat (a.toNat / 4 * 4 + (a.toNat % 4 * 16 + b.toNat / 16) / 16) = a :=
      ofNat_of_eq (by omega)
    have hsecond : UInt8.ofNat ((a.toNat % 4 * 16 + b.toNat / 16) % 16 * 16 +
        b.toNat % 16 * 4 / 4) = b := ofNat_of_eq (by omega)
    rw [encode, decodeFrom_digit _ (by omega), decodeFrom_digit _ (by omega),
      decodeFrom_digit _ (by omega)]
    simp only [Quad.push, decodeFrom, hfirst, hsecond]
    rfl
  | case4 a b c rest ih =>
    have ha := a.toNat_lt
    have hb := b.toNat_lt
    have hc := c.toNat_lt
    have hfirst : UInt8.ofNat (a.toNat / 4 * 4 + (a.toNat % 4 * 16 + b.toNat / 16) / 16) = a :=
      ofNat_of_eq (by omega)
    have hsecond : UInt8.ofNat ((a.toNat % 4 * 16 + b.toNat / 16) % 16 * 16 +
        (b.toNat % 16 * 4 + c.toNat / 64) / 4) = b := ofNat_of_eq (by omega)
    have hthird : UInt8.ofNat ((b.toNat % 16 * 4 + c.toNat / 64) % 4 * 64 + c.toNat % 64) = c :=
      ofNat_of_eq (by omega)
    rw [encode, decodeFrom_digit _ (by omega), decodeFrom_digit _ (by omega),
      decodeFrom_digit _ (by omega), decodeFrom_digit _ (by omega)]
    simp only [Quad.push, hfirst, hsecond, hthird, ih]
    rfl

end Base64
