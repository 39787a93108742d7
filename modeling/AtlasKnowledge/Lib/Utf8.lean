/-
# Decoding UTF-8 in pieces

A decoder that is fed one byte at a time and keeps what it needs between two bytes: how many
bytes the character still lacks, between which bounds the next one must lie, and the bits it has
seen.  A byte that does not fit ends the character with U+FFFD and is read again as a first byte.

* `decode_append`: where the bytes are cut makes no difference;
* `decode_encode`: the encoding of a text is decoded to that text, with nothing left over;
* `toNat_of_mem`: an ASCII byte in an encoding is an ASCII character.
-/
import Mathlib.Data.List.Basic

namespace Utf8

/-! ## 1. The decoder -/

/-- What the decoder keeps between two bytes. -/
structure Decoder where
  needed : Nat := 0
  lower : Nat := 0x80
  upper : Nat := 0xBF
  codePoint : Nat := 0
  deriving DecidableEq, Repr

/-- U+FFFD. -/
def replacement : Char := Char.ofNat 0xFFFD

/-- A byte between two characters. -/
def first (n : Nat) : Decoder × List Char :=
  if n ≤ 0x7F then ({}, [Char.ofNat n])
  else if 0xC2 ≤ n ∧ n ≤ 0xDF then ({ needed := 1, codePoint := n - 0xC0 }, [])
  else if 0xE0 ≤ n ∧ n ≤ 0xEF then
    ({ needed := 2, lower := if n = 0xE0 then 0xA0 else 0x80,
       upper := if n = 0xED then 0x9F else 0xBF, codePoint := n - 0xE0 }, [])
  else if 0xF0 ≤ n ∧ n ≤ 0xF4 then
    ({ needed := 3, lower := if n = 0xF0 then 0x90 else 0x80,
       upper := if n = 0xF4 then 0x8F else 0xBF, codePoint := n - 0xF0 }, [])
  else ({}, [replacement])

/-- A byte inside a character. -/
def next (d : Decoder) (n : Nat) : Decoder × List Char :=
  if d.lower ≤ n ∧ n ≤ d.upper then
    let codePoint := d.codePoint * 64 + (n - 0x80)
    if d.needed = 1 then ({}, [Char.ofNat codePoint])
    else ({ needed := d.needed - 1, codePoint := codePoint }, [])
  else ((first n).1, replacement :: (first n).2)

/-- One byte. -/
def push (d : Decoder) (b : UInt8) : Decoder × List Char :=
  if d.needed = 0 then first b.toNat else next d b.toNat

/-- The bytes, one after the other. -/
def decode (d : Decoder) : List UInt8 → Decoder × List Char
  | [] => (d, [])
  | b :: bs =>
    let r := push d b
    let rest := decode r.1 bs
    (rest.1, r.2 ++ rest.2)

/-- `str.encode("utf-8")`. -/
def encode (text : List Char) : List UInt8 := text.flatMap String.utf8EncodeChar

/-! ## 2. Cuts -/

/-- **Where the bytes are cut makes no difference.** -/
theorem decode_append (d : Decoder) (xs ys : List UInt8) :
    decode d (xs ++ ys) =
      ((decode (decode d xs).1 ys).1, (decode d xs).2 ++ (decode (decode d xs).1 ys).2) := by
  induction xs generalizing d with
  | nil => rfl
  | cons b xs ih =>
    simp only [List.cons_append, decode, ih, List.append_assoc]

/-! ## 3. Characters -/

theorem char_bounds (c : Char) :
    c.val.toNat < 0xD800 ∨ (0xDFFF < c.val.toNat ∧ c.val.toNat < 0x110000) := c.valid

theorem ofNat_val (c : Char) : Char.ofNat c.val.toNat = c := Char.ofNat_toNat c

theorem push_ofNat (d : Decoder) {n : Nat} (hn : n < 256) :
    push d (UInt8.ofNat n) = if d.needed = 0 then first n else next d n := by
  have hb : (UInt8.ofNat n).toNat = n := by simp [Nat.mod_eq_of_lt hn]
  simp only [push, hb]

/-- A first byte after which there are more. -/
theorem decode_first {n : Nat} {d : Decoder} (hn : n < 256) (hfirst : first n = (d, []))
    (bs : List UInt8) : decode {} (UInt8.ofNat n :: bs) = decode d bs := by
  simp only [decode, push_ofNat {} hn, if_true, hfirst, List.nil_append]

/-- A later byte after which there are more. -/
theorem decode_more {d : Decoder} {n : Nat} (hn : n < 256) (hneeded : 2 ≤ d.needed)
    (hbounds : d.lower ≤ n ∧ n ≤ d.upper) (bs : List UInt8) :
    decode d (UInt8.ofNat n :: bs) =
      decode { needed := d.needed - 1, codePoint := d.codePoint * 64 + (n - 0x80) } bs := by
  have hzero : d.needed ≠ 0 := by omega
  have hone : d.needed ≠ 1 := by omega
  simp only [decode, push_ofNat d hn, hzero, if_false, next, hbounds, and_self, if_true, hone,
    List.nil_append]

/-- The last byte of a character. -/
theorem decode_last {d : Decoder} {n : Nat} (hn : n < 256) (hneeded : d.needed = 1)
    (hbounds : d.lower ≤ n ∧ n ≤ d.upper) :
    decode d [UInt8.ofNat n] = ({}, [Char.ofNat (d.codePoint * 64 + (n - 0x80))]) := by
  have hpush : push d (UInt8.ofNat n) = next d n := by
    rw [push_ofNat d hn, if_neg (show d.needed ≠ 0 by omega)]
  simp only [decode, hpush, next, hbounds, and_self, if_true, hneeded, List.append_nil]

theorem first_two {n : Nat} (h : 0xC2 ≤ n ∧ n ≤ 0xDF) :
    first n = ({ needed := 1, codePoint := n - 0xC0 }, []) := by
  have hone : ¬ n ≤ 0x7F := by omega
  simp only [first, hone, h, and_self, if_true, if_false]

theorem first_three {n : Nat} (h : 0xE0 ≤ n ∧ n ≤ 0xEF) :
    first n = (Decoder.mk 2 (if n = 0xE0 then 0xA0 else 0x80) (if n = 0xED then 0x9F else 0xBF)
      (n - 0xE0), []) := by
  have hone : ¬ n ≤ 0x7F := by omega
  have htwo : ¬ (0xC2 ≤ n ∧ n ≤ 0xDF) := by omega
  simp only [first, hone, htwo, h, and_self, if_true, if_false]

theorem first_four {n : Nat} (h : 0xF0 ≤ n ∧ n ≤ 0xF4) :
    first n = (Decoder.mk 3 (if n = 0xF0 then 0x90 else 0x80) (if n = 0xF4 then 0x8F else 0xBF)
      (n - 0xF0), []) := by
  have hone : ¬ n ≤ 0x7F := by omega
  have htwo : ¬ (0xC2 ≤ n ∧ n ≤ 0xDF) := by omega
  have hthree : ¬ (0xE0 ≤ n ∧ n ≤ 0xEF) := by omega
  simp only [first, hone, htwo, hthree, h, and_self, if_true, if_false]

/-- **One character.**  The cases are the lengths of its encoding; the bounds of the second byte
exclude surrogates, encodings that are too long, and what lies above U+10FFFF. -/
theorem decode_utf8EncodeChar (c : Char) : decode {} (String.utf8EncodeChar c) = ({}, [c]) := by
  have hbounds := char_bounds c
  have hc := ofNat_val c
  generalize hv : c.val.toNat = v at hbounds hc
  simp only [String.utf8EncodeChar, hv]
  by_cases h1 : v ≤ 0x7F
  · rw [if_pos h1]
    simp only [decode, push_ofNat {} (show v < 256 by omega), if_true, first, h1, hc,
      List.append_nil]
  rw [if_neg h1]
  by_cases h2 : v ≤ 0x7FF
  · have hcp : (v / 64 % 32 + 0xC0 - 0xC0) * 64 + (v % 64 + 0x80 - 0x80) = v := by omega
    rw [if_pos h2, decode_first (by omega) (first_two (by omega)),
      decode_last (by omega) rfl (by constructor <;> simp only <;> omega), hcp, hc]
  rw [if_neg h2]
  by_cases h3 : v ≤ 0xFFFF
  · have hcp : ((v / 4096 % 16 + 0xE0 - 0xE0) * 64 + (v / 64 % 64 + 0x80 - 0x80)) * 64
        + (v % 64 + 0x80 - 0x80) = v := by omega
    rw [if_pos h3, decode_first (by omega) (first_three (by omega)),
      decode_more (by omega) (by simp) (by constructor <;> simp only <;> split <;> omega),
      decode_last (by omega) rfl (by constructor <;> simp only <;> omega), hcp, hc]
  · have hcp : (((v / 262144 % 8 + 0xF0 - 0xF0) * 64 + (v / 4096 % 64 + 0x80 - 0x80)) * 64
        + (v / 64 % 64 + 0x80 - 0x80)) * 64 + (v % 64 + 0x80 - 0x80) = v := by omega
    rw [if_neg h3, decode_first (by omega) (first_four (by omega)),
      decode_more (by omega) (by simp) (by constructor <;> simp only <;> split <;> omega),
      decode_more (by omega) (by simp) (by constructor <;> simp only <;> omega),
      decode_last (by omega) rfl (by constructor <;> simp only <;> omega), hcp, hc]

/-- A byte below 0x80 stands for itself wherever it occurs. -/
theorem toNat_of_mem {c : Char} {b : UInt8} (h : b ∈ String.utf8EncodeChar c)
    (hb : b.toNat < 0x80) : c.toNat = b.toNat := by
  have hbounds := char_bounds c
  change c.val.toNat = b.toNat
  have hofNat : ∀ n, n < 256 → (UInt8.ofNat n).toNat = n :=
    fun n hn => by simp [Nat.mod_eq_of_lt hn]
  -- of a longer encoding, every byte is 0x80 or above
  have hhigh : ∀ n, 0x80 ≤ n → n < 256 → b ≠ UInt8.ofNat n := by
    rintro n hle hlt rfl
    rw [hofNat n hlt] at hb
    omega
  generalize hv : c.val.toNat = v at hbounds
  simp only [String.utf8EncodeChar, hv] at h
  split_ifs at h with h1 h2 h3
  · rw [List.mem_singleton.mp h, hofNat v (by omega)]
  · simp only [List.mem_cons, List.not_mem_nil, or_false] at h
    rcases h with h | h <;> exact absurd h (hhigh _ (by omega) (by omega))
  · simp only [List.mem_cons, List.not_mem_nil, or_false] at h
    rcases h with h | h | h <;> exact absurd h (hhigh _ (by omega) (by omega))
  · simp only [List.mem_cons, List.not_mem_nil, or_false] at h
    rcases h with h | h | h | h <;> exact absurd h (hhigh _ (by omega) (by omega))

/-- **A text comes back from its encoding, and the decoder stands between two characters.** -/
theorem decode_encode (text : List Char) : decode {} (encode text) = ({}, text) := by
  induction text with
  | nil => rfl
  | cons c text ih =>
    have hcons : encode (c :: text) = String.utf8EncodeChar c ++ encode text := rfl
    rw [hcons, decode_append, decode_utf8EncodeChar, ih]
    rfl

end Utf8
