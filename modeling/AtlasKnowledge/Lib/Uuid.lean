/-
# `uuid.UUID`

Numbers of 128 bits, ordered as numbers; their text is 32 hexadecimal digits in five groups.  The
constructor reads 32 digits wherever the hyphens stand, in braces or behind a URN prefix.

* `ofText_text`: what was written is read back.
-/
import AtlasKnowledge.Lib.Radix
import AtlasKnowledge.Lib.Scan
import Mathlib.Data.List.DropRight
import Mathlib.Data.Fin.Basic

/-- `UUID`. -/
abbrev Uuid : Type := Fin (2 ^ 128)

namespace Uuid

/-- So numerals are UUIDs. -/
instance instNeZero : NeZero (2 ^ 128) := inferInstance

instance instLawfulBEq : LawfulBEq Uuid := inferInstance

open Radix (hex)

/-! ## 1. Writing and reading -/

/-- `str(id)`. -/
def text (id : Uuid) : List Char :=
  let digits := hex.write 32 id.val
  digits.take 8 ++ '-' :: ((digits.drop 8).take 4 ++ '-' :: ((digits.drop 12).take 4 ++
    '-' :: ((digits.drop 16).take 4 ++ '-' :: digits.drop 20)))

/-- `strip("{}")`. -/
def stripBraces (s : List Char) : List Char :=
  let brace := fun c : Char => decide (c = '\x7b' ∨ c = '\x7d')
  (s.dropWhile brace).rdropWhile brace

/-- `UUID(s)`; `none` is its `ValueError`.  The digits go through `int(s, 16)`, which also takes
texts of 32 characters with a sign, with `0x`, with underscores between the digits or with other
scripts' digits; these are left out. -/
def ofText (s : List Char) : Option Uuid :=
  let s := Scan.replace "uuid:".toList [] (Scan.replace "urn:".toList [] s)
  let s := Scan.replace ['-'] [] (stripBraces s)
  if s.length ≠ 32 then none
  else (hex.read 32 s).bind fun r => if h : r.1 < 2 ^ 128 then some ⟨r.1, h⟩ else none

/-! ## 2. The round trip -/

/-- What holds of the digits and the hyphen holds of every character of the text. -/
theorem forall_mem_text (p : Char → Prop) (hdigit : ∀ d < 16, p (hex.digit d)) (hhyphen : p '-')
    (id : Uuid) : ∀ c ∈ text id, p c := by
  have hwrite : ∀ c ∈ hex.write 32 id.val, p c := by
    intro c hc
    obtain ⟨d, hd, rfl⟩ := Radix.mem_write hc
    exact hdigit d hd
  have htake : ∀ n c, c ∈ ((hex.write 32 id.val).drop n).take 4 → p c :=
    fun n c hc => hwrite c (List.mem_of_mem_drop (List.mem_of_mem_take hc))
  simp only [text, List.forall_mem_append, List.forall_mem_cons]
  exact ⟨fun c hc => hwrite c (List.mem_of_mem_take hc), hhyphen, htake 8, hhyphen, htake 12,
    hhyphen, htake 16, hhyphen, fun c hc => hwrite c (List.mem_of_mem_drop hc)⟩

theorem stripBraces_of_forall {s : List Char} (h : ∀ c ∈ s, c ≠ '\x7b' ∧ c ≠ '\x7d') :
    stripBraces s = s := by
  have hbrace : ∀ c ∈ s, ¬ decide (c = '\x7b' ∨ c = '\x7d') = true := by
    intro c hc
    simpa using h c hc
  have hleft : s.dropWhile (fun c => decide (c = '\x7b' ∨ c = '\x7d')) = s :=
    List.dropWhile_eq_self_iff.mpr fun hpos => hbrace _ (List.get_mem s ⟨0, hpos⟩)
  simp only [stripBraces, hleft]
  exact List.rdropWhile_eq_self_iff.mpr fun hne => hbrace _ (List.getLast_mem hne)

/-- Without its hyphens the text is the numeral. -/
theorem text_without_hyphens (id : Uuid) :
    Scan.replace ['-'] [] (text id) = hex.write 32 id.val := by
  have hkeep : ∀ s : List Char, (∀ c ∈ s, c ≠ '-') →
      (s.flatMap fun c => if c = '-' then [] else [c]) = s := by
    intro s hs
    induction s with
    | nil => rfl
    | cons c s ih =>
      rw [List.flatMap_cons, if_neg (hs c List.mem_cons_self),
        ih fun x hx => hs x (List.mem_cons_of_mem c hx)]
      rfl
  have hdigit : ∀ d < 16, hex.digit d ≠ '-' := by decide
  have hwrite : ∀ c ∈ hex.write 32 id.val, c ≠ '-' := by
    intro c hc
    obtain ⟨d, hd, rfl⟩ := Radix.mem_write hc
    exact hdigit d hd
  rw [Scan.replace_singleton, text]
  generalize hex.write 32 id.val = digits at hwrite
  have hsub : ∀ s : List Char, s.Sublist digits → ∀ c ∈ s, c ≠ '-' :=
    fun s hs c hc => hwrite c (hs.subset hc)
  have htake : ∀ n, ((digits.drop n).take 4).Sublist digits :=
    fun n => (List.take_sublist _ _).trans (List.drop_sublist _ _)
  simp only [List.flatMap_append, List.flatMap_cons, if_true, List.nil_append,
    hkeep _ (hsub _ (List.take_sublist 8 digits)), hkeep _ (hsub _ (htake 8)),
    hkeep _ (hsub _ (htake 12)), hkeep _ (hsub _ (htake 16)),
    hkeep _ (hsub _ (List.drop_sublist 20 digits))]
  calc digits.take 8 ++ ((digits.drop 8).take 4 ++ ((digits.drop 12).take 4 ++
        ((digits.drop 16).take 4 ++ digits.drop 20)))
      = digits.take 8 ++ ((digits.drop 8).take 4 ++ ((digits.drop 12).take 4 ++
          digits.drop 16)) := by
        rw [show digits.drop 20 = (digits.drop 16).drop 4 by rw [List.drop_drop],
          List.take_append_drop]
    _ = digits.take 8 ++ ((digits.drop 8).take 4 ++ digits.drop 12) := by
        rw [show digits.drop 16 = (digits.drop 12).drop 4 by rw [List.drop_drop],
          List.take_append_drop]
    _ = digits.take 8 ++ digits.drop 8 := by
        rw [show digits.drop 12 = (digits.drop 8).drop 4 by rw [List.drop_drop],
          List.take_append_drop]
    _ = digits := List.take_append_drop 8 digits

/-- **What `str` writes is read back.** -/
theorem ofText_text (id : Uuid) : ofText (text id) = some id := by
  have hcolon : ':' ∉ text id := fun h =>
    forall_mem_text (fun c => c ≠ ':') (by decide) (by decide) id ':' h rfl
  have hbraces : ∀ c ∈ text id, c ≠ '\x7b' ∧ c ≠ '\x7d' :=
    forall_mem_text (fun c => c ≠ '\x7b' ∧ c ≠ '\x7d') (by decide) (by decide) id
  have hlt : id.val < hex.base ^ 32 := lt_of_lt_of_le id.isLt (by decide)
  have hread := @Radix.read_write hex 32 id.val hlt []
  rw [List.append_nil] at hread
  rw [ofText, Scan.replace_of_not_mem [] (show ':' ∈ "urn:".toList by decide) hcolon,
    Scan.replace_of_not_mem [] (show ':' ∈ "uuid:".toList by decide) hcolon,
    stripBraces_of_forall hbraces, text_without_hyphens]
  rw [if_neg (by simp), hread]
  simp

end Uuid
