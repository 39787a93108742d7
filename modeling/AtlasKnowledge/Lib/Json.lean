/-
# Decoded JSON

The values that `json.loads` returns, with what a Python program may ask of a value whose shape
it has not checked, and the exceptions that this raises.

A Python string may hold half of a surrogate pair, as may a JSON one; `toText` is the string
without any.
-/
import Mathlib.Data.List.Basic
import Mathlib.Tactic.SplitIfs

namespace Json

/-- The exceptions, up to what catches them. -/
inductive Raised where
  | keyError | indexError | typeError | attributeError | valueError | overflowError
  | recursionError
  deriving DecidableEq, Repr

/-- One character of a Python string. -/
inductive CodePoint where
  | scalar (c : Char)
  | surrogate (i : Fin 2048)
  deriving DecidableEq, Repr

abbrev PyStr := List CodePoint

def pyStr (text : List Char) : PyStr := text.map .scalar

def CodePoint.toChar? : CodePoint → Option Char
  | .scalar c => some c
  | .surrogate _ => none

/-- The text, if it is one. -/
def toText? (s : PyStr) : Option (List Char) := s.mapM CodePoint.toChar?

/-- A string without a surrogate is its text. -/
theorem eq_pyStr {s : PyStr} {text : List Char} (h : toText? s = some text) : s = pyStr text := by
  induction s generalizing text with
  | nil =>
    obtain rfl := Option.some.inj h
    rfl
  | cons c s ih =>
    rw [toText?, List.mapM_cons] at h
    obtain ⟨char, hchar, h⟩ := Option.bind_eq_some_iff.mp h
    obtain ⟨rest, hrest, h⟩ := Option.bind_eq_some_iff.mp h
    obtain rfl := Option.some.inj h
    cases c with
    | scalar c =>
      obtain rfl := Option.some.inj hchar
      rw [ih hrest]
      rfl
    | surrogate i => exact nomatch hchar

/-- A decoded value over a type of floats.  In an object each key stands once. -/
inductive Value (F : Type) where
  | null
  | bool (b : Bool)
  | int (n : Int)
  | float (x : F)
  | str (s : PyStr)
  | arr (items : List (Value F))
  | obj (members : List (PyStr × Value F))

namespace Value

variable {F : Type}

/-- The member of an object. -/
def member (members : List (PyStr × Value F)) (key : List Char) : Option (Value F) :=
  (members.find? fun m => m.1 = pyStr key).map Prod.snd

/-- `value[key]`, for a string. -/
def item (key : List Char) : Value F → Except Raised (Value F)
  | .obj members => (member members key).elim (.error .keyError) .ok
  | _ => .error .typeError

/-- `value[0]`. -/
def first : Value F → Except Raised (Value F)
  | .arr (item :: _) => .ok item
  | .arr [] => .error .indexError
  | .str (c :: _) => .ok (.str [c])
  | .str [] => .error .indexError
  | .obj _ => .error .keyError
  | _ => .error .typeError

/-- `value.get(key)`: `None` for a key that is not there. -/
def get (key : List Char) : Value F → Except Raised (Value F)
  | .obj members => .ok ((member members key).getD .null)
  | _ => .error .attributeError

/-- What `for item in value` goes through. -/
def iterate : Value F → Except Raised (List (Value F))
  | .arr items => .ok items
  | .str s => .ok (s.map fun c => .str [c])
  | .obj members => .ok (members.map fun m => .str m.1)
  | _ => .error .typeError

/-- The integer that the value equals. -/
def integer? (floatInteger? : F → Option Int) : Value F → Option Int
  | .bool b => some b.toNat
  | .int n => some n
  | .float x => floatInteger? x
  | _ => none

/-- `bool(value)`. -/
def truthy (floatInteger? : F → Option Int) : Value F → Bool
  | .null => false
  | .bool b => b
  | .int n => n ≠ 0
  | .float x => floatInteger? x ≠ some 0
  | .str s => !s.isEmpty
  | .arr items => !items.isEmpty
  | .obj members => !members.isEmpty

/-- `value or other`. -/
def orElse (floatInteger? : F → Option Int) (value other : Value F) : Value F :=
  if value.truthy floatInteger? then value else other

/-- The member of a value that is an object. -/
def field? (key : List Char) : Value F → Option (Value F)
  | .obj members => member members key
  | _ => none

theorem item_eq_ok {key : List Char} {value v : Value F} :
    value.item key = .ok v ↔ value.field? key = some v := by
  cases value with
  | obj members =>
    cases hmember : member members key with
    | none => simp [item, field?, hmember]
    | some w => simp [item, field?, hmember]
  | _ => simp [item, field?]

section Truthy

variable {key : List Char} {value v other : Value F} {floatInteger? : F → Option Int}

theorem get_of_field (h : value.field? key = some v) : value.get key = .ok v := by
  cases value with
  | obj members => exact congrArg (fun w => Except.ok (Option.getD w .null)) h
  | _ => cases h

/-- A key that is not there gives `None`, which is not truthy. -/
theorem field_of_get (h : value.get key = .ok v) (hv : v.truthy floatInteger? = true) :
    value.field? key = some v := by
  cases value with
  | obj members =>
    obtain rfl := Except.ok.inj h
    cases hmember : member members key with
    | none =>
      rw [hmember] at hv
      cases hv
    | some w => exact hmember.trans (by rw [Option.getD_some])
  | _ => cases h

/-- An object that has a member is truthy. -/
theorem truthy_of_field (h : value.field? key = some v) : value.truthy floatInteger? = true := by
  cases value with
  | obj members =>
    cases members with
    | nil => cases h
    | cons m members => rfl
  | _ => cases h

theorem orElse_of_truthy (h : value.truthy floatInteger? = true) :
    value.orElse floatInteger? other = value :=
  if_pos h

theorem orElse_cases (floatInteger? : F → Option Int) (value other : Value F) :
    (value.truthy floatInteger? = true ∧ value.orElse floatInteger? other = value) ∨
      value.orElse floatInteger? other = other := by
  unfold orElse
  split_ifs with h
  · exact .inl ⟨h, rfl⟩
  · exact .inr rfl

end Truthy

end Value

end Json
