/-
# The event stream, as the backend writes it

`_format` and the `source` of `send_message` (`api/routers/chat.py`): one frame for each
application event, and heartbeats between the frames.  The data of an event is a JSON object, and
its text is `json.dumps(.., ensure_ascii=False)`.
-/
import AtlasKnowledge.Domain.Document
import AtlasKnowledge.Lib.Utf8

namespace AtlasKnowledge.Sse

/-! ## 1. `json.dumps` -/

/-- The characters that `float.__repr__` and `json` use: digits, sign, point and exponent, and
the letters of NaN and Infinity. -/
def isFloatChar (c : Char) : Bool := c ∈ "0123456789+-.eNaInfity".toList

/-- The text of a `float`. -/
structure FloatText where
  text : Text
  chars : ∀ c ∈ text, isFloatChar c = true

/-- What the data of an event is made of. -/
inductive Json where
  | null
  | bool (b : Bool)
  | int (n : Int)
  | float (x : FloatText)
  | str (s : Text)
  | arr (items : List Json)
  | obj (members : List (Text × Json))

/-- `'\\u{0:04x}'.format(n)`, for a control character. -/
def unicodeEscape (n : Nat) : Text :=
  "\\u00".toList ++ [Nat.digitChar (n / 16), Nat.digitChar (n % 16)]

/-- The short escapes of `ESCAPE_DCT`. -/
def escapeDct : List (Char × Char) :=
  [('\\', '\\'), ('"', '"'), (Char.ofNat 0x08, 'b'), (Char.ofNat 0x0c, 'f'), ('\n', 'n'),
    ('\r', 'r'), ('\t', 't')]

/-- A character within a JSON string. -/
def escapeChar (c : Char) : Text :=
  match escapeDct.find? fun p => p.1 = c with
  | some p => ['\\', p.2]
  | none => if c.toNat < 0x20 then unicodeEscape c.toNat else [c]

/-- `py_encode_basestring`. -/
def encodeString (s : Text) : Text := '"' :: s.flatMap escapeChar ++ ['"']

/-- `separator.join(parts)`. -/
def joinWith (separator : Text) (parts : List Text) : Text := List.intercalate separator parts

mutual

/-- `json.dumps(value, ensure_ascii=False)`. -/
def dumps : Json → Text
  | .null => "null".toList
  | .bool b => (if b then "true" else "false").toList
  | .int n => (toString n).toList
  | .float x => x.text
  | .str s => encodeString s
  | .arr items => '[' :: joinWith ", ".toList (dumpsItems items) ++ [']']
  | .obj members => '{' :: joinWith ", ".toList (dumpsMembers members) ++ ['}']

def dumpsItems : List Json → List Text
  | [] => []
  | item :: items => dumps item :: dumpsItems items

def dumpsMembers : List (Text × Json) → List Text
  | [] => []
  | (key, value) :: members =>
    (encodeString key ++ ": ".toList ++ dumps value) :: dumpsMembers members

end

/-! ## 2. Frames -/

/-- The event names of `stream_reply`. -/
inductive EventName where
  | messageStart | citations | delta | done | error
  deriving DecidableEq, Repr

/-- The name on the wire. -/
def EventName.text : EventName → Text
  | .messageStart => "message_start".toList
  | .citations => "citations".toList
  | .delta => "delta".toList
  | .done => "done".toList
  | .error => "error".toList

/-- An application event; its data is a JSON object. -/
structure AppEvent where
  event : EventName
  data : List (Text × Json)

/-- The data of a frame. -/
def AppEvent.dataText (ev : AppEvent) : Text := dumps (.obj ev.data)

/-- `_format`. -/
def format (ev : AppEvent) : Text :=
  "event: ".toList ++ ev.event.text ++ ['\n'] ++ "data: ".toList ++ ev.dataText ++ ['\n', '\n']

/-- What `source` yields: an event of the orchestrator, or a heartbeat after a wait. -/
inductive Item where
  | event (ev : AppEvent)
  | ping

/-- An item on the wire. -/
def Item.text : Item → Text
  | .event ev => format ev
  | .ping => ": ping".toList ++ ['\n', '\n']

/-- The bytes of the response. -/
def wire (items : List Item) : Bytes := Utf8.encode (items.flatMap Item.text)

/-- The events among the items. -/
def eventsOf (items : List Item) : List AppEvent :=
  items.filterMap fun item => match item with
    | .event ev => some ev
    | .ping => none

/-! ## 3. No control characters -/

/-- A text without control characters. -/
def Printable (s : Text) : Prop := ∀ c ∈ s, 0x20 ≤ c.toNat

/-- The characters of a fixed text, looked at one by one. -/
theorem Printable.of_all {s : Text} (h : s.all (fun c => 0x20 ≤ c.toNat) = true) : Printable s :=
  fun c hc => of_decide_eq_true (List.all_eq_true.mp h c hc)

theorem Printable.append {s t : Text} (hs : Printable s) (ht : Printable t) :
    Printable (s ++ t) := by
  intro c hc
  exact (List.mem_append.mp hc).elim (hs c) (ht c)

theorem Printable.cons {c : Char} {s : Text} (hc : 0x20 ≤ c.toNat) (hs : Printable s) :
    Printable (c :: s) := by
  intro x hx
  rcases List.mem_cons.mp hx with rfl | hx
  · exact hc
  · exact hs x hx

theorem Printable.joinWith {separator : Text} (hsep : Printable separator) :
    ∀ {parts : List Text}, (∀ p ∈ parts, Printable p) → Printable (joinWith separator parts)
  | [], _ => fun c hc => nomatch hc
  | [p], h => by
    have hone : Sse.joinWith separator [p] = p := by simp [Sse.joinWith]
    rw [hone]
    exact h p List.mem_cons_self
  | p :: q :: parts, h => by
    have hstep : Sse.joinWith separator (p :: q :: parts)
        = p ++ separator ++ Sse.joinWith separator (q :: parts) := by
      simp [Sse.joinWith, List.intercalate]
    rw [hstep]
    exact ((h p List.mem_cons_self).append hsep).append
      (Printable.joinWith hsep fun r hr => h r (List.mem_cons_of_mem p hr))

theorem digitChar_printable {n : Nat} (hn : n < 16) : 0x20 ≤ (Nat.digitChar n).toNat := by
  revert hn
  revert n
  decide

theorem escapeChar_printable (c : Char) : Printable (escapeChar c) := by
  have hnil : Printable [] := fun c hc => nomatch hc
  unfold escapeChar
  split
  · rename_i p hp
    have hall : ∀ p ∈ escapeDct, 0x20 ≤ p.2.toNat := by decide
    exact .cons (by decide) (.cons (hall p (List.mem_of_find?_eq_some hp)) hnil)
  · split
    · have hprefix : Printable "\\u00".toList := .of_all (by decide)
      exact hprefix.append (.cons (digitChar_printable (by omega))
        (.cons (digitChar_printable (by omega)) hnil))
    · exact .cons (by omega) hnil

theorem encodeString_printable (s : Text) : Printable (encodeString s) := by
  have hbody : Printable (s.flatMap escapeChar) := by
    intro x hx
    obtain ⟨c, -, hc⟩ := List.mem_flatMap.mp hx
    exact escapeChar_printable c x hc
  exact (Printable.cons (by decide) hbody).append (.cons (by decide) fun c hc => nomatch hc)

theorem nat_printable (n : Nat) : Printable (toString n).toList := by
  intro c hc
  have hdigit : c ∈ Nat.toDigits 10 n := by simpa [Nat.repr, toString] using hc
  have hisDigit := Nat.isDigit_of_mem_toDigits (by decide) (by decide) hdigit
  simp only [Char.isDigit, ge_iff_le, Bool.and_eq_true, decide_eq_true_eq] at hisDigit
  have hle : 0x30 ≤ c.val.toNat := UInt32.le_iff_toNat_le.mp hisDigit.1
  exact Nat.le_trans (by decide) hle

theorem int_printable (n : Int) : Printable (toString n).toList := by
  cases n with
  | ofNat m => exact nat_printable m
  | negSucc m =>
    have hneg : (toString (Int.negSucc m)).toList = '-' :: (toString (m + 1)).toList := by
      simp [toString, Int.repr]
    rw [hneg]
    exact .cons (by decide) (nat_printable (m + 1))

mutual

/-- **The text of a JSON value has no control characters**, so no line breaks. -/
theorem dumps_printable : ∀ value : Json, Printable (dumps value)
  | .null => .of_all (by decide)
  | .bool b => .of_all (by cases b <;> decide)
  | .int n => int_printable n
  | .float x => by
    intro c hc
    have hall : Printable "0123456789+-.eNaInfity".toList := .of_all (by decide)
    exact hall c (of_decide_eq_true (x.chars c hc))
  | .str s => encodeString_printable s
  | .arr items =>
    (Printable.cons (by decide) (Printable.joinWith (.of_all (by decide))
      (dumpsItems_printable items))).append (.cons (by decide) fun c hc => nomatch hc)
  | .obj members =>
    (Printable.cons (by decide) (Printable.joinWith (.of_all (by decide))
      (dumpsMembers_printable members))).append (.cons (by decide) fun c hc => nomatch hc)

theorem dumpsItems_printable : ∀ (items : List Json), ∀ p ∈ dumpsItems items, Printable p
  | [], _, hp => nomatch hp
  | item :: items, p, hp => by
    rcases List.mem_cons.mp hp with rfl | hp
    · exact dumps_printable item
    · exact dumpsItems_printable items p hp

theorem dumpsMembers_printable :
    ∀ (members : List (Text × Json)), ∀ p ∈ dumpsMembers members, Printable p
  | [], _, hp => nomatch hp
  | (key, value) :: members, p, hp => by
    rcases List.mem_cons.mp hp with rfl | hp
    · exact ((encodeString_printable key).append (.of_all (by decide))).append
        (dumps_printable value)
    · exact dumpsMembers_printable members p hp

end

end AtlasKnowledge.Sse
