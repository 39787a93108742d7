/-
# The stream contract

Whatever the transport does and whatever the lines hold, `chat` raises nothing and yields deltas,
then either at most one usage and one stop, or one error.  What the deltas are is read off the
lines: the contents of the data lines before `[DONE]`, through the first one that fails.

* `stream_contract`: the contract, for every exchange.
-/
import AtlasKnowledge.Lib.Fallible
import AtlasKnowledge.Llm.OpenAiCompat

namespace AtlasKnowledge.Llm

open Chat (StreamEvent StopReason)
open Json (Raised PyStr)
open Fallible (bind_eq_ok)

/-! ## 1. The contract -/

section Spec

variable {F : Type} (py : Python F)

/-- `choices[0].delta.content`, if it is a string that is not empty. -/
def contentString (obj : Json.Value F) : Option PyStr := do
  let .arr (first :: _) ← obj.field? "choices".toList | none
  let .str s ← (← first.field? "delta".toList).field? "content".toList | none
  if s = [] then none else some s

/-- The tokens of the usage, if there is one. -/
def usageTokens (obj : Json.Value F) : Option (Int × Int) := do
  let usage ← obj.field? "usage".toList
  let input ← py.asInt (← usage.field? "prompt_tokens".toList)
  let output ← py.asInt (← usage.field? "completion_tokens".toList)
  return (input, output)

/-- The decoded payload. -/
def decoded? (payload : Text) : Option (Json.Value F) := (py.loads payload).toOption

/-- Nothing in the line raises. -/
def Succeeds (payload : Text) : Bool :=
  (py.loads payload >>= fun obj => content py obj >>= fun _ => laterFields py obj).isOk

/-- The lines that the transport may deliver. -/
def Exchange.lines : Exchange → List Text
  | .failed _ => []
  | .response resp => if 400 ≤ resp.status then [] else resp.lines

/-- The text that a payload yields. -/
def textOf (payload : Text) : Option PyStr := (decoded? py payload).bind contentString

/-- The tokens that a payload brings. -/
def tokensOf (payload : Text) : Option (Int × Int) := (decoded? py payload).bind (usageTokens py)

/-- The payloads of the data lines before `[DONE]`. -/
def payloadsBeforeDone (lines : List Text) : List Text :=
  (lines.filterMap payload?).takeWhile (· ≠ donePayload)

/-- Those through the first that fails. -/
def payloadsRead (lines : List Text) : List Text :=
  let payloads := payloadsBeforeDone lines
  payloads.takeWhile (Succeeds py) ++ (payloads.dropWhile (Succeeds py)).take 1

/-- The texts of the deltas. -/
def deltaTexts (lines : List Text) : List PyStr :=
  (payloadsRead py lines).filterMap (textOf py)

/-- The last usage. -/
def lastUsage (lines : List Text) : Option (Int × Int) :=
  ((payloadsBeforeDone lines).filterMap (tokensOf py)).getLast?

/-- A `[DONE]` line is reached and no line before it fails. -/
def DoneReached (lines : List Text) : Prop :=
  donePayload ∈ lines.filterMap payload? ∧ ∀ payload ∈ payloadsBeforeDone lines, Succeeds py payload

/-- The last events: at most one usage and a stop, or an error. -/
inductive Terminal (lines : List Text) : List (StreamEvent PyStr) → Prop where
  | stop (stopReason : StopReason) (hdone : DoneReached py lines) :
    Terminal lines ((lastUsage py lines).toList.map usageEvent ++ [.stop stopReason])
  | error (code : ProviderErrorCode) : Terminal lines [error code]

/-- What `chat` yields and raises. -/
structure Contract (x : Exchange) (result : Generated) : Prop where
  raised : result.raised = none
  events : ∃ last, Terminal py x.lines last ∧
    result.events = (deltaTexts py x.lines).map .textDelta ++ last

/-- Closing a response that is fully read raises nothing. -/
def Exchange.ClosesQuietly : Exchange → Prop
  | .failed _ => True
  | .response resp => resp.closing true = none

end Spec

variable {F : Type} {py : Python F} {obj : Json.Value F} {text : PyStr} {payload rawLine : Text}
  {lines : List Text}

/-! ## 2. The fields of a line -/

/-- The first choice is one of an array; a string's first character is not looked into. -/
theorem choice_eq_some {first : Json.Value F} {key : List Char} {v : Json.Value F}
    (h : choice py obj = .ok (some first)) (hv : first.get key = .ok v) :
    ∃ rest, obj.field? "choices".toList = some (.arr (first :: rest)) := by
  obtain ⟨choices, hchoices, h⟩ := bind_eq_ok.mp h
  dsimp only at h
  split_ifs at h with htruthy
  · obtain ⟨f, hfirst, h⟩ := bind_eq_ok.mp h
    obtain rfl : f = first := Option.some.inj (Except.ok.inj h)
    rcases Json.Value.orElse_cases py.integer? choices (.arr []) with ⟨hchoice, heq⟩ | heq
    · rw [heq] at hfirst
      have hfield := Json.Value.field_of_get hchoices hchoice
      cases choices with
      | arr items =>
        cases items with
        | nil => cases hfirst
        | cons item rest =>
          obtain rfl := Except.ok.inj hfirst
          exact ⟨rest, hfield⟩
      | str s =>
        cases s with
        | nil => cases hfirst
        | cons c s =>
          obtain rfl := Except.ok.inj hfirst
          cases hv
      | _ => cases hfirst
    · rw [heq] at htruthy
      cases htruthy
  · cases h

theorem choice_of_field {first : Json.Value F} {rest : List (Json.Value F)}
    (h : obj.field? "choices".toList = some (.arr (first :: rest))) :
    choice py obj = .ok (some first) := by
  refine bind_eq_ok.mpr ⟨_, Json.Value.get_of_field h, ?_⟩
  rw [Json.Value.orElse_of_truthy (by rfl)]
  rfl

theorem textDelta_eq_ok {value : Json.Value F} :
    textDelta value = .ok text ↔ value = .str text := by
  cases value with
  | str s =>
    constructor
    · exact fun h => congrArg Json.Value.str (Except.ok.inj h)
    · exact fun h => congrArg Except.ok (Json.Value.str.inj h)
  | _ => exact ⟨nofun, nofun⟩

theorem contentString_eq_some :
    contentString obj = some text ↔
      ∃ first rest delta, obj.field? "choices".toList = some (.arr (first :: rest)) ∧
        first.field? "delta".toList = some delta ∧
        delta.field? "content".toList = some (.str text) ∧ text ≠ [] := by
  constructor
  · intro h
    obtain ⟨choices, hchoices, h⟩ := Option.bind_eq_some_iff.mp h
    split at h
    · rename_i first rest
      obtain ⟨delta, hdelta, h⟩ := Option.bind_eq_some_iff.mp h
      obtain ⟨content, hcontent, h⟩ := Option.bind_eq_some_iff.mp h
      split at h
      · rename_i s
        split_ifs at h with hs
        obtain rfl := Option.some.inj h
        exact ⟨first, rest, delta, hchoices, hdelta, hcontent, hs⟩
      · cases h
    · cases h
  · rintro ⟨first, rest, delta, hchoices, hdelta, hcontent, hs⟩
    exact Option.bind_eq_some_iff.mpr ⟨_, hchoices, Option.bind_eq_some_iff.mpr ⟨delta, hdelta,
      Option.bind_eq_some_iff.mpr ⟨_, hcontent, if_neg hs⟩⟩⟩

/-- The line yields its content if that is a string that is not empty, and else nothing. -/
theorem content_eq_some : content py obj = .ok (some text) ↔ contentString obj = some text := by
  rw [contentString_eq_some]
  constructor
  · intro h
    obtain ⟨choice, hchoice, h⟩ := bind_eq_ok.mp h
    cases choice with
    | none => cases h
    | some first =>
      obtain ⟨d, hd, h⟩ := bind_eq_ok.mp h
      obtain ⟨c, hc, h⟩ := bind_eq_ok.mp h
      split_ifs at h with htruthy
      · obtain ⟨t, htext, h⟩ := bind_eq_ok.mp h
        obtain rfl : t = text := Option.some.inj (Except.ok.inj h)
        obtain rfl := textDelta_eq_ok.mp htext
        obtain ⟨rest, hchoices⟩ := choice_eq_some hchoice hd
        have hcontent := Json.Value.field_of_get hc htruthy
        rcases Json.Value.orElse_cases py.integer? d (.obj []) with ⟨hdelta, heq⟩ | heq
        · rw [heq] at hcontent
          refine ⟨first, rest, d, hchoices, Json.Value.field_of_get hd hdelta, hcontent, ?_⟩
          rintro rfl
          cases htruthy
        · rw [heq] at hcontent
          cases hcontent
      · cases h
  · rintro ⟨first, rest, delta, hchoices, hdelta, hcontent, hs⟩
    have hnonempty : (Json.Value.str text : Json.Value F).truthy py.integer? = true := by
      cases text with
      | nil => exact absurd rfl hs
      | cons c s => rfl
    refine bind_eq_ok.mpr ⟨_, choice_of_field hchoices, bind_eq_ok.mpr ⟨delta,
      Json.Value.get_of_field hdelta, ?_⟩⟩
    rw [Json.Value.orElse_of_truthy (Json.Value.truthy_of_field hcontent)]
    refine bind_eq_ok.mpr ⟨_, Json.Value.get_of_field hcontent, ?_⟩
    rw [if_pos hnonempty]
    exact bind_eq_ok.mpr ⟨text, textDelta_eq_ok.mpr rfl, rfl⟩

/-- A line that does not fail at its content yields its content string. -/
theorem content_eq_ok {c : Option PyStr} (h : content py obj = .ok c) : contentString obj = c := by
  cases c with
  | some t => exact content_eq_some.mp h
  | none =>
    cases hstring : contentString obj with
    | none => rfl
    | some t =>
      rw [content_eq_some.mpr hstring] at h
      cases h

theorem contentString_of_error {e : Raised} (h : content py obj = .error e) :
    contentString obj = none := by
  cases hstring : contentString obj with
  | none => rfl
  | some t =>
    rw [content_eq_some.mpr hstring] at h
    cases h

theorem usageInfo_eq_ok {input output : Json.Value F} {tokens : Int × Int} :
    usageInfo py input output = .ok tokens ↔
      py.asInt input = some tokens.1 ∧ py.asInt output = some tokens.2 := by
  unfold usageInfo
  cases hinput : py.asInt input with
  | none => simp
  | some i =>
    cases houtput : py.asInt output with
    | none => simp
    | some o => simp [Prod.ext_iff]

theorem usageTokens_eq_some {tokens : Int × Int} :
    usageTokens py obj = some tokens ↔
      ∃ usage input output, obj.field? "usage".toList = some usage ∧
        usage.field? "prompt_tokens".toList = some input ∧
        usage.field? "completion_tokens".toList = some output ∧
        usageInfo py input output = .ok tokens := by
  constructor
  · intro h
    obtain ⟨usage, husage, h⟩ := Option.bind_eq_some_iff.mp h
    obtain ⟨input, hinput, h⟩ := Option.bind_eq_some_iff.mp h
    obtain ⟨i, hi, h⟩ := Option.bind_eq_some_iff.mp h
    obtain ⟨output, houtput, h⟩ := Option.bind_eq_some_iff.mp h
    obtain ⟨o, ho, h⟩ := Option.bind_eq_some_iff.mp h
    obtain rfl := Option.some.inj h
    exact ⟨usage, input, output, husage, hinput, houtput, usageInfo_eq_ok.mpr ⟨hi, ho⟩⟩
  · rintro ⟨usage, input, output, husage, hinput, houtput, h⟩
    obtain ⟨hi, ho⟩ := usageInfo_eq_ok.mp h
    exact Option.bind_eq_some_iff.mpr ⟨usage, husage, Option.bind_eq_some_iff.mpr ⟨input, hinput,
      Option.bind_eq_some_iff.mpr ⟨_, hi, Option.bind_eq_some_iff.mpr ⟨output, houtput,
        Option.bind_eq_some_iff.mpr ⟨_, ho, rfl⟩⟩⟩⟩⟩

theorem usage_eq_some {tokens : Int × Int} :
    usage py obj = .ok (some tokens) ↔ usageTokens py obj = some tokens := by
  rw [usageTokens_eq_some]
  constructor
  · intro h
    obtain ⟨u, hu, h⟩ := bind_eq_ok.mp h
    split_ifs at h with htruthy
    · obtain ⟨input, hinput, h⟩ := bind_eq_ok.mp h
      obtain ⟨output, houtput, h⟩ := bind_eq_ok.mp h
      obtain ⟨t, ht, h⟩ := bind_eq_ok.mp h
      obtain rfl : t = tokens := Option.some.inj (Except.ok.inj h)
      exact ⟨u, input, output, Json.Value.field_of_get hu htruthy,
        Json.Value.item_eq_ok.mp hinput, Json.Value.item_eq_ok.mp houtput, ht⟩
    · cases h
  · rintro ⟨u, input, output, hu, hinput, houtput, h⟩
    refine bind_eq_ok.mpr ⟨u, Json.Value.get_of_field hu, ?_⟩
    rw [if_pos (Json.Value.truthy_of_field hinput)]
    exact bind_eq_ok.mpr ⟨input, Json.Value.item_eq_ok.mpr hinput, bind_eq_ok.mpr ⟨output,
      Json.Value.item_eq_ok.mpr houtput, bind_eq_ok.mpr ⟨tokens, h, rfl⟩⟩⟩

/-- A line whose usage does not fail has its tokens, or none. -/
theorem usage_eq_ok {t : Option (Int × Int)} (h : usage py obj = .ok t) :
    usageTokens py obj = t := by
  cases t with
  | some tokens => exact usage_eq_some.mp h
  | none =>
    cases htokens : usageTokens py obj with
    | none => rfl
    | some tokens =>
      rw [usage_eq_some.mpr htokens] at h
      cases h

/-! ## 3. One line -/

theorem laterFields_eq_ok {fields : Option StopReason × Option (Int × Int)}
    (h : laterFields py obj = .ok fields) : usage py obj = .ok fields.2 := by
  obtain ⟨reason, _, h⟩ := bind_eq_ok.mp h
  obtain ⟨tokens, htokens, h⟩ := bind_eq_ok.mp h
  obtain rfl := Except.ok.inj h
  exact htokens

/-- A line without a payload is skipped. -/
theorem readLine_of_none {b : Buffer} (h : payload? rawLine = none) :
    readLine py b rawLine = ([], .go b) := by
  rw [readLine, h]

/-- `[DONE]` ends the loop. -/
theorem readLine_of_done {b : Buffer} (h : payload? rawLine = some donePayload) :
    readLine py b rawLine = ([], .done) := by
  rw [readLine, h]
  exact if_pos rfl

theorem isOk_iff {ε α : Type} {x : Except ε α} : x.isOk = true ↔ ∃ a, x = .ok a := by
  cases x with
  | error e => exact ⟨nofun, nofun⟩
  | ok a => exact ⟨fun _ => ⟨a, rfl⟩, fun _ => rfl⟩

theorem succeeds_iff :
    Succeeds py payload = true ↔ ∃ obj c fields, py.loads payload = .ok obj ∧
      content py obj = .ok c ∧ laterFields py obj = .ok fields := by
  rw [Succeeds, isOk_iff]
  constructor
  · rintro ⟨fields, h⟩
    obtain ⟨obj, hobj, h⟩ := bind_eq_ok.mp h
    obtain ⟨c, hc, h⟩ := bind_eq_ok.mp h
    exact ⟨obj, c, fields, hobj, hc, h⟩
  · rintro ⟨obj, c, fields, hobj, hc, h⟩
    exact ⟨fields, bind_eq_ok.mpr ⟨obj, hobj, bind_eq_ok.mpr ⟨c, hc, h⟩⟩⟩

theorem textOf_of_loads (h : py.loads payload = .ok obj) :
    textOf py payload = contentString obj := by
  rw [textOf, decoded?, h]
  rfl

theorem tokensOf_of_loads (h : py.loads payload = .ok obj) :
    tokensOf py payload = usageTokens py obj := by
  rw [tokensOf, decoded?, h]
  rfl

/-- **What another data line does**: it yields its content, and then either its fields go into the
buffer or it fails. -/
theorem readLine_of_payload {b : Buffer} (h : payload? rawLine = some payload)
    (hdone : payload ≠ donePayload) :
    (readLine py b rawLine).1 = (textOf py payload).toList.map .textDelta ∧
      if Succeeds py payload then
        ∃ stopReason, (readLine py b rawLine).2 = .go ⟨stopReason, (tokensOf py payload).or b.usage⟩
      else (readLine py b rawLine).2 = .raised := by
  rw [readLine, h]
  dsimp only
  rw [if_neg hdone]
  cases hloads : py.loads payload with
  | error e =>
    have hfails : ¬Succeeds py payload = true := fun hok => by
      obtain ⟨obj, _, _, hobj, _⟩ := succeeds_iff.mp hok
      rw [hloads] at hobj
      cases hobj
    rw [if_neg hfails, textOf, decoded?, hloads]
    exact ⟨rfl, rfl⟩
  | ok obj =>
    rw [textOf_of_loads hloads, tokensOf_of_loads hloads]
    dsimp only
    have hfails : ∀ {e}, content py obj = .error e ∨ laterFields py obj = .error e →
        ¬Succeeds py payload = true := fun herror hok => by
      obtain ⟨obj', c, fields, hobj, hc, hfields⟩ := succeeds_iff.mp hok
      obtain rfl := Except.ok.inj (hloads.symm.trans hobj)
      rcases herror with herror | herror
      · rw [hc] at herror
        cases herror
      · rw [hfields] at herror
        cases herror
    cases hcontent : content py obj with
    | error e =>
      rw [if_neg (hfails (.inl hcontent)), contentString_of_error hcontent]
      exact ⟨rfl, rfl⟩
    | ok text =>
      rw [content_eq_ok hcontent]
      dsimp only
      cases hfields : laterFields py obj with
      | error e =>
        rw [if_neg (hfails (.inr hfields))]
        exact ⟨rfl, rfl⟩
      | ok fields =>
        rw [if_pos (succeeds_iff.mpr ⟨obj, text, fields, hloads, hcontent, hfields⟩),
          usage_eq_ok (laterFields_eq_ok hfields)]
        exact ⟨rfl, _, rfl⟩

/-! ## 4. The lines -/

theorem payloadsBeforeDone_of_none (h : payload? rawLine = none) :
    payloadsBeforeDone (rawLine :: lines) = payloadsBeforeDone lines := by
  rw [payloadsBeforeDone, List.filterMap_cons_none h]
  rfl

theorem payloadsBeforeDone_of_done (h : payload? rawLine = some donePayload) :
    payloadsBeforeDone (rawLine :: lines) = [] := by
  rw [payloadsBeforeDone, List.filterMap_cons_some h]
  exact List.takeWhile_cons_of_neg (by simp)

theorem payloadsBeforeDone_of_payload (h : payload? rawLine = some payload)
    (hdone : payload ≠ donePayload) :
    payloadsBeforeDone (rawLine :: lines) = payload :: payloadsBeforeDone lines := by
  rw [payloadsBeforeDone, List.filterMap_cons_some h,
    List.takeWhile_cons_of_pos (by simpa using hdone)]
  rfl

theorem deltaTexts_of_payload (h : payload? rawLine = some payload)
    (hdone : payload ≠ donePayload) :
    deltaTexts py (rawLine :: lines) = (textOf py payload).toList ++
      if Succeeds py payload then deltaTexts py lines else [] := by
  unfold deltaTexts payloadsRead
  rw [payloadsBeforeDone_of_payload h hdone]
  dsimp only
  split_ifs with hok
  · rw [List.takeWhile_cons_of_pos hok, List.dropWhile_cons_of_pos hok, List.cons_append]
    cases htext : textOf py payload with
    | none => rw [List.filterMap_cons_none htext]; rfl
    | some t => rw [List.filterMap_cons_some htext]; rfl
  · rw [List.takeWhile_cons_of_neg hok, List.dropWhile_cons_of_neg hok]
    cases htext : textOf py payload with
    | none => simp [htext]
    | some t => simp [htext]

theorem lastUsage_of_payload (h : payload? rawLine = some payload)
    (hdone : payload ≠ donePayload) :
    lastUsage py (rawLine :: lines) = (lastUsage py lines).or (tokensOf py payload) := by
  unfold lastUsage
  rw [payloadsBeforeDone_of_payload h hdone]
  cases htokens : tokensOf py payload with
  | none => rw [List.filterMap_cons_none htokens, Option.or_none]
  | some t =>
    rw [List.filterMap_cons_some htokens, List.getLast?_cons]
    cases ((payloadsBeforeDone lines).filterMap (tokensOf py)).getLast? with
    | none => rfl
    | some t' => rfl

theorem deltaTexts_of_none (h : payload? rawLine = none) :
    deltaTexts py (rawLine :: lines) = deltaTexts py lines := by
  unfold deltaTexts payloadsRead
  rw [payloadsBeforeDone_of_none h]

theorem lastUsage_of_none (h : payload? rawLine = none) :
    lastUsage py (rawLine :: lines) = lastUsage py lines := by
  unfold lastUsage
  rw [payloadsBeforeDone_of_none h]

theorem doneReached_of_none (h : payload? rawLine = none) :
    DoneReached py (rawLine :: lines) ↔ DoneReached py lines := by
  unfold DoneReached
  rw [payloadsBeforeDone_of_none h, List.filterMap_cons_none h]

theorem doneReached_of_payload (h : payload? rawLine = some payload)
    (hdone : payload ≠ donePayload) (hok : Succeeds py payload) :
    DoneReached py (rawLine :: lines) ↔ DoneReached py lines := by
  unfold DoneReached
  rw [payloadsBeforeDone_of_payload h hdone, List.filterMap_cons_some h, List.forall_mem_cons]
  constructor
  · rintro ⟨hmem, _, hall⟩
    exact ⟨(List.mem_cons.mp hmem).resolve_left (Ne.symm hdone), hall⟩
  · rintro ⟨hmem, hall⟩
    exact ⟨List.mem_cons_of_mem _ hmem, hok, hall⟩

/-- **A run of the loop**: it yields the delta texts, and if it ends at `[DONE]` nothing has failed
and the buffer holds the last usage. -/
theorem readLines_spec (b : Buffer) (lines : List Text) :
    (readLines py b lines).1 = (deltaTexts py lines).map .textDelta ∧
      ∀ b', (readLines py b lines).2 = .done b' →
        DoneReached py lines ∧ b'.usage = (lastUsage py lines).or b.usage := by
  induction lines generalizing b with
  | nil => exact ⟨rfl, nofun⟩
  | cons rawLine lines ih =>
    rw [readLines]
    cases hpayload : payload? rawLine with
    | none =>
      rw [readLine_of_none hpayload, deltaTexts_of_none hpayload, lastUsage_of_none hpayload,
        doneReached_of_none hpayload]
      exact ih b
    | some payload =>
      by_cases hdone : payload = donePayload
      · subst hdone
        rw [readLine_of_done hpayload]
        have hnil := @payloadsBeforeDone_of_done _ lines hpayload
        refine ⟨by simp [deltaTexts, payloadsRead, hnil], ?_⟩
        intro b' hb'
        obtain rfl := Ending.done.inj hb'
        refine ⟨⟨?_, by simp [hnil]⟩, by simp [lastUsage, hnil]⟩
        exact List.mem_filterMap.mpr ⟨rawLine, List.mem_cons_self, hpayload⟩
      · obtain ⟨hyield, hnext⟩ := @readLine_of_payload _ py _ _ b hpayload hdone
        rw [deltaTexts_of_payload hpayload hdone, lastUsage_of_payload hpayload hdone]
        cases hline : readLine py b rawLine with
        | mk events next =>
          rw [hline] at hyield hnext
          dsimp only at hyield hnext
          split_ifs at hnext with hok
          · obtain ⟨stopReason, rfl⟩ := hnext
            obtain ⟨hevents, hending⟩ := ih ⟨stopReason, (tokensOf py payload).or b.usage⟩
            dsimp only
            rw [hyield, hevents, if_pos hok, List.map_append,
              doneReached_of_payload hpayload hdone hok]
            refine ⟨rfl, fun b' hb' => ?_⟩
            obtain ⟨hreached, husage⟩ := hending b' hb'
            exact ⟨hreached, husage.trans (Option.or_assoc).symm⟩
          · rw [hnext, if_neg hok, List.append_nil]
            exact ⟨hyield, nofun⟩

/-! ## 5. The exchange -/

variable {x : Exchange} {lowered : List UInt8 → Text}

/-- What `_stream` does: it yields the deltas and then raises, or ends as the contract says. -/
theorem stream_spec (hclose : x.ClosesQuietly) :
    ∃ last, (stream py lowered x).events = (deltaTexts py x.lines).map .textDelta ++ last ∧
      (((stream py lowered x).raised = none ∧ Terminal py x.lines last) ∨
        ((stream py lowered x).raised.isSome ∧ last = [])) := by
  cases x with
  | failed e => exact ⟨[], rfl, .inr ⟨rfl, rfl⟩⟩
  | response resp =>
    unfold stream Exchange.lines
    dsimp only
    split_ifs with hstatus
    · cases resp.aread with
      | error e => exact ⟨[], rfl, .inr ⟨rfl, rfl⟩⟩
      | ok raw => exact ⟨[error _], rfl, .inl ⟨hclose, .error _⟩⟩
    · obtain ⟨hevents, hending⟩ := @readLines_spec _ py {} resp.lines
      cases hread : readLines py {} resp.lines with
      | mk events ending =>
        rw [hread] at hevents hending
        dsimp only at hevents hending ⊢
        subst hevents
        cases ending with
        | raised => exact ⟨[], (List.append_nil _).symm, .inr ⟨rfl, rfl⟩⟩
        | done b =>
          dsimp only
          cases resp.closing false with
          | some e => exact ⟨[], (List.append_nil _).symm, .inr ⟨rfl, rfl⟩⟩
          | none =>
            obtain ⟨hreached, husage⟩ := hending b rfl
            refine ⟨_, List.append_assoc _ _ _, .inl ⟨rfl, ?_⟩⟩
            rw [husage, Option.or_none]
            exact .stop b.stopReason hreached
        | exhausted =>
          dsimp only
          cases resp.readError with
          | some e => exact ⟨[], (List.append_nil _).symm, .inr ⟨rfl, rfl⟩⟩
          | none =>
            dsimp only
            rw [show resp.closing true = none from hclose]
            exact ⟨[error .transient], rfl, .inl ⟨rfl, .error _⟩⟩

/-- **The stream contract holds for every exchange.** -/
theorem stream_contract (hclose : x.ClosesQuietly) : Contract py x (chat py lowered x) := by
  obtain ⟨last, hevents, ⟨hraised, hlast⟩ | ⟨hraised, rfl⟩⟩ := @stream_spec _ py x lowered hclose
  · have hchat : chat py lowered x = stream py lowered x := by
      rw [chat, hraised]
    rw [hchat]
    exact ⟨hraised, last, hlast, hevents⟩
  · obtain ⟨e, he⟩ := Option.isSome_iff_exists.mp hraised
    have hchat : ∃ code, chat py lowered x =
        ⟨(stream py lowered x).events ++ [error code], none⟩ := by
      rw [chat, he]
      cases e with
      | timeout => exact ⟨.transient, rfl⟩
      | httpError => exact ⟨.transient, rfl⟩
      | other => exact ⟨.providerError, rfl⟩
    obtain ⟨code, hchat⟩ := hchat
    rw [hchat, hevents, List.append_nil]
    exact ⟨rfl, [error code], .error code, rfl⟩

/-! ## 6. A recording -/

/-- The first line's payload, and what it is decoded to. -/
def hiText : Text :=
  "\x7b\"choices\": [\x7b\"delta\": \x7b\"content\": \"hi\"\x7d\x7d]\x7d".toList

def hi : Json.Value Int :=
  .obj [(Json.pyStr "choices".toList, .arr [.obj [(Json.pyStr "delta".toList,
    .obj [(Json.pyStr "content".toList, .str (Json.pyStr "hi".toList))])]])]

/-- The second line's. -/
def tenTwoText : Text :=
  "\x7b\"usage\": \x7b\"prompt_tokens\": 10, \"completion_tokens\": 2\x7d\x7d".toList

def tenTwo : Json.Value Int :=
  .obj [(Json.pyStr "usage".toList, .obj [(Json.pyStr "prompt_tokens".toList, .int 10),
    (Json.pyStr "completion_tokens".toList, .int 2)])]

/-- The interpreter, as far as the recording needs it. -/
def recorder : Python Int where
  loads payload :=
    if payload = hiText then .ok hi
    else if payload = tenTwoText then .ok tenTwo
    else .error .valueError
  integer? := some
  asInt value := value.integer? some

def recording : Exchange :=
  .response
    { status := 200
      aread := .ok []
      lines := ["data: ".toList ++ hiText, [], "data: ".toList ++ tenTwoText, "data: [DONE]".toList]
      readError := none
      closing := fun _ => none }

theorem stream_contract_recording :
    Contract recorder recording (chat recorder (fun _ => []) recording) ∧
      chat recorder (fun _ => []) recording =
        ⟨[.textDelta (Json.pyStr "hi".toList), .usage 10 2, .stop .endTurn], none⟩ :=
  ⟨stream_contract rfl, by decide⟩

end AtlasKnowledge.Llm
