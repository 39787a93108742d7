/-
# The cache of query embeddings

`QueryEmbeddingCache` and `embed_query` of `infrastructure/embedding/cache.py`, with any number of
calls in flight on one store.  Each `await` is a step of its own: reading the store, asking the
provider, writing the store.  Between them entries expire and are evicted, and somebody else may
write a value that is not a JSON array of numbers.

* `key_inj`: two versions or two texts never share a key;
* `cache_transparent`: a run is transparent exactly if every value of somebody else that is read is
  refused, or is read as the vector itself;
* `not_transparent`: a JSON string of two digits is read as a vector of two numbers.
-/
import AtlasKnowledge.Embedding.OpenAiCompat
import AtlasKnowledge.Lib.Interleave
import AtlasKnowledge.Lib.Transition
import AtlasKnowledge.Lib.Utf8
import Mathlib.Data.Set.Function

namespace AtlasKnowledge.Embedding.Cache

open Interleave Transition
open Json (Raised PyStr)

variable {F R : Type}

/-! ## 1. `QueryEmbeddingCache` -/

/-- What the cache runs on: the interpreter, `hashlib.sha256(...).hexdigest`, `json.dumps` and
`json.loads`.  `R` is what the store holds. -/
structure Runtime (F R : Type) where
  python : Python F
  sha256 : Bytes → Text
  dumps : List F → R
  loads : R → Except Raised (Json.Value F)

/-- `encode("utf-8")`; `none` is a `UnicodeEncodeError`. -/
def encode (query : PyStr) : Option Bytes := (Json.toText? query).map Utf8.encode

section

variable (rt : Runtime F R)

/-- `_key`. -/
def key (version : Text) (query : PyStr) : Option Text :=
  (encode query).map fun bytes => "emb:q:".toList ++ version ++ ':' :: rt.sha256 bytes

/-- `[float(x) for x in json.loads(raw)]`. -/
def decode (raw : R) : Except Raised (List F) := do
  let items ← (← rt.loads raw).iterate
  items.mapM rt.python.float

/-- `except (ValueError, TypeError)`. -/
def isMiss : Raised → Bool
  | .valueError | .typeError => true
  | .keyError | .indexError | .attributeError | .overflowError | .recursionError => false

/-- `QueryEmbeddingCache.get`, when the store has answered: `none` if the request or the key
failed. -/
def get : Option (Option R) → Except Raised (Option (List F))
  | none | some none => .ok none
  | some (some raw) =>
    match decode rt raw with
    | .ok vector => .ok (some vector)
    | .error e => if isMiss e then .ok none else .error e

end

/-! ## 2. `embed_query` -/

/-- Where a call is.  `got` is the value that the store returned. -/
inductive Pc (F R : Type) where
  | started
  | missed (got : Option R)
  | embedded (got : Option R) (vector : List F)
  | returned (vector : List F)
  | raised (e : Raised)

structure Call (F R : Type) where
  version : Text
  text : PyStr
  pc : Pc F R := .started

/-- The store, and every value that a call has written to it, with its version and its text. -/
structure Store (R : Type) where
  entries : Text → Option R
  written : List (Text × PyStr × R)

/-- What a step of a call comes to: whether the store answers; the provider answers; whether the
value gets into the store, where an exception is caught in any case. -/
inductive Reply where
  | get (answers : Bool)
  | embed
  | set (stores : Bool)

inductive Label (R : Type) where
  | call (version : Text) (text : PyStr)
  | act (i : Nat) (reply : Reply)
  | drop (key : Text)
  | foreign (key : Text) (raw : R)

abbrev State (F R : Type) : Type := Par (Store R) (Call F R)

def isNumber : Json.Value F → Bool
  | .int _ | .float _ => true
  | .null | .bool _ | .str _ | .arr _ | .obj _ => false

section

variable (rt : Runtime F R) (provider : Text → PyStr → List F)

/-- A JSON array of numbers. -/
def isNumberArray (raw : R) : Bool :=
  match rt.loads raw with
  | .ok (.arr items) => items.all isNumber
  | _ => false

/-- What the store answers to a call. -/
def answer (store : Store R) (call : Call F R) (answers : Bool) : Option (Option R) :=
  match key rt call.version call.text with
  | none => none
  | some k => if answers then some (store.entries k) else none

/-- One step of `embed_query`. -/
def Call.step (store : Store R) (call : Call F R) : Reply → Option (Store R × Call F R)
  | .get answers =>
    match call.pc with
    | .started =>
      let got := answer rt store call answers
      match get rt got with
      | .ok (some cached) => some (store, { call with pc := .returned cached })
      | .ok none => some (store, { call with pc := .missed got.join })
      | .error e => some (store, { call with pc := .raised e })
    | _ => none
  | .embed =>
    match call.pc with
    | .missed got =>
      some (store, { call with pc := .embedded got (provider call.version call.text) })
    | _ => none
  | .set stores =>
    match call.pc with
    | .embedded _ vector =>
      let call' := { call with pc := .returned vector }
      match key rt call.version call.text with
      | none => some (store, call')
      | some k =>
        if stores then
          some
            ({ entries := Function.update store.entries k (some (rt.dumps vector))
               written := store.written ++ [(call.version, call.text, rt.dumps vector)] },
              call')
        else some (store, call')
    | _ => none

/-- One step of the system. -/
def step (s : State F R) : Label R → Option (State F R)
  | .call version text => some (s.spawn ⟨version, text, .started⟩)
  | .act i reply => s.act (fun store call => Call.step rt provider store call) i reply
  | .drop k =>
    some { s with shared := { s.shared with entries := Function.update s.shared.entries k none } }
  | .foreign k raw =>
    if isNumberArray rt raw then none
    else some
      { s with
        shared := { s.shared with entries := Function.update s.shared.entries k (some raw) } }

end

/-- An empty store, and no calls. -/
def initial : State F R := ⟨⟨fun _ => none, []⟩, []⟩

/-! ## 3. Keys and values -/

section

variable {rt : Runtime F R}

theorem encode_inj {s t : PyStr} {bytes : Bytes} (hs : encode s = some bytes)
    (ht : encode t = some bytes) : s = t := by
  obtain ⟨text, htext, rfl⟩ := Option.map_eq_some_iff.mp hs
  obtain ⟨text', htext', hbytes⟩ := Option.map_eq_some_iff.mp ht
  have hsame : text' = text := by
    have hdecode := congrArg (Utf8.decode {}) hbytes
    rw [Utf8.decode_encode, Utf8.decode_encode] at hdecode
    exact (Prod.mk.inj hdecode).2
  rw [Json.eq_pyStr htext, Json.eq_pyStr htext', hsame]

/-- SHA-256 has no collision on the texts, and 64 digits. -/
structure Digests (rt : Runtime F R) (texts : Set PyStr) : Prop where
  length : ∀ bytes, (rt.sha256 bytes).length = 64
  injective : Set.InjOn rt.sha256 {bytes | ∃ text ∈ texts, encode text = some bytes}

/-- **Two versions or two texts never share a key.** -/
theorem key_inj {texts : Set PyStr} (hdigests : Digests rt texts) {version version' : Text}
    {text text' : PyStr} (htext : text ∈ texts) (htext' : text' ∈ texts) {k : Text}
    (h : key rt version text = some k) (h' : key rt version' text' = some k) :
    version = version' ∧ text = text' := by
  obtain ⟨bytes, hbytes, rfl⟩ := Option.map_eq_some_iff.mp h
  obtain ⟨bytes', hbytes', hkey⟩ := Option.map_eq_some_iff.mp h'
  -- the digests have the same length, so the versions end at the same place
  have hlength : (':' :: rt.sha256 bytes').length = (':' :: rt.sha256 bytes).length := by
    rw [List.length_cons, List.length_cons, hdigests.length, hdigests.length]
  obtain ⟨hfront, hdigest⟩ := List.append_inj' hkey hlength
  have hsame := hdigests.injective ⟨text', htext', hbytes'⟩ ⟨text, htext, hbytes⟩
    (List.cons.inj hdigest).2
  exact ⟨(List.append_cancel_left hfront).symm, encode_inj hbytes (hsame ▸ hbytes')⟩

/-- The value is read as the vector. -/
def Decodes (rt : Runtime F R) (raw : R) (vector : List F) : Prop :=
  ∃ value items, rt.loads raw = .ok value ∧ value.iterate = .ok items ∧
    List.Forall₂ (fun item x => rt.python.float item = .ok x) items vector

/-- The value is no JSON; or there is nothing in it to go through; or behind items that are numbers,
or texts of numbers, stands one that `float` does not take. -/
inductive Refused (rt : Runtime F R) (raw : R) : Prop where
  | notJson {e : Raised} (loads : rt.loads raw = .error e) (miss : isMiss e = true)
  | nothing {value : Json.Value F} {e : Raised} (loads : rt.loads raw = .ok value)
      (iterate : value.iterate = .error e) (miss : isMiss e = true)
  | item {value item : Json.Value F} {front back : List (Json.Value F)} {e : Raised}
      (loads : rt.loads raw = .ok value) (iterate : value.iterate = .ok (front ++ item :: back))
      (numbers : ∀ x ∈ front, (rt.python.float x).isOk = true)
      (refuses : rt.python.float item = .error e) (miss : isMiss e = true)

theorem decode_eq_ok {raw : R} {vector : List F} :
    decode rt raw = .ok vector ↔ Decodes rt raw vector := by
  simp only [decode, Decodes, Fallible.bind_eq_ok, Fallible.mapM_eq_ok]
  constructor
  · rintro ⟨value, hloads, items, hiterate, hitems⟩
    exact ⟨value, items, hloads, hiterate, hitems⟩
  · rintro ⟨value, items, hloads, hiterate, hitems⟩
    exact ⟨value, hloads, items, hiterate, hitems⟩

theorem decode_eq_miss {raw : R} :
    (∃ e, decode rt raw = .error e ∧ isMiss e = true) ↔ Refused rt raw := by
  simp only [decode, Fallible.bind_eq_error, Fallible.mapM_eq_error]
  constructor
  · rintro ⟨e, hloads | ⟨value, hloads, hiterate | ⟨_, hiterate, front, item, back, rfl, hfront,
      hitem⟩⟩, hmiss⟩
    · exact .notJson hloads hmiss
    · exact .nothing hloads hiterate hmiss
    · exact .item hloads hiterate hfront hitem hmiss
  · rintro (⟨hloads, hmiss⟩ | ⟨hloads, hiterate, hmiss⟩ | ⟨hloads, hiterate, hfront, hitem, hmiss⟩)
    · exact ⟨_, .inl hloads, hmiss⟩
    · exact ⟨_, .inr ⟨_, hloads, .inl hiterate⟩, hmiss⟩
    · exact ⟨_, .inr ⟨_, hloads, .inr ⟨_, hiterate, _, _, _, rfl, hfront, hitem⟩⟩, hmiss⟩

end

/-! ## 4. Transparent runs -/

/-- The value that the store returned to a call which has asked the provider since, or will. -/
def Pc.got? : Pc F R → Option R
  | .missed got | .embedded got _ => got
  | .started | .returned _ | .raised _ => none

/-- What is still to do. -/
def Pc.left : Pc F R → Nat
  | .started => 3
  | .missed _ => 2
  | .embedded _ _ => 1
  | .returned _ | .raised _ => 0

section

variable (rt : Runtime F R) (provider : Text → PyStr → List F)

/-- Every call that has returned has returned the provider's vector, no call has raised, and no call
asks the provider that got a value written for its version and its text. -/
structure Transparent (s : State F R) : Prop where
  exact : ∀ (i : Nat) call, s.parties[i]? = some call → ∀ vector,
    call.pc = .returned vector → vector = provider call.version call.text
  noRaise : ∀ (i : Nat) call, s.parties[i]? = some call → ∀ e, call.pc ≠ .raised e
  asks : ∀ (i : Nat) call, s.parties[i]? = some call → ∀ raw,
    call.pc.got? = some raw → (call.version, call.text, raw) ∉ s.shared.written

/-- A call has written the value under the key. -/
def WrittenAt (store : Store R) (k : Text) (raw : R) : Prop :=
  ∃ version text, (version, text, raw) ∈ store.written ∧ key rt version text = some k

/-- A value of somebody else that the step reads is refused, or read as the vector itself. -/
def ReadsOk (s : State F R) : Label R → Prop
  | .act i (.get true) => ∀ call k raw, s.parties[i]? = some call → call.pc = .started →
      key rt call.version call.text = some k → s.shared.entries k = some raw →
      ¬ WrittenAt rt s.shared k raw →
      Refused rt raw ∨ Decodes rt raw (provider call.version call.text)
  | _ => True

/-- The calls of a run. -/
def Called (labels : List (Label R)) : Set PyStr :=
  {text | ∃ version, Label.call version text ∈ labels}

/-- JSON numbers come back as they were. -/
def RoundTrips : Prop :=
  ∀ version text, rt.loads (rt.dumps (provider version text))
    = .ok (.arr ((provider version text).map .float))

/-- What holds of a call wherever it is. -/
def Call.Ok (texts : Set PyStr) (call : Call F R) : Prop :=
  call.text ∈ texts ∧
  match call.pc with
  | .started => True
  | .missed got => ∀ raw, got = some raw → Refused rt raw
  | .embedded got vector =>
    (∀ raw, got = some raw → Refused rt raw) ∧ vector = provider call.version call.text
  | .returned vector => vector = provider call.version call.text
  | .raised _ => False

structure Inv (texts : Set PyStr) (s : State F R) : Prop where
  written : ∀ version text raw, (version, text, raw) ∈ s.shared.written →
    text ∈ texts ∧ raw = rt.dumps (provider version text)
  calls : ∀ (i : Nat) call, s.parties[i]? = some call → call.Ok rt provider texts

end

variable {rt : Runtime F R} {provider : Text → PyStr → List F} {texts : Set PyStr}
  {s s' : State F R}

theorem decodes_dumps (hround : RoundTrips rt provider) (version : Text) (text : PyStr) :
    Decodes rt (rt.dumps (provider version text)) (provider version text) :=
  ⟨_, _, hround version text, rfl, List.forall₂_map_left_iff.mpr
    (List.forall₂_same.mpr fun _ _ => rfl)⟩

theorem not_refused {raw : R} {vector : List F} (h : Decodes rt raw vector) : ¬ Refused rt raw := by
  intro hrefused
  obtain ⟨e, he, -⟩ := decode_eq_miss.mpr hrefused
  exact nomatch he.symm.trans (decode_eq_ok.mpr h)

/-- Where a call is when `get` has come back, or has raised. -/
def Pc.afterGet (got : Option R) : Except Raised (Option (List F)) → Pc F R
  | .ok (some vector) => .returned vector
  | .ok none => .missed got
  | .error e => .raised e

theorem step_get {store store' : Store R} {call call' : Call F R} {answers : Bool}
    (h : Call.step rt provider store call (.get answers) = some (store', call')) :
    call.pc = .started ∧ store' = store ∧
      let got := answer rt store call answers
      call' = { call with pc := .afterGet got.join (get rt got) } := by
  simp only [Call.step] at h
  split at h
  · rename_i hpc
    refine ⟨hpc, ?_⟩
    split at h
    · rename_i hget
      obtain ⟨rfl, rfl⟩ := Prod.mk.inj (Option.some.inj h)
      exact ⟨rfl, by simp only [hget]; rfl⟩
    · rename_i hget
      obtain ⟨rfl, rfl⟩ := Prod.mk.inj (Option.some.inj h)
      exact ⟨rfl, by simp only [hget]; rfl⟩
    · rename_i hget
      obtain ⟨rfl, rfl⟩ := Prod.mk.inj (Option.some.inj h)
      exact ⟨rfl, by simp only [hget]; rfl⟩
  · exact nomatch h

theorem get_of_refused {raw : R} (h : Refused rt raw) : get rt (some (some raw)) = .ok none := by
  obtain ⟨e, he, hmiss⟩ := decode_eq_miss.mpr h
  simp only [get, he, hmiss, if_true]

theorem get_of_decodes {raw : R} {vector : List F} (h : Decodes rt raw vector) :
    get rt (some (some raw)) = .ok (some vector) := by
  simp only [get, decode_eq_ok.mpr h]

/-- What a call gets from the store, if it gets a value. -/
theorem answer_eq_some {store : Store R} {call : Call F R} {answers : Bool} {raw : R} :
    answer rt store call answers = some (some raw) ↔
      answers = true ∧ ∃ k, key rt call.version call.text = some k ∧
        store.entries k = some raw := by
  unfold answer
  cases hkey : key rt call.version call.text with
  | none => simp
  | some k => cases answers <;> simp

/-- The value that a call reads is refused, or is its vector. -/
theorem reads (hdigests : Digests rt texts) (hround : RoundTrips rt provider)
    (hinv : Inv rt provider texts s) {i : Nat} {call : Call F R} {answers : Bool} {raw : R}
    (hok : ReadsOk rt provider s (.act i (.get answers))) (hcall : s.parties[i]? = some call)
    (hpc : call.pc = .started) (hanswer : answer rt s.shared call answers = some (some raw)) :
    Refused rt raw ∨ Decodes rt raw (provider call.version call.text) := by
  obtain ⟨rfl, k, hkey, hentry⟩ := answer_eq_some.mp hanswer
  by_cases hwritten : WrittenAt rt s.shared k raw
  · -- it was written under this key, so for this version and this text
    obtain ⟨version, text, hmem, hkey'⟩ := hwritten
    obtain ⟨htext, rfl⟩ := hinv.written version text raw hmem
    obtain ⟨rfl, rfl⟩ := key_inj hdigests (hinv.calls i call hcall).1 htext hkey hkey'
    exact .inr (decodes_dumps hround _ _)
  · exact hok call k raw hcall hpc hkey hentry hwritten

theorem ok_get (hdigests : Digests rt texts) (hround : RoundTrips rt provider)
    (hinv : Inv rt provider texts s) {i : Nat} {call call' : Call F R} {answers : Bool}
    {store' : Store R} (hok : ReadsOk rt provider s (.act i (.get answers)))
    (hcall : s.parties[i]? = some call)
    (h : Call.step rt provider s.shared call (.get answers) = some (store', call')) :
    store' = s.shared ∧ call'.Ok rt provider texts := by
  obtain ⟨hpc, rfl, rfl⟩ := step_get h
  refine ⟨rfl, (hinv.calls i call hcall).1, ?_⟩
  rcases hanswer : answer rt s.shared call answers with _ | _ | raw
  · exact fun _ => nofun
  · exact fun _ => nofun
  · rcases reads hdigests hround hinv hok hcall hpc hanswer with hrefused | hdecodes
    · rw [get_of_refused hrefused]
      exact fun raw' hraw' => Option.some.inj hraw' ▸ hrefused
    · rw [get_of_decodes hdecodes]
      exact rfl

/-- **What one step keeps.** -/
theorem Inv.step (hdigests : Digests rt texts) (hround : RoundTrips rt provider)
    (hinv : Inv rt provider texts s) {l : Label R} (hok : ReadsOk rt provider s l)
    (hcalled : ∀ version text, l = .call version text → text ∈ texts)
    (h : step rt provider s l = some s') : Inv rt provider texts s' := by
  cases l with
  | call version text =>
    obtain rfl := Option.some.inj h
    refine ⟨hinv.written, fun j call hj => ?_⟩
    rcases concat_cases hj with ⟨-, rfl⟩ | hj
    · exact ⟨hcalled version text rfl, trivial⟩
    · exact hinv.calls j call hj
  | drop k =>
    obtain rfl := Option.some.inj h
    exact ⟨hinv.written, hinv.calls⟩
  | foreign k raw =>
    simp only [Cache.step] at h
    split_ifs at h
    obtain rfl := Option.some.inj h
    exact ⟨hinv.written, hinv.calls⟩
  | act i reply =>
    obtain ⟨call, store', call', hcall, hstep, rfl⟩ := Par.act_eq_some.mp h
    have hbefore := hinv.calls i call hcall
    cases reply with
    | get answers =>
      obtain ⟨rfl, hafter⟩ := ok_get hdigests hround hinv hok hcall hstep
      exact ⟨hinv.written, forall_set hinv.calls hafter⟩
    | embed =>
      simp only [Call.step] at hstep
      split at hstep
      · rename_i got hpc
        obtain ⟨rfl, rfl⟩ := Prod.mk.inj (Option.some.inj hstep)
        refine ⟨hinv.written, forall_set hinv.calls ⟨hbefore.1, ?_, rfl⟩⟩
        have hgot := hbefore.2
        rwa [hpc] at hgot
      · exact nomatch hstep
    | set stores =>
      simp only [Call.step] at hstep
      split at hstep
      · rename_i got vector hpc
        have hvector := hbefore.2
        rw [hpc] at hvector
        have hafter : Call.Ok rt provider texts { call with pc := .returned vector } :=
          ⟨hbefore.1, hvector.2⟩
        split at hstep
        · obtain ⟨rfl, rfl⟩ := Prod.mk.inj (Option.some.inj hstep)
          exact ⟨hinv.written, forall_set hinv.calls hafter⟩
        · split_ifs at hstep
          · obtain ⟨rfl, rfl⟩ := Prod.mk.inj (Option.some.inj hstep)
            refine ⟨fun version text raw hmem => ?_, forall_set hinv.calls hafter⟩
            rcases List.mem_append.mp hmem with hmem | hmem
            · exact hinv.written version text raw hmem
            · obtain ⟨rfl, hrest⟩ := Prod.mk.inj (List.mem_singleton.mp hmem)
              obtain ⟨rfl, rfl⟩ := Prod.mk.inj hrest
              exact ⟨hbefore.1, by rw [hvector.2]⟩
          · obtain ⟨rfl, rfl⟩ := Prod.mk.inj (Option.some.inj hstep)
            exact ⟨hinv.written, forall_set hinv.calls hafter⟩
      · exact nomatch hstep

theorem Inv.transparent (hround : RoundTrips rt provider) (hinv : Inv rt provider texts s) :
    Transparent provider s := by
  refine ⟨fun i call hcall vector hpc => ?_, fun i call hcall e hpc => ?_,
    fun i call hcall raw hgot hmem => ?_⟩
  · have hok := (hinv.calls i call hcall).2
    rwa [hpc] at hok
  · have hok := (hinv.calls i call hcall).2
    rwa [hpc] at hok
  · obtain ⟨-, rfl⟩ := hinv.written _ _ raw hmem
    refine not_refused (decodes_dumps hround call.version call.text) ?_
    have hok := (hinv.calls i call hcall).2
    cases hpc : call.pc with
    | missed got =>
      rw [hpc] at hok hgot
      exact hok _ hgot
    | embedded got vector =>
      rw [hpc] at hok hgot
      exact hok.1 _ hgot
    | started | returned | raised =>
      rw [hpc] at hgot
      exact nomatch hgot

theorem inv_initial : Inv rt provider texts initial :=
  ⟨fun _ _ _ h => absurd h List.not_mem_nil, fun _ _ h => by simp [initial] at h⟩

/-! ## 5. The result -/

/-- A step after which everything is as it should be has not read what it should not. -/
theorem readsOk_of_transparent {l : Label R} (h : step rt provider s l = some s')
    (htransparent : Transparent provider s') : ReadsOk rt provider s l := by
  cases l with
  | act i reply =>
    cases reply with
    | get answers =>
      cases answers with
      | false => trivial
      | true =>
        intro call k raw hcall hpc hkey hentry _
        obtain ⟨call₀, store', call', hcall₀, hstep, rfl⟩ := Par.act_eq_some.mp h
        obtain rfl := Option.some.inj (hcall.symm.trans hcall₀)
        have hparty := set_self (q := call') hcall
        obtain ⟨-, -, rfl⟩ := step_get hstep
        have hanswer := answer_eq_some.mpr ⟨rfl, k, hkey, hentry⟩
        cases hdecode : decode rt raw with
        | ok vector =>
          have hexact := htransparent.exact i _ hparty vector
            (by simp only [hanswer, get, hdecode]; rfl)
          exact .inr (decode_eq_ok.mp (hexact ▸ hdecode))
        | error e =>
          by_cases hmiss : isMiss e = true
          · exact .inl (decode_eq_miss.mp ⟨e, hdecode, hmiss⟩)
          · have hraised : get rt (some (some raw)) = .error e := by
              simp only [get, hdecode, hmiss, Bool.false_eq_true, if_false]
            exact absurd (by simp only [hanswer, hraised]; rfl) (htransparent.noRaise i _ hparty e)
    | embed | set => trivial
  | call | drop | foreign => trivial

/-- **A call that has not returned can move**, and has less to do then. -/
theorem moves {i : Nat} {call : Call F R} (hcall : s.parties[i]? = some call)
    (hleft : call.pc.left ≠ 0) :
    ∃ reply s' call', step rt provider s (.act i reply) = some s' ∧ s'.parties[i]? = some call' ∧
      call'.pc.left < call.pc.left := by
  have hmove {reply : Reply} {store' : Store R} {call' : Call F R}
      (hstep : Call.step rt provider s.shared call reply = some (store', call'))
      (hless : call'.pc.left < call.pc.left) :
      ∃ reply s' call', step rt provider s (.act i reply) = some s' ∧
        s'.parties[i]? = some call' ∧ call'.pc.left < call.pc.left :=
    ⟨reply, _, call', Par.act_eq_some.mpr ⟨call, store', call', hcall, hstep, rfl⟩,
      set_self hcall, hless⟩
  cases hpc : call.pc with
  | started =>
    rw [hpc] at hmove
    refine @hmove (.get false) s.shared { call with pc := .missed none } ?_ (Nat.lt_succ_self 2)
    have hanswer : answer rt s.shared call false = none := by
      unfold answer
      cases key rt call.version call.text <;> rfl
    simp [Call.step, hpc, hanswer, get]
  | missed got =>
    rw [hpc] at hmove
    refine @hmove .embed s.shared
      { call with pc := .embedded got (provider call.version call.text) } ?_ (Nat.lt_succ_self 1)
    simp [Call.step, hpc]
  | embedded got vector =>
    rw [hpc] at hmove
    refine @hmove (.set false) s.shared { call with pc := .returned vector } ?_ Nat.zero_lt_one
    cases hkey : key rt call.version call.text <;> simp [Call.step, hpc, hkey]
  | returned | raised => exact absurd (by rw [hpc]; rfl) hleft

/-- **The cache is transparent in every state of a run exactly if** every value of somebody else
that a step reads is refused, or read as the vector itself; and each call can go on until it has
returned. -/
theorem cache_transparent (hround : RoundTrips rt provider) {labels : List (Label R)}
    (hdigests : Digests rt (Called labels))
    (hrun : run (step rt provider) initial labels = some s) :
    (Guarded (step rt provider) (ReadsOk rt provider) initial labels ↔
      ∀ front back s', labels = front ++ back → run (step rt provider) initial front = some s' →
        Transparent provider s') ∧
    ∀ (i : Nat) call, s.parties[i]? = some call → call.pc.left ≠ 0 →
      ∃ reply s' call', step rt provider s (.act i reply) = some s' ∧
        s'.parties[i]? = some call' ∧ call'.pc.left < call.pc.left := by
  refine ⟨⟨fun hguarded => ?_, fun htransparent => ?_⟩, fun i call hcall hleft => moves hcall hleft⟩
  · rintro front back s' rfl hfront
    have hcalled : Guarded (step rt provider)
        (fun _ l => ∀ version text, l = .call version text → text ∈ Called (front ++ back))
        initial (front ++ back) :=
      guarded_of_forall _ fun l hl version text heq => ⟨version, heq ▸ hl⟩
    have hinv : Inv rt provider (Called (front ++ back)) s' :=
      run_invariant (fun s l s' hinv hok hstep => hinv.step hdigests hround hok.1 hok.2 hstep)
        inv_initial (guarded_append.mp (hguarded.and hcalled)).1 hfront
    exact hinv.transparent hround
  · refine guarded_of_reached hrun fun front l back s₁ s₂ hlabels _ hfront hl => ?_
    refine readsOk_of_transparent hl (htransparent (front ++ [l]) back s₂ ?_ ?_)
    · rw [hlabels, List.append_assoc]
      rfl
    · exact run_append_eq_some.mpr ⟨s₁, hfront, by simp [hl]⟩

/-! ### Values of somebody else -/

/-- Floats of digits; the digest of `a`; the vectors `[0.5]`, and JSON as far as it is met here. -/
def sampleRuntime : Runtime Rat Text where
  python :=
    { ofInt := fun n => some n
      ofStr := fun
        | [.scalar c] => if c.isDigit then some (c.toNat - 48) else none
        | _ => none
      integer? := fun x => if x.den = 1 then some x.num else none
      sorted := Fallible.sortedBy fun _ _ => .error .typeError }
  sha256 _ := "ca978112ca1bbdcafac231b39a23dc4da786eff8147c4e72b9807785afee48bb".toList
  dumps _ := "[0.5]".toList
  loads raw :=
    if raw = "[0.5]".toList then .ok (.arr [.float (1 / 2)])
    else if raw = "\"12\"".toList then .ok (.str (Json.pyStr "12".toList))
    else .error .valueError

def sampleProvider (_ : Text) (_ : PyStr) : List Rat := [1 / 2]

def sampleKey : Text :=
  "emb:q:v:ca978112ca1bbdcafac231b39a23dc4da786eff8147c4e72b9807785afee48bb".toList

/-- Somebody writes a value, and a call goes as far as the steps. -/
def sampleRun (raw : Text) (replies : List Reply) : List (Label Text) :=
  .foreign sampleKey raw :: .call ['v'] [.scalar 'a'] :: replies.map (.act 0)

/-- No JSON: the call asks the provider. -/
theorem cache_transparent_notJson :
    ∃ s, run (step sampleRuntime sampleProvider) initial
        (sampleRun "not-json".toList [.get true, .embed, .set true]) = some s ∧
      Transparent sampleProvider s := by
  have hdigests : Digests sampleRuntime
      (Called (sampleRun "not-json".toList [.get true, .embed, .set true])) := by
    refine ⟨fun _ => rfl, ?_⟩
    rintro bytes ⟨text, ⟨version, htext⟩, hbytes⟩ bytes' ⟨text', ⟨version', htext'⟩, hbytes'⟩ -
    simp only [sampleRun, List.map_cons, List.map_nil, List.mem_cons, List.not_mem_nil, or_false,
      reduceCtorEq, false_or, Label.call.injEq] at htext htext'
    obtain rfl := htext.2.trans htext'.2.symm
    exact Option.some.inj (hbytes.symm.trans hbytes')
  refine ⟨_, rfl, (cache_transparent (fun _ _ => rfl) hdigests rfl).1.mp ?_ _ [] _
    (List.append_nil _).symm rfl⟩
  refine ⟨trivial, fun s₁ h₁ => ⟨trivial, fun s₂ h₂ => ⟨?_, fun _ _ =>
    ⟨trivial, fun _ _ => ⟨trivial, fun _ _ => trivial⟩⟩⟩⟩⟩
  obtain rfl := Option.some.inj h₁
  obtain rfl := Option.some.inj h₂
  intro call k raw hcall _ hkey hentry _
  obtain rfl := Option.some.inj hcall
  obtain rfl := Option.some.inj hkey
  obtain rfl := Option.some.inj hentry
  exact .inl (.notJson rfl rfl)

/-- A JSON string of two digits: the call returns two numbers. -/
theorem not_transparent :
    ∃ s, run (step sampleRuntime sampleProvider) initial
        (sampleRun "\"12\"".toList [.get true]) = some s ∧ ¬ Transparent sampleProvider s := by
  refine ⟨_, rfl, fun h => ?_⟩
  have hexact := h.exact 0 _ rfl _ rfl
  exact absurd hexact (by decide +kernel)

end AtlasKnowledge.Embedding.Cache
