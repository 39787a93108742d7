/-
# The event stream, as the frontend reads it

`parseFrame` and the reading loop of `streamChat` (`api/sse.ts`), over a `TextDecoder` in stream
mode.  What is read is what was written (`streamChat_wire`): wherever the network cuts the bytes
and wherever the heartbeats stand.
-/
import AtlasKnowledge.Sse.Format
import AtlasKnowledge.Lib.Frames
import Mathlib.Data.List.DropRight

namespace AtlasKnowledge.Sse

/-! ## 1. `parseFrame` -/

/-- `SseEvent`. -/
structure SseEvent where
  event : Text
  data : Text
  deriving DecidableEq, Repr

/-- WhiteSpace and LineTerminator. -/
def isJsSpace (c : Char) : Bool :=
  (0x09 ≤ c.toNat ∧ c.toNat ≤ 0x0d) ∨ c.toNat = 0x20 ∨ c.toNat = 0xa0 ∨ c.toNat = 0x1680 ∨
    (0x2000 ≤ c.toNat ∧ c.toNat ≤ 0x200a) ∨ c.toNat = 0x2028 ∨ c.toNat = 0x2029 ∨
    c.toNat = 0x202f ∨ c.toNat = 0x205f ∨ c.toNat = 0x3000 ∨ c.toNat = 0xfeff

/-- `String.prototype.trim`. -/
def trim (s : Text) : Text := (s.dropWhile isJsSpace).rdropWhile isJsSpace

/-- `raw.replace(/\r$/, '')`. -/
def dropCr (raw : Text) : Text := if raw.getLast? = some '\r' then raw.dropLast else raw

/-- One line of a frame: the event name and the data so far. -/
def parseLine (seen : Option Text × Text) (raw : Text) : Option Text × Text :=
  let line := dropCr raw
  if ":".toList.isPrefixOf line then seen
  else if "event:".toList.isPrefixOf line then (some (trim (line.drop "event:".length)), seen.2)
  else if "data:".toList.isPrefixOf line then (seen.1, trim (line.drop "data:".length))
  else seen

/-- `parseFrame`. -/
def parseFrame (frame : Text) : Option SseEvent :=
  let seen := (frame.splitOn '\n').foldl parseLine (none, [])
  seen.1.map fun event => ⟨event, seen.2⟩

/-! ## 2. `streamChat` -/

/-- A `TextDecoder` in stream mode: the byte order mark at the start of a stream is dropped. -/
structure TextDecoder where
  utf8 : Utf8.Decoder := {}
  bomSeen : Bool := false
  deriving DecidableEq, Repr

/-- `decoder.decode(value, { stream: true })`. -/
def TextDecoder.decode (d : TextDecoder) (value : Bytes) : TextDecoder × Text :=
  let r := Utf8.decode d.utf8 value
  if d.bomSeen then ({ d with utf8 := r.1 }, r.2)
  else
    match r.2 with
    | [] => ({ d with utf8 := r.1 }, [])
    | c :: t => ({ utf8 := r.1, bomSeen := true }, if c = '\ufeff' then t else c :: t)

/-- The end of a frame. -/
def separator : Text := ['\n', '\n']

theorem separator_ne_nil : separator ≠ [] := by decide

/-- The reading loop, with the decoder and the buffer: one turn for each chunk of the body. -/
def readChunks (d : TextDecoder) (buffer : Text) : List Bytes → List SseEvent
  | [] => []
  | value :: values =>
    let decoded := d.decode value
    let frames := Frames.cut separator separator_ne_nil (buffer ++ decoded.2)
    frames.1.filterMap parseFrame ++ readChunks decoded.1 frames.2 values

/-- `streamChat`, from the body of the response on. -/
def streamChat (chunks : List Bytes) : List SseEvent := readChunks {} [] chunks

/-! ## 3. The chunks -/

/-- What the decoder puts out for all chunks. -/
theorem readChunks_eq (chunks : List Bytes) (d : TextDecoder) (buffer : Text)
    (hbom : d.bomSeen = true ∨ (Utf8.decode d.utf8 chunks.flatten).2.head? ≠ some '\ufeff')
    (hbuffer : Frames.indexOf separator buffer = none) :
    readChunks d buffer chunks =
      (Frames.cut separator separator_ne_nil
        (buffer ++ (Utf8.decode d.utf8 chunks.flatten).2)).1.filterMap parseFrame := by
  induction chunks generalizing d buffer with
  | nil =>
    simp only [List.flatten_nil, Utf8.decode, List.append_nil]
    rw [Frames.cut_none hbuffer]
    rfl
  | cons value values ih =>
    have hflat : (value :: values).flatten = value ++ values.flatten := rfl
    rw [hflat, Utf8.decode_append] at hbom ⊢
    -- the chunk is decoded as it stands
    obtain ⟨bomSeen, hdecode, hrest⟩ : ∃ bomSeen,
        d.decode value = (⟨(Utf8.decode d.utf8 value).1, bomSeen⟩, (Utf8.decode d.utf8 value).2) ∧
        (bomSeen = true ∨ (Utf8.decode (Utf8.decode d.utf8 value).1 values.flatten).2.head?
          ≠ some '\ufeff') := by
      unfold TextDecoder.decode
      cases hseen : d.bomSeen with
      | true => exact ⟨true, rfl, Or.inl rfl⟩
      | false =>
        simp only [hseen, Bool.false_eq_true, false_or, if_false] at hbom ⊢
        cases hout : (Utf8.decode d.utf8 value).2 with
        | nil =>
          rw [hout, List.nil_append] at hbom
          exact ⟨false, rfl, Or.inr hbom⟩
        | cons c t =>
          rw [hout] at hbom
          have hc : c ≠ '\ufeff' := fun h => hbom (by rw [h]; rfl)
          exact ⟨true, by simp only [hc, if_false], Or.inl rfl⟩
    simp only [readChunks, hdecode]
    rw [ih _ _ hrest (Frames.indexOf_rest _), ← List.append_assoc,
      Frames.cut_append (buffer ++ (Utf8.decode d.utf8 value).2), List.filterMap_append]

/-! ## 4. The frames -/

/-- The separator is not found before the first line break. -/
theorem indexOf_line {line : Text} (hline : '\n' ∉ line) (s : Text) :
    Frames.indexOf separator (line ++ s) = (Frames.indexOf separator s).map (· + line.length) := by
  induction line with
  | nil => simp
  | cons c line ih =>
    obtain ⟨hc, hline⟩ := not_or.mp (fun h => hline (List.mem_cons.mpr h))
    have hpre : ¬ separator.isPrefixOf (c :: (line ++ s)) = true := by
      rw [List.isPrefixOf_iff_prefix]
      rintro ⟨u, hu⟩
      exact hc (List.cons.inj hu).1
    rw [List.cons_append, Frames.indexOf, if_neg hpre, ih hline, Option.map_map]
    rfl

/-- The body of a frame with two lines: the separator comes first at its end. -/
theorem indexOf_lines {first second : Text} (hfirst : '\n' ∉ first) (hsecond : '\n' ∉ second)
    (hne : second ≠ []) :
    Frames.indexOf separator (first ++ '\n' :: second ++ separator)
      = some (first ++ '\n' :: second).length := by
  obtain ⟨c, t, rfl⟩ := List.exists_cons_of_ne_nil hne
  have hc : c ≠ '\n' := fun h => hsecond (h ▸ List.mem_cons_self)
  have hpre : ¬ separator.isPrefixOf ('\n' :: (c :: t ++ separator)) = true := by
    rw [List.isPrefixOf_iff_prefix]
    rintro ⟨u, hu⟩
    exact hc (List.cons.inj (List.cons.inj hu).2).1.symm
  have hsep : Frames.indexOf separator separator = some 0 := by decide
  rw [List.append_assoc, indexOf_line hfirst, List.cons_append, Frames.indexOf, if_neg hpre,
    indexOf_line hsecond, hsep]
  simp only [Option.map_some, List.length_append, List.length_cons]
  congr 1
  omega

/-- The body of an item, without its separator. -/
def Item.body : Item → Text
  | .event ev => ("event: ".toList ++ ev.event.text) ++ '\n' :: ("data: ".toList ++ ev.dataText)
  | .ping => ": ping".toList

theorem frame_assoc (e name d data : Text) :
    e ++ name ++ ['\n'] ++ d ++ data ++ ['\n', '\n']
      = (e ++ name) ++ '\n' :: (d ++ data) ++ ['\n', '\n'] := by simp

theorem splitOn_lines {first second : Text} (hfirst : '\n' ∉ first) (hsecond : '\n' ∉ second) :
    (first ++ '\n' :: second).splitOn '\n' = [first, second] := by
  rw [List.splitOn_append_cons_self_of_not_mem hfirst, List.splitOn_eq_singleton hsecond]

theorem Item.text_eq (item : Item) : item.text = item.body ++ separator := by
  cases item with
  | ping => rfl
  | event ev => exact frame_assoc _ _ _ _

theorem eventName_printable (name : EventName) : Printable name.text :=
  .of_all (by cases name <;> decide)

theorem Printable.no_break {s : Text} (h : Printable s) : '\n' ∉ s := fun hmem =>
  absurd (h '\n' hmem) (by decide)

theorem eventLine_printable (ev : AppEvent) : Printable ("event: ".toList ++ ev.event.text) := by
  have hprefix : Printable "event: ".toList := .of_all (by decide)
  exact hprefix.append (eventName_printable ev.event)

theorem dataLine_printable (ev : AppEvent) : Printable ("data: ".toList ++ ev.dataText) := by
  have hprefix : Printable "data: ".toList := .of_all (by decide)
  exact hprefix.append (dumps_printable _)

/-- The data of an event starts and ends with a brace. -/
theorem dataText_eq (ev : AppEvent) : ∃ body, ev.dataText = '{' :: body ++ ['}'] :=
  ⟨joinWith ", ".toList (dumpsMembers ev.data), by rw [AppEvent.dataText, dumps]⟩

/-- A text between braces is not trimmed. -/
theorem trim_braces (body : Text) :
    trim (' ' :: ('{' :: body ++ ['}'])) = '{' :: body ++ ['}'] := by
  have hspace : isJsSpace ' ' = true := by decide
  have hopen : isJsSpace '{' = false := by decide
  have hclose : isJsSpace '}' = false := by decide
  have hleft : (' ' :: ('{' :: body ++ ['}'])).dropWhile isJsSpace = '{' :: body ++ ['}'] := by
    simp [hspace, hopen]
  rw [trim, hleft, List.rdropWhile_concat_neg]
  simp [hclose]

/-- **`parseFrame` takes an event's frame apart**, whatever its data. -/
theorem parseFrame_event (ev : AppEvent) :
    parseFrame (Item.body (.event ev)) = some ⟨ev.event.text, ev.dataText⟩ := by
  obtain ⟨body, hbody⟩ := dataText_eq ev
  have hsplit : (Item.body (.event ev)).splitOn '\n'
      = ["event: ".toList ++ ev.event.text, "data: ".toList ++ ev.dataText] :=
    splitOn_lines (eventLine_printable ev).no_break (dataLine_printable ev).no_break
  have hfirst : parseLine (none, []) ("event: ".toList ++ ev.event.text)
      = (some ev.event.text, []) := by
    cases ev.event <;> decide
  have hsecond : parseLine (some ev.event.text, []) ("data: ".toList ++ ev.dataText)
      = (some ev.event.text, ev.dataText) := by
    have hline : dropCr ("data: ".toList ++ ev.dataText) = "data: ".toList ++ ev.dataText := by
      have hlast : ("data: ".toList ++ ev.dataText).getLast? = some '}' := by
        rw [hbody, ← List.append_assoc, List.getLast?_concat]
      rw [dropCr, hlast, if_neg (by decide)]
    have hdrop : ("data: ".toList ++ ev.dataText).drop "data:".length = ' ' :: ev.dataText := rfl
    have hcolon : ":".toList.isPrefixOf ("data: ".toList ++ ev.dataText) = false := rfl
    have hevent : "event:".toList.isPrefixOf ("data: ".toList ++ ev.dataText) = false := rfl
    have hpre : "data:".toList.isPrefixOf ("data: ".toList ++ ev.dataText) = true := rfl
    simp only [parseLine, hline, hcolon, hevent, hpre, hdrop, if_true, Bool.false_eq_true, if_false]
    rw [hbody, trim_braces]
  simp only [parseFrame, hsplit, List.foldl_cons, List.foldl_nil, hfirst, hsecond, Option.map_some]

/-- The body of an item is free of separators. -/
theorem indexOf_body (item : Item) :
    Frames.indexOf separator (item.body ++ separator) = some item.body.length := by
  cases item with
  | ping => decide
  | event ev =>
    exact indexOf_lines (eventLine_printable ev).no_break (dataLine_printable ev).no_break nofun

/-! ## 5. The result -/

/-- No stream starts with a byte order mark. -/
theorem head_ne_bom (items : List Item) : (items.flatMap Item.text).head? ≠ some '\ufeff' := by
  cases items with
  | nil => exact nofun
  | cons item items => cases item <;> exact fun h => absurd (Option.some.inj h) (by decide)

/-- What is read are the bodies of the items, parsed. -/
theorem streamChat_frames (items : List Item) (chunks : List Bytes)
    (hchunks : chunks.flatten = wire items) :
    streamChat chunks = (items.map Item.body).filterMap parseFrame := by
  have hdecode : (Utf8.decode {} chunks.flatten).2 = items.flatMap Item.text := by
    rw [hchunks, wire, Utf8.decode_encode]
  have hframes : items.flatMap Item.text
      = (items.map Item.body).flatMap fun f => f ++ separator := by
    rw [List.flatMap_map]
    congr 1
    funext item
    exact Item.text_eq item
  have hcut := Frames.cut_frames separator_ne_nil (items.map Item.body) (by
    intro f hf
    obtain ⟨item, -, rfl⟩ := List.mem_map.mp hf
    exact indexOf_body item)
  rw [streamChat, readChunks_eq chunks {} [] (Or.inr (hdecode ▸ head_ne_bom items)) (by decide),
    hdecode, List.nil_append, hframes, hcut]

/-- A heartbeat is skipped, and an event's frame is parsed. -/
theorem parseFrame_bodies (items : List Item) :
    (items.map Item.body).filterMap parseFrame
      = (eventsOf items).map fun ev => ⟨ev.event.text, ev.dataText⟩ := by
  rw [List.filterMap_map, eventsOf, List.map_filterMap]
  congr 1
  funext item
  cases item with
  | ping => decide
  | event ev => exact parseFrame_event ev

/-- **The stream comes back.**  Whatever events the orchestrator yields, wherever heartbeats stand
between their frames and wherever the network cuts the bytes, the frontend yields these events, in
order, each with its name and with the text of its data. -/
theorem streamChat_wire (items : List Item) (chunks : List Bytes)
    (hchunks : chunks.flatten = wire items) :
    streamChat chunks = (eventsOf items).map fun ev => ⟨ev.event.text, ev.dataText⟩ := by
  rw [streamChat_frames items chunks hchunks, parseFrame_bodies]

def sampleEvent : AppEvent := ⟨.delta, [("text".toList, .str ['好'])]⟩

/-- One event, cut inside its only wide character, and a heartbeat. -/
theorem streamChat_wire_cut :
    streamChat [(wire [.event sampleEvent, .ping]).take 30,
      (wire [.event sampleEvent, .ping]).drop 30]
      = [⟨sampleEvent.event.text, sampleEvent.dataText⟩] :=
  streamChat_wire [.event sampleEvent, .ping] _ (by simp)

end AtlasKnowledge.Sse
