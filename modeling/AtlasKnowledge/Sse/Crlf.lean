/-
# A stream with CR LF

`parseFrame` takes a CR off the end of each line, but the frames are cut at LF LF, and a stream
whose lines end in CR LF has no LF LF in it: nothing is ever cut, and nothing is yielded.

* `streamChat_crlf`: what is read from such a stream is what was written exactly if that is nothing;
* `not_crlf`: one event.
-/
import AtlasKnowledge.Sse.StreamChat

namespace AtlasKnowledge.Sse

/-! ## 1. The stream -/

/-- The bytes with every LF replaced by CR LF. -/
def crlf (bytes : Bytes) : Bytes := bytes.flatMap fun b => if b = 0x0a then [0x0d, 0x0a] else [b]

/-- The same replacement in a text. -/
def crlfText (text : Text) : Text :=
  text.flatMap fun c => if c = '\n' then ['\r', '\n'] else [c]

theorem crlf_append (s t : Bytes) : crlf (s ++ t) = crlf s ++ crlf t := List.flatMap_append

/-- A character's encoding has an LF only if the character is one. -/
theorem crlf_char (c : Char) :
    crlf (String.utf8EncodeChar c) = Utf8.encode (if c = '\n' then ['\r', '\n'] else [c]) := by
  by_cases hc : c = '\n'
  · subst hc
    decide
  · have hkeep : ∀ b ∈ String.utf8EncodeChar c, (if b = 0x0a then [0x0d, 0x0a] else [b]) = [b] := by
      intro b hb
      refine if_neg ?_
      rintro rfl
      exact hc (Char.ext (UInt32.toNat_inj.mp (Utf8.toNat_of_mem hb (by decide))))
    rw [crlf, List.flatMap_congr hkeep, List.flatMap_singleton', if_neg hc, Utf8.encode,
      List.flatMap_singleton]

/-- **The replacement in the bytes is the replacement in the text.** -/
theorem crlf_encode (text : Text) : crlf (Utf8.encode text) = Utf8.encode (crlfText text) := by
  induction text with
  | nil => rfl
  | cons c text ih =>
    have hcons : Utf8.encode (c :: text) = String.utf8EncodeChar c ++ Utf8.encode text := rfl
    have happend : ∀ s t, Utf8.encode (s ++ t) = Utf8.encode s ++ Utf8.encode t :=
      fun _ _ => List.flatMap_append
    rw [hcons, crlf_append, crlf_char, ih, ← happend]
    rfl

/-! ## 2. No frame -/

/-- Such a text does not start with an LF. -/
theorem head_crlfText (text : Text) : (crlfText text).head? ≠ some '\n' := by
  cases text with
  | nil => exact nofun
  | cons c text =>
    rw [crlfText, List.flatMap_cons]
    split_ifs with hc
    · exact fun h => absurd (Option.some.inj h) (by decide)
    · exact fun h => hc (Option.some.inj h)

/-- An LF that another text follows, if that does not start with an LF, starts no separator. -/
theorem indexOf_break {text : Text} (h : text.head? ≠ some '\n') :
    Frames.indexOf separator ('\n' :: text) = (Frames.indexOf separator text).map (· + 1) := by
  rw [Frames.indexOf, if_neg]
  rw [List.isPrefixOf_iff_prefix]
  rintro ⟨u, hu⟩
  exact h (by rw [← (List.cons.inj hu).2]; rfl)

/-- **The separator does not occur**: in front of every LF there is a CR. -/
theorem indexOf_crlfText (text : Text) : Frames.indexOf separator (crlfText text) = none := by
  induction text with
  | nil => decide
  | cons c text ih =>
    have hcons : crlfText (c :: text)
        = (if c = '\n' then ['\r', '\n'] else [c]) ++ crlfText text := rfl
    rw [hcons]
    split_ifs with hc
    · have hline := @indexOf_line ['\r'] (by decide) ('\n' :: crlfText text)
      rw [indexOf_break (head_crlfText text), ih] at hline
      exact hline
    · have hline := @indexOf_line [c] (by simpa using Ne.symm hc) (crlfText text)
      rw [ih] at hline
      exact hline

/-- Such a text starts with a byte order mark only if the one it was made from does. -/
theorem head_crlfText_ne_bom {text : Text} (h : text.head? ≠ some '\ufeff') :
    (crlfText text).head? ≠ some '\ufeff' := by
  cases text with
  | nil => exact nofun
  | cons c text =>
    rw [crlfText, List.flatMap_cons]
    split_ifs with hc
    · exact fun heq => absurd (Option.some.inj heq) (by decide)
    · exact h

/-! ## 3. The result -/

/-- **Nothing is read from a stream with CR LF**, wherever the network cuts it. -/
theorem streamChat_crlf_eq_nil (items : List Item) (chunks : List Bytes)
    (hchunks : chunks.flatten = crlf (wire items)) : streamChat chunks = [] := by
  have hdecode : (Utf8.decode {} chunks.flatten).2 = crlfText (items.flatMap Item.text) := by
    rw [hchunks, wire, crlf_encode, Utf8.decode_encode]
  have hbom := head_crlfText_ne_bom (head_ne_bom items)
  rw [streamChat, readChunks_eq chunks {} [] (Or.inr (hdecode ▸ hbom)) (by decide), hdecode,
    List.nil_append, Frames.cut_none (indexOf_crlfText _)]
  rfl

/-- **The frontend reads the same from the stream with CR LF as from the one with LF exactly if no
event was written**: only heartbeats, or nothing. -/
theorem streamChat_crlf (items : List Item) (chunks lfChunks : List Bytes)
    (hchunks : chunks.flatten = crlf (wire items)) (hlf : lfChunks.flatten = wire items) :
    streamChat chunks = streamChat lfChunks ↔ eventsOf items = [] := by
  rw [streamChat_crlf_eq_nil items chunks hchunks, streamChat_frames items lfChunks hlf,
    parseFrame_bodies, eq_comm, List.map_eq_nil_iff]

/-- Two heartbeats, the second cut between its CR and its LF. -/
theorem streamChat_crlf_pings :
    streamChat [(crlf (wire [.ping, .ping])).take 17, (crlf (wire [.ping, .ping])).drop 17]
      = streamChat [wire [.ping, .ping]] :=
  (streamChat_crlf [.ping, .ping] _ _ (by simp) (by simp)).mpr rfl

/-- One event: the frontend does not see it. -/
theorem not_crlf :
    streamChat [crlf (wire [.event sampleEvent])] ≠ streamChat [wire [.event sampleEvent]] := by
  have hnone := streamChat_crlf_eq_nil [.event sampleEvent] [crlf (wire [.event sampleEvent])]
    (by simp)
  have hone := streamChat_frames [.event sampleEvent] [wire [.event sampleEvent]] (by simp)
  rw [hnone, hone, parseFrame_bodies]
  exact nofun

end AtlasKnowledge.Sse
