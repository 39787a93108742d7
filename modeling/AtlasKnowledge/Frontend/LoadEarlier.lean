/-
# The older page and the running stream

`send` patches the entry as it stands; `loadEarlier` writes an entry that it made from what it read
before its request.  What `send` does to the entry in between is gone after that write.

* `final_items`: the entry at the end, with the patches that fall between the read and the write
  left out;
* `whole_iff`: nothing is lost and no id stands twice exactly when no patch falls there and the
  ids are distinct;
* `not_whole`: a page that is asked for while the answer streams in takes the answer away.
-/
import AtlasKnowledge.Frontend.MessagesCache

namespace AtlasKnowledge.Frontend

open Transition

/-! ## 1. The two programs -/

def Act.isLoad : Act → Bool
  | .loadEarlier | .response _ | .write => true
  | _ => false

/-- The step of `send` patches the entry. -/
def Act.patches : Act → Bool
  | .send _ _ _ | .event _ (.messageStart _) | .event _ (.done _) => true
  | _ => false

/-- Citations, a delta or an event of a later version. -/
def StreamEvent.isQuiet : StreamEvent → Bool
  | .citations _ | .delta _ | .unknown => true
  | _ => false

/-- One call of `loadEarlier` that is answered. -/
def loadSteps (page : MessagePage) : List Act := [.loadEarlier, .response (some page), .write]

/-- One call of `send` with its answer: what it is called with, and the events with their times. -/
structure Exchange where
  sentAt : Text
  content : Text
  clientMessageId : Text
  startedAt : Text
  start : SseMessageStart
  middle : List (Text × StreamEvent)
  quiet : ∀ e ∈ middle, e.2.isQuiet = true
  doneAt : Text
  done : SseDone

def Exchange.steps (x : Exchange) : List Act :=
  .send x.sentAt x.content x.clientMessageId :: .event x.startedAt (.messageStart x.start) ::
    (x.middle.map (fun e => .event e.1 e.2) ++ [.event x.doneAt (.done x.done), .close none])

/-- The steps of both calls, in any order that keeps the order of each. -/
structure Interleaved (page : MessagePage) (x : Exchange) (acts : List Act) : Prop where
  loads : acts.filter Act.isLoad = loadSteps page
  sends : acts.filter (fun a => !a.isLoad) = x.steps

/-! ## 2. What is to be kept -/

def StreamEvent.text : StreamEvent → Text
  | .delta text => text
  | _ => []

/-- The last citations of the events, or those that stood before. -/
def citationsAfter (citations : List CitationOut) (events : List StreamEvent) : List CitationOut :=
  events.foldl (fun citations ev => match ev with | .citations items => items | _ => citations)
    citations

/-- The user's message, under the id that the server gave it. -/
def Exchange.userMessage (x : Exchange) : MessageOut :=
  message x.sentAt x.start.userMessageId "user".toList x.content none

/-- The answer: the joined deltas and the citations. -/
def Exchange.assistantMessage (x : Exchange) : MessageOut :=
  let events := x.middle.map Prod.snd
  message x.doneAt x.start.assistantMessageId "assistant".toList
    (events.flatMap StreamEvent.text) (some x.done) (citationsAfter [] events)

/-- The entry holds these items, and no id twice. -/
def Client.Keeps (s : Client) (items : List MessageOut) : Prop :=
  ∃ cache, s.cache = some cache ∧ cache.items = items ∧ (cache.items.map MessageOut.id).Nodup

/-- The older page in ascending order, what was there, the question and the answer. -/
def wholeItems (page : MessagePage) (cache : MessagesCache) (x : Exchange) : List MessageOut :=
  page.items.reverse ++ cache.items ++ [x.userMessage, x.assistantMessage]

/-- The steps from the read of `loadEarlier` on, up to its write. -/
def window (acts : List Act) : List Act :=
  (acts.dropWhile fun a => a ≠ .loadEarlier).takeWhile fun a => a ≠ .write

/-- `send` leaves the entry alone between the read and the write. -/
def Undisturbed (acts : List Act) : Prop := ∀ a ∈ window acts, a.patches = false

/-! ## 3. Patches -/

def applyAll (ps : List Patch) (items : List MessageOut) : List MessageOut :=
  ps.foldl (fun items p => p.apply items) items

/-- The patch renames none of the items. -/
def Patch.Spares : Patch → List MessageOut → Prop
  | .append _, _ => True
  | .rename old _, items => ∀ m ∈ items, m.id ≠ old

theorem applyAll_append (ps qs : List Patch) (items : List MessageOut) :
    applyAll (ps ++ qs) items = applyAll qs (applyAll ps items) := List.foldl_append ..

/-- What stands in front stays there. -/
theorem apply_prefix {p : Patch} {old : List MessageOut} (h : p.Spares old)
    (items : List MessageOut) : p.apply (old ++ items) = old ++ p.apply items := by
  cases p with
  | append m => exact List.append_assoc ..
  | rename old' new =>
    rw [Patch.apply, List.map_append]
    congr 1
    refine (List.map_congr_left fun m hm => ?_).trans (List.map_id old)
    rw [if_neg (h m hm), id_eq]

theorem applyAll_prefix {old : List MessageOut} :
    ∀ {ps : List Patch}, (∀ p ∈ ps, p.Spares old) → ∀ items : List MessageOut,
      applyAll ps (old ++ items) = old ++ applyAll ps items
  | [], _, _ => rfl
  | p :: ps, h, items => by
    have hp : p.Spares old := h p List.mem_cons_self
    have hps : ∀ q ∈ ps, q.Spares old := fun q hq => h q (List.mem_cons_of_mem _ hq)
    rw [applyAll, List.foldl_cons, apply_prefix hp]
    exact applyAll_prefix hps (p.apply items)

/-- Of the three patches of a call, each stretch that is left out is missed. -/
theorem applyAll_whole_iff {u m : MessageOut} {new : Text} (hnew : u.id ≠ new)
    {ps qs rs : List Patch} (h : ps ++ qs ++ rs = [.append u, .rename u.id new, .append m]) :
    applyAll rs (applyAll ps []) = [{ u with id := new }, m] ↔ qs = [] := by
  have hne : u ≠ { u with id := new } := fun heq => hnew (congrArg MessageOut.id heq)
  rw [← applyAll_append]
  -- ten ways to cut the three patches; with `qs` empty it is the plain computation
  rcases ps with _ | ⟨p, _ | ⟨p', _ | ⟨p'', ps⟩⟩⟩ <;>
    rcases qs with _ | ⟨q, _ | ⟨q', _ | ⟨q'', qs⟩⟩⟩ <;>
    simp_all [applyAll, Patch.apply]

/-! ## 4. A stretch of `send` -/

/-- The steps of `send` alone, with the patches they make. -/
def ChatStream.run : ChatStream → List Act → Option (ChatStream × List Patch)
  | s, [] => some (s, [])
  | s, act :: acts =>
    (s.step act).bind fun r => (r.1.run acts).map fun q => (q.1, r.2.toList ++ q.2)

theorem ChatStream.run_append (s : ChatStream) (acts acts' : List Act) :
    s.run (acts ++ acts') =
      (s.run acts).bind fun q => (q.1.run acts').map fun q' => (q'.1, q.2 ++ q'.2) := by
  induction acts generalizing s with
  | nil => simp [run]
  | cons act acts ih =>
    simp only [List.cons_append, run, ih, Option.bind_assoc, Option.map_bind, Option.bind_map]
    congr 1
    funext r
    congr 1
    funext q
    simp [Function.comp_def]

/-- The entry after a stretch of `send`: its patches, and nothing else. -/
theorem run_sends {acts : List Act} (hacts : ∀ a ∈ acts, a.isLoad = false) {s : Client}
    {cache : MessagesCache} (hcache : s.cache = some cache) :
    run step s acts = (s.stream.run acts).map fun q =>
      { s with
        stream := q.1
        cache := some { cache with items := applyAll q.2 cache.items } } := by
  induction acts generalizing s cache with
  | nil =>
    simp [ChatStream.run, applyAll, ← hcache]
  | cons act acts ih =>
    have hact : act.isLoad = false := hacts act List.mem_cons_self
    have hrest : ∀ a ∈ acts, a.isLoad = false := fun a ha => hacts a (List.mem_cons_of_mem _ ha)
    have hstep : step s act = (s.stream.step act).map fun r =>
        { s with stream := r.1, cache := patched s.cache r.2 } := by
      cases act <;> first | rfl | exact nomatch hact
    rw [run_cons, hstep, Option.bind_map]
    simp only [ChatStream.run, Option.map_bind]
    congr 1
    funext ⟨stream, p⟩
    have hpatched : patched s.cache p =
        some { cache with items := applyAll p.toList cache.items } := by
      rw [hcache]
      cases p <;> rfl
    have hnext := @ih hrest { s with stream := stream, cache := patched s.cache p } _ hpatched
    simp only [Function.comp, hnext, Option.map_map]
    congr 1
    funext q
    simp [applyAll_append]

/-- The same for a stretch that is known to go through. -/
theorem run_stretch {acts : List Act} (hacts : ∀ a ∈ acts, a.isLoad = false) {s : Client}
    {cache : MessagesCache} (hcache : s.cache = some cache) {stream : ChatStream}
    {ps : List Patch} (hrun : s.stream.run acts = some (stream, ps)) :
    run step s acts = some
      { s with
        stream := stream
        cache := some { cache with items := applyAll ps cache.items } } := by
  rw [run_sends hacts hcache, hrun, Option.map_some]

theorem step_patch_iff {s : ChatStream} {act : Act} {r : ChatStream × Option Patch}
    (h : s.step act = some r) : r.2.toList = [] ↔ act.patches = false := by
  cases act with
  | loadEarlier | response | write => exact nomatch h
  | send now content clientMessageId =>
    cases hcall : s.call with
    | some call =>
      rw [ChatStream.step, hcall] at h
      exact nomatch h
    | none =>
      rw [ChatStream.step, hcall] at h
      obtain rfl := Option.some.inj h
      simp [Act.patches]
  | event now ev =>
    obtain ⟨call, -, rfl⟩ := Option.map_eq_some_iff.mp h
    cases ev <;> simp [ChatStream.onEvent, Act.patches]
  | close thrown =>
    obtain ⟨call, -, rfl⟩ := Option.map_eq_some_iff.mp h
    simp [Act.patches]

/-- A stretch makes no patch exactly when none of its steps does. -/
theorem patches_eq_nil_iff {acts : List Act} {s s' : ChatStream} {ps : List Patch}
    (h : s.run acts = some (s', ps)) : ps = [] ↔ ∀ a ∈ acts, a.patches = false := by
  induction acts generalizing s ps with
  | nil =>
    obtain ⟨rfl, rfl⟩ := Prod.mk.inj (Option.some.inj h)
    simp
  | cons act acts ih =>
    obtain ⟨r, hr, hrest⟩ := Option.bind_eq_some_iff.mp h
    obtain ⟨q, hq, heq⟩ := Option.map_eq_some_iff.mp hrest
    obtain ⟨rfl, rfl⟩ := Prod.mk.inj heq
    rw [List.append_eq_nil_iff, step_patch_iff hr, ih hq, List.forall_mem_cons]

/-- The refs after an event that makes no patch. -/
def ChatStream.collect (s : ChatStream) (events : List StreamEvent) : ChatStream :=
  { s with
    streamingText := s.streamingText ++ events.flatMap StreamEvent.text
    streamingCitations := citationsAfter s.streamingCitations events }

theorem onEvent_quiet {ev : StreamEvent} (hquiet : ev.isQuiet = true) (s : ChatStream) (call : Call)
    (now : Text) : s.onEvent call now ev = (s.collect [ev], none) := by
  cases ev with
  | citations items =>
    simp [ChatStream.onEvent, ChatStream.collect, citationsAfter, StreamEvent.text]
  | delta text => simp [ChatStream.onEvent, ChatStream.collect, citationsAfter, StreamEvent.text]
  | unknown => simp [ChatStream.onEvent, ChatStream.collect, citationsAfter, StreamEvent.text]
  | messageStart | done | error => exact nomatch hquiet

/-- The events between the start and the end collect the text and the citations. -/
theorem run_quiet {middle : List (Text × StreamEvent)} (hquiet : ∀ e ∈ middle, e.2.isQuiet = true)
    {s : ChatStream} {call : Call} (hcall : s.call = some call) :
    s.run (middle.map fun e => .event e.1 e.2) = some (s.collect (middle.map Prod.snd), []) := by
  induction middle generalizing s with
  | nil => simp [ChatStream.run, ChatStream.collect, citationsAfter]
  | cons e middle ih =>
    have hfirst : e.2.isQuiet = true := hquiet e List.mem_cons_self
    have hrest : ∀ e ∈ middle, e.2.isQuiet = true :=
      fun e he => hquiet e (List.mem_cons_of_mem _ he)
    have hnext : (s.collect [e.2]).run (middle.map fun e => .event e.1 e.2)
        = some ((s.collect [e.2]).collect (middle.map Prod.snd), []) := ih hrest hcall
    simp only [List.map_cons, ChatStream.run, ChatStream.step, hcall, Option.map_some,
      Option.bind_some, onEvent_quiet hfirst, hnext]
    simp [ChatStream.collect, citationsAfter]

/-- The user's message as it is inserted at first. -/
def Exchange.tempMessage (x : Exchange) : MessageOut :=
  message x.sentAt (tempId x.clientMessageId) "user".toList x.content none

/-- **The three patches of a call.** -/
theorem run_steps (x : Exchange) {s : ChatStream} (hidle : s.call = none) :
    ∃ s', s.run x.steps =
      some (s', [.append x.tempMessage, .rename x.tempMessage.id x.start.userMessageId,
        .append x.assistantMessage]) := by
  -- the call as it stands after `message_start`
  let call : Call :=
    { tempUserId := tempId x.clientMessageId, assistantId := some x.start.assistantMessageId }
  let begun : ChatStream :=
    { status := .streaming, call := some call, invalidated := s.invalidated }
  have hmiddle : begun.run (x.middle.map fun e => .event e.1 e.2)
      = some (begun.collect (x.middle.map Prod.snd), []) := run_quiet x.quiet rfl
  have hhead : s.run [.send x.sentAt x.content x.clientMessageId,
      .event x.startedAt (.messageStart x.start)]
      = some (begun, [.append x.tempMessage, .rename x.tempMessage.id x.start.userMessageId]) := by
    simp only [ChatStream.run, ChatStream.step, hidle]
    rfl
  have hend : ∃ s', (begun.collect (x.middle.map Prod.snd)).run
      [.event x.doneAt (.done x.done), .close none] = some (s', [.append x.assistantMessage]) :=
    ⟨_, rfl⟩
  obtain ⟨s', hend⟩ := hend
  have hsteps : x.steps = [.send x.sentAt x.content x.clientMessageId,
      .event x.startedAt (.messageStart x.start)] ++ (x.middle.map (fun e => .event e.1 e.2) ++
        [.event x.doneAt (.done x.done), .close none]) := rfl
  refine ⟨s', ?_⟩
  rw [hsteps, ChatStream.run_append, hhead, Option.bind_some, ChatStream.run_append, hmiddle,
    Option.bind_some, hend]
  rfl

/-! ## 5. The cut -/

theorem ChatStream.run_append_eq_some {s s' : ChatStream} {acts acts' : List Act}
    {ps : List Patch} :
    s.run (acts ++ acts') = some (s', ps) ↔
      ∃ s₁ ps₁ ps₂, s.run acts = some (s₁, ps₁) ∧ s₁.run acts' = some (s', ps₂) ∧
        ps = ps₁ ++ ps₂ := by
  simp only [run_append, Option.bind_eq_some_iff, Option.map_eq_some_iff]
  constructor
  · rintro ⟨⟨s₁, ps₁⟩, h₁, ⟨s₂, ps₂⟩, h₂, heq⟩
    obtain ⟨rfl, rfl⟩ := Prod.mk.inj heq
    exact ⟨s₁, ps₁, ps₂, h₁, h₂, rfl⟩
  · rintro ⟨s₁, ps₁, ps₂, h₁, h₂, rfl⟩
    exact ⟨(s₁, ps₁), h₁, (s', ps₂), h₂, rfl⟩

/-- The steps of `send` before the read, before the answer, before the write and after it. -/
structure Cut (page : MessagePage) (acts before asked answered after : List Act) : Prop where
  acts : acts = before ++ .loadEarlier :: (asked ++ .response (some page) ::
    (answered ++ .write :: after))
  before : ∀ a ∈ before, a.isLoad = false
  asked : ∀ a ∈ asked, a.isLoad = false
  answered : ∀ a ∈ answered, a.isLoad = false
  after : ∀ a ∈ after, a.isLoad = false

theorem Interleaved.cut {page : MessagePage} {x : Exchange} {acts : List Act}
    (h : Interleaved page x acts) : ∃ before asked answered after,
      Cut page acts before asked answered after ∧
        x.steps = before ++ (asked ++ (answered ++ after)) := by
  obtain ⟨before, acts₁, rfl, hbefore, -, h₁⟩ := List.filter_eq_cons_iff.mp h.loads
  obtain ⟨asked, acts₂, rfl, hasked, -, h₂⟩ := List.filter_eq_cons_iff.mp h₁
  obtain ⟨answered, after, rfl, hanswered, -, hafter⟩ := List.filter_eq_cons_iff.mp h₂
  simp only [Bool.not_eq_true] at hbefore hasked hanswered
  have hafter : ∀ a ∈ after, a.isLoad = false := by
    simpa [List.filter_eq_nil_iff] using hafter
  refine ⟨before, asked, answered, after, ⟨rfl, hbefore, hasked, hanswered, hafter⟩, ?_⟩
  have hkeep : ∀ {acts : List Act}, (∀ a ∈ acts, a.isLoad = false) →
      acts.filter (fun a => !a.isLoad) = acts := by
    intro acts hacts
    rw [List.filter_eq_self]
    intro a ha
    rw [hacts a ha, Bool.not_false]
  have hdrop : ∀ {a : Act} {acts : List Act}, a.isLoad = true →
      (a :: acts).filter (fun a => !a.isLoad) = acts.filter (fun a => !a.isLoad) := by
    intro a acts ha
    rw [List.filter_cons_of_neg (by simp [ha])]
  rw [← h.sends, List.filter_append, hdrop rfl, List.filter_append, hdrop rfl, List.filter_append,
    hdrop rfl, hkeep hbefore, hkeep hasked, hkeep hanswered, hkeep hafter]

/-- The window is what stands between the read and the write. -/
theorem Cut.window_eq {page : MessagePage} {acts before asked answered after : List Act}
    (h : Cut page acts before asked answered after) :
    window acts = .loadEarlier :: (asked ++ .response (some page) :: answered) := by
  have hne : ∀ {a : Act}, a.isLoad = false → a ≠ .loadEarlier ∧ a ≠ .write := by
    rintro a ha
    constructor <;>
      · rintro rfl
        exact nomatch ha
  have hbetween : ∀ a ∈ asked ++ .response (some page) :: answered, a ≠ .write := by
    intro a ha
    rcases List.mem_append.mp ha with ha | ha
    · exact (hne (h.asked a ha)).2
    · rcases List.mem_cons.mp ha with rfl | ha
      · exact nofun
      · exact (hne (h.answered a ha)).2
  have hacts : acts = before ++ .loadEarlier :: ((asked ++ .response (some page) :: answered) ++
      .write :: after) := by
    rw [h.acts, List.append_assoc, List.cons_append]
  rw [window, hacts,
    List.dropWhile_append_of_pos (by simpa using fun a ha => (hne (h.before a ha)).1),
    List.dropWhile_cons_of_neg (by simp), List.takeWhile_cons_of_pos (by simp),
    List.takeWhile_append_of_pos (by simpa using hbetween), List.takeWhile_cons_of_neg (by simp),
    List.append_nil]

variable {page : MessagePage} {x : Exchange} {acts : List Act} {items : List MessageOut}
  {cursor : Text}

/-- **The entry at the end.**  The patches before the read are in what `loadEarlier` writes, those
after the write come on top; the patches in between are missing. -/
theorem final_items {before asked answered after : List Act}
    (hcut : Cut page acts before asked answered after)
    (hsteps : x.steps = before ++ (asked ++ (answered ++ after))) :
    ∃ s ps qs rs, run step (MessagesCache.client ⟨items, some cursor⟩) acts = some s ∧
      s.cache = some ⟨applyAll rs (page.items.reverse ++ applyAll ps items), page.nextCursor⟩ ∧
      ps ++ qs ++ rs = [.append x.tempMessage, .rename x.tempMessage.id x.start.userMessageId,
        .append x.assistantMessage] ∧
      (qs = [] ↔ Undisturbed acts) := by
  have hidle : (MessagesCache.client ⟨items, some cursor⟩).stream.call = none := rfl
  obtain ⟨last, hrun⟩ := run_steps x hidle
  rw [hsteps] at hrun
  obtain ⟨s₁, ps, ps', hbefore, hrest, heq⟩ := ChatStream.run_append_eq_some.mp hrun
  obtain ⟨s₂, qs, qs', hasked, hrest', rfl⟩ := ChatStream.run_append_eq_some.mp hrest
  obtain ⟨s₃, qs₂, rs, hanswered, hafter, rfl⟩ := ChatStream.run_append_eq_some.mp hrest'
  -- what `loadEarlier` reads, and what it writes
  let read : MessagesCache := ⟨applyAll ps items, some cursor⟩
  let written : MessagesCache := ⟨page.items.reverse ++ read.items, page.nextCursor⟩
  let begun : Client := { cache := some read, stream := s₁ }
  have hbegun : run step (MessagesCache.client ⟨items, some cursor⟩) before = some begun :=
    run_stretch hcut.before rfl hbefore
  let waiting : Client :=
    { cache := some { read with items := applyAll qs read.items }
      load := .waiting read, loadingEarlier := true, stream := s₂ }
  have hwaiting : run step { begun with load := .waiting read, loadingEarlier := true } asked
      = some waiting := run_stretch hcut.asked rfl hasked
  have hansweredRun : ∃ cache, run step { waiting with load := .answered read page } answered
      = some { waiting with load := .answered read page, cache := cache, stream := s₃ } :=
    ⟨_, run_stretch hcut.answered rfl hanswered⟩
  obtain ⟨cache, hansweredRun⟩ := hansweredRun
  have hend : run step { cache := some written, stream := s₃ } after
      = some
        { cache := some { written with items := applyAll rs written.items }, stream := last } :=
    run_stretch hcut.after rfl hafter
  refine ⟨{ cache := some { written with items := applyAll rs written.items }, stream := last },
    ps, qs ++ qs₂, rs, ?_, rfl, ?_, ?_⟩
  · rw [hcut.acts, run_append, hbegun, Option.bind_some, run_cons]
    have hread : step begun .loadEarlier
        = some { begun with load := .waiting read, loadingEarlier := true } := rfl
    rw [hread, Option.bind_some, run_append, hwaiting, Option.bind_some, run_cons]
    have hresponse : step waiting (.response (some page))
        = some { waiting with load := .answered read page } := rfl
    rw [hresponse, Option.bind_some, run_append, hansweredRun, Option.bind_some, run_cons]
    exact hend
  · rw [heq]
    simp
  · have hread : Act.loadEarlier.patches = false := rfl
    have hresponse : (Act.response (some page)).patches = false := rfl
    rw [List.append_eq_nil_iff, patches_eq_nil_iff hasked, patches_eq_nil_iff hanswered,
      Undisturbed, hcut.window_eq]
    simp only [List.forall_mem_cons, List.forall_mem_append, hread, hresponse, true_and]

/-! ## 6. The result -/

/-- The id that `crypto.randomUUID` drew is in use nowhere. -/
structure FreshId (items : List MessageOut) (page : MessagePage) (x : Exchange) : Prop where
  items : ∀ m ∈ items, m.id ≠ tempId x.clientMessageId
  page : ∀ m ∈ page.items, m.id ≠ tempId x.clientMessageId
  user : x.start.userMessageId ≠ tempId x.clientMessageId

/-- **When nothing is lost and nothing doubled.**  Whatever the cached items, the page and the
exchange are, and in whatever order the steps of the two calls fall: the entry ends as the older
page, the cached items, the question and the answer, no id twice, exactly when `send` makes no
patch between the read and the write of `loadEarlier` and the ids are distinct. -/
theorem whole_iff (h : Interleaved page x acts) (hfresh : FreshId items page x) :
    ∃ s, run step (MessagesCache.client ⟨items, some cursor⟩) acts = some s ∧
      (s.Keeps (wholeItems page ⟨items, some cursor⟩ x) ↔
        Undisturbed acts ∧ ((wholeItems page ⟨items, some cursor⟩ x).map MessageOut.id).Nodup) := by
  obtain ⟨before, asked, answered, after, hcut, hsteps⟩ := h.cut
  obtain ⟨s, ps, qs, rs, hrun, hcache, hpatches, hundisturbed⟩ :=
    @final_items page x acts items cursor before asked answered after hcut hsteps
  refine ⟨s, hrun, ?_⟩
  -- the renaming touches the user's message only
  have hspares : ∀ p ∈ ps ++ qs ++ rs, p.Spares items ∧ p.Spares (page.items.reverse ++ items) := by
    rw [hpatches]
    have hold : ∀ m ∈ page.items.reverse ++ items, m.id ≠ x.tempMessage.id := by
      intro m hm
      rcases List.mem_append.mp hm with hm | hm
      · exact hfresh.page m (List.mem_reverse.mp hm)
      · exact hfresh.items m hm
    intro p hp
    simp only [List.mem_cons, List.not_mem_nil, or_false] at hp
    rcases hp with rfl | rfl | rfl
    · exact ⟨trivial, trivial⟩
    · exact ⟨hfresh.items, hold⟩
    · exact ⟨trivial, trivial⟩
  have hps : ∀ p ∈ ps, p.Spares items := fun p hp => (hspares p (by simp [hp])).1
  have hrs : ∀ p ∈ rs, p.Spares (page.items.reverse ++ items) :=
    fun p hp => (hspares p (by simp [hp])).2
  have hitems : applyAll rs (page.items.reverse ++ applyAll ps items)
      = page.items.reverse ++ items ++ applyAll rs (applyAll ps []) := by
    have hread : applyAll ps items = items ++ applyAll ps [] := by
      have := applyAll_prefix hps []
      rwa [List.append_nil] at this
    rw [hread, ← List.append_assoc, applyAll_prefix hrs]
  have hwhole : applyAll rs (applyAll ps []) = [x.userMessage, x.assistantMessage] ↔ qs = [] :=
    applyAll_whole_iff (Ne.symm hfresh.user) hpatches
  have hkeeps : s.Keeps (wholeItems page ⟨items, some cursor⟩ x) ↔
      applyAll rs (applyAll ps []) = [x.userMessage, x.assistantMessage] ∧
        ((wholeItems page ⟨items, some cursor⟩ x).map MessageOut.id).Nodup := by
    rw [Client.Keeps, hcache, hitems, wholeItems]
    constructor
    · rintro ⟨cache, heq, hitems, hnodup⟩
      obtain rfl := Option.some.inj heq
      exact ⟨List.append_cancel_left hitems, hitems ▸ hnodup⟩
    · rintro ⟨heq, hnodup⟩
      exact ⟨_, rfl, by rw [heq], by rwa [heq]⟩
  rw [hkeeps, hwhole, hundisturbed]

def sampleQuestion : Exchange where
  sentAt := "t1".toList
  content := "hi".toList
  clientMessageId := "c1".toList
  startedAt := "t2".toList
  start := ⟨"u1".toList, "a1".toList⟩
  middle := [("t3".toList, .delta "yes".toList)]
  quiet := by decide
  doneAt := "t4".toList
  done := ⟨"a1".toList, "stop".toList, none, none, 5⟩

def sampleOld : MessageOut := message "t0".toList "m1".toList "user".toList "old".toList none

def sampleOlder : MessagePage := ⟨[{ sampleOld with id := "m0".toList }], none⟩

/-- The page comes before the question is put. -/
def pageFirst : List Act := loadSteps sampleOlder ++ sampleQuestion.steps

/-- The page is asked for before the question is put, and comes after the answer. -/
def pageLast : List Act :=
  .loadEarlier :: (sampleQuestion.steps ++ [.response (some sampleOlder), .write])

theorem whole_iff_pageFirst :
    ∃ s, run step (MessagesCache.client ⟨[sampleOld], some "c".toList⟩) pageFirst = some s ∧
      (s.Keeps (wholeItems sampleOlder ⟨[sampleOld], some "c".toList⟩ sampleQuestion) ↔
        Undisturbed pageFirst ∧ ((wholeItems sampleOlder ⟨[sampleOld], some "c".toList⟩
          sampleQuestion).map MessageOut.id).Nodup) :=
  whole_iff ⟨by decide, by decide⟩ ⟨by decide, by decide, by decide⟩

/-- The older page takes the question and the answer away. -/
theorem not_whole :
    ¬ ∀ (items : List MessageOut) (cursor : Text) (page : MessagePage) (x : Exchange)
      (acts : List Act) (s : Client), Interleaved page x acts → FreshId items page x →
      ((wholeItems page ⟨items, some cursor⟩ x).map MessageOut.id).Nodup →
      run step (MessagesCache.client ⟨items, some cursor⟩) acts = some s →
      s.Keeps (wholeItems page ⟨items, some cursor⟩ x) := by
  intro h
  have hend : (run step (MessagesCache.client ⟨[sampleOld], some "c".toList⟩) pageLast).map
      (fun s => s.cache.map MessagesCache.items)
        = some (some (sampleOlder.items ++ [sampleOld])) := by decide
  obtain ⟨s, hs, hcache⟩ := Option.map_eq_some_iff.mp hend
  obtain ⟨cache, hcache', hitems, -⟩ :=
    h [sampleOld] "c".toList sampleOlder sampleQuestion pageLast s
    ⟨by decide, by decide⟩ ⟨by decide, by decide, by decide⟩ (by decide) hs
  rw [hcache', Option.map_some, hitems] at hcache
  exact absurd hcache (by decide)

end AtlasKnowledge.Frontend
