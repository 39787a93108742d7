/-
# Paging through documents and messages

A client that starts without a cursor and follows `next_cursor` until there is none sees every
row that was there the whole time, each once, in strictly decreasing order of creation time and
id, whatever is inserted and deleted between two fetches: a cursor is the position of the last
row shown, and it stays a position when that row is gone.

The states that the fetches see are a sequence that comes to rest, since the changes are finitely
many; nothing else is asked of them.
-/
import AtlasKnowledge.Services.Queries

namespace AtlasKnowledge.Services

open Pagination

/-! ## 1. Following the cursors -/

/-- What a traversal has yielded, page by page, when the `n`-th fetch saw `rows n`. -/
structure Traversed {ρ : Type} (position : ρ → Position) (rows : Nat → List ρ)
    (pages : List (List ρ)) : Prop where
  /-- In strictly decreasing order, so no row twice. -/
  decreasing : pages.flatten.Pairwise fun a b => position b < position a
  /-- Each row that every fetch could see is yielded exactly once. -/
  complete : ∀ r, (∀ n < pages.length, r ∈ rows n) →
    r ∈ pages.flatten ∧ (pages.flatten.map position).count (position r) = 1
  /-- No row is made up. -/
  sound : ∀ n items, pages[n]? = some items → ∀ r ∈ items, r ∈ rows n
  /-- Without changes, the pages together are the sorted list. -/
  unchanged : (∀ n, rows n = rows 0) → pages.flatten = Keyset.descending position (rows 0)

variable {ρ : Type} {localOffset : Datetime → Int} {key : ρ → Timestamp × Uuid} {limit : Nat}
  {rows : Nat → List ρ} {N : Nat}

/-- Following the cursors of a listing, from no cursor on. -/
def followCursors (fetch : Nat → Option Text → Except AppError (List ρ × Option Text))
    (fuel : Nat) : Option (List (List ρ)) :=
  Keyset.collect (fun n cursor => (fetch n cursor).toOption) fuel 0 none

/-- Following the texts is following the positions. -/
theorem followCursors_eq (fuel : Nat) :
    followCursors (fun n cursor => listing localOffset key limit cursor (rows n)) fuel =
      Keyset.collect (Keyset.pages (rowPosition localOffset key) limit rows) fuel 0 none := by
  have hfetch : ∀ n cursor p, Option.Rel (StandsFor localOffset) cursor p →
      Keyset.SamePage (StandsFor localOffset)
        (listing localOffset key limit cursor (rows n)).toOption
        (Keyset.pages (rowPosition localOffset key) limit rows n p) :=
    fun n cursor p h => samePage_listing h
  exact Keyset.collect_congr hfetch fuel 0 .none

/-- **Every listing over rows with distinct positions** can be followed to its end, and what that
yields is `Traversed`. -/
theorem followCursors_listing (hlimit : 1 ≤ limit)
    (hkey : ∀ n, ((rows n).map (rowPosition localOffset key)).Nodup)
    (hstill : ∀ n, N ≤ n → rows (n + 1) = rows n) :
    (∃ fuel pages, followCursors (fun n cursor => listing localOffset key limit cursor (rows n))
      fuel = some pages) ∧
    ∀ fuel pages, followCursors (fun n cursor => listing localOffset key limit cursor (rows n))
      fuel = some pages → Traversed (rowPosition localOffset key) rows pages := by
  refine ⟨?_, ?_⟩
  · obtain ⟨fuel, pages, h⟩ := Keyset.collect_total hlimit hkey hstill 0 none
    exact ⟨fuel, pages, by rw [followCursors_eq, h]⟩
  · intro fuel pages h
    rw [followCursors_eq] at h
    have hstrict := (Keyset.collect_strict hlimit hkey h).1
    refine ⟨hstrict, ?_, ?_, ?_⟩
    · intro r hr
      have hmem : r ∈ pages.flatten :=
        Keyset.collect_complete hlimit hkey h (fun n hn => (Nat.zero_add n).symm ▸ hr n hn) nofun
      have hnodup : (pages.flatten.map (rowPosition localOffset key)).Nodup := by
        rw [List.Nodup, List.pairwise_map]
        exact hstrict.imp fun hlt => ne_of_gt hlt
      exact ⟨hmem, List.count_eq_one_of_mem hnodup (List.mem_map_of_mem hmem)⟩
    · intro n items hn r hr
      have hthere := Keyset.collect_sound hlimit hkey h n items hn r hr
      rwa [Nat.zero_add] at hthere
    · intro hsame
      exact Keyset.collect_eq_descending hlimit hkey hsame h

/-! ## 2. Documents and messages -/

/-- Rows of a table are at distinct positions: their ids differ. -/
theorem nodup_position {id : ρ → Uuid} {t : Table ρ id} {p : ρ → Bool}
    (hkey : ∀ r, (key r).2 = id r) :
    ((t.select p).map (rowPosition localOffset key)).Nodup := by
  have hids : ((t.select p).map id).Nodup := Table.nodup_select
  refine List.Nodup.of_map (fun pos : Position => (ofLex pos).2) ?_
  rw [List.map_map]
  have hsnd : ((fun pos : Position => (ofLex pos).2) ∘ rowPosition localOffset key) = id := by
    funext r
    exact hkey r
  rwa [hsnd]

/-- **Keyset traversal.**  Cursors are read back as they were written.  For every limit from one
on and every sequence of states that comes to rest, following the cursors of the documents of a
user, of any status or of one, and of the messages of a conversation, comes to an end, and what
it yields is `Traversed`. -/
theorem keyset_traversal (localOffset : Datetime → Int) {limit : Nat} (hlimit : 1 ≤ limit)
    (dbs : Nat → Db) {N : Nat} (hstill : ∀ n, N ≤ n → dbs (n + 1) = dbs n) :
    (∀ (ts : Datetime) (id : Uuid), ts.Aware →
      decodeCursor (encodeCursor ts id) = .ok (ts, id)) ∧
    (∀ (userId : Uuid) (status : Option String),
      (∃ fuel pages, followCursors
        (fun n cursor => listDocuments localOffset (dbs n) userId limit cursor status) fuel =
          some pages) ∧
      ∀ fuel pages, followCursors
        (fun n cursor => listDocuments localOffset (dbs n) userId limit cursor status) fuel =
          some pages →
        Traversed (fun d : DocumentRow => position localOffset d.createdAt.val d.id)
          (fun n => documentsOf (dbs n) userId status) pages) ∧
    (∀ conversationId : Uuid,
      (∃ fuel pages, followCursors
        (fun n cursor => messagePage localOffset (dbs n) conversationId limit cursor) fuel =
          some pages) ∧
      ∀ fuel pages, followCursors
        (fun n cursor => messagePage localOffset (dbs n) conversationId limit cursor) fuel =
          some pages →
        Traversed (fun m : MessageRow => position localOffset m.createdAt.val m.id)
          (fun n => messagesOf (dbs n) conversationId) pages) := by
  refine ⟨fun ts id hts => decodeCursor_encodeCursor hts id, ?_, ?_⟩
  · intro userId status
    exact followCursors_listing hlimit (fun n => nodup_position fun _ => rfl)
      (fun n hn => by rw [hstill n hn])
  · intro conversationId
    exact followCursors_listing hlimit (fun n => nodup_position fun _ => rfl)
      (fun n hn => by rw [hstill n hn])

/-! ### Two documents, the newer of which is deleted after the first page -/

/-- Midnight UTC of a day in January 2026. -/
def sampleTime (day : Nat) (h : 1 ≤ day ∧ day ≤ 31) : Timestamp :=
  ⟨⟨2026, 1, day, {}, some 0, by decide, by decide, h, by decide, by decide⟩, rfl⟩

theorem first_day : 1 ≤ 1 ∧ 1 ≤ 31 := by decide

theorem second_day : 1 ≤ 2 ∧ 2 ≤ 31 := by decide

def sampleDocument (id : Uuid) (createdAt : Timestamp) : DocumentRow where
  id := id
  sourceId := 1
  uploadedBy := 2
  filename := ['a']
  mime := "text/plain"
  sizeBytes := 1
  storageKey := ['k']
  checksum := ['c']
  createdAt := createdAt
  updatedAt := createdAt

def olderDocument : DocumentRow := sampleDocument 5 (sampleTime 1 first_day)

def newerDocument : DocumentRow := sampleDocument 4 (sampleTime 2 second_day)

/-- The first fetch sees both documents, the later ones only the older. -/
def sampleStates : Nat → Db
  | 0 => { Db.empty with
      documents := ⟨[newerDocument, olderDocument], by decide⟩
      jobs_fk := fun _ h => absurd h List.not_mem_nil }
  | _ + 1 => { Db.empty with
      documents := ⟨[olderDocument], by decide⟩
      jobs_fk := fun _ h => absurd h List.not_mem_nil }

theorem keyset_traversal_deleted :
    followCursors (fun n cursor => listDocuments (fun _ => 0) (sampleStates n) 2 1 cursor none) 2 =
      some [[newerDocument], [olderDocument]] ∧
    Traversed (fun d : DocumentRow => position (fun _ => 0) d.createdAt.val d.id)
      (fun n => documentsOf (sampleStates n) 2 none) [[newerDocument], [olderDocument]] := by
  have hstill : ∀ n, 1 ≤ n → sampleStates (n + 1) = sampleStates n := by
    intro n hn
    cases n with
    | zero => omega
    | succ n => rfl
  have hrun : followCursors
      (fun n cursor => listDocuments (fun _ => 0) (sampleStates n) 2 1 cursor none) 2 =
        some [[newerDocument], [olderDocument]] := by decide +kernel
  have htraversal := keyset_traversal (fun _ => 0) (show 1 ≤ 1 from le_rfl) sampleStates hstill
  exact ⟨hrun, (htraversal.2.1 2 none).2 2 _ hrun⟩

end AtlasKnowledge.Services
