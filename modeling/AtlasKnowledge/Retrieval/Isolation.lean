/-
# What a search depends on

`Visible` says, over the whole database, which chunks a user may search.  A search sees nothing
else:

* `mem_candidates`: both legs choose from the visible chunks, before any rank or limit;
* `ranked_mem`, `mem_loadChunks_iff`: what is ranked is visible, and of what is ranked the second
  statement loads what is visible;
* `retrieval_isolated`: in two databases with the same visible chunks and filenames a search
  returns the same chunks, scores and ranks, each of them visible.
-/
import AtlasKnowledge.Retrieval.HybridSearch
import AtlasKnowledge.Services.Traversal

namespace AtlasKnowledge.Retrieval

open Relation
open Services (DocumentRow SourceRow first_day sampleTime)

variable {E V J T Q F δ κ : Type} [LinearOrder δ] [LinearOrder κ]

/-! ## 1. Visible chunks -/

/-- The user may search the chunk, which is one of the document: the document is ready and its
source enabled, the user has uploaded it or the chunk is law, and the source is among those asked
for, if any are. -/
def Visible (engine : Engine E V J T Q F δ κ) (db : Db V J T) (userId : Uuid)
    (filterIds : List Uuid) (c : ChunkRow V J T) (d : DocumentRow) : Prop :=
  c ∈ db.chunks.rows ∧ d ∈ db.documents.rows ∧ d.id = c.documentId ∧ d.status = .ready ∧
    (∃ s ∈ db.sources.rows, s.id = d.sourceId ∧ s.enabled = true) ∧
    (d.uploadedBy = userId ∨ engine.field c.info "kind" = some "law") ∧
    (filterIds = [] ∨ d.sourceId ∈ filterIds)

/-- The chunk is visible, in a document with this filename. -/
def VisibleAs (engine : Engine E V J T Q F δ κ) (db : Db V J T) (userId : Uuid)
    (filterIds : List Uuid) (c : ChunkRow V J T) (filename : Text) : Prop :=
  ∃ d, Visible engine db userId filterIds c d ∧ d.filename = filename

variable {engine : Engine E V J T Q F δ κ} {ties : Ties engine} {db db₁ db₂ : Db V J T}
  {userId : Uuid} {filterIds : List Uuid} {c : ChunkRow V J T} {d : DocumentRow} {filename : Text}
  {rows : List (ChunkRow V J T)} {id : Uuid}

theorem passes_iff {s : SourceRow} :
    passes engine userId filterIds c d s = true ↔
      d.status = .ready ∧ s.enabled = true ∧
        (d.uploadedBy = userId ∨ engine.field c.info "kind" = some "law") ∧
        (filterIds = [] ∨ d.sourceId ∈ filterIds) := by
  simp only [passes, Bool.and_eq_true, Bool.or_eq_true, decide_eq_true_eq, List.isEmpty_iff,
    List.contains_iff_mem, and_assoc]

/-- An inner join on a primary key. -/
theorem any_selectOne {ρ : Type} {key : ρ → Uuid} {t : Table ρ key} {p : ρ → Bool} :
    (t.selectOne fun r => key r = id).any p = true ↔ ∃ r ∈ t.rows, key r = id ∧ p r = true := by
  rw [Option.any_eq_true]
  constructor
  · rintro ⟨r, hr, hp⟩
    obtain ⟨hmem, hkey⟩ := Table.selectOne_some hr
    exact ⟨r, hmem, of_decide_eq_true hkey, hp⟩
  · rintro ⟨r, hmem, hkey, hp⟩
    exact ⟨r, Table.selectOne_of_key hmem hkey, hp⟩

/-- **The candidates are the visible chunks.** -/
theorem mem_candidates :
    c ∈ candidates engine db userId filterIds ↔ ∃ d, Visible engine db userId filterIds c d := by
  rw [candidates, Table.mem_select, any_selectOne]
  simp only [any_selectOne, passes_iff]
  constructor
  · rintro ⟨hc, d, hd, hdoc, s, hs, hsource, hready, henabled, howner, hfilter⟩
    exact ⟨d, hc, hd, hdoc, hready, ⟨s, hs, hsource, henabled⟩, howner, hfilter⟩
  · rintro ⟨d, hc, hd, hdoc, hready, ⟨s, hs, hsource, henabled⟩, howner, hfilter⟩
    exact ⟨hc, d, hd, hdoc, s, hs, hsource, hready, henabled, howner, hfilter⟩

/-- With the same visible chunks the legs choose from the same rows. -/
theorem candidates_congr
    (h : ∀ c filename, VisibleAs engine db₁ userId filterIds c filename ↔
      VisibleAs engine db₂ userId filterIds c filename) :
    candidates engine db₁ userId filterIds = candidates engine db₂ userId filterIds := by
  refine Table.eq_of_sorted Table.sorted_select Table.sorted_select ?_
  intro c
  have hvisible : ∀ db, c ∈ candidates engine db userId filterIds ↔
      ∃ filename, VisibleAs engine db userId filterIds c filename := by
    intro db
    rw [mem_candidates]
    constructor
    · rintro ⟨d, hd⟩
      exact ⟨d.filename, d, hd, rfl⟩
    · rintro ⟨_, d, hd, -⟩
      exact ⟨d, hd⟩
  exact (hvisible db₁).trans ((exists_congr (h c)).trans (hvisible db₂).symm)

/-! ## 2. The legs add nothing -/

/-- A row of the vector leg is a candidate's. -/
theorem vec_mem {topK : Int} {qvec : V} {out : List (Uuid × Nat)} {x : Uuid × Nat}
    (h : vec ties topK qvec rows = .ok out) (hx : x ∈ out) : ∃ c ∈ rows, c.id = x.1 := by
  simp only [vec] at h
  obtain ⟨limited, hlimit, rfl⟩ := map_ok h
  obtain ⟨r, hr, rfl⟩ := List.mem_map.mp hx
  obtain ⟨all, hall, hmem⟩ := mem_of_limit hlimit hr
  obtain rfl := Except.ok.inj hall
  have hembedded := (mem_sort _).mp (mem_number ((mem_sort _).mp hmem))
  obtain ⟨c, hc, hv⟩ := List.mem_filterMap.mp hembedded
  obtain ⟨v, -, hpair⟩ := Option.map_eq_some_iff.mp hv
  exact ⟨c, hc, by rw [← hpair]⟩

/-- A row of the full-text leg is a candidate's. -/
theorem fts_mem {topK : Int} {q : Q} {out : List (Uuid × Nat)} {x : Uuid × Nat}
    (h : fts ties topK q rows = .ok out) (hx : x ∈ out) : ∃ c ∈ rows, c.id = x.1 := by
  simp only [fts] at h
  obtain ⟨limited, hlimit, rfl⟩ := map_ok h
  obtain ⟨r, hr, rfl⟩ := List.mem_map.mp hx
  obtain ⟨all, hall, hmem⟩ := mem_of_limit hlimit ((mem_sort _).mp (mem_number hr))
  obtain rfl := Except.ok.inj hall
  obtain ⟨c, hc, hpair⟩ := List.mem_map.mp ((mem_sort _).mp hmem)
  exact ⟨c, (List.mem_filter.mp hc).1, by rw [← hpair]⟩

/-- **What is ranked is a candidate.** -/
theorem ranked_mem {index : Index} {request : Request E} {out : List (Uuid × Rat)}
    {x : Uuid × Rat} (h : ranked ties index request rows = .ok out) (hx : x ∈ out) :
    ∃ c ∈ rows, c.id = x.1 := by
  unfold ranked at h
  split at h
  · obtain ⟨topK, -, h⟩ := bind_ok h
    obtain ⟨rrfK, -, h⟩ := bind_ok h
    obtain ⟨topN, -, h⟩ := bind_ok h
    simp only at h
    split at h
    · -- the vector leg alone
      obtain ⟨all, hall, hmem⟩ := mem_of_limit h hx
      obtain ⟨vec, hvec, hall⟩ := bind_ok hall
      obtain ⟨scored, hscored, hall⟩ := bind_ok hall
      obtain rfl := Except.ok.inj hall
      obtain ⟨y, hy, hrow⟩ := forall_mem_mapM hscored x ((mem_sort _).mp hmem)
      obtain ⟨score, -, hrow⟩ := bind_ok hrow
      obtain rfl := Except.ok.inj hrow
      exact vec_mem hvec hy
    · split at h
      · obtain ⟨all, hall, hmem⟩ := mem_of_limit h hx
        obtain ⟨vec, hvec, hall⟩ := bind_ok hall
        obtain ⟨fts, hfts, hall⟩ := bind_ok hall
        obtain ⟨scored, hscored, hall⟩ := bind_ok hall
        obtain rfl := Except.ok.inj hall
        obtain ⟨y, hy, hrow⟩ := forall_mem_mapM hscored x ((mem_sort _).mp hmem)
        obtain ⟨v, -, hrow⟩ := bind_ok hrow
        obtain ⟨f, -, hrow⟩ := bind_ok hrow
        obtain rfl := Except.ok.inj hrow
        rcases mem_fullJoin hy with ⟨a, ha, hkey⟩ | ⟨b, hb, hkey⟩
        · exact hkey ▸ vec_mem hvec ha
        · exact hkey ▸ fts_mem hfts hb
      · exact nomatch h
  · exact nomatch h

/-! ## 3. The second statement -/

theorem mem_loadChunks {ids : List Uuid} {r : ChunkRow V J T × Text} :
    r ∈ loadChunks db ids ↔
      r.1 ∈ db.chunks.rows ∧ r.1.id ∈ ids ∧
        ∃ d ∈ db.documents.rows, d.id = r.1.documentId ∧ d.filename = r.2 := by
  simp only [loadChunks, List.mem_filterMap, Table.mem_select, List.contains_iff_mem,
    Option.map_eq_some_iff]
  constructor
  · rintro ⟨c, ⟨hc, hid⟩, d, hd, rfl⟩
    obtain ⟨hmem, hkey⟩ := Table.selectOne_some hd
    exact ⟨hc, hid, d, hmem, of_decide_eq_true hkey, rfl⟩
  · rintro ⟨hc, hid, d, hmem, hkey, hname⟩
    exact ⟨r.1, ⟨hc, hid⟩, d, Table.selectOne_of_key hmem hkey, by rw [hname]⟩

theorem sorted_loadChunks (ids : List Uuid) :
    (loadChunks db ids).Pairwise fun a b => a.1.id < b.1.id := by
  refine List.Pairwise.filterMap _ ?_ Table.sorted_select
  intro a b hlt x hx y hy
  obtain ⟨d, -, rfl⟩ := Option.map_eq_some_iff.mp hx
  obtain ⟨e, -, rfl⟩ := Option.map_eq_some_iff.mp hy
  exact hlt

/-- **Of the ids of visible chunks** the visible chunks are loaded. -/
theorem mem_loadChunks_iff {ids : List Uuid}
    (h : ∀ id ∈ ids, ∃ c ∈ candidates engine db userId filterIds, c.id = id)
    {r : ChunkRow V J T × Text} :
    r ∈ loadChunks db ids ↔ r.1.id ∈ ids ∧ VisibleAs engine db userId filterIds r.1 r.2 := by
  rw [mem_loadChunks]
  constructor
  · rintro ⟨hc, hid, d, hd, hdoc, hname⟩
    obtain ⟨c, hcand, hkey⟩ := h _ hid
    obtain ⟨d', hvisible⟩ := mem_candidates.mp hcand
    obtain rfl : c = r.1 := Table.eq_of_key hvisible.1 hc hkey
    obtain rfl : d' = d := Table.eq_of_key hvisible.2.1 hd (hvisible.2.2.1.trans hdoc.symm)
    exact ⟨hid, d', hvisible, hname⟩
  · rintro ⟨hid, d, hvisible, hname⟩
    exact ⟨hvisible.1, hid, d, hvisible.2.1, hvisible.2.2.1, hname⟩

/-! ## 4. The whole search -/

/-- What the second statement loads is determined by the visible chunks. -/
theorem loadChunks_congr {ids : List Uuid}
    (h : ∀ c filename, VisibleAs engine db₁ userId filterIds c filename ↔
      VisibleAs engine db₂ userId filterIds c filename)
    (hids : ∀ id ∈ ids, ∃ c ∈ candidates engine db₁ userId filterIds, c.id = id) :
    loadChunks db₁ ids = loadChunks db₂ ids := by
  refine @Table.eq_of_sorted _ _ _ (fun r => r.1.id) _ _ (sorted_loadChunks ids)
    (sorted_loadChunks ids) ?_
  intro r
  have hids₂ := candidates_congr h ▸ hids
  rw [mem_loadChunks_iff hids, mem_loadChunks_iff hids₂, h]

/-- The ids of the scores are ids of candidates. -/
theorem mem_keys_scores {index : Index} {request : Request E} {out : List (Uuid × Rat)}
    (h : ranked ties index request rows = .ok out) :
    ∀ id ∈ (Dict.ofRows (out.map fun r => (r.1, engine.float r.2))).keys,
      ∃ c ∈ rows, c.id = id := by
  intro id hid
  obtain ⟨score, hrow⟩ := Dict.mem_keys_ofRows hid
  obtain ⟨x, hx, hpair⟩ := List.mem_map.mp hrow
  obtain ⟨rfl, -⟩ := Prod.mk.inj hpair
  exact ranked_mem h hx

/-- The search in the database with other rows that are not visible is the same search. -/
theorem hybridSearch_congr {index : Index} {request : Request E}
    (h : ∀ c filename,
      VisibleAs engine db₁ request.userId (request.sourceIds.getD []) c filename ↔
        VisibleAs engine db₂ request.userId (request.sourceIds.getD []) c filename) :
    hybridSearch ties db₁ index request = hybridSearch ties db₂ index request := by
  unfold hybridSearch hybridSearchBetween loadRanked
  simp only [candidates_congr h]
  split
  · rfl
  · refine bind_congr_of_ok ?_
    intro out hout
    rw [loadChunks_congr h (candidates_congr h ▸ mem_keys_scores hout)]

/-- The score of a loaded row is never missing. -/
theorem retrieved_ok {scores : Dict Uuid F} {loaded : List (ChunkRow V J T × Text)}
    {row : (ChunkRow V J T × Text) × Nat}
    (h : row ∈ number (scores.keys.filterMap
      (Dict.ofRows (loaded.map fun r => (r.1.id, r))).get?)) :
    ∃ r, retrieved scores row = .ok r ∧ r.rank = row.2 ∧ r.chunkId = row.1.1.id ∧
      scores.get? row.1.1.id = some r.score := by
  obtain ⟨id, hid, hbyId⟩ := List.mem_filterMap.mp (mem_number h)
  obtain ⟨r, -, hpair⟩ := List.mem_map.mp (Dict.get_ofRows hbyId)
  obtain ⟨rfl, hrow⟩ := Prod.mk.inj hpair
  obtain ⟨score, hscore⟩ := Dict.get?_isSome hid
  rw [hrow] at hscore
  unfold retrieved
  rw [hscore]
  exact ⟨_, rfl, rfl, rfl, rfl⟩

/-- What is returned is visible. -/
theorem hybridSearch_visible {index : Index} {request : Request E} {out : List (RetrievedChunk J F)}
    {r : RetrievedChunk J F} (h : hybridSearch ties db index request = .ok out) (hr : r ∈ out) :
    ∃ c d, Visible engine db request.userId (request.sourceIds.getD []) c d ∧
      r.chunkId = c.id ∧ r.documentId = d.id ∧ r.filename = d.filename ∧ r.text = c.text ∧
      r.info = c.info := by
  unfold hybridSearch hybridSearchBetween loadRanked at h
  simp only at h
  split at h
  · exact nomatch h
  · obtain ⟨scored, hscored, h⟩ := bind_ok h
    split at h
    · obtain rfl := Except.ok.inj h
      exact absurd hr List.not_mem_nil
    · obtain ⟨row, hrow, hretrieved⟩ := forall_mem_mapM h r hr
      obtain ⟨id, -, hbyId⟩ := List.mem_filterMap.mp (mem_number hrow)
      obtain ⟨loaded, hloaded, hpair⟩ := List.mem_map.mp (Dict.get_ofRows hbyId)
      obtain ⟨-, rfl⟩ := Prod.mk.inj hpair
      obtain ⟨-, d, hvisible, hname⟩ :=
        (mem_loadChunks_iff (mem_keys_scores hscored)).mp hloaded
      unfold retrieved at hretrieved
      split at hretrieved
      · exact nomatch hretrieved
      · obtain rfl := Except.ok.inj hretrieved
        exact ⟨row.1.1, d, hvisible, rfl, hvisible.2.2.1.symm, hname.symm, rfl, rfl⟩

/-- **Retrieval is isolated between users.** -/
theorem retrieval_isolated (engine : Engine E V J T Q F δ κ) (ties : Ties engine)
    (db₁ db₂ : Db V J T) (index : Index) (request : Request E)
    (h : ∀ c filename,
      VisibleAs engine db₁ request.userId (request.sourceIds.getD []) c filename ↔
        VisibleAs engine db₂ request.userId (request.sourceIds.getD []) c filename) :
    hybridSearch ties db₁ index request = hybridSearch ties db₂ index request ∧
      ∀ out, hybridSearch ties db₁ index request = .ok out → ∀ r ∈ out, ∃ c d,
        Visible engine db₁ request.userId (request.sourceIds.getD []) c d ∧
          r.chunkId = c.id ∧ r.documentId = d.id ∧ r.filename = d.filename ∧ r.text = c.text ∧
          r.info = c.info := by
  refine ⟨hybridSearch_congr h, ?_⟩
  intro out hout r hr
  exact hybridSearch_visible hout hr

/-! ### A search with somebody else's chunk nearer -/

/-- Unit vectors in the plane; a `tsvector` is its lexemes; of JSON only the kind. -/
def sampleEngine :
    Engine (Int × Int) (Int × Int) (Option String) (List Text) (List Text) Rat Int Nat where
  takesEfSearch ef := 1 ≤ ef ∧ ef ≤ 1000
  toVector := some
  field info key := if key = "kind" then info else none
  distance a b := 1 - (a.1 * b.1 + a.2 * b.2)
  toTsquery text := some ((Str.words (text.filter (· ≠ '"'))).filter (· ≠ ['|']))
  hits tsv q := q.any tsv.contains
  rankCd tsv q := (q.filter tsv.contains).length
  reciprocal n := 1 / n
  float score := score

def sampleTies : Ties sampleEngine where
  vecWindow _ := .stable _
  vec _ := .stable _
  fts := .stable _
  ftsWindow := .stable _
  score := .stable _

def sampleInstant : Pagination.Timestamp := sampleTime 1 first_day

def sampleChunk (id documentId : Uuid) (embedding : Int × Int) :
    ChunkRow (Int × Int) (Option String) (List Text) where
  id := id
  documentId := documentId
  text := ['a', 'b']
  info := some "document"
  embedding := some embedding
  tsv := [['a', 'b']]

def sampleDocument (id userId : Uuid) : DocumentRow where
  id := id
  sourceId := 5
  uploadedBy := userId
  filename := ['f']
  mime := "text/plain"
  sizeBytes := 1
  storageKey := []
  checksum := []
  status := .ready
  createdAt := sampleInstant
  updatedAt := sampleInstant

def sampleSource : SourceRow where
  id := 5
  ownerId := 1
  name := "s"
  type := "upload"
  createdAt := sampleInstant
  updatedAt := sampleInstant

/-- Document 10 of user 1 and document 20 of user 2. -/
def sampleDb (chunks : List (ChunkRow (Int × Int) (Option String) (List Text)))
    (sorted : chunks.Pairwise fun a b => a.id < b.id) :
    Db (Int × Int) (Option String) (List Text) where
  chunks := ⟨chunks, sorted⟩
  documents := ⟨[sampleDocument 10 1, sampleDocument 20 2], by decide⟩
  sources := ⟨[sampleSource], by decide⟩

theorem retrieval_isolated_nearer :
    let alone := sampleDb [sampleChunk 100 10 (0, 1)] (by decide)
    let shared := sampleDb [sampleChunk 100 10 (0, 1), sampleChunk 200 20 (1, 0)] (by decide)
    let index : Index := ⟨30, 3, 60⟩
    let request : Request (Int × Int) := ⟨1, none, ['a', 'b', ' ', 'c'], (1, 0), 8⟩
    hybridSearch sampleTies alone index request = hybridSearch sampleTies shared index request ∧
      hybridSearch sampleTies shared index request
        = .ok [⟨100, 10, ['f'], ['a', 'b'], 1 / 2, 1, some "document"⟩] := by
  intro alone shared index request
  have hsame : ∀ c filename,
      VisibleAs sampleEngine alone request.userId (request.sourceIds.getD []) c filename ↔
        VisibleAs sampleEngine shared request.userId (request.sourceIds.getD []) c filename := by
    intro c filename
    constructor
    · rintro ⟨d, ⟨hc, hrest⟩, hname⟩
      exact ⟨d, ⟨List.mem_cons.mpr (.inl (List.mem_singleton.mp hc)), hrest⟩, hname⟩
    · rintro ⟨d, ⟨hc, hd, hdoc, hready, hsource, howner, hfilter⟩, hname⟩
      refine ⟨d, ⟨?_, hd, hdoc, hready, hsource, howner, hfilter⟩, hname⟩
      rcases List.mem_cons.mp hc with rfl | hc
      · exact List.mem_singleton.mpr rfl
      · -- the other chunk is one of the other user's document
        obtain rfl := List.mem_singleton.mp hc
        rcases List.mem_cons.mp hd with rfl | hd
        · exact absurd hdoc (by decide)
        · obtain rfl := List.mem_singleton.mp hd
          rcases howner with howner | hlaw
          · exact absurd howner (by decide)
          · exact absurd hlaw (by decide)
  exact ⟨(retrieval_isolated sampleEngine sampleTies alone shared index request hsame).1,
    by decide +kernel⟩

end AtlasKnowledge.Retrieval
