/-
# Cursors

`core/pagination.py`: a cursor is the URL-safe base64 of a timestamp and an id, and the rows of a
page are those below it in the order of timestamp and id, both descending.

A row's timestamp comes from a `timestamptz` column, so it is aware; the timestamp of a cursor is
what the client sent.  A naive one is read at the offset of the server's own time zone, which is
a parameter.
-/
import AtlasKnowledge.Domain.Errors
import AtlasKnowledge.Lib.Base64
import AtlasKnowledge.Lib.Datetime
import AtlasKnowledge.Lib.Keyset
import AtlasKnowledge.Lib.Uuid
import AtlasKnowledge.Parsing.Text
import Mathlib.Data.Prod.Lex

namespace AtlasKnowledge.Pagination

open Parsing (utf8Decode utf8Decode_encode)

/-- A `timestamptz`. -/
abbrev Timestamp := { d : Datetime // d.Aware }

/-! ## 1. The codec -/

/-- `encode_cursor`. -/
def encodeCursor (ts : Datetime) (id : Uuid) : Text :=
  Base64.encode (Utf8.encode (ts.isoformat ++ '|' :: id.text))

/-- `raw.split("|", 1)`, where two parts are expected. -/
def splitOnce (raw : Text) : Option (Text × Text) :=
  match raw.dropWhile (· ≠ '|') with
  | _ :: rest => some (raw.takeWhile (· ≠ '|'), rest)
  | [] => none

/-- `decode_cursor`.  Every step may raise a `ValueError`. -/
def decodeCursor (cursor : Text) : Except AppError (Datetime × Uuid) :=
  let decoded : Option (Datetime × Uuid) := do
    let ascii ← if cursor.all fun c => c.toNat < 128 then some cursor else none
    let raw ← (Base64.decode ascii).bind utf8Decode
    let (tsStr, idStr) ← splitOnce raw
    let ts ← Datetime.fromisoformat tsStr
    let id ← Uuid.ofText idStr
    return (ts, id)
  match decoded with
  | some key => .ok key
  | none => .error AppError.invalidCursor

theorem splitOnce_append {front : Text} (rest : Text) (h : ∀ c ∈ front, c ≠ '|') :
    splitOnce (front ++ '|' :: rest) = some (front, rest) := by
  have hfront : ∀ c ∈ front, decide (c ≠ '|') = true := fun c hc => decide_eq_true (h c hc)
  have hdrop : (front ++ '|' :: rest).dropWhile (fun c => decide (c ≠ '|')) = '|' :: rest := by
    rw [List.dropWhile_append_of_pos hfront]
    rfl
  have htake : (front ++ '|' :: rest).takeWhile (fun c => decide (c ≠ '|')) = front := by
    rw [List.takeWhile_append_of_pos hfront, List.takeWhile_cons, if_neg (by decide),
      List.append_nil]
  rw [splitOnce, hdrop, htake]

/-- **A cursor is read back**: the timestamp with its offset, and the id. -/
theorem decodeCursor_encodeCursor {ts : Datetime} (hts : ts.Aware) (id : Uuid) :
    decodeCursor (encodeCursor ts id) = .ok (ts, id) := by
  have hdigit : ∀ d < 10, Radix.decimal.digit d ≠ '|' := by
    have hall : ((List.range 10).all fun d => Radix.decimal.digit d ≠ '|') = true := by decide
    exact fun d hd => of_decide_eq_true (List.all_eq_true.mp hall d (List.mem_range.mpr hd))
  have hbar : ∀ c ∈ ts.isoformat, c ≠ '|' :=
    Datetime.forall_mem_isoformat (fun c => c ≠ '|') hdigit (by decide) (by decide)
      (by decide) (by decide) (by decide) ts
  have hascii : ((encodeCursor ts id).all fun c => c.toNat < 128) = true :=
    List.all_eq_true.mpr fun c hc => decide_eq_true (Base64.encode_ascii _ c hc)
  have hraw : (Base64.decode (encodeCursor ts id)).bind utf8Decode =
      some (ts.isoformat ++ '|' :: id.text) := by
    rw [encodeCursor, Base64.decode_encode, Option.bind_some, utf8Decode_encode]
  simp only [decodeCursor, if_pos hascii, Option.bind_eq_bind, Option.bind_some, hraw,
    splitOnce_append id.text hbar, Datetime.fromisoformat_isoformat hts, Uuid.ofText_text]
  rfl

/-- `encode_cursor` never writes the empty text, which stands for no cursor. -/
theorem encodeCursor_ne_nil (ts : Datetime) (id : Uuid) : encodeCursor ts id ≠ [] := by
  intro h
  have hdecode := Base64.decode_encode (Utf8.encode (ts.isoformat ++ '|' :: id.text))
  rw [show Base64.encode (Utf8.encode (ts.isoformat ++ '|' :: id.text)) = [] from h] at hdecode
  have hbytes : Utf8.encode (ts.isoformat ++ '|' :: id.text) = [] := (Option.some.inj hdecode).symm
  have htext := utf8Decode_encode (ts.isoformat ++ '|' :: id.text)
  rw [hbytes] at htext
  have hnil : ts.isoformat ++ '|' :: id.text = [] := (Option.some.inj htext).symm
  exact absurd (List.append_eq_nil_iff.mp hnil).2 (List.cons_ne_nil _ _)

/-! ## 2. Pages -/

section Pages

variable {ρ : Type} (localOffset : Datetime → Int)

/-- The order of the rows: by instant, then by id. -/
abbrev Position := Int ×ₗ Uuid

def position (ts : Datetime) (id : Uuid) : Position := toLex (ts.instant localOffset, id)

/-- `keyset_before`: `ts_col < ts OR (ts_col = ts AND id_col < id)`. -/
def keysetBefore (tsCol : Datetime) (idCol : Uuid) (ts : Datetime) (id : Uuid) : Bool :=
  tsCol.instant localOffset < ts.instant localOffset ∨
    (tsCol.instant localOffset = ts.instant localOffset ∧ idCol < id)

theorem keysetBefore_iff (tsCol : Datetime) (idCol : Uuid) (ts : Datetime) (id : Uuid) :
    keysetBefore localOffset tsCol idCol ts id = true ↔
      position localOffset tsCol idCol < position localOffset ts id := by
  rw [keysetBefore, decide_eq_true_iff, position, position, Prod.Lex.lt_iff]
  rfl

/-- `paginate`: the rows of the page and the next cursor, from one row more than the page has. -/
def paginate (rows : List ρ) (limit : Nat) (key : ρ → Timestamp × Uuid) : List ρ × Option Text :=
  let hasMore := decide (rows.length > limit)
  let items := rows.take limit
  let nextCursor := match items.getLast? with
    | some last => if hasMore then some (encodeCursor (key last).1.val (key last).2) else none
    | none => none
  (items, nextCursor)

/-- The statement of every `list_page`: the rows of a `WHERE`, below the cursor if there is one,
in descending order, one more than the page shows. -/
def listPage (key : ρ → Timestamp × Uuid) (limit : Nat) (cursor : Option (Datetime × Uuid))
    (rows : List ρ) : List ρ :=
  let stmt := match cursor with
    | some (ts, id) =>
      rows.filter fun r => keysetBefore localOffset (key r).1.val (key r).2 ts id
    | none => rows
  (Keyset.descending (fun r => position localOffset (key r).1.val (key r).2) stmt).take (limit + 1)

/-- `decode_cursor(cursor) if cursor else None`. -/
def decodeOptional : Option Text → Except AppError (Option (Datetime × Uuid))
  | none => .ok none
  | some cursor => if cursor = [] then .ok none else (decodeCursor cursor).map some

/-- The three steps of every listing: the cursor, the rows, the page. -/
def listing (key : ρ → Timestamp × Uuid) (limit : Nat) (cursor : Option Text) (rows : List ρ) :
    Except AppError (List ρ × Option Text) :=
  (decodeOptional cursor).map fun keyset =>
    paginate (listPage localOffset key limit keyset rows) limit key

/-! ## 3. A listing is a keyset page -/

/-- The position of a row. -/
def rowPosition (key : ρ → Timestamp × Uuid) (r : ρ) : Position :=
  position localOffset (key r).1.val (key r).2

/-- A cursor stands for the position it encodes. -/
def StandsFor (cursor : Text) (p : Position) : Prop :=
  ∃ (ts : Timestamp) (id : Uuid), cursor = encodeCursor ts.val id ∧
    p = position localOffset ts.val id

variable {localOffset} {key : ρ → Timestamp × Uuid} {limit : Nat} {rows : List ρ}

theorem listPage_eq (keyset : Option (Datetime × Uuid)) :
    listPage localOffset key limit keyset rows =
      Keyset.fetched (rowPosition localOffset key) limit
        (keyset.map fun k => position localOffset k.1 k.2) rows := by
  cases keyset with
  | none =>
    have hall : Keyset.before (rowPosition localOffset key) none rows = rows := by
      simp [Keyset.before]
    rw [Option.map_none, Keyset.fetched, hall]
    rfl
  | some k =>
    have hfilter : (rows.filter fun r => keysetBefore localOffset (key r).1.val (key r).2 k.1 k.2) =
        Keyset.before (rowPosition localOffset key) (some (position localOffset k.1 k.2)) rows := by
      refine List.filter_congr ?_
      intro r _
      rw [Bool.eq_iff_iff, keysetBefore_iff]
      exact ⟨fun h => decide_eq_true h, fun h => of_decide_eq_true h⟩
    simp only [listPage, hfilter]
    rfl

theorem paginate_eq (fetched : List ρ) :
    paginate fetched limit key =
      Keyset.cut (fun r => encodeCursor (key r).1.val (key r).2) limit fetched := by
  simp only [paginate, Keyset.cut]
  cases (fetched.take limit).getLast? <;> simp

/-- The pages with cursors as texts and those with cursors as positions. -/
theorem samePage_cut (fetched : List ρ) :
    Keyset.SamePage (StandsFor localOffset)
      (some (Keyset.cut (fun r => encodeCursor (key r).1.val (key r).2) limit fetched))
      (some (Keyset.cut (rowPosition localOffset key) limit fetched)) := by
  simp only [Keyset.cut]
  by_cases hmore : limit < fetched.length
  · rw [if_pos hmore, if_pos hmore]
    cases (fetched.take limit).getLast? with
    | none => exact .last _
    | some last => exact .more _ ⟨(key last).1, (key last).2, rfl, rfl⟩
  · rw [if_neg hmore, if_neg hmore]
    exact .last _

/-- **A listing is a keyset page**, on its own cursors. -/
theorem samePage_listing {cursor : Option Text} {p : Option Position}
    (h : Option.Rel (StandsFor localOffset) cursor p) :
    Keyset.SamePage (StandsFor localOffset) (listing localOffset key limit cursor rows).toOption
      (some (Keyset.page (rowPosition localOffset key) limit p rows)) := by
  have hkeyset : ∃ keyset : Option (Datetime × Uuid), decodeOptional cursor = .ok keyset ∧
      p = keyset.map fun k => position localOffset k.1 k.2 := by
    cases h with
    | none => exact ⟨none, rfl, rfl⟩
    | some hstands =>
      obtain ⟨ts, id, rfl, rfl⟩ := hstands
      refine ⟨some (ts.val, id), ?_, rfl⟩
      rw [decodeOptional, if_neg (encodeCursor_ne_nil ts.val id),
        decodeCursor_encodeCursor ts.property id]
      rfl
  obtain ⟨keyset, hdecode, rfl⟩ := hkeyset
  have hlisting : (listing localOffset key limit cursor rows).toOption =
      some (Keyset.cut (fun r => encodeCursor (key r).1.val (key r).2) limit
        (Keyset.fetched (rowPosition localOffset key) limit
          (keyset.map fun k => position localOffset k.1 k.2) rows)) := by
    rw [listing, hdecode, ← listPage_eq, ← paginate_eq]
    rfl
  rw [hlisting]
  exact samePage_cut _

/-- A page shows rows of the listing. -/
theorem mem_of_listing {cursor next : Option Text} {items : List ρ}
    (h : listing localOffset key limit cursor rows = .ok (items, next)) :
    ∀ r ∈ items, r ∈ rows := by
  unfold listing at h
  cases hdecode : decodeOptional cursor with
  | error e =>
    rw [hdecode] at h
    exact nomatch h
  | ok keyset =>
    rw [hdecode] at h
    obtain ⟨rfl, -⟩ := Prod.mk.inj (Except.ok.inj h)
    intro r hr
    rw [listPage_eq] at hr
    have hmem := List.mem_of_mem_take (List.mem_of_mem_take hr)
    exact (Keyset.mem_before.mp (Keyset.mem_descending.mp hmem)).1

end Pages

end AtlasKnowledge.Pagination
