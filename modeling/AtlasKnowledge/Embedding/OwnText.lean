/-
# Each text gets its own embedding

The adapter restores the order by a sort and counts the rows.  That is enough exactly for a
response whose indices are `0..n-1`, each once; any other one of the right size goes through, its
vectors attached to whatever text comes next.

* `own_text`: when the embeddings are those of the texts;
* `not_own_text`: two rows with the same index.
-/
import AtlasKnowledge.Embedding.OpenAiCompat

namespace AtlasKnowledge.Embedding

open Json (Raised)
open Fallible

/-! ## 1. The property -/

section Spec

variable {F : Type} (py : Python F) (lowered : List UInt8 → Text) (self : OpenAICompatEmbedding)

/-- The index of the row equals `j`. -/
def HasIndex (j : Nat) (row : Json.Value F) : Prop :=
  ∃ index, row.item "index".toList = .ok index ∧ py.rank index = some (j : Int)

/-- It is the one and only row with that index. -/
def OnlyRow (rows : List (Json.Value F)) (j : Nat) (row : Json.Value F) : Prop :=
  ∃ pre post, rows = pre ++ row :: post ∧ HasIndex py j row ∧ ∀ other ∈ pre ++ post,
    ¬HasIndex py j other

/-- The indices of the rows are exactly `0..n-1`, each once. -/
def ExactIndices (n : Nat) (resp : Response F) : Prop :=
  ∃ rows, dataOf resp.json = .ok rows ∧ rows.length = n ∧ ∀ j < n, ∃ row, OnlyRow py rows j row

/-- The vector is the embedding of the one and only row of the response with the index. -/
def IsEmbedding (outcome : Outcome F) (j : Nat) (vector : List F) : Prop :=
  ∃ resp rows row, outcome = .response resp ∧ dataOf resp.json = .ok rows ∧
    OnlyRow py rows j row ∧ vectorOf py row = .ok vector

/-- The batch is sent: every batch before it came back. -/
def Reached (responses : Nat → Outcome F) (texts : List Text) (k : Nat) : Prop :=
  ∀ i < k, ∀ batch, (batches self texts)[i]? = some batch →
    ∃ vectors, embedBatch py lowered self (responses i) batch = .ok vectors

/-- `embed` raises an `EmbeddingError` or returns for each text its own embedding, and a response
with other indices is rejected with `provider_error`. -/
structure OwnText (responses : Nat → Outcome F) (texts : List Text) : Prop where
  outcome : (∃ e, embed py lowered self responses texts = .error (.embeddingError e)) ∨
    ∃ vectors, embed py lowered self responses texts = .ok vectors ∧
      vectors.length = texts.length ∧
      ∀ k j, j < self.batchSize → k * self.batchSize + j < texts.length →
        ∃ vector, vectors[k * self.batchSize + j]? = some vector ∧ vector.length = self.dim ∧
          IsEmbedding py (responses k) j vector
  rejected : ∀ k batch resp, (batches self texts)[k]? = some batch →
    Reached py lowered self responses texts k → responses k = .response resp →
    resp.status < 400 → ¬ExactIndices py batch.length resp →
    embedBatch py lowered self (responses k) batch = .error (error .providerError)

/-! ## 2. The condition -/

/-- A response with as many rows as texts, each with an index and a vector of numbers, whose
indices can be compared. -/
def Accepted (n : Nat) (outcome : Outcome F) : Prop :=
  ∃ resp rows indexed sorted, outcome = .response resp ∧ resp.status < 400 ∧
    dataOf resp.json = .ok rows ∧ rows.length = n ∧ rows.mapM keyed = .ok indexed ∧
    py.sorted indexed = .ok sorted ∧
    ∀ row ∈ rows, ∃ vector, vectorOf py row = .ok vector ∧ vector.length = self.dim

/-- In the embedding of the row an integer that no float can hold comes before anything else that
is not a number. -/
def TooLarge (row : Json.Value F) : Prop :=
  ∃ embedding items pre x post, row.item "embedding".toList = .ok embedding ∧
    embedding.iterate = .ok items ∧ items = pre ++ x :: post ∧
    (∀ y ∈ pre, (py.float y).isOk) ∧ py.float x = .error .overflowError

/-- The decoder or a comparison runs out of stack, or a number is too large before anything else
is wrong with an embedding. -/
def Uncaught (outcome : Outcome F) : Prop :=
  ∃ resp, outcome = .response resp ∧ resp.status < 400 ∧
    ((∃ e, resp.json = .error e ∧ caught e = false) ∨
      ∃ rows indexed, dataOf resp.json = .ok rows ∧ rows.mapM keyed = .ok indexed ∧
        ((∃ e, py.sorted indexed = .error e ∧ caught e = false) ∨
          ∃ sorted pre row post, py.sorted indexed = .ok sorted ∧
            sorted.map Prod.snd = pre ++ row :: post ∧ (∀ r ∈ pre, (vectorOf py r).isOk) ∧
            TooLarge py row))

/-- No response that is reached runs into an exception of another kind, and each that is accepted
has the indices `0..n-1`, each once. -/
def Trustworthy (responses : Nat → Outcome F) (texts : List Text) : Prop :=
  ∀ k batch, (batches self texts)[k]? = some batch →
    (∀ i < k, ∀ earlier, (batches self texts)[i]? = some earlier →
      Accepted py self earlier.length (responses i)) →
    ¬Uncaught py (responses k) ∧
      ∀ resp, responses k = .response resp → Accepted py self batch.length (responses k) →
        ExactIndices py batch.length resp

end Spec

variable {F : Type} {py : Python F} {lowered : List UInt8 → Text} {self : OpenAICompatEmbedding}
  {outcome : Outcome F} {batch : List Text} {vectors : List (List F)}

/-! ## 3. What a batch comes to -/

theorem item_error {key : List Char} {value : Json.Value F} {e : Raised}
    (h : value.item key = .error e) : caught e = true := by
  cases value with
  | obj members =>
    obtain rfl := elim_eq_error h
    rfl
  | _ =>
    obtain rfl := Except.error.inj h
    rfl

theorem iterate_error {value : Json.Value F} {e : Raised} (h : value.iterate = .error e) :
    caught e = true := by
  cases value with
  | arr items => cases h
  | str s => cases h
  | obj members => cases h
  | _ =>
    obtain rfl := Except.error.inj h
    rfl

theorem float_error {x : Json.Value F} {e : Raised} (h : py.float x = .error e)
    (hcaught : caught e = false) : e = .overflowError := by
  cases x with
  | bool b => exact elim_eq_error h
  | int n => exact elim_eq_error h
  | float y => cases h
  | str s =>
    obtain rfl := elim_eq_error h
    cases hcaught
  | null | arr _ | obj _ =>
    obtain rfl := Except.error.inj h
    cases hcaught

/-- A row's vector fails uncaught exactly on a number that is too large. -/
theorem vectorOf_uncaught {row : Json.Value F} :
    (∃ e, vectorOf py row = .error e ∧ caught e = false) ↔ TooLarge py row := by
  constructor
  · rintro ⟨e, h, hcaught⟩
    rcases bind_eq_error.mp h with hitem | ⟨embedding, hitem, h⟩
    · rw [item_error hitem] at hcaught
      cases hcaught
    · rcases bind_eq_error.mp h with hiter | ⟨items, hiter, h⟩
      · rw [iterate_error hiter] at hcaught
        cases hcaught
      · obtain ⟨pre, x, post, hitems, hpre, hx⟩ := mapM_eq_error.mp h
        obtain rfl := float_error hx hcaught
        exact ⟨embedding, items, pre, x, post, hitem, hiter, hitems, hpre, hx⟩
  · rintro ⟨embedding, items, pre, x, post, hitem, hiter, hitems, hpre, hx⟩
    have hmap : items.mapM py.float = .error .overflowError :=
      mapM_eq_error.mpr ⟨pre, x, post, hitems, hpre, hx⟩
    exact ⟨.overflowError, bind_eq_error.mpr (.inr ⟨embedding, hitem,
      bind_eq_error.mpr (.inr ⟨items, hiter, hmap⟩)⟩), rfl⟩

theorem dataOf_uncaught {json : Except Raised (Json.Value F)} :
    (∃ e, dataOf json = .error e ∧ caught e = false) ↔ ∃ e, json = .error e ∧ caught e = false := by
  constructor
  · rintro ⟨e, h, hcaught⟩
    rcases bind_eq_error.mp h with hjson | ⟨body, _, h⟩
    · exact ⟨e, hjson, hcaught⟩
    · rcases bind_eq_error.mp h with hitem | ⟨data, _, hiter⟩
      · rw [item_error hitem] at hcaught
        cases hcaught
      · rw [iterate_error hiter] at hcaught
        cases hcaught
  · rintro ⟨e, rfl, hcaught⟩
    exact ⟨e, rfl, hcaught⟩

theorem keyed_eq_ok {row : Json.Value F} {pair : Keyed F} :
    keyed row = .ok pair ↔ row.item "index".toList = .ok pair.1 ∧ pair.2 = row := by
  unfold keyed
  rw [bind_eq_ok]
  constructor
  · rintro ⟨index, hindex, h⟩
    obtain rfl := Except.ok.inj h
    exact ⟨hindex, rfl⟩
  · rintro ⟨hindex, hrow⟩
    exact ⟨pair.1, hindex, congrArg Except.ok (Prod.ext rfl hrow.symm)⟩

theorem keyed_error {row : Json.Value F} {e : Raised} (h : keyed row = .error e) :
    caught e = true := by
  rcases bind_eq_error.mp h with hitem | ⟨index, _, h⟩
  · exact item_error hitem
  · cases h

/-- The rows come out of `keyed` as they went in. -/
theorem map_snd_of_keyed {rows : List (Json.Value F)} {indexed : List (Keyed F)}
    (h : rows.mapM keyed = .ok indexed) : indexed.map Prod.snd = rows := by
  have hpairs := mapM_eq_ok.mp h
  clear h
  induction hpairs with
  | nil => rfl
  | cons hpair _ ih => rw [List.map_cons, ih, (keyed_eq_ok.mp hpair).2]

/-- The vectors are those of the rows, in the order of the sort. -/
theorem vectorsOf_eq_ok {json : Except Raised (Json.Value F)} :
    vectorsOf py json = .ok vectors ↔
      ∃ rows indexed sorted, dataOf json = .ok rows ∧ rows.mapM keyed = .ok indexed ∧
        py.sorted indexed = .ok sorted ∧
        List.Forall₂ (fun row vector => vectorOf py row = .ok vector) (sorted.map Prod.snd)
          vectors := by
  unfold vectorsOf
  rw [bind_eq_ok]
  constructor
  · rintro ⟨rows, hrows, h⟩
    obtain ⟨indexed, hindexed, h⟩ := bind_eq_ok.mp h
    obtain ⟨sorted, hsorted, h⟩ := bind_eq_ok.mp h
    exact ⟨rows, indexed, sorted, hrows, hindexed, hsorted,
      List.forall₂_map_left_iff.mpr (mapM_eq_ok.mp h)⟩
  · rintro ⟨rows, indexed, sorted, hrows, hindexed, hsorted, h⟩
    exact ⟨rows, hrows, bind_eq_ok.mpr ⟨indexed, hindexed, bind_eq_ok.mpr ⟨sorted, hsorted,
      mapM_eq_ok.mpr (List.forall₂_map_left_iff.mp h)⟩⟩⟩

/-- A batch comes back exactly if its response is accepted. -/
theorem embedBatch_eq_ok :
    embedBatch py lowered self outcome batch = .ok vectors ↔
      ∃ resp, outcome = .response resp ∧ resp.status < 400 ∧ vectorsOf py resp.json = .ok vectors ∧
        vectors.length = batch.length ∧ ∀ vector ∈ vectors, vector.length = self.dim := by
  cases outcome with
  | timeout => exact ⟨nofun, fun ⟨_, h, _⟩ => nomatch h⟩
  | httpError => exact ⟨nofun, fun ⟨_, h, _⟩ => nomatch h⟩
  | response resp =>
    unfold embedBatch
    dsimp only
    constructor
    · intro h
      split_ifs at h with hstatus
      split at h
      · split_ifs at h
      · split_ifs at h with hlength hdim
        obtain rfl := Except.ok.inj h
        refine ⟨resp, rfl, by omega, ‹_›, not_not.mp hlength, ?_⟩
        simpa using hdim
    · rintro ⟨resp', hresp, hstatus, hvectors, hlength, hdim⟩
      obtain rfl := Outcome.response.inj hresp
      have hany : (vectors.any fun vector => vector.length ≠ self.dim) = false := by
        simpa using hdim
      rw [if_neg (by omega), hvectors]
      dsimp only
      rw [if_neg (not_not.mpr hlength), hany]
      rfl

/-- It raises an exception of another kind exactly if that comes out of the `try`. -/
theorem embedBatch_raised {e : Raised} :
    embedBatch py lowered self outcome batch = .error (.raised e) ↔
      ∃ resp, outcome = .response resp ∧ resp.status < 400 ∧ vectorsOf py resp.json = .error e ∧
        caught e = false := by
  cases outcome with
  | timeout => exact ⟨nofun, fun ⟨_, h, _⟩ => nomatch h⟩
  | httpError => exact ⟨nofun, fun ⟨_, h, _⟩ => nomatch h⟩
  | response resp =>
    unfold embedBatch
    dsimp only
    constructor
    · intro h
      split_ifs at h with hstatus
      · cases h
      · split at h
        · split_ifs at h with hcaught
          · cases h
          · obtain rfl := Exception.raised.inj (Except.error.inj h)
            exact ⟨resp, rfl, by omega, ‹_›, (Bool.not_eq_true _).mp hcaught⟩
        · split_ifs at h <;> cases h
    · rintro ⟨resp', hresp, hstatus, hvectors, hcaught⟩
      obtain rfl := Outcome.response.inj hresp
      rw [if_neg (by omega), hvectors]
      dsimp only
      rw [hcaught]
      rfl

/-- Below 400 every `EmbeddingError` is a `provider_error`. -/
theorem embedBatch_error {resp : Response F} {e : EmbeddingError} (hstatus : resp.status < 400)
    (h : embedBatch py lowered self (.response resp) batch = .error (.embeddingError e)) :
    Exception.embeddingError e = error .providerError := by
  unfold embedBatch at h
  dsimp only at h
  rw [if_neg (by omega)] at h
  split at h
  · split_ifs at h
    · exact (Except.error.inj h).symm
    · cases h
  · split_ifs at h
    · exact (Except.error.inj h).symm
    · exact (Except.error.inj h).symm

/-- What the rows of an accepted response are sorted into is a permutation of them. -/
theorem sorted_perm (hlawful : py.Lawful) {rows : List (Json.Value F)}
    {indexed sorted : List (Keyed F)} (hindexed : rows.mapM keyed = .ok indexed)
    (hsorted : py.sorted indexed = .ok sorted) : (sorted.map Prod.snd).Perm rows := by
  have h := (hlawful.perm _ _ hsorted).map Prod.snd
  rwa [map_snd_of_keyed hindexed] at h

theorem accepted_iff (hlawful : py.Lawful) :
    Accepted py self batch.length outcome ↔
      ∃ vectors, embedBatch py lowered self outcome batch = .ok vectors := by
  constructor
  · rintro ⟨resp, rows, indexed, sorted, hresp, hstatus, hrows, hlength, hindexed, hsorted, hvector⟩
    have hperm := sorted_perm hlawful hindexed hsorted
    cases hmap : (sorted.map Prod.snd).mapM (vectorOf py) with
    | error e =>
      obtain ⟨pre, row, post, hsplit, _, herror⟩ := mapM_eq_error.mp hmap
      have hrow : row ∈ rows := hperm.subset (by rw [hsplit]; simp)
      obtain ⟨vector, hok, _⟩ := hvector row hrow
      rw [hok] at herror
      cases herror
    | ok vectors =>
      have hpairs := mapM_eq_ok.mp hmap
      refine ⟨vectors, embedBatch_eq_ok.mpr ⟨resp, hresp, hstatus,
        vectorsOf_eq_ok.mpr ⟨rows, indexed, sorted, hrows, hindexed, hsorted, hpairs⟩, ?_, ?_⟩⟩
      · rw [← hpairs.length_eq, hperm.length_eq, hlength]
      · intro vector hmem
        obtain ⟨row, hrow, hok⟩ := exists_of_mem_right hpairs hmem
        obtain ⟨vector', hok', hdim⟩ := hvector row (hperm.subset hrow)
        rwa [Except.ok.inj (hok.symm.trans hok')]
  · rintro ⟨vectors, h⟩
    obtain ⟨resp, hresp, hstatus, hvectors, hlength, hdim⟩ := embedBatch_eq_ok.mp h
    obtain ⟨rows, indexed, sorted, hrows, hindexed, hsorted, hpairs⟩ := vectorsOf_eq_ok.mp hvectors
    have hperm := sorted_perm hlawful hindexed hsorted
    refine ⟨resp, rows, indexed, sorted, hresp, hstatus, hrows, ?_, hindexed, hsorted, ?_⟩
    · rw [← hlength, ← hpairs.length_eq, hperm.length_eq]
    · intro row hrow
      obtain ⟨vector, hmem, hok⟩ := exists_of_mem_left hpairs (hperm.mem_iff.mpr hrow)
      exact ⟨vector, hok, hdim vector hmem⟩

theorem uncaught_iff :
    Uncaught py outcome ↔
      ∃ e, embedBatch py lowered self outcome batch = .error (.raised e) := by
  constructor
  · rintro ⟨resp, hresp, hstatus, ⟨e, hjson, hcaught⟩ | ⟨rows, indexed, hrows, hindexed, h⟩⟩
    · refine ⟨e, embedBatch_raised.mpr ⟨resp, hresp, hstatus, ?_, hcaught⟩⟩
      rw [hjson]
      rfl
    · rcases h with ⟨e, hsorted, hcaught⟩ | ⟨sorted, pre, row, post, hsorted, hsplit, hpre, hlarge⟩
      · exact ⟨e, embedBatch_raised.mpr ⟨resp, hresp, hstatus, bind_eq_error.mpr (.inr
          ⟨rows, hrows, bind_eq_error.mpr (.inr ⟨indexed, hindexed,
            bind_eq_error.mpr (.inl hsorted)⟩)⟩), hcaught⟩⟩
      · obtain ⟨e, hrow, hcaught⟩ := vectorOf_uncaught.mpr hlarge
        have hmap : sorted.mapM (fun row => vectorOf py row.2) = .error e := by
          have h := mapM_eq_error.mpr ⟨pre, row, post, hsplit, hpre, hrow⟩
          rwa [List.mapM_map] at h
        exact ⟨e, embedBatch_raised.mpr ⟨resp, hresp, hstatus, bind_eq_error.mpr (.inr
          ⟨rows, hrows, bind_eq_error.mpr (.inr ⟨indexed, hindexed,
            bind_eq_error.mpr (.inr ⟨sorted, hsorted, hmap⟩)⟩)⟩), hcaught⟩⟩
  · rintro ⟨e, h⟩
    obtain ⟨resp, hresp, hstatus, hvectors, hcaught⟩ := embedBatch_raised.mp h
    refine ⟨resp, hresp, hstatus, ?_⟩
    rcases bind_eq_error.mp hvectors with hrows | ⟨rows, hrows, hvectors⟩
    · exact .inl (dataOf_uncaught.mp ⟨e, hrows, hcaught⟩)
    · rcases bind_eq_error.mp hvectors with hindexed | ⟨indexed, hindexed, hvectors⟩
      · obtain ⟨_, row, _, _, _, hrow⟩ := mapM_eq_error.mp hindexed
        rw [keyed_error hrow] at hcaught
        cases hcaught
      · refine .inr ⟨rows, indexed, hrows, hindexed, ?_⟩
        rcases bind_eq_error.mp hvectors with hsorted | ⟨sorted, hsorted, hmap⟩
        · exact .inl ⟨e, hsorted, hcaught⟩
        · have hmap' : (sorted.map Prod.snd).mapM (vectorOf py) = .error e := by
            rwa [List.mapM_map]
          obtain ⟨pre, row, post, hsplit, hpre, hrow⟩ := mapM_eq_error.mp hmap'
          exact .inr ⟨sorted, pre, row, post, hsorted, hsplit, hpre,
            vectorOf_uncaught.mp ⟨e, hrow, hcaught⟩⟩

/-! ## 4. The rows of a batch -/

theorem onlyRow_unique {rows : List (Json.Value F)} {j : Nat} {row other : Json.Value F}
    (h : OnlyRow py rows j row) (hother : other ∈ rows) (hindex : HasIndex py j other) :
    other = row := by
  obtain ⟨pre, post, rfl, _, hnone⟩ := h
  rcases List.mem_append.mp hother with hpre | hpost
  · exact absurd hindex (hnone other (List.mem_append_left _ hpre))
  · rcases List.mem_cons.mp hpost with heq | hpost
    · exact heq
    · exact absurd hindex (hnone other (List.mem_append_right _ hpost))

theorem keyed_of_mem {rows : List (Json.Value F)} {indexed : List (Keyed F)}
    (h : rows.mapM keyed = .ok indexed) {pair : Keyed F}
    (hpair : pair ∈ indexed) : pair.2 ∈ rows ∧ pair.2.item "index".toList = .ok pair.1 := by
  obtain ⟨row, hrow, hkeyed⟩ := exists_of_mem_right (mapM_eq_ok.mp h) hpair
  obtain ⟨hindex, rfl⟩ := keyed_eq_ok.mp hkeyed
  exact ⟨hrow, hindex⟩

/-- **A response with exact indices gives each text its own embedding.** -/
theorem isEmbedding_of_exact (hlawful : py.Lawful) {resp : Response F}
    (hexact : ExactIndices py batch.length resp)
    (h : embedBatch py lowered self (.response resp) batch = .ok vectors) {j : Nat}
    (hj : j < batch.length) :
    ∃ vector, vectors[j]? = some vector ∧ vector.length = self.dim ∧
      IsEmbedding py (.response resp) j vector := by
  obtain ⟨rows, hrows, hlength, honly⟩ := hexact
  obtain ⟨resp', hresp, _, hvectors, hcount, hdim⟩ := embedBatch_eq_ok.mp h
  obtain rfl := Outcome.response.inj hresp
  obtain ⟨rows', indexed, sorted, hrows', hindexed, hsorted, hpairs⟩ :=
    vectorsOf_eq_ok.mp hvectors
  obtain rfl := Except.ok.inj (hrows.symm.trans hrows')
  have hperm := hlawful.perm _ _ hsorted
  have hsize : sorted.length = batch.length := by
    rw [← hcount, ← hpairs.length_eq, List.length_map]
  have hall : ∀ i < batch.length, ∃ x ∈ indexed, py.rank x.1 = some (i : Int) := by
    intro i hi
    obtain ⟨row, pre, post, hsplit, ⟨index, hindex, hrank⟩, _⟩ := honly i hi
    have hrow : row ∈ rows := by simp [hsplit]
    obtain ⟨pair, hpair, hkeyed⟩ := exists_of_mem_left (mapM_eq_ok.mp hindexed) hrow
    obtain ⟨hindex', _⟩ := keyed_eq_ok.mp hkeyed
    obtain rfl := Except.ok.inj (hindex.symm.trans hindex')
    exact ⟨pair, hpair, hrank⟩
  -- every key has a rank, so the sort goes by the ranks
  have hranks := ranks_perm (hperm.length_eq.symm.trans hsize) hall
  have hsome : ∀ x ∈ indexed, (py.rank x.1).isSome := by
    intro x hx
    obtain ⟨i, _, hi⟩ := List.mem_map.mp (hranks.subset (List.mem_map.mpr ⟨x, hx, rfl⟩))
    rw [← hi]
    rfl
  obtain ⟨sorted', hsorted', hranked⟩ := hlawful.ranked _ hsome
  obtain rfl := Except.ok.inj (hsorted.symm.trans hsorted')
  have hall' : ∀ i < batch.length, ∃ x ∈ sorted, py.rank x.1 = some (i : Int) := fun i hi =>
    (hall i hi).imp fun x hx => ⟨hperm.mem_iff.mpr hx.1, hx.2⟩
  have horder := ranks_eq_range hsize hall' hranked
  have hjs : j < sorted.length := hsize.symm ▸ hj
  have hjv : j < vectors.length := hcount.symm ▸ hj
  have hrank : py.rank sorted[j].1 = some (j : Int) := by
    have hget := congrArg (·[j]?) horder
    simpa [hjs, hj] using hget
  -- the row that the sort has put at `j` is the only one with that index
  obtain ⟨hrow, hindex⟩ := keyed_of_mem hindexed (hperm.subset (List.getElem_mem hjs))
  obtain ⟨row, hrowj⟩ := honly j hj
  have heq := onlyRow_unique hrowj hrow ⟨_, hindex, hrank⟩
  have hvector : vectorOf py sorted[j].2 = .ok vectors[j] := by
    have hget := hpairs.get (by simpa using hjs) hjv
    simpa using hget
  rw [heq] at hvector
  exact ⟨vectors[j], List.getElem?_eq_getElem hjv, hdim _ (List.getElem_mem hjv),
    resp, rows, row, rfl, hrows, hrowj, hvector⟩

/-! ## 5. Batches -/

variable {responses : Nat → Outcome F} {texts : List Text} {k : Nat}

theorem getElem?_batches :
    (batches self texts)[k]? = some batch ↔
      k * self.batchSize < texts.length ∧
        batch = (texts.drop (k * self.batchSize)).take self.batchSize := by
  have hpos := self.pos
  have hcount : k < (texts.length + self.batchSize - 1) / self.batchSize ↔
      k * self.batchSize < texts.length := by
    rw [Nat.lt_iff_add_one_le, Nat.le_div_iff_mul_le hpos, Nat.succ_mul]
    omega
  unfold batches
  rw [List.getElem?_map]
  by_cases h : k < (texts.length + self.batchSize - 1) / self.batchSize
  · rw [List.getElem?_range' h, Nat.zero_add, Nat.mul_comm self.batchSize]
    exact ⟨fun hbatch => ⟨hcount.mp h, (Option.some.inj hbatch).symm⟩,
      fun hbatch => congrArg some hbatch.2.symm⟩
  · rw [List.getElem?_eq_none (by rw [List.length_range']; omega)]
    exact ⟨nofun, fun hbatch => absurd (hcount.mpr hbatch.1) h⟩

theorem batches_flatten : (batches self texts).flatten = texts := by
  have hpos := self.pos
  have hslices : ∀ m, ((List.range' 0 m self.batchSize).map
      fun start => (texts.drop start).take self.batchSize).flatten =
        texts.take (self.batchSize * m) := by
    intro m
    induction m with
    | zero => simp
    | succ m ih =>
      rw [List.range'_concat, List.map_append, List.flatten_append, ih, Nat.mul_succ,
        List.take_add]
      simp
  rw [batches, hslices]
  refine List.take_of_length_le ?_
  have := Nat.div_add_mod (texts.length + self.batchSize - 1) self.batchSize
  have := Nat.mod_lt (texts.length + self.batchSize - 1) hpos
  omega

/-- In a list of parts of one size, the last of which may be shorter, the items stand where the
size puts them. -/
theorem getElem?_flatten {α : Type} {size j : Nat} {parts : List (List α)} {part : List α}
    (hpart : parts[k]? = some part) (hj : j < part.length)
    (hsize : ∀ i < k, ∀ p, parts[i]? = some p → p.length = size) :
    parts.flatten[k * size + j]? = part[j]? := by
  induction k generalizing parts with
  | zero =>
    obtain ⟨rest, rfl⟩ : ∃ rest, parts = part :: rest := by
      cases parts with
      | nil => cases hpart
      | cons p rest => exact ⟨rest, by rw [Option.some.inj hpart]⟩
    rw [List.flatten_cons, Nat.zero_mul, Nat.zero_add, List.getElem?_append_left hj]
  | succ k ih =>
    cases parts with
    | nil => cases hpart
    | cons p rest =>
      have hp : p.length = size := hsize 0 (Nat.succ_pos k) p rfl
      have hrest := @ih rest hpart fun i hi q hq => hsize (i + 1) (by omega) q hq
      rw [List.flatten_cons, Nat.succ_mul, List.getElem?_append_right (by omega), ← hrest]
      congr 1
      omega

/-- The loop is one request for each batch, its results put together. -/
theorem embedLoop_eq (rest : List (List Text)) (done : List (List F)) :
    embedLoop py lowered self responses k rest done =
      ((rest.zipIdx k).mapM fun b => embedBatch py lowered self (responses b.2) b.1) >>=
        fun parts => .ok (done ++ parts.flatten) := by
  induction rest generalizing k done with
  | nil =>
    rw [List.zipIdx_nil, List.mapM_nil]
    exact congrArg Except.ok (List.append_nil done).symm
  | cons batch rest ih =>
    rw [embedLoop, List.zipIdx_cons, List.mapM_cons]
    cases embedBatch py lowered self (responses k) batch with
    | error e => rfl
    | ok more =>
      have hrest := ih (k := k + 1) (done ++ more)
      cases hparts : (rest.zipIdx (k + 1)).mapM fun b =>
          embedBatch py lowered self (responses b.2) b.1 with
      | error e =>
        rw [hparts] at hrest
        exact hrest
      | ok parts =>
        rw [hparts] at hrest
        exact hrest.trans (congrArg Except.ok (List.append_assoc done more parts.flatten))

theorem embed_eq :
    embed py lowered self responses texts =
      ((batches self texts).zipIdx.mapM fun b => embedBatch py lowered self (responses b.2) b.1) >>=
        fun parts => .ok parts.flatten := by
  unfold embed
  split_ifs with htexts
  · have hnil : batches self texts = [] := by
      refine List.eq_nil_iff_forall_not_mem.mpr fun batch hbatch => ?_
      obtain ⟨k, hk⟩ := List.mem_iff_getElem?.mp hbatch
      have hlt := (getElem?_batches.mp hk).1
      rw [htexts] at hlt
      exact Nat.not_lt_zero _ hlt
    rw [hnil]
    rfl
  · exact embedLoop_eq (batches self texts) []

theorem getElem?_steps {i : Nat} :
    (batches self texts).zipIdx[k]? = some (batch, i) ↔ (batches self texts)[k]? = some batch ∧
      i = k := by
  rw [List.getElem?_zipIdx, Nat.zero_add]
  cases (batches self texts)[k]? with
  | none => simp
  | some b => simp [eq_comm]

/-- What comes back is the parts, one for each batch. -/
theorem embed_eq_ok (h : embed py lowered self responses texts = .ok vectors) :
    ∃ parts : List (List (List F)), vectors = parts.flatten ∧
      parts.length = (batches self texts).length ∧
      ∀ k batch part, (batches self texts)[k]? = some batch → parts[k]? = some part →
        embedBatch py lowered self (responses k) batch = .ok part := by
  rw [embed_eq] at h
  obtain ⟨parts, hparts, h⟩ := bind_eq_ok.mp h
  have hpairs := mapM_eq_ok.mp hparts
  refine ⟨parts, (Except.ok.inj h).symm, by simpa using hpairs.length_eq.symm, ?_⟩
  intro k batch part hbatch hpart
  obtain ⟨hk, hstep⟩ := List.getElem?_eq_some_iff.mp (getElem?_steps.mpr ⟨hbatch, rfl⟩)
  obtain ⟨hk', hpart'⟩ := List.getElem?_eq_some_iff.mp hpart
  have hget := hpairs.get hk hk'
  rw [List.get_eq_getElem, List.get_eq_getElem, hstep, hpart'] at hget
  exact hget

/-- An error is that of the first batch that fails. -/
theorem embed_eq_error {e : Exception} :
    embed py lowered self responses texts = .error e ↔
      ∃ k batch, (batches self texts)[k]? = some batch ∧
        Reached py lowered self responses texts k ∧
        embedBatch py lowered self (responses k) batch = .error e := by
  rw [embed_eq, bind_eq_error]
  constructor
  · rintro (h | ⟨parts, _, h⟩)
    · obtain ⟨pre, ⟨batch, i⟩, post, hsplit, hpre, herror⟩ := mapM_eq_error.mp h
      have hstep : (batches self texts).zipIdx[pre.length]? = some (batch, i) := by
        rw [hsplit, List.getElem?_append_right le_rfl, Nat.sub_self]
        rfl
      obtain ⟨hbatch, rfl⟩ := getElem?_steps.mp hstep
      refine ⟨pre.length, batch, hbatch, ?_, herror⟩
      intro i hi earlier hearlier
      have hstep' := getElem?_steps.mpr ⟨hearlier, rfl⟩
      rw [hsplit, List.getElem?_append_left hi] at hstep'
      have hok := hpre _ (List.mem_of_getElem? hstep')
      cases hresult : embedBatch py lowered self (responses i) earlier with
      | ok part => exact ⟨part, rfl⟩
      | error e' =>
        rw [hresult] at hok
        cases hok
    · cases h
  · rintro ⟨k, batch, hbatch, hreached, herror⟩
    have hstep := getElem?_steps.mpr ⟨hbatch, rfl⟩
    obtain ⟨hk, hget⟩ := List.getElem?_eq_some_iff.mp hstep
    refine .inl (mapM_eq_error.mpr ⟨(batches self texts).zipIdx.take k, (batch, k),
      (batches self texts).zipIdx.drop (k + 1), ?_, ?_, herror⟩)
    · rw [← hget, List.getElem_cons_drop, List.take_append_drop]
    · rintro ⟨earlier, i⟩ hmem
      obtain ⟨i', hi', hget'⟩ := List.mem_iff_getElem.mp hmem
      rw [List.getElem_take] at hget'
      have hlt : i' < k := (List.length_take ▸ hi').trans_le (min_le_left _ _)
      obtain ⟨hearlier, rfl⟩ := getElem?_steps.mp (List.getElem?_eq_some_iff.mpr ⟨_, hget'⟩)
      obtain ⟨part, hpart⟩ := hreached i hlt earlier hearlier
      rw [hpart]
      rfl

/-! ## 6. All batches -/

theorem reached_iff (hlawful : py.Lawful) :
    Reached py lowered self responses texts k ↔
      ∀ i < k, ∀ earlier, (batches self texts)[i]? = some earlier →
        Accepted py self earlier.length (responses i) :=
  forall₄_congr fun _ _ _ _ => (accepted_iff hlawful).symm

/-- A batch is as long as the batch size, or the last. -/
theorem length_batch (hbatch : (batches self texts)[k]? = some batch) :
    batch.length = min self.batchSize (texts.length - k * self.batchSize) := by
  rw [(getElem?_batches.mp hbatch).2, List.length_take, List.length_drop]

/-- What `embed` returns: for each text the embedding of its own row. -/
theorem own_of_trustworthy (hlawful : py.Lawful) (h : Trustworthy py self responses texts)
    (hok : embed py lowered self responses texts = .ok vectors) :
    vectors.length = texts.length ∧
      ∀ k j, j < self.batchSize → k * self.batchSize + j < texts.length →
        ∃ vector, vectors[k * self.batchSize + j]? = some vector ∧ vector.length = self.dim ∧
          IsEmbedding py (responses k) j vector := by
  obtain ⟨parts, rfl, hlength, hparts⟩ := embed_eq_ok hok
  have hpart : ∀ k part, parts[k]? = some part → ∃ batch, (batches self texts)[k]? = some batch ∧
      embedBatch py lowered self (responses k) batch = .ok part := by
    intro k part hpart
    obtain ⟨hk, _⟩ := List.getElem?_eq_some_iff.mp hpart
    have hbatch := List.getElem?_eq_getElem (hlength ▸ hk)
    exact ⟨_, hbatch, hparts k _ part hbatch hpart⟩
  have hreached : ∀ k, Reached py lowered self responses texts k := by
    intro k i _ earlier hearlier
    obtain ⟨hi, _⟩ := List.getElem?_eq_some_iff.mp hearlier
    exact ⟨_, hparts i earlier _ hearlier (List.getElem?_eq_getElem (hlength.symm ▸ hi))⟩
  have hcount : ∀ {k part batch}, embedBatch py lowered self (responses k) batch = .ok part →
      part.length = batch.length := fun hok => by
    obtain ⟨_, _, _, _, hcount, _⟩ := embedBatch_eq_ok.mp hok
    exact hcount
  constructor
  · have hlengths : parts.map List.length = (batches self texts).map List.length := by
      refine List.ext_getElem? fun k => ?_
      rw [List.getElem?_map, List.getElem?_map]
      cases hp : parts[k]? with
      | none =>
        have := List.getElem?_eq_none_iff.mp hp
        rw [List.getElem?_eq_none (by omega)]
        rfl
      | some part =>
        obtain ⟨batch, hbatch, hok⟩ := hpart k part hp
        rw [hbatch]
        exact congrArg some (hcount hok)
    rw [List.length_flatten, hlengths, ← List.length_flatten, batches_flatten]
  · intro k j hj htext
    have hstart : k * self.batchSize < texts.length := by omega
    have hbatch : (batches self texts)[k]? = some _ := getElem?_batches.mpr ⟨hstart, rfl⟩
    have hsize := length_batch hbatch
    obtain ⟨hk, _⟩ := List.getElem?_eq_some_iff.mp hbatch
    have hp := List.getElem?_eq_getElem (l := parts) (hlength.symm ▸ hk)
    have hok := hparts k _ _ hbatch hp
    obtain ⟨resp, hresp, _⟩ := embedBatch_eq_ok.mp hok
    have haccepted := (accepted_iff hlawful).mpr ⟨_, hok⟩
    have hexact := (h k _ hbatch ((reached_iff hlawful).mp (hreached k))).2 resp hresp haccepted
    rw [hresp] at hok ⊢
    obtain ⟨vector, hvector, hown⟩ := isEmbedding_of_exact hlawful hexact hok
      (show j < _ by rw [hsize]; omega)
    refine ⟨vector, ?_, hown⟩
    rw [getElem?_flatten hp (List.getElem?_eq_some_iff.mp hvector).1, hvector]
    intro i hi p hpi
    obtain ⟨earlier, hearlier, hoki⟩ := hpart i p hpi
    rw [hcount hoki, length_batch hearlier]
    have : (i + 1) * self.batchSize ≤ k * self.batchSize := Nat.mul_le_mul_right _ hi
    rw [Nat.succ_mul] at this
    omega

/-- **The embeddings are those of the texts exactly if every response that is accepted has the
indices `0..n-1`, each once, and none that is reached runs into another exception.** -/
theorem own_text (hlawful : py.Lawful) :
    OwnText py lowered self responses texts ↔ Trustworthy py self responses texts := by
  constructor
  · rintro ⟨houtcome, hrejected⟩ k batch hbatch hearlier
    have hreached : Reached py lowered self responses texts k := (reached_iff hlawful).mpr hearlier
    constructor
    · intro huncaught
      obtain ⟨e, he⟩ := uncaught_iff.mp huncaught
      have hembed := embed_eq_error.mpr ⟨k, batch, hbatch, hreached, he⟩
      rcases houtcome with ⟨e', he'⟩ | ⟨vectors, hok, _⟩
      · rw [hembed] at he'
        cases he'
      · rw [hembed] at hok
        cases hok
    · intro resp hresp haccepted
      obtain ⟨vectors, hok⟩ := (accepted_iff hlawful).mp haccepted
      obtain ⟨resp', hresp', hstatus, _⟩ := embedBatch_eq_ok.mp hok
      obtain rfl := Outcome.response.inj (hresp.symm.trans hresp')
      by_contra hexact
      have := hrejected k batch resp hbatch hreached hresp hstatus hexact
      rw [hok] at this
      cases this
  · intro h
    constructor
    · cases hembed : embed py lowered self responses texts with
      | ok vectors => exact .inr ⟨vectors, rfl, own_of_trustworthy hlawful h hembed⟩
      | error e =>
        cases e with
        | embeddingError e => exact .inl ⟨e, rfl⟩
        | raised e =>
          obtain ⟨k, batch, hbatch, hreached, he⟩ := embed_eq_error.mp hembed
          exact absurd (uncaught_iff.mpr ⟨e, he⟩)
            (h k batch hbatch ((reached_iff hlawful).mp hreached)).1
    · intro k batch resp hbatch hreached hresp hstatus hexact
      obtain ⟨huncaught, haccepted⟩ := h k batch hbatch ((reached_iff hlawful).mp hreached)
      cases hresult : embedBatch py lowered self (responses k) batch with
      | ok vectors =>
        exact absurd (haccepted resp hresp ((accepted_iff hlawful).mpr ⟨_, hresult⟩)) hexact
      | error e =>
        cases e with
        | raised e => exact absurd (uncaught_iff.mpr ⟨e, hresult⟩) huncaught
        | embeddingError e =>
          rw [hresp] at hresult
          exact congrArg Except.error (embedBatch_error hstatus hresult)

/-! ## 7. Two rows -/

/-- `x < y`, for numbers. -/
def integerLt (x y : Json.Value Int) : Except Raised Bool :=
  match x.integer? some, y.integer? some with
  | some a, some b => .ok (decide (a < b))
  | _, _ => .error .typeError

/-- Floats that are integers. -/
def integers : Python Int where
  ofInt := some
  ofStr _ := none
  integer? := some
  sorted := sortedBy integerLt

theorem integers_lawful : integers.Lawful where
  perm _ _ := sortedBy_perm
  ranked _ := sortedBy_of_rank fun x y a b ha hb => by
    simp only [Python.rank, integers] at ha hb
    rw [integerLt, ha, hb]

def row (index x : Int) : Json.Value Int :=
  .obj [(Json.pyStr "embedding".toList, .arr [.int x]), (Json.pyStr "index".toList, .int index)]

def answer (rows : List (Json.Value Int)) : Response Int :=
  ⟨200, [], .ok (.obj [(Json.pyStr "data".toList, .arr rows)])⟩

theorem hasIndex_row {j : Nat} {index x : Int} :
    HasIndex integers j (row index x) ↔ index = j := by
  constructor
  · rintro ⟨value, hvalue, hrank⟩
    obtain rfl : .int index = value := Except.ok.inj hvalue
    exact Option.some.inj hrank
  · rintro rfl
    exact ⟨.int j, rfl, rfl⟩

/-- Two rows in the wrong order are put right. -/
theorem own_text_swapped :
    OwnText integers (fun _ => []) (.init 1 2) (fun _ => .response (answer [row 1 7, row 0 5]))
      [['a'], ['b']] := by
  refine (own_text integers_lawful).mpr ?_
  intro k batch hbatch _
  have hk : k * 2 < 2 := (getElem?_batches.mp hbatch).1
  obtain rfl : k = 0 := by omega
  obtain rfl : batch = [['a'], ['b']] := (Option.some.inj hbatch).symm
  constructor
  · intro huncaught
    have hraised : ∃ e, embedBatch integers (fun _ => []) (.init 1 2)
        (.response (answer [row 1 7, row 0 5])) [['a'], ['b']] = .error (.raised e) :=
      uncaught_iff.mp huncaught
    obtain ⟨e, he⟩ := hraised
    cases he
  · intro resp hresp _
    obtain rfl := Outcome.response.inj hresp
    refine ⟨[row 1 7, row 0 5], rfl, rfl, ?_⟩
    intro j hj
    obtain rfl | rfl : j = 0 ∨ j = 1 := by simp at hj; omega
    · refine ⟨row 0 5, [row 1 7], [], rfl, hasIndex_row.mpr rfl, ?_⟩
      simp [hasIndex_row]
    · refine ⟨row 1 7, [], [row 0 5], rfl, hasIndex_row.mpr rfl, ?_⟩
      simp [hasIndex_row]

/-- With the index 0 in both rows, the second text gets the embedding of the second row. -/
theorem not_own_text :
    ¬OwnText integers (fun _ => []) (.init 1 2) (fun _ => .response (answer [row 0 7, row 0 5]))
      [['a'], ['b']] := by
  rintro ⟨houtcome, _⟩
  rcases houtcome with ⟨e, he⟩ | ⟨vectors, _, _, hown⟩
  · cases he
  · obtain ⟨vector, _, _, resp, rows, only, hresp, hrows, ⟨pre, post, hsplit, hindex, _⟩, _⟩ :=
      hown 0 1 (by decide) (by decide)
    obtain rfl := Outcome.response.inj hresp
    obtain rfl : [row 0 7, row 0 5] = rows := Except.ok.inj hrows
    have honly : only ∈ [row 0 7, row 0 5] := by rw [hsplit]; simp
    rcases List.mem_pair.mp honly with rfl | rfl
    · exact absurd (hasIndex_row.mp hindex) (by decide)
    · exact absurd (hasIndex_row.mp hindex) (by decide)

end AtlasKnowledge.Embedding
