/-
# Rank fusion

Both statements of the search rank chunks: `_RRF_SELECT` by what the two legs give a chunk
together, `_VEC_ONLY_SELECT`, in place of it where there is no full-text query, by what the vector
leg gives it.  A leg is any list in which no chunk and no rank is twice, so it does not matter how
the database breaks ties when it makes one.

* `rrfSelect_isTop`: the fused ranking is the best `top_n` of the two legs;
* `vecOnlySelect_eq`: the shortcut is the same ranking, however ties are broken;
* `loadRanked_eq`: loading drops the chunks that are gone, and numbers the others;
* `rank_fusion`: `hybrid_search`.
-/
import AtlasKnowledge.Lib.Fallible
import AtlasKnowledge.Retrieval.Isolation
import Mathlib.Data.Finset.Card

namespace AtlasKnowledge.Retrieval

open Relation

variable {E V J T Q F δ κ : Type} [LinearOrder δ] [LinearOrder κ]
  {engine : Engine E V J T Q F δ κ} {v f leg : List (Uuid × Nat)} {rrfK topN : Int}

/-! ## 1. Legs and the best of them -/

/-- A leg: no chunk and no rank twice. -/
structure IsLeg (leg : List (Uuid × Nat)) : Prop where
  ids : (leg.map Prod.fst).Nodup
  ranks : (leg.map Prod.snd).Nodup
  pos : ∀ x ∈ leg, 1 ≤ x.2

/-- The chunks of a leg. -/
def chunkIds (leg : List (Uuid × Nat)) : Finset Uuid := (leg.map Prod.fst).toFinset

/-- What a leg gives a chunk. -/
def partialScore (rrfK : Int) (leg : List (Uuid × Nat)) (id : Uuid) : Rat :=
  ((leg.filter fun x => x.1 = id).map fun x => 1 / ((rrfK + x.2 : Int) : Rat)).sum

/-- What both legs give it. -/
def fusedScore (rrfK : Int) (v f : List (Uuid × Nat)) (id : Uuid) : Rat :=
  partialScore rrfK v id + partialScore rrfK f id

/-- The best `top_n` chunks of two legs, with their scores. -/
structure IsTop (rrfK topN : Int) (v f : List (Uuid × Nat)) (out : List (Uuid × Rat)) : Prop where
  distinct : (out.map Prod.fst).Nodup
  count : out.length = min topN.toNat (chunkIds v ∪ chunkIds f).card
  ranked : ∀ x ∈ out, x.1 ∈ chunkIds v ∪ chunkIds f
  score : ∀ x ∈ out, x.2 = fusedScore rrfK v f x.1
  sorted : out.Pairwise fun a b => b.2 ≤ a.2
  top : ∀ id ∈ chunkIds v ∪ chunkIds f, id ∉ out.map Prod.fst →
    ∀ x ∈ out, fusedScore rrfK v f id ≤ x.2

/-- Arithmetic is exact where the search uses it: the integers fit, the reciprocals and the floats
are the numbers that they stand for. -/
structure Exact (engine : Engine E V J T Q F δ κ) (value : F → Rat) (rrfK topN : Int)
    (v f : List (Uuid × Nat)) : Prop where
  offset : int8 rrfK = .ok rrfK
  limit : int8 topN = .ok topN
  sum : ∀ x ∈ v ++ f, int8 (rrfK + x.2) = .ok (rrfK + x.2)
  reciprocal : ∀ x ∈ v ++ f, engine.reciprocal (rrfK + x.2) = 1 / ((rrfK + x.2 : Int) : Rat)
  float : ∀ id ∈ chunkIds v ∪ chunkIds f,
    value (engine.float (fusedScore rrfK v f id)) = fusedScore rrfK v f id

/-! ## 2. Scores -/

theorem partialScore_of_mem (hleg : IsLeg leg) {x : Uuid × Nat} (hx : x ∈ leg) :
    partialScore rrfK leg x.1 = 1 / ((rrfK + x.2 : Int) : Rat) := by
  have hone : (leg.filter fun y => y.1 = x.1) = [x] := by
    refine List.perm_singleton.mp ((List.perm_ext_iff_of_nodup ?_ (List.nodup_singleton x)).mpr ?_)
    · exact hleg.ids.of_map.filter _
    · intro y
      rw [List.mem_filter, List.mem_singleton, decide_eq_true_eq]
      constructor
      · exact fun hy => List.inj_on_of_nodup_map hleg.ids hy.1 hx hy.2
      · rintro rfl
        exact ⟨hx, rfl⟩
  rw [partialScore, hone, List.map_singleton, List.sum_singleton]

theorem partialScore_of_not_mem {id : Uuid} (h : ∀ x ∈ leg, x.1 ≠ id) :
    partialScore rrfK leg id = 0 := by
  have hnone : (leg.filter fun x => x.1 = id) = [] :=
    List.filter_eq_nil_iff.mpr fun x hx => mt of_decide_eq_true (h x hx)
  rw [partialScore, hnone]
  rfl

section

variable {value : F → Rat} (hexact : Exact engine value rrfK topN v f) (hk : 0 ≤ rrfK)
include hexact hk

theorem reciprocalRank_exact {x : Uuid × Nat} (hx : x ∈ v ++ f) (hpos : 1 ≤ x.2) :
    reciprocalRank engine rrfK x.2 = .ok (1 / ((rrfK + x.2 : Int) : Rat)) := by
  have hne : rrfK + x.2 ≠ 0 := by omega
  rw [reciprocalRank, hexact.sum x hx, ← hexact.reciprocal x hx]
  exact if_neg hne

/-- A joined row has the key's fused score. -/
theorem fusedRow_exact (hv : IsLeg v) (hf : IsLeg f) {x : Joined (Uuid × Nat) (Uuid × Nat)}
    (hx : x ∈ fullJoin Prod.fst Prod.fst v f) :
    fusedRow engine rrfK x = .ok
      (x.key Prod.fst Prod.fst, fusedScore rrfK v f (x.key Prod.fst Prod.fst)) := by
  have hvec {a : Uuid × Nat} (ha : a ∈ v) := reciprocalRank_exact hexact hk
    (List.mem_append_left f ha) (hv.pos a ha)
  have hfts {b : Uuid × Nat} (hb : b ∈ f) := reciprocalRank_exact hexact hk
    (List.mem_append_right v hb) (hf.pos b hb)
  rcases fullJoin_cases hx with ⟨a, ha, hnone, rfl⟩ | ⟨a, ha, b, hb, hkey, rfl⟩ |
    ⟨b, hb, hnone, rfl⟩
  · simp only [fusedRow, Joined.fst?, Joined.snd?, Joined.key, Option.map_some, Option.map_none,
      coalescedRank, hvec ha, fusedScore, partialScore_of_mem hv ha,
      partialScore_of_not_mem hnone]
    rfl
  · have hscore : partialScore rrfK f a.1 = 1 / ((rrfK + b.2 : Int) : Rat) :=
      hkey ▸ partialScore_of_mem hf hb
    simp only [fusedRow, Joined.fst?, Joined.snd?, Joined.key, Option.map_some, coalescedRank,
      hvec ha, hfts hb, fusedScore, partialScore_of_mem hv ha, hscore]
    rfl
  · simp only [fusedRow, Joined.fst?, Joined.snd?, Joined.key, Option.map_some, Option.map_none,
      coalescedRank, hfts hb, fusedScore, partialScore_of_mem hf hb,
      partialScore_of_not_mem hnone]
    rfl

end

/-! ## 3. The statements -/

/-- The chunks of two legs, each once. -/
def joinedIds (v f : List (Uuid × Nat)) : List Uuid :=
  v.map Prod.fst ++ (f.map Prod.fst).filter fun id => id ∉ v.map Prod.fst

theorem nodup_joinedIds (hv : IsLeg v) (hf : IsLeg f) : (joinedIds v f).Nodup := by
  refine hv.ids.append (hf.ids.filter _) fun id hid hid' => ?_
  exact of_decide_eq_true (List.mem_filter.mp hid').2 hid

theorem toFinset_joinedIds : (joinedIds v f).toFinset = chunkIds v ∪ chunkIds f := by
  ext id
  simp only [joinedIds, chunkIds, List.mem_toFinset, List.mem_append, Finset.mem_union,
    List.mem_filter, decide_eq_true_eq]
  tauto

def withScore (rrfK : Int) (v f : List (Uuid × Nat)) (id : Uuid) : Uuid × Rat :=
  (id, fusedScore rrfK v f id)

theorem map_fst_withScore (ids : List Uuid) :
    (ids.map (withScore rrfK v f)).map Prod.fst = ids := by
  rw [List.map_map]
  exact List.map_id ids

/-- Without a full-text leg no two chunks have the same score. -/
theorem fusedScore_inj (hv : IsLeg v) {a b : Uuid} (ha : a ∈ joinedIds v [])
    (hb : b ∈ joinedIds v []) (h : fusedScore rrfK v [] a = fusedScore rrfK v [] b) : a = b := by
  rw [joinedIds, List.map_nil, List.filter_nil, List.append_nil] at ha hb
  obtain ⟨x, hx, rfl⟩ := List.mem_map.mp ha
  obtain ⟨y, hy, rfl⟩ := List.mem_map.mp hb
  have hx' := hv.pos x hx
  have hy' := hv.pos y hy
  have hnone (id : Uuid) : partialScore rrfK [] id = 0 := rfl
  simp only [fusedScore, partialScore_of_mem hv hx, partialScore_of_mem hv hy, hnone, add_zero,
    one_div, inv_inj, Int.cast_inj] at h
  have hrank : x.2 = y.2 := by omega
  rw [List.inj_on_of_nodup_map hv.ranks hx hy hrank]

/-- A limit of the chunks, in an order by their scores, is the best of them. -/
theorem isTop_take (hv : IsLeg v) (hf : IsLeg f)
    (order : OrderBy (Uuid × Rat) fun c => OrderDual.toDual c.2) :
    IsTop rrfK topN v f
      ((order.sort ((joinedIds v f).map (withScore rrfK v f))).take topN.toNat) := by
  set rows := (joinedIds v f).map (withScore rrfK v f) with hrows
  have hperm := order.perm rows
  have hmem {x : Uuid × Rat} (hx : x ∈ (order.sort rows).take topN.toNat) :
      ∃ id ∈ joinedIds v f, withScore rrfK v f id = x :=
    List.mem_map.mp ((mem_sort order).mp (List.mem_of_mem_take hx))
  have hids : (rows.map Prod.fst).Nodup := by
    rw [hrows, map_fst_withScore]
    exact nodup_joinedIds hv hf
  constructor
  · exact (((hperm.map Prod.fst).nodup_iff.mpr hids).sublist
      ((List.take_sublist _ _).map Prod.fst))
  · rw [List.length_take, hperm.length_eq, hrows, List.length_map, ← toFinset_joinedIds,
      List.toFinset_card_of_nodup (nodup_joinedIds hv hf)]
  · intro x hx
    obtain ⟨id, hid, rfl⟩ := hmem hx
    rw [← toFinset_joinedIds]
    exact List.mem_toFinset.mpr hid
  · intro x hx
    obtain ⟨id, -, rfl⟩ := hmem hx
    rfl
  · exact (order.sorted rows).sublist (List.take_sublist _ _)
  · intro id hid hout x hx
    rw [← toFinset_joinedIds, List.mem_toFinset] at hid
    refine le_of_not_mem_take order (List.mem_map_of_mem hid) (fun h => ?_) hx
    exact hout (List.mem_map_of_mem (f := Prod.fst) h)

section

variable {value : F → Rat} (hexact : Exact engine value rrfK topN v f) (hk : 0 ≤ rrfK)
  (hn : 0 ≤ topN) (hv : IsLeg v)
include hexact hk hn hv

theorem rrfSelect_eq (ties : Ties engine) (hf : IsLeg f) :
    rrfSelect ties rrfK topN (.ok v) (.ok f) = .ok
      ((ties.score.sort ((joinedIds v f).map (withScore rrfK v f))).take topN.toNat) := by
  have hrows : (fullJoin Prod.fst Prod.fst v f).mapM (fusedRow engine rrfK)
      = .ok ((joinedIds v f).map (withScore rrfK v f)) := by
    rw [Fallible.mapM_ok fun x hx => fusedRow_exact hexact hk hv hf hx, joinedIds,
      ← map_key_fullJoin v hf.ids, List.map_map]
    rfl
  rw [← limit_ok hn]
  exact congrArg (fun rows => limit _ topN (rows >>= fun rows => .ok (ties.score.sort rows))) hrows

/-- **The fused ranking is the best `top_n` of the legs.** -/
theorem rrfSelect_isTop (ties : Ties engine) (hf : IsLeg f) :
    ∃ rows, rrfSelect ties rrfK topN (.ok v) (.ok f) = .ok rows ∧ IsTop rrfK topN v f rows :=
  ⟨_, rrfSelect_eq hexact hk hn hv ties hf, isTop_take hv hf ties.score⟩

/-- **The shortcut is the fused ranking**, whatever the order of chunks with the same score. -/
theorem vecOnlySelect_eq (ties ties' : Ties engine) (hf : f = []) :
    vecOnlySelect ties' rrfK topN (.ok v) = rrfSelect ties rrfK topN (.ok v) (.ok f) := by
  have hleg : IsLeg f := hf ▸ ⟨List.nodup_nil, List.nodup_nil, fun _ => nofun⟩
  have hids : joinedIds v f = v.map Prod.fst := by
    rw [joinedIds, hf, List.map_nil, List.filter_nil, List.append_nil]
  have hrows : v.mapM (vecOnlyRow engine rrfK)
      = .ok ((joinedIds v f).map (withScore rrfK v f)) := by
    rw [hids, List.map_map]
    refine Fallible.mapM_ok fun x hx => ?_
    have hrank := reciprocalRank_exact hexact hk (List.mem_append_left f hx) (hv.pos x hx)
    simp only [vecOnlyRow, hrank, Function.comp, withScore, fusedScore, partialScore_of_mem hv hx]
    rw [partialScore_of_not_mem (hf ▸ fun _ => nofun), add_zero]
    rfl
  have hsort : ties'.score.sort ((joinedIds v f).map (withScore rrfK v f))
      = ties.score.sort ((joinedIds v f).map (withScore rrfK v f)) := by
    refine sort_eq _ _ fun a ha b hb hab => ?_
    obtain ⟨id, hid, rfl⟩ := List.mem_map.mp ha
    obtain ⟨id', hid', rfl⟩ := List.mem_map.mp hb
    subst hf
    rw [fusedScore_inj hv hid hid' (OrderDual.toDual_inj.mp hab)]
  rw [rrfSelect_eq hexact hk hn hv ties hleg, ← hsort, ← limit_ok hn]
  exact congrArg (fun rows => limit _ topN (rows >>= fun rows => .ok (ties'.score.sort rows))) hrows

end

/-! ## 4. The legs of a search -/

/-- The legs of the statement that the search runs; without a full-text query there is no second
one. -/
def legs (ties : Ties engine) (db : Db V J T) (index : Index) (request : Request E) :
    Except SearchError (List (Uuid × Nat) × List (Uuid × Nat)) := do
  if ! engine.takesEfSearch index.efSearch then .error .scanParams
  else
    let rows := candidates engine db request.userId (request.sourceIds.getD [])
    let some qvec := engine.toVector request.queryEmbedding | .error .vector
    let topK ← int8 index.topK
    let vec ← vec ties topK qvec rows
    let tsquery := buildTsquery request.queryTokens
    if tsquery = [] then .ok (vec, [])
    else
      let some q := engine.toTsquery tsquery | .error .tsquery
      .ok (vec, ← fts ties topK q rows)

/-- Rows with different ids, some of them, each with a number of its own. -/
theorem isLeg_of_sublist {ρ : Type} (id : ρ → Uuid) (rows : List ρ) {out : List (ρ × Nat)}
    (hids : (rows.map id).Nodup) (h : ∃ all, out.Sublist all ∧ all.Perm (number rows)) :
    IsLeg (out.map fun r => (id r.1, r.2)) := by
  obtain ⟨all, hsub, hperm⟩ := h
  have hfst : ((number rows).map fun r => id r.1) = rows.map id := by
    rw [← map_fst_number rows, List.map_map, map_fst_number]
    rfl
  constructor
  · rw [List.map_map]
    have hsub' := hsub.map fun r : ρ × Nat => id r.1
    exact ((hperm.map fun r => id r.1).nodup_iff.mpr (hfst ▸ hids)).sublist hsub'
  · rw [List.map_map]
    refine ((hperm.map Prod.snd).nodup_iff.mpr ?_).sublist (hsub.map Prod.snd)
    rw [map_snd_number]
    exact List.nodup_range'
  · intro x hx
    obtain ⟨r, hr, rfl⟩ := List.mem_map.mp hx
    have hmem : r ∈ number rows := hperm.mem_iff.mp (hsub.subset hr)
    show 1 ≤ r.2
    exact List.le_snd_of_mem_zipIdx hmem

theorem isLeg_vec {ties : Ties engine} {topK : Int} {qvec : V} {rows : List (ChunkRow V J T)}
    {out : List (Uuid × Nat)} (hids : (rows.map ChunkRow.id).Nodup)
    (h : vec ties topK qvec rows = .ok out) : IsLeg out := by
  simp only [vec] at h
  obtain ⟨limited, hlimit, rfl⟩ := map_ok h
  refine isLeg_of_sublist (fun c : ChunkRow V J T × V => c.1.id) ((ties.vecWindow qvec).sort
    (rows.filterMap fun c => c.embedding.map fun v => (c, v))) ?_ ?_
  · refine (((ties.vecWindow qvec).perm _).map _).nodup_iff.mpr ?_
    rw [List.Nodup, List.pairwise_map] at hids ⊢
    refine List.Pairwise.filterMap _ (fun a b hne x hx y hy => ?_) hids
    obtain ⟨_, -, rfl⟩ := Option.map_eq_some_iff.mp hx
    obtain ⟨_, -, rfl⟩ := Option.map_eq_some_iff.mp hy
    exact hne
  · rcases sublist_of_limit hlimit with rfl | ⟨all, hall, hsub⟩
    · exact ⟨_, List.nil_sublist _, .refl _⟩
    · obtain rfl := Except.ok.inj hall
      exact ⟨_, hsub, (ties.vec qvec).perm _⟩

theorem isLeg_fts {ties : Ties engine} {topK : Int} {q : Q} {rows : List (ChunkRow V J T)}
    {out : List (Uuid × Nat)} (hids : (rows.map ChunkRow.id).Nodup)
    (h : fts ties topK q rows = .ok out) : IsLeg out := by
  simp only [fts] at h
  obtain ⟨limited, hlimit, rfl⟩ := map_ok h
  refine isLeg_of_sublist Prod.fst _ ?_ ⟨_, .refl _, .refl _⟩
  refine ((ties.ftsWindow.perm _).map _).nodup_iff.mpr ?_
  rcases sublist_of_limit hlimit with rfl | ⟨all, hall, hsub⟩
  · exact List.nodup_nil
  · obtain rfl := Except.ok.inj hall
    refine List.Nodup.sublist (hsub.map Prod.fst)
      (((ties.fts.perm _).map Prod.fst).nodup_iff.mpr ?_)
    rw [List.map_map]
    exact hids.sublist (List.filter_sublist.map ChunkRow.id)

/-- What the search uses as legs are legs. -/
theorem isLeg_legs {ties : Ties engine} {db : Db V J T} {index : Index} {request : Request E}
    (h : legs ties db index request = .ok (v, f)) : IsLeg v ∧ IsLeg f := by
  have hids : ((candidates engine db request.userId (request.sourceIds.getD [])).map
      ChunkRow.id).Nodup := Table.nodup_select
  have hnil : IsLeg [] := ⟨List.nodup_nil, List.nodup_nil, fun _ => nofun⟩
  unfold legs at h
  split at h
  · exact nomatch h
  · simp only at h
    split at h
    · obtain ⟨topK, -, h⟩ := bind_ok h
      obtain ⟨out, hvec, h⟩ := bind_ok h
      split at h
      · obtain ⟨rfl, rfl⟩ := Prod.mk.inj (Except.ok.inj h)
        exact ⟨isLeg_vec hids hvec, hnil⟩
      · split at h
        · obtain ⟨out', hfts, h⟩ := bind_ok h
          obtain ⟨rfl, rfl⟩ := Prod.mk.inj (Except.ok.inj h)
          exact ⟨isLeg_vec hids hvec, isLeg_fts hids hfts⟩
        · exact nomatch h
    · exact nomatch h

/-- The search ranks by the fused ranking of its legs, whichever statement it runs. -/
theorem ranked_eq {value : F → Rat} {ties : Ties engine} {db : Db V J T} {index : Index}
    {request : Request E} (hlegs : legs ties db index request = .ok (v, f))
    (hexact : Exact engine value index.rrfK request.topN v f) (hk : 0 ≤ index.rrfK)
    (hn : 0 ≤ request.topN) :
    engine.takesEfSearch index.efSearch = true ∧
      ranked ties index request (candidates engine db request.userId (request.sourceIds.getD []))
        = rrfSelect ties index.rrfK request.topN (.ok v) (.ok f) := by
  have hv := (isLeg_legs hlegs).1
  unfold legs at hlegs
  unfold ranked
  split at hlegs
  · cases hlegs
  · rename_i hscan
    refine ⟨by simpa using hscan, ?_⟩
    cases hqvec : engine.toVector request.queryEmbedding with
    | none =>
      simp only [hqvec] at hlegs
      cases hlegs
    | some qvec =>
      simp only [hqvec] at hlegs
      obtain ⟨topK, htopK, hlegs⟩ := bind_ok hlegs
      obtain ⟨out, hvec, hlegs⟩ := bind_ok hlegs
      simp only [htopK, hexact.offset, hexact.limit]
      split at hlegs
      · rename_i hempty
        obtain ⟨rfl, rfl⟩ := Prod.mk.inj (Except.ok.inj hlegs)
        have hshort := vecOnlySelect_eq hexact hk hn hv ties ties rfl
        rw [← hshort, ← hvec]
        exact if_pos hempty
      · rename_i hquery
        cases hq : engine.toTsquery (buildTsquery request.queryTokens) with
        | none =>
          simp only [hq] at hlegs
          cases hlegs
        | some q =>
          simp only [hq] at hlegs
          obtain ⟨out', hfts, hlegs⟩ := bind_ok hlegs
          obtain ⟨rfl, rfl⟩ := Prod.mk.inj (Except.ok.inj hlegs)
          rw [← hvec, ← hfts]
          exact if_neg hquery

/-! ## 5. Loading -/

/-- The chunk is there, and its document. -/
def isThere (db : Db V J T) (id : Uuid) : Bool :=
  (db.chunks.selectOne fun c => c.id = id).any fun c =>
    (db.documents.selectOne fun d => d.id = c.documentId).any fun _ => true

theorem isThere_iff {db : Db V J T} {id : Uuid} : isThere db id = true ↔
    ∃ c ∈ db.chunks.rows, c.id = id ∧ ∃ d ∈ db.documents.rows, d.id = c.documentId := by
  simp only [isThere, any_selectOne, and_true]

/-- The ids of the loaded chunks. -/
theorem mem_map_loadChunks {db : Db V J T} {ids : List Uuid} {id : Uuid} (hid : id ∈ ids) :
    id ∈ (loadChunks db ids).map (fun r => r.1.id) ↔ isThere db id = true := by
  rw [List.mem_map, isThere_iff]
  constructor
  · rintro ⟨r, hr, rfl⟩
    obtain ⟨hc, -, d, hd, hdoc, -⟩ := mem_loadChunks.mp hr
    exact ⟨r.1, hc, rfl, d, hd, hdoc⟩
  · rintro ⟨c, hc, rfl, d, hd, hdoc⟩
    exact ⟨(c, d.filename), mem_loadChunks.mpr ⟨hc, hid, d, hd, hdoc, rfl⟩, rfl⟩

/-- The loaded rows, in the order of the ranked ones, with their scores. -/
theorem map_filterMap_loaded (engine : Engine E V J T Q F δ κ) (later : Db V J T)
    {ranked : List (Uuid × Rat)} (hids : (ranked.map Prod.fst).Nodup) :
    let scores := Dict.ofRows (ranked.map fun r => (r.1, engine.float r.2))
    let byId := Dict.ofRows ((loadChunks later scores.keys).map fun r => (r.1.id, r))
    (scores.keys.filterMap byId.get?).map (fun r => (r.1.id, scores.get? r.1.id))
      = (ranked.filter fun r => isThere later r.1).map fun r => (r.1, some (engine.float r.2)) := by
  intro scores byId
  have hfst : (ranked.map fun r => (r.1, engine.float r.2)).map Prod.fst = ranked.map Prod.fst := by
    rw [List.map_map]
    rfl
  have hkeys : scores.keys = ranked.map Prod.fst := by
    rw [Dict.keys_ofRows (hfst ▸ hids), hfst]
  have hloaded : ((loadChunks later scores.keys).map fun r => r.1.id).Nodup :=
    List.pairwise_map.mpr ((sorted_loadChunks _).imp fun h => ne_of_lt h)
  have hfound : (scores.keys.filterMap byId.get?).map (fun r => r.1.id)
      = (ranked.map Prod.fst).filter fun id => isThere later id := by
    rw [Dict.map_filterMap_get? hloaded, ← hkeys]
    exact List.filter_congr fun id hid => by
      rw [Bool.eq_iff_iff, decide_eq_true_eq, mem_map_loadChunks hid]
  calc (scores.keys.filterMap byId.get?).map (fun r => (r.1.id, scores.get? r.1.id))
      = ((scores.keys.filterMap byId.get?).map fun r => r.1.id).map
          fun id => (id, scores.get? id) := by
        rw [List.map_map]
        rfl
    _ = (ranked.filter fun r => isThere later r.1).map fun r => (r.1, scores.get? r.1) := by
        rw [hfound, List.filter_map, List.map_map]
        rfl
    _ = (ranked.filter fun r => isThere later r.1).map
          fun r => (r.1, some (engine.float r.2)) := by
        refine List.map_congr_left fun r hr => ?_
        have hrow : (r.1, engine.float r.2) ∈ ranked.map fun r => (r.1, engine.float r.2) :=
          List.mem_map_of_mem (List.mem_filter.mp hr).1
        rw [(Dict.get?_ofRows (hfst ▸ hids)).mpr hrow]

/-- **Loading drops the chunks that are gone and numbers the others.** -/
theorem loadRanked_eq (engine : Engine E V J T Q F δ κ) (later : Db V J T)
    {ranked : List (Uuid × Rat)} (hids : (ranked.map Prod.fst).Nodup) :
    ∃ out, loadRanked engine later ranked = .ok out ∧
      out.map (fun c => ((c.chunkId, c.score), c.rank))
        = number ((ranked.filter fun r => isThere later r.1).map
            fun r => (r.1, engine.float r.2)) := by
  unfold loadRanked
  split_ifs with hempty
  · rw [List.isEmpty_iff] at hempty
    subst hempty
    exact ⟨[], rfl, rfl⟩
  · let scores := Dict.ofRows (ranked.map fun r => (r.1, engine.float r.2))
    -- each loaded row becomes a chunk with its id, its score and its number
    obtain ⟨out, hout, hread⟩ := Fallible.exists_mapM
      (g := fun c : RetrievedChunk J F => ((c.chunkId, some c.score), c.rank))
      (h := fun row : (ChunkRow V J T × Text) × Nat =>
        ((row.1.1.id, scores.get? row.1.1.id), row.2))
      fun row hrow => by
        obtain ⟨r, hr, hrank, hid, hscore⟩ := retrieved_ok hrow
        exact ⟨r, hr, by rw [hrank, hid, hscore]⟩
    refine ⟨out, hout, ?_⟩
    have hinj : Function.Injective fun x : (Uuid × F) × Nat => ((x.1.1, some x.1.2), x.2) := by
      rintro ⟨⟨id, score⟩, rank⟩ ⟨⟨id', score'⟩, rank'⟩ h
      obtain ⟨hpair, rfl⟩ := Prod.mk.inj h
      obtain ⟨rfl, hscore⟩ := Prod.mk.inj hpair
      obtain rfl := Option.some.inj hscore
      rfl
    refine List.map_injective_iff.mpr hinj ?_
    have hrows := number_map (fun x : Uuid × F => (x.1, some x.2))
      ((ranked.filter fun r => isThere later r.1).map fun r => (r.1, engine.float r.2))
    have hloaded := number_map (fun r : ChunkRow V J T × Text => (r.1.id, scores.get? r.1.id))
      (scores.keys.filterMap
        (Dict.ofRows ((loadChunks later scores.keys).map fun r => (r.1.id, r))).get?)
    have hfound := map_filterMap_loaded engine later hids
    rw [List.map_map] at hrows ⊢
    exact hread.trans (hloaded.symm.trans ((congrArg number hfound).trans hrows))

/-- What is ranked is there, as long as nothing has changed. -/
theorem isThere_of_ranked {ties : Ties engine} {db : Db V J T} {index : Index}
    {request : Request E} {filterIds : List Uuid} {rows : List (Uuid × Rat)}
    (h : ranked ties index request (candidates engine db request.userId filterIds) = .ok rows)
    {x : Uuid × Rat} (hx : x ∈ rows) : isThere db x.1 = true := by
  obtain ⟨c, hc, hid⟩ := ranked_mem h hx
  obtain ⟨d, hvisible⟩ := mem_candidates.mp hc
  exact isThere_iff.mpr ⟨c, hvisible.1, hid, d, hvisible.2.1, hvisible.2.2.1⟩

/-! ## 6. The search -/

/-- A chunk as ranked: its id and its score. -/
def asRanked (c : RetrievedChunk J F) : Uuid × F := (c.chunkId, c.score)

/-- The numbers of a result, from one on. -/
def IsNumbered (out : List (RetrievedChunk J F)) : Prop :=
  out.map RetrievedChunk.rank = List.range' 1 out.length

theorem isNumbered_of_map {out : List (RetrievedChunk J F)} {rows : List (Uuid × F)}
    (h : out.map (fun c => (asRanked c, c.rank)) = number rows) :
    out.map asRanked = rows ∧ IsNumbered out := by
  have hfst := congrArg (List.map Prod.fst) h
  have hsnd := congrArg (List.map Prod.snd) h
  rw [map_fst_number, List.map_map] at hfst
  rw [map_snd_number, List.map_map, ← hfst, List.length_map] at hsnd
  exact ⟨hfst, hsnd⟩

/-- **`hybrid_search` returns the best `top_n` chunks of its two legs**, numbered from one on, with
scores that do not increase.  The statement without the full-text leg is the same as the one with
an empty one.  Of chunks that are gone when they are loaded nothing is left but the order and the
numbering of the others. -/
theorem rank_fusion {value : F → Rat} (hexact : Exact engine value rrfK topN v f) (hk : 0 ≤ rrfK)
    (hn : 0 ≤ topN) (ties : Ties engine) :
    (IsLeg v → IsLeg f → ∃ rows,
      rrfSelect ties rrfK topN (.ok v) (.ok f) = .ok rows ∧ IsTop rrfK topN v f rows) ∧
    (IsLeg v → f = [] → ∀ ties' : Ties engine,
      vecOnlySelect ties' rrfK topN (.ok v) = rrfSelect ties rrfK topN (.ok v) (.ok f)) ∧
    ∀ (db : Db V J T) (index : Index) (request : Request E), index.rrfK = rrfK →
      request.topN = topN → legs ties db index request = .ok (v, f) →
      ∃ out, hybridSearch ties db index request = .ok out ∧
        IsTop rrfK topN v f (out.map fun c => (c.chunkId, value c.score)) ∧ IsNumbered out ∧
        ∀ later : Db V J T, ∃ rest,
          hybridSearchBetween ties db later index request = .ok rest ∧
          rest.map asRanked = (out.map asRanked).filter (fun c => isThere later c.1) ∧
          IsNumbered rest := by
  refine ⟨fun hv hf => rrfSelect_isTop hexact hk hn hv ties hf, fun hv hf ties' =>
    vecOnlySelect_eq hexact hk hn hv ties ties' hf, ?_⟩
  rintro db index request rfl rfl hlegs
  obtain ⟨hv, hf⟩ := isLeg_legs hlegs
  obtain ⟨hscan, hranked⟩ := ranked_eq hlegs hexact hk hn
  obtain ⟨rows, hrows, htop⟩ := rrfSelect_isTop hexact hk hn hv ties hf
  rw [hrows] at hranked
  have hload (later : Db V J T) :
      hybridSearchBetween ties db later index request = loadRanked engine later rows := by
    simp only [hybridSearchBetween, hscan, hranked]
    rfl
  obtain ⟨out, hout, hread⟩ := loadRanked_eq engine db htop.distinct
  have hall : (rows.filter fun r => isThere db r.1) = rows :=
    List.filter_eq_self.mpr fun x hx => isThere_of_ranked hranked hx
  rw [hall] at hread
  obtain ⟨hids, hnumbered⟩ := isNumbered_of_map hread
  have hvalues : (out.map fun c => (c.chunkId, value c.score)) = rows := by
    have hscores := congrArg (List.map fun c => (c.1, value c.2)) hids
    rw [List.map_map, List.map_map] at hscores
    refine hscores.trans ((List.map_congr_left fun x hx => ?_).trans (List.map_id rows))
    have hfloat := hexact.float x.1 (htop.ranked x hx)
    rw [← htop.score x hx] at hfloat
    exact congrArg (Prod.mk x.1) hfloat
  refine ⟨out, (hload db).trans hout,
    hvalues ▸ htop, hnumbered, fun later => ?_⟩
  obtain ⟨rest, hrest, hread'⟩ := loadRanked_eq engine later htop.distinct
  obtain ⟨hids', hnumbered'⟩ := isNumbered_of_map hread'
  refine ⟨rest, hload later ▸ hrest, ?_, hnumbered'⟩
  rw [hids', hids, List.filter_map]
  rfl

/-! ### A search in two chunks, one of them gone when they are loaded -/

theorem rank_fusion_gone :
    let near := sampleChunk 200 10 (1, 0)
    let db := sampleDb [sampleChunk 100 10 (0, 1), near] (by decide)
    let index : Index := ⟨30, 3, 60⟩
    let request : Request (Int × Int) := ⟨1, none, ['a', 'b', ' ', 'c'], (1, 0), 8⟩
    (∃ out, hybridSearch sampleTies db index request = .ok out ∧
      out.map asRanked = [(200, 9 / 20), (100, 9 / 20)]) ∧
    ∃ rest, hybridSearchBetween sampleTies db (sampleDb [near] (by decide)) index request =
      .ok rest ∧
      rest.map asRanked = [(200, 9 / 20)] ∧ IsNumbered rest := by
  intro near db index request
  have hexact : Exact sampleEngine id 3 8 [(200, 1), (100, 2)] [(100, 1), (200, 2)] :=
    ⟨rfl, rfl, by decide, fun _ _ => rfl, fun _ _ => rfl⟩
  have hranked : hybridSearch sampleTies db index request = .ok
      [⟨200, 10, ['f'], ['a', 'b'], 9 / 20, 1, some "document"⟩,
        ⟨100, 10, ['f'], ['a', 'b'], 9 / 20, 2, some "document"⟩] := by decide +kernel
  obtain ⟨out, hout, -, -, hgone⟩ := (rank_fusion hexact (by decide) (by decide) sampleTies).2.2
    db index request rfl rfl (by decide +kernel)
  obtain ⟨rest, hrest, hids, hnumbered⟩ := hgone (sampleDb [near] (by decide))
  obtain rfl := Except.ok.inj (hranked.symm.trans hout)
  exact ⟨⟨_, hranked, rfl⟩, rest, hrest, hids.trans (by decide +kernel), hnumbered⟩

end AtlasKnowledge.Retrieval
