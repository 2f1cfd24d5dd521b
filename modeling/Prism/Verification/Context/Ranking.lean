import Prism.Verification.Context.Equations

/-! # What a ranker can change of a retrieval -/

namespace Prism.Policy

variable {safe sources : List (List Char × Source)}

/-! ## Statements -/

/-- What holds of a pool, whatever the queries and the sources are. -/
structure Pooled (pools : List (List (Candidate sources))) (pool : List (Candidate sources)) :
    Prop where
  few : pool.length ≤ 24
  distinct : (pool.map (·.key)).Nodup
  /-- Each is a candidate of some query, and only of queries that offered its key. -/
  asked : ∀ c ∈ pool, c.groups ≠ []
  offered : ∀ c ∈ pool, ∀ g ∈ c.groups, ∃ candidates, pools[g]? = some candidates ∧
    ∃ d ∈ candidates, d.key = c.key
  /-- A protected candidate is left out of a pool of protected ones only. -/
  guarded : ∀ candidates ∈ pools, ∀ d ∈ candidates, d.isProtected →
    d.key ∈ pool.map (·.key) ∨ ∀ c ∈ pool, c.isProtected

/-- An order of a pool: every place once, the protected ones first and by their place. -/
structure Ordered (pool : List (Candidate sources)) (order : List ℕ) : Prop where
  once : order.Nodup
  covers : ∀ i, i ∈ order ↔ i < pool.length
  guarded : ∃ rest, order = (List.range pool.length).filter (protectedAt pool) ++ rest ∧
    ∀ i ∈ rest, protectedAt pool i = false

/-- The ranker gives the candidates of every query back, in some order. -/
def Permutes (env : Retrieval) (pool : List (Candidate sources)) : Prop :=
  ∀ rank, env.rank = some rank → ∀ g, (rank g).Perm (List.range (placesOf pool g).length)

/-! ## The pool -/

section Pool

variable {metadata : List (List Char × Info)} {identifiersIn : List Char → List (List Char)}

theorem addCandidate_cases {path : List Char} {lines : Source}
    {known : sources.lookup path = some lines} {pathScore group : ℕ} {info : Info}
    {direct : List ℕ} (found : List (Candidate sources)) (hit : ℕ × ℕ) :
    addCandidate path lines known pathScore group info direct found hit = found ∨
    ∃ c, c.groups = [group] ∧
      addCandidate path lines known pathScore group info direct found hit = found ++ [c] := by
  unfold addCandidate
  dsimp only
  split
  · exact .inl rfl
  · exact .inr ⟨_, rfl, rfl⟩

/-- The candidates of a query are offered for this query alone. -/
theorem fileCandidates_groups {identifiers calls : List (List Char)} {group : ℕ}
    {scored : List Char × ℕ} :
    ∀ c ∈ (fileCandidates metadata identifiersIn identifiers calls group scored :
      List (Candidate sources)), c.groups = [group] := by
  unfold fileCandidates
  split
  · simp
  · next lines known =>
    split
    · simp
    · refine List.foldlRecOn _ _ (motive := fun found : List (Candidate sources) =>
        ∀ c ∈ found, c.groups = [group]) (by simp) fun found ih hit _ => ?_
      obtain heq | ⟨c, hc, heq⟩ := addCandidate_cases found hit
      · rw [heq]
        exact ih
      · rw [heq]
        intro d hd
        obtain hd | hd := List.mem_append.mp hd
        · exact ih d hd
        · rw [List.mem_singleton.mp hd]
          exact hc

theorem candidates_groups {paths : List (List Char × ℕ)} {identifiers calls : List (List Char)}
    {group : ℕ} : ∀ c ∈ (candidates metadata identifiersIn paths identifiers calls group :
      List (Candidate sources)), c.groups = [group] := by
  intro c hc
  obtain ⟨scored, -, hc⟩ := List.mem_flatMap.mp (List.mem_mergeSort.mp (List.mem_of_mem_take hc))
  exact fileCandidates_groups c hc

theorem mem_rowsOf {pools : List (List (Candidate sources))} {isProtected : Bool}
    {c : Candidate sources} :
    c ∈ rowsOf pools isProtected ↔ (∃ pool ∈ pools, c ∈ pool) ∧ c.isProtected = isProtected := by
  rw [rowsOf, mem_roundRobin]
  constructor
  · rintro ⟨_, hl, hc⟩
    obtain ⟨pool, hpool, rfl⟩ := List.mem_map.mp hl
    obtain ⟨hc, hp⟩ := List.mem_filter.mp hc
    exact ⟨⟨pool, hpool, hc⟩, of_decide_eq_true hp⟩
  · rintro ⟨⟨pool, hpool, hc⟩, hp⟩
    exact ⟨_, List.mem_map.mpr ⟨pool, hpool, rfl⟩, List.mem_filter.mpr ⟨hc, decide_eq_true hp⟩⟩

variable {groups : List (Query safe)} {perGroup : List (List (List Char × ℕ))}
  {changed : List (List Char)}

theorem poolsOf_groups {g : ℕ} {pool : List (Candidate sources)}
    (h : (poolsOf metadata identifiersIn groups perGroup changed)[g]? = some pool) :
    g < groups.length ∧ ∀ c ∈ pool, c.groups = [g] := by
  rw [poolsOf, List.getElem?_map, Option.map_eq_some_iff] at h
  obtain ⟨⟨⟨q, paths⟩, i⟩, hi, rfl⟩ := h
  obtain ⟨hlt, hi⟩ := List.getElem?_eq_some_iff.mp hi
  rw [List.length_zipIdx, List.length_zip] at hlt
  simp only [List.getElem_zipIdx, Prod.mk.injEq, Nat.zero_add] at hi
  obtain ⟨-, rfl⟩ := hi
  exact ⟨hlt.trans_le (Nat.min_le_left _ _), candidates_groups⟩

/-- Of a given candidate, its pool is the one of its query. -/
theorem mem_poolsOf {c : Candidate sources} {pool : List (Candidate sources)}
    (hpool : pool ∈ poolsOf metadata identifiersIn groups perGroup changed) (hc : c ∈ pool) :
    ∃ g, c.groups = [g] ∧
      (poolsOf metadata identifiersIn groups perGroup changed)[g]? = some pool := by
  obtain ⟨g, hg⟩ := List.mem_iff_getElem?.mp hpool
  exact ⟨g, (poolsOf_groups hg).2 c hc, hg⟩

theorem poolFor_pooled : Pooled (poolsOf metadata identifiersIn groups perGroup changed)
    (poolFor metadata identifiersIn groups perGroup changed : List (Candidate sources)) := by
  generalize hpools : poolsOf metadata identifiersIn groups perGroup changed = pools
  have hfold : poolFor metadata identifiersIn groups perGroup changed =
      (rowsOf pools false).foldl mergeCandidate
        ((rowsOf pools true).foldl mergeCandidate []) := by
    rw [poolFor, hpools, List.foldl_append]
  have hfirst : Merged (rowsOf pools true) ((rowsOf pools true).foldl mergeCandidate []) := by
    simpa using Merged.foldl (rowsOf pools true) merged_nil
  have hmerged := Merged.foldl (rowsOf pools false) hfirst
  have hmem : ∀ d ∈ rowsOf pools true ++ rowsOf pools false, ∃ pool ∈ pools, d ∈ pool := by
    intro d hd
    obtain hd | hd := List.mem_append.mp hd
    · exact (mem_rowsOf.mp hd).1
    · exact (mem_rowsOf.mp hd).1
  obtain ⟨hkeys, hfull⟩ := foldl_keys (rowsOf pools false)
    ((rowsOf pools true).foldl mergeCandidate [])
  have hguarded : ∀ c ∈ (rowsOf pools true).foldl mergeCandidate [], c.isProtected :=
    foldl_protected (fun c hc => (mem_rowsOf.mp hc).2) (by simp)
  rw [hfold]
  refine ⟨hmerged.few, hmerged.distinct, hmerged.asked ?_, ?_, ?_⟩
  · intro d hd
    obtain ⟨pool, hpool, hd⟩ := hmem d hd
    obtain ⟨g, hg, -⟩ := mem_poolsOf (hpools ▸ hpool) hd
    rw [hg]
    exact List.cons_ne_nil _ _
  · intro c hc g hg
    obtain ⟨d, hd, hkey, hgd⟩ := hmerged.offered c hc g hg
    obtain ⟨pool, hpool, hd⟩ := hmem d hd
    obtain ⟨g', hg', hget⟩ := mem_poolsOf (hpools ▸ hpool) hd
    rw [hg', List.mem_singleton] at hgd
    subst hgd
    exact ⟨pool, hpools ▸ hget, d, hd, hkey⟩
  · intro pool hpool d hd hprotected
    obtain hkept | hroom := hfirst.kept d (mem_rowsOf.mpr ⟨⟨pool, hpool, hd⟩, hprotected⟩)
    · exact .inl (hkeys _ hkept)
    · exact .inr (hfull hroom hguarded)

end Pool

/-! ## The order -/

/-- The indices of a permutation of a list give its elements in another order. -/
theorem mapM_getElem {order indices : List ℕ} (h : order.Perm (List.range indices.length)) :
    ∃ ranked, order.mapM (indexAt indices) = .ok ranked ∧ ∀ i, i ∈ ranked ↔ i ∈ indices := by
  have hrun : ∀ {order : List ℕ}, (∀ i ∈ order, i < indices.length) →
      ∃ ranked, order.mapM (indexAt indices) = .ok ranked ∧
        ∀ i, i ∈ ranked ↔ ∃ k ∈ order, indices[k]? = some i := by
    intro order
    induction order with
    | nil => exact fun _ => ⟨[], rfl, by simp⟩
    | cons k order ih =>
        intro hlt
        obtain ⟨ranked, hranked, hmem⟩ := ih fun i hi => hlt i (List.mem_cons_of_mem _ hi)
        obtain ⟨index, hk⟩ : ∃ index, indices[k]? = some index :=
          ⟨_, List.getElem?_eq_getElem (hlt k List.mem_cons_self)⟩
        refine ⟨index :: ranked, ?_, fun i => ?_⟩
        · rw [List.mapM_cons, indexAt, hk, hranked]
          rfl
        · rw [List.mem_cons, hmem]
          simp only [List.mem_cons, exists_eq_or_imp, hk, Option.some.injEq, eq_comm (a := i)]
  obtain ⟨ranked, hranked, hmem⟩ := hrun fun i hi => List.mem_range.mp (h.mem_iff.mp hi)
  refine ⟨ranked, hranked, fun i => (hmem i).trans ?_⟩
  rw [List.mem_iff_getElem?]
  constructor
  · rintro ⟨k, -, hk⟩
    exact ⟨k, hk⟩
  · rintro ⟨k, hk⟩
    exact ⟨k, h.mem_iff.mpr (List.mem_range.mpr (List.getElem?_eq_some_iff.mp hk).1), hk⟩

/-- A loop over a list that always answers, where the places of the items do not matter. -/
theorem mapM_zipIdx {f : List ℕ × ℕ → Except Raised (List ℕ)} :
    ∀ (items : List (List ℕ)) {k : ℕ},
      (∀ g item, items[g]? = some item →
        ∃ ranked, f (item, k + g) = .ok ranked ∧ ∀ i, i ∈ ranked ↔ i ∈ item) →
      ∃ orders, (items.zipIdx k).mapM f = .ok orders ∧
        ∀ i, (∃ order ∈ orders, i ∈ order) ↔ ∃ order ∈ items, i ∈ order := by
  intro items
  induction items with
  | nil => exact fun _ => ⟨[], rfl, by simp⟩
  | cons item items ih =>
      intro k h
      obtain ⟨ranked, hranked, hmem⟩ := h 0 item rfl
      obtain ⟨orders, horders, hrest⟩ := ih (k := k + 1) fun g item hg => by
        have := h (g + 1) item (by simpa using hg)
        rwa [show k + (g + 1) = k + 1 + g by omega] at this
      refine ⟨ranked :: orders, ?_, fun i => ?_⟩
      · rw [Nat.add_zero] at hranked
        rw [List.zipIdx_cons, List.mapM_cons, hranked, horders]
        rfl
      · simp only [List.mem_cons, exists_eq_or_imp, hmem, hrest]

/-- A ranker that gives the candidates back loses none of them. -/
theorem rankedOrders_eq_ok {env : Retrieval} {pool : List (Candidate sources)} {n : ℕ}
    (h : Permutes env pool) :
    ∃ orders, rankedOrders env ((List.range n).map (placesOf pool)) = .ok orders ∧
      ∀ i, (∃ order ∈ orders, i ∈ order) ↔ ∃ g < n, i ∈ placesOf pool g := by
  have hplaces : ∀ i, (∃ order ∈ (List.range n).map (placesOf pool), i ∈ order) ↔
      ∃ g < n, i ∈ placesOf pool g := by
    simp
  unfold rankedOrders
  cases hrank : env.rank with
  | none => exact ⟨_, rfl, hplaces⟩
  | some rank =>
      obtain ⟨orders, horders, hmem⟩ := mapM_zipIdx (k := 0) (f := rankedPlaces rank)
        ((List.range n).map (placesOf pool)) (by
          intro g indices hg
          unfold rankedPlaces
          split
          · next hempty =>
            change indices = [] at hempty
            exact ⟨[], rfl, by simp [hempty]⟩
          · rw [List.getElem?_map, Option.map_eq_some_iff] at hg
            obtain ⟨g', hg', rfl⟩ := hg
            obtain ⟨hlt, rfl⟩ := List.getElem?_eq_some_iff.mp hg'
            rw [List.getElem_range, Nat.zero_add]
            exact mapM_getElem (h rank hrank g))
      exact ⟨orders, horders, fun i => (hmem i).trans (hplaces i)⟩

/-- Whatever orders cover a pool, its places come once each and the protected ones first. -/
theorem prioritized_ordered {pool : List (Candidate sources)} {orders : List (List ℕ)}
    (h : ∀ i, (∃ order ∈ orders, i ∈ order) ↔ i < pool.length) :
    Ordered pool (prioritized pool orders) := by
  have hprotected : ((List.range pool.length).filter (protectedAt pool)).Nodup :=
    List.nodup_range.filter _
  obtain ⟨rest, hfold, hnodup, hmem⟩ := foldl_addIndex (roundRobin orders) hprotected
  rw [prioritized, hfold]
  have hall : ∀ i, i ∈ (List.range pool.length).filter (protectedAt pool) ++ rest ↔
      i < pool.length := by
    intro i
    rw [hmem, mem_roundRobin, h, List.mem_filter, List.mem_range]
    exact ⟨fun hi => hi.elim And.left id, .inr⟩
  refine ⟨hnodup, hall, rest, rfl, fun i hi => ?_⟩
  rw [← Bool.not_eq_true]
  intro hprotected
  have hlt := (hall i).mp (List.mem_append_right _ hi)
  exact (List.nodup_append.mp hnodup).2.2 i
    (List.mem_filter.mpr ⟨List.mem_range.mpr hlt, hprotected⟩) i hi rfl

/-- Every candidate of a pool is asked for by one of the queries. -/
theorem Pooled.places {pools : List (List (Candidate sources))} {pool : List (Candidate sources)}
    (h : Pooled pools pool) {n : ℕ} (hn : pools.length ≤ n) (i : ℕ) :
    (∃ g < n, i ∈ placesOf pool g) ↔ i < pool.length := by
  constructor
  · rintro ⟨g, -, hi⟩
    exact List.mem_range.mp (List.mem_filter.mp hi).1
  · intro hi
    have hmem : pool[i] ∈ pool := List.getElem_mem hi
    obtain ⟨g, hg⟩ := List.exists_mem_of_ne_nil _ (h.asked _ hmem)
    obtain ⟨candidates, hget, -⟩ := h.offered _ hmem g hg
    refine ⟨g, (List.getElem?_eq_some_iff.mp hget).1.trans_le hn, ?_⟩
    refine List.mem_filter.mpr ⟨List.mem_range.mpr hi, ?_⟩
    rw [List.getElem?_eq_getElem hi]
    exact decide_eq_true hg

theorem length_poolsOf {metadata : List (List Char × Info)}
    {identifiersIn : List Char → List (List Char)} {groups : List (Query safe)}
    {perGroup : List (List (List Char × ℕ))} {changed : List (List Char)} :
    (poolsOf metadata identifiersIn groups perGroup changed :
      List (List (Candidate sources))).length ≤ groups.length := by
  rw [poolsOf, List.length_map, List.length_zipIdx, List.length_zip]
  exact Nat.min_le_left _ _

/-! ## Main result -/

/-- Rankers decide on an order only. For any queries, sources and metadata, two of them that
give the candidates of each query back take every place of the pool once, with the same
protected ones in front, and the pool is none of their business. -/
theorem ranking_only_reorders (metadata : List (List Char × Info))
    (identifiersIn : List Char → List (List Char)) (groups : List (Query safe))
    (perGroup : List (List (List Char × ℕ))) (changed : List (List Char)) (env env' : Retrieval)
    (pool : List (Candidate sources))
    (hpool : pool = poolFor metadata identifiersIn groups perGroup changed)
    (h : Permutes env pool) (h' : Permutes env' pool) :
    (∃ orders orders',
      rankedOrders env ((List.range groups.length).map (placesOf pool)) = .ok orders ∧
      rankedOrders env' ((List.range groups.length).map (placesOf pool)) = .ok orders' ∧
      Ordered pool (prioritized pool orders) ∧ Ordered pool (prioritized pool orders')) ∧
    Pooled (poolsOf metadata identifiersIn groups perGroup changed) pool := by
  have hpooled : Pooled (poolsOf metadata identifiersIn groups perGroup changed) pool :=
    hpool ▸ poolFor_pooled
  have hplaces := hpooled.places length_poolsOf
  obtain ⟨orders, horders, hmem⟩ := rankedOrders_eq_ok (n := groups.length) h
  obtain ⟨orders', horders', hmem'⟩ := rankedOrders_eq_ok (n := groups.length) h'
  refine ⟨⟨orders, orders', horders, horders', ?_, ?_⟩, hpooled⟩
  · exact prioritized_ordered fun i => (hmem i).trans (hplaces i)
  · exact prioritized_ordered fun i => (hmem' i).trans (hplaces i)

/-! ## A pool of two candidates -/

/-- A file of two functions. The first one is changed and calls the second. -/
def callingSource : List (List Char × Source) :=
  [("a.py".toList, ["g()".toList, "def g(): pass".toList])]

def callingInfo : Info where
  spans := [⟨1, 1, "f".toList, le_rfl⟩, ⟨2, 2, "g".toList, Nat.le_succ 1⟩]
  calls := [(1, "g".toList)]

def callingQuery : Query callingSource where
  path := "a.py".toList
  numbers := [1]
  lines := ["g()".toList, "def g(): pass".toList]
  known := by decide
  inside := by decide
  identifiers := ["g()".toList]
  calls := ["g".toList]

def callingPool : List (Candidate callingSource) :=
  poolFor [("a.py".toList, callingInfo)] (fun line => [line]) [callingQuery] [[]] ["a.py".toList]

/-- A ranker that turns the candidates of a query around, or none. -/
def turning (turns : Bool) : Retrieval where
  tree := .complete
  read path := callingSource.lookup path
  syntaxOf _ := []
  identifiersIn line := [line]
  candidatePaths _ _ _ := []
  rank := if turns then some fun g => (List.range (placesOf callingPool g).length).reverse else none

theorem turning_permutes (turns : Bool) : Permutes (turning turns) callingPool := by
  intro rank hrank g
  cases turns with
  | false => simp [turning] at hrank
  | true =>
      obtain rfl := Option.some.inj hrank
      exact List.reverse_perm _

theorem ranking_only_reorders_turning :
    (∃ orders orders',
      rankedOrders (turning false) ((List.range 1).map (placesOf callingPool)) = .ok orders ∧
      rankedOrders (turning true) ((List.range 1).map (placesOf callingPool)) = .ok orders' ∧
      Ordered callingPool (prioritized callingPool orders) ∧
      Ordered callingPool (prioritized callingPool orders')) ∧
    Pooled (poolsOf [("a.py".toList, callingInfo)] (fun line => [line]) [callingQuery] [[]]
      ["a.py".toList]) callingPool :=
  ranking_only_reorders [("a.py".toList, callingInfo)] (fun line => [line]) [callingQuery] [[]]
    ["a.py".toList] (turning false) (turning true) callingPool rfl (turning_permutes false)
    (turning_permutes true)

end Prism.Policy
