import Prism.Verification.Context.Equations
import Prism.Verification.Evidence.Equations
import Prism.Verification.Supplement.Correctness

/-! # What the chunks of a context add to a bundle -/

namespace Prism.Policy

open List

/-! ## Rows -/

/-- What chunks of a source make of the rows of a file. -/
structure Grown (lines : Source) (rows rows' : List Row) : Prop where
  kept : ∀ r ∈ rows, rowAt? rows r.line = some r → r ∈ rows'
  added : ∀ r ∈ rows', r ∈ rows ∨ r.changed = false ∧ lineAt lines r.line = some r.code
  increasing : (rows'.map Row.line).Pairwise (· < ·)

theorem Grown.trans {lines : Source} {rows rows' rows'' : List Row} (h : Grown lines rows rows')
    (h' : Grown lines rows' rows'') : Grown lines rows rows'' := by
  refine ⟨fun r hr hlast => ?_, fun r hr => ?_, h'.increasing⟩
  · have hr' := h.kept r hr hlast
    exact h'.kept r hr' (rowAt?_of_mem (h.increasing.imp ne_of_lt) hr')
  · rcases h'.added r hr with hr' | hnew
    · exact h.added r hr'
    · exact .inr hnew

section Merge

variable {sources : List (List Char × Source)} (rows : List Row) (c : Chunk sources)

theorem rowAt?_isSome {n : ℤ} (h : n ∈ rows.map Row.line) : (rowAt? rows n).isSome = true := by
  obtain ⟨r, hr, rfl⟩ := mem_map.mp h
  exact find?_isSome.mpr ⟨r, mem_reverse.mpr hr, by simp⟩

theorem mem_mergedRows {r : Row} : r ∈ mergedRows rows c ↔
    ∃ n : ℤ, (n ∈ rows.map Row.line ∨ n ∈ c.numbers.map fun n : ℕ => (n : ℤ)) ∧
      (rowAt? rows n).getD ⟨n, (lineAt c.lines n).getD [], false⟩ = r := by
  simp only [mergedRows, mem_map, mem_mergeSort, mem_dedup, mem_append]

theorem map_line_mergedRows : (mergedRows rows c).map Row.line =
    ((rows.map Row.line ++ c.numbers.map fun n : ℕ => (n : ℤ)).dedup.mergeSort (· ≤ ·)) := by
  rw [mergedRows, map_map]
  refine (map_congr_left fun n _ => ?_).trans (map_id _)
  cases h : rowAt? rows n with
  | none => simp [h]
  | some r => simp [h, (rowAt?_mem h).2]

theorem mem_line_mergedRows {n : ℤ} : n ∈ (mergedRows rows c).map Row.line ↔
    n ∈ rows.map Row.line ∨ n ∈ c.numbers.map fun n : ℕ => (n : ℤ) := by
  rw [map_line_mergedRows, mem_mergeSort, mem_dedup, mem_append]

/-- A chunk adds lines of its source, and loses no row that its number stands for. -/
theorem mergedRows_grown : Grown c.lines rows (mergedRows rows c) := by
  constructor
  · intro r hr hlast
    refine (mem_mergedRows rows c).mpr ⟨r.line, .inl (mem_map_of_mem hr), ?_⟩
    rw [hlast, Option.getD_some]
  · intro r hr
    obtain ⟨n, hn, rfl⟩ := (mem_mergedRows rows c).mp hr
    cases hrow : rowAt? rows n with
    | some r => exact .inl (rowAt?_mem hrow).1
    | none =>
        have hnew : n ∉ rows.map Row.line := fun hmem => by
          have := rowAt?_isSome rows hmem
          rw [hrow] at this
          cases this
        obtain ⟨m, hm, rfl⟩ := mem_map.mp (hn.resolve_left hnew)
        obtain ⟨hone, hlast⟩ := c.inside m hm
        have hbound : m - 1 < c.lines.length := by omega
        have hline : lineAt c.lines m = some c.lines[m - 1] := by
          rw [lineAt_pos (by omega)]
          have hindex : ((m : ℤ) - 1).toNat = m - 1 := by omega
          rw [hindex]
          exact getElem?_eq_getElem hbound
        refine .inr ⟨rfl, ?_⟩
        rw [Option.getD_none, hline, Option.getD_some]
  · rw [map_line_mergedRows]
    have hsorted := @pairwise_mergeSort ℤ (fun a b => decide (a ≤ b))
      (fun a b c hab hbc => by simp only [decide_eq_true_eq] at *; omega)
      (fun a b => by simpa using le_total a b)
      (rows.map Row.line ++ c.numbers.map fun n : ℕ => (n : ℤ)).dedup
    have hnodup : ((rows.map Row.line ++ c.numbers.map fun n : ℕ => (n : ℤ)).dedup.mergeSort
        (· ≤ ·)).Nodup := (mergeSort_perm _ _).nodup_iff.mpr (nodup_dedup _)
    exact (hsorted.and hnodup).imp fun {a b} h => by
      have hle := of_decide_eq_true h.1
      have hne := h.2
      omega

end Merge

/-! ## Places -/

theorem getElem?_place {files : List File} {i : ℕ} (hi : i ≤ files.length) (f : File) (j : ℕ) :
    (place files i f)[j]? = if j = i then some f else files[j]? := by
  rw [place, getElem?_append, length_take, min_eq_left hi]
  split_ifs with hlt heq heq
  · omega
  · rw [getElem?_take_of_lt hlt]
  · rw [heq, Nat.sub_self]
    rfl
  · obtain ⟨k, hk⟩ : ∃ k, j - i = k + 1 := ⟨j - i - 1, by omega⟩
    rw [hk, getElem?_cons_succ, getElem?_drop]
    congr 1
    omega

theorem place_length (files : List File) (f : File) :
    place files files.length f = files ++ [f] := by
  simp [place]

/-- A file that is replaced by one of its name leaves the names as they are. -/
theorem map_place {β : Type} (g : File → β) {files : List File} {i : ℕ} {f f' : File}
    (h : files[i]? = some f) (hg : g f' = g f) : (place files i f').map g = files.map g := by
  obtain ⟨hi, hget⟩ := List.getElem?_eq_some_iff.mp h
  have hsplit : files = files.take i ++ f :: files.drop (i + 1) := by
    rw [← hget, cons_getElem_drop_succ, take_append_drop]
  rw [place, map_append, map_cons, hg]
  conv_rhs => rw [hsplit, map_append, map_cons]

/-- `f"c{i + 1}"`. -/
def relatedId (i : ℕ) : List Char :=
  'c' :: Nat.toDigits 10 (i + 1)

section State

variable {sources : List (List Char × Source)} {b : Evidence} {perFile maxInput : ℕ}
  {s t : Collecting} {o : Offer sources}

theorem target_cases {path : List Char} {i : ℕ} {item : File}
    (h : s.target path = some (i, item)) :
    (s.byPath.lookup path = some i ∧ s.files[i]? = some item) ∨
      (s.byPath.lookup path = none ∧ (s.files.countP fun f => f.role = .related) < 4 ∧
        i = s.files.length ∧ item = ⟨relatedId i, extension path, .related, []⟩) := by
  unfold Collecting.target at h
  split at h
  · next j hj =>
    obtain ⟨f, hf, heq⟩ := Option.map_eq_some_iff.mp h
    cases heq
    exact .inl ⟨hj, hf⟩
  · next hnone =>
    split_ifs at h with hfull
    cases h
    exact .inr ⟨hnone, not_le.mp hfull, rfl, rfl⟩

/-- The rows that a bundle has at a place. -/
def startRows (b : Evidence) (i : ℕ) : List Row :=
  (b.payload.files[i]?.map File.lines).getD []

/-- One file of a collecting state against the bundle it started from. -/
structure Held (sources : List (List Char × Source)) (b : Evidence)
    (anchors : List (List Char × Anchor)) (i : ℕ) (f : File) : Prop where
  same : ∀ g, b.payload.files[i]? = some g → f = { g with lines := f.lines }
  new : b.payload.files[i]? = none → f.role = .related
  anchored : ∃ a, anchors.lookup f.fileId = some a ∧
    (f.lines = startRows b i ∨
      ∃ lines, sources.lookup a.path = some lines ∧ Grown lines (startRows b i) f.lines)

/-- What every chunk keeps of a bundle. -/
structure Intact (sources : List (List Char × Source)) (b : Evidence) (perFile maxInput : ℕ)
    (s : Collecting) : Prop where
  size : Payload.size { b.payload with files := s.files } ≤ maxInput
  fileSize : ∀ f ∈ s.files, encodedSize f.toJson ≤ perFile
  least : b.payload.files.length ≤ s.files.length
  ids : s.files.map File.fileId = b.payload.files.map File.fileId ++
    (range' b.payload.files.length (s.files.length - b.payload.files.length)).map relatedId
  related : (s.files.countP fun f => f.role = .related) ≤ 4
  held : ∀ i f, s.files[i]? = some f → Held sources b s.anchors i f
  places : ∀ path i, s.byPath.lookup path = some i → ∃ f a, s.files[i]? = some f ∧
    s.anchors.lookup f.fileId = some a ∧ a.path = path
  names : ∀ fid, (s.anchors.lookup fid).isSome = true → fid ∈ s.files.map File.fileId

/-! ## One chunk -/

theorem relatedId_injective {i j : ℕ} (h : relatedId i = relatedId j) : i = j := by
  have hdigits := (List.cons.inj h).2
  have hsucc := (Json.readDigits_toDigits (i + 1)).symm.trans
    ((congrArg Json.readDigits hdigits).trans (Json.readDigits_toDigits (j + 1)))
  have := Option.some.inj hsucc
  omega

/-- The names of prepared files and those of related ones are different. -/
theorem ids_nodup {files : List File} (h : files.map File.fileId =
    (range files.length).map fun i => 'f' :: Nat.toDigits 10 (i + 1)) (first n : ℕ) :
    (files.map File.fileId ++ (range' first n).map relatedId).Nodup := by
  refine nodup_append.mpr ⟨?_, ?_, ?_⟩
  · rw [h]
    refine nodup_range.map fun i j hij => ?_
    exact relatedId_injective (congrArg ('c' :: ·) (List.cons.inj hij).2)
  · exact (nodup_range' 1).map fun i j hij => relatedId_injective hij
  · rintro x hx y hy rfl
    rw [h] at hx
    obtain ⟨i, -, rfl⟩ := mem_map.mp hx
    obtain ⟨j, -, heq⟩ := mem_map.mp hy
    have := (List.cons.inj heq).1
    revert this
    decide

theorem Intact.nodup (hb : b.payload.files.map File.fileId =
    (range b.payload.files.length).map fun i => 'f' :: Nat.toDigits 10 (i + 1))
    (h : Intact sources b perFile maxInput s) : (s.files.map File.fileId).Nodup := by
  rw [h.ids]
  exact ids_nodup hb _ _

theorem admitted_eq (h : s.admitted b.payload perFile maxInput o = some t) : ∃ i item f,
    s.target o.path = some (i, item) ∧ f = { item with lines := mergedRows item.lines o.toChunk } ∧
      encodedSize f.toJson ≤ perFile ∧
      Payload.size { b.payload with files := place s.files i f } ≤ maxInput ∧
      t = { s with
        files := place s.files i f
        anchors := setAnchor s.anchors f.fileId ⟨o.path, f.lines.map Row.line⟩
        byPath := (o.path, i) :: s.byPath } := by
  unfold Collecting.admitted at h
  split at h
  · cases h
  · next i item htarget =>
    dsimp only at h
    split_ifs at h with hlarge
    cases h
    simp only [Bool.or_eq_true, decide_eq_true_eq, not_or, not_lt] at hlarge
    exact ⟨i, item, _, htarget, rfl, hlarge.1, hlarge.2, rfl⟩

/-- The place a chunk goes to. -/
structure Fits (sources : List (List Char × Source)) (b : Evidence) (s : Collecting)
    (path : List Char) (i : ℕ) (item : File) : Prop where
  bound : i ≤ s.files.length
  same : ∀ g, b.payload.files[i]? = some g → item = { g with lines := item.lines }
  new : b.payload.files[i]? = none → item.role = .related
  rows : item.lines = startRows b i ∨
    ∃ lines, sources.lookup path = some lines ∧ Grown lines (startRows b i) item.lines
  apart : ∀ j f, s.files[j]? = some f → j ≠ i → f.fileId ≠ item.fileId
  alone : ∀ path', s.byPath.lookup path' = some i → path' = path

theorem Intact.fits (hb : b.payload.files.map File.fileId =
    (range b.payload.files.length).map fun i => 'f' :: Nat.toDigits 10 (i + 1))
    (h : Intact sources b perFile maxInput s) {path : List Char} {i : ℕ} {item : File}
    (htarget : s.target path = some (i, item)) : Fits sources b s path i item := by
  rcases target_cases htarget with ⟨hpath, hitem⟩ | ⟨hpath, hfew, rfl, rfl⟩
  · obtain ⟨f, a, hf, ha, rfl⟩ := h.places path i hpath
    obtain rfl := Option.some.inj (hitem.symm.trans hf)
    obtain ⟨hsame, hrole, a', ha', hrows⟩ := h.held i item hitem
    obtain rfl := Option.some.inj (ha.symm.trans ha')
    refine ⟨(List.getElem?_eq_some_iff.mp hitem).1.le, hsame, hrole, hrows, ?_, ?_⟩
    · intro j f hf hji heq
      apply hji
      have hnodup := h.nodup hb
      have hj : (s.files.map File.fileId)[j]? = some item.fileId := by
        rw [getElem?_map, hf, Option.map_some, heq]
      have hi : (s.files.map File.fileId)[i]? = some item.fileId := by
        rw [getElem?_map, hitem, Option.map_some]
      obtain ⟨hjlt, -⟩ := List.getElem?_eq_some_iff.mp hj
      exact (List.getElem?_inj hjlt hnodup).mp (hj.trans hi.symm)
    · intro path' hpath'
      obtain ⟨f', a', hf', ha', rfl⟩ := h.places path' i hpath'
      obtain rfl := Option.some.inj (hitem.symm.trans hf')
      exact congrArg Anchor.path (Option.some.inj (ha'.symm.trans ha))
  · have hnone : b.payload.files[s.files.length]? = none := getElem?_eq_none h.least
    refine ⟨le_rfl, ?_, fun _ => rfl, .inl ?_, ?_, ?_⟩
    · intro g hg
      rw [hnone] at hg
      cases hg
    · rw [startRows, hnone]
      rfl
    · intro j f hf _ heq
      have hmem : relatedId s.files.length ∈ s.files.map File.fileId :=
        mem_map.mpr ⟨f, mem_of_getElem? hf, heq⟩
      rw [h.ids] at hmem
      have hnodup := ids_nodup hb b.payload.files.length
        (s.files.length - b.payload.files.length + 1)
      rw [range'_concat, map_append, ← append_assoc] at hnodup
      refine (nodup_append.mp hnodup).2.2 _ hmem _ ?_ rfl
      have hlength : b.payload.files.length + 1 * (s.files.length - b.payload.files.length) =
          s.files.length := by
        have := h.least
        omega
      rw [hlength]
      exact mem_singleton_self _
    · intro path' hpath'
      obtain ⟨f', -, hf', -⟩ := h.places path' _ hpath'
      exact absurd (List.getElem?_eq_some_iff.mp hf').1 (lt_irrefl _)

theorem Intact.admitted (hb : b.payload.files.map File.fileId =
    (range b.payload.files.length).map fun i => 'f' :: Nat.toDigits 10 (i + 1))
    (h : Intact sources b perFile maxInput s)
    (ht : s.admitted b.payload perFile maxInput o = some t) :
    Intact sources b perFile maxInput t := by
  obtain ⟨i, item, f, htarget, hf, hfile, hsize, rfl⟩ := admitted_eq ht
  have hfits := h.fits hb htarget
  have hid : f.fileId = item.fileId := by rw [hf]
  have hget : ∀ j, (place s.files i f)[j]? = if j = i then some f else s.files[j]? :=
    getElem?_place hfits.bound f
  have hlookup : ∀ j g, s.files[j]? = some g → j ≠ i →
      (setAnchor s.anchors f.fileId ⟨o.path, f.lines.map Row.line⟩).lookup g.fileId =
        s.anchors.lookup g.fileId := by
    intro j g hg hji
    rw [lookup_setAnchor, if_neg]
    rw [hid]
    exact hfits.apart j g hg hji
  have hgrown : Grown o.lines (startRows b i) f.lines := by
    have hmerged := mergedRows_grown item.lines o.toChunk
    rw [hf]
    rcases hfits.rows with hrows | ⟨lines, hlines, hrows⟩
    · rw [← hrows]
      exact hmerged
    · have hsame : lines = o.lines := Option.some.inj (hlines.symm.trans o.known)
      rw [hsame] at hrows
      exact hrows.trans hmerged
  have hfresh : (setAnchor s.anchors f.fileId ⟨o.path, f.lines.map Row.line⟩).lookup f.fileId =
      some ⟨o.path, f.lines.map Row.line⟩ := by
    rw [lookup_setAnchor, if_pos rfl]
  have hnew : (place s.files i f).map File.fileId = b.payload.files.map File.fileId ++
      (range' b.payload.files.length
        ((place s.files i f).length - b.payload.files.length)).map relatedId ∧
      b.payload.files.length ≤ (place s.files i f).length ∧
      ((place s.files i f).countP fun f => f.role = .related) ≤ 4 := by
    rcases target_cases htarget with ⟨-, hitem⟩ | ⟨-, hfew, rfl, hitem⟩
    · have hlength : (place s.files i f).length = s.files.length := by
        have := congrArg length (map_place File.fileId hitem hid)
        rwa [length_map, length_map] at this
      have hrole : (place s.files i f).map File.role = s.files.map File.role :=
        map_place File.role hitem (by rw [hf])
      rw [hlength]
      refine ⟨(map_place File.fileId hitem hid).trans h.ids, h.least, ?_⟩
      have hcount : ∀ l : List File, (l.countP fun f => f.role = .related) =
          (l.map File.role).countP fun r => r = .related := fun l => by
        rw [countP_map]
        rfl
      rw [hcount, hrole, ← hcount]
      exact h.related
    · rw [place_length, length_append, length_singleton]
      have hmore : s.files.length + 1 - b.payload.files.length =
          s.files.length - b.payload.files.length + 1 := Nat.succ_sub h.least
      have hlast : b.payload.files.length + 1 * (s.files.length - b.payload.files.length) =
          s.files.length := by
        have := h.least
        omega
      refine ⟨?_, h.least.trans (Nat.le_succ _), ?_⟩
      · rw [map_append, h.ids, hmore, range'_concat, map_append, ← append_assoc, hlast, map_singleton,
          map_singleton, hid, hitem]
      · rw [countP_append]
        have := countP_le_length (p := fun f : File => decide (f.role = .related)) (l := [f])
        rw [length_singleton] at this
        omega
  refine ⟨hsize, ?_, hnew.2.1, hnew.1, hnew.2.2, ?_, ?_, ?_⟩
  · intro g hg
    obtain ⟨j, hj⟩ := mem_iff_getElem?.mp hg
    rw [hget] at hj
    split_ifs at hj
    · cases hj
      exact hfile
    · exact h.fileSize g (mem_of_getElem? hj)
  · intro j g hj
    dsimp only at hj
    rw [hget] at hj
    split_ifs at hj with hji
    · cases hj
      subst hji
      refine ⟨fun g hg => ?_, fun hnone => ?_, _, hfresh, .inr ⟨o.lines, o.known, hgrown⟩⟩
      · rw [hf, hfits.same g hg]
      · rw [hf]
        exact hfits.new hnone
    · obtain ⟨hsame, hrole, a, ha, hrows⟩ := h.held j g hj
      exact ⟨hsame, hrole, a, (hlookup j g hj hji).trans ha, hrows⟩
  · intro path j hj
    dsimp only at hj ⊢
    rw [lookup_cons] at hj
    split at hj
    · next heq =>
      cases hj
      refine ⟨f, _, (hget i).trans (if_pos rfl), hfresh, ?_⟩
      exact (eq_of_beq heq).symm
    · next hne =>
      obtain ⟨g, a, hg, ha, hpath⟩ := h.places path j hj
      have hji : j ≠ i := by
        rintro rfl
        have := hfits.alone path hj
        rw [this] at hne
        simp at hne
      exact ⟨g, a, ((hget j).trans (if_neg hji)).trans hg, (hlookup j g hg hji).trans ha, hpath⟩
  · intro fid hfid
    dsimp only at hfid ⊢
    rw [lookup_setAnchor] at hfid
    split_ifs at hfid with heq
    · rw [heq]
      exact mem_map_of_mem (mem_of_getElem? ((hget i).trans (if_pos rfl)))
    · obtain ⟨g, hg, rfl⟩ := mem_map.mp (h.names fid hfid)
      obtain ⟨j, hj⟩ := mem_iff_getElem?.mp hg
      have hji : j ≠ i := by
        rintro rfl
        rcases target_cases htarget with ⟨-, hitem⟩ | ⟨-, -, rfl, -⟩
        · apply heq
          rw [hid, Option.some.inj (hj.symm.trans hitem)]
        · exact absurd (List.getElem?_eq_some_iff.mp hj).1 (lt_irrefl _)
      exact mem_map_of_mem (mem_of_getElem? (((hget j).trans (if_neg hji)).trans hj))

/-- A file of a path shows a line. -/
def ShowsLine (files : List File) (anchors : List (List Char × Anchor)) (path : List Char)
    (n : ℤ) : Prop :=
  ∃ f ∈ files, ∃ a, anchors.lookup f.fileId = some a ∧ a.path = path ∧ n ∈ f.lines.map Row.line

/-- A chunk is taken as a whole, and nothing but the chunk. -/
theorem admitted_shows (hb : b.payload.files.map File.fileId =
    (range b.payload.files.length).map fun i => 'f' :: Nat.toDigits 10 (i + 1))
    (h : Intact sources b perFile maxInput s)
    (ht : s.admitted b.payload perFile maxInput o = some t) (path : List Char) (n : ℤ) :
    ShowsLine t.files t.anchors path n ↔
      ShowsLine s.files s.anchors path n ∨ o.path = path ∧ ∃ m ∈ o.numbers, (m : ℤ) = n := by
  obtain ⟨i, item, f, htarget, hf, -, -, rfl⟩ := admitted_eq ht
  have hfits := h.fits hb htarget
  have hget : ∀ j, (place s.files i f)[j]? = if j = i then some f else s.files[j]? :=
    getElem?_place hfits.bound f
  have hid : f.fileId = item.fileId := by rw [hf]
  have hlines : n ∈ f.lines.map Row.line ↔
      n ∈ item.lines.map Row.line ∨ ∃ m ∈ o.numbers, (m : ℤ) = n := by
    rw [hf]
    exact (mem_line_mergedRows item.lines o.toChunk).trans (or_congr_right mem_map)
  have hfresh : (setAnchor s.anchors f.fileId ⟨o.path, f.lines.map Row.line⟩).lookup f.fileId =
      some ⟨o.path, f.lines.map Row.line⟩ := by
    rw [lookup_setAnchor, if_pos rfl]
  have hlookup : ∀ j g, s.files[j]? = some g → j ≠ i →
      (setAnchor s.anchors f.fileId ⟨o.path, f.lines.map Row.line⟩).lookup g.fileId =
        s.anchors.lookup g.fileId := by
    intro j g hg hji
    rw [lookup_setAnchor, if_neg]
    rw [hid]
    exact hfits.apart j g hg hji
  have hshown : ∀ g a, s.files[i]? = some g → s.anchors.lookup g.fileId = some a →
      g = item ∧ a.path = o.path := by
    intro g a hg ha
    rcases target_cases htarget with ⟨hi, hitem⟩ | ⟨-, -, rfl, -⟩
    · obtain ⟨g', a', hg', ha', hpath⟩ := h.places o.path i hi
      obtain rfl := Option.some.inj (hg.symm.trans hg')
      obtain rfl := Option.some.inj (ha.symm.trans ha')
      exact ⟨Option.some.inj (hg.symm.trans hitem), hpath⟩
    · exact absurd (List.getElem?_eq_some_iff.mp hg).1 (lt_irrefl _)
  constructor
  · rintro ⟨g, hg, a, ha, hpath, hn⟩
    obtain ⟨j, hj⟩ := mem_iff_getElem?.mp hg
    dsimp only at hj ha
    rw [hget] at hj
    split_ifs at hj with hji
    · cases hj
      obtain rfl := Option.some.inj (hfresh.symm.trans ha)
      rcases hlines.mp hn with hn | hn
      · rcases target_cases htarget with ⟨hi, hitem⟩ | ⟨-, -, -, hitem⟩
        · obtain ⟨g', a', hg', ha', hpath'⟩ := h.places o.path i hi
          obtain rfl := Option.some.inj (hitem.symm.trans hg')
          exact .inl ⟨item, mem_of_getElem? hitem, a', ha', hpath'.trans hpath, hn⟩
        · rw [hitem] at hn
          exact absurd hn not_mem_nil
      · exact .inr ⟨hpath, hn⟩
    · rw [hlookup j g hj hji] at ha
      exact .inl ⟨g, mem_of_getElem? hj, a, ha, hpath, hn⟩
  · rintro (⟨g, hg, a, ha, hpath, hn⟩ | ⟨hpath, hn⟩)
    · obtain ⟨j, hj⟩ := mem_iff_getElem?.mp hg
      by_cases hji : j = i
      · subst hji
        obtain ⟨rfl, hsame⟩ := hshown g a hj ha
        exact ⟨f, mem_of_getElem? ((hget j).trans (if_pos rfl)), _, hfresh, hsame.symm.trans hpath,
          hlines.mpr (.inl hn)⟩
      · exact ⟨g, mem_of_getElem? (((hget j).trans (if_neg hji)).trans hj), a,
          (hlookup j g hj hji).trans ha, hpath, hn⟩
    · exact ⟨f, mem_of_getElem? ((hget i).trans (if_pos rfl)), _, hfresh, hpath,
        hlines.mpr (.inr hn)⟩

/-! ## All chunks -/

theorem append_cases (s : Collecting) (o : Offer sources) :
    (∃ t, s.admitted b.payload perFile maxInput o = some t ∧
      s.append b.payload perFile maxInput o = t) ∨
    (s.admitted b.payload perFile maxInput o = none ∧
      s.append b.payload perFile maxInput o =
        { s with
          notes := s.notes ++ [s.refusal o.path]
          protectedMissing := s.protectedMissing + if o.isProtected then 1 else 0 }) := by
  unfold Collecting.append
  cases s.admitted b.payload perFile maxInput o with
  | some t => exact .inl ⟨t, rfl, rfl⟩
  | none => exact .inr ⟨rfl, rfl⟩

theorem Intact.append (hb : b.payload.files.map File.fileId =
    (range b.payload.files.length).map fun i => 'f' :: Nat.toDigits 10 (i + 1))
    (h : Intact sources b perFile maxInput s) (o : Offer sources) :
    Intact sources b perFile maxInput (s.append b.payload perFile maxInput o) := by
  obtain ⟨t, ht, heq⟩ | ⟨-, heq⟩ := append_cases s o
  · rw [heq]
    exact h.admitted hb ht
  · rw [heq]
    exact ⟨h.size, h.fileSize, h.least, h.ids, h.related, h.held, h.places, h.names⟩

/-- The chunks that are offered, each with whether it is admitted. -/
def decisions (payload : Payload) (perFile maxInput : ℕ) :
    Collecting → List (Offer sources) → List (Offer sources × Bool)
  | _, [] => []
  | s, o :: os => (o, (s.admitted payload perFile maxInput o).isSome) ::
      decisions payload perFile maxInput (s.append payload perFile maxInput o) os

theorem map_fst_decisions (s : Collecting) (os : List (Offer sources)) :
    (decisions b.payload perFile maxInput s os).map Prod.fst = os := by
  induction os generalizing s with
  | nil => rfl
  | cons o os ih => rw [decisions, map_cons, ih]

/-- The lines that a path shows by the chunks that are admitted. -/
def Admitted (ds : List (Offer sources × Bool)) (path : List Char) (n : ℤ) : Prop :=
  ∃ o, (o, true) ∈ ds ∧ o.path = path ∧ ∃ m ∈ o.numbers, (m : ℤ) = n

theorem admitted_cons {ds : List (Offer sources × Bool)} {d : Bool} {path : List Char} {n : ℤ} :
    Admitted ((o, d) :: ds) path n ↔
      d = true ∧ o.path = path ∧ (∃ m ∈ o.numbers, (m : ℤ) = n) ∨ Admitted ds path n := by
  constructor
  · rintro ⟨o', ho', hn⟩
    rcases mem_cons.mp ho' with heq | ho'
    · obtain ⟨rfl, rfl⟩ := Prod.mk.inj heq
      exact .inl ⟨rfl, hn⟩
    · exact .inr ⟨o', ho', hn⟩
  · rintro (⟨rfl, hn⟩ | ⟨o', ho', hn⟩)
    · exact ⟨o, mem_cons_self, hn⟩
    · exact ⟨o', mem_cons_of_mem _ ho', hn⟩

/-- What a run of offers comes to. -/
theorem foldl_append_spec (hb : b.payload.files.map File.fileId =
    (range b.payload.files.length).map fun i => 'f' :: Nat.toDigits 10 (i + 1))
    (os : List (Offer sources)) (h : Intact sources b perFile maxInput s) :
    let t := os.foldl (Collecting.append b.payload perFile maxInput) s
    let ds := decisions b.payload perFile maxInput s os
    Intact sources b perFile maxInput t ∧
      (∀ path n, ShowsLine t.files t.anchors path n ↔
        ShowsLine s.files s.anchors path n ∨ Admitted ds path n) ∧
      t.protectedMissing = s.protectedMissing + ds.countP fun d => d.1.isProtected && !d.2 := by
  induction os generalizing s with
  | nil => exact ⟨h, fun path n => by simp [decisions, Admitted], rfl⟩
  | cons o os ih =>
      obtain ⟨hintact, hshows, hmissing⟩ := ih (h.append hb o)
      refine ⟨hintact, fun path n => ?_, ?_⟩
      · rw [foldl_cons, hshows, decisions, admitted_cons]
        obtain ⟨t, ht, heq⟩ | ⟨hnone, heq⟩ := append_cases s o
        · rw [heq, admitted_shows hb h ht, ht, Option.isSome_some, or_assoc]
          simp only [true_and]
        · rw [heq, hnone]
          simp
      · rw [foldl_cons, hmissing, decisions, countP_cons]
        obtain ⟨t, ht, heq⟩ | ⟨hnone, heq⟩ := append_cases s o
        · have hkept : t.protectedMissing = s.protectedMissing := by
            obtain ⟨i, item, f, -, -, -, -, rfl⟩ := admitted_eq ht
            rfl
          rw [heq, hkept, ht]
          simp
        · rw [heq, hnone]
          simp only [Option.isSome_none, Bool.not_false, Bool.and_true]
          omega

end State

end Prism.Policy
