import Prism.Verification.Evidence.Equations
import Prism.Verification.Supplement.Equations

/-! # Supplementing context

Whatever is asked for and however the reads of the sources end, a file is shown as before
or as a whole. -/

namespace Prism.Policy

open OutputSchema (ContextRequest)

/-- The anchors are the lines of the files. -/
structure Anchored (files : List File) (anchors : List (List Char × Anchor)) : Prop where
  ids : (files.map File.fileId).Nodup
  anchored : ∀ fid, (∃ a, anchors.lookup fid = some a) ↔ fid ∈ files.map File.fileId
  lines : ∀ f ∈ files, ∀ a, anchors.lookup f.fileId = some a →
    ∀ n, n ∈ a.lines ↔ n ∈ f.lines.map Row.line

/-- `f'` is `f` with all lines of a source of at most 160 lines. -/
structure Whole (lines : Source) (f f' : File) : Prop where
  same : f'.fileId = f.fileId ∧ f'.language = f.language ∧ f'.role = f.role
  short : lines.length ≤ 160
  complete : f'.lines.map (fun r => (r.line, r.code)) =
    lines.zipIdx.map fun (code, i) => ((i : ℤ) + 1, code)
  /-- Of the rows with one number the last is kept. -/
  kept : ∀ r, rowAt? f.lines r.line = some r → 1 ≤ r.line → r ∈ f'.lines
  new : ∀ r ∈ f'.lines, r ∈ f.lines ∨ r.changed = false

section Files

variable {lines lines' : Source} {f f' f'' : File}

/-- `f` with all lines of a source. -/
def completed (f : File) (lines : Source) : File :=
  { f with lines := completeRows f.lines lines }

theorem whole_complete (h : Agrees f.lines lines) (hshort : lines.length ≤ 160) :
    Whole lines f (completed f lines) where
  same := ⟨rfl, rfl, rfl⟩
  short := hshort
  complete := completeRows_complete h
  kept _ hr hline := completeRows_kept h hr hline
  new _ hr := completeRows_new hr

theorem Whole.nodup (h : Whole lines f f') : (f'.lines.map Row.line).Nodup := by
  have hnumbers : f'.lines.map Row.line = lines.zipIdx.map fun p => ((p.2 : ℕ) : ℤ) + 1 := by
    have := congrArg (List.map Prod.fst) h.complete
    rwa [List.map_map, List.map_map] at this
  have hrange : lines.zipIdx.map (fun p => ((p.2 : ℕ) : ℤ) + 1) =
      (List.range lines.length).map fun i : ℕ => (i : ℤ) + 1 := by
    calc lines.zipIdx.map (fun p => ((p.2 : ℕ) : ℤ) + 1)
        = (lines.zipIdx.map Prod.snd).map fun i : ℕ => (i : ℤ) + 1 := by rw [List.map_map]; rfl
      _ = (List.range lines.length).map fun i : ℕ => (i : ℤ) + 1 := by
        rw [List.zipIdx_map_snd, List.range_eq_range']
  rw [hnumbers, hrange]
  exact List.nodup_range.map fun i j hij => by
    have : (i : ℤ) + 1 = (j : ℤ) + 1 := hij
    omega

theorem Whole.trans (h : Whole lines f f') (h' : Whole lines' f' f'') : Whole lines' f f'' where
  same := ⟨h'.same.1.trans h.same.1, h'.same.2.1.trans h.same.2.1, h'.same.2.2.trans h.same.2.2⟩
  short := h'.short
  complete := h'.complete
  kept r hr hline := h'.kept r (rowAt?_of_mem h.nodup (h.kept r hr hline)) hline
  new r hr := by
    rcases h'.new r hr with hr | hr
    · exact h.new r hr
    · exact Or.inr hr

theorem replaceFile_ids {file : File} (files : List File) :
    (replaceFile file files).map File.fileId = files.map File.fileId := by
  induction files with
  | nil => rfl
  | cons f files ih =>
      rw [replaceFile]
      split_ifs with hf
      · rw [List.map_cons, List.map_cons, hf]
      · rw [List.map_cons, List.map_cons, ih]

theorem mem_replaceFile {file : File} {files : List File}
    (hnodup : (files.map File.fileId).Nodup) (h : f ∈ replaceFile file files) :
    f = file ∨ f ∈ files ∧ f.fileId ≠ file.fileId := by
  induction files with
  | nil => exact absurd h List.not_mem_nil
  | cons g files ih =>
      obtain ⟨hg, hnodup⟩ := List.nodup_cons.mp hnodup
      rw [replaceFile] at h
      split_ifs at h with heq
      · rcases List.mem_cons.mp h with hf | hf
        · exact Or.inl hf
        · refine Or.inr ⟨List.mem_cons_of_mem g hf, fun hid => hg ?_⟩
          exact heq ▸ hid ▸ List.mem_map_of_mem hf
      · rcases List.mem_cons.mp h with rfl | hf
        · exact Or.inr ⟨List.mem_cons_self, heq⟩
        · rcases ih hnodup hf with hf | ⟨hf, hid⟩
          · exact Or.inl hf
          · exact Or.inr ⟨List.mem_cons_of_mem g hf, hid⟩

theorem forall₂_replaceFile {R : File → File → Prop} {base files : List File} {file file' : File}
    (h : List.Forall₂ R base files)
    (hfind : files.find? (fun f => f.fileId = file'.fileId) = some file)
    (hstep : ∀ f, R f file → R f file') : List.Forall₂ R base (replaceFile file' files) := by
  induction h with
  | nil => exact nomatch hfind
  | @cons f g base files hfg hrest ih =>
      rw [replaceFile]
      by_cases hid : g.fileId = file'.fileId
      · rw [List.find?_cons_of_pos (by simpa using hid)] at hfind
        obtain rfl := Option.some.inj hfind
        rw [if_pos hid]
        exact .cons (hstep f hfg) hrest
      · rw [List.find?_cons_of_neg (by simpa using hid)] at hfind
        rw [if_neg hid]
        exact .cons hfg (ih hfind)

theorem lookup_setAnchor (anchors : List (List Char × Anchor)) (fileId fid : List Char)
    (anchor : Anchor) : (setAnchor anchors fileId anchor).lookup fid =
      if fid = fileId then some anchor else anchors.lookup fid := by
  unfold setAnchor
  split_ifs with hsome hfid hfid
  · subst hfid
    induction anchors with
    | nil => exact nomatch hsome
    | cons e anchors ih =>
        obtain ⟨key, a⟩ := e
        by_cases hkey : key = fid
        · simp [hkey]
        · have hne : (fid == key) = false := beq_eq_false_iff_ne.mpr (Ne.symm hkey)
          rw [List.lookup_cons, hne] at hsome
          rw [List.map_cons, if_neg hkey, List.lookup_cons, hne]
          exact ih hsome
  · clear hsome
    induction anchors with
    | nil => rfl
    | cons e anchors ih =>
        obtain ⟨key, a⟩ := e
        by_cases hkey : key = fileId
        · have hne : (fid == fileId) = false := beq_eq_false_iff_ne.mpr hfid
          rw [List.map_cons, if_pos hkey, List.lookup_cons, List.lookup_cons, hkey, hne]
          exact ih
        · rw [List.map_cons, if_neg hkey, List.lookup_cons, List.lookup_cons, ih]
  · subst hfid
    simp only [Option.not_isSome_iff_eq_none] at hsome
    simp [List.lookup_append, hsome]
  · have hne : (fid == fileId) = false := beq_eq_false_iff_ne.mpr hfid
    simp [List.lookup_append, List.lookup_cons, hne]

end Files

/-! ## The requests -/

section Requests

variable (fetch : ℕ → List Char → Except ReadFailure Source)

/-- A file that is shown as before, or as the whole source of its path. -/
def Kept (anchors : List (List Char × Anchor)) (f f' : File) : Prop :=
  f' = f ∨ ∃ a time lines, anchors.lookup f.fileId = some a ∧ fetch time a.path = .ok lines ∧
    Whole lines f f'

/-- The state of the loop over the requests for a bundle. -/
structure Supplements (b : Evidence) (s : Supplementing) : Prop where
  payload : { s.payload with files := b.payload.files } = b.payload
  files : List.Forall₂ (Kept fetch b.anchors) b.payload.files s.payload.files
  anchored : Anchored s.payload.files s.anchors
  paths : ∀ fid a, s.anchors.lookup fid = some a →
    ∃ a₀, b.anchors.lookup fid = some a₀ ∧ a₀.path = a.path
  cached : ∀ path lines, s.cache.lookup path = some lines → ∃ time, fetch time path = .ok lines
  fits : (∃ n ∈ s.notes, n.status = .added) → s.payload.fits 1024 = true

variable {fetch} {isWord : Char → Bool} {ignored : List (List Char)} {b : Evidence}
  {s s' : Supplementing} {r : ContextRequest} {anchor : Anchor} {file : File} {lines : Source}

theorem Supplements.noted (h : Supplements fetch b s) {status : NoteStatus}
    (hstatus : status ≠ .added) : Supplements fetch b (s.noted r status) where
  payload := h.payload
  files := h.files
  anchored := h.anchored
  paths := h.paths
  cached := h.cached
  fits := by
    rintro ⟨n, hn, hadded⟩
    rcases List.mem_append.mp hn with hn | hn
    · exact h.fits ⟨n, hn, hadded⟩
    · obtain rfl := List.mem_singleton.mp hn
      exact (hstatus hadded).elim

theorem Supplements.remember (h : Supplements fetch b s) {path : List Char}
    (hread : ∃ time, fetch time path = .ok lines) : Supplements fetch b (s.remember path lines) := by
  unfold Supplementing.remember
  split_ifs
  · exact h
  · refine ⟨h.payload, h.files, h.anchored, h.paths, fun p l hl => ?_, h.fits⟩
    rw [List.lookup_cons] at hl
    split at hl
    · rename_i heq
      obtain rfl := Option.some.inj hl
      exact beq_iff_eq.mp heq ▸ hread
    · exact h.cached p l hl

/-- The anchors follow a completed file. -/
theorem Anchored.complete {files : List File} {anchors : List (List Char × Anchor)}
    (h : Anchored files anchors) (hfile : file ∈ files) (hagrees : Agrees file.lines lines)
    (path : List Char) :
    Anchored (replaceFile (completed file lines) files)
      (setAnchor anchors file.fileId
        ⟨path, (List.range lines.length).map fun i : ℕ => (i : ℤ) + 1⟩) where
  ids := by
    rw [replaceFile_ids]
    exact h.ids
  anchored fid := by
    rw [replaceFile_ids, ← h.anchored fid, lookup_setAnchor]
    split_ifs with hfid
    · refine ⟨fun _ => ?_, fun _ => ⟨_, rfl⟩⟩
      exact (h.anchored fid).mpr (hfid ▸ List.mem_map_of_mem hfile)
    · exact Iff.rfl
  lines f hf a ha n := by
    rw [lookup_setAnchor] at ha
    rcases mem_replaceFile h.ids hf with rfl | ⟨hf, hid⟩
    · rw [if_pos (show (completed file lines).fileId = file.fileId from rfl)] at ha
      obtain rfl := Option.some.inj ha
      rw [completed, completeRows_lines hagrees]
    · rw [if_neg (show ¬ f.fileId = file.fileId from hid)] at ha
      exact h.lines f hf a ha n

/-- The payload with a completed file. -/
def completing (p : Payload) (file : File) (lines : Source) : Payload :=
  { p with files := replaceFile (completed file lines) p.files }

/-- The state after a file was completed. -/
def Supplementing.showing (s : Supplementing) (r : ContextRequest) (anchor : Anchor) (file : File)
    (lines : Source) (status : NoteStatus) : Supplementing :=
  { s.noted r status with
    payload := completing s.payload file lines
    anchors := setAnchor s.anchors r.fileId.1
      ⟨anchor.path, (List.range lines.length).map fun i : ℕ => (i : ℤ) + 1⟩
    coverage := coverFiles r.fileId.1 lines.length s.coverage }

theorem complete_eq (s : Supplementing) (r : ContextRequest) (anchor : Anchor) (file : File)
    (lines : Source) : s.complete r anchor file lines =
      if (maxFile < encodedSize (completed file lines).toJson ||
          !(completing s.payload file lines).fits 1024) = true then s.noted r .budgetLimit
      else s.showing r anchor file lines
        (if file.lines.length = lines.length then .alreadyProvided else .added) :=
  rfl

/-- A file is completed within the budgets, or left as it is. -/
theorem complete_cases (s : Supplementing) (r : ContextRequest) (anchor : Anchor) (file : File)
    (lines : Source) : s.complete r anchor file lines = s.noted r .budgetLimit ∨
      (completing s.payload file lines).fits 1024 = true ∧
        ∃ status, s.complete r anchor file lines = s.showing r anchor file lines status := by
  rw [complete_eq]
  by_cases hbudget : (maxFile < encodedSize (completed file lines).toJson ||
      !(completing s.payload file lines).fits 1024) = true
  · rw [if_pos hbudget]
    exact Or.inl rfl
  · rw [if_neg hbudget]
    simp only [Bool.or_eq_true, not_or, Bool.not_eq_true', Bool.not_eq_false] at hbudget
    exact Or.inr ⟨hbudget.2, _, rfl⟩

theorem Supplements.complete (h : Supplements fetch b s)
    (hanchor : s.anchors.lookup r.fileId.1 = some anchor)
    (hfile : s.payload.files.find? (fun f => f.fileId = r.fileId.1) = some file)
    (hread : ∃ time, fetch time anchor.path = .ok lines) (hagrees : Agrees file.lines lines)
    (hshort : lines.length ≤ 160) : Supplements fetch b (s.complete r anchor file lines) := by
  have hid : file.fileId = r.fileId.1 := by simpa using List.find?_some hfile
  rcases complete_cases s r anchor file lines with heq | ⟨hfits, status, heq⟩
  · rw [heq]
    exact h.noted (by simp)
  rw [heq]
  refine ⟨h.payload, ?_, ?_, ?_, h.cached, fun _ => hfits⟩
  · have hfind : s.payload.files.find? (fun f => f.fileId = (completed file lines).fileId) =
        some file := by
      rw [← hfile, ← hid]
      rfl
    refine forall₂_replaceFile h.files hfind fun f hf => ?_
    obtain ⟨a₀, ha₀, hpath⟩ := h.paths _ _ hanchor
    obtain ⟨time, hread⟩ := hread
    have hwhole := whole_complete hagrees hshort
    rcases hf with rfl | ⟨a, t, l, ha, hl, hf⟩
    · exact Or.inr ⟨a₀, time, lines, hid ▸ ha₀, hpath ▸ hread, hwhole⟩
    · have hsame : f.fileId = r.fileId.1 := hf.same.1.symm.trans hid
      exact Or.inr ⟨a₀, time, lines, hsame ▸ ha₀, hpath ▸ hread, hf.trans hwhole⟩
  · have hanchored := h.anchored.complete (List.mem_of_find?_eq_some hfile) hagrees anchor.path
    rwa [hid] at hanchored
  · intro fid a ha
    rw [Supplementing.showing, lookup_setAnchor] at ha
    split_ifs at ha with hfid
    · obtain rfl := Option.some.inj ha
      exact hfid ▸ h.paths _ anchor hanchor
    · exact h.paths fid a ha

theorem Supplements.resolve (h : Supplements fetch b s)
    (hanchor : s.anchors.lookup r.fileId.1 = some anchor)
    (hfile : s.payload.files.find? (fun f => f.fileId = r.fileId.1) = some file)
    (hread : ∃ time, fetch time anchor.path = .ok lines)
    (hs : s.resolve r anchor file lines = .ok s') : Supplements fetch b s' := by
  unfold Supplementing.resolve at hs
  split at hs
  · exact nomatch hs
  · obtain rfl := Except.ok.inj hs
    exact h.noted (by simp)
  · rename_i hdiffers
    split_ifs at hs with hlong
    · obtain rfl := Except.ok.inj hs
      exact h.noted (by simp)
    · obtain rfl := Except.ok.inj hs
      exact h.complete hanchor hfile hread (agrees_of_anyM hdiffers) (not_lt.mp hlong)

theorem remember_same (s : Supplementing) (path : List Char) (lines : Source) :
    (s.remember path lines).payload = s.payload ∧ (s.remember path lines).anchors = s.anchors ∧
      (s.remember path lines).notes = s.notes := by
  unfold Supplementing.remember
  split_ifs
  · exact ⟨rfl, rfl, rfl⟩
  · exact ⟨rfl, rfl, rfl⟩

theorem Supplements.request (h : Supplements fetch b s) {time : ℕ}
    (hs : s.request isWord ignored fetch r time = .ok s') : Supplements fetch b s' := by
  unfold Supplementing.request at hs
  split at hs
  · obtain rfl := Except.ok.inj hs
    exact h.noted (by simp)
  · rename_i anchor hanchor
    split_ifs at hs with hexcluded
    · obtain rfl := Except.ok.inj hs
      exact h.noted (by simp)
    · split at hs
      · exact nomatch hs
      · rename_i file hfile
        split_ifs at hs with hmentions
        · obtain rfl := Except.ok.inj hs
          exact h.noted (by simp)
        · split at hs
          · obtain rfl := Except.ok.inj hs
            exact h.noted (by simp)
          · exact nomatch hs
          · rename_i lines hload
            have hread : ∃ t, fetch t anchor.path = .ok lines := by
              unfold Supplementing.load at hload
              split at hload
              · obtain rfl := Except.ok.inj hload
                rename_i hcached
                exact h.cached _ _ hcached
              · exact ⟨time, hload⟩
            obtain ⟨hpayload, hanchors, -⟩ := remember_same s anchor.path lines
            exact (h.remember hread).resolve (hanchors ▸ hanchor) (hpayload ▸ hfile) hread hs

theorem noted_length (s : Supplementing) (status : NoteStatus) :
    (s.noted r status).notes.length = s.notes.length + 1 := by
  rw [Supplementing.noted, List.length_append, List.length_singleton]

theorem resolve_notes (hs : s.resolve r anchor file lines = .ok s') :
    s'.notes.length = s.notes.length + 1 := by
  unfold Supplementing.resolve at hs
  split at hs
  · exact nomatch hs
  · exact Except.ok.inj hs ▸ noted_length s _
  · split_ifs at hs
    · exact Except.ok.inj hs ▸ noted_length s _
    · rw [← Except.ok.inj hs]
      rcases complete_cases s r anchor file lines with heq | ⟨-, status, heq⟩
      · exact heq ▸ noted_length s _
      · exact heq ▸ noted_length s status

/-- Every request leaves one note. -/
theorem request_notes {time : ℕ} (hs : s.request isWord ignored fetch r time = .ok s') :
    s'.notes.length = s.notes.length + 1 := by
  unfold Supplementing.request at hs
  split at hs
  · exact Except.ok.inj hs ▸ noted_length s _
  · split_ifs at hs
    · exact Except.ok.inj hs ▸ noted_length s _
    · split at hs
      · exact nomatch hs
      · split_ifs at hs
        · exact Except.ok.inj hs ▸ noted_length s _
        · split at hs
          · exact Except.ok.inj hs ▸ noted_length s _
          · exact nomatch hs
          · obtain ⟨-, -, hnotes⟩ := remember_same s _ _
            exact (resolve_notes hs).trans (by rw [hnotes])

theorem foldlM_notes {items : List (ContextRequest × ℕ)}
    (hs : items.foldlM (fun s r => s.request isWord ignored fetch r.1 r.2) s = .ok s') :
    s'.notes.length = s.notes.length + items.length := by
  induction items generalizing s with
  | nil =>
      obtain rfl := Except.ok.inj hs
      rfl
  | cons r items ih =>
      rw [List.foldlM_cons] at hs
      cases hfirst : s.request isWord ignored fetch r.1 r.2 with
      | error e =>
          rw [hfirst] at hs
          exact nomatch hs
      | ok t =>
          rw [hfirst] at hs
          rw [ih hs, request_notes hfirst, List.length_cons]
          omega

theorem Supplements.start (hb : Anchored b.payload.files b.anchors) : Supplements fetch b
    { payload := b.payload, anchors := b.anchors, coverage := b.coverage } where
  payload := rfl
  files := List.forall₂_same.mpr fun f _ => Or.inl rfl
  anchored := hb
  paths fid a ha := ⟨a, ha, rfl⟩
  cached path lines hl := nomatch hl
  fits := by
    rintro ⟨n, hn, -⟩
    exact absurd hn List.not_mem_nil

/-- The loop over the requests of an anchored bundle. -/
theorem supplementing_spec (hb : Anchored b.payload.files b.anchors)
    {requests : List ContextRequest}
    (hs : supplementing isWord ignored fetch b requests = .ok s) :
    Supplements fetch b s ∧ s.notes.length = (requests.take 2).length := by
  refine ⟨foldlM_invariant (fun s r s' _ hs h => h.request hs) hs (.start hb), ?_⟩
  have hlength := foldlM_notes hs
  rwa [List.length_nil, Nat.zero_add, List.length_zipIdx] at hlength

end Requests

/-! ### Runs that return -/

section Returns

variable {fetch : ℕ → List Char → Except ReadFailure Source} {isWord : Char → Bool}
  {ignored : List (List Char)} {b : Evidence} {s : Supplementing} {r : ContextRequest}

/-- The rows of all files are numbered from one on. -/
def Numbered (files : List File) : Prop :=
  ∀ f ∈ files, ∀ row ∈ f.lines, 1 ≤ row.line

theorem Whole.numbered {lines : Source} {f f' : File} (h : Whole lines f f') :
    ∀ row ∈ f'.lines, 1 ≤ row.line := by
  intro row hrow
  have hmem := List.mem_map_of_mem (f := fun r : Row => (r.line, r.code)) hrow
  rw [h.complete] at hmem
  obtain ⟨⟨code, i⟩, -, heq⟩ := List.mem_map.mp hmem
  have hline : (i : ℤ) + 1 = row.line := congrArg Prod.fst heq
  omega

/-- Files that are kept are left with numbers from one on. -/
theorem numbered_of_kept {anchors : List (List Char × Anchor)} {base files : List File}
    (h : List.Forall₂ (Kept fetch anchors) base files) (hb : Numbered base) : Numbered files := by
  unfold Numbered at hb ⊢
  induction h with
  | nil => exact hb
  | @cons f f' _ _ hkept _ ih =>
      obtain ⟨hf, hb⟩ := List.forall_mem_cons.mp hb
      refine List.forall_mem_cons.mpr ⟨?_, ih hb⟩
      rcases hkept with rfl | ⟨a, time, lines, -, -, hwhole⟩
      · exact hf
      · exact hwhole.numbered

theorem resolve_returns {anchor : Anchor} {file : File} {lines : Source}
    (hrows : ∀ row ∈ file.lines, 1 ≤ row.line) : ∃ s', s.resolve r anchor file lines = .ok s' := by
  obtain ⟨found, hfound⟩ := anyM_returns fun row hrow =>
    differs_returns Escaped.indexError lines (hrows row hrow)
  unfold Supplementing.resolve
  rw [hfound]
  cases found with
  | true => exact ⟨_, rfl⟩
  | false =>
      dsimp only
      split_ifs
      · exact ⟨_, rfl⟩
      · exact ⟨_, rfl⟩

theorem load_returns (hfetch : ∀ time path, fetch time path ≠ .error .other) (time : ℕ)
    (path : List Char) : s.load fetch time path ≠ .error .other := by
  unfold Supplementing.load
  split
  · exact fun h => nomatch h
  · exact hfetch time path

/-- An anchored file is found. -/
theorem Anchored.find {files : List File} {anchors : List (List Char × Anchor)}
    (h : Anchored files anchors) {fid : List Char} {a : Anchor} (ha : anchors.lookup fid = some a) :
    ∃ f, files.find? (fun f => f.fileId = fid) = some f := by
  obtain ⟨f, hf, hid⟩ := List.mem_map.mp ((h.anchored fid).mp ⟨a, ha⟩)
  exact Option.isSome_iff_exists.mp (List.find?_isSome.mpr ⟨f, hf, by simpa using hid⟩)

theorem Supplements.request_returns (h : Supplements fetch b s) (hb : Numbered b.payload.files)
    (hfetch : ∀ time path, fetch time path ≠ .error .other) (time : ℕ) :
    ∃ s', s.request isWord ignored fetch r time = .ok s' := by
  unfold Supplementing.request
  split
  · exact ⟨_, rfl⟩
  · next anchor hanchor =>
    split_ifs with hexcluded
    · exact ⟨_, rfl⟩
    obtain ⟨file, hfile⟩ := h.anchored.find hanchor
    rw [hfile]
    dsimp only
    split_ifs with hmentions
    · exact ⟨_, rfl⟩
    split
    · exact ⟨_, rfl⟩
    · next hload => exact absurd hload (load_returns hfetch time anchor.path)
    · exact resolve_returns
        (numbered_of_kept h.files hb file (List.mem_of_find?_eq_some hfile))

/-- The loop over the requests ends where the reads only fail as they are expected to. -/
theorem supplementing_returns (hb : Anchored b.payload.files b.anchors)
    (hnumbered : Numbered b.payload.files)
    (hfetch : ∀ time path, fetch time path ≠ .error .other) (requests : List ContextRequest) :
    ∃ s, supplementing isWord ignored fetch b requests = .ok s ∧ Supplements fetch b s := by
  refine foldlM_returns (fun s (hs : Supplements fetch b s) r _ => ?_) (Supplements.start hb)
  obtain ⟨s', hs'⟩ : ∃ s', s.request isWord ignored fetch r.1 r.2 = .ok s' :=
    hs.request_returns hnumbered hfetch r.2
  exact ⟨s', hs', hs.request hs'⟩

end Returns

/-! ## The bundle -/

section Supplement

variable (fetch : ℕ → List Char → Except ReadFailure Source)

/-- A supplemented bundle is within the limits, and shows every file as before or as a whole. -/
structure Supplemented (b b' : Evidence) : Prop where
  notes : ∃ notes, b'.payload.supplement = some notes
  rest : { b'.payload with
    files := b.payload.files, supplement := b.payload.supplement } = b.payload
  code : b'.payload.codePart.size ≤ maxInput
  size : b'.payload.size ≤ b.payload.maximum
  files : List.Forall₂ (Kept fetch b.anchors) b.payload.files b'.payload.files
  anchored : Anchored b'.payload.files b'.anchors

variable {fetch} {isWord : Char → Bool} {ignored : List (List Char)} {b b' : Evidence}
  {s : Supplementing} {requests : List ContextRequest}

theorem Supplements.supplemented (h : Supplements fetch b s)
    (hfits : { s.payload with supplement := some s.notes }.fits 0 = true)
    (coverage : List Json.Member) : Supplemented fetch b
      { b with
        payload := { s.payload with supplement := some s.notes }
        anchors := s.anchors
        coverage } := by
  have hpurpose : s.payload.maximum = b.payload.maximum := by
    rw [← h.payload]
    rfl
  simp only [Payload.fits, Bool.and_eq_true, decide_eq_true_eq, Nat.add_zero] at hfits
  have hsupplement : s.payload.supplement = b.payload.supplement :=
    (congrArg Payload.supplement h.payload :)
  refine ⟨⟨s.notes, rfl⟩, ?_, hfits.1, hpurpose ▸ hfits.2, h.files, h.anchored⟩
  rw [← hsupplement]
  exact h.payload

/-- How the loop ends: with nothing to note, with the notes, or with the bundle as it was. -/
theorem supplement_cases (hs : supplementing isWord ignored fetch b requests = .ok s)
    (hrun : supplement isWord ignored fetch b requests = .ok b') :
    s.notes = [] ∧ b' = b ∨
      (∃ coverage, { s.payload with supplement := some s.notes }.fits 0 = true ∧
        b' = { b with
          payload := { s.payload with supplement := some s.notes }
          anchors := s.anchors
          coverage }) ∨
      { s.payload with supplement := some s.notes }.fits 0 = false ∧
        ∃ coverage, b' = { b with coverage } := by
  unfold supplement at hrun
  rw [hs] at hrun
  change (if s.notes = [] then pure b else _) = _ at hrun
  split_ifs at hrun with hempty hfits
  · exact Or.inl ⟨hempty, (Except.ok.inj hrun).symm⟩
  · exact Or.inr (Or.inl ⟨_, hfits, (Except.ok.inj hrun).symm⟩)
  · exact Or.inr (Or.inr ⟨Bool.not_eq_true _ ▸ hfits, _, (Except.ok.inj hrun).symm⟩)

/-- What is returned is the bundle as it was or supplemented, and supplemented once a file was. -/
theorem supplement_result (hb : Anchored b.payload.files b.anchors)
    (hrun : supplement isWord ignored fetch b requests = .ok b') :
    (b'.payload = b.payload ∧ b'.anchors = b.anchors ∨ Supplemented fetch b b') ∧
      ∀ s, supplementing isWord ignored fetch b requests = .ok s →
        (∃ n ∈ s.notes, n.status = .added) → Supplemented fetch b b' ∧
          b'.payload = { s.payload with supplement := some s.notes } := by
  cases hs : supplementing isWord ignored fetch b requests with
  | error e =>
      unfold supplement at hrun
      rw [hs] at hrun
      exact nomatch hrun
  | ok s =>
      obtain ⟨hspec, hnotes⟩ := supplementing_spec hb hs
      have hfew : s.notes.length ≤ 2 := hnotes ▸ List.length_take_le 2 requests
      rcases supplement_cases hs hrun with ⟨hempty, rfl⟩ | ⟨coverage, hfits, rfl⟩ |
        ⟨hfits, coverage, rfl⟩
      · refine ⟨Or.inl ⟨rfl, rfl⟩, ?_⟩
        rintro s' hs' ⟨n, hn, -⟩
        obtain rfl := Except.ok.inj hs'
        exact absurd (hempty ▸ hn) List.not_mem_nil
      · refine ⟨Or.inr (hspec.supplemented hfits coverage), fun s' hs' _ => ?_⟩
        obtain rfl := Except.ok.inj hs'
        exact ⟨hspec.supplemented hfits coverage, rfl⟩
      · refine ⟨Or.inl ⟨rfl, rfl⟩, fun s' hs' hadded => ?_⟩
        obtain rfl := Except.ok.inj hs'
        -- The reserve is enough for the notes.
        have henough := fits_supplement (hspec.fits hadded) hfew
        rw [hfits] at henough
        exact nomatch henough

theorem supplement_returns (hb : Anchored b.payload.files b.anchors)
    (hnumbered : Numbered b.payload.files)
    (hfetch : ∀ time path, fetch time path ≠ .error .other) :
    ∃ b', supplement isWord ignored fetch b requests = .ok b' := by
  obtain ⟨s, hs, -⟩ : ∃ s, supplementing isWord ignored fetch b requests = .ok s ∧
      Supplements fetch b s :=
    supplementing_returns hb hnumbered hfetch requests
  unfold supplement
  rw [hs]
  change ∃ b', (if s.notes = [] then pure b else _) = _
  split_ifs
  · exact ⟨_, rfl⟩
  · exact ⟨_, rfl⟩
  · exact ⟨_, rfl⟩

/-- An anchored bundle stays as it is, or is supplemented, and it is supplemented once a file was;
and one of both is returned where rows are numbered from one on and the reads only fail as they
are expected to. -/
theorem supplement_keeps (isWord : Char → Bool) (ignored : List (List Char))
    (fetch : ℕ → List Char → Except ReadFailure Source) (requests : List ContextRequest)
    (hb : Anchored b.payload.files b.anchors) :
    (∀ b', supplement isWord ignored fetch b requests = .ok b' →
      (b'.payload = b.payload ∧ b'.anchors = b.anchors ∨ Supplemented fetch b b') ∧
        ∀ s, supplementing isWord ignored fetch b requests = .ok s →
          (∃ n ∈ s.notes, n.status = .added) → Supplemented fetch b b' ∧
            b'.payload = { s.payload with supplement := some s.notes }) ∧
      (Numbered b.payload.files → (∀ time path, fetch time path ≠ .error .other) →
        ∃ b', supplement isWord ignored fetch b requests = .ok b') :=
  ⟨fun _ hrun => supplement_result hb hrun, fun hnumbered hfetch =>
    supplement_returns hb hnumbered hfetch⟩

end Supplement

/-! ## Executions -/

section Executions

def asciiWord (c : Char) : Bool :=
  c.isAlphanum || c = '_'

/-- One file that shows the given rows. -/
def showingRows (rows : List Row) : Evidence where
  payload := { files := [⟨['f', '1'], ['p', 'y'], .changed, rows⟩], findings := [] }
  anchors := [(['f', '1'], ⟨"a.py".toList, [1]⟩)]
  omitted := 0
  coverage := []

theorem showingRows_anchored {rows : List Row} (h : ∀ n, n ∈ rows.map Row.line ↔ n = 1) :
    Anchored (showingRows rows).payload.files (showingRows rows).anchors where
  ids := by simp [showingRows]
  anchored fid := by
    by_cases hfid : fid = ['f', '1']
    · simp [showingRows, hfid]
    · have hne : (fid == ['f', '1']) = false := beq_eq_false_iff_ne.mpr hfid
      simp [showingRows, List.lookup_cons, hne, hfid]
  lines f hf a ha n := by
    obtain rfl := List.mem_singleton.mp hf
    have hanchor : a = ⟨"a.py".toList, [1]⟩ := by
      simpa [showingRows, eq_comm] using ha
    rw [hanchor, h n]
    exact List.mem_singleton

theorem asking_sized : 0 ≤ ['f', '1'].length ∧ ['f', '1'].length ≤ 8 := by
  decide

theorem asking_need : 1 ≤ ['d'].length ∧ ['d'].length ≤ 160 := by
  decide

def asking : ContextRequest where
  fileId := ⟨['f', '1'], asking_sized⟩
  symbol := ⟨['x'], by decide +kernel⟩
  need := ⟨['d'], asking_need⟩

/-- The shown line and another one. -/
def twoLines (_ : ℕ) (_ : List Char) : Except ReadFailure Source :=
  .ok [['x'], ['y']]

theorem supplement_keeps_adding : ∃ b',
    supplement asciiWord [] twoLines (showingRows [⟨1, ['x'], true⟩]) [asking] = .ok b' ∧
      Supplemented twoLines (showingRows [⟨1, ['x'], true⟩]) b' := by
  have hadded : (supplementing asciiWord [] twoLines (showingRows [⟨1, ['x'], true⟩])
      [asking]).toOption.map (fun s => s.notes.map Note.status) = some [.added] := by
    decide +kernel
  have hkeeps := supplement_keeps asciiWord [] twoLines [asking]
    (b := showingRows [⟨1, ['x'], true⟩]) (showingRows_anchored (by simp))
  have hnumbered : Numbered (showingRows [⟨1, ['x'], true⟩]).payload.files := by
    simp [Numbered, showingRows]
  obtain ⟨b', hb'⟩ := hkeeps.2 hnumbered fun _ _ h => nomatch h
  refine ⟨b', hb', ?_⟩
  cases hs : supplementing asciiWord [] twoLines (showingRows [⟨1, ['x'], true⟩]) [asking] with
  | error e => simp [hs, Except.toOption] at hadded
  | ok s =>
      refine ((hkeeps.1 b' hb').2 s hs ?_).1
      simp only [hs, Except.toOption, Option.map_some, Option.some.injEq] at hadded
      have hmem : NoteStatus.added ∈ s.notes.map Note.status := hadded ▸ List.mem_singleton_self _
      obtain ⟨n, hn, hstatus⟩ := List.mem_map.mp hmem
      exact ⟨n, hn, hstatus⟩

/-- Two rows of one number, of which the changed one is lost. -/
def repeatedRows : List Row :=
  [⟨1, ['x'], true⟩, ⟨1, ['x'], false⟩]

theorem supplement_loses_row :
    Anchored (showingRows repeatedRows).payload.files (showingRows repeatedRows).anchors ∧
      (supplement asciiWord [] twoLines (showingRows repeatedRows) [asking]).toOption.map
          (fun b' => b'.payload.files) =
        some [⟨['f', '1'], ['p', 'y'], .changed, [⟨1, ['x'], false⟩, ⟨2, ['y'], false⟩]⟩] ∧
      ⟨1, ['x'], true⟩ ∈ repeatedRows := by
  refine ⟨showingRows_anchored (by simp [repeatedRows]), by decide +kernel, ?_⟩
  exact List.mem_cons_self

end Executions

end Prism.Policy
