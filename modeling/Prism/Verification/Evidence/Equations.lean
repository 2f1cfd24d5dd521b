import Prism.Model.Evidence

/-! What `prepare` puts into a payload. -/

namespace Prism.Policy

/-- A loop that may raise keeps what each of its steps keeps. -/
theorem foldlM_invariant {σ α ε : Type} {f : σ → α → Except ε σ} {P : σ → Prop} {items : List α}
    (step : ∀ s a s', a ∈ items → f s a = .ok s' → P s → P s') {s s' : σ}
    (h : items.foldlM f s = .ok s') (hs : P s) : P s' := by
  induction items generalizing s with
  | nil =>
      obtain rfl := Except.ok.inj h
      exact hs
  | cons a items ih =>
      rw [List.foldlM_cons] at h
      cases hfirst : f s a with
      | error e =>
          rw [hfirst] at h
          exact nomatch h
      | ok t =>
          rw [hfirst] at h
          have ht := step s a t List.mem_cons_self hfirst hs
          exact ih (fun s b s' hb => step s b s' (List.mem_cons_of_mem a hb)) h ht

/-- A loop ends whose steps end where the next one can start. -/
theorem foldlM_returns {σ α ε : Type} {f : σ → α → Except ε σ} {P : σ → Prop} {items : List α}
    (step : ∀ s, P s → ∀ a ∈ items, ∃ s', f s a = .ok s' ∧ P s') {s : σ} (hs : P s) :
    ∃ s', items.foldlM f s = .ok s' ∧ P s' := by
  induction items generalizing s with
  | nil => exact ⟨s, rfl, hs⟩
  | cons a items ih =>
      obtain ⟨t, hfirst, ht⟩ := step s hs a List.mem_cons_self
      rw [List.foldlM_cons, hfirst]
      exact ih (fun s hs b hb => step s hs b (List.mem_cons_of_mem a hb)) ht

/-- The rows of a file are those of the patch of a change, under the path of the change. -/
structure Shows (change : List Json.Member) (path patch : List Char) (rows : List Row) : Prop where
  named : Json.member? change "filename".toList = some (.str path)
  patched : Json.member? change "patch".toList = some (.str patch)
  read : headRows patch = .ok rows

/-- The files `prepare` admits, with their anchors. -/
structure Prepared (perFile : ℕ) (changes : List (List Json.Member)) (files : List File)
    (anchors : List (List Char × Anchor)) : Prop where
  ids : files.map File.fileId =
    (List.range files.length).map fun i => 'f' :: Nat.toDigits 10 (i + 1)
  anchored : anchors.map (fun a => (a.1, a.2.lines)) =
    files.map fun f => (f.fileId, (f.lines.map Row.line).dedup)
  role : ∀ f ∈ files, f.role = .changed
  size : ∀ f ∈ files, encodedSize f.toJson ≤ perFile
  count : files.length ≤ 8
  shown : ∀ f ∈ files, ∃ change ∈ changes, ∃ path patch,
    Shows change path patch f.lines ∧ ∃ a, (f.fileId, a) ∈ anchors ∧ a.path = path

section Prepare

variable {findings : List Json} {ignored : List (List Char)} {perFile maxInput : ℕ}
  {mode : Option ReviewMode} {changes : List (List Json.Member)}

theorem exclude_files (s : Preparing) (path : Option Json) (reason : Exclusion) :
    (s.exclude path reason).files = s.files ∧ (s.exclude path reason).anchors = s.anchors :=
  ⟨rfl, rfl⟩

theorem prepared_empty : Prepared perFile changes [] [] := by
  constructor <;> simp

/-- A file is admitted within its limits, or left out. -/
theorem admit_cases (s : Preparing) (path : List Char) (rows : List Row) :
    (∃ reason, s.admitFile findings perFile maxInput mode path rows =
        s.exclude (some (.str path)) reason) ∨
      ∃ item : File, item = ⟨s.nextId, extension path, .changed, rows⟩ ∧
        encodedSize item.toJson ≤ perFile ∧
        s.admitFile findings perFile maxInput mode path rows =
          { s with
            files := s.files ++ [item]
            anchors := s.anchors ++ [(item.fileId, ⟨path, (rows.map Row.line).dedup⟩)] } := by
  rw [Preparing.admitFile]
  by_cases hrows : rows = []
  · rw [if_pos hrows]
    exact .inl ⟨_, rfl⟩
  · rw [if_neg hrows]
    by_cases hfile : perFile < encodedSize (File.toJson ⟨s.nextId, extension path, .changed, rows⟩)
    · rw [if_pos hfile]
      exact .inl ⟨_, rfl⟩
    · rw [if_neg hfile]
      split
      · exact .inl ⟨_, rfl⟩
      · exact .inr ⟨_, rfl, Nat.le_of_not_lt hfile, rfl⟩

/-- A change is passed over, or its rows are admitted. -/
theorem change_cases {s t : Preparing} {change : List Json.Member}
    (h : s.change findings ignored perFile maxInput mode change = .ok t) :
    (t.files = s.files ∧ t.anchors = s.anchors) ∨
      ∃ path patch rows, Shows change path patch rows ∧ s.files.length < 8 ∧
        t = s.admitFile findings perFile maxInput mode path rows := by
  simp only [Preparing.change] at h
  split at h
  · obtain rfl := Except.ok.inj h
    exact .inl (exclude_files s _ _)
  · split_ifs at h with hfull
    · obtain rfl := Except.ok.inj h
      exact .inl (exclude_files s _ _)
    · split at h
      · next path patch hpath hpatch =>
          cases hrows : headRows patch with
          | error e =>
              rw [hrows] at h
              exact nomatch h
          | ok rows =>
              rw [hrows] at h
              exact .inr ⟨path, patch, rows, ⟨hpath, hpatch, hrows⟩, Nat.lt_of_not_le hfull,
                (Except.ok.inj h).symm⟩
      · obtain rfl := Except.ok.inj h
        exact .inl ⟨rfl, rfl⟩

theorem prepared_change {s t : Preparing} {change : List Json.Member} (hmem : change ∈ changes)
    (h : s.change findings ignored perFile maxInput mode change = .ok t)
    (hs : Prepared perFile changes s.files s.anchors) :
    Prepared perFile changes t.files t.anchors := by
  rcases change_cases h with ⟨hfiles, hanchors⟩ | ⟨path, patch, rows, hshows, hcount, rfl⟩
  · rwa [hfiles, hanchors]
  · rcases admit_cases s path rows with ⟨reason, hout⟩ | ⟨item, hitem, hsize, hin⟩
    · rw [hout]
      exact hs
    · rw [hin]
      constructor
      · simp [hs.ids, List.range_succ, hitem, Preparing.nextId]
      · simp [hs.anchored, hitem]
      · rw [List.forall_mem_append, List.forall_mem_singleton]
        exact ⟨hs.role, by rw [hitem]⟩
      · rw [List.forall_mem_append, List.forall_mem_singleton]
        exact ⟨hs.size, hsize⟩
      · rw [List.length_append]
        exact hcount
      · rw [List.forall_mem_append, List.forall_mem_singleton]
        constructor
        · intro f hf
          obtain ⟨c, hc, p, q, hc', a, ha, hpath⟩ := hs.shown f hf
          exact ⟨c, hc, p, q, hc', a, List.mem_append_left _ ha, hpath⟩
        · rw [hitem]
          exact ⟨change, hmem, path, patch, hshows, _,
            List.mem_append_right _ (List.mem_singleton_self _), rfl⟩

/-- What a prepared bundle holds. -/
theorem prepare_spec {totalFiles : Option ℕ} {b : Evidence}
    (h : prepare findings ignored perFile maxInput mode changes totalFiles = .ok b) :
    Prepared perFile changes b.payload.files b.anchors ∧ b.payload.size ≤ maxInput ∧
      ContentSafety.secret.search b.payload.text = false ∧
      b.payload = { files := b.payload.files, findings, reviewMode := mode } := by
  simp only [prepare, bind, Except.bind] at h
  split at h
  · exact nomatch h
  · next s hs =>
      split_ifs at h with hempty hunsafe
      obtain rfl := Except.ok.inj h
      have hprepared : Prepared perFile changes s.files s.anchors :=
        foldlM_invariant (P := fun t => Prepared perFile changes t.files t.anchors)
          (fun s c t hc => prepared_change (List.mem_of_mem_take hc)) hs prepared_empty
      simp only [Bool.or_eq_true, decide_eq_true_eq, not_or, Bool.not_eq_true, not_lt] at hunsafe
      exact ⟨hprepared, hunsafe.2, hunsafe.1, rfl⟩

end Prepare

end Prism.Policy
