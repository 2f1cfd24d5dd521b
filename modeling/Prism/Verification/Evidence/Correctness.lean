import Prism.Verification.Evidence.Equations
import Prism.Verification.Evidence.Lines

/-! The rows of a prepared payload are lines of the head, as long as Python and Git agree
on where the shown lines end. -/

namespace Prism.Policy

open UnifiedDiff (Line Mark Edit Hunk Diff Genuine)

/-- Every file of a prepared payload comes from one changed file. Where its patch is a
genuine diff, the rows are the lines of the head they name exactly when no shown line holds
another boundary of `splitlines`. -/
theorem evidence_faithful {findings : List Json} {ignored : List (List Char)}
    {perFile maxInput : ℕ} {mode : Option ReviewMode} {changes : List (List Json.Member)}
    {totalFiles : Option ℕ} {b : Evidence}
    (h : prepare findings ignored perFile maxInput mode changes totalFiles = .ok b)
    {f : File} (hf : f ∈ b.payload.files) :
    ∃ change ∈ changes, ∃ path patch a,
      Json.member? change "filename".toList = some (.str path) ∧
      Json.member? change "patch".toList = some (.str patch) ∧
      (f.fileId, a) ∈ b.anchors ∧ a.path = path ∧
      ∀ base head d, Genuine base head patch d → HiddenQuiet d →
        (Faithful head d f.lines ↔ ShownWhole d) := by
  obtain ⟨hprepared, -⟩ := prepare_spec h
  obtain ⟨change, hchange, path, patch, hshows, a, ha, hpath⟩ := hprepared.shown f hf
  refine ⟨change, hchange, path, patch, a, hshows.named, hshows.patched, ha, hpath, ?_⟩
  intro base head d hgenuine hquiet
  exact headRows_faithful_iff hgenuine hquiet hshows.read

/-! ## Executions -/

section Executions

/-- A diff that appends a line to a text of one line. -/
def appending (content : List Char) : Diff where
  hunks := [⟨[], [⟨.kept, ⟨['a'], true⟩⟩, ⟨.added, ⟨content, true⟩⟩], [], true⟩]
  rest := []

def appended (content : List Char) : List Json.Member :=
  [("filename".toList, .str "a.js".toList),
    ("patch".toList, .str ("@@ -1 +1,2 @@\n a\n+".toList ++ content))]

theorem appending_quiet (content : List Char) : HiddenQuiet (appending content) := by
  intro h hh
  obtain rfl := List.mem_singleton.mp hh
  refine ⟨by simp [Quiet, Text.pieces, Text.splitlines, Text.linesAfter, Text.isLineBreak], ?_⟩
  intro e he hmark
  simp only [List.mem_cons, List.not_mem_nil, or_false] at he
  rcases he with rfl | rfl <;> cases hmark

theorem single_file (changes : List (List Json.Member))
    (h : ((prepare [] [] maxFile maxInput none changes none).toOption.map
      fun b => b.payload.files.length) = some 1) :
    ∃ b f, prepare [] [] maxFile maxInput none changes none = .ok b ∧ f ∈ b.payload.files := by
  cases hprepare : prepare [] [] maxFile maxInput none changes none with
  | error e =>
      rw [hprepare] at h
      exact nomatch h
  | ok b =>
      rw [hprepare] at h
      obtain ⟨f, hf⟩ := List.length_eq_one_iff.mp (Option.some.inj h)
      exact ⟨b, f, rfl, by simp [hf]⟩

theorem evidence_faithful_appending : ∃ b f,
    prepare [] [] maxFile maxInput none [appended ['b']] none = .ok b ∧ f ∈ b.payload.files ∧
      Faithful "a\nb\n".toList (appending ['b']) f.lines := by
  obtain ⟨b, f, h, hmem⟩ := single_file [appended ['b']] (by decide +kernel)
  obtain ⟨change, hchange, path, patch, a, -, hpatch, -, -, hiff⟩ := evidence_faithful h hmem
  obtain rfl := List.mem_singleton.mp hchange
  have hread : Json.member? (appended ['b']) "patch".toList =
    some (.str "@@ -1 +1,2 @@\n a\n+b".toList) := rfl
  rw [hread] at hpatch
  have hgenuine : Genuine "a\n".toList "a\nb\n".toList patch (appending ['b']) := by
    rw [← Json.str.inj (Option.some.inj hpatch)]
    exact ⟨by decide, by decide, by decide, .inr (by decide)⟩
  refine ⟨b, f, h, hmem, (hiff _ _ _ hgenuine (appending_quiet _)).mpr ?_⟩
  intro k hk e he _
  obtain rfl := List.mem_singleton.mp hk
  simp only [List.mem_cons, List.not_mem_nil, or_false] at he
  rcases he with rfl | rfl <;> exact .inl (Text.plain_of_all (by decide))

/-- A form feed in an added line cuts off what stands behind it. -/
theorem formFeed_cut : ∃ b f, Genuine "a\n".toList "a\nb\x0cc\n".toList
      "@@ -1 +1,2 @@\n a\n+b\x0cc".toList (appending "b\x0cc".toList) ∧
    prepare [] [] maxFile maxInput none [appended "b\x0cc".toList] none = .ok b ∧
    f ∈ b.payload.files ∧ ¬ Faithful "a\nb\x0cc\n".toList (appending "b\x0cc".toList) f.lines := by
  have hgenuine : Genuine "a\n".toList "a\nb\x0cc\n".toList
      "@@ -1 +1,2 @@\n a\n+b\x0cc".toList (appending "b\x0cc".toList) :=
    ⟨by decide, by decide, by decide, .inr (by decide)⟩
  have hcut : ¬ Text.Whole "b\x0cc".toList := by
    intro hwhole
    obtain ⟨code, hpieces, -⟩ := hwhole.pieces
    have htwo : (Text.pieces "b\x0cc".toList).length = 2 := by decide
    rw [hpieces] at htwo
    exact nomatch htwo
  obtain ⟨b, f, h, hmem⟩ := single_file [appended "b\x0cc".toList] (by decide +kernel)
  refine ⟨b, f, hgenuine, h, hmem, ?_⟩
  obtain ⟨change, hchange, path, patch, hshows, -⟩ := (prepare_spec h).1.shown f hmem
  obtain rfl := List.mem_singleton.mp hchange
  have hread : Json.member? (appended "b\x0cc".toList) "patch".toList =
    some (.str "@@ -1 +1,2 @@\n a\n+b\x0cc".toList) := rfl
  have hpatch := hshows.patched
  rw [hread] at hpatch
  rw [← Json.str.inj (Option.some.inj hpatch)] at hshows
  rw [headRows_faithful_iff hgenuine (appending_quiet _) hshows.read]
  intro hwhole
  exact hcut (hwhole _ (List.mem_singleton_self _) ⟨.added, ⟨"b\x0cc".toList, true⟩⟩
    (by simp) (by decide))

end Executions

end Prism.Policy
