import Prism.Verification.Evidence.Patch

/-! The rows `prepare` reads from a genuine diff, against the lines of the head. -/

namespace Prism.Policy

open UnifiedDiff (Line Mark Edit Hunk Diff Genuine printHunks)
open Text (Whole UpToReturn pieces)

/-! ## Statements -/

/-- Every row shows the line of the head it names. -/
def Faithful (head : List Char) (d : Diff) (rows : List Row) : Prop :=
  ∀ r ∈ rows, ∃ (n : ℕ) (l : Line), r.line = n + 1 ∧ (UnifiedDiff.lines head)[n]? = some l ∧
    UpToReturn r.code l.content ∧ (r.changed = true ↔ d.IsAdded n)

/-- A line of a patch that neither moves nor shows anything. -/
def Silent (line : List Char) : Prop :=
  Patch.header? line = none ∧ line.head? ≠ some '+' ∧ line.head? ≠ some ' '

/-- Where the line is cut, nothing is shown of what follows the first piece. -/
def Quiet (line : List Char) : Prop :=
  ∀ p ∈ (pieces line).tail, Silent p

/-- The lines of a diff that are not lines of the head are quiet. -/
def HiddenQuiet (d : Diff) : Prop :=
  ∀ h ∈ d.hunks, Quiet h.heading ∧ ∀ e ∈ h.edits, e.mark = .deleted → Quiet e.line.content

/-- The lines of a diff that are lines of the head are whole. -/
def ShownWhole (d : Diff) : Prop :=
  ∀ h ∈ d.hunks, ∀ e ∈ h.edits, e.mark ≠ .deleted → Whole e.line.content

/-! ## The walk -/

section Walk

theorem read_silent {line : List Char} (h : Silent line) (w : Walk) : w.read line = w := by
  obtain ⟨hheader, hplus, hblank⟩ := h
  rw [Walk.read, hheader]
  · rintro code rfl
    exact hplus rfl
  · rintro code rfl
    exact hblank rfl

theorem read_headed {line : List Char} {h : Patch.Header} (hline : Patch.header? line = some h)
    (w : Walk) : w.read line = { w with number := (Text.int h.newStart).getD 0 } := by
  unfold Walk.read
  rw [hline]

theorem foldl_silent {lines : List (List Char)} (h : ∀ l ∈ lines, Silent l) (w : Walk) :
    lines.foldl Walk.read w = w := by
  induction lines with
  | nil => rfl
  | cons l lines ih =>
      rw [List.foldl_cons, read_silent (h l List.mem_cons_self),
        ih fun m hm => h m (List.mem_cons_of_mem l hm)]

theorem rows_show (w : Walk) (code : List Char) (changed : Bool) :
    w.rows <+: (w.show code changed).rows := by
  unfold Walk.show
  split
  · exact List.prefix_rfl
  · exact List.prefix_append _ _

theorem rows_read (w : Walk) (line : List Char) : w.rows <+: (w.read line).rows := by
  unfold Walk.read
  split
  · exact List.prefix_rfl
  · split
    · exact rows_show w _ _
    · exact rows_show w _ _
    · exact List.prefix_rfl

/-- Rows are never taken back. -/
theorem rows_foldl (w : Walk) (lines : List (List Char)) :
    w.rows <+: (lines.foldl Walk.read w).rows := by
  induction lines generalizing w with
  | nil => exact List.prefix_rfl
  | cons l lines ih => exact (rows_read w l).trans (ih (w.read l))

theorem show_of_ne {w : Walk} (h : w.number ≠ 0) (code : List Char) (changed : Bool) :
    w.show code changed = ⟨w.number + 1, w.rows ++ [⟨w.number, code, changed⟩]⟩ := by
  rw [Walk.show, if_neg h]

end Walk

/-! ## One line of a hunk -/

section Edits

theorem silent_of_head {c : Char} (hat : c ≠ '@') (hplus : c ≠ '+') (hblank : c ≠ ' ')
    (s : List Char) : Silent (c :: s) := by
  refine ⟨?_, by simpa using hplus, by simpa using hblank⟩
  have hafter : Text.after "@@ -".toList (c :: s) = none := by
    simp [Text.after, Ne.symm hat]
  rw [Patch.header?, hafter]
  rfl

theorem silent_nil : Silent [] := by
  refine ⟨rfl, ?_, ?_⟩ <;> simp

theorem pieces_noNewline : pieces UnifiedDiff.noNewline = [UnifiedDiff.noNewline] := by
  decide +kernel

/-- The lines a hunk has behind the one of an edit show nothing. -/
theorem silent_ending (e : Edit) :
    ∀ p ∈ e.print.tail.flatMap pieces, Silent p := by
  cases h : e.line.ended with
  | true => simp [Edit.print, h]
  | false =>
      have htail : e.print.tail.flatMap pieces = [UnifiedDiff.noNewline] := by
        simp [Edit.print, h, pieces_noNewline]
      rw [htail, List.forall_mem_singleton]
      exact silent_of_head (by decide) (by decide) (by decide) _

theorem sign_plain (m : Mark) : Text.isLineBreak m.sign = false := by
  cases m <;> decide

/-- The first piece of a line behind its sign. -/
theorem pieces_sign (m : Mark) (content : List Char) :
    ∃ p ps, pieces content = p :: ps ∧ pieces (m.sign :: content) = (m.sign :: p) :: ps := by
  obtain ⟨p, ps, hp, hrun, -⟩ := @Text.pieces_append [m.sign]
    (by simpa using sign_plain m) content
  exact ⟨p, ps, hp, hrun⟩

/-- The walk over what is printed of an edit. -/
def Walk.edit (w : Walk) (e : Edit) : Walk :=
  (e.print.flatMap pieces).foldl Walk.read w

theorem edit_eq (w : Walk) (e : Edit) :
    w.edit e = (pieces (e.mark.sign :: e.line.content)).foldl Walk.read w := by
  have hprint : e.print.flatMap pieces =
      pieces (e.mark.sign :: e.line.content) ++ e.print.tail.flatMap pieces := rfl
  rw [Walk.edit, hprint, List.foldl_append, foldl_silent (silent_ending e)]

theorem edit_deleted {e : Edit} (hmark : e.mark = .deleted) (hquiet : Quiet e.line.content)
    (w : Walk) : w.edit e = w := by
  obtain ⟨p, ps, hp, hsign⟩ := pieces_sign e.mark e.line.content
  rw [edit_eq, hsign]
  apply foldl_silent
  rw [hmark]
  refine List.forall_mem_cons.mpr ⟨silent_of_head (by decide) (by decide) (by decide) p, ?_⟩
  intro q hq
  exact hquiet q (by rw [hp]; exact hq)

theorem read_sign {m : Mark} (hm : m ≠ .deleted) (w : Walk) (p : List Char) :
    w.read (m.sign :: p) = w.show p (decide (m = .added)) := by
  cases m with
  | kept =>
      have hheader : Patch.header? (' ' :: p) = none := rfl
      simp [Walk.read, Mark.sign, hheader]
  | deleted => exact absurd rfl hm
  | added =>
      have hheader : Patch.header? ('+' :: p) = none := rfl
      simp [Walk.read, Mark.sign, hheader]

/-- A whole line of the head is shown. -/
theorem edit_whole {e : Edit} (hmark : e.mark ≠ .deleted) (hwhole : Whole e.line.content)
    (w : Walk) : ∃ code, UpToReturn code e.line.content ∧
      w.edit e = w.show code (decide (e.mark = .added)) := by
  obtain ⟨code, hpieces, hcode⟩ := hwhole.pieces
  obtain ⟨p, ps, hp, hsign⟩ := pieces_sign e.mark e.line.content
  obtain ⟨rfl, rfl⟩ := List.cons.inj (hp.symm.trans hpieces)
  refine ⟨p, hcode, ?_⟩
  rw [edit_eq, hsign]
  exact read_sign hmark w p

/-- Of any other line a part is shown in its place. -/
theorem edit_broken {e : Edit} (hmark : e.mark ≠ .deleted) (hwhole : ¬ Whole e.line.content)
    (w : Walk) : ∃ code, ¬ UpToReturn code e.line.content ∧
      (w.show code (decide (e.mark = .added))).rows <+: (w.edit e).rows := by
  obtain ⟨p, ps, hp, hsign⟩ := pieces_sign e.mark e.line.content
  refine ⟨p, fun hcode => hwhole (Text.whole_of_first hp hcode), ?_⟩
  rw [edit_eq, hsign, List.foldl_cons, read_sign hmark]
  exact rows_foldl _ ps

end Edits

/-! ## A whole diff -/

section Diffs

/-- A row that shows the line it names of the head with these lines. -/
def Right (marked : List (Line × Bool)) (r : Row) : Prop :=
  ∃ (n : ℕ) (l : Line), r.line = n + 1 ∧ marked[n]? = some (l, r.changed) ∧
    UpToReturn r.code l.content

theorem right_last {pre post : List (Line × Bool)} {l : Line} {changed : Bool}
    {code : List Char} :
    Right (pre ++ (l, changed) :: post) ⟨(pre.length + 1 : ℕ), code, changed⟩ ↔
      UpToReturn code l.content := by
  constructor
  · rintro ⟨n, l', hn, hl, hcode⟩
    change ((pre.length + 1 : ℕ) : ℤ) = n + 1 at hn
    have hlength : n = pre.length := by omega
    rw [hlength, List.getElem?_append_right le_rfl, Nat.sub_self] at hl
    obtain ⟨rfl, -⟩ := Prod.mk.inj (Option.some.inj hl)
    exact hcode
  · intro hcode
    refine ⟨pre.length, l, by simp, ?_, hcode⟩
    rw [List.getElem?_append_right le_rfl, Nat.sub_self]
    rfl

/-- The lines of the head that a list of edits shows. -/
def marks (edits : List Edit) : List (Line × Bool) :=
  (edits.filter Edit.onHead).map fun e => (e.line, decide (e.mark = .added))

theorem marks_deleted {e : Edit} (h : e.mark = .deleted) (edits : List Edit) :
    marks (e :: edits) = marks edits := by
  simp [marks, Edit.onHead, h]

theorem marks_shown {e : Edit} (h : e.mark ≠ .deleted) (edits : List Edit) :
    marks (e :: edits) = (e.line, decide (e.mark = .added)) :: marks edits := by
  simp [marks, Edit.onHead, h]

theorem foldl_edits (edits : List Edit) (w : Walk) :
    ((edits.flatMap Edit.print).flatMap pieces).foldl Walk.read w = edits.foldl Walk.edit w := by
  induction edits generalizing w with
  | nil => rfl
  | cons e edits ih =>
      rw [List.flatMap_cons, List.flatMap_append, List.foldl_append, List.foldl_cons, ih]
      rfl

/-- The lines of a hunk are numbered from where the walk stands, and the first one that is
not whole spoils the rows. -/
theorem edits_right (edits : List Edit) (pre post : List (Line × Bool)) (w : Walk)
    (hnumber : marks edits ≠ [] → w.number = pre.length + 1)
    (hquiet : ∀ e ∈ edits, e.mark = .deleted → Quiet e.line.content) :
    (∀ r ∈ (edits.foldl Walk.edit w).rows, Right (pre ++ marks edits ++ post) r) ↔
      (∀ r ∈ w.rows, Right (pre ++ marks edits ++ post) r) ∧
        ∀ e ∈ edits, e.mark ≠ .deleted → Whole e.line.content := by
  induction edits generalizing pre w with
  | nil => simp
  | cons e edits ih =>
      have hrest := fun f hf => hquiet f (List.mem_cons_of_mem e hf)
      rw [List.foldl_cons]
      by_cases hmark : e.mark = .deleted
      · rw [edit_deleted hmark (hquiet e List.mem_cons_self hmark), marks_deleted hmark,
          ih pre w (by rwa [marks_deleted hmark] at hnumber) hrest]
        simp [hmark]
      · have hw : w.number = pre.length + 1 := hnumber (by simp [marks_shown hmark])
        have hne : w.number ≠ 0 := by omega
        have hassoc : pre ++ marks (e :: edits) ++ post =
            (pre ++ [(e.line, decide (e.mark = .added))]) ++ marks edits ++ post := by
          simp [marks_shown hmark]
        have hplace : pre ++ marks (e :: edits) ++ post =
            pre ++ (e.line, decide (e.mark = .added)) :: (marks edits ++ post) := by
          simp [marks_shown hmark]
        by_cases hwhole : Whole e.line.content
        · obtain ⟨code, hcode, hshow⟩ := edit_whole hmark hwhole w
          have hnext : marks edits ≠ [] → (w.show code (decide (e.mark = .added))).number =
              (pre ++ [(e.line, decide (e.mark = .added))]).length + 1 := by
            intro _
            rw [show_of_ne hne, hw]
            simp
          rw [hshow, hassoc, ih _ _ hnext hrest, ← hassoc, show_of_ne hne, hw]
          have hlast := (@right_last pre (marks edits ++ post) e.line
            (decide (e.mark = .added)) _).mpr hcode
          rw [← hplace] at hlast
          simp only [List.forall_mem_append, List.forall_mem_singleton, List.forall_mem_cons]
          constructor
          · rintro ⟨⟨hrows, -⟩, hedits⟩
            exact ⟨hrows, fun _ => hwhole, hedits⟩
          · rintro ⟨hrows, -, hedits⟩
            exact ⟨⟨hrows, hlast⟩, hedits⟩
        · obtain ⟨code, hcode, hrows⟩ := edit_broken hmark hwhole w
          have hkept : (w.show code (decide (e.mark = .added))).rows <+:
              (edits.foldl Walk.edit (w.edit e)).rows := by
            rw [← foldl_edits]
            exact hrows.trans (rows_foldl _ _)
          rw [show_of_ne hne, hw] at hkept
          constructor
          · intro hright
            have hspoiled := hright _ (hkept.subset (List.mem_append_right _
              (List.mem_singleton_self _)))
            rw [hplace] at hspoiled
            exact absurd (right_last.mp hspoiled) hcode
          · rintro ⟨-, hedits⟩
            exact absurd (hedits e List.mem_cons_self hmark) hwhole

theorem plain_of_ascii {c : Char} (hlow : 32 ≤ c.toNat) (hhigh : c.toNat < 127) :
    Text.isLineBreak c = false := by
  simp only [Text.isLineBreak, Bool.or_eq_false_iff, Bool.and_eq_false_iff, decide_eq_false_iff_not,
    beq_eq_false_iff_ne]
  omega

theorem toDigits_plain (n : ℕ) : ∀ c ∈ Nat.toDigits 10 n, Text.isLineBreak c = false := by
  intro c hc
  have hdigit := Nat.isDigit_of_mem_toDigits (by decide) (by decide) hc
  simp only [Char.isDigit, Bool.and_eq_true, decide_eq_true_eq, UInt32.le_iff_toNat_le] at hdigit
  obtain ⟨hlow, hhigh⟩ := hdigit
  change 48 ≤ c.toNat at hlow
  change c.toNat ≤ 57 at hhigh
  exact plain_of_ascii (by omega) (by omega)

theorem range_plain (terse : Bool) (before count : ℕ) :
    ∀ c ∈ UnifiedDiff.range terse before count, Text.isLineBreak c = false := by
  by_cases h : terse = true ∧ count = 1
  · rw [UnifiedDiff.range, if_pos h]
    exact toDigits_plain _
  · rw [UnifiedDiff.range, if_neg h, List.forall_mem_append, List.forall_mem_cons]
    exact ⟨toDigits_plain _, by decide, toDigits_plain _⟩

theorem header_append (h : Hunk) (old new : ℕ) (rest : List Char) :
    ({ h with heading := rest } : Hunk).header old new =
      ({ h with heading := [] } : Hunk).header old new ++ rest := by
  change _ ++ rest = (_ ++ []) ++ rest
  rw [List.append_nil]

theorem header_plain (h : Hunk) (old new : ℕ) :
    ∀ c ∈ ({ h with heading := [] } : Hunk).header old new, Text.isLineBreak c = false := by
  change ∀ c ∈ (((("@@ -".toList ++ _) ++ " +".toList) ++ _) ++ " @@".toList) ++ [], _
  simp only [List.forall_mem_append]
  exact ⟨⟨⟨⟨⟨Text.plain_of_all (by decide), range_plain _ _ _⟩, Text.plain_of_all (by decide)⟩,
    range_plain _ _ _⟩, Text.plain_of_all (by decide)⟩, by simp⟩

/-- The header of a hunk sets the number of its first line. -/
theorem read_header (h : Hunk) (old new : ℕ) (w : Walk) (hquiet : Quiet h.heading)
    (hread : ∀ p ∈ pieces (h.header old new), readable p = true) :
    (pieces (h.header old new)).foldl Walk.read w =
      ⟨Patch.rangeStart new (h.edits.filter Edit.onHead).length, w.rows⟩ := by
  obtain ⟨p, ps, hp, hrun, -⟩ := Text.pieces_append (header_plain h old new) h.heading
  rw [← header_append, ← header_append] at hrun
  change pieces (h.header old new) = _ at hrun
  have hheader := Patch.header?_header h old new p
  rw [hrun, List.forall_mem_cons, readable, hheader, Option.all_some,
    Option.isSome_iff_exists] at hread
  obtain ⟨⟨value, hvalue⟩, -⟩ := hread
  have hsilent : ∀ l ∈ ps, Silent l := by
    intro l hl
    exact hquiet l (by rw [hp]; exact hl)
  rw [hrun, List.foldl_cons, foldl_silent hsilent, read_headed hheader, hvalue,
    Option.getD_some]
  rw [Patch.int_toDigits hvalue]

theorem marked_eq (h : Hunk) : h.marked = h.skipped.map (fun l => (l, false)) ++ marks h.edits :=
  rfl

/-- The rows of a diff are right as far as its lines of the head are whole. -/
theorem hunks_right (hs : List Hunk) (old : ℕ) (pre post : List (Line × Bool)) (w : Walk)
    (hquiet : ∀ h ∈ hs, Quiet h.heading ∧
      ∀ e ∈ h.edits, e.mark = .deleted → Quiet e.line.content)
    (hread : ∀ p ∈ (printHunks old pre.length hs).flatMap pieces, readable p = true) :
    (∀ r ∈ (((printHunks old pre.length hs).flatMap pieces).foldl Walk.read w).rows,
        Right (pre ++ hs.flatMap Hunk.marked ++ post) r) ↔
      (∀ r ∈ w.rows, Right (pre ++ hs.flatMap Hunk.marked ++ post) r) ∧
        ∀ h ∈ hs, ∀ e ∈ h.edits, e.mark ≠ .deleted → Whole e.line.content := by
  induction hs generalizing old pre w with
  | nil => simp [printHunks]
  | cons h hs ih =>
      obtain ⟨hheading, hedits⟩ := hquiet h List.mem_cons_self
      let before := pre ++ h.skipped.map fun l => (l, false)
      have hbefore : before.length = pre.length + h.skipped.length := by simp [before]
      have hafter : pre ++ h.marked = before ++ marks h.edits := by
        simp [before, marked_eq]
      have hlength : (pre ++ h.marked).length = pre.length + h.marked.length :=
        List.length_append
      rw [printHunks, List.flatMap_cons, List.flatMap_append, ← hlength, List.forall_mem_append,
        List.forall_mem_append] at hread
      rw [printHunks, List.flatMap_cons, List.flatMap_append, ← hlength, List.foldl_append,
        List.foldl_append, read_header h _ _ w hheading hread.1, foldl_edits, List.flatMap_cons,
        ← List.append_assoc pre,
        ih (old + h.base.length) (pre ++ h.marked) _
          (fun k hk => hquiet k (List.mem_cons_of_mem h hk)) hread.2.2,
        hafter, List.append_assoc (before ++ marks h.edits)]
      have hnumber : marks h.edits ≠ [] → Patch.rangeStart (pre.length + h.skipped.length)
          (h.edits.filter Edit.onHead).length = before.length + 1 := by
        intro hne
        have hcount : (h.edits.filter Edit.onHead).length ≠ 0 := by
          intro hzero
          exact hne (by rw [marks, List.length_eq_zero_iff.mp hzero]; rfl)
        rw [Patch.rangeStart, if_neg hcount, hbefore]
      rw [edits_right h.edits before _ _ hnumber hedits, List.forall_mem_cons, and_assoc]

/-- The rows of a genuine diff are faithful to the head where they are right. -/
theorem faithful_iff {base head patch : List Char} {d : Diff} (h : Genuine base head patch d)
    (rows : List Row) : Faithful head d rows ↔ ∀ r ∈ rows, Right d.marked r := by
  apply forall₂_congr
  intro r _
  apply exists₂_congr
  intro n l
  rw [h.head, Diff.head, List.getElem?_map, Diff.IsAdded, Option.map_eq_some_iff]
  constructor
  · rintro ⟨hline, ⟨⟨l', added⟩, hmarked, rfl⟩, hcode, hadded⟩
    rw [hmarked] at hadded
    have hchanged : r.changed = added := by
      rw [Bool.eq_iff_iff, hadded]
      simp
    exact ⟨hline, by rw [hmarked, hchanged], hcode⟩
  · rintro ⟨hline, hmarked, hcode⟩
    refine ⟨hline, ⟨_, hmarked, rfl⟩, hcode, ?_⟩
    rw [hmarked]
    simp

theorem readable_nil : readable [] = true :=
  rfl

/-- What a genuine diff prints is read as the patch is, with or without its last newline. -/
theorem headRows_print {base head patch : List Char} {d : Diff} (h : Genuine base head patch d)
    {rows : List Row} (hrows : headRows patch = .ok rows) :
    (∀ p ∈ (printHunks 0 0 d.hunks).flatMap pieces, readable p = true) ∧
      rows = (((printHunks 0 0 d.hunks).flatMap pieces).foldl Walk.read {}).rows := by
  rw [headRows] at hrows
  split_ifs at hrows with hread
  obtain rfl := Except.ok.inj hrows
  rw [List.all_eq_true] at hread
  have hlines : (printHunks 0 0 d.hunks).flatMap pieces = Text.splitlines d.print :=
    (Text.splitlines_lines _).symm
  rw [hlines]
  rcases h.patch with hpatch | hpatch
  · rw [hpatch]
    exact ⟨hread, rfl⟩
  · rw [hpatch]
    rcases Text.splitlines_last patch with hlast | hlast
    · rw [hlast]
      exact ⟨hread, rfl⟩
    · rw [hlast, List.foldl_append, List.forall_mem_append, List.forall_mem_singleton]
      have hempty : ∀ l ∈ [([] : List Char)], Silent l := by
        simpa using silent_nil
      rw [foldl_silent hempty]
      exact ⟨⟨hread, readable_nil⟩, rfl⟩

/-- The rows of a genuine diff whose other lines are quiet are faithful exactly when its
lines of the head are whole. -/
theorem headRows_faithful_iff {base head patch : List Char} {d : Diff}
    (h : Genuine base head patch d) (hquiet : HiddenQuiet d) {rows : List Row}
    (hrows : headRows patch = .ok rows) : Faithful head d rows ↔ ShownWhole d := by
  obtain ⟨hread, rfl⟩ := headRows_print h hrows
  have hright := hunks_right d.hunks 0 [] (d.rest.map fun l => (l, false)) {} hquiet hread
  rw [faithful_iff h]
  simpa [Diff.marked, ShownWhole] using hright

end Diffs

end Prism.Policy
