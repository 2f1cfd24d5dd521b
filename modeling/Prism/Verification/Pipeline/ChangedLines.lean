import Prism.Verification.Evidence.Lines
import Prism.Verification.Pipeline.Reading

/-! Which lines `changed_lines` finds in a genuine diff. -/

namespace Prism.Pipeline

open UnifiedDiff (Line Mark Edit Hunk Diff Genuine printHunks noNewline)
open Text (Whole pieces splitlines)
open Policy (marks)

/-! ## Statements -/

def additions (d : Diff) : ℕ :=
  (d.hunks.flatMap Hunk.edits).countP fun e => e.mark = .added

def deletions (d : Diff) : ℕ :=
  (d.hunks.flatMap Hunk.edits).countP fun e => e.mark = .deleted

/-- The numbers are those of the added lines of the head. -/
def Names (d : Diff) (found : Finset ℕ) : Prop :=
  ∀ n, n ∈ found ↔ ∃ m, n = m + 1 ∧ d.IsAdded m

/-- The text has no line boundary but newlines and pairs CR LF. -/
def NewlinesOnly (text : List Char) : Prop :=
  ∀ a c b, text = a ++ c :: b → Text.isLineBreak c = true →
    c = '\n' ∨ c = '\r' ∧ b.head? = some '\n'

/-- `changed_lines`, given the true numbers of additions and deletions. -/
def decoded (patch : List Char) (d : Diff) : Except Fault (Option (Finset ℕ)) :=
  changedLines (.str patch) (.int (additions d)) (.int (deletions d))

/-- The decoding returns nothing or exactly the added lines, and the added lines wherever
nothing but newlines can be taken for a line boundary. -/
structure Exact (patch : List Char) (d : Diff) : Prop where
  returned : decoded patch d = .ok none ∨ ∃ found, decoded patch d = .ok (some found) ∧ Names d found
  complete : d.hunks ≠ [] → patch.length ≤ maxFile → NewlinesOnly patch →
    ∃ found, decoded patch d = .ok (some found) ∧ Names d found

/-- What `splitlines` makes of a line: the part before the first boundary in it. -/
def first (line : List Char) : List Char :=
  (pieces line).headD []

/-- The parts behind the other boundaries of a line. -/
def fragments (line : List Char) : List (List Char) :=
  (pieces line).tail

/-- `int` takes the numbers of every printed header. -/
def Numbered (d : Diff) : Prop :=
  ∀ line ∈ printHunks 0 0 d.hunks, ∀ h, Patch.header? (first line) = some h → numbers h ≠ none

/-- No fragment of a printed line opens a hunk, and the numbers of the headers are short. -/
structure Unequivocal (d : Diff) : Prop where
  fragments : ∀ line ∈ printHunks 0 0 d.hunks, ∀ f ∈ fragments line, Patch.header? f = none
  numbers : Numbered d

/-! ## Added lines -/

section Added

/-- The numbers of the added ones of some lines that are numbered from `k`. -/
def addedFrom (k : ℕ) : List (Line × Bool) → Finset ℕ
  | [] => ∅
  | l :: ls => if l.2 then insert k (addedFrom (k + 1) ls) else addedFrom (k + 1) ls

theorem mem_addedFrom {k n : ℕ} {ls : List (Line × Bool)} :
    n ∈ addedFrom k ls ↔ ∃ i, n = k + i ∧ ls[i]?.map Prod.snd = some true := by
  induction ls generalizing k with
  | nil => simp [addedFrom]
  | cons l ls ih =>
      have hrest : n ∈ addedFrom (k + 1) ls ↔
          ∃ i, n = k + (i + 1) ∧ (l :: ls)[i + 1]?.map Prod.snd = some true := by
        rw [ih]
        simp [Nat.add_comm, Nat.add_left_comm]
      have hsplit : (∃ i, n = k + i ∧ (l :: ls)[i]?.map Prod.snd = some true) ↔
          (n = k ∧ l.2 = true) ∨ n ∈ addedFrom (k + 1) ls := by
        rw [hrest]
        constructor
        · rintro ⟨i, hn, hl⟩
          cases i with
          | zero => exact .inl ⟨hn, by simpa using hl⟩
          | succ i => exact .inr ⟨i, hn, hl⟩
        · rintro (⟨hn, hl⟩ | ⟨i, hn, hl⟩)
          · exact ⟨0, hn, by simpa using hl⟩
          · exact ⟨i + 1, hn, hl⟩
      rw [hsplit, addedFrom]
      cases l.2 with
      | true => simp
      | false => simp

theorem addedFrom_append (k : ℕ) (ls ls' : List (Line × Bool)) :
    addedFrom k (ls ++ ls') = addedFrom k ls ∪ addedFrom (k + ls.length) ls' := by
  induction ls generalizing k with
  | nil => simp [addedFrom]
  | cons l ls ih =>
      rw [List.cons_append, addedFrom, addedFrom, ih, List.length_cons,
        Nat.add_right_comm, Nat.add_assoc k]
      cases l.2 with
      | true => simp [Finset.insert_union]
      | false => simp

theorem addedFrom_kept (k : ℕ) (ls : List Line) : addedFrom k (ls.map fun l => (l, false)) = ∅ := by
  induction ls generalizing k with
  | nil => rfl
  | cons l ls ih => exact ih (k + 1)

theorem names_marked (d : Diff) : Names d (addedFrom 1 d.marked) := by
  intro n
  rw [mem_addedFrom]
  simp only [Nat.add_comm 1, Diff.IsAdded]

theorem names_hunks (d : Diff) : Names d (addedFrom 1 (d.hunks.flatMap Hunk.marked)) := by
  have h := names_marked d
  rwa [Diff.marked, addedFrom_append, addedFrom_kept, Finset.union_empty] at h

end Added

/-! ## Genuine hunks -/

section Hunks

theorem first_cons {line p : List Char} {ps : List (List Char)} (h : pieces line = p :: ps) :
    first line = p := by
  rw [first, h]
  rfl

theorem pieces_eq (line : List Char) : pieces line = first line :: fragments line := by
  obtain ⟨p, ps, hp, -⟩ := @Text.pieces_append [] (by simp) line
  rw [first, fragments, hp]
  rfl

/-- What is printed of an edit is a line with its sign, and a note behind it perhaps. -/
theorem print_first (e : Edit) : ∃ code,
    e.print.map first = (e.mark.sign :: code) :: if e.line.ended then [] else [noNewline] := by
  obtain ⟨code, ps, -, hsign⟩ := Policy.pieces_sign e.mark e.line.content
  refine ⟨code, ?_⟩
  rw [Edit.print, List.map_cons, first_cons hsign]
  cases e.line.ended with
  | true => rfl
  | false => exact congrArg (fun l => _ :: [l]) (first_cons Policy.pieces_noNewline)

theorem noNewline_eq : ∃ text, noNewline = '\\' :: text :=
  ⟨_, rfl⟩

theorem reads_ending {next old new a r : ℕ} {lines : List (List Char)} {found : Finset ℕ}
    (ended : Bool) (h : Reads next old new lines a r found) :
    Reads next old new ((if ended then [] else [noNewline]) ++ lines) a r found := by
  obtain ⟨text, htext⟩ := noNewline_eq
  cases ended with
  | true => exact h
  | false =>
      rw [htext]
      exact .note h

theorem overruns_ending {old new : ℕ} {lines : List (List Char)} (ended : Bool)
    (h : Overruns old new lines) :
    Overruns old new ((if ended then [] else [noNewline]) ++ lines) := by
  obtain ⟨text, htext⟩ := noNewline_eq
  cases ended with
  | true => exact h
  | false =>
      rw [htext]
      exact .note h

def count (m : Mark) (edits : List Edit) : ℕ :=
  edits.countP fun e => e.mark = m

/-- The lines of a hunk are read, and what follows it. -/
theorem edits_read (edits : List Edit) (next : ℕ) {a r : ℕ} {lines : List (List Char)}
    {found : Finset ℕ} (h : Reads (next + (marks edits).length) 0 0 lines a r found) :
    Reads next (edits.filter Edit.onBase).length (edits.filter Edit.onHead).length
      ((edits.flatMap Edit.print).map first ++ lines) (a + count .added edits)
      (r + count .deleted edits) (addedFrom next (marks edits) ∪ found) := by
  induction edits generalizing next with
  | nil => simpa [marks, addedFrom, count] using h
  | cons e edits ih =>
      obtain ⟨code, hprint⟩ := print_first e
      rw [List.flatMap_cons, List.map_append, hprint, List.append_assoc, List.cons_append]
      cases hmark : e.mark with
      | kept =>
          have hmarks : marks (e :: edits) = (e.line, false) :: marks edits := by
            rw [Policy.marks_shown (by simp [hmark]), hmark]
            rfl
          have hnext := ih (next + 1) (by
            rw [hmarks, List.length_cons] at h
            rwa [Nat.add_right_comm, Nat.add_assoc])
          simpa [hmarks, addedFrom, count, hmark, Edit.onBase, Edit.onHead, Mark.sign] using
            Reads.kept (reads_ending e.line.ended hnext)
      | deleted =>
          have hmarks := Policy.marks_deleted hmark edits
          have hnext := ih next (hmarks ▸ h)
          simpa [hmarks, count, hmark, Edit.onBase, Edit.onHead, Mark.sign, Nat.add_assoc] using
            Reads.deleted (reads_ending e.line.ended hnext)
      | added =>
          have hmarks : marks (e :: edits) = (e.line, true) :: marks edits := by
            rw [Policy.marks_shown (by simp [hmark]), hmark]
            rfl
          have hnext := ih (next + 1) (by
            rw [hmarks, List.length_cons] at h
            rwa [Nat.add_right_comm, Nat.add_assoc])
          simpa [hmarks, addedFrom, count, hmark, Edit.onBase, Edit.onHead, Mark.sign,
            Finset.insert_union, Nat.add_assoc] using Reads.added (reads_ending e.line.ended hnext)

theorem edits_overrun (edits : List Edit) {lines : List (List Char)} (h : Overruns 0 0 lines) :
    Overruns (edits.filter Edit.onBase).length (edits.filter Edit.onHead).length
      ((edits.flatMap Edit.print).map first ++ lines) := by
  induction edits with
  | nil => exact h
  | cons e edits ih =>
      obtain ⟨code, hprint⟩ := print_first e
      have hnext := overruns_ending e.line.ended ih
      rw [List.flatMap_cons, List.map_append, hprint, List.append_assoc, List.cons_append]
      cases hmark : e.mark with
      | kept => simpa [hmark, Edit.onBase, Edit.onHead, Mark.sign] using Overruns.kept hnext
      | deleted => simpa [hmark, Edit.onBase, Edit.onHead, Mark.sign] using Overruns.deleted hnext
      | added => simpa [hmark, Edit.onBase, Edit.onHead, Mark.sign] using Overruns.added hnext

/-- The numbers of a printed header are read back, or one of them is too long. -/
theorem numbers_printed (terse : Bool) (old start new : ℕ) :
    let header : Patch.Header :=
      ⟨Patch.rangeCount terse old, Nat.toDigits 10 start, Patch.rangeCount terse new⟩
    numbers header = none ∨ numbers header = some (old, start, new) := by
  have hint : ∀ n, Text.int (Nat.toDigits 10 n) = none ∨ Text.int (Nat.toDigits 10 n) = some n := by
    intro n
    cases h : Text.int (Nat.toDigits 10 n) with
    | none => exact .inl rfl
    | some value => exact .inr (Patch.int_toDigits h ▸ rfl)
  have hcount : ∀ n, ((Patch.rangeCount terse n).map Text.int).getD (some 1) = none ∨
      ((Patch.rangeCount terse n).map Text.int).getD (some 1) = some n := by
    intro n
    rw [Patch.rangeCount]
    split_ifs with h
    · exact .inr (by simp [h.2])
    · exact hint n
  simp only [numbers]
  rcases hcount old with ho | ho
  · exact .inl (by simp [ho])
  rcases hint start with hs | hs
  · exact .inl (by simp [ho, hs])
  rcases hcount new with hn | hn
  · exact .inl (by simp [ho, hs, hn])
  · exact .inr (by simp [ho, hs, hn])

/-- The part of a printed header before a boundary in its heading is a header. -/
theorem header_first (h : Hunk) (old new : ℕ) : Patch.header? (first (h.header old new)) =
    some ⟨Patch.rangeCount h.terse (h.edits.filter Edit.onBase).length,
      Nat.toDigits 10 (Patch.rangeStart new (h.edits.filter Edit.onHead).length),
      Patch.rangeCount h.terse (h.edits.filter Edit.onHead).length⟩ := by
  obtain ⟨p, ps, -, hrun, -⟩ := Text.pieces_append (Policy.header_plain h old new) h.heading
  rw [← Policy.header_append, ← Policy.header_append] at hrun
  rw [first_cons hrun]
  exact Patch.header?_header h old new p

/-- Without the fragments a diff is read as what it is, unless a number is too long for `int`. -/
theorem hunks_read (hs : List Hunk) (old : ℕ) (pre : List (Line × Bool)) :
    Overruns 0 0 ((printHunks old pre.length hs).map first) ∨
      ∀ next, Reads next 0 0 ((printHunks old pre.length hs).map first)
        (count .added (hs.flatMap Hunk.edits)) (count .deleted (hs.flatMap Hunk.edits))
        (addedFrom (pre.length + 1) (hs.flatMap Hunk.marked)) := by
  induction hs generalizing old pre with
  | nil => exact .inr .done
  | cons h hs ih =>
      have hheader := header_first h (old + h.skipped.length) (pre.length + h.skipped.length)
      have hlength : (pre ++ h.marked).length = pre.length + h.marked.length :=
        List.length_append
      rw [printHunks, List.map_cons, List.map_append, ← hlength]
      rcases numbers_printed h.terse _ _ _ with hnone | hsome
      · exact .inl (.here hheader hnone)
      rcases ih (old + h.base.length) (pre ++ h.marked) with hover | hreads
      · exact .inl (.hunk hheader hsome (edits_overrun _ hover))
      right
      intro next
      have hstart : addedFrom (Patch.rangeStart (pre.length + h.skipped.length)
          (h.edits.filter Edit.onHead).length) (marks h.edits) =
          addedFrom (pre.length + 1 + h.skipped.length) (marks h.edits) := by
        by_cases hzero : (h.edits.filter Edit.onHead).length = 0
        · rw [marks, List.length_eq_zero_iff.mp hzero]
          rfl
        · rw [Patch.rangeStart, if_neg hzero, Nat.add_right_comm]
      have hset : addedFrom (pre.length + 1) ((h :: hs).flatMap Hunk.marked) =
          addedFrom (pre.length + 1 + h.skipped.length) (marks h.edits) ∪
            addedFrom ((pre ++ h.marked).length + 1) (hs.flatMap Hunk.marked) := by
        rw [List.flatMap_cons, addedFrom_append, hlength,
          Nat.add_right_comm pre.length h.marked.length, Policy.marked_eq, addedFrom_append,
          addedFrom_kept, Finset.empty_union, List.length_map]
      rw [hset, ← hstart, List.flatMap_cons, count, count, List.countP_append, List.countP_append,
        Nat.add_comm (h.edits.countP _), Nat.add_comm (h.edits.countP _)]
      exact .hunk hheader hsome (edits_read _ _ (hreads _))

end Hunks

/-! ## Genuine patches -/

section Patches

/-- The lines of a text hold no newline. -/
theorem newline_linesFrom {cur text : List Char} (hcur : '\n' ∉ cur) :
    ∀ l ∈ UnifiedDiff.linesFrom cur text, '\n' ∉ l.content := by
  induction text generalizing cur with
  | nil =>
      rw [UnifiedDiff.linesFrom]
      split_ifs with hnil
      · simp
      · simpa using hcur
  | cons c text ih =>
      rw [UnifiedDiff.linesFrom]
      by_cases hc : c = '\n'
      · rw [if_pos hc, List.forall_mem_cons]
        exact ⟨by simpa using hcur, ih List.not_mem_nil⟩
      · rw [if_neg hc]
        exact ih (by simp [hcur, Ne.symm hc])

theorem newline_edit {base head patch : List Char} {d : Diff} (hg : Genuine base head patch d)
    {h : Hunk} (hh : h ∈ d.hunks) {e : Edit} (he : e ∈ h.edits) : '\n' ∉ e.line.content := by
  by_cases hmark : e.mark = .added
  · have hmem : e.line ∈ UnifiedDiff.lines head := by
      rw [hg.head, Diff.head, Diff.marked, List.map_append, List.mem_append, List.map_flatMap,
        List.mem_flatMap]
      refine .inl ⟨h, hh, ?_⟩
      rw [Hunk.marked, List.map_append, List.mem_append, List.map_map, List.map_map]
      exact .inr (List.mem_map.mpr ⟨e, List.mem_filter.mpr ⟨he, by simp [Edit.onHead, hmark]⟩, rfl⟩)
    exact newline_linesFrom List.not_mem_nil _ hmem
  · have hmem : e.line ∈ UnifiedDiff.lines base := by
      rw [hg.base, Diff.base, List.mem_append, List.mem_flatMap]
      refine .inl ⟨h, hh, ?_⟩
      rw [Hunk.base, List.mem_append]
      exact .inr (List.mem_map.mpr ⟨e, List.mem_filter.mpr ⟨he, by simp [Edit.onBase, hmark]⟩, rfl⟩)
    exact newline_linesFrom List.not_mem_nil _ hmem

/-- Where no other boundary stands, a line is whole. -/
theorem whole_of_newlinesOnly {a l b : List Char} (h : NewlinesOnly (a ++ l ++ '\n' :: b))
    (hl : '\n' ∉ l) : Whole l := by
  -- a boundary of the line can only be a carriage return at its end
  have hlast : ∀ u c v, l = u ++ c :: v → Text.isLineBreak c = true → c = '\r' ∧ v = [] := by
    rintro u c v rfl hbreak
    have hnot : c ≠ '\n' := by
      rintro rfl
      exact hl (by simp)
    have htext : a ++ (u ++ c :: v) ++ '\n' :: b = (a ++ u) ++ c :: (v ++ '\n' :: b) := by simp
    rcases h _ _ _ htext hbreak with hnewline | ⟨hreturn, hnext⟩
    · exact absurd hnewline hnot
    · refine ⟨hreturn, ?_⟩
      cases v with
      | nil => rfl
      | cons d v =>
          have hd : d = '\n' := by simpa using hnext
          exact absurd (by simp [hd]) hl
  by_cases hplain : ∀ c ∈ l, Text.isLineBreak c = false
  · exact .inl hplain
  obtain ⟨c, hc, hbreak⟩ : ∃ c ∈ l, Text.isLineBreak c = true := by simpa using hplain
  obtain ⟨u, v, hsplit⟩ := List.append_of_mem hc
  obtain ⟨rfl, rfl⟩ := hlast u c v hsplit hbreak
  refine .inr ⟨u, hsplit, ?_⟩
  intro x hx
  obtain ⟨u', v', rfl⟩ := List.append_of_mem hx
  cases hxbreak : Text.isLineBreak x with
  | false => rfl
  | true =>
      have hend := (hlast u' x (v' ++ ['\r']) (by simpa using hsplit) hxbreak).2
      exact absurd hend (by simp)

/-- What stands in a line of the diff stands in the patch, with a newline behind it. -/
theorem whole_of_printed {base head patch : List Char} {d : Diff} (hg : Genuine base head patch d)
    (honly : NewlinesOnly patch) {pre l : List Char} (hmem : pre ++ l ∈ printHunks 0 0 d.hunks)
    (hl : '\n' ∉ l) : Whole l := by
  obtain ⟨before, after, hsplit⟩ := List.append_of_mem hmem
  have hprint : d.print = (before.flatMap (fun l => l ++ ['\n']) ++ pre) ++ l ++
      '\n' :: after.flatMap fun l => l ++ ['\n'] := by
    rw [Diff.print, hsplit]
    simp
  have hnewlines : NewlinesOnly d.print := by
    rcases hg.patch with hpatch | hpatch
    · rwa [hpatch]
    · rw [hpatch]
      intro a c b htext hbreak
      rcases List.eq_nil_or_concat b with rfl | ⟨b, x, rfl⟩
      · exact .inl (List.append_inj_right' htext rfl |> List.cons.inj |>.1.symm)
      · rw [List.concat_eq_append, ← List.cons_append, ← List.append_assoc] at htext
        have hpatch' := List.append_inj_left' htext rfl
        rcases honly a c b hpatch' hbreak with hnewline | ⟨hreturn, hnext⟩
        · exact .inl hnewline
        · refine .inr ⟨hreturn, ?_⟩
          rw [List.concat_eq_append, List.head?_append, hnext]
          rfl
  exact whole_of_newlinesOnly (hprint ▸ hnewlines) hl

theorem printed_edit {hs : List Hunk} {h : Hunk} (hh : h ∈ hs) {e : Edit} (he : e ∈ h.edits)
    (old new : ℕ) : [e.mark.sign] ++ e.line.content ∈ printHunks old new hs := by
  induction hs generalizing old new with
  | nil => cases hh
  | cons k hs ih =>
      rw [printHunks, List.mem_cons, List.mem_append]
      rcases List.mem_cons.mp hh with rfl | hh
      · exact .inr (.inl (List.mem_flatMap.mpr ⟨e, he, List.mem_cons_self⟩))
      · exact .inr (.inr (ih hh _ _))

theorem printed_heading {hs : List Hunk} {h : Hunk} (hh : h ∈ hs) (old new : ℕ) :
    ∃ pre, pre ++ h.heading ∈ printHunks old new hs := by
  induction hs generalizing old new with
  | nil => cases hh
  | cons k hs ih =>
      rcases List.mem_cons.mp hh with rfl | hh
      · refine ⟨({ h with heading := [] } : Hunk).header (old + h.skipped.length)
          (new + h.skipped.length), ?_⟩
        rw [printHunks, ← Policy.header_append]
        exact List.mem_cons_self
      · obtain ⟨pre, hpre⟩ := ih hh (old + k.base.length) (new + k.marked.length)
        refine ⟨pre, ?_⟩
        rw [printHunks, List.mem_cons, List.mem_append]
        exact .inr (.inr hpre)

theorem whole_hunks {base head patch : List Char} {d : Diff} (hg : Genuine base head patch d)
    (honly : NewlinesOnly patch) : ∀ h ∈ d.hunks, Whole h.heading ∧
      ∀ e ∈ h.edits, Whole e.line.content := by
  intro h hh
  obtain ⟨pre, hpre⟩ := printed_heading hh 0 0
  refine ⟨whole_of_printed hg honly hpre (hg.headings h hh), ?_⟩
  intro e he
  exact whole_of_printed hg honly (printed_edit hh he 0 0) (newline_edit hg hh he)

theorem printed_ne_nil (hs : List Hunk) (old new : ℕ) :
    [] ∉ (printHunks old new hs).map first := by
  induction hs generalizing old new with
  | nil => exact List.not_mem_nil
  | cons h hs ih =>
      have hheader := header_first h (old + h.skipped.length) (new + h.skipped.length)
      rw [printHunks, List.map_cons, List.map_append, List.mem_cons, List.mem_append]
      rintro (hnil | hmem | hmem)
      · rw [← hnil] at hheader
        cases hheader
      · rw [List.map_flatMap, List.mem_flatMap] at hmem
        obtain ⟨e, he, hmem⟩ := hmem
        obtain ⟨code, hprint⟩ := print_first e
        obtain ⟨text, htext⟩ := noNewline_eq
        rw [hprint, htext] at hmem
        cases hended : e.line.ended with
        | true => simp [hended] at hmem
        | false => simp [hended] at hmem
      · exact ih _ _ hmem

/-- The lines of a patch are the printed ones, with fragments between them. -/
theorem padded_patch {base head patch : List Char} {d : Diff} (hg : Genuine base head patch d)
    (hplain : ∀ line ∈ printHunks 0 0 d.hunks, ∀ f ∈ fragments line, Patch.header? f = none) :
    Padded ((printHunks 0 0 d.hunks).map first) (splitlines patch) := by
  have hpieces : ∀ ls : List (List Char), (∀ line ∈ ls, ∀ f ∈ fragments line,
      Patch.header? f = none) → Padded (ls.map first) (ls.flatMap pieces) := by
    intro ls
    induction ls with
    | nil => exact fun _ => .nil
    | cons l ls ih =>
        intro h
        obtain ⟨hl, hrest⟩ := List.forall_mem_cons.mp h
        rw [List.map_cons, List.flatMap_cons, pieces_eq l]
        exact .keep ((ih hrest).extras hl)
  have hprint : Padded ((printHunks 0 0 d.hunks).map first) (splitlines d.print) := by
    rw [Diff.print, Text.splitlines_lines]
    exact hpieces _ hplain
  rcases hg.patch with hpatch | hpatch
  · exact hpatch ▸ hprint
  rw [hpatch] at hprint
  rcases Text.splitlines_last patch with hlast | hlast
  · exact hlast ▸ hprint
  · rw [hlast] at hprint
    exact hprint.chop (printed_ne_nil _ 0 0)

/-- Where `int` takes the numbers, the diff reads as what it is. -/
theorem printed_reads {d : Diff} (hnumbered : Numbered d) :
    Reads 0 0 0 ((printHunks 0 0 d.hunks).map first) (additions d) (deletions d)
      (addedFrom 1 (d.hunks.flatMap Hunk.marked)) := by
  refine (hunks_read d.hunks 0 []).resolve_left (fun hover => ?_) 0
  obtain ⟨p, hp, h, hheader, hnone⟩ := hover.unnumbered
  obtain ⟨line, hline, rfl⟩ := List.mem_map.mp hp
  exact hnumbered line hline h hheader hnone

theorem numbered_of_reads {d : Diff}
    (hover : ¬Overruns 0 0 ((printHunks 0 0 d.hunks).map first)) : Numbered d := by
  have hreads := (hunks_read d.hunks 0 []).resolve_left hover 0
  intro line hline
  exact hreads.numbered _ (List.mem_map_of_mem hline)

theorem fragments_edit {e : Edit} (hwhole : Whole e.line.content) :
    ∀ line ∈ e.print, fragments line = [] := by
  obtain ⟨code, hcode, -⟩ := hwhole.pieces
  obtain ⟨p, ps, hp, hsign⟩ := Policy.pieces_sign e.mark e.line.content
  obtain ⟨-, rfl⟩ := List.cons.inj (hp.symm.trans hcode)
  intro line hline
  rw [Edit.print, List.mem_cons] at hline
  rcases hline with rfl | hline
  · rw [fragments, hsign]
    rfl
  · cases hended : e.line.ended with
    | true => simp [hended] at hline
    | false =>
        obtain rfl : line = noNewline := by simpa [hended] using hline
        rw [fragments, Policy.pieces_noNewline]
        rfl

theorem fragments_header {h : Hunk} (hwhole : Whole h.heading) (old new : ℕ) :
    fragments (h.header old new) = [] := by
  obtain ⟨code, hcode, -⟩ := hwhole.pieces
  obtain ⟨p, ps, hp, hrun, -⟩ := Text.pieces_append (Policy.header_plain h old new) h.heading
  obtain ⟨-, rfl⟩ := List.cons.inj (hp.symm.trans hcode)
  rw [← Policy.header_append, ← Policy.header_append] at hrun
  rw [fragments]
  exact congrArg List.tail hrun

/-- Whole lines have no fragments. -/
theorem fragments_whole {hs : List Hunk} (hwhole : ∀ h ∈ hs, Whole h.heading ∧
      ∀ e ∈ h.edits, Whole e.line.content) (old new : ℕ) :
    ∀ line ∈ printHunks old new hs, fragments line = [] := by
  induction hs generalizing old new with
  | nil => simp [printHunks]
  | cons h hs ih =>
      obtain ⟨⟨hheading, hedits⟩, hrest⟩ := List.forall_mem_cons.mp hwhole
      intro line hline
      rw [printHunks, List.mem_cons, List.mem_append] at hline
      rcases hline with rfl | hline | hline
      · exact fragments_header hheading _ _
      · obtain ⟨e, he, hline⟩ := List.mem_flatMap.mp hline
        exact fragments_edit (hedits e he) line hline
      · exact ih hrest _ _ line hline

/-- The lines of a patch with no other boundary are the printed ones. -/
theorem splitlines_patch {base head patch : List Char} {d : Diff} (hg : Genuine base head patch d)
    (honly : NewlinesOnly patch) :
    splitlines patch = (printHunks 0 0 d.hunks).map first := by
  have hprint : splitlines d.print = (printHunks 0 0 d.hunks).map first := by
    rw [Diff.print, Text.splitlines_lines, List.map_eq_flatMap]
    refine List.flatMap_congr fun line hline => ?_
    rw [pieces_eq, fragments_whole (whole_hunks hg honly) 0 0 line hline]
  rcases hg.patch with hpatch | hpatch
  · rw [← hpatch, hprint]
  rw [← hprint, hpatch]
  rcases Text.splitlines_last patch with hlast | hlast
  · exact hlast.symm
  · have hne := printed_ne_nil d.hunks 0 0
    rw [← hprint, hpatch, hlast] at hne
    exact absurd (by simp) hne

theorem headed_printed {d : Diff} (hne : d.hunks ≠ []) :
    Headed ((printHunks 0 0 d.hunks).map first) := by
  obtain ⟨h, hs, hd⟩ := List.exists_cons_of_ne_nil hne
  rw [hd]
  have hheader := header_first h (0 + h.skipped.length) (0 + h.skipped.length)
  exact ⟨_, List.mem_cons_self, by rw [hheader]; rfl⟩

/-- The decoding of a genuine patch is exact where it is not equivocal. -/
theorem exact_of_unequivocal {base head patch : List Char} {d : Diff}
    (hg : Genuine base head patch d) (h : patch.length ≤ maxFile → Unequivocal d) :
    Exact patch d := by
  constructor
  · cases hdecoded : decoded patch d with
    | error e =>
        obtain ⟨hlength, hover⟩ := changedLines_raises_iff.mp ⟨e, hdecoded⟩
        have hpadded := padded_patch hg (h hlength).fragments
        exact absurd hover
          (hpadded.not_overruns (printed_reads (h hlength).numbers) le_rfl le_rfl)
    | ok result =>
        cases result with
        | none => exact .inl rfl
        | some found =>
            obtain ⟨hlength, -, hreads⟩ := changedLines_some_iff.mp hdecoded
            have hpadded := padded_patch hg (h hlength).fragments
            obtain ⟨-, -, hfound⟩ :=
              hpadded.reads (printed_reads (h hlength).numbers) hreads le_rfl le_rfl
            exact .inr ⟨found, rfl, hfound rfl ▸ names_hunks d⟩
  · intro hne hlength honly
    have hreads := printed_reads (h hlength).numbers
    have hheaded := headed_printed hne
    rw [← splitlines_patch hg honly] at hreads hheaded
    exact ⟨_, changedLines_some_iff.mpr ⟨hlength, hheaded, hreads⟩, names_hunks d⟩

/-- The decoding of a genuine patch is exact where no fragment of a line opens a hunk and the
numbers of the headers are short; without other boundaries, only there. -/
theorem decoding_exact {base head patch : List Char} {d : Diff} (hg : Genuine base head patch d) :
    ((patch.length ≤ maxFile → Unequivocal d) → Exact patch d) ∧
      (NewlinesOnly patch → (Exact patch d ↔ (patch.length ≤ maxFile → Unequivocal d))) := by
  refine ⟨exact_of_unequivocal hg, fun honly => ⟨fun hexact hlength => ?_,
    exact_of_unequivocal hg⟩⟩
  constructor
  · intro line hline f hf
    rw [fragments_whole (whole_hunks hg honly) 0 0 line hline] at hf
    cases hf
  · refine numbered_of_reads fun hover => ?_
    rw [← splitlines_patch hg honly] at hover
    obtain ⟨e, he⟩ := changedLines_raises_iff.mpr ⟨hlength, hover⟩
    rcases hexact.returned with hnone | ⟨found, hsome, -⟩
    · cases he.symm.trans hnone
    · cases he.symm.trans hsome

end Patches

/-! ## Patches that read two ways -/

/-- One line is replaced, behind a line that holds form feeds. -/
def shifted (content : List Char) : Diff where
  hunks := [⟨[], [⟨.kept, ⟨content, true⟩⟩, ⟨.deleted, ⟨['u'], true⟩⟩, ⟨.added, ⟨['v'], true⟩⟩],
    [], true⟩]
  rest := []

def feeding : List Char :=
  "x\x0c y\x0c@@ -5,1 +7,1 @@".toList

def feedingPatch : List Char :=
  "@@ -1,2 +1,2 @@\n x\x0c y\x0c@@ -5,1 +7,1 @@\n-u\n+v".toList

theorem feeding_genuine : Genuine (feeding ++ "\nu\n".toList) (feeding ++ "\nv\n".toList)
    feedingPatch (shifted feeding) := by
  constructor
  · rfl
  · rfl
  · simp [shifted]
  · exact .inr rfl

/-- The added line is the second one, but the seventh is found. -/
theorem fed_line_shifted : Genuine (feeding ++ "\nu\n".toList) (feeding ++ "\nv\n".toList)
    feedingPatch (shifted feeding) ∧ ¬Exact feedingPatch (shifted feeding) := by
  refine ⟨feeding_genuine, ?_⟩
  intro h
  have hdecoded : decoded feedingPatch (shifted feeding) = .ok (some {7}) := by decide +kernel
  rcases h.returned with hnone | ⟨found, hsome, hnames⟩
  · cases hdecoded.symm.trans hnone
  · cases hdecoded.symm.trans hsome
    obtain ⟨m, hm, hadded⟩ := (hnames 7).mp (Finset.mem_singleton_self 7)
    obtain rfl : m = 6 := by omega
    cases hadded

/-- `"@@ -1,1 +1,2 @@\n-old\n+new\n+more"`. -/
def renewed : Diff where
  hunks := [⟨[], [⟨.deleted, ⟨"old".toList, true⟩⟩, ⟨.added, ⟨"new".toList, true⟩⟩,
    ⟨.added, ⟨"more".toList, true⟩⟩], [], false⟩]
  rest := []

def renewedPatch : List Char :=
  "@@ -1,1 +1,2 @@\n-old\n+new\n+more".toList

example : decoded renewedPatch renewed = .ok (some {2, 1}) :=
  rfl

theorem renewed_genuine :
    Genuine "old\n".toList "new\nmore\n".toList renewedPatch renewed := by
  constructor
  · rfl
  · rfl
  · simp [renewed]
  · exact .inr rfl

theorem decoding_exact_renewed : Exact renewedPatch renewed := by
  refine (decoding_exact renewed_genuine).1 fun _ => ⟨?_, ?_⟩
  · have hnone : (printHunks 0 0 renewed.hunks).all (fun line => (fragments line).isEmpty) =
        true := by decide +kernel
    intro line hline f hf
    rw [List.isEmpty_iff.mp (List.all_eq_true.mp hnone line hline)] at hf
    cases hf
  · have hshort : (printHunks 0 0 renewed.hunks).all (fun line =>
        (Patch.header? (first line)).all fun h => (numbers h).isSome) = true := by decide +kernel
    intro line hline h hheader hnumbers
    have hsome := List.all_eq_true.mp hshort line hline
    rw [hheader, Option.all_some, hnumbers] at hsome
    cases hsome

end Prism.Pipeline
