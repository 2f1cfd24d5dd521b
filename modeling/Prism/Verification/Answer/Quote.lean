import Prism.Foundation.Runs
import Prism.Verification.Answer.Echo
import Prism.Model.Evidence

/-! # Quotes of a contract and the gaps between supplied rows -/

namespace Prism.Policy

open OutputSchema

/-! ## Statements -/

/-- Rows whose line numbers follow each other. -/
def Unbroken (rows : List Row) : Prop :=
  rows.IsChain fun r s => s.line = r.line + 1

/-- A quote is found in one supplied text, or in the text of unbroken rows of one file. -/
def Contiguous (c : Context) (quote : List Char) : Prop :=
  (∃ text ∈ supplied c, quote <:+: text) ∨
  ∃ f ∈ c.heldFiles, ∃ rows, rows <:+: f.lines ∧ Unbroken rows ∧
    collapse quote <:+: joinedText (rows.map Row.code)

/-- The quote is found in one supplied text, or no row is missing between the rows of a file
whose joined text has it. -/
def Unstitched (c : Context) (quote : List Char) : Prop :=
  (∃ text ∈ supplied c, quote <:+: text) ∨
  ∀ f ∈ c.heldFiles, collapse quote <:+: joinedText (f.lines.map Row.code) → Unbroken f.lines

/-- The rows of the files, cut where a line is missing between two of them. -/
def unbrokenBlocks (c : Context) : List (List (List Char)) :=
  c.heldFiles.flatMap fun f =>
    (f.lines.splitBy fun r s => s.line = r.line + 1).map fun run => run.map Row.code

/-! ## The text of unbroken rows -/

/-- Some lines that follow each other have a text that is found in the text of all. -/
theorem joinedText_within {some all : List (List Char)} (h : some <:+: all) :
    joinedText some <:+: joinedText all := by
  obtain ⟨pre, post, rfl⟩ := h
  refine Text.join_infix [' '] ?_
  simp only [List.map_append, List.filter_append]
  exact List.infix_append _ _ _

theorem quoteSupported_iff {quote : List Char} {texts : List (List Char)}
    {blocks : List (List (List Char))} :
    quoteSupported quote texts blocks = true ↔ collapse quote ≠ [] ∧
      ((∃ text ∈ texts, quote <:+: text) ∨
        ∃ lines ∈ blocks, collapse quote <:+: joinedText lines) := by
  simp [quoteSupported, Text.contains_iff]

/-- Where nothing is joined over a gap, a supported quote is contiguous, and all contiguous
quotes are supported. -/
theorem supported_unbroken_iff {c : Context} {quote : List Char} (hquote : collapse quote ≠ []) :
    quoteSupported quote (supplied c) (unbrokenBlocks c) = true ↔ Contiguous c quote := by
  rw [quoteSupported_iff, and_iff_right hquote, Contiguous]
  refine or_congr_right ?_
  simp only [unbrokenBlocks, List.mem_flatMap, List.mem_map]
  constructor
  · rintro ⟨_, ⟨f, hf, run, hrun, rfl⟩, hfound⟩
    refine ⟨f, hf, run, List.splitBy_infix hrun, ?_, hfound⟩
    exact (List.isChain_of_mem_splitBy hrun).imp fun r s h => of_decide_eq_true h
  · rintro ⟨f, hf, rows, hrows, hunbroken, hfound⟩
    have hne : rows ≠ [] := by
      rintro rfl
      exact hquote (List.infix_nil.mp hfound)
    obtain ⟨run, hrun, hinfix⟩ := List.infix_splitBy
      (r := fun r s : Row => decide (s.line = r.line + 1))
      (hunbroken.imp fun r s h => decide_eq_true h) hne hrows
    refine ⟨_, ⟨f, hf, run, hrun, rfl⟩, hfound.trans (joinedText_within ?_)⟩
    exact hinfix.map Row.code

/-! ## Main result -/

variable {tools : Tools} {b : InputBundle}

/-- An issue is accepted with supported words only. -/
theorem validateIssue_quote {issue : Issue} {entry : Entry}
    (h : validateIssue tools b issue = .ok entry) (hquote : issue.contractQuote.1 ≠ []) :
    quoteSupported issue.contractQuote.1 (supplied b.context)
      (b.context.heldFiles.map fun f => f.lines.map Row.code) = true := by
  simp only [validateIssue, Checked.bind_eq_ok] at h
  obtain ⟨_, -, _, -, _, -, _, -, _, -, _, -, _, -, _, -, _, -, _, hchecked, -⟩ := h
  rw [checkQuote, require_eq_ok, decide_eq_true_eq] at hchecked
  exact hchecked.resolve_left hquote

/-- What an issue is accepted with is contiguous where its file has no gap. -/
theorem contiguous_of_unstitched {issue : Issue} {entry : Entry}
    (h : validateIssue tools b issue = .ok entry) (hquote : issue.contractQuote.1 ≠ [])
    (hunstitched : Unstitched b.context issue.contractQuote.1) :
    Contiguous b.context issue.contractQuote.1 := by
  obtain ⟨-, htext | ⟨_, hlines, hfound⟩⟩ :=
    quoteSupported_iff.mp (validateIssue_quote h hquote)
  · exact .inl htext
  rcases hunstitched with htext | hunbroken
  · exact .inl htext
  · obtain ⟨f, hf, rfl⟩ := List.mem_map.mp hlines
    exact .inr ⟨f, hf, f.lines, List.infix_rfl, hunbroken f hf hfound, hfound⟩

/-- The quote of an accepted issue is contiguous where nothing that has it was joined over a
gap. -/
theorem quote_contiguous {raw : List Char} {r : Result} {output : ReviewOutput}
    (h : validateResult tools raw b = .ok r)
    (houtput : validateJson ReviewOutput.codec (stripApiMetadata raw) = some output) :
    ∀ issue ∈ output.issues.1, issue.contractQuote.1 ≠ [] →
      Unstitched b.context issue.contractQuote.1 →
      Contiguous b.context issue.contractQuote.1 := by
  intro issue hissue hquote hunstitched
  simp only [validateResult, Checked.bind_eq_ok, require_eq_ok, found_eq_ok] at h
  obtain ⟨_, -, output', houtput', entries, hentries, -⟩ := h
  obtain rfl := Option.some.inj (houtput.symm.trans houtput')
  obtain ⟨entry, -, hentry⟩ := Checked.exists_of_mapM hentries hissue
  exact contiguous_of_unstitched hentry hquote hunstitched

/-! ## A file of two hunks -/

section Executions

def hunksPatch : List Json.Member :=
  [("filename".toList, .str "a.py".toList),
    ("patch".toList, .str "@@ -1 +1 @@\n+a\n@@ -9 +9 @@\n+b".toList)]

/-- What is shown of the two hunks. -/
def hunks : InputBundle where
  context :=
    { files := [⟨['f', '1'], ['p', 'y'], .changed, [⟨1, ['a'], true⟩, ⟨9, ['b'], true⟩]⟩]
      purpose := none
      standards := []
      behaviorContract := none }
  anchors := [(['f', '1'], ⟨['a', '.', 'p', 'y'], [1, 9]⟩)]
  omitted := 0
  coverage := .null

example : (prepare [] [] maxFile maxInput none [hunksPatch] none).toOption.map
    (fun e => (e.bundle.context, e.anchors)) = some (hunks.context, hunks.anchors) := by
  decide +kernel

def quoting (quote : SizedText 0 240) : Issue :=
  { concern with contractQuote := quote }

theorem oneWord_sized : 0 ≤ ['a'].length ∧ ['a'].length ≤ 240 := by
  decide

theorem twoWords_sized : 0 ≤ ['a', ' ', 'b'].length ∧ ['a', ' ', 'b'].length ≤ 240 := by
  decide

theorem quotations_sized : 0 ≤ [quoting ⟨['a'], oneWord_sized⟩,
    quoting ⟨['a', ' ', 'b'], twoWords_sized⟩].length ∧
    [quoting ⟨['a'], oneWord_sized⟩, quoting ⟨['a', ' ', 'b'], twoWords_sized⟩].length ≤ 10 := by
  decide

/-- An answer that quotes a row, and both rows. -/
def quotations : ReviewOutput :=
  { noFindings with issues :=
      ⟨[quoting ⟨['a'], oneWord_sized⟩, quoting ⟨['a', ' ', 'b'], twoWords_sized⟩],
        quotations_sized⟩ }

theorem quotations_accepted :
    ∃ r, validateResult plainTools (dumpJson ReviewOutput.codec quotations) hunks = .ok r := by
  refine validateResult_dumpJson_isOk.mpr ⟨by decide +kernel, ?_⟩
  have hvalid : ∀ issue ∈ quotations.issues.1,
      (validateIssue plainTools hunks issue).toOption.isSome = true := by
    decide +kernel
  intro issue hissue
  have h := hvalid issue hissue
  cases hentry : validateIssue plainTools hunks issue with
  | error e => simp [hentry, Except.toOption] at h
  | ok entry => exact ⟨entry, rfl⟩

/-- The words of one row are contiguous. -/
theorem quote_contiguous_row : Contiguous hunks.context ['a'] := by
  obtain ⟨r, hr⟩ := quotations_accepted
  exact quote_contiguous hr (read_output _) (quoting ⟨['a'], oneWord_sized⟩)
    List.mem_cons_self (by decide) (.inl ⟨['a'], by decide +kernel, List.infix_rfl⟩)

/-- The words of two rows are accepted over the gap between them. -/
theorem stitched_quote_accepted : ∃ raw r output issue,
    validateResult plainTools raw hunks = .ok r ∧
      validateJson ReviewOutput.codec (stripApiMetadata raw) = some output ∧
      issue ∈ output.issues.1 ∧ issue.contractQuote.1 ≠ [] ∧
      ¬ Contiguous hunks.context issue.contractQuote.1 := by
  obtain ⟨r, hr⟩ := quotations_accepted
  refine ⟨_, r, _, quoting ⟨['a', ' ', 'b'], twoWords_sized⟩, hr, read_output _, by simp [quotations],
    by decide, ?_⟩
  rw [← supported_unbroken_iff (by decide +kernel)]
  decide +kernel

end Executions

end Prism.Policy
