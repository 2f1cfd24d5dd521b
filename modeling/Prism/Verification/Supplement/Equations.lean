import Prism.Foundation.JsonSize
import Prism.Model.Supplement

/-! Rows beside their source, and what the notes take of a budget. -/

namespace Prism.Policy

/-! ## Rows -/

section Rows

variable {rows : List Row} {lines : Source}

theorem rowAt?_mem {n : ℤ} {r : Row} (h : rowAt? rows n = some r) : r ∈ rows ∧ r.line = n := by
  refine ⟨List.mem_reverse.mp (List.mem_of_find?_eq_some h), ?_⟩
  simpa using List.find?_some h

/-- Where no number is used twice, a row is the row of its number. -/
theorem rowAt?_of_mem (hnodup : (rows.map Row.line).Nodup) {r : Row} (hr : r ∈ rows) :
    rowAt? rows r.line = some r := by
  have hsome : (rowAt? rows r.line).isSome = true :=
    List.find?_isSome.mpr ⟨r, List.mem_reverse.mpr hr, by simp⟩
  obtain ⟨r', hr'⟩ := Option.isSome_iff_exists.mp hsome
  obtain ⟨hmem, hline⟩ := rowAt?_mem hr'
  rw [hr', List.inj_on_of_nodup_map hnodup hmem hr hline]

theorem lineAt_pos {n : ℤ} (hn : 1 ≤ n) : lineAt lines n = lines[(n - 1).toNat]? :=
  if_pos hn

/-- All rows are lines of the source. -/
def Agrees (rows : List Row) (lines : Source) : Prop :=
  ∀ r ∈ rows, r.line ≤ lines.length ∧ lineAt lines r.line = some r.code

theorem differs_false {ε : Type} {e : ε} {r : Row} (h : differs e lines r = .ok false) :
    r.line ≤ lines.length ∧ lineAt lines r.line = some r.code := by
  unfold differs at h
  split_ifs at h with hlong
  · exact nomatch h
  · split at h
    · exact nomatch h
    · rename_i code hcode
      have heq : code = r.code := by simpa using h
      exact ⟨not_lt.mp hlong, heq ▸ hcode⟩

/-- A row with a number from one on is compared with its line, or lies behind the source. -/
theorem differs_returns {ε : Type} (e : ε) (lines : Source) {r : Row} (hr : 1 ≤ r.line) :
    ∃ found, differs e lines r = .ok found := by
  unfold differs
  split_ifs with hlong
  · exact ⟨_, rfl⟩
  · have hlt : (r.line - 1).toNat < lines.length := by omega
    rw [lineAt_pos hr, List.getElem?_eq_getElem hlt]
    exact ⟨_, rfl⟩

theorem anyM_returns {α ε : Type} {f : α → Except ε Bool} {items : List α}
    (h : ∀ a ∈ items, ∃ b, f a = .ok b) : ∃ b, items.anyM f = .ok b := by
  induction items with
  | nil => exact ⟨false, rfl⟩
  | cons a items ih =>
      obtain ⟨b, hb⟩ := h a List.mem_cons_self
      rw [List.anyM_cons, hb]
      cases b with
      | true => exact ⟨true, rfl⟩
      | false => exact ih fun a' ha' => h a' (List.mem_cons_of_mem a ha')

theorem agrees_of_anyM {ε : Type} {e : ε} (h : rows.anyM (differs e lines) = .ok false) :
    Agrees rows lines := by
  induction rows with
  | nil => exact fun r hr => absurd hr List.not_mem_nil
  | cons r rows ih =>
      rw [List.anyM] at h
      cases hfirst : differs e lines r with
      | error e' =>
          rw [hfirst] at h
          exact nomatch h
      | ok b =>
          rw [hfirst] at h
          cases b with
          | true => exact nomatch h
          | false => exact List.forall_mem_cons.mpr ⟨differs_false hfirst, ih h⟩

/-- A completed file holds the lines of its source, numbered from one. -/
theorem completeRows_complete (h : Agrees rows lines) :
    (completeRows rows lines).map (fun r => (r.line, r.code)) =
      lines.zipIdx.map fun (code, i) => ((i : ℤ) + 1, code) := by
  rw [completeRows, List.map_map]
  apply List.map_congr_left
  rintro ⟨code, i⟩ hmem
  have hcode : lines[i]? = some code := List.mem_zipIdx_iff_getElem?.mp hmem
  cases hrow : rowAt? rows (i + 1) with
  | none => simp [hrow]
  | some r =>
      obtain ⟨hr, hline⟩ := rowAt?_mem hrow
      have hsource := (h r hr).2
      rw [hline, lineAt_pos (by omega), show ((i : ℤ) + 1 - 1).toNat = i by omega, hcode] at hsource
      simp [hrow, hline, Option.some.inj hsource]

theorem mem_completeRows {r : Row} : r ∈ completeRows rows lines ↔ ∃ (i : ℕ) (code : List Char),
    lines[i]? = some code ∧ (rowAt? rows ((i : ℤ) + 1)).getD ⟨(i : ℤ) + 1, code, false⟩ = r := by
  constructor
  · intro h
    obtain ⟨⟨code, i⟩, hmem, heq⟩ := List.mem_map.mp h
    exact ⟨i, code, List.mem_zipIdx_iff_getElem?.mp hmem, heq⟩
  · rintro ⟨i, code, hcode, heq⟩
    exact List.mem_map.mpr ⟨(code, i), List.mem_zipIdx_iff_getElem?.mpr hcode, heq⟩

theorem completeRows_kept (h : Agrees rows lines) {r : Row} (hr : rowAt? rows r.line = some r)
    (hline : 1 ≤ r.line) : r ∈ completeRows rows lines := by
  have hcode := (h r (rowAt?_mem hr).1).2
  rw [lineAt_pos hline] at hcode
  have hnumber : (((r.line - 1).toNat : ℕ) : ℤ) + 1 = r.line := by omega
  refine mem_completeRows.mpr ⟨(r.line - 1).toNat, r.code, hcode, ?_⟩
  rw [hnumber, hr, Option.getD_some]

theorem completeRows_new {r : Row} (h : r ∈ completeRows rows lines) :
    r ∈ rows ∨ r.changed = false := by
  obtain ⟨i, code, -, rfl⟩ := mem_completeRows.mp h
  cases hrow : rowAt? rows ((i : ℤ) + 1) with
  | none => exact Or.inr rfl
  | some r => exact Or.inl (rowAt?_mem hrow).1

/-- The numbers of a completed file. -/
theorem completeRows_lines (h : Agrees rows lines) :
    (completeRows rows lines).map Row.line =
      (List.range lines.length).map fun i : ℕ => (i : ℤ) + 1 := by
  have hpairs := congrArg (List.map Prod.fst) (completeRows_complete h)
  rw [List.map_map, List.map_map] at hpairs
  calc (completeRows rows lines).map Row.line
      = lines.zipIdx.map fun p => ((p.2 : ℕ) : ℤ) + 1 := hpairs
    _ = (lines.zipIdx.map Prod.snd).map fun i : ℕ => (i : ℤ) + 1 := by rw [List.map_map]; rfl
    _ = (List.range lines.length).map fun i : ℕ => (i : ℤ) + 1 := by
      rw [List.zipIdx_map_snd, List.range_eq_range']

end Rows

/-! ## Notes -/

section Notes

open Json Text

/-- The spelling of a symbol is the symbol. -/
theorem encodedLength_symbol {s : List Char} (h : OutputSchema.isSymbol s) :
    encodedLength (quote s) ≤ 82 := by
  obtain ⟨-, hlong, -, hall⟩ := h
  have hplain : ∀ c ∈ s, Plain c ∧ c.toNat < 128 := by
    intro c hc
    have hc' : ((decide (c.val ≥ 'A'.val ∧ c.val ≤ 'Z'.val) ||
        (decide (c.val ≥ 'a'.val) && decide (c.val ≤ 'z'.val))) ||
        (decide (c.val ≥ '0'.val) && decide (c.val ≤ '9'.val)) || decide (c = '_')) = true :=
      List.all_eq_true.mp hall c hc
    simp only [Bool.or_eq_true, decide_eq_true_eq, Bool.and_eq_true, UInt32.le_iff_toNat_le,
      Char.reduceVal, UInt32.reduceToNat] at hc'
    have hnumber : 48 ≤ c.toNat ∧ c.toNat ≤ 90 ∨ 95 ≤ c.toNat ∧ c.toNat ≤ 122 := by
      rcases hc' with hc' | rfl
      · change 48 ≤ c.val.toNat ∧ c.val.toNat ≤ 90 ∨ 95 ≤ c.val.toNat ∧ c.val.toNat ≤ 122
        omega
      · decide
    refine ⟨⟨?_, ?_, by omega⟩, by omega⟩
    · rintro rfl
      revert hnumber
      decide
    · rintro rfl
      revert hnumber
      decide
  rw [encodedLength_quote_plain hplain]
  omega

theorem noteSize (n : Note) : encodedSize n.toJson ≤ 200 := by
  have hfile := encodedLength_quote_le n.fileId.1
  have hfile' := n.fileId.2.2
  have hsymbol := encodedLength_symbol n.symbol.2
  have hlabel : encodedLength (quote n.status.label) ≤ 21 := by
    cases n.status <;> decide +kernel
  have hkeys : encodedLength (quote "file_id".toList) = 9 ∧
      encodedLength (quote "symbol".toList) = 8 ∧ encodedLength (quote "status".toList) = 8 := by
    decide +kernel
  have hseps : encodedLength spaced.item = 2 ∧ encodedLength spaced.key = 2 := by
    decide +kernel
  have hbraces : '\x7b'.utf8Size = 1 ∧ '\x7d'.utf8Size = 1 := by decide
  simp only [encodedSize, dumps, Note.toJson, print, printMembers, encodedLength_cons,
    encodedLength_append, encodedLength_nil, hkeys, hseps, hbraces]
  omega

/-- At most two notes and their key fit into the reserve. -/
theorem notesSize {notes : List Note} (h : notes.length ≤ 2) :
    memberSize spaced ("context_supplement".toList, .arr (notes.map Note.toJson)) ≤ 1024 := by
  have hkey : encodedLength (quote "context_supplement".toList) = 20 := by decide +kernel
  have hseps : encodedLength spaced.item = 2 ∧ encodedLength spaced.key = 2 := by
    decide +kernel
  have hbrackets : '['.utf8Size = 1 ∧ ']'.utf8Size = 1 := by decide
  have hnote : ∀ n : Note, encodedLength (print spaced n.toJson) ≤ 200 := noteSize
  match notes with
  | [] =>
      simp only [memberSize, List.map_nil, print, hkey, hseps, encodedLength_cons,
        encodedLength_nil, hbrackets]
      omega
  | [n] =>
      have := hnote n
      simp only [memberSize, List.map_cons, List.map_nil, print, printItems, hkey, hseps,
        encodedLength_cons, encodedLength_append, encodedLength_nil, hbrackets]
      omega
  | [n, n'] =>
      have := hnote n
      have := hnote n'
      simp only [memberSize, List.map_cons, List.map_nil, print, printItems, hkey, hseps,
        encodedLength_cons, encodedLength_append, encodedLength_nil, hbrackets]
      omega
  | _ :: _ :: _ :: _ =>
      simp only [List.length_cons] at h
      omega

/-- The notes are the last member of a payload. -/
theorem members_supplement (p : Payload) (notes : List Note) :
    { p with supplement := some notes }.members = { p with supplement := none }.members ++
      [("context_supplement".toList, .arr (notes.map Note.toJson))] := by
  simp only [Payload.members, optionalMember, Option.toList, List.map_cons, List.map_nil,
    List.append_nil]

theorem members_ne_nil (p : Payload) : p.members ≠ [] := by
  simp [Payload.members]

theorem size_supplement (p : Payload) {notes : List Note} (h : notes.length ≤ 2) :
    { p with supplement := some notes }.size ≤ p.size + 1024 := by
  have hbase : ∀ notes, { p with supplement := some notes }.size =
      { p with supplement := none }.size +
        memberSize spaced ("context_supplement".toList, .arr (notes.map Note.toJson)) := by
    intro notes
    rw [Payload.size, members_supplement]
    exact encodedLength_print_snoc spaced (members_ne_nil _) _
  have hless : { p with supplement := none }.size ≤ p.size := by
    cases hp : p.supplement with
    | none => rw [← hp]
    | some old =>
        have := hbase old
        rw [← hp] at this
        exact Nat.le.intro this.symm
  rw [hbase]
  exact Nat.add_le_add hless (notesSize h)

/-- What fits with the reserve fits with the notes. -/
theorem fits_supplement {p : Payload} (h : p.fits 1024 = true) {notes : List Note}
    (hnotes : notes.length ≤ 2) : { p with supplement := some notes }.fits 0 = true := by
  have hcode : { p with supplement := some notes }.codePart.size ≤ p.codePart.size + 1024 :=
    size_supplement p.codePart hnotes
  have hall := size_supplement p hnotes
  have hmaximum : { p with supplement := some notes }.maximum = p.maximum := rfl
  simp only [Payload.fits, Bool.and_eq_true, decide_eq_true_eq] at h ⊢
  rw [hmaximum]
  omega

end Notes

end Prism.Policy
