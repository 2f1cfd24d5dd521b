import Prism.Verification.Standards.Fences

/-! # The index of a document -/

namespace Prism.Standards

open List

/-! ## Statements -/

/-- The lines behind a heading, or before the first one. -/
structure Segment where
  opening : Option (List Char)
  heading : List Char
  lines : List (List Char)

/-- The lines of a segment, the heading included. -/
def Segment.whole (s : Segment) : List (List Char) :=
  s.opening.toList ++ s.lines

def Segment.body (s : Segment) : List Char :=
  Text.strip (List.intercalate ['\n'] s.lines)

/-- A line looks like a heading, and no fence is open at it. -/
def Heads (before : List (List Char)) (line : List Char) : Prop :=
  (headingOf line).isSome = true ∧ Outside (before ++ [line])

/-- Some lines are cut at their headings, and nowhere else. -/
structure Segmented (lines : List (List Char)) (segments : List Segment) : Prop where
  whole : segments.flatMap Segment.whole = lines
  first : ∃ s rest, segments = s :: rest ∧ s.opening = none ∧ s.heading = "문서".toList ∧
    ∀ t ∈ rest, t.opening.isSome = true
  opened : ∀ pre s post line, segments = pre ++ s :: post → s.opening = some line →
    Heads (pre.flatMap Segment.whole) line ∧
      (headingOf line).map (fun t => t.take 160) = some s.heading
  plain : ∀ pre s post first line rest, segments = pre ++ s :: post →
    s.lines = first ++ line :: rest →
    ¬ Heads (pre.flatMap Segment.whole ++ s.opening.toList ++ first) line

/-- The chunks of a segment: they stand under its heading and give its body back. -/
structure Chunks (s : Segment) (chunks : List Section) : Prop where
  heading : ∀ c ∈ chunks, c.heading = s.heading
  text : (chunks.map Section.text).flatten = s.body
  sized : ∀ c ∈ chunks, c.text ≠ [] ∧ c.text.length ≤ 1200
  empty : s.body = [] → chunks = []

/-- The ids of some sections count them from one. -/
def Counted (sections : List Section) : Prop :=
  sections.map Section.id = (range sections.length).map fun i => 's' :: Nat.toDigits 10 (i + 1)

/-! ## Cutting a body -/

/-- The first slices of a text are its beginning. -/
theorem flatten_slices_take (n : ℕ) (s : List Char) (k : ℕ) :
    ((range k).map fun i => (s.drop (n * i)).take n).flatten = s.take (n * k) := by
  induction k with
  | zero => simp
  | succ k ih =>
      rw [range_succ, map_append, flatten_append, ih, map_singleton, flatten_singleton,
        Nat.mul_succ, take_add]

theorem flatten_slices {n : ℕ} (hn : 0 < n) (s : List Char) : (Text.slices n s).flatten = s := by
  rw [Text.slices, flatten_slices_take]
  refine take_of_length_le ?_
  have h := Nat.lt_mul_div_succ (s.length + n - 1) hn
  rw [Nat.mul_succ] at h
  omega

theorem slices_sized {n : ℕ} {s t : List Char} (hn : 0 < n) (h : t ∈ Text.slices n s) :
    t ≠ [] ∧ t.length ≤ n := by
  obtain ⟨i, hi, rfl⟩ := mem_map.mp h
  have hlt : n * i < s.length := by
    have h := Nat.mul_le_of_le_div n (i + 1) _ (Nat.succ_le_of_lt (mem_range.mp hi))
    rw [Nat.add_mul, Nat.mul_comm] at h
    omega
  refine ⟨?_, length_take_le _ _⟩
  rw [← length_pos_iff, length_take, length_drop]
  omega

/-! ## One line -/

theorem Counted.append {sections more : List Section} (h : Counted sections)
    (hmore : more.map Section.id = (range more.length).map fun i =>
      's' :: Nat.toDigits 10 (sections.length + i + 1)) : Counted (sections ++ more) := by
  rw [Counted, map_append, h, hmore, length_append, range_add, map_append, map_map]
  rfl

/-- The sections that a segment adds. -/
theorem flush_chunks (s : Indexing) (segment : Segment) (hheading : s.title = segment.heading)
    (hlines : s.lines = segment.lines) (hcounted : Counted s.sections) :
    ∃ chunks, (flush s).sections = s.sections ++ chunks ∧ Chunks segment chunks ∧
      Counted (flush s).sections := by
  have hbody : Text.strip (List.intercalate ['\n'] s.lines) = segment.body := by
    rw [hlines, Segment.body]
  refine ⟨_, rfl, ⟨?_, ?_, ?_, ?_⟩, hcounted.append ?_⟩
  · intro c hc
    obtain ⟨⟨text, i⟩, -, rfl⟩ := mem_map.mp hc
    exact hheading
  · rw [map_map, hbody]
    have htexts : ∀ texts : List (List Char), (texts.zipIdx.map fun e => e.1) = texts :=
      fun texts => zipIdx_map_fst 0 texts
    exact (congrArg flatten (htexts _)).trans (flatten_slices (by decide) _)
  · intro c hc
    obtain ⟨⟨text, i⟩, hmem, rfl⟩ := mem_map.mp hc
    exact slices_sized (by decide) (fst_mem_of_mem_zipIdx hmem)
  · intro hempty
    rw [hbody, hempty]
    rfl
  · rw [map_map, length_map, length_zipIdx]
    have hids : ∀ texts : List (List Char), (texts.zipIdx.map fun e =>
        's' :: Nat.toDigits 10 (s.sections.length + e.2 + 1)) =
        (range texts.length).map fun i => 's' :: Nat.toDigits 10 (s.sections.length + i + 1) := by
      intro texts
      rw [range_eq_range', ← zipIdx_map_snd 0 texts, map_map]
      rfl
    exact hids _

/-! ## The loop over the lines -/

/-- A line that goes on with the last segment. -/
theorem Segmented.line {lines : List (List Char)} {segments : List Segment} {s : Segment}
    {line : List Char} (h : Segmented lines (segments ++ [s])) (hplain : ¬ Heads lines line) :
    Segmented (lines ++ [line]) (segments ++ [{ s with lines := s.lines ++ [line] }]) := by
  have hlines : segments.flatMap Segment.whole ++ s.whole = lines := by
    have := h.whole
    simpa using this
  have hlast : ∀ {pre post : List Segment} {t : Segment},
      segments ++ [{ s with lines := s.lines ++ [line] }] = pre ++ t :: post →
      (post = [] ∧ pre = segments ∧ t = { s with lines := s.lines ++ [line] }) ∨
        ∃ post', segments ++ [s] = pre ++ t :: post' := by
    intro pre post t heq
    obtain rfl | ⟨post, last, rfl⟩ := eq_nil_or_concat post
    · obtain ⟨rfl, hs⟩ := append_inj' heq rfl
      exact .inl ⟨rfl, rfl, (cons.inj hs).1.symm⟩
    · rw [concat_eq_append, ← cons_append, ← append_assoc] at heq
      obtain ⟨rfl, -⟩ := append_inj' heq rfl
      exact .inr ⟨post ++ [s], by simp⟩
  constructor
  · rw [flatMap_append, ← hlines]
    simp [Segment.whole]
  · obtain ⟨first, rest, hsegments, hopening, hheading, hrest⟩ := h.first
    cases segments with
    | nil =>
        obtain ⟨rfl, rfl⟩ := cons.inj hsegments
        exact ⟨_, [], rfl, hopening, hheading, by simp⟩
    | cons first' segments =>
        obtain ⟨rfl, rfl⟩ := cons.inj hsegments
        refine ⟨_, _, rfl, hopening, hheading, fun t ht => ?_⟩
        obtain ht | ht := mem_append.mp ht
        · exact hrest t (mem_append_left _ ht)
        · rw [mem_singleton.mp ht]
          exact hrest s (mem_append_right _ (mem_singleton_self s))
  · intro pre t post l heq hopening
    obtain ⟨-, rfl, rfl⟩ | ⟨post', heq'⟩ := hlast heq
    · exact h.opened pre s [] l rfl hopening
    · exact h.opened pre t post' l heq' hopening
  · intro pre t post first l rest heq hsplit
    obtain ⟨-, rfl, rfl⟩ | ⟨post', heq'⟩ := hlast heq
    · obtain rfl | ⟨rest, last, rfl⟩ := eq_nil_or_concat rest
      · obtain ⟨rfl, hl⟩ := append_inj' hsplit rfl
        obtain rfl := (cons.inj hl).1
        have hbefore : pre.flatMap Segment.whole ++ s.opening.toList ++ s.lines = lines := by
          rw [append_assoc]
          exact hlines
        rwa [hbefore]
      · rw [concat_eq_append, ← cons_append, ← append_assoc] at hsplit
        obtain ⟨hsplit, -⟩ := append_inj' hsplit rfl
        exact h.plain pre s [] first l rest rfl hsplit
    · exact h.plain pre t post' first l rest heq' hsplit

/-- A heading opens a segment. -/
theorem Segmented.heading {lines : List (List Char)} {segments : List Segment}
    {line title : List Char} (h : Segmented lines segments) (hheads : Heads lines line)
    (htitle : headingOf line = some title) :
    Segmented (lines ++ [line]) (segments ++ [⟨some line, title.take 160, []⟩]) := by
  have hlast : ∀ {pre post : List Segment} {t : Segment},
      segments ++ [⟨some line, title.take 160, []⟩] = pre ++ t :: post →
      (pre = segments ∧ t = ⟨some line, title.take 160, []⟩) ∨
        ∃ post', segments = pre ++ t :: post' := by
    intro pre post t heq
    obtain rfl | ⟨post, last, rfl⟩ := eq_nil_or_concat post
    · obtain ⟨rfl, hs⟩ := append_inj' heq rfl
      exact .inl ⟨rfl, (cons.inj hs).1.symm⟩
    · rw [concat_eq_append, ← cons_append, ← append_assoc] at heq
      obtain ⟨rfl, -⟩ := append_inj' heq rfl
      exact .inr ⟨post, rfl⟩
  constructor
  · rw [flatMap_append, h.whole]
    simp [Segment.whole]
  · obtain ⟨first, rest, rfl, hopening, hheading, hrest⟩ := h.first
    refine ⟨first, _, rfl, hopening, hheading, fun t ht => ?_⟩
    obtain ht | ht := mem_append.mp ht
    · exact hrest t ht
    · rw [mem_singleton.mp ht]
      rfl
  · intro pre t post l heq hopening
    obtain ⟨rfl, rfl⟩ | ⟨post', heq'⟩ := hlast heq
    · obtain rfl := Option.some.inj hopening
      rw [h.whole, htitle]
      exact ⟨hheads, rfl⟩
    · exact h.opened pre t post' l heq' hopening
  · intro pre t post first l rest heq hsplit
    obtain ⟨rfl, rfl⟩ | ⟨post', heq'⟩ := hlast heq
    · simp at hsplit
    · exact h.plain pre t post' first l rest heq' hsplit

/-- What holds of the loop after some lines: the segments before the last one are chunked, and
the lines of the last one are collected. -/
structure Indexes (lines : List (List Char)) (s : Indexing) : Prop where
  fence : ∃ fence, Fencing none lines fence ∧ FenceText fence s.fence
  counted : Counted s.sections
  cut : ∃ segments segment chunks, Segmented lines (segments ++ [segment]) ∧
    s.title = segment.heading ∧ s.lines = segment.lines ∧ s.sections = chunks.flatten ∧
    Forall₂ Chunks segments chunks

theorem indexes_nil : Indexes [] {} where
  fence := ⟨none, .nil none, .none⟩
  counted := rfl
  cut := by
    refine ⟨[], ⟨none, "문서".toList, []⟩, [], ⟨rfl, ⟨_, [], rfl, rfl, rfl, by simp⟩, ?_, ?_⟩, rfl,
      rfl, rfl, .nil⟩
    · intro pre s post line heq hopening
      cases pre with
      | nil =>
          obtain ⟨rfl, -⟩ := cons.inj heq
          cases hopening
      | cons t pre => simp at heq
    · intro pre s post first line rest heq hlines
      cases pre with
      | nil =>
          obtain ⟨rfl, -⟩ := cons.inj heq
          simp at hlines
      | cons t pre => simp at heq

theorem Indexes.step {lines : List (List Char)} {s : Indexing} (h : Indexes lines s)
    (line : List Char) : Indexes (lines ++ [line]) (indexLine s line) := by
  obtain ⟨fence, hfencing, htext⟩ := h.fence
  obtain ⟨next, hstep, hnext⟩ := nextFence_step htext line
  have hfencing' := hfencing.snoc hstep
  obtain ⟨segments, segment, chunks, hsegmented, htitle, hlines, hsections, hchunks⟩ := h.cut
  have hheads : Heads lines line ↔ (headingOf line).isSome = true ∧ nextFence s.fence line = [] := by
    refine and_congr_right fun _ => ?_
    rw [hnext.eq_nil_iff]
    constructor
    · exact fun houtside => hfencing'.unique houtside
    · rintro rfl
      exact hfencing'
  unfold indexLine
  dsimp only
  by_cases houtside : nextFence s.fence line = []
  · rw [if_pos houtside]
    cases hheading : headingOf line with
    | some title =>
        have hopens := hheads.mpr ⟨by rw [hheading]; rfl, houtside⟩
        obtain ⟨more, hmore, hchunk, hcounted⟩ := flush_chunks
          { s with fence := nextFence s.fence line } segment htitle hlines h.counted
        refine ⟨⟨next, hfencing', hnext⟩, hcounted, segments ++ [segment], _, chunks ++ [more],
          hsegmented.heading hopens hheading, rfl, rfl, ?_, ?_⟩
        · rw [flatten_append, flatten_singleton, ← hsections]
          exact hmore
        · exact rel_append hchunks (.cons hchunk .nil)
    | none =>
        have hplain : ¬ Heads lines line := by
          rw [hheads, hheading]
          exact fun h => Bool.false_ne_true h.1
        exact ⟨⟨next, hfencing', hnext⟩, h.counted, segments, _, chunks, hsegmented.line hplain,
          htitle, congrArg (· ++ [line]) hlines, hsections, hchunks⟩
  · rw [if_neg houtside]
    have hplain : ¬ Heads lines line := by
      rw [hheads]
      exact fun h => houtside h.2
    exact ⟨⟨next, hfencing', hnext⟩, h.counted, segments, _, chunks, hsegmented.line hplain,
      htitle, congrArg (· ++ [line]) hlines, hsections, hchunks⟩

theorem indexes_foldl (lines : List (List Char)) : Indexes lines (lines.foldl indexLine {}) := by
  induction lines using reverseRecOn with
  | nil => exact indexes_nil
  | append_singleton lines line ih =>
      rw [foldl_append]
      exact ih.step line

/-! ## Main result -/

/-- A document is cut at the headings outside its fenced blocks, and nothing of it is lost. -/
theorem index_lossless (content : List Char) :
    ∃ segments chunks, Segmented (Text.splitlines content) segments ∧
      Forall₂ Chunks segments chunks ∧ indexDocument content = chunks.flatten ∧
      Counted (indexDocument content) := by
  obtain ⟨-, hcounted, segments, segment, chunks, hsegmented, htitle, hlines, hsections, hchunks⟩ :=
    indexes_foldl (Text.splitlines content)
  obtain ⟨more, hmore, hchunk, hcounted⟩ := flush_chunks _ segment htitle hlines hcounted
  refine ⟨segments ++ [segment], chunks ++ [more], hsegmented,
    rel_append hchunks (.cons hchunk .nil), ?_, hcounted⟩
  rw [flatten_append, flatten_singleton, ← hsections]
  exact hmore

end Prism.Standards
