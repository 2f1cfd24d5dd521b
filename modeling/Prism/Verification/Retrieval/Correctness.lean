import Prism.Foundation.Runs
import Prism.Model.Retrieval
import Prism.Verification.Context.Equations

/-! Relative imports against the files they denote: which of them make their file a
direct dependency. -/

namespace Prism.Retrieval

/-! ## Repository paths -/

/-- A path of a repository: none of its parts is empty, `.` or `..`. -/
def Normal (path : List Char) : Prop :=
  ∀ p ∈ path.splitOn '/', p ∉ [[], ".".toList, "..".toList]

instance (path : List Char) : Decidable (Normal path) :=
  inferInstanceAs (Decidable (∀ _ ∈ _, _))

/-- No two slashes of a path meet, and none stands first. -/
def Solid (path : List Char) : Prop :=
  [] ∉ path.splitOn '/'

theorem Normal.solid {path : List Char} (h : Normal path) : Solid path :=
  fun hmem => h [] hmem (by simp)

theorem Normal.parts_eq {path : List Char} (h : Normal path) : parts path = path.splitOn '/' := by
  refine List.filter_eq_self.mpr fun p hp => ?_
  have hproper := h p hp
  simp only [List.mem_cons, List.not_mem_nil, or_false, not_or] at hproper
  have hdot : p ≠ ['.'] := hproper.2.1
  simp [hproper.1, hdot]

theorem not_mem_of_mem_splitOn {s p : List Char} {sep : Char} (h : p ∈ s.splitOn sep) :
    sep ∉ p := by
  induction s generalizing p with
  | nil =>
      obtain rfl := List.mem_singleton.mp h
      simp
  | cons c s ih =>
      rw [List.splitOn_cons_eq_if_modifyHead] at h
      split at h
      · rcases List.mem_cons.mp h with rfl | h
        · simp
        · exact ih h
      · rename_i hne
        obtain ⟨first, rest, hsplit⟩ := List.exists_cons_of_ne_nil (List.splitOn_ne_nil sep s)
        rw [hsplit, List.modifyHead_cons] at h
        have hc : sep ≠ c := fun heq => hne (by simp [heq])
        rcases List.mem_cons.mp h with rfl | h
        · have hfirst := ih (hsplit ▸ List.mem_cons_self ..)
          simp [hc, hfirst]
        · exact ih (hsplit ▸ List.mem_cons_of_mem _ h)

theorem mem_parts {path : List Char} {p : Part} (h : p ∈ parts path) : p ≠ [] ∧ '/' ∉ p := by
  obtain ⟨hmem, hproper⟩ := List.mem_filter.mp h
  exact ⟨by simpa using (Bool.and_eq_true_iff.mp hproper).1, not_mem_of_mem_splitOn hmem⟩

theorem splitOn_join {ps : List Part} (hps : ∀ p ∈ ps, '/' ∉ p) (hne : ps ≠ []) :
    (Text.join ['/'] ps).splitOn '/' = ps :=
  List.splitOn_intercalate '/' hps hne

/-- What follows a joined text follows its last part. -/
theorem join_last (init : List Part) (last text : Part) :
    Text.join ['/'] (init ++ [last]) ++ text = Text.join ['/'] (init ++ [last ++ text]) := by
  by_cases hinit : init = []
  · simp [hinit, Text.join, List.intercalate_singleton]
  · rw [Text.join_append _ hinit (by simp), Text.join_append _ hinit (by simp)]
    simp [Text.join, List.intercalate_singleton]

/-! ## Suffixes -/

theorem stemOf_cases (name : Part) :
    stemOf name = name ∨ stemOf name ≠ [] ∧ ∃ n, stemOf name = name.take n := by
  simp only [stemOf]
  split
  · rename_i h
    exact .inr ⟨h.2.2, _, rfl⟩
  · exact .inl rfl

theorem stemOf_suffix {stem ext : Part} (hstem : stem ≠ []) (hext : ext ≠ []) (hdot : '.' ∉ ext) :
    stemOf (stem ++ '.' :: ext) = stem := by
  have hsuffix : ((stem ++ '.' :: ext).reverse.takeWhile (· ≠ '.')).reverse = ext := by
    have hreverse : (stem ++ '.' :: ext).reverse = ext.reverse ++ '.' :: stem.reverse := by simp
    have hplain : ∀ c ∈ ext.reverse, decide (c ≠ '.') = true := by
      intro c hc
      have hne : c ≠ '.' := fun heq => hdot (heq ▸ List.mem_reverse.mp hc)
      simpa using hne
    rw [hreverse, List.takeWhile_append_of_pos hplain]
    simp
  have htake : (stem ++ '.' :: ext).take ((stem ++ '.' :: ext).length - ext.length - 1) = stem := by
    have hlength : (stem ++ '.' :: ext).length - ext.length - 1 = stem.length := by
      simp only [List.length_append, List.length_cons]
      omega
    rw [hlength, List.take_left]
  unfold stemOf
  dsimp only
  rw [hsuffix, htake, if_pos ⟨by simp, hext, hstem⟩]

/-- A path without its suffix is as solid as the path. -/
theorem Normal.solid_withoutSuffix {path : List Char} (h : Normal path) :
    Solid (withoutSuffix path) := by
  have hne : parts path ≠ [] := h.parts_eq ▸ List.splitOn_ne_nil '/' path
  have hlast : (parts path).getLast?.getD [] = (parts path).getLast hne := by
    rw [List.getLast?_eq_some_getLast hne, Option.getD_some]
  obtain ⟨hfull, hslash⟩ := mem_parts (List.getLast_mem hne)
  have hleaf : leaf path ≠ [] ∧ '/' ∉ leaf path := by
    unfold leaf
    rw [hlast]
    rcases stemOf_cases ((parts path).getLast hne) with heq | ⟨hstem, n, htake⟩
    · rw [heq]
      exact ⟨hfull, hslash⟩
    · refine ⟨hstem, fun hmem => hslash ?_⟩
      rw [htake] at hmem
      exact List.mem_of_mem_take hmem
  have hall : ∀ p ∈ (parts path).dropLast ++ [leaf path], p ≠ [] ∧ '/' ∉ p := by
    intro p hp
    rcases List.mem_append.mp hp with hp | hp
    · exact mem_parts (List.mem_of_mem_dropLast hp)
    · obtain rfl := List.mem_singleton.mp hp
      exact hleaf
  unfold Solid withoutSuffix
  rw [splitOn_join (fun p hp => (hall p hp).2) (by simp)]
  exact fun hmem => (hall [] hmem).1 rfl

/-- A text that starts with a slash names no solid path. -/
theorem Solid.not_names {path text : List Char} (h : Solid path) :
    names? path ('/' :: text) = false := by
  have hfirst : ∀ t : List Char, [] ∈ ('/' :: t).splitOn '/' := by
    intro t
    rw [List.splitOn_cons_eq_if_modifyHead]
    simp
  by_contra hnames
  rw [Bool.not_eq_false, names?, Bool.or_eq_true, decide_eq_true_eq,
    List.isSuffixOf_iff_suffix] at hnames
  rcases hnames with rfl | ⟨before, rfl⟩
  · exact h (hfirst text)
  · refine h ?_
    rw [List.splitOn_append_cons_self]
    exact List.mem_append_right _ (hfirst text)

/-! ## Relative imports -/

/-- Where the parts of a relative module lead from a directory. It may not leave the
repository. -/
inductive Leads : List Part → List Part → List Part → Prop where
  | nil (base : List Part) : Leads base [] base
  | here {base rest target : List Part} {p : Part} : p = [] ∨ p = ".".toList →
      Leads base rest target → Leads base (p :: rest) target
  | up {base rest target : List Part} (p : Part) :
      Leads base rest target → Leads (base ++ [p]) ("..".toList :: rest) target
  | down {base rest target : List Part} {p : Part} : p ∉ [[], ".".toList, "..".toList] →
      Leads (base ++ [p]) rest target → Leads base (p :: rest) target

/-- How a statement says what it imports. -/
inductive Specifier where
  | script (module : List Char)
  | python (up : ℕ) (names : List Part)

/-- A relative import of a file: the quoted specifier of a script, or the module of a
Python statement after one dot and one more for every directory it goes up. -/
inductive RelativeImport (isWord : Char → Bool) (path statement : List Char) :
    Specifier → List Part → Prop where
  | script {pre module post : List Char} {opening closing : Char} {target : List Part} :
      isQuote opening = true → isQuote closing = true → (∀ c ∈ module, isQuote c = false) →
      ("./".toList <+: module ∨ "../".toList <+: module) →
      statement = pre ++ opening :: (module ++ closing :: post) →
      Leads (parts path).dropLast (module.splitOn '/') target →
      RelativeImport isWord path statement (.script module) target
  | python {spaces post : List Char} {up : ℕ} {names : List Part} :
      spaces ≠ [] → (∀ c ∈ spaces, Text.isSpace c = true) →
      (∀ name ∈ names, name ≠ [] ∧ ∀ c ∈ name, isWord c = true) → names ≠ [] →
      (∃ c, post.head? = some c ∧ Text.isSpace c = true) →
      statement = "from".toList ++ spaces ++ List.replicate (up + 1) '.' ++
        Text.join ['.'] names ++ post →
      up ≤ (parts path).dropLast.length →
      RelativeImport isWord path statement (.python up names)
        ((parts path).dropLast.take ((parts path).dropLast.length - up) ++ names)

def sourceExtensions : List (List Char) :=
  ["java", "py", "js", "jsx", "mjs", "cjs", "ts", "tsx", "mts", "cts"].map String.toList

/-- A target denotes the path itself, or the path with one source extension. -/
def Denotes (target : List Part) (path : List Char) : Prop :=
  target ≠ [] ∧ (path = Text.join ['/'] target ∨
    ∃ ext ∈ sourceExtensions, path = Text.join ['/'] target ++ '.' :: ext)

/-- The loop over the parts of a module goes where they lead. -/
theorem Leads.walk {base rest target : List Part} (h : Leads base rest target) :
    rest.foldl walk base = target := by
  induction h with
  | nil => rfl
  | @here base rest target p hp _ ih =>
      have hstay : Retrieval.walk base p = base := by
        rcases hp with rfl | rfl <;> simp [Retrieval.walk]
      rw [List.foldl_cons, hstay, ih]
  | up p _ ih =>
      rw [List.foldl_cons, Retrieval.walk, if_pos ⟨rfl, by simp⟩, List.dropLast_concat, ih]
  | @down base rest target p hp _ ih =>
      simp only [List.mem_cons, List.not_mem_nil, or_false, not_or] at hp
      have hstep : Retrieval.walk base p = base ++ [p] := by
        unfold Retrieval.walk
        rw [if_neg fun h => hp.2.2 h.1, if_neg]
        simp only [List.mem_cons, List.not_mem_nil, or_false, not_or]
        exact ⟨hp.2.1, hp.2.2, hp.1⟩
      rw [List.foldl_cons, hstep, ih]

theorem Leads.mem {base rest target : List Part} (h : Leads base rest target) {p : Part}
    (hp : p ∈ target) : p ∈ base ∨ p ∈ rest ∧ p ≠ [] := by
  induction h with
  | nil => exact .inl hp
  | here _ _ ih =>
      exact (ih hp).imp_right fun hrest => ⟨List.mem_cons_of_mem _ hrest.1, hrest.2⟩
  | up _ _ ih =>
      exact (ih hp).imp (List.mem_append_left _) fun hrest =>
        ⟨List.mem_cons_of_mem _ hrest.1, hrest.2⟩
  | @down base rest target q hq _ ih =>
      rcases ih hp with hbase | hrest
      · rcases List.mem_append.mp hbase with hbase | hnew
        · exact .inl hbase
        · obtain rfl := List.mem_singleton.mp hnew
          exact .inr ⟨List.mem_cons_self .., fun hnil => hq (by simp [hnil])⟩
      · exact .inr ⟨List.mem_cons_of_mem _ hrest.1, hrest.2⟩

/-- The resolution of a quoted module is its target. -/
theorem resolve_script {path module : List Char} {target : List Part}
    (hdot : "./".toList <+: module ∨ "../".toList <+: module)
    (h : Leads (parts path).dropLast (module.splitOn '/') target) :
    resolve path module = Text.join ['/'] target := by
  have hhead : module.head? = some '.' := by
    rcases hdot with ⟨rest, rfl⟩ | ⟨rest, rfl⟩ <;> rfl
  rw [resolve, if_pos hhead, h.walk]

/-- A resolved target names the files it denotes. -/
theorem names_of_denotes {target : List Part} {q : List Char} (hq : Normal q)
    (htarget : ∀ p ∈ target, p ≠ [] ∧ '/' ∉ p) (h : Denotes target q) :
    names? q (Text.join ['/'] target) = true ∨
      names? (withoutSuffix q) (Text.join ['/'] target) = true := by
  obtain ⟨hne, rfl | ⟨ext, hext, rfl⟩⟩ := h
  · exact .inl (by simp [names?])
  · right
    have hplain : ∀ e ∈ sourceExtensions, e ≠ [] ∧ '.' ∉ e ∧ '/' ∉ e := by decide
    obtain ⟨hfull, hnodot, hnoslash⟩ := hplain ext hext
    obtain ⟨init, last, rfl⟩ := (List.eq_nil_or_concat target).resolve_left hne
    simp only [List.concat_eq_append] at htarget hq ⊢
    have hlast := htarget last (by simp)
    have hparts : parts (Text.join ['/'] (init ++ [last]) ++ '.' :: ext) =
        init ++ [last ++ '.' :: ext] := by
      rw [hq.parts_eq, join_last, splitOn_join ?_ (by simp)]
      intro p hp
      rcases List.mem_append.mp hp with hp | hp
      · exact (htarget p (List.mem_append_left _ hp)).2
      · obtain rfl := List.mem_singleton.mp hp
        simp [hlast.2, hnoslash]
    have hstem : withoutSuffix (Text.join ['/'] (init ++ [last]) ++ '.' :: ext) =
        Text.join ['/'] (init ++ [last]) := by
      rw [withoutSuffix, leaf, hparts, List.dropLast_concat, List.getLast?_concat,
        Option.getD_some, stemOf_suffix hlast.1 hfull hnodot]
    rw [hstem]
    simp [names?]

/-- Without a quote before it, a quoted text is found. -/
theorem mem_quoted {pre text post : List Char} {opening closing : Char}
    (hpre : ∀ c ∈ pre, isQuote c = false) (hopening : isQuote opening = true)
    (hclosing : isQuote closing = true) (htext : ∀ c ∈ text, isQuote c = false)
    (hne : text ≠ []) : text ∈ quoted (pre ++ opening :: (text ++ closing :: post)) := by
  have hread : ∀ {text read : List Char}, (∀ c ∈ text, isQuote c = false) →
      read.reverse ++ text ≠ [] →
      read.reverse ++ text ∈ quotedAfter (some read) (text ++ closing :: post) := by
    intro text
    induction text with
    | nil =>
        intro read _ hne
        have hread : read ≠ [] := by simpa using hne
        simp [quotedAfter, hclosing, hread]
    | cons c text ih =>
        intro read htext _
        have hc := htext c (List.mem_cons_self ..)
        have hrest : (c :: read).reverse ++ text ∈
            quotedAfter (some (c :: read)) (text ++ closing :: post) :=
          ih (fun d hd => htext d (List.mem_cons_of_mem _ hd)) (by simp)
        simpa [quotedAfter, hc] using hrest
  unfold quoted
  induction pre with
  | nil =>
      have hmem : [].reverse ++ text ∈ quotedAfter (some []) (text ++ closing :: post) :=
        hread htext (by simpa using hne)
      simpa [quotedAfter, hopening] using hmem
  | cons c pre ih =>
      have hc := hpre c (List.mem_cons_self ..)
      simpa [quotedAfter, hc] using ih fun d hd => hpre d (List.mem_cons_of_mem _ hd)

/-! ## Direct dependencies -/

section Direct

variable (isWord : Char → Bool) (changed : List (List Char × List (List Char)))
  (metadata : List Char → Option Metadata)

/-- An import statement of a changed file. -/
def Imports (path statement : List Char) : Prop :=
  path ∈ changed.map Prod.fst ∧ ∃ info, metadata path = some info ∧ statement ∈ info.imports

/-- A text names a path, with its suffix or without. -/
def Names (text path : List Char) : Prop :=
  names? path text = true ∨ names? (withoutSuffix path) text = true

/-- A path is named by a quoted text of an import statement, or by a module name that
does not start with a dot. -/
def Named (path : List Char) : Prop :=
  ∃ file statement, Imports changed metadata file statement ∧
    ((∃ m ∈ quoted statement, Names (resolve file m) path) ∨
      ∃ m ∈ modules isWord statement, m.head? ≠ some '.' ∧ Names (slashed m) path)

/-- Whether the scan for quoted texts finds a specifier. -/
def Specifier.found (statement : List Char) : Specifier → Prop
  | .script module => module ∈ quoted statement
  | .python _ _ => False

variable {isWord changed metadata}

theorem mem_imported {text : List Char} :
    text ∈ imported isWord changed metadata ↔ ∃ file statement,
      Imports changed metadata file statement ∧ ((∃ m ∈ quoted statement, resolve file m = text) ∨
        ∃ m ∈ modules isWord statement, slashed m = text) := by
  unfold imported Imports
  rw [List.mem_flatMap]
  constructor
  · rintro ⟨e, he, htext⟩
    cases hinfo : metadata e.1 with
    | none => simp [hinfo] at htext
    | some info =>
        rw [hinfo, Option.map_some, Option.getD_some] at htext
        obtain ⟨statement, hstatement, htext⟩ := List.mem_flatMap.mp htext
        refine ⟨e.1, statement, ⟨List.mem_map_of_mem he, info, hinfo, hstatement⟩, ?_⟩
        simpa [List.mem_append, List.mem_map] using htext
  · rintro ⟨file, statement, ⟨hfile, info, hinfo, hstatement⟩, htext⟩
    obtain ⟨e, he, rfl⟩ := List.mem_map.mp hfile
    refine ⟨e, he, ?_⟩
    rw [hinfo, Option.map_some, Option.getD_some]
    refine List.mem_flatMap.mpr ⟨statement, hstatement, ?_⟩
    simpa [List.mem_append, List.mem_map] using htext

/-- The module of a relative statement names no path. -/
theorem not_names_slashed {q m : List Char} (hq : Normal q) (hdot : m.head? = some '.') :
    ¬Names (slashed m) q := by
  obtain ⟨rest, rfl⟩ : ∃ rest, m = '.' :: rest := by
    cases m with
    | nil => simp at hdot
    | cons c rest =>
        obtain rfl := Option.some.inj hdot
        exact ⟨rest, rfl⟩
  have hslash : slashed ('.' :: rest) = '/' :: slashed rest := rfl
  rw [hslash, Names, hq.solid.not_names, hq.solid_withoutSuffix.not_names]
  simp

/-- The direct dependencies are what the usable texts name. -/
theorem direct_iff {q : List Char} (hq : Normal q) :
    direct isWord changed metadata q = true ↔ Named isWord changed metadata q := by
  unfold direct Named
  simp only [List.any_eq_true, Bool.or_eq_true]
  constructor
  · rintro ⟨text, htext, hnames⟩
    obtain ⟨file, statement, himports, htext⟩ := mem_imported.mp htext
    refine ⟨file, statement, himports, ?_⟩
    rcases htext with ⟨m, hm, rfl⟩ | ⟨m, hm, rfl⟩
    · exact .inl ⟨m, hm, hnames⟩
    · exact .inr ⟨m, hm, fun hdot => not_names_slashed hq hdot hnames, hnames⟩
  · rintro ⟨file, statement, himports, ⟨m, hm, hnames⟩ | ⟨m, hm, -, hnames⟩⟩
    · exact ⟨_, mem_imported.mpr ⟨file, statement, himports, .inl ⟨m, hm, rfl⟩⟩, hnames⟩
    · exact ⟨_, mem_imported.mpr ⟨file, statement, himports, .inr ⟨m, hm, rfl⟩⟩, hnames⟩

/-- A script import whose specifier is found names the files it denotes. -/
theorem named_of_found {path statement q : List Char} {specifier : Specifier}
    {target : List Part} (himports : Imports changed metadata path statement)
    (hrelative : RelativeImport isWord path statement specifier target) (hq : Normal q)
    (hdenotes : Denotes target q) (hfound : specifier.found statement) :
    Named isWord changed metadata q := by
  cases hrelative with
  | python => exact hfound.elim
  | @script pre module post opening closing target _ _ _ hdot _ hleads =>
      refine ⟨path, statement, himports, .inl ⟨module, hfound, ?_⟩⟩
      rw [resolve_script hdot hleads]
      refine names_of_denotes hq (fun p hp => ?_) hdenotes
      rcases hleads.mem hp with hbase | ⟨hrest, hne⟩
      · exact mem_parts (List.mem_of_mem_dropLast hbase)
      · exact ⟨hne, not_mem_of_mem_splitOn hrest⟩

theorem score_of_direct {q : List Char} (h : direct isWord changed metadata q = true) :
    100 ≤ score isWord changed metadata q := by
  simp only [score, h, Bool.toNat_true]
  omega

/-- A quoted specifier is found where no quote stands before it in its statement. -/
theorem found_of_first {path statement module pre post : List Char} {opening closing : Char}
    {target : List Part} (hrelative : RelativeImport isWord path statement (.script module) target)
    (hsplit : statement = pre ++ opening :: (module ++ closing :: post))
    (hpre : ∀ c ∈ pre, isQuote c = false) (hopening : isQuote opening = true)
    (hclosing : isQuote closing = true) : Specifier.found statement (.script module) := by
  cases hrelative with
  | script _ _ hplain hdot _ _ =>
      have hne : module ≠ [] := by
        rcases hdot with ⟨rest, rfl⟩ | ⟨rest, rfl⟩ <;> simp
      rw [Specifier.found, hsplit]
      exact mem_quoted hpre hopening hclosing hplain hne

/-- A relative import makes a file it denotes a direct dependency where the scan finds its
quoted specifier, which it does when no quote stands before it. A direct dependency is named
by a quoted text or by a module name that does not start with a dot; one that does, which is
what a relative Python statement gives, names nothing. -/
theorem relative_import_direct {path statement q : List Char} {specifier : Specifier}
    {target : List Part} (himports : Imports changed metadata path statement)
    (hrelative : RelativeImport isWord path statement specifier target) (hq : Normal q)
    (hdenotes : Denotes target q) :
    (specifier.found statement →
      direct isWord changed metadata q = true ∧ 100 ≤ score isWord changed metadata q) ∧
    (∀ pre module post opening closing, specifier = .script module →
      statement = pre ++ opening :: (module ++ closing :: post) →
      (∀ c ∈ pre, isQuote c = false) → isQuote opening = true → isQuote closing = true →
      specifier.found statement) ∧
    (direct isWord changed metadata q = true → Named isWord changed metadata q) ∧
    ∀ m ∈ modules isWord statement, m.head? = some '.' → ¬Names (slashed m) q := by
  refine ⟨fun hfound => ?_, ?_, (direct_iff hq).mp, fun m _ => not_names_slashed hq⟩
  · have hdirect := (direct_iff hq).mpr (named_of_found himports hrelative hq hdenotes hfound)
    exact ⟨hdirect, score_of_direct hdirect⟩
  · rintro pre module post opening closing rfl hsplit hpre hopening hclosing
    exact found_of_first hrelative hsplit hpre hopening hclosing

end Direct

/-! ## Discovery -/

section Discovery

variable {isWord : Char → Bool}

/-- The candidates are files outside the changed ones, with their scores. -/
theorem mem_candidatePaths {changed : List (List Char × List (List Char))}
    {metadata : List Char → Option Metadata} {regular : List (List Char)} {p : List Char} {n : ℕ}
    (h : (p, n) ∈ candidatePaths isWord changed metadata regular) :
    p ∈ regular ∧ p ∉ changed.map Prod.fst ∧ n = score isWord changed metadata p ∧ n ≠ 0 := by
  have hmem := List.mem_of_mem_take h
  rw [scored, List.mem_mergeSort, List.mem_filter, List.mem_map] at hmem
  obtain ⟨⟨q, hq, heq⟩, hscore⟩ := hmem
  obtain ⟨rfl, rfl⟩ := Prod.mk.inj heq
  rw [List.mem_mergeSort, List.mem_filter, List.mem_dedup] at hq
  exact ⟨hq.1, of_decide_eq_true hq.2, rfl, of_decide_eq_true hscore⟩

theorem chosenPaths_spec (perGroup : List (List (List Char × ℕ))) :
    (Policy.chosenPaths perGroup).Nodup ∧ (Policy.chosenPaths perGroup).length ≤ 12 ∧
      ∀ p ∈ Policy.chosenPaths perGroup, ∃ entry ∈ Policy.roundRobin perGroup, entry.1 = p := by
  unfold Policy.chosenPaths
  generalize Policy.roundRobin perGroup = entries
  have hfold : ∀ (entries : List (List Char × ℕ)) (chosen : List (List Char)),
      chosen.Nodup → chosen.length ≤ 12 →
      let all := entries.foldl (fun chosen entry =>
        if entry.1 ∈ chosen ∨ 12 ≤ chosen.length then chosen else chosen ++ [entry.1]) chosen
      all.Nodup ∧ all.length ≤ 12 ∧ ∀ p ∈ all, p ∈ chosen ∨ ∃ entry ∈ entries, entry.1 = p := by
    intro entries
    induction entries with
    | nil => exact fun chosen hnodup hlength => ⟨hnodup, hlength, fun p hp => .inl hp⟩
    | cons entry entries ih =>
        intro chosen hnodup hlength
        rw [List.foldl_cons]
        split_ifs with hskip
        · obtain ⟨hn, hl, hall⟩ := ih chosen hnodup hlength
          exact ⟨hn, hl, fun p hp => (hall p hp).imp_right fun ⟨e, he, hp⟩ =>
            ⟨e, List.mem_cons_of_mem _ he, hp⟩⟩
        · obtain ⟨hnew, hroom⟩ := not_or.mp hskip
          have hnodup' : (chosen ++ [entry.1]).Nodup :=
            List.nodup_append.mpr ⟨hnodup, List.nodup_singleton _, fun a ha b hb hab =>
              hnew (List.mem_singleton.mp hb ▸ hab ▸ ha)⟩
          have hlength' : (chosen ++ [entry.1]).length ≤ 12 := by
            rw [List.length_append, List.length_singleton]
            omega
          obtain ⟨hn, hl, hall⟩ := ih _ hnodup' hlength'
          refine ⟨hn, hl, fun p hp => ?_⟩
          rcases hall p hp with hp | ⟨e, he, hp⟩
          · rcases List.mem_append.mp hp with hp | hp
            · exact .inl hp
            · exact .inr ⟨entry, List.mem_cons_self, (List.mem_singleton.mp hp).symm⟩
          · exact .inr ⟨e, List.mem_cons_of_mem _ he, hp⟩
  obtain ⟨hnodup, hlength, hall⟩ := hfold entries [] List.nodup_nil (Nat.zero_le _)
  exact ⟨hnodup, hlength, fun p hp => (hall p hp).resolve_left List.not_mem_nil⟩

/-- What is fetched for a change: at most twelve regular files outside it, none twice. -/
theorem discover_spec {sources : List (List Char × Policy.Source)}
    (regular changed : List (List Char)) (groups : List (Policy.Query sources))
    (imports : List Char → List (List Char)) :
    let chosen := (discover isWord regular changed groups imports).1
    chosen.Nodup ∧ chosen.length ≤ 12 ∧ ∀ p ∈ chosen, p ∈ regular ∧ p ∉ changed := by
  obtain ⟨hnodup, hlength, hall⟩ :=
    chosenPaths_spec (discover isWord regular changed groups imports).2
  refine ⟨hnodup, hlength, fun p hp => ?_⟩
  obtain ⟨⟨q, n⟩, hentry, rfl⟩ := hall p hp
  obtain ⟨row, hrow, hmem⟩ := Policy.mem_roundRobin.mp hentry
  obtain ⟨query, -, rfl⟩ := List.mem_map.mp hrow
  obtain ⟨hregular, -⟩ := mem_candidatePaths hmem
  exact ⟨(List.mem_filter.mp hregular).1, of_decide_eq_true (List.mem_filter.mp hregular).2⟩

end Discovery

/-! ## Two imports -/

def isAsciiWord (c : Char) : Bool :=
  c.isAlphanum || c = '_'

/-- One changed file with one import statement. -/
def oneImport (path statement : String) (file : List Char) : Option Metadata :=
  if file = path.toList then some ⟨[statement.toList], []⟩ else none

theorem relative_import_direct_script :
    100 ≤ score isAsciiWord [("src/feature/display.js".toList, [])]
      (oneImport "src/feature/display.js" "import labelFor from \"./labels.js\";")
      "src/feature/labels.js".toList := by
  have himports : Imports [("src/feature/display.js".toList, [])]
      (oneImport "src/feature/display.js" "import labelFor from \"./labels.js\";")
      "src/feature/display.js".toList "import labelFor from \"./labels.js\";".toList :=
    ⟨by simp, ⟨["import labelFor from \"./labels.js\";".toList], []⟩, by simp [oneImport],
      by simp⟩
  have hrelative : RelativeImport isAsciiWord "src/feature/display.js".toList
      "import labelFor from \"./labels.js\";".toList (.script "./labels.js".toList)
      ["src".toList, "feature".toList, "labels.js".toList] :=
    @RelativeImport.script _ _ _ "import labelFor from ".toList _ ";".toList '"' '"' _
      rfl rfl (by simp [isQuote]) (.inl (by decide)) rfl
      (.here (.inr rfl) (.down (by decide) (.nil _)))
  have hdenotes : Denotes ["src".toList, "feature".toList, "labels.js".toList]
      "src/feature/labels.js".toList := ⟨by simp, .inl (by decide)⟩
  obtain ⟨hdirect, hfound, -⟩ := relative_import_direct himports hrelative (by decide) hdenotes
  exact (hdirect (hfound "import labelFor from ".toList _ ";".toList '"' '"' rfl rfl
    (by simp [isQuote]) rfl rfl)).2

/-- A Python module that imports its neighbour does not depend on it. -/
theorem relative_python_missed :
    ¬∀ changed metadata path statement specifier target q,
      Imports changed metadata path statement →
      RelativeImport isAsciiWord path statement specifier target → Normal q →
      Denotes target q → direct isAsciiWord changed metadata q = true := by
  intro hclaim
  have hmissed : direct isAsciiWord [("pkg/a.py".toList, [])]
      (oneImport "pkg/a.py" "from .b import load") "pkg/b.py".toList = false := by decide +kernel
  have himports : Imports [("pkg/a.py".toList, [])] (oneImport "pkg/a.py" "from .b import load")
      "pkg/a.py".toList "from .b import load".toList :=
    ⟨by simp, ⟨["from .b import load".toList], []⟩, by simp [oneImport], by simp⟩
  have hrelative : RelativeImport isAsciiWord "pkg/a.py".toList "from .b import load".toList
      (.python 0 ["b".toList]) ["pkg".toList, "b".toList] :=
    @RelativeImport.python _ _ _ " ".toList " import load".toList 0 ["b".toList] (by decide)
      (List.forall_mem_singleton.mpr rfl) (by simp [isAsciiWord]) (by decide) ⟨' ', rfl, rfl⟩ rfl
      (by decide)
  have hdirect := hclaim _ _ _ _ _ _ "pkg/b.py".toList himports hrelative (by decide)
    ⟨by simp, .inr ⟨"py".toList, by decide, by decide⟩⟩
  rw [hmissed] at hdirect
  contradiction

end Prism.Retrieval
