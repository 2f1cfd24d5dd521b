import Prism.Model.Pipeline

/-! What a run of `analyze` has read when it returns, whatever GitHub answers. -/

namespace Prism.Pipeline

open Procedure (Meets)

/-! ## Statements -/

/-- GitHub gave an answer in a run. -/
def Answered (log : Log) (ask : Ask) (answer : Json) : Prop :=
  .answered ask (.ok answer) ∈ log

/-- GitHub gave the entries of a tree. -/
def TreeIs (log : Log) (sha : List Char) (entries : List Json) : Prop :=
  ∃ tree, Answered log (.tree sha) tree ∧ entriesOf tree = .ok entries

/-- A walk of trees from one tree along a path, and the entry it ends at. -/
inductive Walks (log : Log) : List Char → List (List Char) → Json → Prop
  | last {sha part : List Char} {entries : List Json} {item : Json} (tree : TreeIs log sha entries)
      (named : entryNamed part entries = .ok (some item)) : Walks log sha [part] item
  | inner {sha sha' part : List Char} {parts : List (List Char)} {entries : List Json}
      {item item' : Json} (tree : TreeIs log sha entries)
      (named : entryNamed part entries = .ok (some item)) (child : subtree item = .ok sha')
      (rest : Walks log sha' parts item') : Walks log sha (part :: parts) item'

/-- A walk from the commit of the head ends at a regular file whose blob has the SHA. -/
def Named (snap : Snapshot) (log : Log) (path sha : List Char) : Prop :=
  ∃ commit root item value, Answered log (.commit snap.headSha) commit ∧ rootOf commit = .ok root ∧
    Walks log root (Text.splitOn '/' path) item ∧ regular item = .ok true ∧
    get item "sha" .null = .ok value ∧ shaOf value = .ok sha

/-- The bytes that were read of a blob: those GitHub answered for its SHA, which names them. -/
structure Fetched (w : World) (log : Log) (sha : List Char) (source : List UInt8) : Prop where
  answered : ∃ blob, Answered log (.blob sha) blob ∧ sourceOf w source.length sha blob = .ok source
  hash : w.sha1 (blobHeader source.length ++ source) = sha

/-- A file entry shows the evaluation of the bytes of a blob. -/
structure Evaluated (w : World) (snap : Snapshot) (ignored : List (List Char)) (log : Log)
    (f : FileEntry) (path sha : List Char) (source : List UInt8) : Prop where
  filePath : f.filePath = String.ofList path
  sourceSha : f.sourceSha = some (String.ofList sha)
  fetched : Fetched w log sha source
  named : Named snap log path sha
  small : source.length ≤ maxFile
  result : ∃ result, w.parseFile path source (ignored.any (Glob.fnmatchcase path)) = some result ∧
    f.language = result.language ∧ f.status = result.status ∧ f.reasonCode = result.reason ∧
      f.ruleOutcomes = outcomesOf result

/-- What was read for a file: nothing, or the bytes it was evaluated on. -/
def ReadAs (w : World) (snap : Snapshot) (ignored : List (List Char)) (log : Log) (f : FileEntry)
    (source : Option (List UInt8)) : Prop :=
  (f.sourceSha = none ∧ source = none) ∨
    ∃ path sha bytes, source = some bytes ∧ Evaluated w snap ignored log f path sha bytes

def bytes (source : Option (List UInt8)) : ℕ :=
  (source.map List.length).getD 0

/-- A file entry is that of a listed file. -/
def EntryOf (item : Json) (f : FileEntry) : Prop :=
  ∃ path, get item "filename" .null = .ok (.str path) ∧ f.filePath = String.ofList path

/-- GitHub reports the base and the head of the snapshot. -/
structure Reports (snap : Snapshot) (row : Json) : Prop where
  base : ∃ base, get row "base" (.obj []) = .ok base ∧
    get base "sha" .null = .ok (.str snap.baseSha)
  head : ∃ head, get row "head" (.obj []) = .ok head ∧
    get head "sha" .null = .ok (.str snap.headSha)

/-- A run whose first and whose last answer report the snapshot. -/
structure Framed (snap : Snapshot) (log : Log) : Prop where
  answers : ∃ before row between row', log = before ++ .answered (.pull snap.number) (.ok row) ::
    (between ++ [.answered (.pull snap.number) (.ok row')]) ∧ (∀ e ∈ before, e = .checked) ∧
      Reports snap row ∧ Reports snap row'

/-- The result of a run against the answers of GitHub in it. -/
structure Lossless (w : World) (snap : Snapshot) (ignored : List (List Char)) (log : Log)
    (r : Result) : Prop where
  entries : ∃ items, Answered log (.files snap.number) (.arr items) ∧ List.Forall₂ EntryOf items r.files
  distinct : (r.files.map FileEntry.filePath).Nodup
  read : ∃ sources, List.Forall₂ (ReadAs w snap ignored log) r.files sources ∧
    (sources.map bytes).sum ≤ maxTotal
  findings : ∀ g ∈ r.findings, ∃ f ∈ r.files, f.filePath = g.filePath
  framed : Framed snap log

/-! ## Growing logs -/

section Growth

variable {log log' : Log}

theorem Answered.mono {ask : Ask} {answer : Json} (h : Answered log ask answer)
    (hlog : log <+: log') : Answered log' ask answer :=
  hlog.subset h

theorem TreeIs.mono {sha : List Char} {entries : List Json} (h : TreeIs log sha entries)
    (hlog : log <+: log') : TreeIs log' sha entries := by
  obtain ⟨tree, hanswered, hentries⟩ := h
  exact ⟨tree, hanswered.mono hlog, hentries⟩

theorem Walks.mono {sha : List Char} {parts : List (List Char)} {item : Json}
    (h : Walks log sha parts item) (hlog : log <+: log') : Walks log' sha parts item := by
  induction h with
  | last tree named => exact .last (tree.mono hlog) named
  | inner tree named child rest ih => exact .inner (tree.mono hlog) named child ih

theorem Named.mono {snap : Snapshot} {path sha : List Char} (h : Named snap log path sha)
    (hlog : log <+: log') : Named snap log' path sha := by
  obtain ⟨commit, root, item, value, hcommit, hroot, hwalks, hrest⟩ := h
  exact ⟨commit, root, item, value, hcommit.mono hlog, hroot, hwalks.mono hlog, hrest⟩

theorem Fetched.mono {w : World} {sha : List Char} {source : List UInt8}
    (h : Fetched w log sha source) (hlog : log <+: log') : Fetched w log' sha source := by
  obtain ⟨⟨blob, hanswered, hsource⟩, hhash⟩ := h
  exact ⟨⟨blob, hanswered.mono hlog, hsource⟩, hhash⟩

theorem ReadAs.mono {w : World} {snap : Snapshot} {ignored : List (List Char)} {f : FileEntry}
    {source : Option (List UInt8)} (h : ReadAs w snap ignored log f source) (hlog : log <+: log') :
    ReadAs w snap ignored log' f source := by
  rcases h with h | ⟨path, sha, bytes, hsource, h⟩
  · exact .inl h
  · exact .inr ⟨path, sha, bytes, hsource, { h with
      fetched := h.fetched.mono hlog
      named := h.named.mono hlog }⟩

/-- A fact about a log that what happens later does not change. -/
def Lasting (P : Log → Prop) : Prop :=
  ∀ log log' : Log, P log → log <+: log' → P log'

theorem Lasting.and {P Q : Log → Prop} (hP : Lasting P) (hQ : Lasting Q) :
    Lasting fun log => P log ∧ Q log := by
  intro log log' h hlog
  exact ⟨hP _ _ h.1 hlog, hQ _ _ h.2 hlog⟩

end Growth

/-! ## The steps -/

section Steps

variable {w : World} {snap : Snapshot} {P : Log → Prop}

/-- The trees that are held were given by GitHub, and a fact holds of the log. -/
structure Holds (P : Log → Prop) (s : State) : Prop where
  fact : P s.log
  trees : ∀ sha entries, s.trees.lookup sha = some entries → TreeIs s.log sha entries

theorem Holds.logged (hP : Lasting P) {s : State} (h : Holds P s) (e : Event) :
    Holds P { s with log := s.log ++ [e] } :=
  ⟨hP _ _ h.fact (List.prefix_append _ _),
    fun sha entries hl => (h.trees sha entries hl).mono (List.prefix_append _ _)⟩

theorem Holds.and {Q : Log → Prop} {s : State} (h : Holds P s) (hQ : Q s.log) :
    Holds (fun log => P log ∧ Q log) s :=
  ⟨⟨h.fact, hQ⟩, h.trees⟩

theorem ok_bind {α β : Type} {x : Except Fault α} {f : α → Except Fault β} {b : β}
    (h : x >>= f = .ok b) : ∃ a, x = .ok a ∧ f a = .ok b := by
  cases x with
  | error e => cases h
  | ok a => exact ⟨a, rfl, h⟩

theorem meets_give {α : Type} {R E : State → Prop} (r : Except Fault α) (hE : ∀ s, R s → E s) :
    Meets R (give r) (fun a s => R s ∧ r = .ok a) (fun _ => E) := by
  refine ⟨fun s hs => ?_⟩
  cases r with
  | error e => exact hE s hs
  | ok a => exact ⟨hs, rfl⟩

theorem checkpoint_eq (s : State) : checkpoint w s = match w.checkpoint s.log with
    | .ok _ => (.ok (), { s with log := s.log ++ [.checked] })
    | .error e => (.error e, s) := by
  rw [checkpoint]
  simp only [Bind.bind, Procedure.read, give, Procedure.give, Procedure.write]
  cases w.checkpoint s.log <;> rfl

theorem request_eq (ask : Ask) (s : State) : request w ask s =
    (w.answer s.log ask, { s with log := s.log ++ [.answered ask (w.answer s.log ask)] }) :=
  rfl

theorem meets_checkpoint (hP : Lasting P) :
    Meets (Holds P) (checkpoint w) (fun _ => Holds P) (fun _ => Holds P) := by
  refine ⟨fun s hs => ?_⟩
  rw [checkpoint_eq]
  cases w.checkpoint s.log with
  | error e => exact hs
  | ok u => exact hs.logged hP _

theorem meets_request (hP : Lasting P) (ask : Ask) :
    Meets (Holds P) (request w ask) (fun a s => Holds P s ∧ Answered s.log ask a)
      (fun _ => Holds P) := by
  refine ⟨fun s hs => ?_⟩
  rw [request_eq]
  have hlogged := hs.logged hP (.answered ask (w.answer s.log ask))
  cases hanswer : w.answer s.log ask with
  | error e =>
      rw [hanswer] at hlogged
      exact hlogged
  | ok a =>
      rw [hanswer] at hlogged
      exact ⟨hlogged, List.mem_append_right _ (List.mem_singleton_self _)⟩

/-- A tree that is asked for was given, now or before. -/
theorem meets_treeOf (hP : Lasting P) (sha : List Char) :
    Meets (Holds P) (treeOf w sha) (fun entries s => Holds P s ∧ TreeIs s.log sha entries)
      (fun _ => Holds P) := by
  refine Meets.bind (R := fun held s => Holds P s ∧ s.trees.lookup sha = held)
    ⟨fun s hs => ⟨hs, rfl⟩⟩ ?_
  intro held
  cases held with
  | some entries =>
      refine Procedure.meets_pure ?_
      intro s hs
      exact ⟨hs.1, hs.1.trees sha entries hs.2⟩
  | none =>
      refine Meets.bind ((meets_request hP (.tree sha)).before fun s hs => hs.1) ?_
      intro tree
      refine Meets.bind (meets_give (entriesOf tree) fun s hs => hs.1) ?_
      intro entries
      refine Meets.bind (R := fun _ s => Holds P s ∧ TreeIs s.log sha entries)
        (Procedure.meets_write ?_) ?_
      · rintro s ⟨⟨hs, htree⟩, hentries⟩
        have his : TreeIs s.log sha entries := ⟨tree, htree, hentries⟩
        refine ⟨⟨hs.fact, ?_⟩, his⟩
        intro sha' entries' hlookup
        rw [List.lookup_append, Option.or_eq_some_iff] at hlookup
        rcases hlookup with hold | ⟨-, hnew⟩
        · exact hs.trees sha' entries' hold
        · rw [List.lookup_cons] at hnew
          split at hnew
          · rename_i hsha
            cases hnew
            exact (eq_of_beq hsha) ▸ his
          · cases hnew
      · intro _
        exact Procedure.meets_pure fun s hs => hs

/-- A walk ends where GitHub's trees lead. -/
theorem meets_walkFrom (hP : Lasting P) (parts : List (List Char)) (sha : List Char) :
    Meets (Holds P) (walkFrom w sha parts) (fun item s => Holds P s ∧ Walks s.log sha parts item)
      (fun _ => Holds P) := by
  induction parts generalizing P sha with
  | nil => exact Procedure.meets_raise fun s hs => hs
  | cons part parts ih =>
      refine Meets.bind (meets_checkpoint hP) ?_
      intro _
      refine Meets.bind (meets_treeOf hP sha) ?_
      intro entries
      refine Meets.bind (meets_give (entryNamed part entries) fun s hs => hs.1) ?_
      intro found
      refine Meets.given fun hnamed => ?_
      cases found with
      | none => exact Procedure.meets_raise fun s hs => hs.1
      | some item =>
          dsimp only
          by_cases hparts : parts = []
          · rw [if_pos hparts]
            subst hparts
            refine Procedure.meets_pure ?_
            rintro s ⟨hs, htree⟩
            exact ⟨hs, .last htree hnamed⟩
          rw [if_neg hparts]
          refine Meets.bind (meets_give (subtree item) fun s hs => hs.1) ?_
          intro child
          refine Meets.given fun hchild => ?_
          have hlasting : Lasting fun log => P log ∧ TreeIs log sha entries :=
            hP.and fun log log' h hlog => h.mono hlog
          refine (ih hlasting child).weaken (fun s hs => hs.1.and hs.2) ?_ ?_
          · rintro item' s ⟨hs, hwalks⟩
            exact ⟨⟨hs.fact.1, hs.trees⟩, .inner hs.fact.2 hnamed hchild hwalks⟩
          · exact fun _ s hs => ⟨hs.fact.1, hs.trees⟩

/-- The bytes of a blob are those its SHA names. -/
theorem sourceOf_spec {size : ℕ} {sha : List Char} {blob : Json} {source : List UInt8}
    (h : sourceOf w size sha blob = .ok source) :
    source.length = size ∧ w.sha1 (blobHeader size ++ source) = sha := by
  unfold sourceOf at h
  split at h
  · obtain ⟨encoding, -, h⟩ := ok_bind h
    obtain ⟨content, -, h⟩ := ok_bind h
    split at h
    · split_ifs at h
      split at h
      · cases h
      · split_ifs at h with hwrong
        cases h
        rw [not_or, not_not, not_not] at hwrong
        exact hwrong
    · cases h
  · cases h

/-- What is known of a file that was read, or left unread. -/
inductive ReadOf (w : World) (snap : Snapshot) (ignored : List (List Char)) (path : List Char)
    (total : ℕ) (log : Log) : Outcome → Prop
  | nothing (status : FileStatus) (reason : FileReason) :
      ReadOf w snap ignored path total log (unread path status reason)
  | blob {sha : List Char} {source : List UInt8} {result : Evaluation}
      (named : Named snap log path sha) (fetched : Fetched w log sha source)
      (small : source.length ≤ maxFile) (fits : total + source.length ≤ maxTotal)
      (parsed : w.parseFile path source (ignored.any (Glob.fnmatchcase path)) = some result) :
      ReadOf w snap ignored path total log ⟨result, some sha, source.length⟩

/-- A walk from the commit of the head ends at an entry. -/
def WalkedTo (snap : Snapshot) (log : Log) (path : List Char) (item : Json) : Prop :=
  ∃ commit root, Answered log (.commit snap.headSha) commit ∧ rootOf commit = .ok root ∧
    Walks log root (Text.splitOn '/' path) item

theorem WalkedTo.mono {log log' : Log} {path : List Char} {item : Json}
    (h : WalkedTo snap log path item) (hlog : log <+: log') : WalkedTo snap log' path item := by
  obtain ⟨commit, root, hcommit, hroot, hwalks⟩ := h
  exact ⟨commit, root, hcommit.mono hlog, hroot, hwalks.mono hlog⟩

/-- How a file, removed or not, came to its outcome. -/
inductive Handled (w : World) (snap : Snapshot) (ignored : List (List Char)) (path : List Char)
    (total : ℕ) (log : Log) : Bool → Outcome → Prop
  | removed : Handled w snap ignored path total log true (unread path .excluded .removed)
  | special {item : Json} (walked : WalkedTo snap log path item)
      (special : regular item = .ok false) :
      Handled w snap ignored path total log false (unread path .excluded .nonRegularFile)
  | failed {status : FileStatus} {reason : FileReason}
      (failed : limited (unread path status reason).result = true) :
      Handled w snap ignored path total log false (unread path status reason)
  | blob {sha : List Char} {source : List UInt8} {result : Evaluation}
      (named : Named snap log path sha) (fetched : Fetched w log sha source)
      (small : source.length ≤ maxFile) (fits : total + source.length ≤ maxTotal)
      (parsed : w.parseFile path source (ignored.any (Glob.fnmatchcase path)) = some result) :
      Handled w snap ignored path total log false ⟨result, some sha, source.length⟩

theorem Handled.readOf {ignored : List (List Char)} {path : List Char} {total : ℕ} {log : Log}
    {removed : Bool} {o : Outcome} (h : Handled w snap ignored path total log removed o) :
    ReadOf w snap ignored path total log o := by
  cases h with
  | removed => exact .nothing _ _
  | special walked special => exact .nothing _ _
  | failed failed => exact .nothing _ _
  | blob named fetched small fits parsed => exact .blob named fetched small fits parsed

theorem meets_readBlob (hP : Lasting P) {ignored : List (List Char)} {path : List Char}
    {item : Json} {size : ℕ} (total : ℕ) (hsmall : size ≤ maxFile) (hfits : total + size ≤ maxTotal)
    (hnamed : ∀ log value sha, P log → get item "sha" .null = .ok value → shaOf value = .ok sha →
      Named snap log path sha) :
    Meets (Holds P) (readBlob w ignored path item size)
      (fun o s => Holds P s ∧ Handled w snap ignored path total s.log false o)
      (fun _ => Holds P) := by
  refine Meets.bind (meets_give _ fun s hs => hs) ?_
  intro sha
  refine Meets.given fun hsha => ?_
  obtain ⟨value, hvalue, hsha⟩ := ok_bind hsha
  refine Meets.bind (meets_checkpoint hP) ?_
  intro _
  refine Meets.bind (meets_request hP (.blob sha)) ?_
  intro blob
  refine Meets.bind (meets_give (sourceOf w size sha blob) fun s hs => hs.1) ?_
  intro source
  refine Meets.given fun hsource => ?_
  obtain ⟨rfl, hhash⟩ := sourceOf_spec hsource
  cases hparse : w.parseFile path source (ignored.any (Glob.fnmatchcase path)) with
  | none => exact Procedure.meets_raise fun s hs => hs.1
  | some result =>
      refine Procedure.meets_pure fun s hs => ⟨hs.1, ?_⟩
      exact .blob (hnamed _ _ _ hs.1.fact hvalue hsha) ⟨⟨blob, hs.2, hsource⟩, hhash⟩ hsmall hfits
        hparse

theorem meets_evaluateFile (hP : Lasting P) {root : List Char} {ignored : List (List Char)}
    {total : ℕ} {path : List Char} (hroot : ∀ log, P log → ∃ commit,
      Answered log (.commit snap.headSha) commit ∧ rootOf commit = .ok root) :
    Meets (Holds P) (evaluateFile w root ignored total path)
      (fun o s => Holds P s ∧ Handled w snap ignored path total s.log false o)
      (fun _ => Holds P) := by
  have hwalkedTo : ∀ {log item}, P log → Walks log root (Text.splitOn '/' path) item →
      WalkedTo snap log path item := by
    intro log item hfact hwalks
    obtain ⟨commit, hcommit, hrootOf⟩ := hroot log hfact
    exact ⟨commit, root, hcommit, hrootOf, hwalks⟩
  refine Meets.bind (meets_walkFrom hP _ root) ?_
  intro item
  refine Meets.bind (meets_give (get item "size" .null) fun s hs => hs.1) ?_
  intro size
  refine Meets.given fun _ => ?_
  refine Meets.bind (meets_give (regular item) fun s hs => hs.1) ?_
  intro isRegular
  refine Meets.given fun hregular => ?_
  cases isRegular with
  | false =>
      refine Procedure.meets_pure fun s hs => ⟨hs.1, ?_⟩
      exact .special (hwalkedTo hs.1.fact hs.2) hregular
  | true =>
      rw [if_neg (by simp)]
      cases size with
      | int size =>
          dsimp only
          by_cases hneg : size < 0
          · rw [if_pos hneg]
            exact Procedure.meets_raise fun s hs => hs.1
          rw [if_neg hneg]
          by_cases hlimit : (maxFile : ℤ) < size ∨ (maxTotal : ℤ) < total + size
          · rw [if_pos hlimit]
            exact Procedure.meets_pure fun s hs => ⟨hs.1, .failed rfl⟩
          rw [if_neg hlimit]
          rw [not_or] at hlimit
          have hlasting : Lasting fun log =>
              P log ∧ Walks log root (Text.splitOn '/' path) item :=
            hP.and fun log log' h hlog => h.mono hlog
          refine (meets_readBlob hlasting total (by omega) (by omega) ?_).weaken
            (fun s hs => hs.1.and hs.2) (fun o s hs => ⟨⟨hs.1.fact.1, hs.1.trees⟩, hs.2⟩)
            (fun _ s hs => ⟨hs.fact.1, hs.trees⟩)
          rintro log value sha ⟨hfact, hwalks⟩ hvalue hsha
          obtain ⟨commit, root, hcommit, hrootOf, hwalks⟩ := hwalkedTo hfact hwalks
          exact ⟨commit, root, item, value, hcommit, hrootOf, hwalks, hregular, hvalue, hsha⟩
      | _ => exact Procedure.meets_raise fun s hs => hs.1

theorem meets_absorb {path : List Char} {ignored : List (List Char)} {total : ℕ} (fault : Fault) :
    Meets (Holds P) (absorb path fault)
      (fun o s => Holds P s ∧ Handled w snap ignored path total s.log false o)
      (fun _ => Holds P) := by
  unfold absorb
  split
  · split_ifs
    · exact Procedure.meets_raise fun s hs => hs
    · exact Procedure.meets_pure fun s hs => ⟨hs, .failed rfl⟩
  · exact Procedure.meets_raise fun s hs => hs

theorem meets_outcomeOf (hP : Lasting P) {root : List Char} {ignored : List (List Char)}
    {total : ℕ} {path : List Char} (hroot : ∀ log, P log → ∃ commit,
      Answered log (.commit snap.headSha) commit ∧ rootOf commit = .ok root) (removed : Bool) :
    Meets (Holds P) (outcomeOf w root ignored total path removed)
      (fun o s => Holds P s ∧ Handled w snap ignored path total s.log removed o)
      (fun _ => Holds P) := by
  cases removed with
  | true => exact Procedure.meets_pure fun s hs => ⟨hs, .removed⟩
  | false => exact Meets.attempt (meets_evaluateFile hP hroot) meets_absorb

end Steps

/-! ## The loop -/

section Loop

variable {w : World} {snap : Snapshot} {ignored : List (List Char)} {P : Log → Prop}

/-- What the loop has kept of the items it is through with. -/
structure Kept (w : World) (snap : Snapshot) (ignored : List (List Char)) (items : List Json)
    (p : Progress) (log : Log) : Prop where
  entries : List.Forall₂ EntryOf items p.files
  paths : p.files.map FileEntry.filePath = p.paths.map String.ofList
  distinct : p.paths.Nodup
  read : ∃ sources, List.Forall₂ (ReadAs w snap ignored log) p.files sources ∧
    (sources.map bytes).sum = p.total
  fits : p.total ≤ maxTotal
  findings : ∀ g ∈ p.findings, ∃ f ∈ p.files, f.filePath = g.filePath

theorem Kept.lasting (items : List Json) (p : Progress) : Lasting (Kept w snap ignored items p) := by
  intro log log' h hlog
  obtain ⟨sources, hsources, hsum⟩ := h.read
  exact { h with read := ⟨sources, hsources.imp fun _ _ hread => hread.mono hlog, hsum⟩ }

theorem Kept.start (limited : Bool) (log : Log) :
    Kept w snap ignored [] ⟨[], [], 0, limited, []⟩ log :=
  ⟨.nil, rfl, .nil, ⟨[], .nil, rfl⟩, Nat.zero_le _, by simp⟩

theorem safePath_spec {value : Json} {path : List Char} (h : safePath value = .ok path) :
    value = .str path := by
  unfold safePath at h
  split at h
  · split_ifs at h
    cases h
    rfl
  · cases h

/-- What is known of a file is what its entry shows. -/
theorem ReadOf.readAs {path : List Char} {total : ℕ} {log : Log} {o : Outcome}
    (h : ReadOf w snap ignored path total log o) (removed : Bool) : ∃ source,
    ReadAs w snap ignored log (fileOf w path removed o) source ∧ bytes source = o.size := by
  cases h with
  | nothing status reason => exact ⟨none, .inl ⟨rfl, rfl⟩, rfl⟩
  | @blob sha source result named fetched small fits parsed =>
      exact ⟨some source, .inr ⟨path, sha, source, rfl, rfl, rfl, fetched, named, small, result,
        parsed, rfl, rfl, rfl, rfl⟩, rfl⟩

theorem ReadOf.fits {path : List Char} {total : ℕ} {log : Log} {o : Outcome}
    (h : ReadOf w snap ignored path total log o) (htotal : total ≤ maxTotal) :
    total + o.size ≤ maxTotal := by
  cases h with
  | nothing status reason => exact htotal
  | blob named fetched small fits parsed => exact fits

theorem findingOf_path {path : List Char} {ranges : Option (Finset ℕ)}
    {language : Option Language} {f : Observed} {g : FindingEntry}
    (h : findingOf w path ranges language f = .ok g) : g.filePath = String.ofList path := by
  unfold findingOf at h
  split at h
  · cases h
  · cases h
    rfl

theorem mapM_path {path : List Char} {ranges : Option (Finset ℕ)} {language : Option Language}
    {fs : List Observed} {gs : List FindingEntry}
    (h : fs.mapM (findingOf w path ranges language) = .ok gs) :
    ∀ g ∈ gs, g.filePath = String.ofList path := by
  induction fs generalizing gs with
  | nil =>
      cases h
      simp
  | cons f fs ih =>
      rw [List.mapM_cons] at h
      obtain ⟨g, hg, h⟩ := ok_bind h
      obtain ⟨gs', hgs, h⟩ := ok_bind h
      cases h
      exact List.forall_mem_cons.mpr ⟨findingOf_path hg, ih hgs⟩

/-- The progress after a file. -/
def Progress.next (w : World) (p : Progress) (path : List Char) (removed : Bool) (o : Outcome)
    (findings : List FindingEntry) : Progress where
  files := p.files ++ [fileOf w path removed o]
  findings := p.findings ++ findings
  total := p.total + o.size
  limited := p.limited || Pipeline.limited o.result
  paths := p.paths ++ [path]

/-- What one turn of the loop finds of a listed file. -/
structure Turn (w : World) (snap : Snapshot) (ignored : List (List Char)) (p : Progress)
    (change : Json) (log : Log) (path : List Char) (removed : Bool) (o : Outcome)
    (findings : List FindingEntry) : Prop where
  filename : get change "filename" .null = .ok (.str path)
  fresh : path ∉ p.paths
  status : ∃ status, get change "status" .null = .ok status ∧
    removed = decide (text? status = some "removed".toList)
  handled : Handled w snap ignored path p.total log removed o
  findings : ∃ ranges, o.result.findings.mapM (findingOf w path ranges o.result.language) =
    .ok findings

/-- One more item. -/
theorem Kept.add {items : List Json} {p : Progress} {log : Log} (h : Kept w snap ignored items p log)
    {change : Json} {path : List Char} {removed : Bool} {o : Outcome}
    {findings : List FindingEntry} (ht : Turn w snap ignored p change log path removed o findings) :
    Kept w snap ignored (items ++ [change]) (p.next w path removed o findings) log := by
  have hname := ht.filename
  have hnew := ht.fresh
  have hread := ht.handled.readOf
  obtain ⟨ranges, hmap⟩ := ht.findings
  have hfindings := mapM_path hmap
  obtain ⟨sources, hsources, hsum⟩ := h.read
  obtain ⟨source, hsource, hbytes⟩ := hread.readAs removed
  constructor
  · exact List.rel_append h.entries (.cons ⟨path, hname, rfl⟩ .nil)
  · rw [Progress.next, List.map_append, List.map_append, h.paths]
    rfl
  · exact List.nodup_append.mpr ⟨h.distinct, List.nodup_singleton _, by
      rintro a ha b hb rfl
      exact hnew (List.mem_singleton.mp hb ▸ ha)⟩
  · exact ⟨sources ++ [source], List.rel_append hsources (.cons hsource .nil), by
      simp [Progress.next, hsum, hbytes]⟩
  · exact hread.fits h.fits
  · intro g hg
    rcases List.mem_append.mp hg with hg | hg
    · obtain ⟨f, hf, hpath⟩ := h.findings g hg
      exact ⟨f, List.mem_append_left _ hf, hpath⟩
    · exact ⟨_, List.mem_append_right _ (List.mem_singleton_self _), (hfindings g hg).symm⟩

theorem meets_analyzeChange {J : Progress → Log → Prop} (hP : Lasting P) {root : List Char}
    (hroot : ∀ log, P log → ∃ commit, Answered log (.commit snap.headSha) commit ∧
      rootOf commit = .ok root) (p : Progress) (change : Json)
    (hstep : ∀ {log path removed o findings}, P log →
      Turn w snap ignored p change log path removed o findings →
        J (p.next w path removed o findings) log) :
    Meets (Holds P) (analyzeChange w root ignored p change) (fun p' => Holds (J p'))
      (fun _ _ => True) := by
  refine Meets.andThen (meets_checkpoint hP) (fun _ _ _ => trivial) ?_
  intro _
  cases change with
  | obj ms =>
      refine Meets.bind (meets_give _ fun _ _ => trivial) ?_
      intro path
      refine Meets.given fun hpath => ?_
      obtain ⟨value, hvalue, hsafe⟩ := ok_bind hpath
      rw [safePath_spec hsafe] at hvalue
      by_cases hold : path ∈ p.paths
      · rw [if_pos hold]
        exact Procedure.meets_raise fun _ _ => trivial
      rw [if_neg hold]
      refine Meets.bind (meets_give _ fun _ _ => trivial) ?_
      intro ranges
      refine Meets.given fun _ => ?_
      refine Meets.bind (meets_give _ fun _ _ => trivial) ?_
      intro status
      refine Meets.given fun hstatus => ?_
      refine Meets.andThen (meets_outcomeOf hP hroot _) (fun _ _ _ => trivial) ?_
      intro o
      refine Meets.bind (meets_give _ fun _ _ => trivial) ?_
      intro findings
      refine Meets.given fun hfindings => ?_
      refine Procedure.meets_pure ?_
      rintro s ⟨hs, hhandled⟩
      refine ⟨hstep hs.fact ?_, hs.trees⟩
      exact ⟨hvalue, hold, ⟨status, hstatus, rfl⟩, hhandled, ranges, hfindings⟩
  | _ => exact Procedure.meets_raise fun _ _ => trivial

/-- What every turn keeps, the loop keeps. -/
theorem meets_loop {K : List Json → Progress → Log → Prop} (hK : ∀ items p, Lasting (K items p))
    {root : List Char} (hroot : ∀ items p log, K items p log → ∃ commit,
      Answered log (.commit snap.headSha) commit ∧ rootOf commit = .ok root)
    (hstep : ∀ {items p change log path removed o findings}, K items p log →
      Turn w snap ignored p change log path removed o findings →
        K (items ++ [change]) (p.next w path removed o findings) log)
    (changes items : List Json) (p : Progress) :
    Meets (Holds (K items p)) (changes.foldlM (analyzeChange w root ignored) p)
      (fun p' => Holds (K (items ++ changes) p')) (fun _ _ => True) := by
  induction changes generalizing items p with
  | nil =>
      rw [List.append_nil]
      exact Procedure.meets_pure fun s hs => hs
  | cons change changes ih =>
      rw [List.foldlM_cons]
      refine Meets.bind (meets_analyzeChange (hK items p) (hroot items p) p change hstep) ?_
      intro p'
      rw [List.append_cons items change changes]
      exact ih _ p'

end Loop

/-! ## The run -/

section Whole

variable {w : World} {snap : Snapshot} {ignored : List (List Char)} {P : Log → Prop}

theorem countOf_reports {row : Json} {count : ℕ} (h : countOf snap row = .ok count) :
    Reports snap row := by
  have htext : ∀ {j : Json} {t : List Char}, text? j = some t → j = .str t := by
    intro j t hj
    cases j with
    | str s => exact congrArg Json.str (Option.some.inj hj)
    | _ => cases hj
  unfold countOf at h
  cases row with
  | obj ms =>
      obtain ⟨base, hbase, h⟩ := ok_bind h
      obtain ⟨baseSha, hbaseSha, h⟩ := ok_bind h
      split_ifs at h with hbaseOther
      obtain ⟨head, hhead, h⟩ := ok_bind h
      obtain ⟨headSha, hheadSha, h⟩ := ok_bind h
      split_ifs at h with hheadOther
      rw [not_not] at hbaseOther hheadOther
      rw [htext hbaseOther] at hbaseSha
      rw [htext hheadOther] at hheadSha
      exact ⟨⟨base, hbase, hbaseSha⟩, head, hhead, hheadSha⟩
  | _ => cases h

/-- A verification ends with an answer that reports the snapshot. -/
theorem meets_verify (hP : Lasting P) :
    Meets (Holds P) (verify w snap) (fun _ s => (∃ log row, P log ∧ Reports snap row ∧
        s.log = log ++ [.answered (.pull snap.number) (.ok row)]) ∧
          ∀ sha entries, s.trees.lookup sha = some entries → TreeIs s.log sha entries)
      (fun _ _ => True) := by
  refine Meets.andThen (meets_checkpoint hP) (fun _ _ _ => trivial) ?_
  intro _
  refine Meets.bind (R := fun row s => (∃ log, P log ∧
      s.log = log ++ [.answered (.pull snap.number) (.ok row)]) ∧
        ∀ sha entries, s.trees.lookup sha = some entries → TreeIs s.log sha entries) ?_ ?_
  · refine ⟨fun s hs => ?_⟩
    rw [request_eq]
    have htrees := (hs.logged hP (.answered (.pull snap.number)
      (w.answer s.log (.pull snap.number)))).trees
    cases hanswer : w.answer s.log (.pull snap.number) with
    | error e => trivial
    | ok row =>
        rw [hanswer] at htrees
        exact ⟨⟨s.log, hs.fact, rfl⟩, htrees⟩
  intro row
  refine (meets_give (countOf snap row) fun _ _ => trivial).weaken (fun _ h => h) ?_
    (fun _ _ h => h)
  rintro count s ⟨⟨⟨log, hfact, hlog⟩, htrees⟩, hcount⟩
  exact ⟨⟨log, row, hfact, countOf_reports hcount, hlog⟩, htrees⟩

/-- The first answers of a run: nothing but checkpoints, and the snapshot. -/
def Begun (snap : Snapshot) (log : Log) : Prop :=
  ∃ before row after, log = before ++ .answered (.pull snap.number) (.ok row) :: after ∧
    (∀ e ∈ before, e = .checked) ∧ Reports snap row

theorem begun_lasting : Lasting (Begun snap) := by
  rintro log log' ⟨before, row, after, rfl, hbefore, hrow⟩ ⟨more, rfl⟩
  exact ⟨before, row, after ++ more, by simp, hbefore, hrow⟩

/-- The number of changed files that was reported. -/
def Counted (snap : Snapshot) (count : ℕ) (log : Log) : Prop :=
  ∃ row, Answered log (.pull snap.number) row ∧ countOf snap row = .ok count

theorem counted_lasting (count : ℕ) : Lasting (Counted snap count) := by
  rintro log log' ⟨row, hrow, hcount⟩ hlog
  exact ⟨row, hrow.mono hlog, hcount⟩

theorem answered_lasting (ask : Ask) (answer : Json) : Lasting fun log => Answered log ask answer :=
  fun _ _ h hlog => h.mono hlog

theorem changesOf_spec {count : ℕ} {answer : Json} {items : List Json}
    (h : changesOf count answer = .ok items) :
    answer = .arr items ∧ items.length = min count maxFiles := by
  unfold changesOf at h
  split at h
  · split_ifs at h with hlength
    cases h
    exact ⟨rfl, hlength⟩
  · cases h

/-- Before the first answer there are only checkpoints. -/
theorem meets_begin : Meets (fun s : State => s.trees = [] ∧ ∀ e ∈ s.log, e = .checked)
    (checkpoint w) (fun _ s => s.trees = [] ∧ ∀ e ∈ s.log, e = .checked) (fun _ _ => True) := by
  refine ⟨fun s hs => ?_⟩
  rw [checkpoint_eq]
  cases w.checkpoint s.log with
  | error e => trivial
  | ok u =>
      refine ⟨hs.1, ?_⟩
      exact List.forall_mem_append.mpr ⟨hs.2, List.forall_mem_singleton.mpr rfl⟩

theorem meets_verify_first : Meets (fun s : State => s.trees = [] ∧ ∀ e ∈ s.log, e = .checked)
    (verify w snap) (fun count => Holds fun log => Begun snap log ∧ Counted snap count log)
      (fun _ _ => True) := by
  refine Meets.bind meets_begin ?_
  intro _
  refine Meets.bind (R := fun row s => s.trees = [] ∧ ∃ log, (∀ e ∈ log, e = .checked) ∧
    s.log = log ++ [.answered (.pull snap.number) (.ok row)]) ?_ ?_
  · refine ⟨fun s hs => ?_⟩
    rw [request_eq]
    cases hanswer : w.answer s.log (.pull snap.number) with
    | error e => trivial
    | ok row => exact ⟨hs.1, s.log, hs.2, rfl⟩
  intro row
  refine (meets_give (countOf snap row) fun _ _ => trivial).weaken (fun _ h => h) ?_
    (fun _ _ h => h)
  rintro count s ⟨⟨htrees, log, hbefore, hlog⟩, hcount⟩
  refine ⟨⟨⟨log, row, [], hlog, hbefore, countOf_reports hcount⟩, row, ?_, hcount⟩, ?_⟩
  · rw [Answered, hlog]
    exact List.mem_append_right _ (List.mem_singleton_self _)
  intro sha entries hlookup
  rw [htrees] at hlookup
  cases hlookup

/-- What is known once the files are listed. -/
def Listed (snap : Snapshot) (changes : List Json) (log : Log) : Prop :=
  Begun snap log ∧ Answered log (.files snap.number) (.arr changes)

theorem listed_lasting (changes : List Json) : Lasting (Listed snap changes) :=
  begun_lasting.and (answered_lasting (.files snap.number) (.arr changes))

theorem Kept.lossless {changes : List Json} {p : Progress} {log : Log} {row : Json} (count : ℕ)
    (hlisted : Listed snap changes log) (hkept : Kept w snap ignored changes p log)
    (hrow : Reports snap row) :
    Lossless w snap ignored (log ++ [.answered (.pull snap.number) (.ok row)])
      (resultOf count p) := by
  obtain ⟨⟨before, row', after, hlog, hbefore, hrow'⟩, hfiles⟩ := hlisted
  have hmore : log <+: log ++ [.answered (.pull snap.number) (.ok row)] := List.prefix_append _ _
  obtain ⟨sources, hsources, hsum⟩ := (Kept.lasting changes p _ _ hkept hmore).read
  constructor
  · exact ⟨changes, hfiles.mono hmore, hkept.entries⟩
  · change (p.files.map FileEntry.filePath).Nodup
    rw [hkept.paths]
    exact hkept.distinct.map fun s t hst => String.ofList_injective hst
  · exact ⟨sources, hsources, hsum ▸ hkept.fits⟩
  · exact hkept.findings
  · exact ⟨before, row', after, row, by simp [hlog], hbefore, hrow', hrow⟩

/-- What is known of a run that returns, by what its loop keeps. -/
inductive Returns (snap : Snapshot) (K : ℕ → List Json → Progress → Log → Prop) :
    Result → Log → Prop
  | intro {count : ℕ} {items : List Json} {p : Progress} {log : Log} {row : Json}
      (listed : Listed snap items log) (counted : Counted snap count log)
      (length : items.length = min count maxFiles) (kept : K count items p log)
      (reports : Reports snap row) :
      Returns snap K (resultOf count p) (log ++ [.answered (.pull snap.number) (.ok row)])

/-- What holds before the first file and is kept by every turn holds when a run returns. -/
theorem meets_analyze {K : ℕ → List Json → Progress → Log → Prop}
    (hK : ∀ count items p, Lasting (K count items p))
    (hstart : ∀ count log, K count [] ⟨[], [], 0, maxFiles < count, []⟩ log)
    (hstep : ∀ {count items p change log path removed o findings}, K count items p log →
      Turn w snap ignored p change log path removed o findings →
        K count (items ++ [change]) (p.next w path removed o findings) log) :
    Meets (fun s => s = ⟨[], []⟩) (analyze w snap ignored) (fun r s => Returns snap K r s.log)
      (fun _ _ => True) := by
  refine Meets.bind (meets_begin.before ?_) ?_
  · rintro s rfl
    exact ⟨rfl, by simp⟩
  intro _
  refine Meets.bind (meets_give _ fun _ _ => trivial) ?_
  intro _
  refine Meets.given fun _ => ?_
  refine Meets.bind meets_verify_first ?_
  intro count
  have hbegun : Lasting fun log => Begun snap log ∧ Counted snap count log :=
    begun_lasting.and (counted_lasting count)
  refine Meets.andThen (meets_request hbegun _) (fun _ _ _ => trivial) ?_
  intro answer
  refine Meets.bind (meets_give (changesOf count answer) fun _ _ => trivial) ?_
  intro changes
  refine Meets.given fun hchanges => ?_
  obtain ⟨rfl, hlength⟩ := changesOf_spec hchanges
  have hlisted : Lasting fun log => Listed snap changes log ∧ Counted snap count log :=
    (listed_lasting changes).and (counted_lasting count)
  refine Meets.andThen ((meets_checkpoint hlisted).before fun s hs =>
    ⟨⟨⟨hs.1.fact.1, hs.2⟩, hs.1.fact.2⟩, hs.1.trees⟩) (fun _ _ _ => trivial) ?_
  intro _
  refine Meets.andThen (meets_request hlisted _) (fun _ _ _ => trivial) ?_
  intro commit
  refine Meets.bind (meets_give (rootOf commit) fun _ _ => trivial) ?_
  intro root
  refine Meets.given fun hroot => ?_
  have hkept : ∀ items p, Lasting fun log =>
      ((Listed snap changes log ∧ Counted snap count log) ∧
        Answered log (.commit snap.headSha) commit) ∧ K count items p log := fun items p =>
    (hlisted.and (answered_lasting _ commit)).and (hK count items p)
  refine Meets.bind ((meets_loop hkept (fun items p log h => ⟨commit, h.1.2, hroot⟩)
    (fun h ht => ⟨h.1, hstep h.2 ht⟩) changes [] _).before
      fun s hs => (hs.1.and hs.2).and (hstart count s.log)) ?_
  intro p
  refine Meets.bind (meets_verify (hkept _ p)) ?_
  intro _
  refine Procedure.meets_pure ?_
  rintro s ⟨⟨log, row, ⟨⟨⟨hlisted, hcounted⟩, -⟩, hkept⟩, hrow, hlog⟩, -⟩
  rw [hlog]
  exact .intro hlisted hcounted hlength hkept hrow

/-- Whatever GitHub answers, a run of the analysis raises or loses nothing. -/
theorem analyze_lossless (w : World) (snap : Snapshot) (ignored : List (List Char)) :
    Meets (fun s => s = ⟨[], []⟩) (analyze w snap ignored)
      (fun r s => Lossless w snap ignored s.log r) (fun _ _ => True) := by
  refine (meets_analyze (K := fun _ => Kept w snap ignored) (fun _ => Kept.lasting)
    (fun _ => Kept.start _) fun h ht => h.add ht).weaken (fun _ h => h) ?_ (fun _ _ h => h)
  intro r s h
  generalize s.log = log at h ⊢
  cases h with
  | intro listed counted length kept reports => exact kept.lossless _ listed reports

def shaOfOne : List Char :=
  List.replicate 40 'a'

/-- A world whose pull request adds one file of three bytes. -/
def oneFile : World where
  installationToken := .ok []
  answer _ ask := .ok <| match ask with
    | .pull _ => .obj [("base".toList, .obj [("sha".toList, .str ['b'])]),
        ("head".toList, .obj [("sha".toList, .str ['h'])]), ("changed_files".toList, .int 1)]
    | .files _ => .arr [.obj [("filename".toList, .str "a.py".toList)]]
    | .commit _ => .obj [("tree".toList, .obj [("sha".toList, .str shaOfOne)])]
    | .tree _ => .obj [("tree".toList, .arr [.obj [("path".toList, .str "a.py".toList),
        ("mode".toList, .str "100644".toList), ("type".toList, .str "blob".toList),
        ("size".toList, .int 3), ("sha".toList, .str shaOfOne)]])]
    | .blob _ => .obj [("encoding".toList, .str "base64".toList),
        ("content".toList, .str "aGkh\n".toList)]
  checkpoint _ := .ok ()
  parseFile _ _ _ := some ⟨some .python, .included, none, [], applicable (some .python), [], false⟩
  sha1 _ := shaOfOne
  digest _ := ""

example : ((analyze oneFile ⟨1, ['b'], ['h']⟩ [] ⟨[], []⟩).1.toOption.map fun r =>
    (r.files.map FileEntry.sourceSha, r.coverage)) =
      some ([some (String.ofList shaOfOne)], .fullScope) := by
  decide +kernel

end Whole

end Prism.Pipeline
