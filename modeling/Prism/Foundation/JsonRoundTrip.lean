import Prism.Foundation.JsonReader

/-! A printed JSON value is read back. -/

namespace Json

/-- What a number may be followed by. -/
def Stops (rest : List Char) : Prop :=
  ∀ c ∈ rest.head?, isNumberChar c = false

/-- A literal that `readNumber` reads as itself. -/
structure FloatLiteral (literal : List Char) : Prop where
  chars : ∀ c ∈ literal, isNumberChar c = true
  notInt : readInt literal = none
  shape : floatLiteral.fullmatch literal = true

/-- The values a dictionary of the code can stand for: keys are distinct, and a number
that is no integer has the literal of one, or a name. -/
inductive WellFormed : Json → Prop where
  | null : WellFormed null
  | bool (b : Bool) : WellFormed (bool b)
  | int (n : ℤ) : WellFormed (int n)
  | float {literal : List Char} (h : FloatLiteral literal) : WellFormed (float literal)
  | constant {name : List Char} (h : (name, float name) ∈ keywords) : WellFormed (float name)
  | str (text : List Char) : WellFormed (str text)
  | arr {js : List Json} (h : ∀ j ∈ js, WellFormed j) : WellFormed (arr js)
  | obj {ms : List (List Char × Json)} (keys : (ms.map Prod.fst).Nodup)
      (h : ∀ m ∈ ms, WellFormed m.2) : WellFormed (obj ms)

/-- Separators that are read back. -/
structure Readable (sep : Separators) : Prop where
  item : ∃ blanks, sep.item = ',' :: blanks ∧ ∀ c ∈ blanks, isBlank c = true
  key : ∃ blanks, sep.key = ':' :: blanks ∧ ∀ c ∈ blanks, isBlank c = true

theorem readable_compact : Readable compact :=
  ⟨⟨[], rfl, by simp⟩, ⟨[], rfl, by simp⟩⟩

theorem readable_spaced : Readable spaced :=
  ⟨⟨[' '], rfl, by simp [isBlank]⟩, ⟨[' '], rfl, by simp [isBlank]⟩⟩

theorem hexValue_digitChar : ∀ n < 16, hexValue (Nat.digitChar n) = some n := by
  decide

theorem readChar_escapeChar (c : Char) (s : List Char) :
    readChar (escapeChar c ++ s) = some (c, s) := by
  unfold escapeChar
  split_ifs with hquote hslash hn hr ht hb hf hlow
  · simp [readChar, readEscape, shortEscape, hquote]
  · simp [readChar, readEscape, shortEscape, hslash, List.lookup_cons]
  · simp [readChar, readEscape, shortEscape, hn, List.lookup_cons]
  · simp [readChar, readEscape, shortEscape, hr, List.lookup_cons]
  · simp [readChar, readEscape, shortEscape, ht, List.lookup_cons]
  · simp [readChar, readEscape, shortEscape, hb, List.lookup_cons]
  · simp [readChar, readEscape, shortEscape, hf, List.lookup_cons]
  · have hhigh := hexValue_digitChar (c.toNat / 16) (by omega)
    have hdigit := hexValue_digitChar (c.toNat % 16) (by omega)
    have hzero : hexValue '0' = some 0 := by decide
    have hunit : c.toNat / 16 * 16 + c.toNat % 16 = c.toNat := by omega
    have hsurrogate : ¬ (0xD800 ≤ c.toNat ∧ c.toNat < 0xDC00) := by omega
    have hlone : ¬ (0xDC00 ≤ c.toNat ∧ c.toNat < 0xE000) := by omega
    simp [readChar, readEscape, readUnicode, readHex, hhigh, hdigit, hzero, hunit, hsurrogate,
      hlone]
  · simp [readChar, hslash, hlow]

theorem head_escapeChar (c : Char) (s : List Char) : (escapeChar c ++ s).head? ≠ some '"' := by
  unfold escapeChar
  split_ifs <;> simp_all

/-- A string literal is read back. -/
theorem readString_escape (t rest : List Char) {n : ℕ} (hn : t.length < n) :
    readString n (escape t ++ '"' :: rest) = some (t, rest) := by
  induction t generalizing n with
  | nil =>
      cases n with
      | zero => omega
      | succ n => simp [escape, readString]
  | cons c t ih =>
      cases n with
      | zero => omega
      | succ n =>
          have ht := ih (n := n) (by simpa using hn)
          have hsplit : escape (c :: t) ++ '"' :: rest =
              escapeChar c ++ (escape t ++ '"' :: rest) := by
            simp [escape]
          rw [hsplit, readString, if_neg (head_escapeChar c _), readChar_escapeChar]
          simp [ht]

theorem toDigits_head {n : ℕ} (h : (Nat.toDigits 10 n).head? = some '0') : n = 0 := by
  induction n using Nat.strongRecOn with
  | ind n ih =>
      by_cases hlow : n < 10
      · rw [Nat.toDigits_of_lt_base hlow, List.head?_cons, Option.some.injEq] at h
        have hdigit : ∀ n < 10, Nat.digitChar n = '0' → n = 0 := by decide
        exact hdigit n hlow h
      · rw [Nat.toDigits_of_base_le (by omega) (by omega),
          List.head?_append_of_ne_nil _ Nat.toDigits_ne_nil] at h
        have := ih (n / 10) (by omega) h
        omega

theorem readDigits_toDigits (n : ℕ) : readDigits (Nat.toDigits 10 n) = some n := by
  have hdigits : (Nat.toDigits 10 n).all Char.isDigit = true := by
    apply List.all_eq_true.mpr
    intro c hc
    exact Nat.isDigit_of_mem_toDigits (by omega) (by omega) hc
  have hzero : (Nat.toDigits 10 n).head? = some '0' → (Nat.toDigits 10 n).length = 1 := by
    intro h
    rw [toDigits_head h]
    rfl
  rw [readDigits, if_pos ⟨Nat.toDigits_ne_nil, hdigits, hzero⟩, Nat.ofDigitChars_ten_toDigits]

theorem readInt_printInt (n : ℤ) : readInt (printInt n) = some n := by
  cases n with
  | ofNat n =>
      rw [printInt, readInt]
      · rw [readDigits_toDigits]
        rfl
      · intro ds hds
        have hminus := Nat.isDigit_of_mem_toDigits (b := 10) (n := n) (by omega) (by omega)
          (hds ▸ List.mem_cons_self)
        simp at hminus
  | negSucc n =>
      rw [printInt, readInt, readDigits_toDigits]
      rfl

theorem isNumberChar_printInt (n : ℤ) : ∀ c ∈ printInt n, isNumberChar c = true := by
  have hdigits : ∀ m, ∀ c ∈ Nat.toDigits 10 m, isNumberChar c = true := by
    intro m c hc
    simp [isNumberChar, Nat.isDigit_of_mem_toDigits (by omega) (by omega) hc]
  cases n with
  | ofNat n => exact hdigits n
  | negSucc n =>
      intro c hc
      rcases List.mem_cons.mp hc with rfl | hc
      · decide
      · exact hdigits (n + 1) c hc

/-- A run of number characters ends where it is followed by something else. -/
theorem takeWhile_run {run rest : List Char} (hrun : ∀ c ∈ run, isNumberChar c = true)
    (hrest : Stops rest) : (run ++ rest).takeWhile isNumberChar = run := by
  rw [List.takeWhile_append_of_pos hrun]
  cases rest with
  | nil => simp
  | cons c rest => simp [hrest c rfl]

theorem readNumber_int (n : ℤ) {rest : List Char} (hrest : Stops rest) :
    readNumber (printInt n ++ rest) = some (int n, rest) := by
  simp only [readNumber, takeWhile_run (isNumberChar_printInt n) hrest, readInt_printInt,
    List.drop_left]

theorem readNumber_float {literal rest : List Char} (h : FloatLiteral literal)
    (hrest : Stops rest) : readNumber (literal ++ rest) = some (float literal, rest) := by
  simp only [readNumber, takeWhile_run h.chars hrest, h.notInt, h.shape, if_true, List.drop_left]

theorem FloatLiteral.ne_nil {literal : List Char} (h : FloatLiteral literal) : literal ≠ [] := by
  rintro rfl
  have hshape := h.shape
  revert hshape
  decide

theorem printInt_ne_nil (n : ℤ) : printInt n ≠ [] := by
  cases n with
  | ofNat n => exact Nat.toDigits_ne_nil
  | negSucc n => exact List.cons_ne_nil _ _

/-- A value whose text starts with a number character is read as a scalar. -/
theorem readValue_number {c : Char} {s : List Char} (hc : isNumberChar c = true) (n : ℕ) :
    readValue (n + 1) (c :: s) = readScalar (c :: s) := by
  have hnot : ∀ d, isNumberChar d = false → c ≠ d := by
    rintro d hd rfl
    simp [hd] at hc
  have hblank : isBlank c = false := by
    simp [isBlank, hnot ' ' (by decide), hnot '\t' (by decide), hnot '\n' (by decide),
      hnot '\r' (by decide)]
  have hskip : skip (c :: s) = c :: s := by
    simp [skip, hblank]
  rw [readValue, hskip]
  simp only [if_neg (hnot '"' (by decide)), if_neg (hnot '[' (by decide)),
    if_neg (hnot '\x7b' (by decide))]

theorem skip_blanks {blanks : List Char} (h : ∀ c ∈ blanks, isBlank c = true) (s : List Char) :
    skip (blanks ++ s) = skip s :=
  List.dropWhile_append_of_pos h

theorem readValue_skip {s s' : List Char} (h : skip s = skip s') (n : ℕ) :
    readValue n s = readValue n s' := by
  cases n with
  | zero => simp [readValue]
  | succ n => rw [readValue, readValue, h]

theorem readItems_skip {s s' : List Char} (h : skip s = skip s') (n : ℕ) :
    readItems n s = readItems n s' := by
  cases n with
  | zero => simp [readItems]
  | succ n => rw [readItems, readItems, readValue_skip h]

theorem readMembers_skip {s s' : List Char} (h : skip s = skip s') (n : ℕ) :
    readMembers n s = readMembers n s' := by
  cases n with
  | zero => simp [readMembers]
  | succ n => rw [readMembers, readMembers, h]

/-- The text of a value starts with neither a blank nor a closing bracket. -/
def Starts (s : List Char) : Prop :=
  ∃ c s', s = c :: s' ∧ isBlank c = false ∧ c ≠ ']'

theorem Starts.append {s : List Char} (h : Starts s) (rest : List Char) : Starts (s ++ rest) := by
  obtain ⟨c, s', rfl, hc⟩ := h
  exact ⟨c, s' ++ rest, rfl, hc⟩

theorem Starts.skip_eq {s : List Char} (h : Starts s) : skip s = s := by
  obtain ⟨c, s', rfl, hblank, -⟩ := h
  simp [skip, hblank]

theorem Starts.length_pos {s : List Char} (h : Starts s) : 0 < s.length := by
  obtain ⟨c, s', rfl, -⟩ := h
  exact Nat.succ_pos _

private theorem starts_run {run : List Char} (hne : run ≠ [])
    (h : ∀ c ∈ run, isNumberChar c = true) : Starts run := by
  cases run with
  | nil => contradiction
  | cons c run =>
      refine ⟨c, run, rfl, ?_, ?_⟩
      · cases hblank : isBlank c with
        | false => rfl
        | true =>
            have hc := h c List.mem_cons_self
            simp only [isBlank, Bool.or_eq_true, decide_eq_true_eq] at hblank
            rcases hblank with ((rfl | rfl) | rfl) | rfl <;> revert hc <;> decide
      · rintro rfl
        have hc := h ']' List.mem_cons_self
        revert hc
        decide

theorem starts_print (sep : Separators) {j : Json} (h : WellFormed j) : Starts (print sep j) := by
  cases h with
  | null => exact ⟨'n', _, rfl, by decide, by decide⟩
  | bool b => cases b <;> exact ⟨_, _, rfl, by decide, by decide⟩
  | int n => exact starts_run (printInt_ne_nil n) (isNumberChar_printInt n)
  | float h => exact starts_run h.ne_nil h.chars
  | @constant name h =>
      have hstarts : ∀ k ∈ keywords, k.1.head?.all (fun c => !isBlank c && c ≠ ']') = true ∧
          k.1 ≠ [] := by
        decide +kernel
      obtain ⟨hhead, hne⟩ := hstarts _ h
      obtain ⟨c, s, rfl⟩ := List.exists_cons_of_ne_nil hne
      refine ⟨c, s, rfl, ?_⟩
      simpa using hhead
  | str text => exact ⟨'"', _, rfl, by decide, by decide⟩
  | @arr js h => cases js <;> exact ⟨'[', _, rfl, by decide, by decide⟩
  | @obj ms keys h => cases ms <;> exact ⟨'\x7b', _, rfl, by decide, by decide⟩

/-- A value is read back with enough fuel, whatever follows it. -/
def ReadsBack (sep : Separators) (j : Json) : Prop :=
  ∀ n rest, Stops rest → 2 * (print sep j).length ≤ n →
    readValue n (print sep j ++ rest) = some (j, rest)

variable {sep : Separators}

theorem stops_items (hsep : Readable sep) (js : List Json) (rest : List Char) :
    Stops (printItems sep js ++ rest) := by
  obtain ⟨blanks, hitem, -⟩ := hsep.item
  cases js with
  | nil => simp [Stops, printItems, isNumberChar]
  | cons j js => simp [Stops, printItems, hitem, isNumberChar]

theorem stops_members (hsep : Readable sep) (ms : List (List Char × Json)) (rest : List Char) :
    Stops (printMembers sep ms ++ rest) := by
  obtain ⟨blanks, hitem, -⟩ := hsep.item
  cases ms with
  | nil => simp [Stops, printMembers, isNumberChar]
  | cons m ms => simp [Stops, printMembers, hitem, isNumberChar]

theorem readItems_print (hsep : Readable sep) {j : Json} {js : List Json}
    (hwell : ∀ i ∈ j :: js, WellFormed i) (hback : ∀ i ∈ j :: js, ReadsBack sep i) {n : ℕ}
    (rest : List Char) (hn : 2 * (print sep j ++ printItems sep js).length ≤ n) :
    readItems n (print sep j ++ (printItems sep js ++ rest)) = some (j :: js, rest) := by
  induction js generalizing j n with
  | nil =>
      have hpos := (starts_print sep (hwell j List.mem_cons_self)).length_pos
      rw [List.length_append] at hn
      obtain ⟨n, rfl⟩ : ∃ m, n = m + 1 := ⟨n - 1, by omega⟩
      have hj := hback j List.mem_cons_self n _ (stops_items hsep [] rest) (by
        simp only [printItems, List.length_singleton] at hn
        omega)
      rw [readItems, hj]
      simp [printItems, skip, isBlank]
  | cons k js ih =>
      have hpos := (starts_print sep (hwell j List.mem_cons_self)).length_pos
      rw [List.length_append] at hn
      obtain ⟨n, rfl⟩ : ∃ m, n = m + 1 := ⟨n - 1, by omega⟩
      obtain ⟨blanks, hitem, hblanks⟩ := hsep.item
      have hlength : (printItems sep (k :: js)).length =
          1 + blanks.length + (print sep k ++ printItems sep js).length := by
        simp only [printItems, hitem, List.length_append, List.length_cons]
        omega
      have hj := hback j List.mem_cons_self n _ (stops_items hsep (k :: js) rest) (by omega)
      have hjs := ih (fun i hi => hwell i (List.mem_cons_of_mem j hi))
        (fun i hi => hback i (List.mem_cons_of_mem j hi)) (n := n) (by omega)
      have hcomma : skip (printItems sep (k :: js) ++ rest) =
          ',' :: (blanks ++ (print sep k ++ (printItems sep js ++ rest))) := by
        simp [printItems, hitem, skip, isBlank]
      rw [readItems, hj]
      simp only [Option.bind_some, hcomma, readItems_skip (skip_blanks hblanks _), hjs]
      simp

/-- The first member of an object is read, up to what follows its value. -/
theorem readMembers_first (hsep : Readable sep) (key : List Char) {j : Json}
    (hback : ReadsBack sep j) {n : ℕ} {s s' : List Char} {c : Char} (hs : Stops s)
    (hn : 2 * (print sep j).length ≤ n) (hnext : skip s = c :: s') :
    readMembers (n + 1) (quote key ++ (sep.key ++ (print sep j ++ s))) =
      if c = '\x7d' then some ([(key, j)], s')
      else if c = ',' then (readMembers n s').map fun (ms, s) => ((key, j) :: ms, s)
      else none := by
  obtain ⟨blanks, hkey, hblanks⟩ := hsep.key
  have hquote : ∀ s, quote key ++ s = '"' :: (escape key ++ '"' :: s) := by
    simp [quote]
  have hskip : ∀ s, skip ('"' :: s) = '"' :: s := by
    simp [skip, isBlank]
  have hcolon : ∀ s, skip (':' :: s) = ':' :: s := by
    simp [skip, isBlank]
  have hfuel : key.length <
      ('"' :: (escape key ++ '"' :: (sep.key ++ (print sep j ++ s)))).length := by
    have := length_le_escape key
    simp only [List.length_cons, List.length_append]
    omega
  have hread := readString_escape key (sep.key ++ (print sep j ++ s)) hfuel
  have hvalue := hback n s hs hn
  rw [hquote, readMembers, hskip]
  simp only [List.head?_cons, ne_eq, not_true_eq_false, if_false, List.tail_cons, hread,
    Option.bind_some]
  simp only [hkey, List.cons_append, hcolon, List.head?_cons, not_true_eq_false, if_false,
    List.tail_cons, readValue_skip (skip_blanks hblanks _), hvalue, Option.bind_some, hnext]

theorem readMembers_print (hsep : Readable sep) {m : List Char × Json}
    {ms : List (List Char × Json)} (hback : ∀ i ∈ m :: ms, ReadsBack sep i.2) {n : ℕ}
    (rest : List Char)
    (hn : 2 * (quote m.1 ++ (sep.key ++ (print sep m.2 ++ printMembers sep ms))).length ≤ n) :
    readMembers n (quote m.1 ++ (sep.key ++ (print sep m.2 ++ (printMembers sep ms ++ rest)))) =
      some (m :: ms, rest) := by
  induction ms generalizing m n with
  | nil =>
      simp only [quote, List.length_append, List.length_cons] at hn
      obtain ⟨n, rfl⟩ : ∃ k, n = k + 1 := ⟨n - 1, by omega⟩
      have hm := hback m List.mem_cons_self
      have hclose : skip (printMembers sep [] ++ rest) = '\x7d' :: rest := by
        simp [printMembers, skip, isBlank]
      rw [readMembers_first hsep m.1 hm (stops_members hsep [] rest) (by omega) hclose]
      rfl
  | cons k ms ih =>
      obtain ⟨blanks, hitem, hblanks⟩ := hsep.item
      have hlength : (printMembers sep (k :: ms)).length = 1 + blanks.length +
          (quote k.1 ++ (sep.key ++ (print sep k.2 ++ printMembers sep ms))).length := by
        simp only [printMembers, hitem, List.length_append, List.length_cons]
        omega
      rw [List.length_append, List.length_append, List.length_append, hlength] at hn
      have hquote : 0 < (quote m.1).length := Nat.succ_pos _
      obtain ⟨n, rfl⟩ : ∃ k, n = k + 1 := ⟨n - 1, by omega⟩
      have hm := hback m List.mem_cons_self
      have hms := ih (fun i hi => hback i (List.mem_cons_of_mem m hi)) (n := n) (by omega)
      have hcomma : skip (printMembers sep (k :: ms) ++ rest) = ',' :: (blanks ++
          (quote k.1 ++ (sep.key ++ (print sep k.2 ++ (printMembers sep ms ++ rest))))) := by
        simp [printMembers, hitem, skip, isBlank]
      rw [readMembers_first hsep m.1 hm (stops_members hsep (k :: ms) rest) (by omega) hcomma,
        readMembers_skip (skip_blanks hblanks _), hms]
      rfl

theorem setMember_new {d : List (List Char × Json)} {key : List Char} {j : Json}
    (h : key ∉ d.map Prod.fst) : setMember d key j = d ++ [(key, j)] := by
  rw [setMember, if_neg]
  intro hany
  obtain ⟨m, hm, hkey⟩ := List.any_eq_true.mp hany
  exact h (List.mem_map.mpr ⟨m, hm, of_decide_eq_true hkey⟩)

/-- A dictionary of distinct keys holds the members as they are written. -/
theorem dict_eq {ms : List (List Char × Json)} (h : (ms.map Prod.fst).Nodup) : dict ms = ms := by
  have hfold : ∀ d : List (List Char × Json), ((d ++ ms).map Prod.fst).Nodup →
      ms.foldl (fun d m => setMember d m.1 m.2) d = d ++ ms := by
    clear h
    induction ms with
    | nil => exact fun d _ => (List.append_nil d).symm
    | cons m ms ih =>
        intro d hnodup
        have hsplit : d ++ m :: ms = (d ++ [m]) ++ ms := by simp
        have hnew : m.1 ∉ d.map Prod.fst := by
          rw [List.map_append, List.map_cons] at hnodup
          intro hmem
          exact (List.nodup_append.mp hnodup).2.2 _ hmem _ List.mem_cons_self rfl
        rw [List.foldl_cons, setMember_new hnew, ih (d ++ [m]) (hsplit ▸ hnodup), hsplit]
  exact hfold [] h

theorem readValue_quote (n : ℕ) (s : List Char) : readValue (n + 1) ('"' :: s) =
    (readString (s.length + 1) s).map fun (t, s) => (str t, s) := by
  simp [readValue, skip, isBlank]

theorem readValue_bracket (n : ℕ) (s : List Char) : readValue (n + 1) ('[' :: s) =
    if (skip s).head? = some ']' then some (arr [], (skip s).tail)
    else (readItems n s).map fun (js, s) => (arr js, s) := by
  have hskip : skip ('[' :: s) = '[' :: s := by
    simp [skip, isBlank]
  rw [readValue, hskip]
  rfl

theorem readValue_brace (n : ℕ) (s : List Char) : readValue (n + 1) ('\x7b' :: s) =
    if (skip s).head? = some '\x7d' then some (obj [], (skip s).tail)
    else (readMembers n s).map fun (ms, s) => (obj (dict ms), s) := by
  have hskip : skip ('\x7b' :: s) = '\x7b' :: s := by
    simp [skip, isBlank]
  rw [readValue, hskip]
  rfl

private theorem readsBack_number {j : Json} {run : List Char} (hprint : print sep j = run)
    (hne : run ≠ []) (hrun : ∀ c ∈ run, isNumberChar c = true)
    (hread : ∀ rest, Stops rest → readNumber (run ++ rest) = some (j, rest)) :
    ReadsBack sep j := by
  intro n rest hrest hn
  rw [hprint] at hn ⊢
  cases run with
  | nil => contradiction
  | cons c run =>
      obtain ⟨n, rfl⟩ : ∃ m, n = m + 1 := ⟨n - 1, by
        rw [List.length_cons] at hn
        omega⟩
      rw [List.cons_append, readValue_number (hrun c List.mem_cons_self), readScalar,
        ← List.cons_append, hread rest hrest]
      rfl

/-- A keyword is read, and no number before it. -/
theorem readScalar_keyword {name : List Char} {j : Json} (h : (name, j) ∈ keywords)
    (rest : List Char) : readScalar (name ++ rest) = some (j, rest) := by
  have hnone : readInt [] = none ∧ floatLiteral.fullmatch [] = false := by decide
  have hminus : readInt ['-'] = none ∧ floatLiteral.fullmatch ['-'] = false := by decide
  have hnan : "NaN".toList = ['N', 'a', 'N'] := rfl
  have hinfinity : "Infinity".toList = ['I', 'n', 'f', 'i', 'n', 'i', 't', 'y'] := rfl
  have hnegative : "-Infinity".toList = ['-', 'I', 'n', 'f', 'i', 'n', 'i', 't', 'y'] := rfl
  simp only [keywords, hnan, hinfinity, hnegative, List.mem_cons, Prod.mk.injEq,
    List.not_mem_nil, or_false] at h
  rcases h with ⟨rfl, rfl⟩ | ⟨rfl, rfl⟩ | ⟨rfl, rfl⟩ | ⟨rfl, rfl⟩ | ⟨rfl, rfl⟩ | ⟨rfl, rfl⟩ <;>
    simp [readScalar, readNumber, isNumberChar, hnone, hminus, readKeyword, keywords, hnan,
      hinfinity, hnegative, List.find?, List.isPrefixOf]

private theorem readsBack_keyword {j : Json} {name : List Char} (hprint : print sep j = name)
    (hname : (name, j) ∈ keywords) : ReadsBack sep j := by
  intro n rest hrest hn
  rw [hprint] at hn ⊢
  have hfirst : ∀ k ∈ keywords, k.1.head?.all (fun c =>
      !isBlank c && c ≠ '"' && c ≠ '[' && c ≠ '\x7b') = true ∧ k.1 ≠ [] := by
    decide +kernel
  obtain ⟨hhead, hne⟩ := hfirst _ hname
  obtain ⟨c, s, rfl⟩ := List.exists_cons_of_ne_nil hne
  obtain ⟨n, rfl⟩ : ∃ m, n = m + 1 := ⟨n - 1, by
    rw [List.length_cons] at hn
    omega⟩
  have hread := readScalar_keyword hname rest
  simp only [List.head?_cons, Option.all_some, Bool.and_eq_true, Bool.not_eq_true',
    decide_eq_true_eq] at hhead
  obtain ⟨⟨⟨hblank, hquote⟩, hbracket⟩, hbrace⟩ := hhead
  have hskip : skip (c :: s ++ rest) = c :: (s ++ rest) := by
    simp [skip, hblank]
  rw [readValue, hskip]
  simp only [if_neg hquote, if_neg hbracket, if_neg hbrace]
  exact hread

theorem readsBack (hsep : Readable sep) (j : Json) (h : WellFormed j) : ReadsBack sep j := by
  induction j with
  | null => exact readsBack_keyword (by rw [print]) (by simp [keywords])
  | bool b => cases b <;> exact readsBack_keyword (by rw [print]) (by simp [keywords])
  | int n =>
      apply readsBack_number (by rw [print]) (printInt_ne_nil n) (isNumberChar_printInt n)
      exact fun rest hrest => readNumber_int n hrest
  | float literal =>
      cases h with
      | float h =>
          apply readsBack_number (by rw [print]) h.ne_nil h.chars
          exact fun rest hrest => readNumber_float h hrest
      | constant h => exact readsBack_keyword (by rw [print]) h
  | str text =>
      intro n rest hrest hn
      simp only [print, quote, List.length_append, List.length_cons] at hn
      obtain ⟨n, rfl⟩ : ∃ m, n = m + 1 := ⟨n - 1, by omega⟩
      have hsplit : print sep (str text) ++ rest = '"' :: (escape text ++ '"' :: rest) := by
        simp [print, quote]
      have hfuel : text.length < (escape text ++ '"' :: rest).length + 1 := by
        have := length_le_escape text
        simp only [List.length_append]
        omega
      rw [hsplit, readValue_quote, readString_escape text rest hfuel]
      rfl
  | arr js ih =>
      cases h with
      | arr h =>
          intro n rest hrest hn
          cases js with
          | nil =>
              simp only [print, List.length_cons] at hn
              obtain ⟨n, rfl⟩ : ∃ m, n = m + 1 := ⟨n - 1, by omega⟩
              simp [print, readValue, skip, isBlank]
          | cons j js =>
              simp only [print, List.length_cons] at hn
              obtain ⟨n, rfl⟩ : ∃ m, n = m + 1 := ⟨n - 1, by omega⟩
              have hstarts := (starts_print sep (h j List.mem_cons_self)).append
                (printItems sep js ++ rest)
              have hitems := readItems_print hsep h (fun i hi => ih i hi (h i hi)) (n := n) rest
                (by omega)
              have hsplit : print sep (arr (j :: js)) ++ rest =
                  '[' :: (print sep j ++ (printItems sep js ++ rest)) := by
                simp [print]
              have hhead : (print sep j ++ (printItems sep js ++ rest)).head? ≠ some ']' := by
                obtain ⟨c, s, hcs, -, hclose⟩ := hstarts
                simp [hcs, hclose]
              rw [hsplit, readValue_bracket, hstarts.skip_eq, if_neg hhead, hitems]
              rfl
  | obj ms ih =>
      cases h with
      | obj hkeys h =>
          intro n rest hrest hn
          cases ms with
          | nil =>
              simp only [print, List.length_cons] at hn
              obtain ⟨n, rfl⟩ : ∃ m, n = m + 1 := ⟨n - 1, by omega⟩
              simp [print, readValue, skip, isBlank]
          | cons m ms =>
              simp only [print, List.length_cons, List.append_assoc] at hn
              obtain ⟨n, rfl⟩ : ∃ k, n = k + 1 := ⟨n - 1, by omega⟩
              have hmembers := readMembers_print hsep (fun i hi => ih i hi (h i hi)) (n := n) rest
                (by omega)
              have hsplit : print sep (obj (m :: ms)) ++ rest = '\x7b' ::
                  (quote m.1 ++ (sep.key ++ (print sep m.2 ++ (printMembers sep ms ++ rest)))) := by
                simp [print]
              have hskip : skip (quote m.1 ++
                  (sep.key ++ (print sep m.2 ++ (printMembers sep ms ++ rest)))) =
                  quote m.1 ++ (sep.key ++ (print sep m.2 ++ (printMembers sep ms ++ rest))) := by
                simp [quote, skip, isBlank]
              have hhead : (quote m.1 ++
                  (sep.key ++ (print sep m.2 ++ (printMembers sep ms ++ rest)))).head? ≠
                  some '\x7d' := by
                simp [quote]
              rw [hsplit, readValue_brace, hskip, if_neg hhead, hmembers]
              simp only [Option.map_some, dict_eq hkeys]

/-- Reading what a value is printed as gives the value. -/
theorem loads_print (hsep : Readable sep) {j : Json} (h : WellFormed j) :
    loads (print sep j) = some j := by
  have hread := readsBack hsep j h (2 * (print sep j).length + 2) [] (by simp [Stops]) (by omega)
  rw [List.append_nil] at hread
  rw [loads, hread, Option.bind_some]
  exact if_pos rfl

section Read

/-- Setting a member keeps the keys of a dictionary distinct. -/
theorem nodup_setMember {d : List (List Char × Json)} (h : (d.map Prod.fst).Nodup)
    (key : List Char) (j : Json) : ((setMember d key j).map Prod.fst).Nodup := by
  by_cases hmem : key ∈ d.map Prod.fst
  · have hany : (d.any fun m => m.1 = key) = true := by
      obtain ⟨m, hm, hkey⟩ := List.mem_map.mp hmem
      exact List.any_eq_true.mpr ⟨m, hm, decide_eq_true hkey⟩
    have hkeys : (d.map fun m => if m.1 = key then (key, j) else m).map Prod.fst =
        d.map Prod.fst := by
      rw [List.map_map]
      apply List.map_congr_left
      intro m _
      by_cases hkey : m.1 = key <;> simp [hkey]
    rw [setMember, if_pos hany, hkeys]
    exact h
  · rw [setMember_new hmem, List.map_append, List.nodup_append]
    refine ⟨h, List.nodup_singleton key, ?_⟩
    rintro k hk _ hlast rfl
    obtain rfl : k = key := List.mem_singleton.mp hlast
    exact hmem hk

theorem nodup_dict (ms : List (List Char × Json)) : ((dict ms).map Prod.fst).Nodup := by
  have hfold : ∀ d : List (List Char × Json), (d.map Prod.fst).Nodup →
      ((ms.foldl (fun d m => setMember d m.1 m.2) d).map Prod.fst).Nodup := by
    induction ms with
    | nil => exact fun d hd => hd
    | cons m ms ih => exact fun d hd => ih _ (nodup_setMember hd m.1 m.2)
  exact hfold [] List.nodup_nil

theorem wellFormed_number {s rest : List Char} {j : Json} (h : readNumber s = some (j, rest)) :
    WellFormed j := by
  simp only [readNumber] at h
  cases hint : readInt (s.takeWhile isNumberChar) with
  | some n =>
      simp only [hint, Option.some.injEq, Prod.mk.injEq] at h
      exact h.1 ▸ .int n
  | none =>
      simp only [hint] at h
      split_ifs at h with hshape
      simp only [Option.some.injEq, Prod.mk.injEq] at h
      exact h.1 ▸ .float ⟨fun c hc => List.all_eq_true.mp List.all_takeWhile c hc, hint, hshape⟩

theorem wellFormed_keyword {s rest : List Char} {j : Json} (h : readKeyword s = some (j, rest)) :
    WellFormed j := by
  obtain ⟨k, hk, hpair⟩ := Option.map_eq_some_iff.mp h
  obtain ⟨rfl, -⟩ := Prod.mk.inj hpair
  have hmem := List.mem_of_find?_eq_some hk
  have hvalues : ∀ k ∈ keywords, k.2 = .null ∨ (∃ b, k.2 = .bool b) ∨ k.2 = .float k.1 := by
    simp [keywords]
  rcases hvalues k hmem with hnull | ⟨b, hbool⟩ | hfloat
  · exact hnull ▸ .null
  · exact hbool ▸ .bool b
  · rw [hfloat]
    exact .constant (hfloat ▸ hmem)

/-- Whatever is read is a value of a dictionary, item by item and member by member. -/
private theorem read_wellFormed (n : ℕ) :
    (∀ s j rest, readValue n s = some (j, rest) → WellFormed j) ∧
    (∀ s js rest, readItems n s = some (js, rest) → ∀ j ∈ js, WellFormed j) ∧
    ∀ s ms rest, readMembers n s = some (ms, rest) → ∀ m ∈ ms, WellFormed m.2 := by
  induction n with
  | zero => simp [readValue, readItems, readMembers]
  | succ n ih =>
      obtain ⟨hvalue, hitems, hmembers⟩ := ih
      refine ⟨?_, ?_, ?_⟩
      · intro s j rest h
        rw [readValue] at h
        split at h
        · contradiction
        · split_ifs at h with hquote harr hnil hobj hempty
          · obtain ⟨t, -, hpair⟩ := Option.map_eq_some_iff.mp h
            exact (Prod.mk.inj hpair).1 ▸ .str _
          · exact (Prod.mk.inj (Option.some.inj h)).1 ▸ .arr (by simp)
          · obtain ⟨⟨js, _⟩, hjs, hpair⟩ := Option.map_eq_some_iff.mp h
            exact (Prod.mk.inj hpair).1 ▸ .arr (hitems _ js _ hjs)
          · exact (Prod.mk.inj (Option.some.inj h)).1 ▸ .obj (by simp) (by simp)
          · obtain ⟨⟨ms, _⟩, hms, hpair⟩ := Option.map_eq_some_iff.mp h
            refine (Prod.mk.inj hpair).1 ▸ .obj (nodup_dict ms) fun m hm => ?_
            exact hmembers _ ms _ hms m (mem_dict hm)
          · rcases Option.or_eq_some_iff.mp h with hnumber | ⟨-, hkeyword⟩
            · exact wellFormed_number hnumber
            · exact wellFormed_keyword hkeyword
      · intro s js rest h
        rw [readItems] at h
        obtain ⟨⟨j, s'⟩, hj, h⟩ := Option.bind_eq_some_iff.mp h
        simp only at h
        split at h
        · contradiction
        · split_ifs at h with hclose hcomma
          · obtain ⟨rfl, -⟩ := Prod.mk.inj (Option.some.inj h)
            simpa using hvalue _ j _ hj
          · obtain ⟨⟨js', _⟩, hjs, hpair⟩ := Option.map_eq_some_iff.mp h
            obtain ⟨rfl, -⟩ := Prod.mk.inj hpair
            exact List.forall_mem_cons.mpr ⟨hvalue _ j _ hj, hitems _ js' _ hjs⟩
      · intro s ms rest h
        rw [readMembers] at h
        split_ifs at h with hquote
        obtain ⟨⟨key, s₁⟩, -, h⟩ := Option.bind_eq_some_iff.mp h
        simp only at h
        split_ifs at h with hcolon
        obtain ⟨⟨j, s₂⟩, hj, h⟩ := Option.bind_eq_some_iff.mp h
        simp only at h
        split at h
        · contradiction
        · split_ifs at h with hclose hcomma
          · obtain ⟨rfl, -⟩ := Prod.mk.inj (Option.some.inj h)
            simpa using hvalue _ j _ hj
          · obtain ⟨⟨ms', _⟩, hms, hpair⟩ := Option.map_eq_some_iff.mp h
            obtain ⟨rfl, -⟩ := Prod.mk.inj hpair
            exact List.forall_mem_cons.mpr ⟨hvalue _ j _ hj, hmembers _ ms' _ hms⟩

theorem wellFormed_loads {s : List Char} {j : Json} (h : loads s = some j) : WellFormed j := by
  obtain ⟨⟨j', rest⟩, hj, h⟩ := Option.bind_eq_some_iff.mp h
  simp only at h
  split_ifs at h
  exact Option.some.inj h ▸ (read_wellFormed _).1 s j' rest hj

end Read

end Json
