import RedisLuaLinux.Library.SqlLexer

/-!
# INSERT statements

`parseInsert` reads a SQL text as one INSERT of string literals into the named columns of a
table; a text that is anything else is refused.

* `parseInsert_iff`: a statement that puts texts between quotes is read back as the INSERT of
  exactly these texts if and only if each of them is `Carried`.
* `InsertTemplate`: a format template of such statements; `InsertTemplate.parse_iff` and
  `InsertTemplate.parse_head` are the same for the statements it makes.
-/

namespace RedisLuaLinux.Library

structure Insert where
  table : Text
  columns : List Text
  values : List Text
  deriving DecidableEq, Repr

/-- The names up to the closing parenthesis, and what follows it. -/
def parseColumns : List Token → Option (List Text × List Token)
  | .word c :: .punct ')' :: rest => some ([c], rest)
  | .word c :: .punct ',' :: rest => (parseColumns rest).map fun (cs, rest) => (c :: cs, rest)
  | _ => none

/-- The literals up to the closing parenthesis, which ends the statement. -/
def parseValues : List Token → Option (List Text)
  | [.literal t, .punct ')'] => some [t]
  | .literal t :: .punct ',' :: rest => (parseValues rest).map (t :: ·)
  | _ => none

def insertWords : List Token := [.word "insert".toList, .word "into".toList]

def valuesWords : List Token := [.word "values".toList, .punct '(']

def insertOfTokens (ts : List Token) : Option Insert := do
  match ← ts.dropPrefix? insertWords with
  | .word table :: .punct '(' :: rest =>
    let (columns, rest) ← parseColumns rest
    let values ← (← rest.dropPrefix? valuesWords) |> parseValues
    some ⟨table, columns, values⟩
  | _ => none

def parseInsert (sql : Text) : Option Insert := (tokens sql).bind insertOfTokens

/-! ## Columns -/

/-- The tokens of a list of names and the closing parenthesis. -/
def columnTokens : List Text → List Token
  | [] => []
  | [c] => [.word c, .punct ')']
  | c :: cs => .word c :: .punct ',' :: columnTokens cs

theorem parseColumns_tokens {columns : List Text} (hne : columns ≠ []) (rest : List Token) :
    parseColumns (columnTokens columns ++ rest) = some (columns, rest) := by
  induction columns with
  | nil => exact absurd rfl hne
  | cons c cs ih =>
    cases cs with
    | nil => rfl
    | cons d cs =>
      have hrest := ih (by simp)
      show (parseColumns (columnTokens (d :: cs) ++ rest)).map _ = _
      rw [hrest]
      rfl

/-- The tokens of an INSERT up to its first literal. -/
def headTokens (table : Text) (columns : List Text) : List Token :=
  insertWords ++ .word table :: .punct '(' :: (columnTokens columns ++ valuesWords)

/-- The text of an INSERT up to its first literal. -/
theorem run_head {q : Char} {table : Text} {columns : List Text} {names : Text} (hne : table ≠ [])
    (hword : ∀ c ∈ table, isWordChar c)
    (hnames : LexState.run .gap names = (columnTokens columns ++ valuesWords, .quoted q [])) :
    LexState.run .gap ("insert into ".toList ++ table ++ '(' :: names) =
      (headTokens table columns, .quoted q []) := by
  have hinsert : LexState.run .gap "insert into ".toList = (insertWords, .gap) :=
    Prod.ext (by decide +kernel) (by decide +kernel)
  have hparen : LexState.step (.word table) '(' = ([.word table, .punct '('], .gap) := by
    have hparen' : isWordChar '(' = false := by decide
    have houtside : outside '(' = ([.punct '('], .gap) := by decide
    simp [LexState.step, hparen', houtside]
  rw [List.append_assoc, LexState.run_append, hinsert, LexState.run_append, run_gap_word hne hword]
  simp [LexState.run, hparen, hnames, headTokens]

theorem insertOfTokens_head {columns : List Text} (table : Text) (hne : columns ≠ [])
    (ts : List Token) :
    insertOfTokens (headTokens table columns ++ ts) =
      (parseValues ts).map fun values => ⟨table, columns, values⟩ := by
  have hfirst : (headTokens table columns ++ ts).dropPrefix? insertWords =
      some (.word table :: .punct '(' :: (columnTokens columns ++ (valuesWords ++ ts))) :=
    List.dropPrefix?_eq_some_iff.mpr ⟨insertWords, by simp [headTokens], by simp⟩
  have hvalues : (valuesWords ++ ts).dropPrefix? valuesWords = some ts :=
    List.dropPrefix?_eq_some_iff.mpr ⟨valuesWords, rfl, by simp⟩
  simp only [insertOfTokens, hfirst, Option.bind_eq_bind, Option.bind_some,
    parseColumns_tokens hne, hvalues]
  cases parseValues ts <;> rfl

/-! ## Literals -/

/-- `body` is the rest of a statement after its first quote `q`, made from the texts of a list
of literals with commas between them. -/
inductive QuotedList (q : Char) : List Text → Text → Prop
  | last (t : Text) : QuotedList q [t] (t ++ [q, ')'])
  | cons (t gap : Text) {ts : List Text} {body : Text} :
    LexState.run .gap (',' :: gap) = ([.punct ','], .quoted q []) → QuotedList q ts body →
    QuotedList q (t :: ts) (t ++ q :: ',' :: (gap ++ body))

section Literals

variable {q : Char} {ts : List Text} {body : Text}

theorem stops_of_head {d : Char} (hq : IsQuote q) (hd : d = ',' ∨ d = ')') (rest : Text) :
    Stops q (d :: rest) := by
  constructor
  · intro h
    rcases hd with rfl | rfl <;> rcases hq with rfl | rfl <;> revert h <;> simp
  · intro h
    rcases hd with rfl | rfl <;> revert h <;> simp

/-- What follows a literal does not make it another one. -/
theorem parseValues_literal {u t : Text} {rest : List Token} {ts : List Text}
    (h : parseValues (.literal u :: rest) = some (t :: ts)) : u = t := by
  unfold parseValues at h
  split at h
  · rename_i heq
    cases heq
    cases h
    rfl
  · rename_i heq
    cases heq
    obtain ⟨ts', -, heq⟩ := Option.map_eq_some_iff.mp h
    cases heq
    rfl
  · cases h

/-- The tokens of a list of literals, where the first one is read back as itself. -/
theorem tokens_first (hq : IsQuote q) {t : Text} {d : Char} (hd : d = ',' ∨ d = ')') {rest : Text}
    (h : (tokensFrom (.quoted q []) (t ++ q :: d :: rest)).bind parseValues = some (t :: ts)) :
    Carried q t := by
  have hstop := stops_of_head hq hd rest
  rw [tokensFrom_quoted] at h
  obtain ⟨tokens, htokens, hparse⟩ := Option.bind_eq_some_iff.mp h
  obtain ⟨⟨u, r⟩, hread, hrest⟩ := Option.bind_eq_some_iff.mp htokens
  obtain ⟨more, -, rfl⟩ := Option.map_eq_some_iff.mp hrest
  obtain rfl : u = t := parseValues_literal hparse
  exact (readQuoted_iff hq hstop).mp ⟨r, hread⟩

theorem tokens_carried (hq : IsQuote q) {t : Text} (ht : Carried q t) {d : Char}
    (hd : d = ',' ∨ d = ')') (rest : Text) :
    tokensFrom (.quoted q []) (t ++ q :: d :: rest) =
      (tokens (d :: rest)).map (.literal t :: ·) := by
  rw [tokensFrom_quoted, readQuoted_of_carried hq.ne_backslash ht (stops_of_head hq hd rest)]
  rfl

/-- The texts of the list are read back, literal by literal, if and only if each of them is
carried. -/
theorem parseValues_iff (hq : IsQuote q) (h : QuotedList q ts body) :
    (tokensFrom (.quoted q []) body).bind parseValues = some ts ↔ ∀ t ∈ ts, Carried q t := by
  induction h with
  | last t =>
    constructor
    · intro hparse t' ht'
      rw [List.mem_singleton.mp ht']
      exact tokens_first hq (Or.inr rfl) hparse
    · intro hall
      rw [tokens_carried hq (hall t List.mem_cons_self) (Or.inr rfl)]
      rfl
  | @cons t gap ts body hgap hbody ih =>
    have hnext : tokens (',' :: (gap ++ body)) =
        (tokensFrom (.quoted q []) body).map (.punct ',' :: ·) := tokens_append hgap
    -- the rest of the list, once its first text is known to be carried
    have hcons : Carried q t →
        ((tokensFrom (.quoted q []) (t ++ q :: ',' :: (gap ++ body))).bind parseValues = some (t :: ts) ↔
          (tokensFrom (.quoted q []) body).bind parseValues = some ts) := by
      intro ht
      rw [tokens_carried hq ht (Or.inl rfl), hnext]
      cases tokensFrom (.quoted q []) body with
      | none => simp
      | some more =>
        show (parseValues more).map (t :: ·) = some (t :: ts) ↔ parseValues more = some ts
        cases parseValues more <;> simp
    constructor
    · intro hparse
      have ht := tokens_first hq (Or.inl rfl) hparse
      have hrest := ih.mp ((hcons ht).mp hparse)
      intro t' ht'
      rcases List.mem_cons.mp ht' with rfl | ht'
      · exact ht
      · exact hrest t' ht'
    · intro hall
      refine (hcons (hall t List.mem_cons_self)).mpr (ih.mpr fun t' ht' => ?_)
      exact hall t' (List.mem_cons_of_mem _ ht')

end Literals

/-! ## Statements -/

section Statements

variable {q : Char} {head table body : Text} {columns ts : List Text}

theorem parseInsert_append (hhead : LexState.run .gap head = (headTokens table columns, .quoted q []))
    (hne : columns ≠ []) (body : Text) :
    parseInsert (head ++ body) =
      ((tokensFrom (.quoted q []) body).bind parseValues).map fun values => ⟨table, columns, values⟩ := by
  rw [parseInsert, tokens_append hhead]
  cases tokensFrom (.quoted q []) body with
  | none => rfl
  | some more => exact insertOfTokens_head table hne more

/-- The table and the columns do not depend on the texts. -/
theorem parseInsert_head (hhead : LexState.run .gap head = (headTokens table columns, .quoted q []))
    (hne : columns ≠ []) {i : Insert} (h : parseInsert (head ++ body) = some i) :
    i.table = table ∧ i.columns = columns := by
  rw [parseInsert_append hhead hne] at h
  obtain ⟨values, -, rfl⟩ := Option.map_eq_some_iff.mp h
  exact ⟨rfl, rfl⟩

/-- The statement is read back as the INSERT of exactly the given texts if and only if each of
them is carried. -/
theorem parseInsert_iff (hq : IsQuote q)
    (hhead : LexState.run .gap head = (headTokens table columns, .quoted q []))
    (hne : columns ≠ []) (h : QuotedList q ts body) :
    parseInsert (head ++ body) = some ⟨table, columns, ts⟩ ↔ ∀ t ∈ ts, Carried q t := by
  rw [parseInsert_append hhead hne, ← parseValues_iff hq h]
  cases (tokensFrom (.quoted q []) body).bind parseValues <;> simp

end Statements

/-! ## Templates -/

/-- A piece of a template between two literals. -/
def IsSeparator (q : Char) (sep : Text) : Prop :=
  ∃ gap, sep = q :: ',' :: gap ∧ LexState.run .gap (',' :: gap) = ([.punct ','], .quoted q [])

/-- A template with the name of the table and a quoted literal for each column. -/
structure InsertTemplate (q : Char) where
  template : Text
  columns : List Text
  names : Text
  seps : List Text
  split : splitFormat template = "insert into ".toList :: ('(' :: names) :: (seps ++ [[q, ')']])
  run : LexState.run .gap names = (columnTokens columns ++ valuesWords, .quoted q [])
  separates : ∀ sep ∈ seps, IsSeparator q sep
  count : columns.length = seps.length + 1

theorem fill_literals {q : Char} {seps : List Text} (hseps : ∀ sep ∈ seps, IsSeparator q sep)
    (t : Text) {ts : List Text} (hlen : ts.length = seps.length) :
    ∃ body, fill (seps ++ [[q, ')']]) ts = some body ∧ QuotedList q (t :: ts) (t ++ body) := by
  induction seps generalizing t ts with
  | nil =>
    obtain rfl := List.eq_nil_of_length_eq_zero hlen
    exact ⟨[q, ')'], rfl, .last t⟩
  | cons sep seps ih =>
    obtain ⟨t', ts, rfl⟩ := List.exists_cons_of_length_eq_add_one hlen
    obtain ⟨gap, rfl, hgap⟩ := hseps sep List.mem_cons_self
    obtain ⟨body, hfill, hlist⟩ := ih (fun s hs => hseps s (List.mem_cons_of_mem _ hs)) t'
      (Nat.succ.inj hlen)
    refine ⟨q :: ',' :: (gap ++ (t' ++ body)), ?_, .cons t gap hgap hlist⟩
    rw [List.cons_append, fill, hfill]
    simp

namespace InsertTemplate

variable {q : Char} {T : InsertTemplate q} {table : Text} {ts : List Text}

theorem columns_ne_nil (T : InsertTemplate q) : T.columns ≠ [] := by
  intro h
  have hcount := T.count
  rw [h] at hcount
  exact Nat.noConfusion hcount

/-- The statement as its head and its list of literals. -/
theorem format_eq (table : Text) (hlen : ts.length = T.columns.length) :
    ∃ body, percentFormat T.template (table :: ts) =
      some (("insert into ".toList ++ table ++ '(' :: T.names) ++ body) ∧ QuotedList q ts body := by
  obtain ⟨t, ts, rfl⟩ := List.exists_cons_of_length_eq_add_one (hlen.trans T.count)
  obtain ⟨body, hfill, hlist⟩ := fill_literals T.separates t (Nat.succ.inj (hlen.trans T.count))
  refine ⟨t ++ body, ?_, hlist⟩
  rw [percentFormat, T.split, fill, fill, hfill]
  simp

/-- The statement is read back as the INSERT of exactly the given texts if and only if each of
them is carried. -/
theorem parse_iff (hq : IsQuote q) (hne : table ≠ []) (hword : ∀ c ∈ table, isWordChar c)
    (hlen : ts.length = T.columns.length) :
    (percentFormat T.template (table :: ts)).bind parseInsert = some ⟨table, T.columns, ts⟩ ↔
      ∀ t ∈ ts, Carried q t := by
  obtain ⟨body, hformat, hlist⟩ := format_eq table hlen
  rw [hformat]
  exact parseInsert_iff hq (run_head hne hword T.run) T.columns_ne_nil hlist

/-- Whatever the texts are, a statement that is understood is for the table and the columns of
the template. -/
theorem parse_head (hne : table ≠ []) (hword : ∀ c ∈ table, isWordChar c)
    (hlen : ts.length = T.columns.length) {i : Insert}
    (h : (percentFormat T.template (table :: ts)).bind parseInsert = some i) :
    i.table = table ∧ i.columns = T.columns := by
  obtain ⟨body, hformat, -⟩ := format_eq table hlen
  rw [hformat] at h
  exact parseInsert_head (run_head hne hword T.run) T.columns_ne_nil h

end InsertTemplate

end RedisLuaLinux.Library
