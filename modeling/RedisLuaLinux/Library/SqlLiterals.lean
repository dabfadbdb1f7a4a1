import RedisLuaLinux.Library.SqlInsert

/-!
# Texts without quotes in a statement

* `literalText`: what a literal with a text without quotes stands for, if the last backslash of
  the text does not escape the closing quote.
* `run_count`: a literal takes two quotes.
* `parseValues_quoteless`: so from a list of such literals as many are read as there are texts
  if and only if each of them has a `literalText`.
* `InsertTemplate.parse_quoteless`: the same for the statements of a template.
-/

namespace RedisLuaLinux.Library

/-- The text of a literal; `none` where a backslash escapes the closing quote. -/
def literalText : Text → Option Text
  | [] => some []
  | [c] => if c = '\\' then none else some [c]
  | c :: d :: t =>
    if c = '\\' then (literalText t).map (unescape d ++ ·) else (literalText (d :: t)).map (c :: ·)

def isQuote (c : Char) : Bool := c == '\'' || c == '"'

theorem isQuote_iff {c : Char} : isQuote c = true ↔ IsQuote c := by
  simp [isQuote, IsQuote]

theorem IsQuote.ne_of_not {q c : Char} (hq : IsQuote q) (hc : isQuote c = false) : c ≠ q := by
  rintro rfl
  rw [isQuote_iff.mpr hq] at hc
  cases hc

/-- Without quotes of either kind. -/
def Quoteless (t : Text) : Prop := ∀ c ∈ t, isQuote c = false

instance decidableQuoteless (t : Text) : Decidable (Quoteless t) :=
  List.decidableBAll (fun c => isQuote c = false) t

theorem Quoteless.countP_eq_zero {t : Text} (h : Quoteless t) : t.countP isQuote = 0 := by
  apply List.countP_eq_zero.mpr
  intro c hc
  simp [h c hc]

/-! ## What a literal stands for -/

section Literal

variable {q : Char} {t u : Text}

theorem run_literal (hq : IsQuote q) (ht : Quoteless t) (h : literalText t = some u) (acc : Text) :
    LexState.run (.quoted q acc) t = ([], .quoted q (acc ++ u)) := by
  fun_induction literalText t generalizing acc u with
  | case1 =>
    cases h
    simp [LexState.run]
  | case2 => cases h
  | case3 c hc =>
    cases h
    have hne := hq.ne_of_not (ht c List.mem_cons_self)
    simp [LexState.run, LexState.step, hne, hc]
  | case4 d t ih =>
    obtain ⟨v, hv, rfl⟩ := Option.map_eq_some_iff.mp h
    have hrest := ih (fun c hc => ht c (by simp [hc])) hv (acc ++ unescape d)
    simp [LexState.run, LexState.step, hq.ne_backslash, hrest]
  | case5 c d t hc ih =>
    obtain ⟨v, hv, rfl⟩ := Option.map_eq_some_iff.mp h
    have hne := hq.ne_of_not (ht c List.mem_cons_self)
    have hrest := ih (fun c' hc' => ht c' (List.mem_cons_of_mem c hc')) hv (acc ++ [c])
    rw [LexState.run]
    simp [LexState.step, hne, hc, hrest]

theorem run_unclosed (hq : IsQuote q) (ht : Quoteless t) (h : literalText t = none) (acc : Text) :
    ∃ acc', LexState.run (.quoted q acc) t = ([], .escaped q acc') := by
  fun_induction literalText t generalizing acc with
  | case1 => cases h
  | case2 => exact ⟨acc, by simp [LexState.run, LexState.step, hq.ne_backslash]⟩
  | case3 => cases h
  | case4 d t ih =>
    have hrest := ih (fun c hc => ht c (by simp [hc])) (Option.map_eq_none_iff.mp h) (acc ++ unescape d)
    obtain ⟨acc', hrest⟩ := hrest
    exact ⟨acc', by simp [LexState.run, LexState.step, hq.ne_backslash, hrest]⟩
  | case5 c d t hc ih =>
    have hne := hq.ne_of_not (ht c List.mem_cons_self)
    have hrest := ih (fun c' hc' => ht c' (List.mem_cons_of_mem c hc')) (Option.map_eq_none_iff.mp h)
      (acc ++ [c])
    obtain ⟨acc', hrest⟩ := hrest
    refine ⟨acc', ?_⟩
    rw [LexState.run]
    simp [LexState.step, hne, hc, hrest]

theorem literalText_plain (h : '\\' ∉ t) : literalText t = some t := by
  fun_induction literalText t with
  | case1 => rfl
  | case2 => exact absurd List.mem_cons_self h
  | case3 => rfl
  | case4 d t ih => exact absurd List.mem_cons_self h
  | case5 c d t hc ih =>
    rw [ih fun hmem => h (List.mem_cons_of_mem c hmem)]
    rfl

theorem literalText_length (h : literalText t = some u) : u.length ≤ t.length := by
  fun_induction literalText t generalizing u with
  | case1 =>
    cases h
    exact Nat.le_refl _
  | case2 => cases h
  | case3 =>
    cases h
    exact Nat.le_refl _
  | case4 d t ih =>
    obtain ⟨v, hv, rfl⟩ := Option.map_eq_some_iff.mp h
    have hrest := ih hv
    have hone : (unescape d).length ≤ 2 := by
      unfold unescape
      split_ifs <;> simp
    simp only [List.length_append, List.length_cons]
    omega
  | case5 c d t hc ih =>
    obtain ⟨v, hv, rfl⟩ := Option.map_eq_some_iff.mp h
    exact Nat.succ_le_succ (ih hv)

/-- A property of characters that escapes keep. -/
theorem literalText_forall {P : Char → Prop} (hescape : ∀ c, P c → ∀ d ∈ unescape c, P d)
    (ht : ∀ c ∈ t, P c) (h : literalText t = some u) : ∀ c ∈ u, P c := by
  fun_induction literalText t generalizing u with
  | case1 =>
    cases h
    exact ht
  | case2 => cases h
  | case3 =>
    cases h
    exact ht
  | case4 d t ih =>
    obtain ⟨v, hv, rfl⟩ := Option.map_eq_some_iff.mp h
    intro c hc
    rcases List.mem_append.mp hc with hc | hc
    · exact hescape d (ht d (by simp)) c hc
    · exact ih (fun c hc => ht c (by simp [hc])) hv c hc
  | case5 c d t hc ih =>
    obtain ⟨v, hv, rfl⟩ := Option.map_eq_some_iff.mp h
    exact List.forall_mem_cons.mpr ⟨ht c List.mem_cons_self,
      ih (fun c' hc' => ht c' (List.mem_cons_of_mem c hc')) hv⟩

end Literal

/-! ## Counting quotes -/

def Token.isLiteral : Token → Bool
  | literal _ => true
  | _ => false

namespace LexState

/-- The quotes of the literal that is being read. -/
def quotes : LexState → Nat
  | gap => 0
  | word _ => 0
  | quoted _ _ => 1
  | escaped _ _ => 1
  | closing _ _ => 2

/-- A literal stands between quotes. -/
def Valid : LexState → Prop
  | gap => True
  | word _ => True
  | quoted q _ => IsQuote q
  | escaped q _ => IsQuote q
  | closing q _ => IsQuote q

end LexState

theorem outside_count (c : Char) : (outside c).2.Valid ∧
    2 * (outside c).1.countP Token.isLiteral + (outside c).2.quotes ≤ [c].countP isQuote := by
  unfold outside
  split_ifs with hspace hquote hword
  · exact ⟨trivial, Nat.zero_le _⟩
  · exact ⟨hquote, by simp [LexState.quotes, isQuote_iff.mpr hquote]⟩
  · exact ⟨trivial, Nat.zero_le _⟩
  · exact ⟨trivial, Nat.zero_le _⟩

theorem step_count {st : LexState} (h : st.Valid) (c : Char) : (st.step c).2.Valid ∧
    2 * (st.step c).1.countP Token.isLiteral + (st.step c).2.quotes ≤ st.quotes + [c].countP isQuote := by
  have hout := outside_count c
  cases st with
  | gap => exact ⟨hout.1, by simpa [LexState.step, LexState.quotes] using hout.2⟩
  | word t =>
    simp only [LexState.step]
    split_ifs with hword
    · exact ⟨trivial, Nat.zero_le _⟩
    · refine ⟨hout.1, ?_⟩
      simpa [List.countP_cons, Token.isLiteral, LexState.quotes] using hout.2
  | quoted q t =>
    simp only [LexState.step]
    split_ifs with hend hesc
    · subst hend
      exact ⟨h, by simp [LexState.quotes, isQuote_iff.mpr h]⟩
    · exact ⟨h, by simp [LexState.quotes]⟩
    · exact ⟨h, by simp [LexState.quotes]⟩
  | escaped q t => exact ⟨h, by simp [LexState.step, LexState.quotes]⟩
  | closing q t =>
    simp only [LexState.step]
    split_ifs with hdouble
    · subst hdouble
      exact ⟨h, by simp [LexState.quotes, isQuote_iff.mpr h]⟩
    · refine ⟨hout.1, ?_⟩
      have hcount := hout.2
      simp only [List.countP_cons, Token.isLiteral, LexState.quotes, if_true] at hcount ⊢
      omega

/-- Every literal takes two quotes. -/
theorem run_count {st : LexState} (h : st.Valid) (s : Text) : (st.run s).2.Valid ∧
    2 * (st.run s).1.countP Token.isLiteral + (st.run s).2.quotes ≤ st.quotes + s.countP isQuote := by
  induction s generalizing st with
  | nil => exact ⟨h, by simp [LexState.run]⟩
  | cons c s ih =>
    have hstep := step_count h c
    have hrest := ih hstep.1
    refine ⟨hrest.1, ?_⟩
    have hrun : (st.run (c :: s)).1 = (st.step c).1 ++ ((st.step c).2.run s).1 := rfl
    have hcount : (c :: s).countP isQuote = [c].countP isQuote + s.countP isQuote := by
      rw [← List.countP_append]
      rfl
    have hlast : (st.run (c :: s)).2 = ((st.step c).2.run s).2 := rfl
    rw [hrun, hlast, hcount, List.countP_append]
    omega

theorem tokensFrom_count {st : LexState} (h : st.Valid) {s : Text} {ts : List Token}
    (hts : tokensFrom st s = some ts) : 2 * ts.countP Token.isLiteral ≤ st.quotes + s.countP isQuote := by
  obtain ⟨last, hlast, rfl⟩ := Option.map_eq_some_iff.mp hts
  have hrun := (run_count h s).2
  have hfinish : 2 * last.countP Token.isLiteral ≤ (st.run s).2.quotes := by
    cases hst : (st.run s).2 with
    | gap =>
      rw [hst] at hlast
      cases hlast
      exact Nat.le_refl _
    | word t =>
      rw [hst] at hlast
      cases hlast
      exact Nat.le_refl _
    | quoted q t =>
      rw [hst] at hlast
      cases hlast
    | escaped q t =>
      rw [hst] at hlast
      cases hlast
    | closing q t =>
      rw [hst] at hlast
      cases hlast
      exact Nat.le_refl _
  rw [List.countP_append]
  omega

theorem parseValues_count {ts : List Token} {vs : List Text} (h : parseValues ts = some vs) :
    vs.length = ts.countP Token.isLiteral := by
  fun_induction parseValues ts generalizing vs with
  | case1 t =>
    cases h
    rfl
  | case2 t rest ih =>
    obtain ⟨vs, hvs, rfl⟩ := Option.map_eq_some_iff.mp h
    simp [List.countP_cons, Token.isLiteral, ih hvs]
  | case3 => cases h

/-! ## Lists of literals -/

section Lists

variable {q : Char} {t u : Text} {ts vs : List Text} {body : Text}

theorem tokens_literalText (hq : IsQuote q) (ht : Quoteless t) (h : literalText t = some u) {d : Char}
    (hd : d = ',' ∨ d = ')') (rest : Text) :
    tokensFrom (.quoted q []) (t ++ q :: d :: rest) = (tokens (d :: rest)).map (.literal u :: ·) := by
  have hne : d ≠ q := by
    rcases hd with rfl | rfl <;> rcases hq with rfl | rfl <;> decide
  rw [tokensFrom_append, run_literal hq ht h, tokensFrom_cons, tokensFrom_cons, tokens, tokensFrom_cons]
  simp [LexState.step, hne, Option.map_map, Function.comp_def]

theorem countP_literal (hq : IsQuote q) (ht : Quoteless t) (rest : Text) :
    (t ++ q :: rest).countP isQuote = 1 + rest.countP isQuote := by
  rw [List.countP_append, List.countP_cons_of_pos (isQuote_iff.mpr hq), ht.countP_eq_zero]
  omega

/-- What stands between two literals holds the opening quote of the second one. -/
theorem gap_quotes {gap : Text} (hgap : LexState.run .gap (',' :: gap) = ([.punct ','], .quoted q [])) :
    1 ≤ gap.countP isQuote := by
  have hvalid : LexState.gap.Valid := trivial
  have hrun := (run_count hvalid (',' :: gap)).2
  rw [hgap] at hrun
  simpa [LexState.quotes, Token.isLiteral, isQuote] using hrun

/-- A text that escapes its closing quote leaves the rest of the statement one quote short. -/
theorem unclosed_count (hq : IsQuote q) (ht : Quoteless t) (h : literalText t = none) {rest : Text}
    (hvs : (tokensFrom (.quoted q []) (t ++ q :: rest)).bind parseValues = some vs) :
    2 * vs.length ≤ 1 + rest.countP isQuote := by
  obtain ⟨tokens, htokens, hparse⟩ := Option.bind_eq_some_iff.mp hvs
  obtain ⟨acc, hacc⟩ := run_unclosed hq ht h []
  rw [tokensFrom_append, hacc, tokensFrom_cons] at htokens
  obtain ⟨_, hmore, rfl⟩ := Option.map_eq_some_iff.mp htokens
  obtain ⟨ts, hts, rfl⟩ := Option.map_eq_some_iff.mp hmore
  have hvalid : (LexState.quoted q (acc ++ unescape q)).Valid := hq
  rw [parseValues_count hparse]
  exact tokensFrom_count hvalid hts

/-- So as many literals as texts cannot be read from it. -/
theorem unclosed_iff (hq : IsQuote q) (ht : Quoteless t) (h : literalText t = none) {rest : Text}
    (hrest : rest.countP isQuote ≤ 2 * ts.length) :
    ((tokensFrom (.quoted q []) (t ++ q :: rest)).bind parseValues = some vs ∧
      vs.length = (t :: ts).length) ↔ List.Forall₂ (fun t v => literalText t = some v) (t :: ts) vs := by
  apply iff_of_false
  · rintro ⟨hvs, hlen⟩
    have hcount := unclosed_count hq ht h hvs
    rw [hlen, List.length_cons] at hcount
    omega
  · intro hall
    cases hall with
    | cons hhead _ =>
      rw [h] at hhead
      cases hhead

/-- As many literals as texts are read only if no text escapes its closing quote, and then they
hold the literal texts. -/
theorem parseValues_quoteless (hq : IsQuote q) (h : QuotedList q ts body)
    (hquotes : body.countP isQuote + 1 ≤ 2 * ts.length) (hts : ∀ t ∈ ts, Quoteless t) :
    ((tokensFrom (.quoted q []) body).bind parseValues = some vs ∧ vs.length = ts.length) ↔
      List.Forall₂ (fun t v => literalText t = some v) ts vs := by
  induction h generalizing vs with
  | last t =>
    have ht := hts t List.mem_cons_self
    cases hlit : literalText t with
    | none => exact unclosed_iff hq ht hlit (Nat.le_refl 0)
    | some u =>
      rw [tokens_literalText hq ht hlit (Or.inr rfl)]
      constructor
      · rintro ⟨hvs, -⟩
        cases hvs
        exact .cons hlit .nil
      · intro hall
        cases hall with
        | cons hhead hrest =>
          cases hrest
          rw [hlit] at hhead
          cases hhead
          exact ⟨rfl, rfl⟩
  | @cons t gap ts body hgap hbody ih =>
    obtain ⟨ht, hquoteless⟩ := List.forall_mem_cons.mp hts
    have hopen := gap_quotes hgap
    have hcomma : isQuote ',' = false := rfl
    have hrest : (',' :: (gap ++ body)).countP isQuote = gap.countP isQuote + body.countP isQuote := by
      rw [List.countP_cons_of_neg (by rw [hcomma]; decide), List.countP_append]
    rw [countP_literal hq ht, List.length_cons] at hquotes
    cases hlit : literalText t with
    | none => exact unclosed_iff hq ht hlit (by omega)
    | some u =>
      have hbodyQuotes : body.countP isQuote + 1 ≤ 2 * ts.length := by omega
      have hnext : (tokensFrom (.quoted q []) (t ++ q :: ',' :: (gap ++ body))).bind parseValues =
          ((tokensFrom (.quoted q []) body).bind parseValues).map (u :: ·) := by
        rw [tokens_literalText hq ht hlit (Or.inl rfl), ← List.cons_append, tokens_append hgap]
        cases tokensFrom (.quoted q []) body <;> rfl
      rw [hnext]
      constructor
      · rintro ⟨hvs, hlen⟩
        obtain ⟨vs, hmore, rfl⟩ := Option.map_eq_some_iff.mp hvs
        exact .cons hlit ((ih hbodyQuotes hquoteless).mp ⟨hmore, Nat.succ.inj hlen⟩)
      · intro hall
        cases hall with
        | @cons _ v _ vs hhead htail =>
          rw [hlit] at hhead
          cases hhead
          obtain ⟨hvs, hlen⟩ := (ih hbodyQuotes hquoteless).mpr htail
          exact ⟨by rw [hvs, Option.map_some], congrArg Nat.succ hlen⟩

end Lists

/-! ## Templates -/

theorem fill_count {pieces args : List Text} {s : Text} (h : fill pieces args = some s) (p : Char → Bool) :
    s.countP p = pieces.flatten.countP p + args.flatten.countP p := by
  fun_induction fill pieces args generalizing s with
  | case1 piece =>
    cases h
    simp
  | case2 piece pieces arg args ih =>
    obtain ⟨rest, hrest, rfl⟩ := Option.map_eq_some_iff.mp h
    have hcount := ih hrest
    simp only [List.flatten_cons, List.countP_append]
    omega
  | case3 => cases h

theorem countP_flatten_quoteless {ts : List Text} (h : ∀ t ∈ ts, Quoteless t) :
    ts.flatten.countP isQuote = 0 := by
  apply List.countP_eq_zero.mpr
  intro c hc
  obtain ⟨t, ht, hct⟩ := List.mem_flatten.mp hc
  simp [h t ht c hct]

theorem quoteless_of_word {t : Text} (h : ∀ c ∈ t, isWordChar c) : Quoteless t := by
  intro c hc
  by_contra hquote
  have hword := h c hc
  rcases isQuote_iff.mp (Bool.not_eq_false _ ▸ hquote) with rfl | rfl <;> revert hword <;> decide

namespace InsertTemplate

variable {q : Char} {T : InsertTemplate q} {table : Text} {ts : List Text}

/-- What the statement of texts without quotes inserts: their literal texts, or nothing if one
of them has none. -/
theorem parse_quoteless (hq : IsQuote q) (hne : table ≠ []) (hword : ∀ c ∈ table, isWordChar c)
    (hlen : ts.length = T.columns.length)
    (hquotes : (splitFormat T.template).flatten.countP isQuote = 2 * T.columns.length)
    (hts : ∀ t ∈ ts, Quoteless t) {i : Insert} :
    ((percentFormat T.template (table :: ts)).bind parseInsert = some i ∧
      i.columns.length = i.values.length) ↔
    ∃ vs, List.Forall₂ (fun t v => literalText t = some v) ts vs ∧ i = ⟨table, T.columns, vs⟩ := by
  obtain ⟨body, hformat, hlist⟩ := format_eq table hlen
  have hhead := run_head hne hword T.run
  have hbody : body.countP isQuote + 1 ≤ 2 * ts.length := by
    have htotal := fill_count hformat isQuote
    rw [hquotes, countP_flatten_quoteless (List.forall_mem_cons.mpr ⟨quoteless_of_word hword, hts⟩),
      List.countP_append] at htotal
    -- the head ends with the opening quote of the first literal
    have hvalid : LexState.gap.Valid := trivial
    have hopen := (run_count hvalid ("insert into ".toList ++ table ++ '(' :: T.names)).2
    rw [hhead] at hopen
    simp only [LexState.quotes] at hopen
    omega
  rw [hformat, Option.bind_some, parseInsert_append hhead T.columns_ne_nil]
  constructor
  · rintro ⟨hparse, hcount⟩
    obtain ⟨vs, hvs, rfl⟩ := Option.map_eq_some_iff.mp hparse
    exact ⟨vs, (parseValues_quoteless hq hlist hbody hts).mp ⟨hvs, hcount.symm.trans hlen.symm⟩, rfl⟩
  · rintro ⟨vs, hvs, rfl⟩
    obtain ⟨hparse, hcount⟩ := (parseValues_quoteless hq hlist hbody hts).mpr hvs
    exact ⟨by rw [hparse, Option.map_some], hlen.symm.trans hcount.symm⟩

end InsertTemplate

end RedisLuaLinux.Library
