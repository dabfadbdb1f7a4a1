import RedisLuaLinux.Library.Text

/-!
# The lexical rules of SQL texts

Words, single characters and string literals, as MySQL separates them in its default mode:
a literal stands between two single or two double quotes, a doubled quote stands for one,
and a backslash escapes the next character. Adjacent literals are kept apart, and the
characters of comments and operators are single tokens: the statements read here have none.

* `tokensFrom_append`, `tokensFrom_quoted`: the tokens of a text put together from pieces.
* `readQuoted_iff`: between two quotes a text is read back as itself, and the rest of the
  statement is left as it is, if and only if the text is `Carried`.
-/

namespace RedisLuaLinux.Library

inductive Token
  | word (t : Text)
  | punct (c : Char)
  | literal (t : Text)
  deriving DecidableEq, Repr

inductive LexState
  | gap
  | word (t : Text)
  | quoted (q : Char) (t : Text)
  | escaped (q : Char) (t : Text)
  -- a quote inside a literal: its end, or the first of two
  | closing (q : Char) (t : Text)
  deriving DecidableEq, Repr

def isWordChar (c : Char) : Bool := c.isAlphanum || c == '_'

/-- What a backslash and the character after it stand for. -/
def unescape (c : Char) : Text :=
  if c = 'n' then ['\n']
  else if c = 't' then ['\t']
  else if c = 'r' then ['\r']
  else if c = 'b' then ['\x08']
  else if c = '0' then ['\x00']
  else if c = 'Z' then ['\x1a']
  else if c = '%' ∨ c = '_' then ['\\', c]
  else [c]

/-- A character outside words and literals. -/
def outside (c : Char) : List Token × LexState :=
  if c.isWhitespace then ([], .gap)
  else if c = '\'' ∨ c = '"' then ([], .quoted c [])
  else if isWordChar c then ([], .word [c])
  else ([.punct c], .gap)

namespace LexState

def step : LexState → Char → List Token × LexState
  | gap, c => outside c
  | word t, c => if isWordChar c then ([], word (t ++ [c])) else (.word t :: (outside c).1, (outside c).2)
  | quoted q t, c =>
    if c = q then ([], closing q t)
    else if c = '\\' then ([], escaped q t)
    else ([], quoted q (t ++ [c]))
  | escaped q t, c => ([], quoted q (t ++ unescape c))
  | closing q t, c =>
    if c = q then ([], quoted q (t ++ [q])) else (.literal t :: (outside c).1, (outside c).2)

def run : LexState → Text → List Token × LexState
  | st, [] => ([], st)
  | st, c :: s =>
    let (ts, st') := run (st.step c).2 s
    ((st.step c).1 ++ ts, st')

/-- The end of the text; a literal must be closed. -/
def finish : LexState → Option (List Token)
  | gap => some []
  | word t => some [.word t]
  | closing _ t => some [.literal t]
  | quoted _ _ => none
  | escaped _ _ => none

end LexState

def tokensFrom (st : LexState) (s : Text) : Option (List Token) :=
  (st.run s).2.finish.map ((st.run s).1 ++ ·)

def tokens (s : Text) : Option (List Token) := tokensFrom .gap s

theorem LexState.run_append (st : LexState) (a b : Text) :
    run st (a ++ b) = ((run st a).1 ++ (run (run st a).2 b).1, (run (run st a).2 b).2) := by
  induction a generalizing st with
  | nil => rfl
  | cons c a ih => simp [run, ih]

theorem tokensFrom_cons (st : LexState) (c : Char) (s : Text) :
    tokensFrom st (c :: s) = (tokensFrom (st.step c).2 s).map ((st.step c).1 ++ ·) := by
  simp [tokensFrom, LexState.run, Option.map_map, Function.comp_def]

theorem tokensFrom_append (st : LexState) (a b : Text) :
    tokensFrom st (a ++ b) = (tokensFrom (st.run a).2 b).map ((st.run a).1 ++ ·) := by
  simp [tokensFrom, LexState.run_append, Option.map_map, Function.comp_def]

/-! ## Words -/

theorem outside_word {c : Char} (h : isWordChar c) : outside c = ([], .word [c]) := by
  have hspace : c.isWhitespace = false := by
    by_contra hc
    simp only [Char.isWhitespace, Bool.not_eq_false, Bool.or_eq_true,
      decide_eq_true_eq] at hc
    rcases hc with ((rfl | rfl) | rfl) | rfl <;> revert h <;> decide
  have hquote : ¬ (c = '\'' ∨ c = '"') := by
    rintro (rfl | rfl) <;> revert h <;> decide
  simp [outside, hspace, hquote, h]

theorem run_word (w t : Text) (h : ∀ c ∈ t, isWordChar c) :
    LexState.run (.word w) t = ([], .word (w ++ t)) := by
  induction t generalizing w with
  | nil => simp [LexState.run]
  | cons c t ih =>
    have hc : isWordChar c := h c List.mem_cons_self
    simp [LexState.run, LexState.step, hc, ih (w ++ [c]) fun d hd => h d (List.mem_cons_of_mem c hd)]

theorem run_gap_word {t : Text} (hne : t ≠ []) (h : ∀ c ∈ t, isWordChar c) :
    LexState.run .gap t = ([], .word t) := by
  obtain ⟨c, t, rfl⟩ := List.exists_cons_of_ne_nil hne
  have hc : isWordChar c := h c List.mem_cons_self
  simp [LexState.run, LexState.step, outside_word hc,
    run_word [c] t fun d hd => h d (List.mem_cons_of_mem c hd)]

theorem tokens_word {t : Text} (hne : t ≠ []) (h : ∀ c ∈ t, isWordChar c) :
    tokens t = some [.word t] := by
  simp [tokens, tokensFrom, run_gap_word hne h, LexState.finish]

theorem tokens_natText (n : Nat) : tokens (natText n) = some [.word (natText n)] := by
  refine tokens_word (natText_ne_nil n) fun c hc => ?_
  have hdigit : c.isDigit := natText_isDigit hc
  simp [isWordChar, Char.isAlphanum, hdigit]

/-! ## Literals -/

/-- The literal that begins after an opening quote `q`, and what follows it. -/
def readQuoted (q : Char) : Text → Option (Text × Text)
  | [] => none
  | [c] => if c = q then some ([], []) else none
  | c :: d :: s =>
    if c = q then
      if d = q then (readQuoted q s).map fun (u, rest) => (q :: u, rest) else some ([], d :: s)
    else if c = '\\' then (readQuoted q s).map fun (u, rest) => (unescape d ++ u, rest)
    else (readQuoted q (d :: s)).map fun (u, rest) => (c :: u, rest)

theorem tokensFrom_quoted (q : Char) (acc s : Text) :
    tokensFrom (.quoted q acc) s = (readQuoted q s).bind fun (u, rest) =>
      (tokensFrom .gap rest).map (.literal (acc ++ u) :: ·) := by
  fun_induction readQuoted q s generalizing acc with
  | case1 => rfl
  | case2 => simp [tokensFrom, LexState.run, LexState.step, LexState.finish]
  | case3 c h =>
    rw [tokensFrom_cons]
    simp only [LexState.step, h, if_false]
    split <;> rfl
  | case4 s ih =>
    rw [tokensFrom_cons, tokensFrom_cons]
    simp only [LexState.step, if_true, List.nil_append, ih, List.append_assoc, List.cons_append,
      Option.map_bind, Option.map_id_fun', Function.comp_def, id_eq, Option.bind_map]
  | case5 d s hd =>
    show _ = (tokensFrom .gap (d :: s)).map (Token.literal (acc ++ []) :: ·)
    rw [tokensFrom_cons, tokensFrom_cons, tokensFrom_cons .gap]
    simp [LexState.step, hd, Option.map_map, Function.comp_def]
  | case6 d s hc ih =>
    rw [tokensFrom_cons, tokensFrom_cons]
    simp only [LexState.step, ↓Char.isValue, hc, ↓reduceIte, List.nil_append, ih, List.append_assoc,
      Option.map_bind, Option.map_id_fun', Function.comp_def, id_eq, Option.bind_map]
  | case7 c d s hq hesc ih =>
    rw [tokensFrom_cons]
    simp only [LexState.step, hq, hesc, ↓reduceIte, List.nil_append, ih, List.append_assoc,
      List.cons_append, Option.map_bind, Option.map_id_fun', Function.comp_def, id_eq, Option.bind_map]

/-- The text has no quote `q`, and a backslash in it stands before `%` or `_` only (the two
characters after which the backslash itself is kept). -/
def Carried (q : Char) : Text → Prop
  | [] => True
  | c :: t => c ≠ q ∧ (c = '\\' → t.head? = some '%' ∨ t.head? = some '_') ∧ Carried q t

instance decidableCarried (q : Char) : (t : Text) → Decidable (Carried q t)
  | [] => isTrue trivial
  | _ :: t => @instDecidableAnd _ _ _ (@instDecidableAnd _ _ _ (decidableCarried q t))

theorem carried_of_plain {q : Char} {t : Text} (h : ∀ c ∈ t, c ≠ q ∧ c ≠ '\\') : Carried q t := by
  induction t with
  | nil => trivial
  | cons c t ih =>
    obtain ⟨hq, hesc⟩ := h c List.mem_cons_self
    exact ⟨hq, fun heq => absurd heq hesc, ih fun d hd => h d (List.mem_cons_of_mem c hd)⟩

/-- What follows the closing quote does not continue the literal or the escape. -/
def Stops (q : Char) (rest : Text) : Prop := rest.head? ≠ some q ∧ rest.head? ≠ some '\\'

theorem readQuoted_stop {q : Char} {rest : Text} (h : Stops q rest) :
    readQuoted q (q :: rest) = some ([], rest) := by
  cases rest with
  | nil => simp [readQuoted]
  | cons d s =>
    have hd : d ≠ q := fun heq => h.1 (by rw [heq]; rfl)
    simp [readQuoted, hd]

theorem readQuoted_plain {q c : Char} {s : Text} (hs : s ≠ []) (hq : c ≠ q) (hesc : c ≠ '\\') :
    readQuoted q (c :: s) = (readQuoted q s).map fun (u, rest) => (c :: u, rest) := by
  cases s with
  | nil => exact absurd rfl hs
  | cons d s => simp [readQuoted, hq, hesc]

theorem readQuoted_escape {q : Char} (d : Char) (s : Text) (hq : '\\' ≠ q) :
    readQuoted q ('\\' :: d :: s) = (readQuoted q s).map fun (u, rest) => (unescape d ++ u, rest) := by
  simp [readQuoted, hq]

theorem readQuoted_of_carried {q : Char} {t rest : Text} (hq : '\\' ≠ q) (h : Carried q t)
    (hstop : Stops q rest) : readQuoted q (t ++ q :: rest) = some (t, rest) := by
  match t, h with
  | [], _ => exact readQuoted_stop hstop
  | c :: t, ⟨hc, hesc, ht⟩ =>
    by_cases hb : c = '\\'
    · subst hb
      match t, hesc rfl, ht with
      | d :: t, hd, ⟨_, _, ht⟩ =>
        have hunescape : unescape d = ['\\', d] := by
          rcases hd with hd | hd
          · rw [Option.some.inj hd]; rfl
          · rw [Option.some.inj hd]; rfl
        rw [List.cons_append, List.cons_append, readQuoted_escape d _ hq,
          readQuoted_of_carried hq ht hstop, hunescape]
        rfl
    · rw [List.cons_append, readQuoted_plain (by simp) hc hb, readQuoted_of_carried hq ht hstop]
      rfl

/-! ## Nothing else is read back -/

def IsQuote (q : Char) : Prop := q = '\'' ∨ q = '"'

theorem IsQuote.ne_backslash {q : Char} (hq : IsQuote q) : '\\' ≠ q := by
  rcases hq with rfl | rfl <;> decide

theorem carried_of_word {q : Char} (hq : IsQuote q) {t : Text} (h : ∀ c ∈ t, isWordChar c) :
    Carried q t := by
  refine carried_of_plain fun c hc => ⟨?_, ?_⟩
  · rintro rfl
    have hword := h c hc
    rcases hq with rfl | rfl <;> revert hword <;> decide
  · rintro rfl
    exact absurd (h _ hc) (by decide)

/-- A character with no meaning of its own inside a literal. -/
def isPlain (q c : Char) : Bool := c != q && c != '\\'

/-- An escape stands for itself, or for one character, plain if the escaped one was. -/
theorem unescape_cases {q : Char} (hq : IsQuote q) (d : Char) :
    ((d = '%' ∨ d = '_') ∧ unescape d = ['\\', d]) ∨
    ∃ x, unescape d = [x] ∧ isPlain q x = isPlain q d := by
  unfold unescape
  by_cases hkept : d = '%' ∨ d = '_'
  · left
    refine ⟨hkept, ?_⟩
    rcases hkept with rfl | rfl <;> rfl
  · right
    split_ifs with hn ht hr hb h0 hZ
    · subst hn
      exact ⟨_, rfl, by rcases hq with rfl | rfl <;> rfl⟩
    · subst ht
      exact ⟨_, rfl, by rcases hq with rfl | rfl <;> rfl⟩
    · subst hr
      exact ⟨_, rfl, by rcases hq with rfl | rfl <;> rfl⟩
    · subst hb
      exact ⟨_, rfl, by rcases hq with rfl | rfl <;> rfl⟩
    · subst h0
      exact ⟨_, rfl, by rcases hq with rfl | rfl <;> rfl⟩
    · subst hZ
      exact ⟨_, rfl, by rcases hq with rfl | rfl <;> rfl⟩
    · exact ⟨d, rfl, rfl⟩

/-- A reading keeps the plain characters of what it reads, and keeps its length only if that
is `Carried`. -/
theorem readQuoted_split {q : Char} (hq : IsQuote q) {s u r : Text}
    (h : readQuoted q s = some (u, r)) :
    ∃ p, s = p ++ q :: r ∧ u.countP (isPlain q) = p.countP (isPlain q) ∧
      u.length ≤ p.length ∧ (u.length = p.length → Carried q p) := by
  fun_induction readQuoted q s generalizing u with
  | case1 => cases h
  | case2 =>
    cases h
    exact ⟨[], rfl, rfl, Nat.le_refl 0, fun _ => trivial⟩
  | case3 => cases h
  | case4 s ih =>
    obtain ⟨⟨u', r'⟩, hu, heq⟩ := Option.map_eq_some_iff.mp h
    cases heq
    obtain ⟨p, rfl, hcount, hlen, -⟩ := ih hu
    refine ⟨q :: q :: p, rfl, by simp [isPlain, hcount], ?_, ?_⟩
    · simp only [List.length_cons]
      omega
    · simp only [List.length_cons]
      omega
  | case5 d s hd =>
    cases h
    exact ⟨[], rfl, rfl, Nat.le_refl 0, fun _ => trivial⟩
  | case6 d s hne ih =>
    obtain ⟨⟨u', r'⟩, hu, heq⟩ := Option.map_eq_some_iff.mp h
    cases heq
    obtain ⟨p, rfl, hcount, hlen, hcarried⟩ := ih hu
    refine ⟨'\\' :: d :: p, rfl, ?_⟩
    rcases unescape_cases hq d with ⟨hd, hkept⟩ | ⟨x, hone, hx⟩
    · have hdq : d ≠ q := by
        rcases hd with rfl | rfl <;> rcases hq with rfl | rfl <;> decide
      have hdb : d ≠ '\\' := by
        rcases hd with rfl | rfl <;> decide
      refine ⟨by simp [hkept, List.countP_cons, hcount], by simpa [hkept] using hlen, fun heq => ?_⟩
      have hp : Carried q p := hcarried (by simpa [hkept] using heq)
      refine ⟨hne, fun _ => ?_, hdq, fun h => absurd h hdb, hp⟩
      rcases hd with rfl | rfl
      · exact Or.inl rfl
      · exact Or.inr rfl
    · -- the escape is one character shorter
      have hmark : isPlain q '\\' = false := by simp [isPlain]
      refine ⟨by simp [hone, List.countP_cons, hx, hmark, hcount], ?_, ?_⟩
      · simp only [hone, List.length_cons, List.length_append, List.length_nil]
        omega
      · simp only [hone, List.length_cons, List.length_append, List.length_nil]
        omega
  | case7 c d s hc hesc ih =>
    obtain ⟨⟨u', r'⟩, hu, heq⟩ := Option.map_eq_some_iff.mp h
    cases heq
    obtain ⟨p, hp, hcount, hlen, hcarried⟩ := ih hu
    refine ⟨c :: p, by rw [hp, List.cons_append], by simp [List.countP_cons, hcount],
      Nat.succ_le_succ hlen, fun heq => ?_⟩
    exact ⟨hc, fun h => absurd h hesc, hcarried (Nat.succ.inj heq)⟩

theorem carried_of_readQuoted {q : Char} {t rest r : Text} (hq : IsQuote q) (hstop : Stops q rest)
    (h : readQuoted q (t ++ q :: rest) = some (t, r)) : Carried q t := by
  obtain ⟨p, hp, hcount, hlen, hcarried⟩ := readQuoted_split hq h
  rcases List.append_eq_append_iff.mp hp with ⟨a, rfl, ha⟩ | ⟨a, rfl, -⟩
  · match a with
    | [] => simpa using hcarried (by simp)
    | [c] =>
      -- the literal would end at a quote that follows its closing quote
      simp only [List.singleton_append, List.cons.injEq] at ha
      exact absurd (by rw [ha.2]; rfl) hstop.1
    | c :: d :: a =>
      -- the reading would go on behind the closing quote with a plain character
      simp only [List.cons_append, List.cons.injEq] at ha
      have hd : isPlain q d := by
        have hdq : d ≠ q := fun heq => hstop.1 (by rw [ha.2, heq]; rfl)
        have hdb : d ≠ '\\' := fun heq => hstop.2 (by rw [ha.2, heq]; rfl)
        simp [isPlain, hdq, hdb]
      simp only [List.countP_append, List.countP_cons, hd, if_true] at hcount
      omega
  · have ha : a = [] := by
      rw [List.length_append] at hlen
      exact List.eq_nil_of_length_eq_zero (by omega)
    subst ha
    simpa using hcarried (by simp)

/-- Between two quotes a text is read back as itself if and only if it is `Carried`. -/
theorem readQuoted_iff {q : Char} {t rest : Text} (hq : IsQuote q) (hstop : Stops q rest) :
    (∃ r, readQuoted q (t ++ q :: rest) = some (t, r)) ↔ Carried q t := by
  constructor
  · rintro ⟨r, h⟩
    exact carried_of_readQuoted hq hstop h
  · intro h
    exact ⟨rest, readQuoted_of_carried hq.ne_backslash h hstop⟩

/-! ## Statements put together from pieces -/

theorem tokens_append {a b : Text} {ts : List Token} {st : LexState}
    (ha : LexState.run .gap a = (ts, st)) : tokens (a ++ b) = (tokensFrom st b).map (ts ++ ·) := by
  rw [tokens, tokensFrom_append, ha]

/-- The tokens of a statement up to and including a literal. -/
theorem tokens_literal {a t rest : Text} {ts : List Token} {q : Char}
    (ha : LexState.run .gap a = (ts, .quoted q [])) :
    tokens (a ++ (t ++ q :: rest)) = (readQuoted q (t ++ q :: rest)).bind fun (u, r) =>
      (tokens r).map fun ts' => ts ++ .literal u :: ts' := by
  rw [tokens_append ha, tokensFrom_quoted, Option.map_bind]
  congr 1
  funext ⟨u, r⟩
  simp [tokens, Function.comp_def]

end RedisLuaLinux.Library
