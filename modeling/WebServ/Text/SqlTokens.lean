import WebServ.Text.Buffer
import Mathlib.Data.List.TakeWhile

/-! # Words, symbols and literals of an SQL text

A text is read by MySQL's rules for string literals: a literal stands between two quotes of one kind, a
doubled quote in it is one quote, and a backslash makes an escape with the byte behind it. What stands
outside is words, blanks and single symbols. No reading makes more of a text than it has bytes, so a text
that is just long enough for its tokens has its literals as they are written.
-/

namespace WebServ.Text.Sql

/-- The backslash. -/
abbrev backslash : UInt8 := 92

/-- A byte that opens a literal: a single or a double quote. -/
def isQuote (value : UInt8) : Bool := value == 39 || value == 34

/-- A byte between tokens: a space, or one of the control characters from tab to carriage return. -/
def isBlank (value : UInt8) : Bool := value == 32 || (9 ≤ value && value ≤ 13)

/-- A byte of a word: a letter, a digit, an underscore, a dollar sign, or a byte that is not ASCII. -/
def isWord (value : UInt8) : Bool :=
  (97 ≤ value && value ≤ 122) || (65 ≤ value && value ≤ 90) || (48 ≤ value && value ≤ 57) ||
    value == 95 || value == 36 || 128 ≤ value

/-- What an escape stands for: the special characters by their letters, the two wildcards with the
backslash, and any other byte for itself. -/
def unescape (value : UInt8) : Bytes :=
  if value = 48 then [0]
  else if value = 98 then [8]
  else if value = 110 then [10]
  else if value = 114 then [13]
  else if value = 116 then [9]
  else if value = 90 then [26]
  else if value = 37 ∨ value = 95 then [backslash, value]
  else [value]

/-- The rest of a literal: its value, and the text behind its closing quote. -/
def readLiteral (quote : UInt8) : Bytes → Option (Bytes × Bytes)
  | [] => none
  | [last] => if last = quote then some ([], []) else none
  | first :: second :: rest =>
      if first = quote then
        if second = quote then (readLiteral quote rest).map fun read => (quote :: read.1, read.2)
        else some ([], second :: rest)
      else if first = backslash then
        (readLiteral quote rest).map fun read => (unescape second ++ read.1, read.2)
      else (readLiteral quote (second :: rest)).map fun read => (first :: read.1, read.2)

/-- A token. -/
inductive Token where
  | word (text : Bytes)
  | symbol (value : UInt8)
  | literal (value : Bytes)
deriving DecidableEq, Repr

/-- The tokens of a text, with one unit of fuel for each; undefined if a literal is not closed. -/
def lexLoop : ℕ → Bytes → Option (List Token)
  | 0, _ => none
  | _ + 1, [] => some []
  | fuel + 1, first :: rest =>
      if isBlank first then lexLoop fuel rest
      else if isQuote first then
        (readLiteral first rest).bind fun read => (lexLoop fuel read.2).map (.literal read.1 :: ·)
      else if isWord first then
        (lexLoop fuel (rest.dropWhile isWord)).map (.word (first :: rest.takeWhile isWord) :: ·)
      else (lexLoop fuel rest).map (.symbol first :: ·)

/-- The tokens of a text. -/
def lex (text : Bytes) : Option (List Token) := lexLoop (text.length + 1) text

/-! ## Literals -/

/-- Bytes a literal can have as they are: no quote, and no backslash but before a wildcard. -/
def Verbatim (quote : UInt8) : Bytes → Prop
  | [] => True
  | first :: rest => first ≠ quote ∧ (first = backslash → rest.head? = some 37 ∨ rest.head? = some 95) ∧
      Verbatim quote rest

instance (quote : UInt8) : ∀ text, Decidable (Verbatim quote text)
  | [] => isTrue trivial
  | _ :: rest =>
      have := instDecidableVerbatim quote rest
      inferInstanceAs (Decidable (_ ∧ (_ → _) ∧ _))

variable {quote : UInt8} {text value behind : Bytes}

theorem unescape_wildcard {second : UInt8} (wildcard : second = 37 ∨ second = 95) :
    unescape second = [backslash, second] := by
  rcases wildcard with rfl | rfl <;> rfl

/-- An escape stands for one byte, unless it is a wildcard's. -/
theorem unescape_length (second : UInt8) :
    (unescape second).length = 1 ∨
      (unescape second = [backslash, second] ∧ (second = 37 ∨ second = 95)) := by
  rw [unescape]
  split_ifs with _ _ _ _ _ _ wildcard
  · exact Or.inl rfl
  · exact Or.inl rfl
  · exact Or.inl rfl
  · exact Or.inl rfl
  · exact Or.inl rfl
  · exact Or.inl rfl
  · exact Or.inr ⟨rfl, wildcard⟩
  · exact Or.inl rfl

theorem not_wildcard_of_isQuote (opens : isQuote quote = true) : ¬(quote = 37 ∨ quote = 95) := by
  rintro (rfl | rfl) <;> cases opens

/-- A literal ends at a quote, has no more bytes than are written, and as many only as they are written. -/
theorem readLiteral_eq_some (opens : isQuote quote = true)
    (read : readLiteral quote text = some (value, behind)) :
    ∃ body, text = body ++ quote :: behind ∧ value.length ≤ body.length ∧
      (value.length = body.length → value = body ∧ Verbatim quote body) := by
  fun_induction readLiteral quote text generalizing value behind with
  | case1 => cases read
  | case2 =>
    cases read
    exact ⟨[], rfl, le_rfl, fun _ => ⟨rfl, trivial⟩⟩
  | case3 => cases read
  | case4 rest ih =>
    obtain ⟨⟨tail, left⟩, inner, same⟩ := Option.map_eq_some_iff.mp read
    cases same
    obtain ⟨body, rfl, short, _⟩ := ih inner
    refine ⟨quote :: quote :: body, rfl, ?_, fun equal => ?_⟩
    · simp only [List.length_cons]
      omega
    · simp only [List.length_cons] at equal
      omega
  | case5 second rest single =>
    cases read
    exact ⟨[], rfl, le_rfl, fun _ => ⟨rfl, trivial⟩⟩
  | case6 second rest notQuote ih =>
    obtain ⟨⟨tail, left⟩, inner, same⟩ := Option.map_eq_some_iff.mp read
    cases same
    obtain ⟨body, rfl, short, whole⟩ := ih inner
    refine ⟨backslash :: second :: body, rfl, ?_, fun equal => ?_⟩
    · rcases unescape_length second with one | ⟨two, _⟩
      · rw [List.length_append, one]
        simp only [List.length_cons]
        omega
      · rw [two]
        simp only [List.length_cons, List.length_append, List.length_nil]
        omega
    · rcases unescape_length second with one | ⟨two, wildcard⟩
      · rw [List.length_append, one] at equal
        simp only [List.length_cons] at equal
        omega
      · rw [two] at equal ⊢
        simp only [List.length_cons, List.length_append, List.length_nil] at equal
        obtain ⟨rfl, verbatim⟩ := whole (by omega)
        refine ⟨rfl, notQuote, fun _ => wildcard.imp (congrArg some) (congrArg some), ?_, ?_, verbatim⟩
        · rintro rfl
          exact not_wildcard_of_isQuote opens wildcard
        · rintro rfl
          exact absurd wildcard (by decide)
  | case7 first second rest notQuote plain ih =>
    obtain ⟨⟨tail, left⟩, inner, same⟩ := Option.map_eq_some_iff.mp read
    cases same
    obtain ⟨body, written, short, whole⟩ := ih inner
    refine ⟨first :: body, by rw [written]; rfl, Nat.succ_le_succ short, fun equal => ?_⟩
    obtain ⟨rfl, verbatim⟩ := whole (Nat.succ.inj equal)
    exact ⟨rfl, notQuote, fun isBackslash => absurd isBackslash plain, verbatim⟩

/-- Bytes that a literal can have as they are are read as they are. -/
theorem readLiteral_verbatim (verbatim : Verbatim quote text) (single : behind.head? ≠ some quote) :
    readLiteral quote (text ++ quote :: behind) = some (text, behind) := by
  induction text with
  | nil =>
    cases behind with
    | nil => exact if_pos rfl
    | cons second rest =>
      have other : second ≠ quote := fun same => single (congrArg some same)
      rw [List.nil_append, readLiteral, if_pos rfl, if_neg other]
  | cons first text ih =>
    obtain ⟨notQuote, escapes, verbatim⟩ := verbatim
    have rest := ih verbatim
    by_cases isBackslash : first = backslash
    · -- the wildcard behind the backslash is read on its own as well
      subst isBackslash
      cases text with
      | nil => rcases escapes rfl with none | none <;> cases none
      | cons second text =>
        have wildcard : second = 37 ∨ second = 95 :=
          (escapes rfl).imp (fun same => Option.some.inj same) (fun same => Option.some.inj same)
        have plain : second ≠ backslash := by
          rintro rfl
          exact absurd wildcard (by decide)
        obtain ⟨third, more, continues⟩ := List.exists_cons_of_ne_nil
          (List.append_ne_nil_of_right_ne_nil text (List.cons_ne_nil quote behind))
        rw [List.cons_append, continues, readLiteral, if_neg verbatim.1, if_neg plain] at rest
        obtain ⟨⟨value, left⟩, inner, same⟩ := Option.map_eq_some_iff.mp rest
        cases same
        rw [List.cons_append, List.cons_append, readLiteral, if_neg notQuote, if_pos rfl, continues, inner,
          unescape_wildcard wildcard]
        rfl
    · obtain ⟨second, more, continues⟩ := List.exists_cons_of_ne_nil
        (List.append_ne_nil_of_right_ne_nil text (List.cons_ne_nil quote behind))
      rw [continues] at rest
      rw [List.cons_append, continues, readLiteral, if_neg notQuote, if_neg isBackslash, rest]
      rfl

/-! ## Tokens -/

/-- A literal and its closing quote are part of the text. -/
theorem readLiteral_length (opens : isQuote quote = true)
    (read : readLiteral quote text = some (value, behind)) :
    value.length + 1 + behind.length ≤ text.length := by
  obtain ⟨body, rfl, short, _⟩ := readLiteral_eq_some opens read
  rw [List.length_append, List.length_cons]
  omega

/-- More fuel than bytes is enough. -/
theorem lexLoop_enough {fuel other : ℕ} {text : Bytes} (first : text.length < fuel)
    (second : text.length < other) : lexLoop fuel text = lexLoop other text := by
  induction fuel generalizing other text with
  | zero => omega
  | succ fuel ih =>
    obtain ⟨other, rfl⟩ := Nat.exists_eq_add_of_lt (Nat.zero_lt_of_lt second)
    rw [Nat.zero_add] at second ⊢
    cases text with
    | nil => rfl
    | cons byte rest =>
      rw [List.length_cons] at first second
      have shorter : ∀ left : Bytes, left.length ≤ rest.length → lexLoop fuel left = lexLoop other left :=
        fun left short => ih (by omega) (by omega)
      rw [lexLoop, lexLoop]
      split_ifs with blank quotes inWord
      · exact shorter rest le_rfl
      · cases read : readLiteral byte rest with
        | none => rfl
        | some result =>
          have length := readLiteral_length quotes read
          rw [Option.bind_some, Option.bind_some, shorter result.2 (by omega)]
      · rw [shorter _ (List.dropWhile_sublist _).length_le]
      · rw [shorter rest le_rfl]

theorem lexLoop_eq_lex {fuel : ℕ} {text : Bytes} (enough : text.length < fuel) :
    lexLoop fuel text = lex text := lexLoop_enough enough (Nat.lt_succ_self _)

@[simp] theorem lex_nil : lex [] = some [] := rfl

theorem lex_blank {first : UInt8} (blank : isBlank first = true) (rest : Bytes) :
    lex (first :: rest) = lex rest := by
  rw [lex, lexLoop, if_pos blank]
  exact lexLoop_eq_lex (Nat.lt_succ_self _)

theorem lex_literal {first : UInt8} (opens : isQuote first = true) (rest : Bytes) :
    lex (first :: rest) = (readLiteral first rest).bind fun read =>
      (lex read.2).map (.literal read.1 :: ·) := by
  have visible : ¬isBlank first = true := by
    rw [isQuote, Bool.or_eq_true, beq_iff_eq, beq_iff_eq] at opens
    rcases opens with rfl | rfl <;> decide
  rw [lex, lexLoop, if_neg visible, if_pos opens]
  cases read : readLiteral first rest with
  | none => rfl
  | some result =>
    have length := readLiteral_length opens read
    rw [Option.bind_some, Option.bind_some, lexLoop_eq_lex (by rw [List.length_cons]; omega)]

theorem lex_symbol {first : UInt8} (visible : isBlank first = false) (notQuote : isQuote first = false)
    (notWord : isWord first = false) (rest : Bytes) :
    lex (first :: rest) = (lex rest).map (.symbol first :: ·) := by
  rw [lex, lexLoop, visible, notQuote, notWord]
  exact congrArg (Option.map _) (lexLoop_eq_lex (Nat.lt_succ_self _))

/-- A byte of a word is nothing else. -/
theorem isBlank_of_isWord {first : UInt8} (inWord : isWord first = true) :
    isBlank first = false ∧ isQuote first = false := by
  rw [← Bool.not_eq_true, ← Bool.not_eq_true]
  simp only [isWord, isBlank, isQuote, Bool.or_eq_true, Bool.and_eq_true, decide_eq_true_eq, beq_iff_eq,
    UInt8.le_iff_toNat_le, ← UInt8.toNat_inj, UInt8.reduceToNat] at inWord ⊢
  omega

/-- A word that ends before `stop`. -/
theorem lex_word {word : Bytes} {stop : UInt8} (nonempty : word ≠ [])
    (inWord : word.all isWord = true) (ends : isWord stop = false) (rest : Bytes) :
    lex (word ++ stop :: rest) = (lex (stop :: rest)).map (.word word :: ·) := by
  obtain ⟨first, word, rfl⟩ := List.exists_cons_of_ne_nil nonempty
  obtain ⟨begins, inside⟩ := List.forall_mem_cons.mp (List.all_eq_true.mp inWord)
  obtain ⟨visible, notQuote⟩ := isBlank_of_isWord begins
  have taken : (word ++ stop :: rest).takeWhile isWord = word := by
    rw [List.takeWhile_append_of_pos inside, List.takeWhile_cons_of_neg (by simp [ends]), List.append_nil]
  have dropped : (word ++ stop :: rest).dropWhile isWord = stop :: rest := by
    rw [List.dropWhile_append_of_pos inside, List.dropWhile_cons_of_neg (by simp [ends])]
  rw [List.cons_append, lex, lexLoop, visible, notQuote, begins, taken, dropped]
  exact congrArg (Option.map _) (lexLoop_eq_lex (by simp only [List.length_cons, List.length_append]; omega))

/-- The bytes a token needs: its own, and two quotes for a literal. -/
def Token.size : Token → ℕ
  | .word text => text.length
  | .symbol _ => 1
  | .literal value => value.length + 2

/-- A text has the bytes its tokens need. -/
theorem size_le_length {text : Bytes} {tokens : List Token} (read : lex text = some tokens) :
    (tokens.map Token.size).sum ≤ text.length := by
  have each : ∀ fuel (text : Bytes) tokens, lexLoop fuel text = some tokens →
      (tokens.map Token.size).sum ≤ text.length := by
    intro fuel
    induction fuel with
    | zero =>
      intro text tokens read
      cases read
    | succ fuel ih =>
      intro text tokens read
      cases text with
      | nil =>
        cases read
        exact le_rfl
      | cons first rest =>
        rw [lexLoop] at read
        rw [List.length_cons]
        split_ifs at read with blank opens inWord
        · exact (ih rest tokens read).trans (Nat.le_succ _)
        · obtain ⟨result, literal, read⟩ := Option.bind_eq_some_iff.mp read
          obtain ⟨others, later, rfl⟩ := Option.map_eq_some_iff.mp read
          have short := ih result.2 others later
          have length := readLiteral_length opens literal
          rw [List.map_cons, List.sum_cons, Token.size]
          omega
        · obtain ⟨others, later, rfl⟩ := Option.map_eq_some_iff.mp read
          have short := ih _ others later
          have whole := congrArg List.length (List.takeWhile_append_dropWhile (p := isWord) (l := rest))
          rw [List.length_append] at whole
          rw [List.map_cons, List.sum_cons, Token.size, List.length_cons]
          omega
        · obtain ⟨others, later, rfl⟩ := Option.map_eq_some_iff.mp read
          have short := ih rest others later
          rw [List.map_cons, List.sum_cons, Token.size]
          omega
  exact each _ text tokens read

end WebServ.Text.Sql
