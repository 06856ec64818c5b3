import WebServ.Proofs.Credentials
import WebServ.Text.SqlTokens

/-! # What the database reads

A registration puts name and password between the quotes of an INSERT as they are. The database reads the
text by its own rules, in which a quote ends a literal and a backslash changes the byte behind it; so the
row it stores is the pair that goes into `users` only if neither has a byte that these rules take up.
-/

namespace WebServ.Http

open WebServ.Text WebServ.Text.Sql

/-- The tokens before the values. -/
def headTokens : List Token :=
  [.word (ascii "INSERT"), .word (ascii "INTO"), .word (ascii "user"), .symbol '('.toUInt8,
    .word (ascii "username"), .symbol ','.toUInt8, .word (ascii "passwd"), .symbol ')'.toUInt8,
    .word (ascii "VALUES"), .symbol '('.toUInt8]

/-- The tokens of the values. -/
def rowTokens (row : Credentials) : List Token :=
  [.literal row.name, .symbol ','.toUInt8, .literal row.password, .symbol ')'.toUInt8]

/-- The text is one INSERT, with two literals that are the name and the password of the row. -/
def InsertsRow (sql : Bytes) (row : Credentials) : Prop := lex sql = some (headTokens ++ rowTokens row)

instance (sql : Bytes) (row : Credentials) : Decidable (InsertsRow sql row) :=
  inferInstanceAs (Decidable (_ = _))

/-- The single quote. -/
abbrev quote : UInt8 := 39

/-- A name and a password that a literal can have as they are. -/
def PlainFields (user : Credentials) : Prop := Verbatim quote user.name ∧ Verbatim quote user.password

instance (user : Credentials) : Decidable (PlainFields user) := inferInstanceAs (Decidable (_ ∧ _))

/-- The text begins as an INSERT, whatever comes then. -/
theorem lex_insertHead (rest : Bytes) :
    lex (ascii "INSERT INTO user(username, passwd) VALUES(" ++ rest) = (lex rest).map (headTokens ++ ·) := by
  change lex (ascii "INSERT" ++ 32 :: (ascii "INTO" ++ 32 :: (ascii "user" ++ 40 ::
    (ascii "username" ++ 44 :: 32 :: (ascii "passwd" ++ 41 :: 32 :: (ascii "VALUES" ++ 40 :: rest)))))) = _
  rw [lex_word (by decide) (by decide) (by decide), lex_blank (by decide),
    lex_word (by decide) (by decide) (by decide), lex_blank (by decide),
    lex_word (by decide) (by decide) (by decide), lex_symbol (by decide) (by decide) (by decide),
    lex_word (by decide) (by decide) (by decide), lex_symbol (by decide) (by decide) (by decide),
    lex_blank (by decide), lex_word (by decide) (by decide) (by decide),
    lex_symbol (by decide) (by decide) (by decide), lex_blank (by decide),
    lex_word (by decide) (by decide) (by decide), lex_symbol (by decide) (by decide) (by decide)]
  simp only [Option.map_map]
  rfl

/-- The text of the values. -/
def rowText (row : Credentials) : Bytes :=
  quote :: (row.name ++ quote :: ','.toUInt8 :: 32 :: quote :: (row.password ++ [quote, ')'.toUInt8]))

theorem insertText_eq (row : Credentials) : insertText row.name row.password =
    ascii "INSERT INTO user(username, passwd) VALUES(" ++ rowText row := by
  simp only [insertText, rowText, List.flatten_cons, List.flatten_nil, List.append_nil]
  rfl

/-- Plain fields are read as they are. -/
theorem lex_rowText_of_plain {row : Credentials} (plain : PlainFields row) :
    lex (rowText row) = some (rowTokens row) := by
  have name : readLiteral quote (row.name ++ quote :: ','.toUInt8 :: 32 :: quote ::
      (row.password ++ [quote, ')'.toUInt8])) = some (row.name, _) :=
    readLiteral_verbatim plain.1 (by simp; decide)
  have password : readLiteral quote (row.password ++ [quote, ')'.toUInt8]) =
      some (row.password, [')'.toUInt8]) := readLiteral_verbatim plain.2 (by decide)
  rw [rowText, lex_literal (by decide), name, Option.bind_some,
    lex_symbol (by decide) (by decide) (by decide), lex_blank (by decide), lex_literal (by decide), password,
    Option.bind_some, lex_symbol (by decide) (by decide) (by decide), lex_nil]
  rfl

/-- The text has one byte more than the tokens need, the blank behind the comma; so the literals are read as
they are. -/
theorem plain_of_lex_rowText {row : Credentials} (read : lex (rowText row) = some (rowTokens row)) :
    PlainFields row := by
  rw [rowText, lex_literal (by decide)] at read
  obtain ⟨⟨value, behind⟩, literal, read⟩ := Option.bind_eq_some_iff.mp read
  obtain ⟨others, later, same⟩ := Option.map_eq_some_iff.mp read
  obtain ⟨isName, rfl⟩ := List.cons.inj same
  obtain rfl : value = row.name := Token.literal.inj isName
  obtain ⟨body, split, short, whole⟩ := readLiteral_eq_some (by decide) literal
  -- the first literal has at most one byte to spare, and its closing quote is not the comma
  have room := size_le_length later
  have lengths := congrArg List.length split
  simp only [List.map_cons, List.map_nil, List.sum_cons, List.sum_nil, Token.size, List.length_append,
    List.length_cons, List.length_nil] at room lengths
  have asLong : row.name.length = body.length := by
    by_contra longer
    have next : body.length = row.name.length + 1 := by omega
    have comma : (row.name ++ quote :: ','.toUInt8 :: 32 :: quote ::
        (row.password ++ [quote, ')'.toUInt8]))[body.length]? = some ','.toUInt8 := by
      rw [next, List.getElem?_append_right (Nat.le_add_right ..), Nat.add_sub_cancel_left]
      rfl
    rw [split, List.getElem?_append_right le_rfl, Nat.sub_self] at comma
    exact absurd (Option.some.inj comma) (by decide)
  obtain ⟨rfl, plainName⟩ := whole asLong
  obtain rfl := (List.cons.inj (List.append_cancel_left split)).2
  -- behind the comma and the blank there is none to spare
  rw [lex_symbol (by decide) (by decide) (by decide), lex_blank (by decide), lex_literal (by decide),
    Option.map_eq_some_iff] at later
  obtain ⟨others, later, same⟩ := later
  obtain ⟨_, rfl⟩ := List.cons.inj same
  obtain ⟨⟨value, behind⟩, literal, read⟩ := Option.bind_eq_some_iff.mp later
  obtain ⟨others, later, same⟩ := Option.map_eq_some_iff.mp read
  obtain ⟨isPassword, rfl⟩ := List.cons.inj same
  obtain rfl : value = row.password := Token.literal.inj isPassword
  obtain ⟨body, split, short, whole⟩ := readLiteral_eq_some (by decide) literal
  have room := size_le_length later
  have lengths := congrArg List.length split
  simp only [List.map_cons, List.map_nil, List.sum_cons, List.sum_nil, Token.size, List.length_append,
    List.length_cons, List.length_nil] at room lengths
  obtain ⟨same, plainPassword⟩ := whole (by omega)
  exact ⟨plainName, same ▸ plainPassword⟩

/-- Of what `do_request` extracts and puts into an INSERT, the database reads exactly one row with the name
and the password, which is the pair that `users` is given, exactly if neither has a quote, nor a backslash
but before a percent sign or an underscore. -/
theorem insertsRow_iff_plainFields (conn : HttpConn) (user : Credentials) (sql : Bytes)
    (extracted : conn.credentials = some user) (built : sqlInsert user = some sql) :
    InsertsRow sql user ↔ PlainFields user := by
  obtain ⟨name, password⟩ := HttpConn.credentials_nonzero extracted
  rw [sqlInsert_eq name password, Option.ite_none_right_eq_some, insertText_eq] at built
  rw [← Option.some.inj built.2, InsertsRow, lex_insertHead]
  constructor
  · intro read
    obtain ⟨tokens, lexed, same⟩ := Option.map_eq_some_iff.mp read
    obtain rfl := List.append_cancel_left same
    exact plain_of_lex_rowText lexed
  · intro plain
    rw [lex_rowText_of_plain plain]
    rfl

private def registers (body : String) (length : String) : HttpConn :=
  visit (ascii ("POST /3 HTTP/1.1\r\nContent-length: " ++ length ++ "\r\n\r\n" ++ body))

/-- A password with a percent sign behind a backslash. -/
theorem insertsRow_iff_plainFields_percent :
    ∃ sql, sqlInsert ⟨ascii "bob", ascii "100\\%"⟩ = some sql ∧
      InsertsRow sql ⟨ascii "bob", ascii "100\\%"⟩ :=
  ⟨_, (Option.some_get (by decide +kernel)).symm,
    (insertsRow_iff_plainFields (registers "user=bob&password=100\\%" "23")
      ⟨ascii "bob", ascii "100\\%"⟩ _ (by decide +kernel) (Option.some_get (by decide +kernel)).symm).mpr
      (by decide +kernel)⟩

/-- A password that closes its literal: the text inserts a second row. -/
theorem second_row_inserted :
    ∃ conn sql, HttpConn.blank.init.deliverAll [ascii
        "POST /3 HTTP/1.1\r\nContent-length: 35\r\n\r\nuser=bob&password=x'), ('admin', 'y"] =
          some (.callDoRequest, conn) ∧
      conn.credentials = some ⟨ascii "bob", ascii "x'), ('admin', 'y"⟩ ∧
      sqlInsert ⟨ascii "bob", ascii "x'), ('admin', 'y"⟩ = some sql ∧
      lex sql = some (headTokens ++ rowTokens ⟨ascii "bob", ascii "x"⟩ ++
        [.symbol ','.toUInt8, .symbol '('.toUInt8] ++ rowTokens ⟨ascii "admin", ascii "y"⟩) ∧
      ¬InsertsRow sql ⟨ascii "bob", ascii "x'), ('admin', 'y"⟩ :=
  ⟨_, _, deliverAll_visit (by decide +kernel), by decide +kernel,
    (Option.some_get (by decide +kernel)).symm, by decide +kernel, by decide +kernel⟩

end WebServ.Http
