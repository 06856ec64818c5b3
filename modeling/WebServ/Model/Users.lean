import WebServ.Model.RequestStream

/-! # Registered users

The map `users` and the database table it is loaded from. `do_request` looks a name up without the
lock and enters the locked section only if it is not found; the two parts are separate definitions so
that they can be interleaved. What the database does with an INSERT is a choice of the environment: a
result of zero has appended the row, any other has not.
-/

namespace WebServ.Http

open WebServ.Text

/-- A user name and a password: a row of the table, or what a request carries. -/
structure Credentials where
  name : Bytes
  password : Bytes
deriving DecidableEq, Repr

/-- The map and the table. -/
structure Registry where
  users : Bytes → Option Bytes
  table : List Credentials

/-- The page after a registration that the database has accepted. -/
abbrev logPage : Bytes := ascii "/log.html"

/-- The page after any other registration. -/
abbrev registerErrorPage : Bytes := ascii "/registerError.html"

/-- The page after a login. -/
abbrev welcomePage : Bytes := ascii "/welcome.html"

/-- The page after a failed login. -/
abbrev logErrorPage : Bytes := ascii "/logError.html"

/-- The loop of `initmysql_result`: `users[temp1] = temp2` for every row, the columns being read as C
strings. -/
def initmysqlResult (rows : List Credentials) : Bytes → Option Bytes :=
  rows.foldl (fun users row => Function.update users (visible row.name) (some (visible row.password)))
    fun _ => none

namespace Registry

/-- The state after `initmysql_result`. -/
def loaded (table : List Credentials) : Registry := ⟨initmysqlResult table, table⟩

/-- `users.insert`: no effect if the name is present. -/
def insert (users : Bytes → Option Bytes) (user : Credentials) : Bytes → Option Bytes :=
  match users user.name with
  | some _ => users
  | none => Function.update users user.name (some user.password)

/-- The section under `m_lock`, with the result `res` of `mysql_query`, and the page it leads to. -/
def insertUser (registry : Registry) (user : Credentials) (res : ℤ) : Registry × Bytes :=
  ({ users := insert registry.users user
     table := if res = 0 then registry.table ++ [user] else registry.table },
    if res = 0 then logPage else registerErrorPage)

/-- The registration of a user. -/
def register (registry : Registry) (user : Credentials) (res : ℤ) : Registry × Bytes :=
  match registry.users user.name with
  | none => registry.insertUser user res
  | some _ => (registry, registerErrorPage)

/-- The login of a user: the page it leads to. -/
def login (registry : Registry) (user : Credentials) : Bytes :=
  if registry.users user.name = some user.password then welcomePage else logErrorPage

end Registry

/-- The text of the INSERT, built in 200 bytes. -/
def sqlInsert (user : Credentials) : Option Bytes := do
  let sql ← (Buffer.zero : Buffer 200).strcpy 0 (ascii "INSERT INTO user(username, passwd) VALUES(")
  let sql ← sql.strcat 0 (ascii "'")
  let sql ← sql.strcat 0 user.name
  let sql ← sql.strcat 0 (ascii "', '")
  let sql ← sql.strcat 0 user.password
  let sql ← sql.strcat 0 (ascii "')")
  sql.cstr 0

end WebServ.Http
