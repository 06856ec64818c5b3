import WebServ.Model.Users

/-! # `do_request`

The function builds a path from the site's root and the URL, after a login or a registration from the
page it leads to, and hands it to `stat`, `open` and `mmap`. It works in place: the page overwrites the
URL in the read buffer, and the byte behind the URL's last slash is read again afterwards. The file
tree and the database are environments; the result names every path a system call was given. Accesses
outside an array or a buffer of `malloc` are undefined (`none`).
-/

namespace WebServ.Http

open WebServ.Text

/-- `doc_root`. -/
abbrev docRoot : Bytes := ascii "/root/intrv/webservnote/root"

/-- What the file system answers on a path: `stat`, and the mapping by `open` and `mmap`. -/
structure FileTree where
  stat : Bytes → Option FileStat
  mmap : Bytes → FileAddress

/-- The result of `do_request`: its return value, the object, the users, and the paths passed to
`stat` and to `open`. -/
structure Outcome where
  code : HttpCode
  conn : HttpConn
  registry : Registry
  paths : List Bytes

/-- The bytes before the next `stop`, copied into an array of `capacity` bytes with a NUL behind. -/
def copyUntil {size : ℕ} (buffer : Buffer size) (stop : UInt8) : (capacity offset : ℕ) → Option Bytes
  | 0, _ => none
  | capacity + 1, offset => do
      let value ← buffer.load? offset
      if value = stop then some []
      else (copyUntil buffer stop capacity (offset + 1)).map (value :: ·)

/-- The pages with a one-character URL. -/
def routePage (value : UInt8) : Option Bytes :=
  if value = '0'.toUInt8 then some (ascii "/register.html")
  else if value = '1'.toUInt8 then some (ascii "/log.html")
  else if value = '5'.toUInt8 then some (ascii "/picture.html")
  else if value = '6'.toUInt8 then some (ascii "/video.html")
  else if value = '7'.toUInt8 then some (ascii "/fans.html")
  else none

namespace HttpConn

/-- Name and password in `m_string`, as C strings: `user=...&passwd=...` with ten bytes from the
ampersand to the password. -/
def credentials (conn : HttpConn) : Option Credentials := do
  let string ← conn.string
  let name ← copyUntil conn.readBuf '&'.toUInt8 100 (string + 5)
  let password ← copyUntil conn.readBuf 0 100 (string + 5 + name.length + 10)
  some ⟨visible name, password⟩

/-- `p + 1`: the place behind the last slash of the URL; undefined for a null URL or no slash. -/
def behindSlash (conn : HttpConn) : Option ℕ := do
  let url ← conn.url
  let found ← conn.readBuf.strrchr url slash
  found.map (· + 1)

/-- The first `strncpy` of the CGI part: the URL without its second byte, by way of 200 bytes. -/
def copyAction (conn : HttpConn) (url : ℕ) : Option (Buffer filenameLen) := do
  let action ← conn.readBuf.cstr (url + 2)
  let urlReal ← (Buffer.zero : Buffer 200).strcpy 0 (ascii "/")
  let urlReal ← urlReal.strcat 0 action
  let text ← urlReal.cstr 0
  conn.realFile.strncpy docRoot.length text (filenameLen - docRoot.length - 1)

/-- The registration or login named by the byte behind the last slash. -/
def cgiRequest (query : Bytes → ℤ) (registry : Registry) (url : ℕ) (action : UInt8) (conn : HttpConn) :
    Option (Registry × HttpConn) := do
  let realFile ← conn.copyAction url
  let user ← conn.credentials
  if action = '3'.toUInt8 then do
    let sql ← sqlInsert user
    let (registry, page) := registry.register user (query sql)
    let readBuf ← conn.readBuf.strcpy url page
    some (registry, { conn with realFile, readBuf })
  else do
    let readBuf ← conn.readBuf.strcpy url (registry.login user)
    some (registry, { conn with realFile, readBuf })

/-- The registration or login, if the request is one: `cgi` is set and the action is 2 or 3. -/
def cgiPart (query : Bytes → ℤ) (registry : Registry) (url : ℕ) (action : UInt8) (conn : HttpConn) :
    Option (Registry × HttpConn) :=
  if conn.cgi = 1 ∧ (action = '2'.toUInt8 ∨ action = '3'.toUInt8) then
    cgiRequest query registry url action conn
  else some (registry, conn)

/-- The choice of the file: a page with a one-character URL, or the URL itself. -/
def routeFile (conn : HttpConn) (url : ℕ) (action : UInt8) : Option HttpConn := do
  match routePage action with
  | some page => do
      let realFile ← conn.realFile.strncpy docRoot.length page page.length
      some { conn with realFile }
  | none => do
      let text ← conn.readBuf.cstr url
      let realFile ← conn.realFile.strncpy docRoot.length text (filenameLen - docRoot.length - 1)
      some { conn with realFile }

/-- The last part: `stat`, the checks, `open` and `mmap`. -/
def serveFile (tree : FileTree) (registry : Registry) (conn : HttpConn) : Option Outcome := do
  let path ← conn.realFile.cstr 0
  match tree.stat path with
  | none => some ⟨.noResource, conn, registry, [path]⟩
  | some fileStat =>
      let conn := { conn with fileStat }
      if !fileStat.otherRead then some ⟨.forbiddenRequest, conn, registry, [path]⟩
      else if fileStat.directory then some ⟨.badRequest, conn, registry, [path]⟩
      else some ⟨.fileRequest, { conn with fileAddress := tree.mmap path }, registry, [path, path]⟩

/-- `do_request()`. -/
def doRequest (tree : FileTree) (query : Bytes → ℤ) (registry : Registry) (conn : HttpConn) :
    Option Outcome := do
  let realFile ← conn.realFile.strcpy 0 docRoot
  let url ← conn.url
  let behind ← conn.behindSlash
  let action ← conn.readBuf.load? behind
  let (registry, conn) ← cgiPart query registry url action { conn with realFile }
  let action ← conn.readBuf.load? behind
  let conn ← conn.routeFile url action
  conn.serveFile tree registry

end HttpConn

end WebServ.Http
