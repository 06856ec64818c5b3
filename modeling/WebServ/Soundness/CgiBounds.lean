import WebServ.Proofs.Credentials

/-! # The copies of a login or registration

The CGI branch of `do_request` cuts a name and a password out of `m_string` and copies them, the URL and
the INSERT into arrays of fixed size, without a check. The loop for the name looks for an ampersand only,
the one for the password begins ten bytes behind it, and nothing stops either at a NUL it has passed. So
the form of the string and the lengths of name, password and URL decide whether all stays inside.
-/

namespace WebServ.Http

open WebServ.Text

namespace HttpConn

/-- The request is a POST with a last segment that begins with 2 or 3. -/
def EntersCgi (conn : HttpConn) (action : UInt8) : Prop :=
  conn.cgi = 1 ∧ conn.action = some action ∧ (action = '2'.toUInt8 ∨ action = '3'.toUInt8)

instance (conn : HttpConn) (action : UInt8) : Decidable (conn.EntersCgi action) :=
  inferInstanceAs (Decidable (_ ∧ _ ∧ _))

/-- Nothing of the branch leaves its array. The buffer that `m_string` is read from ends with the NUL of
the string, so that a read behind it is undefined; so are a name or password that does not fit in its 100
bytes, and a URL or an INSERT that does not fit in its 200. -/
def CgiInside (conn : HttpConn) (action : UInt8) : Prop :=
  ∃ url string body user, conn.url = some url ∧ conn.string = some string ∧
    conn.readBuf.cstr string = some body ∧
    credentialsAt (⟨conn.readBuf.byte⟩ : Buffer (string + body.length + 1)) string = some user ∧
    (conn.copyAction url).isSome ∧ (action = '3'.toUInt8 → (sqlInsert user).isSome)

/-- The string `m_string` points to. -/
def bodyText (conn : HttpConn) : Option Bytes := conn.string.bind conn.readBuf.cstr

end HttpConn

/-- A string and a URL whose copies fit; a registration puts name and password into one text. -/
def CgiFits (url body : Bytes) (action : UInt8) : Prop :=
  FormFits body ∧ url.length ≤ 200 ∧
    (action = '3'.toUInt8 → (formName body).length + (formPassword body).length ≤ 150)

instance (url body : Bytes) (action : UInt8) : Decidable (CgiFits url body action) :=
  inferInstanceAs (Decidable (_ ∧ _ ∧ (_ → _)))

namespace HttpConn

/-- A string is the same in the buffer that ends with its NUL. -/
theorem cstr_upTo {size string : ℕ} {buffer : Buffer size} {body : Bytes}
    (read : buffer.cstr string = some body) :
    (⟨buffer.byte⟩ : Buffer (string + body.length + 1)).cstr string = some body := by
  obtain ⟨_, last, bytes⟩ := Buffer.cstr_eq_some_iff.mp read
  exact Buffer.cstr_eq_some_iff.mpr ⟨Nat.lt_succ_self _, last, bytes⟩

/-- What the branch cuts out of the string that it does not leave. -/
theorem CgiInside.credentials {conn : HttpConn} {action : UInt8} (inside : conn.CgiInside action) :
    ∃ body, conn.bodyText = some body ∧ FormFits body ∧
      conn.credentials = some ⟨formName body, formPassword body⟩ := by
  obtain ⟨_, string, body, user, _, points, read, found, _⟩ := inside
  have fits := fits_of_credentialsAt (cstr_upTo read) rfl found
  refine ⟨body, by rw [bodyText, points, Option.bind_some, read], fits, ?_⟩
  rw [credentials_eq, points, Option.bind_some, credentialsAt_of_fits read fits]

/-- Inside the arrays the string and the URL fit. -/
theorem CgiInside.fits {conn : HttpConn} {action : UInt8} {url : Bytes} (inside : conn.CgiInside action)
    (enters : conn.EntersCgi action) (points : conn.urlText = some url) :
    ∃ body, conn.bodyText = some body ∧ CgiFits url body action := by
  obtain ⟨pointer, string, body, user, pointsUrl, pointsString, read, found, copied, built⟩ := inside
  obtain ⟨_, acts, isCgi⟩ := enters
  have readUrl : conn.readBuf.cstr pointer = some url := by
    rw [urlText, pointsUrl, Option.bind_some] at points
    exact points
  have fits := fits_of_credentialsAt (cstr_upTo read) rfl found
  obtain rfl := Option.some.inj (found.symm.trans (credentialsAt_of_fits (cstr_upTo read) fits))
  rw [action_eq points] at acts
  have long := two_le_of_urlAction acts (by rcases isCgi with rfl | rfl <;> decide)
  refine ⟨body, by rw [bodyText, pointsString, Option.bind_some, read], fits,
    (copyAction_isSome_iff conn readUrl long).mp copied, fun isRegistration => ?_⟩
  by_contra tooLong
  have text := built isRegistration
  rw [sqlInsert_eq (form_nonzero read).1 (form_nonzero read).2, if_neg tooLong] at text
  cases text

/-- A string and a URL that fit stay inside the arrays. -/
theorem cgiInside_of_fits {conn : HttpConn} {action : UInt8} {url body : Bytes}
    (enters : conn.EntersCgi action) (points : conn.urlText = some url) (holds : conn.bodyText = some body)
    (fits : CgiFits url body action) : conn.CgiInside action := by
  obtain ⟨_, acts, isCgi⟩ := enters
  obtain ⟨form, short, sum⟩ := fits
  rw [action_eq points] at acts
  have long := two_le_of_urlAction acts (by rcases isCgi with rfl | rfl <;> decide)
  obtain ⟨pointer, pointsUrl, readUrl⟩ := Option.bind_eq_some_iff.mp points
  obtain ⟨string, pointsString, read⟩ := Option.bind_eq_some_iff.mp holds
  refine ⟨pointer, string, body, _, pointsUrl, pointsString, read,
    credentialsAt_of_fits (cstr_upTo read) form, (copyAction_isSome_iff conn readUrl long).mpr short,
    fun isRegistration => ?_⟩
  rw [sqlInsert_eq (form_nonzero read).1 (form_nonzero read).2, if_pos (sum isRegistration)]
  rfl

end HttpConn

/-- For every connection that enters the CGI branch: `m_string` is read up to its NUL at most and every
copy stays inside its array, exactly if `m_string` is a string whose form fits, the URL has 200 bytes at
most, and name and password of a registration have 150 together. -/
theorem cgiInside_iff_cgiFits (conn : HttpConn) (action : UInt8) (url : Bytes)
    (enters : conn.EntersCgi action) (points : conn.urlText = some url) :
    conn.CgiInside action ↔ ∃ body, conn.bodyText = some body ∧ CgiFits url body action := by
  constructor
  · intro inside
    exact inside.fits enters points
  · rintro ⟨body, holds, fits⟩
    exact HttpConn.cgiInside_of_fits enters points holds fits

/-- A login as the form sends it. -/
theorem cgiInside_iff_cgiFits_bob :
    (visit (ascii "POST /2 HTTP/1.1\r\nContent-length: 20\r\n\r\nuser=bob&password=pw")).CgiInside
      '2'.toUInt8 :=
  (cgiInside_iff_cgiFits _ '2'.toUInt8 (ascii "/2") (by decide +kernel) (by decide +kernel)).mpr
    ⟨ascii "user=bob&password=pw", by decide +kernel, by decide +kernel⟩

/-- A body without an ampersand: the loop for the name reads on behind the NUL. -/
theorem no_ampersand_read_behind :
    ∃ conn, HttpConn.blank.init.deliverAll
        [ascii "POST /2 HTTP/1.1\r\nContent-length: 8\r\n\r\nuser=bob"] = some (.callDoRequest, conn) ∧
      conn.EntersCgi '2'.toUInt8 ∧ conn.bodyText = some (ascii "user=bob") ∧
      ¬conn.CgiInside '2'.toUInt8 := by
  have enters : (visit (ascii "POST /2 HTTP/1.1\r\nContent-length: 8\r\n\r\nuser=bob")).EntersCgi
      '2'.toUInt8 := by decide +kernel
  have holds : (visit (ascii "POST /2 HTTP/1.1\r\nContent-length: 8\r\n\r\nuser=bob")).bodyText =
      some (ascii "user=bob") := by decide +kernel
  refine ⟨_, deliverAll_visit (by decide +kernel), enters, holds, fun inside => ?_⟩
  obtain ⟨body, same, fits, _⟩ := inside.credentials
  obtain rfl := Option.some.inj (holds.symm.trans same)
  exact absurd fits (by decide +kernel)

end WebServ.Http
