import Mathlib.Logic.Function.Basic
import Maock.Foundation.Bytes

/-!
# The URL parser

`http_parser_parse_url` in strict mode, as both HTTP/1 callbacks use it: a state machine that marks
where the fields of a URL begin and how long they are, and a second one that goes over the host.
Offsets and lengths are 16 bits wide and wrap around. The parser leaves the fields it has marked
when it rejects a URL, and the caller reads them all the same.
-/

set_option autoImplicit false
set_option relaxedAutoImplicit false

namespace Maock.Http

open Foundation Foundation.Bytes

/-! ### Character classes -/

/-- `LOWER(c)`. -/
def lower (c : UInt8) : UInt8 :=
  c ||| 0x20

/-- `IS_ALPHA(c)`. -/
def isAlpha (c : UInt8) : Bool :=
  char 'a' ≤ lower c && lower c ≤ char 'z'

/-- `IS_NUM(c)`. -/
def isNum (c : UInt8) : Bool :=
  char '0' ≤ c && c ≤ char '9'

/-- `IS_ALPHANUM(c)`. -/
def isAlphanum (c : UInt8) : Bool :=
  isAlpha c || isNum c

/-- `IS_HEX(c)`. -/
def isHex (c : UInt8) : Bool :=
  isNum c || (char 'a' ≤ lower c && lower c ≤ char 'f')

/-- `IS_MARK(c)`. -/
def isMark (c : UInt8) : Bool :=
  (ascii "-_.!~*'()").contains c

/-- `IS_USERINFO_CHAR(c)`. -/
def isUserinfoChar (c : UInt8) : Bool :=
  isAlphanum c || isMark c || (ascii "%;:&=+$,").contains c

/-- `IS_HOST_CHAR(c)`. -/
def isHostChar (c : UInt8) : Bool :=
  isAlphanum c || (ascii ".-").contains c

/-- `IS_URL_CHAR(c)`: the bits set in `normal_url_char` are those of the printing characters except
`#` and `?`. -/
def isUrlChar (c : UInt8) : Bool :=
  char '!' ≤ c && c ≤ char '~' && c != char '#' && c != char '?'

/-- A byte that ends every URL. -/
def isDeadChar (c : UInt8) : Bool :=
  c == char ' ' || c == char '\r' || c == char '\n' || c == char '\t' || c == 0x0c

/-! ### Marking the fields -/

/-- The states of `enum state` that URLs go through. -/
inductive UrlState where
  | dead
  | spacesBeforeUrl
  | schema
  | schemaSlash
  | schemaSlashSlash
  | serverStart
  | server
  | serverWithAt
  | path
  | queryStringStart
  | queryString
  | fragmentStart
  | fragment
  deriving DecidableEq

/-- The transitions out of the states of the server part. -/
def parseServerChar (ch : UInt8) : UrlState :=
  if ch = char '/' then .path
  else if ch = char '?' then .queryStringStart
  else if ch = char '@' then .serverWithAt
  else if isUserinfoChar ch || ch == char '[' || ch == char ']' then .server
  else .dead

/-- `parse_url_char(s, ch)`. -/
def parseUrlChar (s : UrlState) (ch : UInt8) : UrlState :=
  if isDeadChar ch then .dead
  else
    match s with
    | .spacesBeforeUrl =>
      if ch = char '/' ∨ ch = char '*' then .path
      else if isAlpha ch then .schema
      else .dead
    | .schema => if isAlpha ch then .schema else if ch = char ':' then .schemaSlash else .dead
    | .schemaSlash => if ch = char '/' then .schemaSlashSlash else .dead
    | .schemaSlashSlash => if ch = char '/' then .serverStart else .dead
    | .serverWithAt => if ch = char '@' then .dead else parseServerChar ch
    | .serverStart | .server => parseServerChar ch
    | .path =>
      if isUrlChar ch then .path
      else if ch = char '?' then .queryStringStart
      else if ch = char '#' then .fragmentStart
      else .dead
    | .queryStringStart | .queryString =>
      if isUrlChar ch then .queryString
      else if ch = char '?' then .queryString
      else if ch = char '#' then .fragmentStart
      else .dead
    | .fragmentStart =>
      if isUrlChar ch then .fragment
      else if ch = char '?' then .fragment
      else if ch = char '#' then .fragmentStart
      else .dead
    | .fragment =>
      if isUrlChar ch then .fragment
      else if ch = char '?' ∨ ch = char '#' then .fragment
      else .dead
    | .dead => .dead

/-- `enum http_parser_url_fields`. -/
inductive UrlField where
  | schema
  | host
  | port
  | path
  | query
  | fragment
  | userinfo
  deriving DecidableEq

/-- An entry of `field_data`: 16 bits each. -/
structure FieldData where
  off : ℕ
  len : ℕ
  deriving DecidableEq

/-- A number kept in 16 bits. -/
def uint16 (n : ℕ) : ℕ :=
  n % 2 ^ 16

/-- `http_parser_url`: the data of the fields whose bit is set, and the port. -/
structure HttpParserUrl where
  port : ℕ
  field : UrlField → Option FieldData

/-- A `http_parser_url` that is all zero. -/
def HttpParserUrl.init : HttpParserUrl where
  port := 0
  field _ := none

/-- A field that begins here, with one byte. -/
def HttpParserUrl.start (uf : UrlField) (position : ℕ) (u : HttpParserUrl) : HttpParserUrl :=
  { u with field := Function.update u.field uf (some ⟨uint16 position, 1⟩) }

/-- A field with one byte more. -/
def HttpParserUrl.extend (uf : UrlField) (u : HttpParserUrl) : HttpParserUrl :=
  let longer := (u.field uf).map fun data ↦ { data with len := uint16 (data.len + 1) }
  { u with field := Function.update u.field uf longer }

/-- The field that a byte belongs to when it leads into a state; none in the states that skip
delimiters. -/
def UrlState.uf : UrlState → Option UrlField
  | .schema => some .schema
  | .serverWithAt | .server => some .host
  | .path => some .path
  | .queryString => some .query
  | .fragment => some .fragment
  | _ => none

/-- The variables of the loop of `http_parser_parse_url`; `old_uf` is `none` for `UF_MAX`. -/
structure UrlScan where
  state : UrlState
  oldUf : Option UrlField
  foundAt : Bool
  url : HttpParserUrl

/-- The variables before the loop, for a request that is not `CONNECT`. -/
def UrlScan.init : UrlScan where
  state := .spacesBeforeUrl
  oldUf := none
  foundAt := false
  url := HttpParserUrl.init

/-- The part of a turn of the loop behind the transition. -/
def UrlScan.enter (position : ℕ) (state : UrlState) (scan : UrlScan) : UrlScan :=
  let foundAt := scan.foundAt || state == .serverWithAt
  match state.uf with
  | none => { scan with state := state, foundAt := foundAt }
  | some uf =>
    if scan.oldUf = some uf then
      { scan with state := state, foundAt := foundAt, url := scan.url.extend uf }
    else
      { state := state, oldUf := some uf, foundAt := foundAt, url := scan.url.start uf position }

/-- The loop of `http_parser_parse_url`. The first component tells whether it came to the end. -/
def scanUrl (position : ℕ) (scan : UrlScan) : Bytes → Bool × UrlScan
  | [] => (true, scan)
  | ch :: rest =>
    match parseUrlChar scan.state ch with
    | .dead => (false, scan)
    | state => scanUrl (position + 1) (scan.enter position state) rest

/-! ### The host -/

/-- `enum http_host_state`. -/
inductive HostState where
  | dead
  | userinfoStart
  | userinfo
  | hostStart
  | hostV6Start
  | host
  | hostV6
  | hostV6End
  | hostV6ZoneStart
  | hostV6Zone
  | portStart
  | port
  deriving DecidableEq

/-- The transition to the inside of a v6 address. -/
def parseV6Char (inside : Bool) (ch : UInt8) : HostState :=
  if isHex ch || ch == char ':' || ch == char '.' then .hostV6
  else if inside && ch == char '%' then .hostV6ZoneStart
  else .dead

/-- The transition to the inside of a zone. -/
def parseZoneChar (ch : UInt8) : HostState :=
  if isAlphanum ch || (ascii "%.-_~").contains ch then .hostV6Zone else .dead

/-- `http_parse_host_char(s, ch)`. -/
def parseHostChar (s : HostState) (ch : UInt8) : HostState :=
  match s with
  | .userinfo | .userinfoStart =>
    if ch = char '@' then .hostStart else if isUserinfoChar ch then .userinfo else .dead
  | .hostStart =>
    if ch = char '[' then .hostV6Start else if isHostChar ch then .host else .dead
  | .host => if isHostChar ch then .host else if ch = char ':' then .portStart else .dead
  | .hostV6End => if ch = char ':' then .portStart else .dead
  | .hostV6 => if ch = char ']' then .hostV6End else parseV6Char true ch
  | .hostV6Start => parseV6Char false ch
  | .hostV6Zone => if ch = char ']' then .hostV6End else parseZoneChar ch
  | .hostV6ZoneStart => parseZoneChar ch
  | .port | .portStart => if isNum ch then .port else .dead
  | .dead => .dead

/-- A byte of a part of the host: the part begins here when the state is new. -/
def HttpParserUrl.enterPart (uf : UrlField) (isNew : Bool) (position : ℕ) (u : HttpParserUrl) :
    HttpParserUrl :=
  let begun := { u with field := Function.update u.field uf (some ⟨uint16 position, 0⟩) }
  (if isNew then begun else u).extend uf

/-- A byte of the host proper: its offset moves when the state is new, its length only grows. -/
def HttpParserUrl.enterHost (isNew : Bool) (position : ℕ) (u : HttpParserUrl) : HttpParserUrl :=
  let moved := (u.field .host).map fun data ↦ { data with off := uint16 position }
  let begun := { u with field := Function.update u.field .host moved }
  (if isNew then begun else u).extend .host

/-- The loop of `http_parse_host`. The first component tells whether it came to the end. -/
def scanHost (position : ℕ) (s : HostState) (u : HttpParserUrl) :
    Bytes → Bool × HostState × HttpParserUrl
  | [] => (true, s, u)
  | ch :: rest =>
    match parseHostChar s ch with
    | .dead => (false, s, u)
    | .host => scanHost (position + 1) .host (u.enterHost (s != .host) position) rest
    | .hostV6 => scanHost (position + 1) .hostV6 (u.enterHost (s != .hostV6) position) rest
    | .hostV6ZoneStart => scanHost (position + 1) .hostV6ZoneStart (u.extend .host) rest
    | .hostV6Zone => scanHost (position + 1) .hostV6Zone (u.extend .host) rest
    | .port => scanHost (position + 1) .port (u.enterPart .port (s != .port) position) rest
    | .userinfo =>
      scanHost (position + 1) .userinfo (u.enterPart .userinfo (s != .userinfo) position) rest
    | new => scanHost (position + 1) new u rest

/-- A state in which a host may end. -/
def HostState.isFinal : HostState → Bool
  | .host | .hostV6End | .port | .dead => true
  | _ => false

/-- `http_parse_host(buf, u, found_at)`, for a host at this place. The first component tells whether
it returned zero. -/
def httpParseHost (buf : Bytes) (host : FieldData) (foundAt : Bool) (u : HttpParserUrl) :
    Bool × HttpParserUrl :=
  let u := { u with field := Function.update u.field .host (some { host with len := 0 }) }
  let start : HostState := if foundAt then .userinfoStart else .hostStart
  let (ended, s, u) := scanHost host.off start u ((buf.drop host.off).take host.len)
  (ended && s.isFinal, u)

/-! ### The parser -/

/-- The digits of a port as a number; none once it exceeds 16 bits. -/
def portNumber : Bytes → ℕ → Option ℕ
  | [], v => some v
  | ch :: rest, v =>
    let v := v * 10 + (ch.toNat - (char '0').toNat)
    if 0xffff < v then none else portNumber rest v

/-- The last part of `http_parser_parse_url`: the number of the port. -/
def parsePort (buf : Bytes) (u : HttpParserUrl) : Bool × HttpParserUrl :=
  match u.field .port with
  | none => (true, u)
  | some port =>
    match portNumber ((buf.drop port.off).take port.len) 0 with
    | none => (false, u)
    | some v => (true, { u with port := v })

/-- `http_parser_parse_url(buf, buflen, 0, u)`. The first component tells whether it returned
zero. -/
def httpParserParseUrl (buf : Bytes) : Bool × HttpParserUrl :=
  if buf.isEmpty then (false, HttpParserUrl.init)
  else
    let (ended, scan) := scanUrl 0 UrlScan.init buf
    if !ended then (false, scan.url)
    else
      match scan.url.field .host with
      | none => ((scan.url.field .schema).isNone, scan.url)
      | some host =>
        let (accepted, u) := httpParseHost buf host scan.foundAt scan.url
        if !accepted then (false, u) else parsePort buf u

/-- `get_uri_field(uri, u, field)`. -/
def getUriField (uri : Bytes) (u : HttpParserUrl) (field : UrlField) : Bytes :=
  match u.field field with
  | none => []
  | some data => (uri.drop data.off).take data.len

end Maock.Http
