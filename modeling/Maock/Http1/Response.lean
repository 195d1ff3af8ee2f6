import Mathlib.Data.Int.Notation
import Maock.Http.Request

/-!
# Responses and their payload generators

`asio_server_response` as the HTTP/1 handler uses it: the head given by `write_head`, the payload
given by `end`, and `call_read`, through which the handler draws the payload piece by piece.
`callRead` keeps two details of the source. The number of bytes that the generator returns goes
through an `int`, and a generator that has reported the end is disposed of.
-/

set_option autoImplicit false
set_option relaxedAutoImplicit false

namespace Maock.Http1

open Foundation Foundation.OrderedContainer Foundation.Bytes Http

/-! ### Status codes -/

/-- `get_reason_phrase`. -/
def getReasonPhrase : ℕ → String
  | 100 => "Continue"
  | 101 => "Switching Protocols"
  | 103 => "Early Hints"
  | 200 => "OK"
  | 201 => "Created"
  | 202 => "Accepted"
  | 203 => "Non-Authoritative Information"
  | 204 => "No Content"
  | 205 => "Reset Content"
  | 206 => "Partial Content"
  | 300 => "Multiple Choices"
  | 301 => "Moved Permanently"
  | 302 => "Found"
  | 303 => "See Other"
  | 304 => "Not Modified"
  | 305 => "Use Proxy"
  | 307 => "Temporary Redirect"
  | 308 => "Permanent Redirect"
  | 400 => "Bad Request"
  | 401 => "Unauthorized"
  | 402 => "Payment Required"
  | 403 => "Forbidden"
  | 404 => "Not Found"
  | 405 => "Method Not Allowed"
  | 406 => "Not Acceptable"
  | 407 => "Proxy Authentication Required"
  | 408 => "Request Timeout"
  | 409 => "Conflict"
  | 410 => "Gone"
  | 411 => "Length Required"
  | 412 => "Precondition Failed"
  | 413 => "Payload Too Large"
  | 414 => "URI Too Long"
  | 415 => "Unsupported Media Type"
  | 416 => "Requested Range Not Satisfiable"
  | 417 => "Expectation Failed"
  | 421 => "Misdirected Request"
  | 425 => "Too Early"
  | 426 => "Upgrade Required"
  | 428 => "Precondition Required"
  | 429 => "Too Many Requests"
  | 431 => "Request Header Fields Too Large"
  | 451 => "Unavailable For Legal Reasons"
  | 500 => "Internal Server Error"
  | 501 => "Not Implemented"
  | 502 => "Bad Gateway"
  | 503 => "Service Unavailable"
  | 504 => "Gateway Timeout"
  | 505 => "HTTP Version Not Supported"
  | 511 => "Network Authentication Required"
  | _ => ""

/-- `expect_response_body(method, status_code)`. -/
def expectResponseBody (method : Bytes) (statusCode : ℕ) : Bool :=
  method != ascii "HEAD" &&
    (statusCode == 101 || statusCode / 100 != 1 && statusCode != 304 && statusCode != 204)

/-! ### Generators -/

/-- `NGHTTP2_DATA_FLAG_EOF`. -/
def dataFlagEof : UInt32 := 0x01

/-- `NGHTTP2_DATA_FLAG_NO_END_STREAM`. -/
def dataFlagNoEndStream : UInt32 := 0x02

/-- `NGHTTP2_ERR_DEFERRED`. -/
def errDeferred : ℤ := -508

/-- `NGHTTP2_ERR_DEFERRED` converted to the type of the data flags. -/
def errDeferredAsFlags : UInt32 := 0xFFFFFE04

/-- A `generator_cb`: a string generator with its string and the number of bytes left, or the
generator that defers. -/
inductive Generator where
  | string (data : Bytes) (left : ℕ)
  | deferred
  deriving DecidableEq

/-- `string_generator(data)`. -/
def stringGenerator (data : Bytes) : Generator :=
  .string data data.length

/-- A call of a generator with room for `len` bytes: the bytes it copies, the number it returns,
whether it sets the end flag, and the generator afterwards. -/
def Generator.call (len : ℕ) : Generator → Bytes × ℤ × Bool × Generator
  | .string data left =>
    let n := min len left
    ((data.drop (data.length - left)).take n, n, decide (left - n = 0), .string data (left - n))
  | .deferred => ([], errDeferred, false, .deferred)

/-! ### Responses -/

/-- `response_state`. -/
inductive ResponseState where
  | initial
  | headerDone
  | bodyStarted
  deriving DecidableEq

/-- `asio_server_response`, for a response that is not pushed. `generator` is `none` when
`generator_cb_` has been moved from. -/
structure AsioServerResponse where
  header : HeaderMap
  trailers : HeaderMap
  generator : Option Generator
  statusCode : ℕ
  state : ResponseState
  payloadSize : ℕ

namespace AsioServerResponse

/-- `asio_server_response()`. -/
def initial : AsioServerResponse where
  header := OrderedMultimap.empty HeaderValue bytesLess
  trailers := OrderedMultimap.empty HeaderValue bytesLess
  generator := some .deferred
  statusCode := 200
  state := .initial
  payloadSize := 0

/-- `write_head(status_code, h)` on a response to a request with this method, up to the call of the
handler's `start_response`. -/
def writeHead (method : Bytes) (statusCode : ℕ) (h : HeaderMap) (res : AsioServerResponse) :
    AsioServerResponse :=
  if res.state ≠ .initial then res
  else
    { res with
      statusCode := statusCode
      header := h
      state := if expectResponseBody method statusCode then .headerDone else .bodyStarted }

/-- `end(cb)`. -/
def endGenerator (method : Bytes) (generator : Generator) (res : AsioServerResponse) :
    AsioServerResponse :=
  if res.state = .bodyStarted then res
  else
    let res := { res with generator := some generator }
    let res :=
      if res.state = .initial then
        res.writeHead method res.statusCode (OrderedMultimap.empty HeaderValue bytesLess)
      else res
    { res with state := .bodyStarted }

/-- `end(data)`. -/
def endString (method : Bytes) (data : Bytes) (res : AsioServerResponse) : AsioServerResponse :=
  { res with payloadSize := data.length }.endGenerator method (stringGenerator data)

/-- `send_data_no_eos(data)`. -/
def sendDataNoEos (method : Bytes) (data : Bytes) (res : AsioServerResponse) : AsioServerResponse :=
  { res with payloadSize := data.length }.endGenerator method (stringGenerator data)

/-- `write_trailer(h)`. Behind the end of the payload the trailers are handed to the handler at
once. -/
def writeTrailer (h : HeaderMap) (res : AsioServerResponse) : AsioServerResponse :=
  if res.generator.isNone then
    { res with trailers := OrderedMultimap.empty HeaderValue bytesLess }
  else { res with trailers := h }

/-- The conversion of a returned length to the `int` that `call_read` keeps it in. -/
@[irreducible] def toInt32 (n : ℤ) : ℤ :=
  n.bmod (2 ^ 32)

theorem toInt32_of_lt {n : ℕ} (h : n < 2 ^ 31) : toInt32 n = n := by
  unfold toInt32
  rw [Int.bmod_eq_of_le] <;> omega

/-- What a call of `call_read` leaves: the bytes copied, the returned code, the flags, and the
response. -/
structure Reading where
  copied : Bytes
  retCode : ℤ
  flags : UInt32
  response : AsioServerResponse

/-- `call_read(data, len, data_flags)`. -/
def callRead (len : ℕ) (flags : UInt32) (res : AsioServerResponse) : Reading :=
  let reading : Reading :=
    match res.generator with
    | some generator =>
      let (copied, n, eof, generator) := generator.call len
      let flags := if eof then flags ||| dataFlagEof else flags
      { copied := copied
        retCode := toInt32 n
        flags := flags
        response :=
          { res with
            generator := if flags &&& dataFlagEof ≠ 0 then none else some generator } }
    | none => { copied := [], retCode := 0, flags := flags ||| dataFlagEof, response := res }
  if reading.flags &&& dataFlagEof ≠ 0 ∧ reading.response.trailers.entries ≠ [] then
    { reading with
      flags := reading.flags ||| dataFlagNoEndStream
      response :=
        { reading.response with trailers := OrderedMultimap.empty HeaderValue bytesLess } }
  else reading

end AsioServerResponse

end Maock.Http1
