import Maock.Foundation.Bytes

/-!
# Requests and header maps

The request side of a stream: `uri_ref`, `header_map` and `asio_server_request`, with the fields
that the front ends fill and the matcher reads.
-/

set_option autoImplicit false
set_option relaxedAutoImplicit false

namespace Maock.Http

open Foundation Foundation.OrderedContainer Foundation.Bytes

/-- `header_value`. -/
structure HeaderValue where
  value : Bytes
  sensitive : Bool
  deriving DecidableEq

/-- `header_map`: a multimap from header names to header values. -/
abbrev HeaderMap := OrderedMultimap HeaderValue bytesLess

/-- `uri_ref`. The fragment is left out: no function of the server writes or reads it. -/
@[ext] structure UriRef where
  scheme : Bytes
  host : Bytes
  /-- The form after percent-decoding, as `asio_http2.h` documents it. -/
  path : Bytes
  /-- The original path, percent-encoded. -/
  rawPath : Bytes
  /-- The original query, percent-encoded. -/
  rawQuery : Bytes
  deriving DecidableEq

/-- A default-constructed `uri_ref`. -/
def UriRef.empty : UriRef where
  scheme := []
  host := []
  path := []
  rawPath := []
  rawQuery := []

/-- `asio_server_request`. -/
structure AsioServerRequest where
  header : HeaderMap
  method : Bytes
  uri : UriRef
  headerBufferSize : ℕ
  payload : Bytes

/-- A default-constructed `asio_server_request`. -/
def AsioServerRequest.empty : AsioServerRequest where
  header := OrderedMultimap.empty HeaderValue bytesLess
  method := []
  uri := UriRef.empty
  headerBufferSize := 0
  payload := []

/-- Two requests agree on what a handler reads of them: the request target, the header fields as a
multiset of names and values, and the payload. -/
def AsioServerRequest.SameContent (a b : AsioServerRequest) : Prop :=
  a.uri.scheme = b.uri.scheme ∧ a.uri.host = b.uri.host ∧ a.uri.rawPath = b.uri.rawPath ∧
    a.uri.path = b.uri.path ∧
    (a.header.entries.map fun entry ↦ (entry.1, entry.2.value)).Perm
      (b.header.entries.map fun entry ↦ (entry.1, entry.2.value)) ∧
    a.payload = b.payload

end Maock.Http
