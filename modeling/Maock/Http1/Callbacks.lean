import Maock.Http.RequestTarget
import Maock.Http1.Handler

/-!
# The callbacks of the HTTP/1 parser

What `http1_handler` does on each callback of llhttp, with the handler as state. Every callback
works on the stream of the current request count; `onCallbacks` takes a list of them and collects
the requests that `http1_msg_completecb` dispatches.

`Assembly` is the part of the state that concerns one request: the request so far and the name of
the current header field. The callbacks between message begin and message complete act on it alone
(`follows_onCallbacks`), and message complete dispatches it (`onCallbacks_message`).
-/

set_option autoImplicit false
set_option relaxedAutoImplicit false

namespace Maock.Http1

open Foundation Foundation.OrderedContainer Foundation.Bytes Http

/-- The part of the configuration that message complete reads. -/
structure TlsConfig where
  certFile : Bytes
  privateKeyFile : Bytes

/-- The callbacks that `http1_hooks` installs and that do something. -/
inductive Callback where
  | messageBegin
  | url (method data : Bytes)
  | headerField (data : Bytes)
  | headerValue (data : Bytes)
  | body (data : Bytes)
  | messageComplete (shouldKeepAlive : Bool)

/-- The scheme of the requests that name none. -/
def defaultScheme (config : TlsConfig) : Bytes :=
  if !config.certFile.isEmpty && !config.privateKeyFile.isEmpty then ascii "https"
  else ascii "http"

/-- What message complete still fills in: the host from the `host` field, and the scheme. -/
def completeUri (config : TlsConfig) (req : AsioServerRequest) : UriRef :=
  let host := if req.uri.host.isEmpty then
      ((req.header.lookup (ascii "host")).map HeaderValue.value).getD req.uri.host
    else req.uri.host
  let scheme := if req.uri.scheme.isEmpty then defaultScheme config else req.uri.scheme
  { req.uri with host := host, scheme := scheme }

/-- The request as message complete dispatches it. -/
def completeRequest (config : TlsConfig) (req : AsioServerRequest) : AsioServerRequest :=
  { req with uri := completeUri config req }

/-- A header field added to a request, as `http1_hdr_valcb` does. -/
def addHeader (name value : Bytes) (req : AsioServerRequest) : AsioServerRequest :=
  { req with header := req.header.emplace name ⟨value, true⟩ }

/-- A piece of the payload added to a request, as `http1_body_cb` does. -/
def addPayload (data : Bytes) (req : AsioServerRequest) : AsioServerRequest :=
  { req with payload := req.payload ++ data }

namespace Http1Handler

/-- A change of the request of the current stream; nothing when there is no such stream. -/
def modifyRequest (f : AsioServerRequest → AsioServerRequest) (h : Http1Handler) : Http1Handler :=
  h.modifyStream h.requestCount fun strm ↦ { strm with request := f strm.request }

/-- `http1_on_url_cb`. The handler keeps the first scheme and the first host it sees. -/
def onUrl (method data : Bytes) (h : Http1Handler) : Http1Handler :=
  match h.findStream h.requestCount with
  | none => h
  | some strm =>
    let u := (httpParserParseUrl data).2
    let uri := (strm.request.onUrl method data).uri
    { h.modifyRequest (AsioServerRequest.onUrl method data) with
      schema := if (u.field .schema).isSome && h.schema.isEmpty then uri.scheme else h.schema
      host := if (u.field .host).isSome && h.host.isEmpty then uri.host else h.host }

/-- `http1_hdr_keycb`. -/
def onHeaderField (data : Bytes) (h : Http1Handler) : Http1Handler :=
  { h with currHeaderName := data.map toLower }

/-- `http1_hdr_valcb`. -/
def onHeaderValue (data : Bytes) (h : Http1Handler) : Http1Handler :=
  h.modifyRequest (addHeader h.currHeaderName data)

/-- `http1_body_cb`. -/
def onBody (data : Bytes) (h : Http1Handler) : Http1Handler :=
  h.modifyRequest (addPayload data)

/-- `http1_msg_completecb` up to `call_on_request`, with the request that it hands over. -/
def messageComplete (config : TlsConfig) (shouldKeepAlive : Bool) (h : Http1Handler) :
    Http1Handler × Option AsioServerRequest :=
  let h := { h with shouldKeepAlive := shouldKeepAlive }.modifyRequest (completeRequest config)
  (h, (h.findStream h.requestCount).map Stream.request)

/-- One callback, with the request that it dispatches. -/
def onCallback (config : TlsConfig) (h : Http1Handler) :
    Callback → Http1Handler × Option AsioServerRequest
  | .messageBegin => (h.messageBegin, none)
  | .url method data => (h.onUrl method data, none)
  | .headerField data => (h.onHeaderField data, none)
  | .headerValue data => (h.onHeaderValue data, none)
  | .body data => (h.onBody data, none)
  | .messageComplete shouldKeepAlive => h.messageComplete config shouldKeepAlive

/-- A list of callbacks, with the requests that they dispatch. -/
def onCallbacks (config : TlsConfig) (h : Http1Handler) :
    List Callback → Http1Handler × List AsioServerRequest
  | [] => (h, [])
  | callback :: rest =>
    let (next, dispatched) := h.onCallback config callback
    let (last, more) := next.onCallbacks config rest
    (last, dispatched.toList ++ more)

theorem onCallbacks_append (config : TlsConfig) (h : Http1Handler) (first second : List Callback) :
    h.onCallbacks config (first ++ second) =
      (((h.onCallbacks config first).1.onCallbacks config second).1,
        (h.onCallbacks config first).2 ++
          ((h.onCallbacks config first).1.onCallbacks config second).2) := by
  induction first generalizing h with
  | nil => rfl
  | cons callback rest ih =>
    simp only [List.cons_append, onCallbacks, ih, List.append_assoc]

theorem findStream_modifyRequest (f : AsioServerRequest → AsioServerRequest) (h : Http1Handler) :
    (h.modifyRequest f).findStream (h.modifyRequest f).requestCount =
      (h.findStream h.requestCount).map fun strm ↦ { strm with request := f strm.request } :=
  findStream_modifyStream h.requestCount _ h

/-- Message begin opens a new stream when the identifiers in use are at most the request count. -/
theorem findStream_messageBegin {h : Http1Handler}
    (hcount : ∀ id ∈ h.openIds, id ≤ h.requestCount) :
    h.messageBegin.findStream h.messageBegin.requestCount = some Stream.initial := by
  refine OrderedMap.lookup_insert_of_new fun known hknown hequiv ↦ ?_
  have hle : known ≤ h.requestCount := hcount known hknown
  have heq : h.requestCount + 1 = known := (equivalent_natLess _ _).mp hequiv
  omega

end Http1Handler

/-! ### One request -/

/-- The state of the handler as far as the current request is concerned. -/
structure Assembly where
  request : AsioServerRequest
  currHeaderName : Bytes

namespace Assembly

/-- What a callback within a message does to the request. -/
def receive (a : Assembly) : Callback → Assembly
  | .url method data => { a with request := a.request.onUrl method data }
  | .headerField data => { a with currHeaderName := data.map toLower }
  | .headerValue data => { a with request := addHeader a.currHeaderName data a.request }
  | .body data => { a with request := addPayload data a.request }
  | .messageBegin | .messageComplete _ => a

/-- What a list of callbacks within a message does to the request. -/
def receiveAll (a : Assembly) (callbacks : List Callback) : Assembly :=
  callbacks.foldl receive a

end Assembly

/-- A callback between message begin and message complete. -/
def Callback.isInner : Callback → Bool
  | .messageBegin | .messageComplete _ => false
  | _ => true

/-- The current stream of the handler holds the request of the assembly. -/
def Follows (h : Http1Handler) (a : Assembly) : Prop :=
  (∃ strm, h.findStream h.requestCount = some strm ∧ strm.request = a.request) ∧
    h.currHeaderName = a.currHeaderName

theorem follows_modifyRequest {h : Http1Handler} {a : Assembly} (hfollows : Follows h a)
    (f : AsioServerRequest → AsioServerRequest) :
    Follows (h.modifyRequest f) { a with request := f a.request } := by
  obtain ⟨⟨strm, hfound, hrequest⟩, hname⟩ := hfollows
  refine ⟨⟨{ strm with request := f strm.request }, ?_, ?_⟩, hname⟩
  · rw [Http1Handler.findStream_modifyRequest, hfound]
    rfl
  · show f strm.request = f a.request
    rw [hrequest]

/-- A callback within a message acts on the assembly alone and dispatches nothing. -/
theorem follows_onCallback {h : Http1Handler} {a : Assembly}
    (hfollows : Follows h a) {callback : Callback} (hinner : callback.isInner = true)
    (config : TlsConfig) :
    Follows (h.onCallback config callback).1 (a.receive callback) ∧
      (h.onCallback config callback).2 = none := by
  cases callback with
  | messageBegin => exact absurd hinner (by decide)
  | messageComplete shouldKeepAlive => exact absurd hinner Bool.false_ne_true
  | url method data =>
    refine ⟨?_, rfl⟩
    obtain ⟨⟨strm, hfound, hrequest⟩, hname⟩ := hfollows
    show Follows (h.onUrl method data) _
    rw [Http1Handler.onUrl, hfound]
    exact follows_modifyRequest ⟨⟨strm, hfound, hrequest⟩, hname⟩ _
  | headerField data => exact ⟨⟨hfollows.1, rfl⟩, rfl⟩
  | headerValue data =>
    refine ⟨?_, rfl⟩
    show Follows (h.onHeaderValue data) _
    rw [Http1Handler.onHeaderValue, hfollows.2]
    exact follows_modifyRequest hfollows _
  | body data => exact ⟨follows_modifyRequest hfollows _, rfl⟩

/-- The callbacks within a message act on the assembly alone and dispatch nothing. -/
theorem follows_onCallbacks {h : Http1Handler} {a : Assembly}
    (hfollows : Follows h a) {callbacks : List Callback}
    (hinner : ∀ callback ∈ callbacks, callback.isInner = true) (config : TlsConfig) :
    Follows (h.onCallbacks config callbacks).1 (a.receiveAll callbacks) ∧
      (h.onCallbacks config callbacks).2 = [] := by
  induction callbacks generalizing h a with
  | nil => exact ⟨hfollows, rfl⟩
  | cons callback rest ih =>
    obtain ⟨hnext, hnone⟩ :=
      follows_onCallback hfollows (hinner callback List.mem_cons_self) config
    obtain ⟨hrest, hempty⟩ := ih hnext fun c hc ↦ hinner c (List.mem_cons_of_mem _ hc)
    refine ⟨hrest, ?_⟩
    show ((h.onCallback config callback).2.toList ++
      ((h.onCallback config callback).1.onCallbacks config rest).2) = []
    rw [hnone, hempty]
    rfl

/-- **A whole message** dispatches one request: the one that its callbacks assemble, completed. -/
theorem onCallbacks_message (config : TlsConfig) {h : Http1Handler}
    (hcount : ∀ id ∈ h.openIds, id ≤ h.requestCount) (shouldKeepAlive : Bool)
    {callbacks : List Callback} (hinner : ∀ callback ∈ callbacks, callback.isInner = true) :
    (h.onCallbacks config
        ([.messageBegin] ++ callbacks ++ [.messageComplete shouldKeepAlive])).2 =
      [completeRequest config
        (Assembly.receiveAll ⟨AsioServerRequest.empty, h.currHeaderName⟩ callbacks).request] := by
  have hbegin : Follows h.messageBegin ⟨AsioServerRequest.empty, h.currHeaderName⟩ :=
    ⟨⟨Stream.initial, Http1Handler.findStream_messageBegin hcount, rfl⟩, rfl⟩
  obtain ⟨⟨⟨strm, hfound, hrequest⟩, -⟩, hnone⟩ := follows_onCallbacks hbegin hinner config
  have hcomplete : ∀ next : Http1Handler, next.findStream next.requestCount = some strm →
      (next.messageComplete config shouldKeepAlive).2 =
        some (completeRequest config strm.request) :=
    by
      intro next hnext
      show ((({ next with shouldKeepAlive := shouldKeepAlive } : Http1Handler).modifyRequest
        (completeRequest config)).findStream _).map Stream.request = _
      rw [Http1Handler.findStream_modifyRequest]
      show Option.map _ (Option.map _ (next.findStream next.requestCount)) = _
      rw [hnext]
      rfl
  rw [Http1Handler.onCallbacks_append, Http1Handler.onCallbacks_append]
  show ([] ++ (h.messageBegin.onCallbacks config callbacks).2) ++
    ((((h.messageBegin.onCallbacks config callbacks).1).messageComplete config
      shouldKeepAlive).2.toList ++ []) = _
  rw [hnone, hcomplete _ hfound, hrequest]
  rfl

end Maock.Http1
