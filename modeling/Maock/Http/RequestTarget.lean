import Maock.Http.ServeMux
import Maock.Http.UrlFields
import Maock.Matching.RequestMessage

/-!
# The request target in both front ends

HTTP/1 takes path and query out of the URL with the URL parser and keeps them together, as they
came; HTTP/2 cuts the `:path` field at the first `?` and decodes the path. `targets_agree_iff` says
for which targets the two requests have the same `:path` value and the same callback.
-/

set_option autoImplicit false
set_option relaxedAutoImplicit false

namespace Maock.Http

open Foundation Foundation.OrderedContainer Foundation.Bytes Matching

/-! ### Filling the request -/

/-- What `http1_on_url_cb` takes as path: the path of the URL with its query. -/
def urlPathAndQuery (data : Bytes) (u : HttpParserUrl) : Bytes :=
  (if (u.field .path).isSome then getUriField data u .path else ascii "/") ++
    if (u.field .query).isSome then ascii "?" ++ getUriField data u .query else []

/-- The part of `http1_on_url_cb` that fills the URI. -/
def UriRef.fillFromUrl (data : Bytes) (uri : UriRef) : UriRef :=
  let u := (httpParserParseUrl data).2
  let port := if (u.field .port).isSome then ascii ":" ++ decimal u.port else []
  { uri with
    scheme := if (u.field .schema).isSome then getUriField data u .schema else uri.scheme
    host := if (u.field .host).isSome then getUriField data u .host ++ port else uri.host
    path := urlPathAndQuery data u
    rawPath := urlPathAndQuery data u }

/-- `split_path(dst, first, last)`. -/
def UriRef.splitPath (value : Bytes) (uri : UriRef) : UriRef :=
  { uri with
    path := percentDecode (targetPath value)
    rawPath := targetPath value
    rawQuery := targetQuery value }

/-- The request as `http1_on_url_cb` fills it. -/
def AsioServerRequest.onUrl (method data : Bytes) (req : AsioServerRequest) : AsioServerRequest :=
  { req with method := method, uri := req.uri.fillFromUrl data }

/-- The request as the `:path` branch of `on_header_callback` fills it. -/
def AsioServerRequest.onPath (value : Bytes) (req : AsioServerRequest) : AsioServerRequest :=
  { req with uri := req.uri.splitPath value }

/-! ### The path under HTTP/1 -/

/-- Both lengths and the place of the query fit in 16 bits, or the query happens to be what stands
where the wrapped offset points to. -/
def TargetFits (target : Bytes) : Prop :=
  (targetPath target).length < 2 ^ 16 ∧
    (targetQuery target = [] ∨
      (targetQuery target).length < 2 ^ 16 ∧
        ((targetPath target).length + 1 < 2 ^ 16 ∨
          targetQuery target = target.take (targetQuery target).length))

/-- The path of a target with its query, when it is not empty. -/
def targetPathAndQuery (target : Bytes) : Bytes :=
  appendQuery (targetPath target) (targetQuery target)

theorem targetPath_prefix (target : Bytes) : target.take (targetPath target).length =
    targetPath target :=
  (List.prefix_iff_eq_take.mp (List.takeWhile_prefix _)).symm

/-- The query of a target stands behind its path and the `?`. -/
theorem drop_targetPath (target : Bytes) :
    target.drop ((targetPath target).length + 1) = targetQuery target := by
  have hsplit : targetPath target ++ target.dropWhile (· != char '?') = target :=
    List.takeWhile_append_dropWhile
  have htail : target.drop (targetPath target).length = target.dropWhile (· != char '?') := by
    have hdrop := congrArg (List.drop (targetPath target).length) hsplit
    rw [List.drop_left] at hdrop
    exact hdrop.symm
  rw [← List.drop_drop, htail]
  exact List.drop_one

section Accepted

variable {target : Bytes} (hslash : target.head? = some (char '/')) (hhash : char '#' ∉ target)
  (haccepted : (httpParserParseUrl target).1 = true)

include hslash hhash haccepted

/-- The path and query that HTTP/1 takes from an accepted target, with the lengths and offsets as
they wrap. -/
theorem urlPathAndQuery_of_accepted :
    urlPathAndQuery target (httpParserParseUrl target).2 =
      target.take (uint16 (targetPath target).length) ++
        if targetQuery target = [] then []
        else ascii "?" ++
          (target.drop (uint16 ((targetPath target).length + 1))).take
            (uint16 (targetQuery target).length) := by
  obtain ⟨-, -, hpath, hquery⟩ := fields_of_accepted hslash hhash haccepted
  simp only [urlPathAndQuery, getUriField, hpath, hquery]
  split_ifs with hempty <;> simp_all

/-- HTTP/1 keeps path and query of the target whole exactly when the target fits. -/
theorem urlPathAndQuery_eq_iff :
    urlPathAndQuery target (httpParserParseUrl target).2 = targetPathAndQuery target ↔
      TargetFits target := by
  rw [urlPathAndQuery_of_accepted hslash hhash haccepted, targetPathAndQuery, appendQuery]
  have htake := targetPath_prefix target
  have hpathLt := uint16_lt (targetPath target).length
  by_cases hempty : targetQuery target = []
  · simp only [hempty, if_true, List.isEmpty_nil, List.append_nil, TargetFits, true_or, and_true]
    constructor
    · intro heq
      have hlength := congrArg List.length heq
      rw [List.length_take] at hlength
      omega
    · intro hlt
      rw [uint16_of_lt hlt, htake]
  · have hquery : (targetQuery target).isEmpty = false := by simpa using hempty
    simp only [if_neg hempty, hquery, Bool.false_eq_true, if_false, List.append_assoc]
    constructor
    · intro heq
      have hpathLe := uint16_le (targetPath target).length
      have hqueryLe := uint16_le (targetQuery target).length
      have hqueryLt := uint16_lt (targetQuery target).length
      have hlength := congrArg List.length heq
      simp only [List.length_append, List.length_take] at hlength
      have hpath : (target.take (uint16 (targetPath target).length)).length =
          (targetPath target).length := by
        rw [List.length_take]
        omega
      have hquery' := List.append_cancel_left (List.append_inj_right heq hpath)
      refine ⟨by rw [List.length_take] at hpath; omega, Or.inr ⟨by omega, ?_⟩⟩
      by_cases hfits : (targetPath target).length + 1 < 2 ^ 16
      · exact Or.inl hfits
      · right
        have hwraps : (targetPath target).length + 1 = 2 ^ 16 := by
          rw [List.length_take] at hpath
          omega
        have hzero : uint16 (2 ^ 16) = 0 := rfl
        have hself : uint16 (targetQuery target).length = (targetQuery target).length := by omega
        rw [hwraps, hzero, List.drop_zero, hself] at hquery'
        exact hquery'.symm
    · rintro ⟨hpath, hnone | ⟨hqueryLt, hoff⟩⟩
      · exact absurd hnone hempty
      · rw [uint16_of_lt hpath, uint16_of_lt hqueryLt, htake]
        congr 2
        by_cases hfits : (targetPath target).length + 1 < 2 ^ 16
        · rw [uint16_of_lt hfits, drop_targetPath, List.take_length]
        · have hwraps : (targetPath target).length + 1 = 2 ^ 16 := by omega
          have hzero : uint16 (2 ^ 16) = 0 := rfl
          rw [hwraps, hzero, List.drop_zero]
          exact (hoff.resolve_left hfits).symm

end Accepted

/-! ### The two front ends -/

/-- The path values of the two messages agree exactly when HTTP/1 keeps path and query whole. -/
theorem pathHeader_eq_iff {req : AsioServerRequest} {target : Bytes} (method : Bytes)
    (hnew : req.uri.rawQuery = []) (hslash : target.head? = some (char '/'))
    (hhash : char '#' ∉ target) (haccepted : (httpParserParseUrl target).1 = true) :
    RequestMessage.pathHeader (req.onUrl method target) =
        RequestMessage.pathHeader (req.onPath target) ↔ TargetFits target := by
  rw [← urlPathAndQuery_eq_iff hslash hhash haccepted]
  have hfirst : RequestMessage.pathHeader (req.onUrl method target) =
      urlPathAndQuery target (httpParserParseUrl target).2 := by
    show (if req.uri.rawQuery.isEmpty then _ else _) = _
    rw [hnew]
    rfl
  rw [hfirst]
  rfl

/-- A target that fits gets the same callback from both front ends exactly when the pattern table
takes the undecoded path with its query and the decoded path for the same. -/
theorem handler_eq_iff {m : ServeMux} {req : AsioServerRequest} {target : Bytes}
    (hmethod : req.method ≠ ascii "CONNECT") (hnew : req.uri.rawQuery = [])
    (hslash : target.head? = some (char '/')) (hhash : char '#' ∉ target)
    (haccepted : (httpParserParseUrl target).1 = true) (hfits : TargetFits target) :
    m.handler (req.onUrl req.method target) = m.handler (req.onPath target) ↔
      m.SameDecision req.uri.host (targetPathAndQuery target) (percentDecode (targetPath target))
        (targetQuery target) := by
  have hhost : (req.onUrl req.method target).uri.host = req.uri.host := by
    show (if ((httpParserParseUrl target).2.field .host).isSome then _ else _) = _
    rw [(fields_of_accepted hslash hhash haccepted).2.1]
    rfl
  have hpath : (req.onUrl req.method target).uri.path = targetPathAndQuery target :=
    (urlPathAndQuery_eq_iff hslash hhash haccepted).mpr hfits
  have hfirst : (req.onUrl req.method target).method ≠ ascii "CONNECT" := hmethod
  have hsecond : (req.onPath target).method ≠ ascii "CONNECT" := hmethod
  have hquery : (req.onUrl req.method target).uri.rawQuery = [] := hnew
  rw [ServeMux.handler_eq_handler_iff hfirst hsecond hquery hhost.symm, hhost, hpath]
  rfl

/-- A `GET` request to a host, with nothing else filled in yet. -/
def getRequest (host : Bytes) : AsioServerRequest where
  header := OrderedMultimap.empty HeaderValue bytesLess
  method := ascii "GET"
  uri := { UriRef.empty with host := host }
  headerBufferSize := 0
  payload := []

/-- Libraries that match nothing and decode nothing. -/
def noLibraries : MatchLibraries Unit where
  regexMatch _ _ := false
  emptyDocument := ()
  parse _ := ()
  getValueFromJsonPtr _ _ := []

section Agreement

variable {Document : Type*} (libraries : MatchLibraries Document)

/-- **The two front ends agree on a request target**, on the `:path` value and on the callback,
exactly when it fits and the pattern table takes the undecoded path with its query and the decoded
path for the same. -/
theorem targets_agree_iff (m : ServeMux) {req : AsioServerRequest} {target : Bytes}
    (hmethod : req.method ≠ ascii "CONNECT") (hnew : req.uri.rawQuery = [])
    (hslash : target.head? = some (char '/')) (hhash : char '#' ∉ target)
    (haccepted : (httpParserParseUrl target).1 = true) :
    ((RequestMessage.ofRequest libraries (req.onUrl req.method target)).headers.lookup
          (ascii ":path") =
        (RequestMessage.ofRequest libraries (req.onPath target)).headers.lookup (ascii ":path") ∧
      m.handler (req.onUrl req.method target) = m.handler (req.onPath target)) ↔
    TargetFits target ∧
      m.SameDecision req.uri.host (targetPathAndQuery target) (percentDecode (targetPath target))
        (targetQuery target) := by
  rw [RequestMessage.lookup_path_ofRequest, RequestMessage.lookup_path_ofRequest, Option.some_inj,
    pathHeader_eq_iff req.method hnew hslash hhash haccepted]
  exact and_congr_right fun hfits ↦ handler_eq_iff hmethod hnew hslash hhash haccepted hfits

theorem targets_agree_plainQuery :
    (RequestMessage.ofRequest noLibraries ((getRequest (ascii "maock")).onUrl (ascii "GET")
          (ascii "/status?verbose=1"))).headers.lookup (ascii ":path") =
        (RequestMessage.ofRequest noLibraries ((getRequest (ascii "maock")).onPath
          (ascii "/status?verbose=1"))).headers.lookup (ascii ":path") ∧
      (ServeMux.ofServer 1).handler ((getRequest (ascii "maock")).onUrl (ascii "GET")
          (ascii "/status?verbose=1")) =
        (ServeMux.ofServer 1).handler ((getRequest (ascii "maock")).onPath
          (ascii "/status?verbose=1")) := by
  refine (@targets_agree_iff Unit noLibraries (ServeMux.ofServer 1) (getRequest (ascii "maock"))
    (ascii "/status?verbose=1") (by decide) rfl rfl (by decide) (by decide +kernel)).mpr
    ⟨⟨by decide, Or.inr ⟨by decide, Or.inl (by decide)⟩⟩, Or.inl ?_⟩
  decide +kernel

/-- A dot segment in the query: HTTP/1 cleans the path together with the query and redirects,
HTTP/2 answers with the registered callback. -/
theorem targets_disagree_dotSegmentInQuery :
    (ascii "/a?b/../c").head? = some (char '/') ∧ char '#' ∉ ascii "/a?b/../c" ∧
      (httpParserParseUrl (ascii "/a?b/../c")).1 = true ∧ ascii "GET" ≠ ascii "CONNECT" ∧
      (ServeMux.ofServer 1).handler ((getRequest (ascii "maock")).onUrl (ascii "GET")
          (ascii "/a?b/../c")) = .redirectHandler 301 (ascii "/c") ∧
      (ServeMux.ofServer 1).handler ((getRequest (ascii "maock")).onPath (ascii "/a?b/../c")) =
        .registered 1 ∧
      (ServeMux.ofServer 1).handler ((getRequest (ascii "maock")).onUrl (ascii "GET")
          (ascii "/a?b/../c")) ≠
        (ServeMux.ofServer 1).handler ((getRequest (ascii "maock")).onPath
          (ascii "/a?b/../c")) := by
  decide +kernel

/-- Under the server's own table the two front ends agree on a target that fits exactly when both
paths are clean, or both are redirected, without a query, to one clean path. -/
theorem targets_agree_ofServer_iff (id : ℕ) {req : AsioServerRequest} {target : Bytes}
    (hmethod : req.method ≠ ascii "CONNECT") (hnew : req.uri.rawQuery = [])
    (hslash : target.head? = some (char '/')) (hhash : char '#' ∉ target)
    (haccepted : (httpParserParseUrl target).1 = true) :
    ((RequestMessage.ofRequest libraries (req.onUrl req.method target)).headers.lookup
          (ascii ":path") =
        (RequestMessage.ofRequest libraries (req.onPath target)).headers.lookup (ascii ":path") ∧
      (ServeMux.ofServer id).handler (req.onUrl req.method target) =
        (ServeMux.ofServer id).handler (req.onPath target)) ↔
    TargetFits target ∧
      ((ServeMux.IsClean (targetPathAndQuery target) ∧
          ServeMux.IsClean (percentDecode (targetPath target))) ∨
        (¬ ServeMux.IsClean (targetPath target) ∧
          ¬ ServeMux.IsClean (percentDecode (targetPath target)) ∧ targetQuery target = [] ∧
          ServeMux.cleanPath (targetPath target) =
            ServeMux.cleanPath (percentDecode (targetPath target)))) := by
  rw [RequestMessage.lookup_path_ofRequest, RequestMessage.lookup_path_ofRequest, Option.some_inj,
    pathHeader_eq_iff req.method hnew hslash hhash haccepted]
  refine and_congr_right fun hfits ↦ ?_
  obtain ⟨rest, hrest⟩ : ∃ rest, targetPath target = char '/' :: rest := by
    cases target with
    | nil => exact absurd hslash (by simp)
    | cons c tail =>
      have hc : c = char '/' := by simpa using hslash
      subst hc
      exact ⟨targetPath tail, rfl⟩
  have hfirst : (targetPathAndQuery target).head? = some (char '/') := by
    rw [targetPathAndQuery, appendQuery, hrest]
    split_ifs <;> rfl
  have hsecond : (percentDecode (targetPath target)).head? = some (char '/') := by
    rw [hrest, percentDecode_cons_of_ne (by decide)]
    rfl
  rw [handler_eq_iff hmethod hnew hslash hhash haccepted hfits,
    ServeMux.sameDecision_ofServer_iff hfirst hsecond]
  refine or_congr Iff.rfl ⟨?_, ?_⟩
  · rintro ⟨hunclean, hunclean', hquery, hclean⟩
    rw [targetPathAndQuery, hquery] at hunclean hclean
    exact ⟨hunclean, hunclean', hquery, hclean⟩
  · rintro ⟨hunclean, hunclean', hquery, hclean⟩
    rw [targetPathAndQuery, hquery]
    exact ⟨hunclean, hunclean', rfl, hclean⟩

end Agreement

end Maock.Http
