import Maock.Http.PathJoin
import Maock.Http.PercentEncoding
import Maock.Http.Request

/-!
# The pattern table

`serve_mux`: the table from patterns to callbacks, its `match` by the longest pattern, and
`handler`, which redirects a request whose path is not clean and looks the others up.
-/

set_option autoImplicit false
set_option relaxedAutoImplicit false

namespace Maock.Http

open Foundation Foundation.OrderedContainer Foundation.Bytes

/-- A `request_cb`: a callback that the program registers, known by a number, or one of those that
`redirect_handler` and `status_handler` build. -/
inductive RequestCb where
  | registered (id : ℕ)
  | redirectHandler (statusCode : ℕ) (uri : Bytes)
  | statusHandler (statusCode : ℕ)
  deriving DecidableEq

/-- `handler_entry`. -/
structure HandlerEntry where
  userDefined : Bool
  cb : RequestCb
  pattern : Bytes

/-- `serve_mux`. -/
structure ServeMux where
  mux : OrderedMap HandlerEntry bytesLess

namespace ServeMux

/-! ### Registration -/

/-- A table without patterns. -/
def empty : ServeMux where
  mux := OrderedSet.empty _

/-- The path that the implicit redirect of a pattern leads to: the pattern without its host. -/
def pathOfPattern (pattern : Bytes) : Bytes :=
  if pattern.head? = some (char '/') then pattern else pattern.dropWhile (· != char '/')

/-- The implicit redirect from a pattern without its last `/`. -/
def addRedirect (pattern : Bytes) (mux : OrderedMap HandlerEntry bytesLess) :
    OrderedMap HandlerEntry bytesLess :=
  let redirectPattern := pattern.dropLast
  let entry : HandlerEntry := ⟨false, .redirectHandler 301 (pathOfPattern pattern), pattern⟩
  match OrderedMap.lookup mux redirectPattern with
  | none => OrderedSet.insert (redirectPattern, entry) mux
  | some known =>
    if known.userDefined then mux else OrderedMap.modify redirectPattern (fun _ ↦ entry) mux

/-- `handle(pattern, cb)`; an empty function is no callback. -/
def handle (pattern : Bytes) (cb : Option RequestCb) (m : ServeMux) : Bool × ServeMux :=
  match cb with
  | none => (false, m)
  | some cb =>
    if pattern.isEmpty || (OrderedMap.lookup m.mux pattern).any HandlerEntry.userDefined then
      (false, m)
    else
      let mux :=
        if 2 ≤ pattern.length ∧ pattern.getLast? = some (char '/') then addRedirect pattern m.mux
        else m.mux
      (true, ⟨OrderedSet.insert (pattern, ⟨true, cb, pattern⟩) mux⟩)

/-! ### Lookup -/

/-- `path_match(pattern, path)`. -/
def pathMatch (pattern path : Bytes) : Bool :=
  if pattern.getLast? = some (char '/') then pattern.isPrefixOf path else pattern == path

/-- A turn of the loop of `match`: the entry kept is the first of the longest patterns so far. -/
def longer (path : Bytes) (best : Option (Bytes × HandlerEntry)) (kv : Bytes × HandlerEntry) :
    Option (Bytes × HandlerEntry) :=
  if !pathMatch kv.1 path then best
  else
    match best with
    | none => some kv
    | some known => if known.1.length < kv.1.length then some kv else best

/-- `match(path)`. -/
def matchPath (m : ServeMux) (path : Bytes) : Option RequestCb :=
  (m.mux.elems.foldl (longer path) none).map fun kv ↦ kv.2.cb

/-- The part of `handler` behind the cleaning: the callback of a host and a clean path. -/
def lookup (m : ServeMux) (host path : Bytes) : RequestCb :=
  ((m.matchPath (host ++ path)).or (m.matchPath path)).getD (.statusHandler 404)

/-- `clean_path` of a path. -/
def cleanPath (path : Bytes) : Bytes :=
  pathJoin [] [] path []

/-- A path that `handler` looks up as it is. -/
def IsClean (path : Bytes) : Prop :=
  cleanPath path = path

instance (path : Bytes) : Decidable (IsClean path) :=
  inferInstanceAs (Decidable (_ = _))

/-- `handler(req)`. -/
def handler (m : ServeMux) (req : AsioServerRequest) : RequestCb :=
  if req.method ≠ ascii "CONNECT" ∧ cleanPath req.uri.path ≠ req.uri.path then
    .redirectHandler 301
      (appendQuery (percentEncodePath (cleanPath req.uri.path)) req.uri.rawQuery)
  else m.lookup req.uri.host req.uri.path

/-- The handler of a request whose path is clean. -/
theorem handler_of_clean {m : ServeMux} {req : AsioServerRequest}
    (hclean : IsClean req.uri.path) :
    m.handler req = m.lookup req.uri.host req.uri.path :=
  if_neg fun h ↦ h.2 hclean

/-- The handler of a request whose path is not clean. -/
theorem handler_of_not_clean {m : ServeMux} {req : AsioServerRequest}
    (hmethod : req.method ≠ ascii "CONNECT") (hclean : ¬ IsClean req.uri.path) :
    m.handler req = .redirectHandler 301
      (appendQuery (percentEncodePath (cleanPath req.uri.path)) req.uri.rawQuery) :=
  if_pos ⟨hmethod, hclean⟩

/-! ### Two requests under one table -/

/-- When a request with path `first` and no query and a request with path `second` and this query
get the same callback: the table has one for both paths; or both are redirected, without a query,
to one clean path; or one of them is redirected to where the table sends the other. -/
def SameDecision (m : ServeMux) (host first second query : Bytes) : Prop :=
  (IsClean first ∧ IsClean second ∧ m.lookup host first = m.lookup host second) ∨
    (¬ IsClean first ∧ ¬ IsClean second ∧ query = [] ∧ cleanPath first = cleanPath second) ∨
    (IsClean first ∧ ¬ IsClean second ∧ m.lookup host first =
      .redirectHandler 301 (appendQuery (percentEncodePath (cleanPath second)) query)) ∨
    (¬ IsClean first ∧ IsClean second ∧ m.lookup host second =
      .redirectHandler 301 (percentEncodePath (cleanPath first)))

/-- Locations with and without a query agree when the query is empty and the paths are the same:
an encoded path has no `?`. -/
theorem percentEncodePath_eq_appendQuery_iff {s t query : Bytes} :
    percentEncodePath s = appendQuery (percentEncodePath t) query ↔ query = [] ∧ s = t := by
  by_cases hquery : query = []
  · subst hquery
    show percentEncodePath s = percentEncodePath t ↔ _
    exact ⟨fun h ↦ ⟨rfl, percentEncodePath_injective h⟩, fun h ↦ congrArg _ h.2⟩
  · have hempty : query.isEmpty = false := by simpa using hquery
    refine ⟨fun h ↦ ?_, fun h ↦ absurd h.1 hquery⟩
    rw [appendQuery, hempty] at h
    refine absurd ?_ (question_notMem_percentEncodePath s)
    rw [h]
    exact List.mem_append_left _ (List.mem_append_right _ (List.mem_singleton.mpr rfl))

theorem handler_eq_handler_iff {m : ServeMux} {first second : AsioServerRequest}
    (hfirst : first.method ≠ ascii "CONNECT") (hsecond : second.method ≠ ascii "CONNECT")
    (hquery : first.uri.rawQuery = []) (hhost : second.uri.host = first.uri.host) :
    m.handler first = m.handler second ↔
      m.SameDecision first.uri.host first.uri.path second.uri.path second.uri.rawQuery := by
  have hlocation : appendQuery (percentEncodePath (cleanPath first.uri.path)) first.uri.rawQuery =
      percentEncodePath (cleanPath first.uri.path) := by rw [hquery]; rfl
  by_cases hclean : IsClean first.uri.path
  · rw [handler_of_clean hclean]
    by_cases hclean' : IsClean second.uri.path
    · rw [handler_of_clean hclean', hhost]
      simp [SameDecision, hclean, hclean']
    · rw [handler_of_not_clean hsecond hclean']
      simp [SameDecision, hclean, hclean']
  · rw [handler_of_not_clean hfirst hclean, hlocation]
    by_cases hclean' : IsClean second.uri.path
    · rw [handler_of_clean hclean', hhost, eq_comm]
      simp [SameDecision, hclean, hclean']
    · rw [handler_of_not_clean hsecond hclean', RequestCb.redirectHandler.injEq,
        percentEncodePath_eq_appendQuery_iff]
      simp [SameDecision, hclean, hclean']

/-! ### The table of the server -/

/-- The table of the server: one callback, for all paths. -/
def ofServer (id : ℕ) : ServeMux :=
  (handle (ascii "/") (some (.registered id)) empty).2

/-- The server's callback answers every absolute path. -/
theorem lookup_ofServer (id : ℕ) (host : Bytes) {path : Bytes}
    (hpath : path.head? = some (char '/')) :
    (ofServer id).lookup host path = .registered id := by
  have hmatch : ∀ p, (ofServer id).matchPath p =
      if (ascii "/").isPrefixOf p then some (.registered id) else none := by
    intro p
    show (Option.map _ (longer p none (ascii "/", _))) = _
    have hslash : (ascii "/").getLast? = some (char '/') := rfl
    simp only [longer, pathMatch, if_pos hslash]
    cases (ascii "/").isPrefixOf p with
    | true => rfl
    | false => rfl
  have hbegins : (ascii "/").isPrefixOf path = true := by
    cases path with
    | nil => exact absurd hpath (by simp)
    | cons c rest =>
      have hc : c = char '/' := by simpa using hpath
      subst hc
      rfl
  rw [lookup, hmatch, hmatch, if_pos hbegins]
  split_ifs <;> rfl

/-- Under the server's table only the cleaning of the two paths counts. -/
theorem sameDecision_ofServer_iff {id : ℕ} {host first second query : Bytes}
    (hfirst : first.head? = some (char '/')) (hsecond : second.head? = some (char '/')) :
    (ofServer id).SameDecision host first second query ↔
      (IsClean first ∧ IsClean second) ∨
        (¬ IsClean first ∧ ¬ IsClean second ∧ query = [] ∧
          cleanPath first = cleanPath second) := by
  simp [SameDecision, lookup_ofServer _ _ hfirst, lookup_ofServer _ _ hsecond]

end ServeMux

end Maock.Http
