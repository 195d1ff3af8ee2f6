import Maock.Http.PathSegments
import Maock.Http.RequestTarget

/-!
# Redirects to the cleaned path

A request whose path is not clean is redirected to its cleaned path, encoded, with its query. When
the redirect is followed, `split_path` finds the query and the cleaned path again. `settles_iff`
says for which `:path` values this is the end of it.
-/

set_option autoImplicit false
set_option relaxedAutoImplicit false

namespace Maock.Http

open Foundation Foundation.Bytes

/-! ### Splitting the new URI -/

theorem notQuestion_of_mem_percentEncodePath {path : Bytes} :
    ∀ c ∈ percentEncodePath path, (c != char '?') = true :=
  fun _ hc ↦ bne_iff_ne.mpr fun heq ↦ question_notMem_percentEncodePath path (heq ▸ hc)

/-- An encoded path with a query is split where they were put together. -/
theorem split_encoded (path query : Bytes) :
    targetPath (appendQuery (percentEncodePath path) query) = percentEncodePath path ∧
      targetQuery (appendQuery (percentEncodePath path) query) = query := by
  have hall := @notQuestion_of_mem_percentEncodePath path
  unfold targetPath targetQuery appendQuery
  cases query with
  | nil =>
    rw [List.isEmpty_nil, if_pos rfl, List.takeWhile_eq_self_iff.mpr hall,
      List.dropWhile_eq_nil_iff.mpr hall]
    exact ⟨rfl, rfl⟩
  | cons c query =>
    rw [List.isEmpty_cons, if_neg Bool.false_ne_true, List.append_assoc,
      List.takeWhile_append_of_pos hall, List.dropWhile_append_of_pos hall,
      show ascii "?" ++ c :: query = char '?' :: c :: query from rfl,
      List.takeWhile_cons_of_neg (by decide), List.dropWhile_cons_of_neg (by decide),
      List.append_nil]
    exact ⟨rfl, rfl⟩

/-! ### Following the redirect -/

/-- A path begins with a slash, and it has no empty segment, except for one behind a slash at its
end, and no dot segment. -/
structure IsNormal (path : Bytes) : Prop where
  slash : path.head? = some (char '/')
  nonempty : ∀ segment ∈ (pathSegments path).tail.dropLast, segment ≠ []
  noDots : ∀ segment ∈ pathSegments path, ¬ IsDotSegment segment

/-- What following a redirect gives: the request for the new URI has the same query, its path is the
cleaned path, and that is clean. -/
def FollowsTo (m : ServeMux) (req : AsioServerRequest) (value newUri : Bytes) : Prop :=
  m.handler (req.onPath value) = .redirectHandler 301 newUri ∧
    (req.onPath newUri).uri.rawQuery = (req.onPath value).uri.rawQuery ∧
    (req.onPath newUri).uri.path = ServeMux.cleanPath (req.onPath value).uri.path ∧
    ServeMux.IsClean (req.onPath newUri).uri.path

/-- A redirect for the path of a request is the last one. -/
structure Settles (m : ServeMux) (req : AsioServerRequest) (value : Bytes) : Prop where
  redirect : ¬ ServeMux.IsClean (req.onPath value).uri.path →
    ∃ newUri, FollowsTo m req value newUri
  idempotent : ServeMux.cleanPath (ServeMux.cleanPath (req.onPath value).uri.path) =
    ServeMux.cleanPath (req.onPath value).uri.path
  normal : IsNormal (ServeMux.cleanPath (req.onPath value).uri.path)
  decoded : ∀ s, percentDecode (percentEncodePath s) = s

/-- A cleaned path that is clean is normal. -/
theorem isNormal_cleanPath {path : Bytes} (h : SlashesUndone true (pathSegments path)) :
    IsNormal (ServeMux.cleanPath path) := by
  have hslash : ∀ segment ∈ pathSegments path, char '/' ∉ segment :=
    fun segment h ↦ slash_notMem_of_mem_pathSegments h
  have hdirectories : ∀ d ∈ kept true (pathSegments path), char '/' ∉ d ∧ ¬ IsDotSegment d :=
    fun d hd ↦ (not_isDotSegment_of_mem_kept hd).imp_left (hslash d)
  have hfile := file_plain hslash
  have hsegments := pathSegments_render (fun d hd ↦ (hdirectories d hd).1) hfile.1
  rw [cleanPath_eq]
  constructor
  case slash => rfl
  case nonempty =>
    rw [hsegments, List.tail_cons, List.dropLast_concat]
    intro segment hsegment hempty
    exact (nil_notMem_kept_iff true _).mpr h (hempty ▸ hsegment)
  case noDots =>
    rw [hsegments]
    intro segment hsegment
    rcases List.mem_cons.mp hsegment with rfl | hsegment
    · decide
    · rcases List.mem_append.mp hsegment with hsegment | hsegment
      · exact (hdirectories segment hsegment).2
      · exact List.mem_singleton.mp hsegment ▸ hfile.2

/-- **Redirects for path cleaning settle** after one step exactly when, in the decoded path, every
slash directly behind a dot segment is taken away again by a later `..`. -/
theorem settles_iff (m : ServeMux) {req : AsioServerRequest}
    (hmethod : req.method ≠ ascii "CONNECT") (value : Bytes) :
    Settles m req value ↔
      SlashesUndone true (pathSegments (percentDecode (targetPath value))) := by
  rw [← isClean_cleanPath_iff]
  constructor
  · exact fun h ↦ h.idempotent
  · intro hclean
    constructor
    case redirect =>
      intro hunclean
      obtain ⟨hpath, hquery⟩ := split_encoded (ServeMux.cleanPath (req.onPath value).uri.path)
        (req.onPath value).uri.rawQuery
      have hdecoded := percentDecode_percentEncodePath
        (ServeMux.cleanPath (req.onPath value).uri.path)
      refine ⟨_, ServeMux.handler_of_not_clean hmethod hunclean, hquery, ?_, ?_⟩
      · exact (congrArg percentDecode hpath).trans hdecoded
      · have hnext := (congrArg percentDecode hpath).trans hdecoded
        show ServeMux.IsClean (percentDecode (targetPath _))
        rw [hnext]
        exact hclean
    case idempotent => exact hclean
    case normal => exact isNormal_cleanPath ((isClean_cleanPath_iff _).mp hclean)
    case decoded => exact percentDecode_percentEncodePath

/-- A slash behind an encoded `.` that a later `..` takes away. -/
theorem settles_encodedDot :
    Settles (ServeMux.ofServer 1) (getRequest (ascii "maock"))
      (ascii "/alpha/%2e//../bravo?q=/./") :=
  (settles_iff (ServeMux.ofServer 1) (by decide) (ascii "/alpha/%2e//../bravo?q=/./")).mpr
    (by decide +kernel)

/-- Behind `.` the second slash stays, and the redirect leads to another one. -/
theorem not_settles_slashBehindDot :
    (ServeMux.ofServer 1).handler ((getRequest (ascii "maock")).onPath (ascii "/.//alpha")) =
        .redirectHandler 301 (ascii "//alpha") ∧
      (ServeMux.ofServer 1).handler ((getRequest (ascii "maock")).onPath (ascii "//alpha")) =
        .redirectHandler 301 (ascii "/alpha") ∧
      ¬ Settles (ServeMux.ofServer 1) (getRequest (ascii "maock")) (ascii "/.//alpha") := by
  refine ⟨by decide +kernel, by decide +kernel, fun h ↦ ?_⟩
  have hunclean : ServeMux.cleanPath (ServeMux.cleanPath (ascii "/.//alpha")) ≠
      ServeMux.cleanPath (ascii "/.//alpha") := by
    decide +kernel
  exact hunclean h.idempotent

end Maock.Http
