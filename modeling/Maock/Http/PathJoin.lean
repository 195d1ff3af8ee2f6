import Mathlib.Data.List.DropRight
import Maock.Foundation.Bytes

/-!
# Joining and cleaning paths

`path_join`, which the pattern table uses to clean a path: it collapses slashes and resolves the
segments `.` and `..` from left to right, on the bytes written so far. The bytes before a pointer
into the output buffer are a list here, and `eat_file` and `eat_dir` shorten it.
-/

set_option autoImplicit false
set_option relaxedAutoImplicit false

namespace Maock.Http

open Foundation Foundation.Bytes

/-- `eat_file(first, last)`: the output back to its last `/`; a single `/` when there is none. -/
def eatFile (out : Bytes) : Bytes :=
  let kept := out.rdropWhile (· != char '/')
  if kept.isEmpty then ascii "/" else kept

/-- `eat_dir(first, last)`. -/
def eatDir (out : Bytes) : Bytes :=
  eatFile (eatFile out).dropLast

/-- The input behind the slashes it begins with. -/
def skipSlashes (first : Bytes) : Bytes :=
  first.dropWhile (· == char '/')

theorem length_skipSlashes_le (first : Bytes) : (skipSlashes first).length ≤ first.length :=
  (List.dropWhile_sublist _).length_le

/-- The bytes of the input up to its first `/`. -/
def fileOf (first : Bytes) : Bytes :=
  first.takeWhile (· != char '/')

/-- The loop of `path_join`: `first` is the input not yet read and `out` the output. -/
def joinLoop (first out : Bytes) : Bytes :=
  if first.isEmpty then out
  else if first = ascii "." then out
  else if (ascii "./").isPrefixOf first then joinLoop (first.drop 2) out
  else if first = ascii ".." then eatDir out
  else if (ascii "../").isPrefixOf first then joinLoop (first.drop 3) (eatDir out)
  else
    let out := if out.getLast? = some (char '/') then out else eatFile out
    if (fileOf first).length = first.length then out ++ first
    else
      joinLoop (skipSlashes (first.drop ((fileOf first).length + 1)))
        (out ++ fileOf first ++ ascii "/")
termination_by first.length
decreasing_by
  all_goals
    have hnonempty : 0 < first.length := by
      rw [List.length_pos_iff]
      rintro rfl
      simp_all
    have hskip := length_skipSlashes_le (first.drop ((fileOf first).length + 1))
    simp only [List.length_drop] at *
    omega

/-- A query behind a path: nothing when it is empty. -/
def appendQuery (path query : Bytes) : Bytes :=
  if query.isEmpty then path else path ++ ascii "?" ++ query

/-- `path_join(base_path, base_query, rel_path, rel_query)`. -/
def pathJoin (basePath baseQuery relPath relQuery : Bytes) : Bytes :=
  let base := if basePath.isEmpty then ascii "/" else basePath
  if relPath.isEmpty then appendQuery base (if relQuery.isEmpty then baseQuery else relQuery)
  else if relPath.head? = some (char '/') then
    appendQuery (joinLoop (skipSlashes relPath) (ascii "/")) relQuery
  else appendQuery (joinLoop relPath base) relQuery

example : pathJoin [] [] (ascii "/alpha/./bravo//charlie/../delta") [] =
    ascii "/alpha/bravo/delta" := by decide +kernel

example : pathJoin [] [] (ascii "/.//alpha") [] =
    ascii "//alpha" := by decide +kernel

end Maock.Http
