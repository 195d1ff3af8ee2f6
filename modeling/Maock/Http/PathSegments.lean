import Maock.Http.ServeMux

/-!
# The segments of a cleaned path

`path_join` works on the bytes of its output. Seen as segments, the output of its loop is a stack of
directories with a file behind them (`render`), `..` takes a directory away and any other segment
adds one. Which directories stay is a function of the segments of the input (`kept`): those that no
later `..` takes away (`climb`). Empty segments are skipped, except behind a dot segment.
`cleanPath_eq` is the cleaned path in these terms, and `isClean_cleanPath_iff` says that it is clean
exactly when no empty segment stays.
-/

set_option autoImplicit false
set_option relaxedAutoImplicit false

namespace Maock.Http

open Foundation Foundation.Bytes

/-- The segments of a path, between its slashes. -/
def pathSegments (path : Bytes) : List Bytes :=
  path.splitOn (char '/')

/-- Directories with a file behind them. -/
def render (directories : List Bytes) (file : Bytes) : Bytes :=
  char '/' :: (directories.flatMap (· ++ ascii "/") ++ file)

/-- A segment is `.` or `..`. -/
def IsDotSegment (segment : Bytes) : Prop :=
  segment = ascii "." ∨ segment = ascii ".."

instance : DecidablePred IsDotSegment :=
  fun segment ↦ inferInstanceAs (Decidable (segment = ascii "." ∨ segment = ascii ".."))

/-! ### What the segments do -/

/-- How many of the directories in front the segments take away. The flag says that empty segments
are skipped at the beginning. -/
def climb : Bool → List Bytes → ℕ
  | _, [] => 0
  | _, [last] => if last = ascii ".." then 1 else 0
  | skips, segment :: next :: rest =>
    if segment = ascii "." then climb false (next :: rest)
    else if segment = ascii ".." then climb false (next :: rest) + 1
    else if segment = [] ∧ skips = true then climb true (next :: rest)
    else climb true (next :: rest) - 1

/-- The directories that the segments add and that no later segment takes away. -/
def kept : Bool → List Bytes → List Bytes
  | _, [] | _, [_] => []
  | skips, segment :: next :: rest =>
    if IsDotSegment segment then kept false (next :: rest)
    else if segment = [] ∧ skips = true then kept true (next :: rest)
    else if 0 < climb true (next :: rest) then kept true (next :: rest)
    else segment :: kept true (next :: rest)

/-- The file at the end of the segments. -/
def file : List Bytes → Bytes
  | [] => []
  | [last] => if IsDotSegment last then [] else last
  | _ :: next :: rest => file (next :: rest)

/-- Every slash that follows directly behind a dot segment is taken away again by a later `..`. -/
def SlashesUndone : Bool → List Bytes → Prop
  | _, [] | _, [_] => True
  | skips, segment :: next :: rest =>
    if IsDotSegment segment then SlashesUndone false (next :: rest)
    else (segment = [] → skips = true ∨ 0 < climb true (next :: rest)) ∧
      SlashesUndone true (next :: rest)

instance decidableSlashesUndone : (skips : Bool) → (segments : List Bytes) →
    Decidable (SlashesUndone skips segments)
  | _, [] | _, [_] => isTrue trivial
  | skips, segment :: next :: rest =>
    have := decidableSlashesUndone false (next :: rest)
    have := decidableSlashesUndone true (next :: rest)
    inferInstanceAs (Decidable (if IsDotSegment segment then SlashesUndone false (next :: rest)
      else (segment = [] → skips = true ∨ 0 < climb true (next :: rest)) ∧
        SlashesUndone true (next :: rest)))

/-- No empty directory stays exactly when every slash behind a dot segment is taken away. -/
theorem nil_notMem_kept_iff (skips : Bool) (segments : List Bytes) :
    [] ∉ kept skips segments ↔ SlashesUndone skips segments := by
  induction segments generalizing skips with
  | nil => exact iff_of_true List.not_mem_nil trivial
  | cons segment rest ih =>
    cases rest with
    | nil => exact iff_of_true List.not_mem_nil trivial
    | cons next rest =>
      rw [kept, SlashesUndone]
      split_ifs with hdot hskip hclimb
      · exact ih false
      · rw [ih true]
        exact (and_iff_right fun _ ↦ Or.inl hskip.2).symm
      · rw [ih true]
        exact (and_iff_right fun _ ↦ Or.inr hclimb).symm
      · rw [List.mem_cons, not_or, ih true, eq_comm]
        refine and_congr_left fun _ ↦ ⟨fun hne hempty ↦ absurd hempty hne, fun hall hempty ↦ ?_⟩
        exact (hall hempty).elim (fun hskips ↦ hskip ⟨hempty, hskips⟩) hclimb

/-- What stays is no dot segment. -/
theorem not_isDotSegment_of_mem_kept {skips : Bool} {segments : List Bytes} {segment : Bytes}
    (h : segment ∈ kept skips segments) : segment ∈ segments ∧ ¬ IsDotSegment segment := by
  induction segments generalizing skips with
  | nil => exact absurd h List.not_mem_nil
  | cons first rest ih =>
    cases rest with
    | nil => exact absurd h List.not_mem_nil
    | cons next rest =>
      rw [kept] at h
      split_ifs at h with hdot hskip hclimb
      · exact (ih h).imp_left (List.mem_cons_of_mem first)
      · exact (ih h).imp_left (List.mem_cons_of_mem first)
      · exact (ih h).imp_left (List.mem_cons_of_mem first)
      · rcases List.mem_cons.mp h with rfl | h
        · exact ⟨List.mem_cons_self, hdot⟩
        · exact (ih h).imp_left (List.mem_cons_of_mem first)

/-- Whether empty segments are skipped only matters when there is one at the beginning. -/
theorem skips_irrelevant {segment : Bytes} (h : segment ≠ []) (rest : List Bytes)
    (skips skips' : Bool) :
    climb skips (segment :: rest) = climb skips' (segment :: rest) ∧
      kept skips (segment :: rest) = kept skips' (segment :: rest) := by
  cases rest with
  | nil => exact ⟨rfl, rfl⟩
  | cons next rest => simp only [climb, kept, h, false_and, if_false, and_self]

theorem pathSegments_cons_slash (rest : Bytes) :
    pathSegments (char '/' :: rest) = [] :: pathSegments rest :=
  List.splitOn_append_cons_self_of_not_mem (List.not_mem_nil (a := char '/')) rest

theorem pathSegments_ne_nil (path : Bytes) : pathSegments path ≠ [] :=
  List.splitOn_ne_nil _ _

/-- A path that does not begin with a slash begins with a segment that is not empty. -/
theorem pathSegments_cons_of_ne {c : UInt8} (hc : c ≠ char '/') (rest : Bytes) :
    ∃ segment more, pathSegments (c :: rest) = (c :: segment) :: more := by
  obtain ⟨segment, more, heq⟩ := List.exists_cons_of_ne_nil (pathSegments_ne_nil rest)
  refine ⟨segment, more, ?_⟩
  rw [pathSegments, List.splitOn_cons_eq_if_modifyHead, if_neg (by simpa using hc)]
  rw [pathSegments] at heq
  rw [heq]
  rfl

/-- Slashes at the beginning are empty segments, which are skipped. -/
theorem skipSlashes_segments (first : Bytes) :
    climb true (pathSegments first) = climb false (pathSegments (skipSlashes first)) ∧
      kept true (pathSegments first) = kept false (pathSegments (skipSlashes first)) ∧
      file (pathSegments first) = file (pathSegments (skipSlashes first)) := by
  induction first with
  | nil => exact ⟨rfl, rfl, rfl⟩
  | cons c rest ih =>
    by_cases hc : c = char '/'
    · have hskip : skipSlashes (char '/' :: rest) = skipSlashes rest :=
        List.dropWhile_cons_of_pos (by decide)
      have hne : ([] : Bytes) ≠ ascii "." ∧ ([] : Bytes) ≠ ascii ".." := by decide
      have hdot : ¬ IsDotSegment [] := by decide
      obtain ⟨next, more, heq⟩ := List.exists_cons_of_ne_nil (pathSegments_ne_nil rest)
      rw [hc, hskip, ← ih.1, ← ih.2.1, ← ih.2.2, pathSegments_cons_slash, heq]
      refine ⟨?_, ?_, rfl⟩
      · rw [climb, if_neg hne.1, if_neg hne.2, if_pos ⟨rfl, rfl⟩]
      · rw [kept, if_neg hdot, if_pos ⟨rfl, rfl⟩]
    · have hskip : skipSlashes (c :: rest) = c :: rest :=
        List.dropWhile_cons_of_neg (by simpa using hc)
      obtain ⟨segment, more, heq⟩ := pathSegments_cons_of_ne hc rest
      rw [hskip, heq]
      obtain ⟨hclimb, hkept⟩ := skips_irrelevant (List.cons_ne_nil c segment) more true false
      exact ⟨hclimb, hkept, rfl⟩

/-! ### The loop -/

/-- The output of the loop ends with a slash. -/
theorem exists_render_eq_concat (directories : List Bytes) :
    ∃ out, render directories [] = out ++ [char '/'] := by
  rcases List.eq_nil_or_concat directories with rfl | ⟨front, last, rfl⟩
  · exact ⟨[], rfl⟩
  · refine ⟨char '/' :: (front.flatMap (· ++ ascii "/") ++ last), ?_⟩
    simp [render, List.flatMap_append, ascii, char]

theorem eatFile_concat_slash (out : Bytes) : eatFile (out ++ [char '/']) = out ++ [char '/'] := by
  have hkept : (out ++ [char '/']).rdropWhile (· != char '/') = out ++ [char '/'] :=
    List.rdropWhile_concat_neg _ _ _ (by decide)
  unfold eatFile
  rw [hkept]
  simp

/-- A name at the end of the output is taken away, up to the slash in front of it. -/
theorem eatFile_concat_slash_append (out : Bytes) {name : Bytes} (h : char '/' ∉ name) :
    eatFile (out ++ [char '/'] ++ name) = out ++ [char '/'] := by
  have hkept : (out ++ [char '/'] ++ name).rdropWhile (· != char '/') =
      (out ++ [char '/']).rdropWhile (· != char '/') := by
    unfold List.rdropWhile
    rw [List.reverse_append, List.dropWhile_append_of_pos fun c hc ↦ ?_]
    exact bne_iff_ne.mpr fun heq ↦ h (heq ▸ List.mem_reverse.mp hc)
  have hagain := eatFile_concat_slash out
  unfold eatFile at hagain ⊢
  rw [hkept]
  exact hagain

/-- `eat_dir` takes the last directory away. -/
theorem eatDir_render {directories : List Bytes} (h : ∀ d ∈ directories, char '/' ∉ d) :
    eatDir (render directories []) = render (directories.rdrop 1) [] := by
  rcases List.eq_nil_or_concat directories with rfl | ⟨front, last, rfl⟩
  · rfl
  · rw [List.concat_eq_append] at h ⊢
    obtain ⟨out, hout⟩ := exists_render_eq_concat front
    have hlast : char '/' ∉ last := h last (List.mem_append_right _ List.mem_cons_self)
    have hrender : render (front ++ [last]) [] = (out ++ [char '/'] ++ last) ++ [char '/'] := by
      rw [← hout]
      simp [render, List.flatMap_append, ascii, char]
    unfold eatDir
    rw [hrender, eatFile_concat_slash, List.dropLast_concat,
      eatFile_concat_slash_append out hlast, ← hout, List.rdrop_concat_succ, List.rdrop_zero]

/-- A directory that is written behind the others. -/
theorem render_concat (directories : List Bytes) (segment : Bytes) :
    render directories [] ++ segment ++ ascii "/" = render (directories ++ [segment]) [] := by
  simp [render, List.flatMap_append]

/-- The output behind some segments: the directories that stay, and the file. -/
def rendered (skips : Bool) (segments directories : List Bytes) : Bytes :=
  render (directories.rdrop (climb skips segments) ++ kept skips segments) (file segments)

/-- What stands in front of the first slash. -/
theorem fileOf_append_slash {segment : Bytes} (h : char '/' ∉ segment) (rest : Bytes) :
    fileOf (segment ++ char '/' :: rest) = segment := by
  have hall : ∀ c ∈ segment, (c != char '/') = true :=
    fun c hc ↦ bne_iff_ne.mpr fun heq ↦ h (heq ▸ hc)
  unfold fileOf
  rw [List.takeWhile_append_of_pos hall, List.takeWhile_cons_of_neg (by decide), List.append_nil]

theorem fileOf_of_notMem {first : Bytes} (h : char '/' ∉ first) : fileOf first = first :=
  List.takeWhile_eq_self_iff.mpr fun _ hc ↦ bne_iff_ne.mpr fun heq ↦ h (heq ▸ hc)

/-- The comparisons of the loop are about the first segment. -/
theorem isPrefixOf_append_slash {name segment : Bytes} (hname : char '/' ∉ name)
    (hsegment : char '/' ∉ segment) (rest : Bytes) :
    (name ++ ascii "/").isPrefixOf (segment ++ char '/' :: rest) = true ↔ segment = name := by
  rw [List.isPrefixOf_iff_prefix]
  constructor
  · rintro ⟨tail, htail⟩
    have hfile := congrArg fileOf htail
    rw [fileOf_append_slash hsegment, List.append_assoc] at hfile
    exact hfile.symm.trans (fileOf_append_slash hname tail)
  · rintro rfl
    exact ⟨rest, by simp [ascii, char]⟩

theorem rdrop_rdrop_one {α : Type*} (l : List α) (count : ℕ) :
    (l.rdrop 1).rdrop count = l.rdrop (count + 1) := by
  simp only [List.rdrop_eq_reverse_drop_reverse, List.reverse_reverse, List.drop_drop]
  rw [Nat.add_comm]

/-- The end of the path. -/
theorem joinLoop_last {last : Bytes} (hlast : char '/' ∉ last) {directories : List Bytes}
    (h : ∀ d ∈ directories, char '/' ∉ d) :
    joinLoop last (render directories []) = rendered false [last] directories := by
  have hprefix : ∀ name : Bytes, ¬ (name ++ ascii "/").isPrefixOf last = true := by
    intro name hname
    have hfront := List.isPrefixOf_iff_prefix.mp hname
    exact hlast (hfront.subset (List.mem_append_right _ List.mem_cons_self))
  obtain ⟨out, hout⟩ := exists_render_eq_concat directories
  have hslash : (render directories []).getLast? = some (char '/') := by
    rw [hout, List.getLast?_concat]
  unfold rendered
  rw [joinLoop, kept, climb, file, List.append_nil]
  by_cases hempty : last.isEmpty = true
  · have hne : ([] : Bytes) ≠ ascii ".." := by decide
    rw [if_pos hempty, List.isEmpty_iff.mp hempty, if_neg hne, List.rdrop_zero, ite_self]
  rw [if_neg hempty]
  by_cases hdot : last = ascii "."
  · have hne : ascii "." ≠ ascii ".." := by decide
    have hfile : IsDotSegment (ascii ".") := Or.inl rfl
    rw [if_pos hdot, hdot, if_neg hne, List.rdrop_zero, if_pos hfile]
  have hdotSlash : ¬ (ascii "./").isPrefixOf last = true := hprefix (ascii ".")
  rw [if_neg hdot, if_neg hdotSlash]
  by_cases hdots : last = ascii ".."
  · have hfile : IsDotSegment (ascii "..") := Or.inr rfl
    rw [if_pos hdots, eatDir_render h, hdots, if_pos rfl, if_pos hfile]
  have hdotsSlash : ¬ (ascii "../").isPrefixOf last = true := hprefix (ascii "..")
  rw [if_neg hdots, if_neg hdotsSlash]
  have hfile : ¬ IsDotSegment last := not_or.mpr ⟨hdot, hdots⟩
  dsimp only
  rw [if_pos hslash, fileOf_of_notMem hlast, if_pos rfl, if_neg hfile, if_neg hdots,
    List.rdrop_zero]
  simp [render]

/-- A directory is written, and a later `..` may take it away. -/
theorem rendered_cons {segment : Bytes} (hdot : ¬ IsDotSegment segment) (next : Bytes)
    (rest directories : List Bytes) :
    rendered false (segment :: next :: rest) directories =
      rendered true (next :: rest) (directories ++ [segment]) := by
  obtain ⟨hone, htwo⟩ := not_or.mp hdot
  unfold rendered
  rw [kept, climb, if_neg hone, if_neg htwo, if_neg hdot]
  simp only [Bool.false_eq_true, and_false, if_false]
  cases hclimb : climb true (next :: rest) with
  | zero => simp [List.rdrop_zero, file]
  | succ count =>
    rw [List.rdrop_concat_succ, if_pos (Nat.succ_pos _)]
    rfl

theorem append_slash_ne {name : Bytes} (hname : char '/' ∉ name) (segment rest : Bytes) :
    segment ++ char '/' :: rest ≠ name :=
  fun heq ↦ hname (heq ▸ List.mem_append_right segment List.mem_cons_self)

/-- The turn of the loop for a segment behind which the path goes on. -/
theorem joinLoop_segment {segment : Bytes} (hsegment : char '/' ∉ segment) (rest out : Bytes) :
    joinLoop (segment ++ char '/' :: rest) out =
      if segment = ascii "." then joinLoop rest out
      else if segment = ascii ".." then joinLoop rest (eatDir out)
      else joinLoop (skipSlashes rest)
        ((if out.getLast? = some (char '/') then out else eatFile out) ++ segment ++
          ascii "/") := by
  have hnonempty : ¬ (segment ++ char '/' :: rest).isEmpty = true := by simp
  have hnotDot := @append_slash_ne (ascii ".") (by decide) segment rest
  have hnotDots := @append_slash_ne (ascii "..") (by decide) segment rest
  have hdotSlash : (ascii "./").isPrefixOf (segment ++ char '/' :: rest) = true ↔
      segment = ascii "." := @isPrefixOf_append_slash (ascii ".") segment (by decide) hsegment rest
  have hdotsSlash : (ascii "../").isPrefixOf (segment ++ char '/' :: rest) = true ↔
      segment = ascii ".." :=
    @isPrefixOf_append_slash (ascii "..") segment (by decide) hsegment rest
  have hlength : ¬ segment.length = (segment ++ char '/' :: rest).length := by
    rw [List.length_append, List.length_cons]
    omega
  have hdrop : (segment ++ char '/' :: rest).drop (segment.length + 1) = rest := by
    rw [← List.drop_drop, List.drop_left, List.drop_one, List.tail_cons]
  rw [joinLoop, if_neg hnonempty, if_neg hnotDot, if_neg hnotDots, fileOf_append_slash hsegment,
    hdrop]
  simp only [hdotSlash, hdotsSlash, hlength, if_false]
  split_ifs with hdot hdots
  · rw [hdot] at hdrop ⊢
    exact congrArg (joinLoop · out) hdrop
  · rw [hdots] at hdrop ⊢
    exact congrArg (joinLoop · (eatDir out)) hdrop
  · rfl
  · rfl

/-- The loop writes the directories that stay, and the file. -/
theorem joinLoop_render (first : Bytes) {directories : List Bytes}
    (h : ∀ d ∈ directories, char '/' ∉ d) :
    joinLoop first (render directories []) = rendered false (pathSegments first) directories := by
  induction hlength : first.length using Nat.strong_induction_on generalizing first directories with
  | _ length ih =>
    by_cases hslash : char '/' ∈ first
    · obtain ⟨segment, rest, rfl, hsegment⟩ := List.eq_append_cons_of_mem hslash
      obtain ⟨next, more, hmore⟩ := List.exists_cons_of_ne_nil (pathSegments_ne_nil rest)
      have hsegments : pathSegments (segment ++ char '/' :: rest) = segment :: next :: more := by
        rw [← hmore]
        exact List.splitOn_append_cons_self_of_not_mem hsegment rest
      have hshorter : rest.length < length := by
        rw [← hlength, List.length_append, List.length_cons]
        omega
      rw [hsegments, joinLoop_segment hsegment]
      split_ifs with hdot hdots hslashed
      · rw [ih rest.length hshorter rest h rfl, hmore, hdot]
        unfold rendered
        rw [kept, climb, if_pos rfl, if_pos (show IsDotSegment (ascii ".") from Or.inl rfl)]
        rfl
      · have hfewer : ∀ d ∈ directories.rdrop 1, char '/' ∉ d :=
          fun d hd ↦ h d (List.mem_of_mem_take hd)
        have hne : ascii ".." ≠ ascii "." := by decide
        rw [eatDir_render h, ih rest.length hshorter rest hfewer rfl, hmore, hdots]
        unfold rendered
        rw [kept, climb, if_neg hne, if_pos rfl,
          if_pos (show IsDotSegment (ascii "..") from Or.inr rfl), rdrop_rdrop_one]
        rfl
      · have hmore' : ∀ d ∈ directories ++ [segment], char '/' ∉ d := fun d hd ↦
          (List.mem_append.mp hd).elim (h d) fun hd ↦ List.mem_singleton.mp hd ▸ hsegment
        have hskipped : (skipSlashes rest).length < length :=
          Nat.lt_of_le_of_lt (length_skipSlashes_le rest) hshorter
        obtain ⟨hclimb, hkept, hfile⟩ := skipSlashes_segments rest
        rw [render_concat, ih _ hskipped _ hmore' rfl,
          rendered_cons (not_or.mpr ⟨hdot, hdots⟩), ← hmore]
        unfold rendered
        rw [hclimb, hkept, hfile]
      · obtain ⟨out, hout⟩ := exists_render_eq_concat directories
        rw [hout, List.getLast?_concat] at hslashed
        exact absurd rfl hslashed
    · rw [joinLoop_last hslash h, pathSegments, List.splitOn_eq_singleton hslash]

/-! ### The cleaned path -/

theorem slash_notMem_of_mem_pathSegments {path segment : Bytes} (h : segment ∈ pathSegments path) :
    char '/' ∉ segment := by
  induction path generalizing segment with
  | nil =>
    rw [List.mem_singleton.mp h]
    exact List.not_mem_nil
  | cons c rest ih =>
    by_cases hc : c = char '/'
    · subst hc
      rw [pathSegments_cons_slash] at h
      rcases List.mem_cons.mp h with rfl | h
      · exact List.not_mem_nil
      · exact ih h
    · obtain ⟨first, more, heq⟩ := List.exists_cons_of_ne_nil (pathSegments_ne_nil rest)
      rw [pathSegments, List.splitOn_cons_eq_if_modifyHead, if_neg (by simpa using hc)] at h
      unfold pathSegments at heq ih
      rw [heq] at h ih
      rcases List.mem_cons.mp h with rfl | h
      · exact List.not_mem_cons_of_ne_of_not_mem (Ne.symm hc) (ih List.mem_cons_self)
      · exact ih (List.mem_cons_of_mem first h)

/-- The file is no dot segment, and it has no slash. -/
theorem file_plain {segments : List Bytes} (h : ∀ segment ∈ segments, char '/' ∉ segment) :
    char '/' ∉ file segments ∧ ¬ IsDotSegment (file segments) := by
  have hempty : char '/' ∉ ([] : Bytes) ∧ ¬ IsDotSegment [] := by decide
  induction segments with
  | nil => exact hempty
  | cons segment rest ih =>
    cases rest with
    | nil =>
      rw [file]
      split_ifs with hdot
      · exact hempty
      · exact ⟨h segment List.mem_cons_self, hdot⟩
    | cons next rest => exact ih fun other hother ↦ h other (List.mem_cons_of_mem segment hother)

/-- `clean_path` in terms of segments. -/
theorem cleanPath_eq (path : Bytes) :
    ServeMux.cleanPath path =
      render (kept true (pathSegments path)) (file (pathSegments path)) := by
  have hloop : joinLoop (skipSlashes path) (ascii "/") =
      render (kept true (pathSegments path)) (file (pathSegments path)) := by
    obtain ⟨-, hkept, hfile⟩ := skipSlashes_segments path
    have hrun := @joinLoop_render (skipSlashes path) [] fun _ h ↦ absurd h List.not_mem_nil
    unfold rendered at hrun
    rw [List.rdrop_nil, List.nil_append, ← hkept, ← hfile] at hrun
    exact hrun
  cases path with
  | nil => rfl
  | cons c rest =>
    unfold ServeMux.cleanPath pathJoin appendQuery
    by_cases hc : c = char '/'
    · subst hc
      exact hloop
    · have hskip : skipSlashes (c :: rest) = c :: rest :=
        List.dropWhile_cons_of_neg (by simpa using hc)
      rw [hskip] at hloop
      have hhead : (c :: rest).head? ≠ some (char '/') := by simpa using hc
      simp only [List.isEmpty_cons, Bool.false_eq_true, if_false, if_neg hhead, List.isEmpty_nil,
        if_true]
      exact hloop

/-- The segments of directories with a file behind them. -/
theorem pathSegments_render {directories : List Bytes} {file : Bytes}
    (hdirectories : ∀ d ∈ directories, char '/' ∉ d) (hfile : char '/' ∉ file) :
    pathSegments (render directories file) = [] :: (directories ++ [file]) := by
  rw [render, pathSegments_cons_slash]
  congr 1
  induction directories with
  | nil => exact List.splitOn_eq_singleton hfile
  | cons d rest ih =>
    have hrest := ih fun other hother ↦ hdirectories other (List.mem_cons_of_mem d hother)
    have hsplit : (d :: rest).flatMap (· ++ ascii "/") ++ file =
        d ++ char '/' :: (rest.flatMap (· ++ ascii "/") ++ file) := by
      simp [ascii, char]
    rw [hsplit, pathSegments,
      List.splitOn_append_cons_self_of_not_mem (hdirectories d List.mem_cons_self)]
    exact congrArg (d :: ·) hrest

/-- Segments that are no dot segments take nothing away, and only empty ones are skipped. -/
theorem kept_plain {directories : List Bytes} {last : Bytes}
    (hdirectories : ∀ d ∈ directories, ¬ IsDotSegment d) (hlast : ¬ IsDotSegment last) :
    climb true (directories ++ [last]) = 0 ∧
      kept true (directories ++ [last]) = directories.filter (fun d ↦ decide (d ≠ [])) ∧
      file (directories ++ [last]) = last := by
  induction directories with
  | nil => exact ⟨if_neg fun h ↦ hlast (Or.inr h), rfl, if_neg hlast⟩
  | cons d rest ih =>
    obtain ⟨hclimb, hkept, hfile⟩ :=
      ih fun other hother ↦ hdirectories other (List.mem_cons_of_mem d hother)
    have hdot := hdirectories d List.mem_cons_self
    obtain ⟨hone, htwo⟩ := not_or.mp hdot
    obtain ⟨next, more, hmore⟩ := List.exists_cons_of_ne_nil
      (List.append_ne_nil_of_right_ne_nil rest (List.cons_ne_nil last []))
    rw [hmore] at hclimb hkept hfile
    rw [List.cons_append, hmore, climb, kept, file, if_neg hone, if_neg htwo, if_neg hdot, hclimb,
      hkept, hfile]
    by_cases hempty : d = []
    · rw [if_pos ⟨hempty, rfl⟩, if_pos ⟨hempty, rfl⟩, List.filter_cons_of_neg (by simp [hempty])]
      exact ⟨rfl, rfl, rfl⟩
    · rw [if_neg fun h ↦ hempty h.1, if_neg fun h ↦ hempty h.1, if_neg (Nat.lt_irrefl 0),
        List.filter_cons_of_pos (by simp [hempty])]
      exact ⟨rfl, rfl, rfl⟩

/-- Cleaning a path without dot segments collapses its slashes. -/
theorem cleanPath_render {directories : List Bytes} {last : Bytes}
    (hdirectories : ∀ d ∈ directories, char '/' ∉ d ∧ ¬ IsDotSegment d)
    (hlast : char '/' ∉ last ∧ ¬ IsDotSegment last) :
    ServeMux.cleanPath (render directories last) =
      render (directories.filter fun d ↦ decide (d ≠ [])) last := by
  have hdots : ∀ d ∈ [] :: directories, ¬ IsDotSegment d := by
    intro d hd
    rcases List.mem_cons.mp hd with rfl | hd
    · decide
    · exact (hdirectories d hd).2
  obtain ⟨-, hkept, hfile⟩ := kept_plain hdots hlast.2
  rw [cleanPath_eq, pathSegments_render (fun d hd ↦ (hdirectories d hd).1) hlast.1,
    ← List.cons_append, hkept, hfile]
  rfl

/-- Paths with the same file have the same directories when they are the same. -/
theorem render_injective {directories directories' : List Bytes} {last : Bytes}
    (h : ∀ d ∈ directories, char '/' ∉ d) (h' : ∀ d ∈ directories', char '/' ∉ d)
    (hlast : char '/' ∉ last) (heq : render directories last = render directories' last) :
    directories = directories' := by
  have hsegments := congrArg pathSegments heq
  rw [pathSegments_render h hlast, pathSegments_render h' hlast] at hsegments
  exact List.append_cancel_right (List.cons.inj hsegments).2

/-- **The cleaned path is clean** exactly when every slash directly behind a dot segment is taken
away again. -/
theorem isClean_cleanPath_iff (path : Bytes) :
    ServeMux.IsClean (ServeMux.cleanPath path) ↔ SlashesUndone true (pathSegments path) := by
  have hslash : ∀ segment ∈ pathSegments path, char '/' ∉ segment :=
    fun segment h ↦ slash_notMem_of_mem_pathSegments h
  have hdirectories : ∀ d ∈ kept true (pathSegments path), char '/' ∉ d ∧ ¬ IsDotSegment d :=
    fun d hd ↦ (not_isDotSegment_of_mem_kept hd).imp_left (hslash d)
  have hfile := file_plain hslash
  rw [← nil_notMem_kept_iff]
  unfold ServeMux.IsClean
  rw [cleanPath_eq path, cleanPath_render hdirectories hfile]
  constructor
  · intro heq hempty
    have hsame := render_injective (fun d hd ↦ (hdirectories d (List.mem_of_mem_filter hd)).1)
      (fun d hd ↦ (hdirectories d hd).1) hfile.1 heq
    exact absurd rfl (of_decide_eq_true (List.filter_eq_self.mp hsame [] hempty))
  · intro hnone
    have hall : ∀ d ∈ kept true (pathSegments path), decide (d ≠ []) = true :=
      fun d hd ↦ decide_eq_true fun hnil ↦ hnone (hnil ▸ hd)
    rw [List.filter_eq_self.mpr hall]

end Maock.Http
