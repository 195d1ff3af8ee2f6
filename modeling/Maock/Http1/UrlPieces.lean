import Maock.Http.RequestTarget

/-!
# URLs in pieces

`http1_on_url_cb` parses each piece of a URL on its own. A piece sets the path, and the schema when
it begins with a letter, so the last piece decides the path. `fillFromPieces_eq_of_cutsAlike` and
`cutsAlike_of_fill` say for which URLs the result is the same wherever the URL is cut.
-/

set_option autoImplicit false
set_option relaxedAutoImplicit false

namespace Maock.Http1

open Foundation Foundation.Bytes Http

/-- The pieces that a span of bytes is delivered in: none of them is empty. -/
def Fragments (span : Bytes) (pieces : List Bytes) : Prop :=
  pieces.flatten = span ∧ [] ∉ pieces

/-- A span in one piece. -/
def wholePiece (span : Bytes) : List Bytes :=
  if span.isEmpty then [] else [span]

/-- A span cut once. -/
def cutPieces (i : ℕ) (span : Bytes) : List Bytes :=
  [span.take i, span.drop i]

theorem fragments_wholePiece (span : Bytes) : Fragments span (wholePiece span) := by
  cases span with
  | nil => exact ⟨rfl, List.not_mem_nil⟩
  | cons c rest => exact ⟨List.append_nil _, by simp [wholePiece]⟩

theorem fragments_cutPieces {i : ℕ} {span : Bytes} (hpos : 0 < i) (hlt : i < span.length) :
    Fragments span (cutPieces i span) := by
  refine ⟨?_, ?_⟩
  · simp [cutPieces]
  · intro hmem
    rcases List.mem_cons.mp hmem with hempty | hmem
    · have := congrArg List.length hempty
      rw [List.length_take] at this
      simp only [List.length_nil] at this
      omega
    · have := congrArg List.length (List.mem_singleton.mp hmem)
      rw [List.length_drop] at this
      simp only [List.length_nil] at this
      omega

/-- A span of at most one byte comes in one piece. -/
theorem eq_wholePiece_of_short {span : Bytes} {pieces : List Bytes} (hshort : span.length ≤ 1)
    (hpieces : Fragments span pieces) : pieces = wholePiece span := by
  obtain ⟨rfl, hne⟩ := hpieces
  cases pieces with
  | nil => rfl
  | cons first rest =>
    have hfirst : 0 < first.length := List.length_pos_iff.mpr fun h ↦ hne (h ▸ List.mem_cons_self)
    rw [List.flatten_cons, List.length_append] at hshort
    have hrest : rest = [] := by
      cases rest with
      | nil => rfl
      | cons second rest =>
        have hsecond : 0 < second.length :=
          List.length_pos_iff.mpr fun h ↦ hne (h ▸ List.mem_cons_of_mem _ List.mem_cons_self)
        rw [List.flatten_cons, List.length_append] at hshort
        omega
    subst hrest
    have hempty : first ≠ [] := List.ne_nil_of_length_pos hfirst
    simp [wholePiece, hempty]

/-- A span that is not empty has a first piece and a last one, which is a suffix of it. -/
theorem exists_last_of_fragments {span : Bytes} {pieces : List Bytes} (hne : span ≠ [])
    (hpieces : Fragments span pieces) :
    ∃ before last, pieces = before ++ [last] ∧ last ≠ [] ∧ last <:+ span := by
  obtain ⟨rfl, hempty⟩ := hpieces
  have hpieces : pieces ≠ [] := by
    rintro rfl
    exact hne rfl
  refine ⟨pieces.dropLast, pieces.getLast hpieces, (List.dropLast_append_getLast hpieces).symm,
    fun h ↦ hempty (h ▸ List.getLast_mem hpieces), ?_⟩
  conv_rhs => rw [← List.dropLast_append_getLast hpieces]
  rw [List.flatten_append]
  exact ⟨pieces.dropLast.flatten, by simp⟩

/-! ### One piece -/

/-- The path that one piece of a URL sets. -/
def pathOfPiece (data : Bytes) : Bytes :=
  urlPathAndQuery data (httpParserParseUrl data).2

/-- The path of a piece that begins with `/` or `*`: a run of bytes from its start on, and perhaps a
query. -/
theorem pathOfPiece_of_slash {c : UInt8} (hc : c = char '/' ∨ c = char '*') (rest : Bytes) :
    ∃ query : Bytes, (query = [] ∨ query.head? = some (char '?')) ∧
      pathOfPiece (c :: rest) =
        (c :: rest).take (uint16 (1 + (rest.takeWhile isUrlChar).length)) ++ query := by
  refine ⟨if ((httpParserParseUrl (c :: rest)).2.field .query).isSome then
    ascii "?" ++ getUriField (c :: rest) (httpParserParseUrl (c :: rest)).2 .query else [], ?_, ?_⟩
  · split_ifs
    · exact Or.inr rfl
    · exact Or.inl rfl
  · rw [pathOfPiece, urlPathAndQuery, getUriField, (fields_of_slash hc rest).2.2]
    rfl

/-- Where the path of a piece that begins with `/` is `/`, the run of bytes of its path is one byte
long, up to wrapping. -/
theorem uint16_run_of_path {rest : Bytes} (hpath : pathOfPiece (char '/' :: rest) = ascii "/") :
    uint16 (1 + (rest.takeWhile isUrlChar).length) = 1 := by
  obtain ⟨query, hquery, heq⟩ := pathOfPiece_of_slash (Or.inl rfl) rest
  rw [hpath] at heq
  have hlength := congrArg List.length heq
  have hle : uint16 (1 + (rest.takeWhile isUrlChar).length) ≤ 1 + rest.length :=
    (uint16_le _).trans (Nat.add_le_add_left (List.takeWhile_sublist _).length_le 1)
  rw [List.length_append, List.length_take, List.length_cons] at hlength
  change 1 = _ at hlength
  have hzero : uint16 (1 + (rest.takeWhile isUrlChar).length) ≠ 0 := by
    intro hzero
    rw [hzero, List.take_zero, List.nil_append] at heq
    rcases hquery with rfl | hquery
    · exact absurd heq (by decide)
    · rw [← heq] at hquery
      exact absurd hquery (by decide)
  omega

/-- A URL with paths `/` from each of its slashes on has no two slashes in a row. -/
theorem no_slashes_of_paths {url : Bytes}
    (hpaths : ∀ rest, char '/' :: rest <:+ url → pathOfPiece (char '/' :: rest) = ascii "/") :
    ¬ [char '/', char '/'] <:+: url := by
  rintro ⟨before, rest, rfl⟩
  have hsecond : char '/' :: rest <:+ before ++ [char '/', char '/'] ++ rest :=
    ⟨before ++ [char '/'], by simp⟩
  have hfirst : char '/' :: char '/' :: rest <:+ before ++ [char '/', char '/'] ++ rest :=
    ⟨before, by simp⟩
  have hrun := uint16_run_of_path (hpaths _ hsecond)
  have hrun' := uint16_run_of_path (hpaths _ hfirst)
  rw [List.takeWhile_cons_of_pos (by decide), List.length_cons] at hrun'
  unfold uint16 at hrun hrun'
  omega

/-- What a piece does to the URI when it begins with a letter and has no two slashes in a row. -/
theorem fillFromUrl_of_letter {c : UInt8} (hc : isAlpha c = true) {rest : Bytes}
    (hslashes : ¬ [char '/', char '/'] <:+: rest) (uri : UriRef) :
    uri.fillFromUrl (c :: rest) = { uri with
      scheme := (c :: rest).take (uint16 (1 + (rest.takeWhile isAlpha).length))
      path := ascii "/"
      rawPath := ascii "/" } := by
  obtain ⟨hschema, hother⟩ := fields_of_letter hc hslashes
  simp [UriRef.fillFromUrl, urlPathAndQuery, getUriField, hschema, hother]

/-- What a piece does to the URI when it begins with no letter. -/
theorem fillFromUrl_of_not_letter {c : UInt8} (hc : ¬ isAlpha c = true) (rest : Bytes)
    (uri : UriRef) :
    uri.fillFromUrl (c :: rest) = { uri with
      path := pathOfPiece (c :: rest)
      rawPath := pathOfPiece (c :: rest) } := by
  by_cases hpath : c = char '/' ∨ c = char '*'
  · obtain ⟨hschema, hhost, -⟩ := fields_of_slash hpath rest
    simp [UriRef.fillFromUrl, pathOfPiece, hschema, hhost]
  · have hnone := fields_of_other hpath hc rest
    simp [UriRef.fillFromUrl, pathOfPiece, hnone]

/-- A piece that begins with any other byte sets the path to `/`. -/
theorem pathOfPiece_of_other {c : UInt8} (hc : ¬ (c = char '/' ∨ c = char '*'))
    {rest : Bytes} (hslashes : ¬ [char '/', char '/'] <:+: rest) :
    pathOfPiece (c :: rest) = ascii "/" := by
  by_cases hletter : isAlpha c = true
  · obtain ⟨-, hother⟩ := fields_of_letter hletter hslashes
    simp [pathOfPiece, urlPathAndQuery, hother]
  · have hnone := fields_of_other hc hletter rest
    simp [pathOfPiece, urlPathAndQuery, hnone]

/-! ### URLs that may be cut anywhere -/

/-- A URL that gives the same URI wherever it is cut. It has at most one byte; or it has no `*`,
each suffix that begins with `/` gives the path `/`, and its letters all are the byte that it begins
with, with no two of them in a row. -/
def CutsAlike (url : Bytes) : Prop :=
  url.length ≤ 1 ∨
    (char '*' ∉ url ∧
      (∀ rest, char '/' :: rest <:+ url → pathOfPiece (char '/' :: rest) = ascii "/") ∧
      (∀ c ∈ url, isAlpha c = true → url.head? = some c) ∧
      ∀ c d, [c, d] <:+: url → isAlpha c = true → ¬ isAlpha d = true)

/-- The schema of a URL that may be cut anywhere: its first byte when that is a letter. -/
def schemaOfFirst (url : Bytes) : Bytes :=
  (url.take 1).filter isAlpha

section Pieces

variable {url : Bytes}
  (hpaths : ∀ rest, char '/' :: rest <:+ url → pathOfPiece (char '/' :: rest) = ascii "/")
  (hfirst : ∀ c ∈ url, isAlpha c = true → url.head? = some c)
  (hrow : ∀ c d, [c, d] <:+: url → isAlpha c = true → ¬ isAlpha d = true)

include hpaths hfirst hrow

/-- What a piece of such a URL does to the URI. -/
theorem fillFromUrl_piece {piece : Bytes} (hne : piece ≠ []) (hpiece : piece <:+: url)
    (uri : UriRef) : uri.fillFromUrl piece = { uri with
      scheme := if piece.head?.any isAlpha then schemaOfFirst url else uri.scheme
      path := pathOfPiece piece
      rawPath := pathOfPiece piece } := by
  cases piece with
  | nil => exact absurd rfl hne
  | cons c rest =>
    have hslashes : ¬ [char '/', char '/'] <:+: rest := fun h ↦
      no_slashes_of_paths hpaths (h.trans ((List.suffix_cons c rest).isInfix.trans hpiece))
    by_cases hc : isAlpha c = true
    · have hnotPath : ¬ (c = char '/' ∨ c = char '*') := by
        rintro (rfl | rfl) <;> exact absurd hc (by decide)
      have hrun : rest.takeWhile isAlpha = [] := by
        cases rest with
        | nil => rfl
        | cons d rest =>
          have hpair : [c, d] <:+: url := List.IsInfix.trans ⟨[], rest, rfl⟩ hpiece
          exact List.takeWhile_cons_of_neg (hrow c d hpair hc)
      have hschema : schemaOfFirst url = [c] := by
        have hhead := hfirst c (hpiece.subset List.mem_cons_self) hc
        cases url with
        | nil => exact absurd hhead (by simp)
        | cons d tail =>
          have hd : d = c := by simpa using hhead
          simp [schemaOfFirst, hd, hc]
      rw [fillFromUrl_of_letter hc hslashes, pathOfPiece_of_other hnotPath hslashes, hrun,
        hschema]
      simp [hc, uint16]
    · rw [fillFromUrl_of_not_letter hc]
      simp [hc]

/-- The pieces of such a URL, behind its first one, leave schema and host as they are. -/
theorem foldl_fillFromUrl_pieces {pieces : List Bytes}
    (hpieces : ∀ piece ∈ pieces, piece ≠ [] ∧ piece <:+: url) {uri : UriRef}
    (hschema : uri.scheme = schemaOfFirst url) :
    (pieces.foldl (fun uri data ↦ uri.fillFromUrl data) uri).scheme = schemaOfFirst url ∧
      (pieces.foldl (fun uri data ↦ uri.fillFromUrl data) uri).host = uri.host ∧
      (pieces.foldl (fun uri data ↦ uri.fillFromUrl data) uri).rawQuery = uri.rawQuery := by
  induction pieces generalizing uri with
  | nil => exact ⟨hschema, rfl, rfl⟩
  | cons piece rest ih =>
    obtain ⟨hne, hpiece⟩ := hpieces piece List.mem_cons_self
    have hfill := fillFromUrl_piece hpaths hfirst hrow hne hpiece uri
    have hnext : (uri.fillFromUrl piece).scheme = schemaOfFirst url := by
      rw [hfill, hschema]
      exact ite_self _
    obtain ⟨hscheme, hhost, hquery⟩ :=
      ih (fun piece hmem ↦ hpieces piece (List.mem_cons_of_mem _ hmem)) hnext
    refine ⟨hscheme, hhost.trans ?_, hquery.trans ?_⟩
    · rw [hfill]
    · rw [hfill]

end Pieces

/-- A suffix of such a URL gives the path `/`. -/
theorem pathOfPiece_of_suffix {url suffix : Bytes} (hstar : char '*' ∉ url)
    (hpaths : ∀ rest, char '/' :: rest <:+ url → pathOfPiece (char '/' :: rest) = ascii "/")
    (hne : suffix ≠ []) (hsuffix : suffix <:+ url) : pathOfPiece suffix = ascii "/" := by
  cases suffix with
  | nil => exact absurd rfl hne
  | cons c rest =>
    by_cases hslash : c = char '/'
    · subst hslash
      exact hpaths rest hsuffix
    · have hc : ¬ (c = char '/' ∨ c = char '*') := by
        rintro (h | h)
        · exact hslash h
        · exact hstar (h ▸ hsuffix.subset List.mem_cons_self)
      exact pathOfPiece_of_other hc fun h ↦
        no_slashes_of_paths hpaths (h.trans ((List.suffix_cons c rest).trans hsuffix).isInfix)

/-- The schema after the first piece of a URL. -/
theorem schema_of_first_piece {url piece : Bytes} (hne : piece ≠ []) (hbegins : piece <+: url) :
    (if piece.head?.any isAlpha then schemaOfFirst url else []) = schemaOfFirst url := by
  obtain ⟨tail, rfl⟩ := hbegins
  cases piece with
  | nil => exact absurd rfl hne
  | cons c rest =>
    by_cases hc : isAlpha c = true
    · simp [hc]
    · simp [schemaOfFirst, hc]

/-- The URI that the pieces of a URL fill in. -/
def fillFromPieces (pieces : List Bytes) : UriRef :=
  pieces.foldl (fun uri data ↦ uri.fillFromUrl data) UriRef.empty

/-- **Where a URL may be cut anywhere**, all cuts fill in the same URI. -/
theorem fillFromPieces_eq_of_cutsAlike {url : Bytes} (halike : CutsAlike url)
    {pieces : List Bytes} (hpieces : Fragments url pieces) :
    fillFromPieces pieces = fillFromPieces (wholePiece url) := by
  rcases halike with hshort | ⟨hstar, hpaths, hfirst, hrow⟩
  · rw [eq_wholePiece_of_short hshort hpieces]
  · by_cases hempty : url = []
    · have hshort : url.length ≤ 1 := by simp [hempty]
      rw [eq_wholePiece_of_short hshort hpieces]
    · suffices hsame : ∀ {pieces : List Bytes}, Fragments url pieces →
          fillFromPieces pieces = ⟨schemaOfFirst url, [], ascii "/", ascii "/", []⟩ from
        (hsame hpieces).trans (hsame (fragments_wholePiece url)).symm
      intro pieces hpieces
      have hall : ∀ piece ∈ pieces, piece ≠ [] ∧ piece <:+: url := fun piece hmem ↦
        ⟨fun h ↦ hpieces.2 (h ▸ hmem), hpieces.1 ▸ List.infix_of_mem_flatten hmem⟩
      have hfill : ∀ {piece : Bytes}, piece ≠ [] ∧ piece <:+: url → ∀ uri : UriRef, _ :=
        fun hpiece ↦ fillFromUrl_piece hpaths hfirst hrow hpiece.1 hpiece.2
      obtain ⟨before, last, rfl, hlast, hsuffix⟩ := exists_last_of_fragments hempty hpieces
      have hpath : (fillFromPieces (before ++ [last])).path = pathOfPiece last ∧
          (fillFromPieces (before ++ [last])).rawPath = pathOfPiece last := by
        rw [fillFromPieces, List.foldl_append, List.foldl_cons, List.foldl_nil,
          hfill (hall last (List.mem_append_right before List.mem_cons_self))]
        exact ⟨rfl, rfl⟩
      have hslash : pathOfPiece last = ascii "/" := pathOfPiece_of_suffix hstar hpaths hlast hsuffix
      have hrest : (fillFromPieces (before ++ [last])).scheme = schemaOfFirst url ∧
          (fillFromPieces (before ++ [last])).host = [] ∧
          (fillFromPieces (before ++ [last])).rawQuery = [] := by
        cases hcons : before ++ [last] with
        | nil => exact absurd hcons (by simp)
        | cons first more =>
          rw [hcons] at hall hpieces
          have hfilled := hfill (hall first List.mem_cons_self) UriRef.empty
          have hschema : (UriRef.empty.fillFromUrl first).scheme = schemaOfFirst url := by
            rw [hfilled]
            exact schema_of_first_piece (hall first List.mem_cons_self).1
              ⟨more.flatten, hpieces.1⟩
          obtain ⟨hscheme, hhost, hquery⟩ := foldl_fillFromUrl_pieces hpaths hfirst hrow
            (fun piece hmem ↦ hall piece (List.mem_cons_of_mem first hmem)) hschema
          refine ⟨hscheme, hhost.trans ?_, hquery.trans ?_⟩
          · rw [hfilled]
            rfl
          · rw [hfilled]
            rfl
      exact UriRef.ext hrest.1 hrest.2.1 (hpath.1.trans hslash) (hpath.2.trans hslash) hrest.2.2

/-! ### URLs that may not be cut anywhere -/

/-- A schema, or the default in place of an empty one. -/
def orDefault (default schema : Bytes) : Bytes :=
  if schema.isEmpty then default else schema

theorem length_orDefault_take {default s : Bytes} {k : ℕ} (hk : k ≤ s.length) :
    (orDefault default (s.take k)).length = if k = 0 then default.length else k := by
  have hlength : (s.take k).length = k := by rw [List.length_take]; omega
  unfold orDefault
  split_ifs with hempty hzero hzero
  · rfl
  · exact absurd (List.isEmpty_iff_length_eq_zero.mp hempty) (by omega)
  · exact absurd (List.isEmpty_iff_length_eq_zero.mpr (by omega)) hempty
  · exact hlength

/-- The paths of pieces of one byte, and of two bytes that end with `*`. -/
theorem pathOfPiece_short :
    (∀ c : UInt8, c ≠ char '*' → pathOfPiece [c] = ascii "/") ∧
      ∀ c : UInt8, pathOfPiece [c, char '*'] ≠ pathOfPiece [char '*'] :=
  ⟨forall_byte (by decide +kernel), forall_byte (by decide +kernel)⟩

/-- A piece that begins with `*` does not give the path `/`. -/
theorem pathOfPiece_star_ne (rest : Bytes) : pathOfPiece (char '*' :: rest) ≠ ascii "/" := by
  obtain ⟨query, hquery, heq⟩ := pathOfPiece_of_slash (Or.inr rfl) rest
  intro hpath
  rw [hpath] at heq
  cases hk : uint16 (1 + (rest.takeWhile isUrlChar).length) with
  | zero =>
    rw [hk, List.take_zero, List.nil_append] at heq
    rcases hquery with rfl | hquery
    · exact absurd heq (by decide)
    · rw [← heq] at hquery
      exact absurd hquery (by decide)
  | succ k =>
    rw [hk, List.take_succ_cons, List.cons_append] at heq
    exact absurd (List.cons.inj heq).1 (by decide)

/-- When every suffix of a URL of at least two bytes gives the same path, that path is `/`. -/
theorem pathOfPiece_eq_slash {url : Bytes} (hlong : 2 ≤ url.length)
    (hsuffix : ∀ s, s ≠ [] → s <:+ url → pathOfPiece s = pathOfPiece url) :
    pathOfPiece url = ascii "/" := by
  obtain ⟨before, x, c, rfl⟩ : ∃ before x c, url = before ++ [x, c] := by
    have hne : url ≠ [] := List.ne_nil_of_length_pos (by omega)
    have hne' : url.dropLast ≠ [] := List.ne_nil_of_length_pos (by rw [List.length_dropLast]; omega)
    refine ⟨url.dropLast.dropLast, url.dropLast.getLast hne', url.getLast hne, ?_⟩
    conv_lhs => rw [← List.dropLast_append_getLast hne, ← List.dropLast_append_getLast hne']
    simp
  have hone := hsuffix [c] (List.cons_ne_nil _ _) ⟨before ++ [x], by simp⟩
  have htwo := hsuffix [x, c] (List.cons_ne_nil _ _) ⟨before, rfl⟩
  by_cases hc : c = char '*'
  · subst hc
    exact absurd (htwo.trans hone.symm) (pathOfPiece_short.2 x)
  · rw [← hone]
    exact pathOfPiece_short.1 c hc

theorem fillFromPieces_wholePiece {url : Bytes} (hne : url ≠ []) :
    fillFromPieces (wholePiece url) = UriRef.empty.fillFromUrl url := by
  simp [wholePiece, List.isEmpty_eq_false_iff.mpr hne, fillFromPieces]

section Cuts

variable {url default : Bytes}

/-- When every cut fills in the same path, every suffix gives that path. -/
theorem pathOfPiece_eq_of_cuts
    (hpath : ∀ i, 0 < i → i < url.length →
      (fillFromPieces (cutPieces i url)).rawPath = (fillFromPieces (wholePiece url)).rawPath)
    {suffix : Bytes} (hne : suffix ≠ []) (hsuffix : suffix <:+ url) :
    pathOfPiece suffix = pathOfPiece url := by
  obtain ⟨before, rfl⟩ := hsuffix
  by_cases hbefore : before = []
  · rw [hbefore, List.nil_append]
  · have hlt : before.length < (before ++ suffix).length := by
      rw [List.length_append]
      have := List.length_pos_iff.mpr hne
      omega
    have hcut := hpath before.length (List.length_pos_iff.mpr hbefore) hlt
    rw [fillFromPieces_wholePiece (List.append_ne_nil_of_right_ne_nil before hne), cutPieces,
      List.take_left, List.drop_left] at hcut
    exact hcut

variable (hslashes : ¬ [char '/', char '/'] <:+: url)
  (hschema : ∀ i, 0 < i → i < url.length →
    orDefault default (fillFromPieces (cutPieces i url)).scheme =
      orDefault default (fillFromPieces (wholePiece url)).scheme)

include hslashes hschema

/-- When every cut fills in the same schema, the letters from any letter on are that schema. -/
theorem schema_of_letter {c : UInt8} {rest : Bytes} (hc : isAlpha c = true)
    (hsuffix : c :: rest <:+ url) :
    orDefault default ((c :: rest).take (uint16 (1 + (rest.takeWhile isAlpha).length))) =
      orDefault default (fillFromPieces (wholePiece url)).scheme := by
  obtain ⟨before, rfl⟩ := hsuffix
  have hnone : ¬ [char '/', char '/'] <:+: rest := fun h ↦
    hslashes (h.trans ⟨before ++ [c], [], by simp⟩)
  by_cases hbefore : before = []
  · subst hbefore
    rw [List.nil_append, fillFromPieces_wholePiece (List.cons_ne_nil c rest),
      fillFromUrl_of_letter hc hnone]
  · have hlt : before.length < (before ++ c :: rest).length := by simp
    rw [← hschema before.length (List.length_pos_iff.mpr hbefore) hlt, cutPieces, List.take_left,
      List.drop_left, fillFromPieces, List.foldl_cons, List.foldl_cons, List.foldl_nil,
      fillFromUrl_of_letter hc hnone]

/-- Then no letter stands behind another, since the two would give schemas of different lengths. -/
theorem not_isAlpha_of_letter (hdefault : 2 ≤ default.length) (hdefault' : default.length < 65535)
    {c d : UInt8} (hpair : [c, d] <:+: url) (hc : isAlpha c = true) : ¬ isAlpha d = true := by
  intro hd
  have hlength : ∀ (c : UInt8) (rest : Bytes),
      uint16 (1 + (rest.takeWhile isAlpha).length) ≤ (c :: rest).length := fun c rest ↦
    (uint16_le _).trans (by
      rw [List.length_cons, Nat.add_comm]
      exact Nat.add_le_add_right (List.takeWhile_sublist _).length_le 1)
  obtain ⟨before, rest, hurl⟩ := hpair
  have hfirst := @schema_of_letter _ _ hslashes hschema c (d :: rest) hc
    ⟨before, by rw [← hurl]; simp⟩
  have hsecond := @schema_of_letter _ _ hslashes hschema d rest hd
    ⟨before ++ [c], by rw [← hurl]; simp⟩
  have heq := congrArg List.length (hfirst.trans hsecond.symm)
  rw [length_orDefault_take (hlength c _), length_orDefault_take (hlength d _),
    List.takeWhile_cons_of_pos hd, List.length_cons] at heq
  unfold uint16 at heq
  split_ifs at heq <;> omega

/-- So every letter is the schema by itself. -/
theorem singleton_of_letter (hdefault : 2 ≤ default.length) (hdefault' : default.length < 65535)
    {c : UInt8} {rest : Bytes} (hc : isAlpha c = true) (hsuffix : c :: rest <:+ url) :
    [c] = orDefault default (fillFromPieces (wholePiece url)).scheme := by
  have hrun : rest.takeWhile isAlpha = [] := by
    cases rest with
    | nil => rfl
    | cons d tail =>
      have hpair : [c, d] <:+: url := List.IsInfix.trans ⟨[], tail, rfl⟩ hsuffix.isInfix
      exact List.takeWhile_cons_of_neg
        (not_isAlpha_of_letter hslashes hschema hdefault hdefault' hpair hc)
  rw [← schema_of_letter hslashes hschema hc hsuffix, hrun]
  rfl

/-- And every letter is the first byte, because a URL that begins with another byte gives no schema,
in whose place the default is too long. -/
theorem head?_of_letter (hdefault : 2 ≤ default.length) (hdefault' : default.length < 65535)
    {c : UInt8} (hmem : c ∈ url) (hc : isAlpha c = true) : url.head? = some c := by
  obtain ⟨before, rest, rfl⟩ := List.append_of_mem hmem
  have hsingle : [c] = _ :=
    singleton_of_letter hslashes hschema hdefault hdefault' hc ⟨before, rfl⟩
  cases before with
  | nil => rfl
  | cons e before =>
    by_cases he : isAlpha e = true
    · have hsingle' : [e] = _ :=
        singleton_of_letter hslashes hschema hdefault hdefault' he (List.suffix_refl _)
      have heq : e = c := by simpa using hsingle'.trans hsingle.symm
      rw [heq]
      rfl
    · exfalso
      rw [List.cons_append, fillFromPieces_wholePiece (List.cons_ne_nil e _),
        fillFromUrl_of_not_letter he] at hsingle
      have hlength := congrArg List.length hsingle
      change 1 = default.length at hlength
      omega

end Cuts

/-- **Where every cut of a URL fills in the same path and schema**, the URL may be cut anywhere. -/
theorem cutsAlike_of_fill {url default : Bytes} (hdefault : 2 ≤ default.length)
    (hdefault' : default.length < 65535)
    (hpath : ∀ i, 0 < i → i < url.length →
      (fillFromPieces (cutPieces i url)).rawPath = (fillFromPieces (wholePiece url)).rawPath)
    (hschema : ∀ i, 0 < i → i < url.length →
      orDefault default (fillFromPieces (cutPieces i url)).scheme =
        orDefault default (fillFromPieces (wholePiece url)).scheme) : CutsAlike url := by
  by_cases hshort : url.length ≤ 1
  · exact Or.inl hshort
  have hsuffix : ∀ s, s ≠ [] → s <:+ url → pathOfPiece s = pathOfPiece url :=
    fun s hs ↦ pathOfPiece_eq_of_cuts hpath hs
  have hslash := pathOfPiece_eq_slash (by omega) hsuffix
  have hstar : char '*' ∉ url := by
    intro hmem
    obtain ⟨before, rest, rfl⟩ := List.append_of_mem hmem
    exact pathOfPiece_star_ne rest
      ((hsuffix _ (List.cons_ne_nil _ _) ⟨before, rfl⟩).trans hslash)
  have hpaths : ∀ rest, char '/' :: rest <:+ url → pathOfPiece (char '/' :: rest) = ascii "/" :=
    fun rest h ↦ (hsuffix _ (List.cons_ne_nil _ _) h).trans hslash
  have hslashes := no_slashes_of_paths hpaths
  exact Or.inr ⟨hstar, hpaths,
    fun _ hmem ↦ head?_of_letter hslashes hschema hdefault hdefault' hmem,
    fun _ _ hpair ↦ not_isAlpha_of_letter hslashes hschema hdefault hdefault' hpair⟩

end Maock.Http1
