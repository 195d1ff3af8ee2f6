import Mathlib.Data.List.TakeWhile
import Mathlib.Tactic.Common
import Maock.Http.UrlParser

/-!
# The fields that the URL parser marks

What `http_parser_parse_url` marks in a URL, by the byte the URL begins with: a path and perhaps a
query behind `/` or `*` (`fields_of_slash`), a schema behind a letter (`fields_of_letter`), nothing
behind any other byte (`fields_of_other`). `fields_of_accepted` gives the fields of an accepted
request target that begins with `/`.
-/

set_option autoImplicit false
set_option relaxedAutoImplicit false

namespace Maock.Http

open Foundation Foundation.Bytes

/-! ### Runs of bytes within one field -/

theorem uint16_le (n : ℕ) : uint16 n ≤ n :=
  Nat.mod_le _ _

theorem uint16_lt (n : ℕ) : uint16 n < 2 ^ 16 :=
  Nat.mod_lt _ (by decide)

theorem uint16_of_lt {n : ℕ} (hn : n < 2 ^ 16) : uint16 n = n :=
  Nat.mod_eq_of_lt hn

/-- A field with so many bytes more. -/
def HttpParserUrl.extendBy (uf : UrlField) : ℕ → HttpParserUrl → HttpParserUrl
  | 0, u => u
  | n + 1, u => (u.extend uf).extendBy uf n

theorem field_extend_of_ne {uf other : UrlField} (hne : other ≠ uf) (u : HttpParserUrl) :
    (u.extend uf).field other = u.field other :=
  Function.update_of_ne hne _ _

theorem field_extendBy_of_ne {uf other : UrlField} (hne : other ≠ uf) (n : ℕ)
    (u : HttpParserUrl) : (u.extendBy uf n).field other = u.field other := by
  induction n generalizing u with
  | zero => rfl
  | succ n ih => rw [HttpParserUrl.extendBy, ih, field_extend_of_ne hne]

/-- The length of a field grows modulo `2 ^ 16`. -/
theorem field_extendBy {uf : UrlField} {off len : ℕ} (n : ℕ) {u : HttpParserUrl}
    (hfield : u.field uf = some ⟨off, uint16 len⟩) :
    (u.extendBy uf n).field uf = some ⟨off, uint16 (len + n)⟩ := by
  induction n generalizing u len with
  | zero => exact hfield
  | succ n ih =>
    have hnext : (u.extend uf).field uf = some ⟨off, uint16 (len + 1)⟩ := by
      rw [HttpParserUrl.extend, hfield]
      simp [uint16]
    rw [HttpParserUrl.extendBy, ih hnext, Nat.add_right_comm, Nat.add_assoc]

theorem field_start {uf : UrlField} (position : ℕ) (u : HttpParserUrl) :
    (u.start uf position).field uf = some ⟨uint16 position, uint16 1⟩ :=
  Function.update_self _ _ _

theorem field_start_of_ne {uf other : UrlField} (hne : other ≠ uf) (position : ℕ)
    (u : HttpParserUrl) : (u.start uf position).field other = u.field other :=
  Function.update_of_ne hne _ _

/-- One byte of the loop, for a byte that leads on. -/
theorem scanUrl_cons {position : ℕ} {scan : UrlScan} {ch : UInt8} {rest : Bytes} {st : UrlState}
    (hnext : parseUrlChar scan.state ch = st) (hst : st ≠ .dead) :
    scanUrl position scan (ch :: rest) = scanUrl (position + 1) (scan.enter position st) rest := by
  rw [scanUrl, hnext]
  cases st with
  | dead => exact absurd rfl hst
  | _ => rfl

/-- One byte of the loop, for a byte that ends it. -/
theorem scanUrl_cons_dead {position : ℕ} {scan : UrlScan} {ch : UInt8} {rest : Bytes}
    (hnext : parseUrlChar scan.state ch = .dead) :
    scanUrl position scan (ch :: rest) = (false, scan) := by
  rw [scanUrl, hnext]

/-- The loop over bytes that all stay in the state of a field. -/
theorem scanUrl_run {st : UrlState} {uf : UrlField} (huf : st.uf = some uf)
    (hat : st ≠ .serverWithAt) {run : Bytes} (hrun : ∀ c ∈ run, parseUrlChar st c = st)
    (rest : Bytes) (position : ℕ) (foundAt : Bool) (u : HttpParserUrl) :
    scanUrl position ⟨st, some uf, foundAt, u⟩ (run ++ rest) =
      scanUrl (position + run.length) ⟨st, some uf, foundAt, u.extendBy uf run.length⟩ rest := by
  have hdead : st ≠ .dead := by
    rintro rfl
    exact absurd huf (by simp [UrlState.uf])
  induction run generalizing position u with
  | nil => rfl
  | cons c run ih =>
    have hc : parseUrlChar st c = st := hrun c List.mem_cons_self
    have henter : UrlScan.enter position st ⟨st, some uf, foundAt, u⟩ =
        ⟨st, some uf, foundAt, u.extend uf⟩ := by
      simp [UrlScan.enter, huf, hat]
    rw [List.cons_append, scanUrl_cons hc hdead, henter,
      ih (fun c hc ↦ hrun c (List.mem_cons_of_mem _ hc))]
    rw [List.length_cons, Nat.add_right_comm, Nat.add_assoc]
    rfl

/-! ### Behind the path -/

/-- A state in which the path has ended. -/
def UrlState.behindPath : UrlState → Bool
  | .queryStringStart | .queryString | .fragmentStart | .fragment => true
  | _ => false

/-- No byte leads back into the path. -/
theorem behindPath_parseUrlChar {st : UrlState} (hst : st.behindPath = true) (ch : UInt8) :
    parseUrlChar st ch = .dead ∨ (parseUrlChar st ch).behindPath = true := by
  unfold parseUrlChar
  cases st with
  | queryStringStart | queryString | fragmentStart | fragment =>
    simp only
    split_ifs <;> simp [UrlState.behindPath]
  | _ => exact absurd hst (by decide)

/-- The bytes behind the path touch no field but the query and the fragment. -/
theorem field_scanUrl_behindPath {field : UrlField} (hquery : field ≠ .query)
    (hfragment : field ≠ .fragment) (rest : Bytes) (position : ℕ) {scan : UrlScan}
    (hbehind : scan.state.behindPath = true) :
    (scanUrl position scan rest).2.url.field field = scan.url.field field := by
  induction rest generalizing position scan with
  | nil => rfl
  | cons ch rest ih =>
    rcases behindPath_parseUrlChar hbehind ch with hdead | hnext
    · rw [scanUrl_cons_dead hdead]
    · generalize hst : parseUrlChar scan.state ch = st at hnext
      have halive : st ≠ .dead := by
        rintro rfl
        exact absurd hnext (by decide)
      have henter : (scan.enter position st).state = st ∧
          (scan.enter position st).url.field field = scan.url.field field := by
        unfold UrlScan.enter
        cases st with
        | queryStringStart | fragmentStart => exact ⟨rfl, rfl⟩
        | queryString =>
          simp only [UrlState.uf]
          split_ifs
          · exact ⟨rfl, field_extend_of_ne hquery _⟩
          · exact ⟨rfl, field_start_of_ne hquery _ _⟩
        | fragment =>
          simp only [UrlState.uf]
          split_ifs
          · exact ⟨rfl, field_extend_of_ne hfragment _⟩
          · exact ⟨rfl, field_start_of_ne hfragment _ _⟩
        | _ => exact absurd hnext (by decide)
      have hentered : (scan.enter position st).state.behindPath = true := by
        rw [henter.1]
        exact hnext
      rw [scanUrl_cons hst halive, ih (position + 1) hentered, henter.2]

/-! ### URLs that begin with a path -/

/-- The transitions out of the path. -/
theorem parseUrlChar_path : ∀ ch : UInt8, parseUrlChar .path ch =
    if isUrlChar ch then .path else if ch = char '?' then .queryStringStart
    else if ch = char '#' then .fragmentStart else .dead :=
  forall_byte (by decide +kernel)

/-- The transitions out of the query. -/
theorem parseUrlChar_query : ∀ ch : UInt8,
    parseUrlChar .queryStringStart ch = parseUrlChar .queryString ch ∧
      parseUrlChar .queryString ch =
        if isUrlChar ch ∨ ch = char '?' then .queryString
        else if ch = char '#' then .fragmentStart else .dead :=
  forall_byte (by decide +kernel)

/-- The result of the parser for a URL in which the loop marks no host. -/
theorem httpParserParseUrl_of_no_host {buf : Bytes} (hbuf : buf ≠ [])
    (hhost : (scanUrl 0 UrlScan.init buf).2.url.field .host = none) :
    httpParserParseUrl buf =
      ((scanUrl 0 UrlScan.init buf).1 &&
          ((scanUrl 0 UrlScan.init buf).2.url.field .schema).isNone,
        (scanUrl 0 UrlScan.init buf).2.url) := by
  have hempty : buf.isEmpty = false := by simpa using hbuf
  rw [httpParserParseUrl, hempty]
  cases hended : (scanUrl 0 UrlScan.init buf).1 with
  | false => simp [hended]
  | true => simp [hended, hhost]

/-- The URL data after `/` or `*` and so many bytes of the path behind it. -/
def HttpParserUrl.withPath (more : ℕ) : HttpParserUrl :=
  (HttpParserUrl.init.start .path 0).extendBy .path more

theorem field_withPath (more : ℕ) :
    (HttpParserUrl.withPath more).field .path = some ⟨0, uint16 (1 + more)⟩ :=
  field_extendBy more (field_start 0 _)

theorem field_withPath_of_ne {field : UrlField} (hpath : field ≠ .path) (more : ℕ) :
    (HttpParserUrl.withPath more).field field = none := by
  rw [HttpParserUrl.withPath, field_extendBy_of_ne hpath, field_start_of_ne hpath]
  rfl

/-- The loop over the path of a URL. -/
theorem scanUrl_init_slash {c : UInt8} (hc : c = char '/' ∨ c = char '*') (rest : Bytes) :
    scanUrl 0 UrlScan.init (c :: rest) =
      scanUrl (1 + (rest.takeWhile isUrlChar).length)
        ⟨.path, some .path, false, .withPath (rest.takeWhile isUrlChar).length⟩
        (rest.dropWhile isUrlChar) := by
  have hfirst : parseUrlChar .spacesBeforeUrl c = .path := by
    rcases hc with rfl | rfl <;> decide
  have hrun : ∀ d ∈ rest.takeWhile isUrlChar, parseUrlChar .path d = .path := by
    intro d hd
    rw [parseUrlChar_path, if_pos (List.mem_takeWhile_imp hd)]
  rw [scanUrl_cons hfirst (by decide)]
  show scanUrl 1 ⟨.path, some .path, false, HttpParserUrl.init.start .path 0⟩ rest = _
  conv_lhs => rw [← List.takeWhile_append_dropWhile (p := isUrlChar) (l := rest)]
  exact scanUrl_run rfl (by decide) hrun _ 1 false _

/-- The first byte that a test stops at fails the test. -/
theorem not_of_dropWhile_eq_cons {test : UInt8 → Bool} {s tail : Bytes} {c : UInt8}
    (h : s.dropWhile test = c :: tail) : test c = false := by
  have hhead := List.head?_dropWhile_not test s
  rw [h] at hhead
  simpa using hhead

/-- What stands behind the bytes of the path changes neither the path nor what stands before it. -/
theorem field_scanUrl_init_slash {c : UInt8} (hc : c = char '/' ∨ c = char '*') (rest : Bytes)
    {field : UrlField} (hquery : field ≠ .query) (hfragment : field ≠ .fragment) :
    (scanUrl 0 UrlScan.init (c :: rest)).2.url.field field =
      (HttpParserUrl.withPath (rest.takeWhile isUrlChar).length).field field := by
  rw [scanUrl_init_slash hc]
  cases htail : rest.dropWhile isUrlChar with
  | nil => rfl
  | cons d tail =>
    have hd : ¬ isUrlChar d = true := by simp [not_of_dropWhile_eq_cons htail]
    have hnext := parseUrlChar_path d
    rw [if_neg hd] at hnext
    split_ifs at hnext with hquestion hhash
    · rw [scanUrl_cons hnext (by decide), field_scanUrl_behindPath hquery hfragment _ _ rfl]
      rfl
    · rw [scanUrl_cons hnext (by decide), field_scanUrl_behindPath hquery hfragment _ _ rfl]
      rfl
    · rw [scanUrl_cons_dead hnext]

/-- The result of the parser for a URL that begins with `/` or `*` is that of the loop. -/
theorem httpParserParseUrl_of_slash {c : UInt8} (hc : c = char '/' ∨ c = char '*')
    (rest : Bytes) :
    httpParserParseUrl (c :: rest) =
      ((scanUrl 0 UrlScan.init (c :: rest)).1, (scanUrl 0 UrlScan.init (c :: rest)).2.url) := by
  have hnone : ∀ field : UrlField, field ≠ .path → field ≠ .query → field ≠ .fragment →
      (scanUrl 0 UrlScan.init (c :: rest)).2.url.field field = none := by
    intro field hpath hquery hfragment
    rw [field_scanUrl_init_slash hc rest hquery hfragment]
    exact field_withPath_of_ne hpath _
  have hhost := hnone .host (by decide) (by decide) (by decide)
  have hschema := hnone .schema (by decide) (by decide) (by decide)
  rw [httpParserParseUrl_of_no_host (List.cons_ne_nil c rest) hhost, hschema]
  simp

/-- **A URL that begins with `/` or `*`**: its path is marked from the start, over the bytes that a
path may have, and neither schema nor host is. -/
theorem fields_of_slash {c : UInt8} (hc : c = char '/' ∨ c = char '*') (rest : Bytes) :
    (httpParserParseUrl (c :: rest)).2.field .schema = none ∧
      (httpParserParseUrl (c :: rest)).2.field .host = none ∧
      (httpParserParseUrl (c :: rest)).2.field .path =
        some ⟨0, uint16 (1 + (rest.takeWhile isUrlChar).length)⟩ := by
  rw [httpParserParseUrl_of_slash hc]
  refine ⟨?_, ?_, ?_⟩
  · rw [field_scanUrl_init_slash hc rest (by decide) (by decide)]
    exact field_withPath_of_ne (by decide) _
  · rw [field_scanUrl_init_slash hc rest (by decide) (by decide)]
    exact field_withPath_of_ne (by decide) _
  · rw [field_scanUrl_init_slash hc rest (by decide) (by decide)]
    exact field_withPath _

/-! ### URLs that begin with another byte -/

/-- The transitions out of the schema. -/
theorem parseUrlChar_schema : ∀ ch : UInt8, parseUrlChar .schema ch =
    if isAlpha ch then .schema else if ch = char ':' then .schemaSlash else .dead :=
  forall_byte (by decide +kernel)

/-- The transitions between the slashes behind the schema. -/
theorem parseUrlChar_schemaSlash : ∀ ch : UInt8,
    (parseUrlChar .schemaSlash ch = if ch = char '/' then .schemaSlashSlash else .dead) ∧
      parseUrlChar .schemaSlashSlash ch = if ch = char '/' then .serverStart else .dead :=
  forall_byte (by decide +kernel)

/-- The first transition. -/
theorem parseUrlChar_spacesBeforeUrl : ∀ ch : UInt8, parseUrlChar .spacesBeforeUrl ch =
    if ch = char '/' ∨ ch = char '*' then .path else if isAlpha ch then .schema else .dead :=
  forall_byte (by decide +kernel)

/-- Without two slashes in a row nothing behind the schema is marked. -/
theorem url_scanUrl_schemaSlash {rest : Bytes} (hslashes : ¬ [char '/', char '/'] <:+: rest)
    (position : ℕ) (scan : UrlScan) (hstate : scan.state = .schemaSlash) :
    (scanUrl position scan rest).2.url = scan.url := by
  cases rest with
  | nil => rfl
  | cons c rest =>
    have hfirst := (parseUrlChar_schemaSlash c).1
    rw [← hstate] at hfirst
    split_ifs at hfirst with hc
    · rw [scanUrl_cons hfirst (by decide)]
      cases rest with
      | nil => rfl
      | cons d rest =>
        have hsecond := (parseUrlChar_schemaSlash d).2
        split_ifs at hsecond with hd
        · exact absurd ⟨[], rest, by rw [hc, hd]; rfl⟩ hslashes
        · rw [scanUrl_cons_dead hsecond]
          rfl
    · rw [scanUrl_cons_dead hfirst]

/-- The URL data after a letter and so many letters behind it. -/
def HttpParserUrl.withSchema (more : ℕ) : HttpParserUrl :=
  (HttpParserUrl.init.start .schema 0).extendBy .schema more

/-- The letters at the beginning of a URL are its schema. -/
theorem scanUrl_init_letter {c : UInt8} (hc : isAlpha c = true) (rest : Bytes) :
    scanUrl 0 UrlScan.init (c :: rest) =
      scanUrl (1 + (rest.takeWhile isAlpha).length)
        ⟨.schema, some .schema, false, .withSchema (rest.takeWhile isAlpha).length⟩
        (rest.dropWhile isAlpha) := by
  have hnotPath : ∀ d : UInt8, isAlpha d = true → ¬ (d = char '/' ∨ d = char '*') :=
    forall_byte (by decide +kernel)
  have hfirst : parseUrlChar .spacesBeforeUrl c = .schema := by
    rw [parseUrlChar_spacesBeforeUrl, if_neg (hnotPath c hc), if_pos hc]
  have hrun : ∀ d ∈ rest.takeWhile isAlpha, parseUrlChar .schema d = .schema := by
    intro d hd
    rw [parseUrlChar_schema, if_pos (List.mem_takeWhile_imp hd)]
  rw [scanUrl_cons hfirst (by decide)]
  show scanUrl 1 ⟨.schema, some .schema, false, HttpParserUrl.init.start .schema 0⟩ rest = _
  conv_lhs => rw [← List.takeWhile_append_dropWhile (p := isAlpha) (l := rest)]
  exact scanUrl_run rfl (by decide) hrun _ 1 false _

/-- Behind the schema nothing is marked without two slashes in a row. -/
theorem url_scanUrl_letter {c : UInt8} (hc : isAlpha c = true) {rest : Bytes}
    (hslashes : ¬ [char '/', char '/'] <:+: rest) :
    (scanUrl 0 UrlScan.init (c :: rest)).2.url =
      .withSchema (rest.takeWhile isAlpha).length := by
  rw [scanUrl_init_letter hc]
  cases htail : rest.dropWhile isAlpha with
  | nil => rfl
  | cons d tail =>
    have hd : ¬ isAlpha d = true := by simp [not_of_dropWhile_eq_cons htail]
    have hnext := parseUrlChar_schema d
    rw [if_neg hd] at hnext
    split_ifs at hnext with hcolon
    · have hsub : d :: tail <:+ rest := htail ▸ List.dropWhile_suffix _
      have htail' : tail <:+: rest := ((List.suffix_cons d tail).trans hsub).isInfix
      rw [scanUrl_cons hnext (by decide),
        url_scanUrl_schemaSlash (fun h ↦ hslashes (h.trans htail')) _ _ rfl]
      rfl
    · rw [scanUrl_cons_dead hnext]

/-- **A URL that begins with a letter** and has no two slashes in a row: nothing but the schema is
marked, over the letters that it begins with. -/
theorem fields_of_letter {c : UInt8} (hc : isAlpha c = true) {rest : Bytes}
    (hslashes : ¬ [char '/', char '/'] <:+: rest) :
    (httpParserParseUrl (c :: rest)).2.field .schema =
        some ⟨0, uint16 (1 + (rest.takeWhile isAlpha).length)⟩ ∧
      ∀ field : UrlField, field ≠ .schema →
        (httpParserParseUrl (c :: rest)).2.field field = none := by
  have hscan := url_scanUrl_letter hc hslashes
  have hother : ∀ field : UrlField, field ≠ .schema →
      (HttpParserUrl.withSchema (rest.takeWhile isAlpha).length).field field = none := by
    intro field hfield
    rw [HttpParserUrl.withSchema, field_extendBy_of_ne hfield, field_start_of_ne hfield]
    rfl
  have hhost : (scanUrl 0 UrlScan.init (c :: rest)).2.url.field .host = none := by
    rw [hscan]
    exact hother .host (by decide)
  rw [httpParserParseUrl_of_no_host (List.cons_ne_nil c rest) hhost, hscan]
  exact ⟨field_extendBy _ (field_start 0 _), hother⟩

/-- **A URL that begins with any other byte**: nothing is marked. -/
theorem fields_of_other {c : UInt8} (hpath : ¬ (c = char '/' ∨ c = char '*'))
    (hletter : ¬ isAlpha c = true) (rest : Bytes) (field : UrlField) :
    (httpParserParseUrl (c :: rest)).2.field field = none := by
  have hdead : parseUrlChar UrlScan.init.state c = .dead := by
    show parseUrlChar .spacesBeforeUrl c = .dead
    rw [parseUrlChar_spacesBeforeUrl, if_neg hpath, if_neg hletter]
  have hscan : scanUrl 0 UrlScan.init (c :: rest) = (false, UrlScan.init) :=
    scanUrl_cons_dead hdead
  have hhost : (scanUrl 0 UrlScan.init (c :: rest)).2.url.field .host = none := by
    rw [hscan]
    rfl
  rw [httpParserParseUrl_of_no_host (List.cons_ne_nil c rest) hhost, hscan]
  rfl

/-! ### Accepted request targets -/

/-- The path of a request target: what stands before the first `?`. -/
def targetPath (target : Bytes) : Bytes :=
  target.takeWhile (· != char '?')

/-- The query of a request target: what stands behind the first `?`. -/
def targetQuery (target : Bytes) : Bytes :=
  (target.dropWhile (· != char '?')).tail

/-- Where a `?` ends the bytes of a path, the path ends at the first `?`. -/
theorem urlChars_eq_of_question {s : Bytes}
    (h : ∀ c tail, s.dropWhile isUrlChar = c :: tail → c = char '?') :
    s.takeWhile isUrlChar = targetPath s ∧ s.dropWhile isUrlChar = s.dropWhile (· != char '?') := by
  have hquestion : isUrlChar (char '?') = false := by decide
  induction s with
  | nil => exact ⟨rfl, rfl⟩
  | cons c rest ih =>
    by_cases hc : isUrlChar c = true
    · have hne : (c != char '?') = true := by
        rw [bne_iff_ne]
        rintro rfl
        exact absurd hc (by simp [hquestion])
      rw [List.dropWhile_cons_of_pos hc] at h
      obtain ⟨htake, hdrop⟩ := ih h
      refine ⟨?_, ?_⟩
      · rw [List.takeWhile_cons_of_pos hc, htake]
        exact (List.takeWhile_cons_of_pos (p := fun x ↦ x != char '?') hne).symm
      · rw [List.dropWhile_cons_of_pos hc, hdrop]
        exact (List.dropWhile_cons_of_pos (p := fun x ↦ x != char '?') hne).symm
    · have heq : c = char '?' := h c rest (List.dropWhile_cons_of_neg hc)
      subst heq
      refine ⟨?_, ?_⟩
      · rw [List.takeWhile_cons_of_neg hc]
        rfl
      · rw [List.dropWhile_cons_of_neg hc]
        rfl

/-- The query of an accepted target consists of bytes that a query may have. -/
theorem scanUrl_query_ended {position : ℕ} {u : HttpParserUrl} {s : Bytes} (hhash : char '#' ∉ s)
    (hended : (scanUrl position ⟨.queryString, some .query, false, u⟩ s).1 = true) :
    scanUrl position ⟨.queryString, some .query, false, u⟩ s =
      (true, ⟨.queryString, some .query, false, u.extendBy .query s.length⟩) := by
  let stays : UInt8 → Bool := fun c ↦ isUrlChar c || c == char '?'
  have hstays : ∀ c, stays c = true ↔ isUrlChar c = true ∨ c = char '?' := by simp [stays]
  have hrun : ∀ c ∈ s.takeWhile stays, parseUrlChar .queryString c = .queryString := by
    intro c hc
    rw [(parseUrlChar_query c).2, if_pos ((hstays c).mp (List.mem_takeWhile_imp hc))]
  have hsplit : scanUrl position ⟨.queryString, some .query, false, u⟩ s =
      scanUrl (position + (s.takeWhile stays).length)
        ⟨.queryString, some .query, false, u.extendBy .query (s.takeWhile stays).length⟩
        (s.dropWhile stays) := by
    conv_lhs => rw [← List.takeWhile_append_dropWhile (p := stays) (l := s)]
    exact scanUrl_run rfl (by decide) hrun _ position false u
  cases htail : s.dropWhile stays with
  | nil =>
    have hall : s.takeWhile stays = s := by
      have hboth := List.takeWhile_append_dropWhile (p := stays) (l := s)
      rwa [htail, List.append_nil] at hboth
    rw [hsplit, htail, hall]
    rfl
  | cons d tail =>
    exfalso
    have hd : ¬ (isUrlChar d = true ∨ d = char '?') := fun h ↦
      absurd ((hstays d).mpr h) (by simp [not_of_dropWhile_eq_cons htail])
    have hmem : d ∈ s := (List.dropWhile_sublist stays).subset (htail ▸ List.mem_cons_self)
    have hdead : parseUrlChar .queryString d = .dead := by
      rw [(parseUrlChar_query d).2, if_neg hd, if_neg (ne_of_mem_of_not_mem hmem hhash)]
    rw [hsplit, htail, scanUrl_cons_dead hdead] at hended
    exact Bool.false_ne_true hended

/-- The loop over a query that is not empty marks it from its first byte on. -/
theorem field_query_scanUrl {position : ℕ} {u : HttpParserUrl} {query : Bytes} (hne : query ≠ [])
    (hhash : char '#' ∉ query)
    (hended : (scanUrl position ⟨.queryStringStart, some .path, false, u⟩ query).1 = true) :
    (scanUrl position ⟨.queryStringStart, some .path, false, u⟩ query).2.url.field .query =
      some ⟨uint16 position, uint16 query.length⟩ := by
  cases query with
  | nil => exact absurd rfl hne
  | cons d rest =>
    have hnext : parseUrlChar .queryStringStart d = .queryString := by
      rw [(parseUrlChar_query d).1, (parseUrlChar_query d).2]
      by_cases hd : isUrlChar d = true ∨ d = char '?'
      · exact if_pos hd
      · exfalso
        have hdead : parseUrlChar .queryStringStart d = .dead := by
          rw [(parseUrlChar_query d).1, (parseUrlChar_query d).2, if_neg hd,
            if_neg (ne_of_mem_of_not_mem List.mem_cons_self hhash)]
        rw [scanUrl_cons_dead hdead] at hended
        exact Bool.false_ne_true hended
    have henter : UrlScan.enter position .queryString ⟨.queryStringStart, some .path, false, u⟩ =
        ⟨.queryString, some .query, false, u.start .query position⟩ := rfl
    rw [scanUrl_cons hnext (by decide), henter] at hended ⊢
    rw [scanUrl_query_ended (fun h ↦ hhash (List.mem_cons_of_mem _ h)) hended, List.length_cons,
      Nat.add_comm]
    exact field_extendBy _ (field_start position u)

/-- The path of an accepted URL without a fragment ends in front of a question mark. -/
theorem eq_question_of_ended {rest : Bytes} (hhash : char '#' ∉ rest) {position : ℕ}
    {scan : UrlScan} (hstate : scan.state = .path)
    (hended : (scanUrl position scan (rest.dropWhile isUrlChar)).1 = true) (c : UInt8)
    (tail : Bytes) (htail : rest.dropWhile isUrlChar = c :: tail) : c = char '?' := by
  have hc : ¬ isUrlChar c = true := by simp [not_of_dropWhile_eq_cons htail]
  have hmem : c ∈ rest := (List.dropWhile_sublist _).subset (htail ▸ List.mem_cons_self)
  by_contra hne
  have hnext := parseUrlChar_path c
  rw [if_neg hc, if_neg hne, if_neg (ne_of_mem_of_not_mem hmem hhash), ← hstate] at hnext
  rw [htail, scanUrl_cons_dead hnext] at hended
  exact Bool.false_ne_true hended

/-- **An accepted request target** that begins with `/` and has no fragment: the path is marked from
the start up to the first `?`, and a query that is not empty behind it. -/
theorem fields_of_accepted {target : Bytes} (hslash : target.head? = some (char '/'))
    (hhash : char '#' ∉ target) (haccepted : (httpParserParseUrl target).1 = true) :
    (httpParserParseUrl target).2.field .schema = none ∧
      (httpParserParseUrl target).2.field .host = none ∧
      (httpParserParseUrl target).2.field .path = some ⟨0, uint16 (targetPath target).length⟩ ∧
      (httpParserParseUrl target).2.field .query =
        if targetQuery target = [] then none
        else some ⟨uint16 ((targetPath target).length + 1),
          uint16 (targetQuery target).length⟩ := by
  obtain ⟨rest, rfl⟩ : ∃ rest, target = char '/' :: rest := by
    cases target with
    | nil => exact absurd hslash (by simp)
    | cons c rest => exact ⟨rest, by simpa using hslash⟩
  have hrest : char '#' ∉ rest := fun h ↦ hhash (List.mem_cons_of_mem _ h)
  obtain ⟨hschema, hhost, hpath⟩ := fields_of_slash (Or.inl rfl) rest
  rw [httpParserParseUrl_of_slash (Or.inl rfl), scanUrl_init_slash (Or.inl rfl)] at haccepted
  have hquestion := eq_question_of_ended hrest rfl haccepted
  obtain ⟨htake, hdrop⟩ := urlChars_eq_of_question hquestion
  have hlength : (targetPath (char '/' :: rest)).length =
      1 + (rest.takeWhile isUrlChar).length := by
    rw [htake, Nat.add_comm]
    rfl
  have hquery : targetQuery (char '/' :: rest) = (rest.dropWhile isUrlChar).tail := by
    rw [hdrop]
    rfl
  refine ⟨hschema, hhost, hlength ▸ hpath, ?_⟩
  rw [httpParserParseUrl_of_slash (Or.inl rfl), scanUrl_init_slash (Or.inl rfl), hquery, hlength]
  have hnone : (HttpParserUrl.withPath (rest.takeWhile isUrlChar).length).field .query = none :=
    field_withPath_of_ne (by decide) _
  cases htail : rest.dropWhile isUrlChar with
  | nil => exact hnone
  | cons c query =>
    obtain rfl := hquestion c query htail
    have hfirst : parseUrlChar .path (char '?') = .queryStringStart := by decide
    rw [htail, scanUrl_cons hfirst (by decide)] at haccepted
    rw [scanUrl_cons hfirst (by decide), Nat.add_comm 1]
    rw [Nat.add_comm 1] at haccepted
    by_cases hempty : query = []
    · subst hempty
      exact hnone
    · have hhashQuery : char '#' ∉ query := fun h ↦
        hrest ((List.dropWhile_sublist _).subset (htail ▸ List.mem_cons_of_mem _ h))
      exact (field_query_scanUrl hempty hhashQuery haccepted).trans (if_neg hempty).symm

end Maock.Http
