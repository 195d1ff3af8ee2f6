import Maock.Http.UrlFields

/-!
# The grammar of URLs

What a URL is made of: a path, or a schema with an authority and perhaps a path, and behind it
perhaps a query and a fragment (`Url`). The parts carry the bytes that may stand in them, so that a
`Url` is well formed as it stands; `Url.render` writes it down.

The second part of this file reads the transitions of `parse_url_char` and `http_parse_host_char`
backwards: a string along which the parser stays out of its dead state has the parts of a URL
(`exists_tail_of_alive`, `exists_word_of_alive_path`, `exists_server_of_alive`), and a host that it
accepts is an authority (`exists_authority_of_accepted`).
-/

set_option autoImplicit false
set_option relaxedAutoImplicit false

namespace Maock.Http

open Foundation Foundation.Bytes

/-! ### Parts of a URL -/

/-- A string of bytes that all pass a test. -/
structure Word (test : UInt8 → Bool) where
  text : Bytes
  chars : ∀ c ∈ text, test c = true

/-- A word that is not empty. -/
structure Name (test : UInt8 → Bool) extends Word test where
  ne_nil : text ≠ []

/-- A byte of a query. -/
def isQueryChar (c : UInt8) : Bool :=
  isUrlChar c || c == char '?'

/-- A byte of a fragment. -/
def isFragmentChar (c : UInt8) : Bool :=
  isUrlChar c || c == char '?' || c == char '#'

/-- A byte of a v6 address. -/
def isV6Char (c : UInt8) : Bool :=
  isHex c || c == char ':' || c == char '.'

/-- A byte of the zone of a v6 address. -/
def isZoneChar (c : UInt8) : Bool :=
  isAlphanum c || (ascii "%.-_~").contains c

/-- A byte that keeps the parser in the server part. -/
def isServerChar (c : UInt8) : Bool :=
  isUserinfoChar c || c == char '[' || c == char ']' || c == char '@'

/-- A fragment: any number of `#` behind the first one are skipped. -/
structure Fragment where
  hashes : ℕ
  word : Word isFragmentChar
  head_ne : word.text.head? ≠ some (char '#')

def Fragment.render (f : Fragment) : Bytes :=
  List.replicate (f.hashes + 1) (char '#') ++ f.word.text

/-- What stands behind the path. -/
structure UrlTail where
  query : Option (Word isQueryChar)
  fragment : Option Fragment

def renderQuery (query : Option (Word isQueryChar)) : Bytes :=
  query.elim [] fun word ↦ char '?' :: word.text

def UrlTail.render (tail : UrlTail) : Bytes :=
  renderQuery tail.query ++ tail.fragment.elim [] Fragment.render

/-- The query as a field. -/
def UrlTail.queryText (tail : UrlTail) : Bytes :=
  tail.query.elim [] Word.text

/-- The fragment as a field. -/
def UrlTail.fragmentText (tail : UrlTail) : Bytes :=
  tail.fragment.elim [] fun f ↦ f.word.text

/-- A host: a name, or a v6 address in brackets, perhaps with a zone. -/
inductive UrlHost where
  | name (host : Name isHostChar)
  | v6 (address : Name isV6Char) (zone : Option (Name isZoneChar))

def renderZone (zone : Option (Name isZoneChar)) : Bytes :=
  zone.elim [] fun name ↦ char '%' :: name.text

/-- The host as a field: without the brackets. -/
def UrlHost.text : UrlHost → Bytes
  | .name host => host.text
  | .v6 address zone => address.text ++ renderZone zone

def UrlHost.render : UrlHost → Bytes
  | .name host => host.text
  | .v6 address zone => char '[' :: (address.text ++ renderZone zone ++ [char ']'])

/-- The number that digits stand for. -/
def portValue (digits : Bytes) : ℕ :=
  digits.foldl (fun v ch ↦ v * 10 + (ch.toNat - (char '0').toNat)) 0

/-- The server part of a URL. The digits of the port may stand for any number. -/
structure Authority where
  userinfo : Option (Word isUserinfoChar)
  host : UrlHost
  port : Option (Name isNum)

def renderUserinfo (userinfo : Option (Word isUserinfoChar)) : Bytes :=
  userinfo.elim [] fun word ↦ word.text ++ [char '@']

def renderPort (port : Option (Name isNum)) : Bytes :=
  port.elim [] fun digits ↦ char ':' :: digits.text

def Authority.render (a : Authority) : Bytes :=
  renderUserinfo a.userinfo ++ a.host.render ++ renderPort a.port

/-- The user information as a field. -/
def Authority.userinfoText (a : Authority) : Bytes :=
  a.userinfo.elim [] Word.text

/-- The port as a field. -/
def Authority.portText (a : Authority) : Bytes :=
  a.port.elim [] fun digits ↦ digits.text

/-- A URL: a request target that begins with `/` or `*`, or an absolute URL. A fragment cannot stand
directly behind the server part. -/
inductive Url where
  | target (first : UInt8) (hfirst : first = char '/' ∨ first = char '*') (path : Word isUrlChar)
    (tail : UrlTail)
  | absolute (schema : Name isAlpha) (authority : Authority) (path : Option (Word isUrlChar))
    (tail : UrlTail)
    (hfragment : path = none → tail.fragment.isSome = true → tail.query.isSome = true)

/-- What stands between the schema and the server part. -/
def schemaEnd : Bytes :=
  ascii "://"

def renderPath (path : Option (Word isUrlChar)) : Bytes :=
  path.elim [] fun word ↦ char '/' :: word.text

/-- The URL as a string. -/
def Url.render : Url → Bytes
  | .target first _ path tail => first :: path.text ++ tail.render
  | .absolute schema authority path tail _ =>
    schema.text ++ schemaEnd ++ authority.render ++ renderPath path ++ tail.render

/-- The text of a field; empty when the URL has no such part. -/
def Url.component : Url → UrlField → Bytes
  | .target first _ path tail, field =>
    match field with
    | .path => first :: path.text
    | .query => tail.queryText
    | .fragment => tail.fragmentText
    | _ => []
  | .absolute schema authority path tail _, field =>
    match field with
    | .schema => schema.text
    | .userinfo => authority.userinfoText
    | .host => authority.host.text
    | .port => authority.portText
    | .path => renderPath path
    | .query => tail.queryText
    | .fragment => tail.fragmentText

/-- The number of the port; zero without one. -/
def Url.port : Url → ℕ
  | .target _ _ _ _ => 0
  | .absolute _ authority _ _ _ => portValue authority.portText

/-! ### Strings that the parser survives -/

/-- The parser stays out of its dead state along the string. -/
def Alive (st : UrlState) (s : Bytes) : Prop :=
  s.foldl parseUrlChar st ≠ .dead

theorem parseUrlChar_dead (c : UInt8) : parseUrlChar .dead c = .dead := by
  unfold parseUrlChar
  split_ifs <;> rfl

theorem foldl_dead (s : Bytes) : s.foldl parseUrlChar .dead = .dead := by
  induction s with
  | nil => rfl
  | cons c s ih => rw [List.foldl_cons, parseUrlChar_dead, ih]

theorem not_alive_dead (s : Bytes) : ¬ Alive .dead s :=
  fun h ↦ h (foldl_dead s)

theorem alive_cons {st : UrlState} {c : UInt8} {s : Bytes} :
    Alive st (c :: s) ↔ Alive (parseUrlChar st c) s :=
  Iff.rfl

/-- The loop of the parser comes to the end of the strings that the parser survives. -/
theorem scanUrl_fst_iff (position : ℕ) (scan : UrlScan) (s : Bytes) (hstate : scan.state ≠ .dead) :
    (scanUrl position scan s).1 = true ↔ Alive scan.state s := by
  induction s generalizing position scan with
  | nil => exact iff_of_true rfl hstate
  | cons c rest ih =>
    rw [alive_cons]
    generalize hst : parseUrlChar scan.state c = st
    by_cases hdead : st = .dead
    · subst hdead
      rw [scanUrl_cons_dead hst]
      exact iff_of_false Bool.false_ne_true (not_alive_dead rest)
    · have henter : (scan.enter position st).state = st := by
        unfold UrlScan.enter
        cases st.uf with
        | none => rfl
        | some uf =>
          dsimp only
          split_ifs <;> rfl
      rw [scanUrl_cons hst hdead, ih _ _ (henter.symm ▸ hdead), henter]

/-- A state that a test keeps: what passes the test at the front of a string does not matter. -/
theorem foldl_dropWhile {σ : Type*} {next : σ → UInt8 → σ} {st : σ} {test : UInt8 → Bool}
    (hloop : ∀ c, test c = true → next st c = st) (s : Bytes) :
    s.foldl next st = (s.dropWhile test).foldl next st := by
  induction s with
  | nil => rfl
  | cons c rest ih =>
    by_cases hc : test c = true
    · rw [List.dropWhile_cons_of_pos hc, List.foldl_cons, hloop c hc]
      exact ih
    · rw [List.dropWhile_cons_of_neg hc]

theorem alive_dropWhile {st : UrlState} {test : UInt8 → Bool}
    (hloop : ∀ c, test c = true → parseUrlChar st c = st) (s : Bytes) :
    Alive st s ↔ Alive st (s.dropWhile test) := by
  rw [Alive, Alive, foldl_dropWhile hloop]

/-- The bytes at the front of a string that pass a test. -/
def wordOf (test : UInt8 → Bool) (s : Bytes) : Word test where
  text := s.takeWhile test
  chars _ hc := List.mem_takeWhile_imp hc

/-! ### Transitions -/

/-- What a byte that ends every URL is not. -/
theorem classes_of_isDeadChar : ∀ ch : UInt8, isDeadChar ch = true →
    isUrlChar ch = false ∧ isServerChar ch = false ∧ ch ≠ char '?' ∧ ch ≠ char '#' :=
  forall_byte (by decide +kernel)

theorem not_target_of_isAlpha {ch : UInt8} (h : isAlpha ch = true) :
    ¬ (ch = char '/' ∨ ch = char '*') := by
  rintro (rfl | rfl) <;> exact absurd h (by decide)

theorem parseUrlChar_fragmentStart (ch : UInt8) : parseUrlChar .fragmentStart ch =
    if ch = char '#' then .fragmentStart
    else if isFragmentChar ch then .fragment else .dead := by
  have hdead := classes_of_isDeadChar ch
  have hhash : isUrlChar (char '#') = false ∧ char '#' ≠ char '?' := by decide
  simp only [parseUrlChar, isFragmentChar, Bool.or_eq_true, beq_iff_eq]
  split_ifs <;> grind

theorem parseUrlChar_fragment (ch : UInt8) : parseUrlChar .fragment ch =
    if isFragmentChar ch then .fragment else .dead := by
  have hdead := classes_of_isDeadChar ch
  simp only [parseUrlChar, isFragmentChar, Bool.or_eq_true, beq_iff_eq]
  split_ifs <;> grind

theorem parseUrlChar_queryString (ch : UInt8) : parseUrlChar .queryString ch =
    if isQueryChar ch then .queryString
    else if ch = char '#' then .fragmentStart else .dead := by
  have hdead := classes_of_isDeadChar ch
  simp only [parseUrlChar, isQueryChar, Bool.or_eq_true, beq_iff_eq]
  split_ifs <;> grind

/-- The transitions out of the server part, as far as it is left. -/
theorem parseServerChar_eq (ch : UInt8) : parseServerChar ch =
    if isServerChar ch then (if ch = char '@' then .serverWithAt else .server)
    else if ch = char '/' then .path
    else if ch = char '?' then .queryStringStart else .dead := by
  have hslash : isServerChar (char '/') = false ∧ isServerChar (char '?') = false := by decide
  have hat : isServerChar (char '@') = true := by decide
  unfold parseServerChar
  by_cases hslash' : ch = char '/'
  · rw [hslash', hslash.1]
    rfl
  by_cases hquestion : ch = char '?'
  · rw [hquestion, hslash.2]
    rfl
  rw [if_neg hslash', if_neg hquestion]
  simp only [isServerChar, Bool.or_eq_true, beq_iff_eq]
  split_ifs <;> grind

/-! ### The parts of a string that the parser survives -/

theorem isFragmentChar_of_alive {s : Bytes} (h : Alive .fragment s) :
    ∀ c ∈ s, isFragmentChar c = true := by
  induction s with
  | nil => exact fun c hc ↦ absurd hc List.not_mem_nil
  | cons c rest ih =>
    rw [alive_cons, parseUrlChar_fragment] at h
    split_ifs at h with hc
    · exact List.forall_mem_cons.mpr ⟨hc, ih h⟩
    · exact absurd h (not_alive_dead rest)

/-- What the parser survives behind a `#` is a fragment. -/
theorem exists_fragment_of_alive {s : Bytes} (h : Alive .fragmentStart s) :
    ∃ f : Fragment, char '#' :: s = f.render := by
  have hloop : ∀ c : UInt8, (c == char '#') = true →
      parseUrlChar .fragmentStart c = .fragmentStart := by
    intro c hc
    rw [parseUrlChar_fragmentStart, if_pos (beq_iff_eq.mp hc)]
  have hhashes : s.takeWhile (· == char '#') =
      List.replicate (s.takeWhile (· == char '#')).length (char '#') :=
    List.eq_replicate_of_mem fun c hc ↦ by simpa using List.mem_takeWhile_imp hc
  have halive := (alive_dropWhile hloop s).mp h
  have hhead : (s.dropWhile (· == char '#')).head? ≠ some (char '#') := by
    intro hhead
    have hnot := List.head?_dropWhile_not (· == char '#') s
    rw [hhead] at hnot
    exact absurd hnot (by simp)
  have hchars : ∀ c ∈ s.dropWhile (· == char '#'), isFragmentChar c = true := by
    cases hrest : s.dropWhile (· == char '#') with
    | nil => exact fun c hc ↦ absurd hc List.not_mem_nil
    | cons c rest =>
      rw [hrest, alive_cons, parseUrlChar_fragmentStart] at halive
      rw [hrest, List.head?_cons] at hhead
      rw [if_neg fun heq ↦ hhead (congrArg some heq)] at halive
      split_ifs at halive with hc
      · exact List.forall_mem_cons.mpr ⟨hc, isFragmentChar_of_alive halive⟩
      · exact absurd halive (not_alive_dead rest)
  refine ⟨⟨(s.takeWhile (· == char '#')).length, ⟨_, hchars⟩, hhead⟩, ?_⟩
  rw [Fragment.render, List.replicate_succ, List.cons_append, ← hhashes,
    List.takeWhile_append_dropWhile]

/-- What the parser survives behind a `?` is a query, perhaps with a fragment. -/
theorem exists_query_of_alive {s : Bytes} (h : Alive .queryString s) :
    ∃ (query : Word isQueryChar) (fragment : Option Fragment),
      s = query.text ++ fragment.elim [] Fragment.render := by
  have hloop : ∀ c : UInt8, isQueryChar c = true → parseUrlChar .queryString c = .queryString := by
    intro c hc
    rw [parseUrlChar_queryString, if_pos hc]
  have halive := (alive_dropWhile hloop s).mp h
  have hsplit := List.takeWhile_append_dropWhile (p := isQueryChar) (l := s)
  cases hrest : s.dropWhile isQueryChar with
  | nil =>
    refine ⟨wordOf isQueryChar s, none, ?_⟩
    rw [hrest] at hsplit
    exact hsplit.symm
  | cons c rest =>
    have hc : ¬ isQueryChar c = true := by simp [not_of_dropWhile_eq_cons hrest]
    rw [hrest, alive_cons, parseUrlChar_queryString, if_neg hc] at halive
    split_ifs at halive with hhash
    · obtain ⟨f, hf⟩ := exists_fragment_of_alive halive
      refine ⟨wordOf isQueryChar s, some f, ?_⟩
      rw [Option.elim_some, ← hf, ← hhash, ← hrest]
      exact hsplit.symm
    · exact absurd halive (not_alive_dead rest)

/-- What the parser survives behind a path that has ended is a tail. -/
theorem exists_tail_of_alive {c : UInt8} {rest : Bytes} (hc : isUrlChar c = false)
    (h : Alive .path (c :: rest)) : ∃ tail : UrlTail, c :: rest = tail.render := by
  rw [alive_cons, parseUrlChar_path, if_neg (by simp [hc])] at h
  split_ifs at h with hquestion hhash
  · have hquery : Alive .queryString rest := by
      cases rest with
      | nil => exact fun h ↦ UrlState.noConfusion h
      | cons d rest =>
        rw [alive_cons, (parseUrlChar_query d).1] at h
        exact h
    obtain ⟨query, fragment, hrest⟩ := exists_query_of_alive hquery
    refine ⟨⟨some query, fragment⟩, ?_⟩
    rw [hquestion, hrest]
    rfl
  · obtain ⟨f, hf⟩ := exists_fragment_of_alive h
    refine ⟨⟨none, some f⟩, ?_⟩
    rw [hhash]
    exact hf
  · exact absurd h (not_alive_dead rest)

/-- What the parser survives in a path is the rest of the path and a tail. -/
theorem exists_word_of_alive_path {s : Bytes} (h : Alive .path s) :
    ∃ (word : Word isUrlChar) (tail : UrlTail), s = word.text ++ tail.render := by
  have hloop : ∀ c : UInt8, isUrlChar c = true → parseUrlChar .path c = .path := by
    intro c hc
    rw [parseUrlChar_path, if_pos hc]
  have halive := (alive_dropWhile hloop s).mp h
  have hsplit := List.takeWhile_append_dropWhile (p := isUrlChar) (l := s)
  cases hrest : s.dropWhile isUrlChar with
  | nil =>
    refine ⟨wordOf isUrlChar s, ⟨none, none⟩, ?_⟩
    rw [hrest] at hsplit
    exact hsplit.symm
  | cons c rest =>
    rw [hrest] at halive
    obtain ⟨tail, htail⟩ := exists_tail_of_alive (not_of_dropWhile_eq_cons hrest) halive
    refine ⟨wordOf isUrlChar s, tail, ?_⟩
    rw [← htail, ← hrest]
    exact hsplit.symm

/-! ### The server part -/

/-- The states of the server part. -/
def UrlState.isServer : UrlState → Bool
  | .serverStart | .server | .serverWithAt => true
  | _ => false

/-- The transitions out of the states of the server part. -/
theorem parseUrlChar_isServer {st : UrlState} (hst : st.isServer = true) (ch : UInt8) :
    parseUrlChar st ch = .dead ∨ parseUrlChar st ch = parseServerChar ch := by
  unfold parseUrlChar
  by_cases hdead : isDeadChar ch = true
  · rw [if_pos hdead]
    exact Or.inl rfl
  rw [if_neg hdead]
  cases st with
  | serverStart | server => exact Or.inr rfl
  | serverWithAt =>
    dsimp only
    split_ifs
    · exact Or.inl rfl
    · exact Or.inr rfl
  | _ => exact absurd hst (by decide)

/-- Along the bytes of a server part the parser stays in its states. -/
theorem isServer_foldl {st : UrlState} (hst : st.isServer = true) {s : Bytes}
    (hchars : ∀ c ∈ s, isServerChar c = true) (halive : Alive st s) :
    (s.foldl parseUrlChar st).isServer = true := by
  induction s generalizing st with
  | nil => exact hst
  | cons c rest ih =>
    have hrest := fun d hd ↦ hchars d (List.mem_cons_of_mem c hd)
    rw [List.foldl_cons]
    rw [alive_cons] at halive
    refine ih ?_ hrest halive
    obtain hdead | hnext := parseUrlChar_isServer hst c
    · rw [hdead] at halive
      exact absurd halive (not_alive_dead rest)
    · rw [hnext, parseServerChar_eq, if_pos (hchars c List.mem_cons_self)]
      split_ifs <;> rfl

theorem Alive.append {st : UrlState} {s t : Bytes} (h : Alive st (s ++ t)) :
    Alive st s ∧ Alive (s.foldl parseUrlChar st) t := by
  rw [Alive, List.foldl_append] at h
  refine ⟨fun hdead ↦ h ?_, h⟩
  rw [hdead, foldl_dead]

/-- What the parser survives in front of the server part is that part, perhaps a path, and a tail
that begins with a query where there is no path. -/
theorem exists_server_of_alive {s : Bytes} (h : Alive .serverStart s) :
    ∃ (server : Word isServerChar) (path : Option (Word isUrlChar)) (tail : UrlTail),
      s = server.text ++ renderPath path ++ tail.render ∧ Alive .serverStart server.text ∧
        (path = none → tail.fragment.isSome = true → tail.query.isSome = true) := by
  have hsplit := List.takeWhile_append_dropWhile (p := isServerChar) (l := s)
  rw [← hsplit] at h
  obtain ⟨hserver, hrest⟩ := h.append
  have hstate : ((s.takeWhile isServerChar).foldl parseUrlChar .serverStart).isServer = true :=
    isServer_foldl rfl (wordOf isServerChar s).chars hserver
  generalize (s.takeWhile isServerChar).foldl parseUrlChar .serverStart = st at hrest hstate
  cases htail : s.dropWhile isServerChar with
  | nil =>
    refine ⟨wordOf isServerChar s, none, ⟨none, none⟩, ?_, hserver, fun _ h ↦ absurd h (by simp)⟩
    rw [htail, List.append_nil] at hsplit
    rw [renderPath, Option.elim_none, List.append_nil, UrlTail.render]
    exact (hsplit.symm.trans (List.append_nil _).symm)
  | cons c rest =>
    have hc : ¬ isServerChar c = true := by simp [not_of_dropWhile_eq_cons htail]
    rw [htail] at hrest hsplit
    have hnext : Alive (parseServerChar c) rest := by
      rw [alive_cons] at hrest
      obtain hdead | hnext := parseUrlChar_isServer hstate c
      · rw [hdead] at hrest
        exact absurd hrest (not_alive_dead rest)
      · rwa [hnext] at hrest
    rw [parseServerChar_eq, if_neg hc] at hnext
    split_ifs at hnext with hslash hquestion
    · obtain ⟨word, tail, hword⟩ := exists_word_of_alive_path hnext
      refine ⟨wordOf isServerChar s, some word, tail, ?_, hserver, fun h ↦ absurd h (by simp)⟩
      refine hsplit.symm.trans ?_
      rw [hslash, hword, List.append_assoc]
      rfl
    · have hquery : Alive .path (char '?' :: rest) := hnext
      obtain ⟨tail, htail'⟩ := exists_tail_of_alive (by decide) hquery
      refine ⟨wordOf isServerChar s, none, tail, ?_, hserver, fun _ hfragment ↦ ?_⟩
      · rw [renderPath, Option.elim_none, List.append_nil, ← htail', ← hquestion]
        exact hsplit.symm
      · -- without a query the tail would begin with `#`
        obtain ⟨query, fragment⟩ := tail
        cases query with
        | some query => rfl
        | none =>
          obtain ⟨f, rfl⟩ := Option.isSome_iff_exists.mp hfragment
          have hhead : char '?' = char '#' := (List.cons.inj htail').1
          exact absurd hhead (by decide)
    · exact absurd hnext (not_alive_dead rest)

/-! ### Hosts that the parser accepts -/

/-- The host parser ends in a state in which a host may end. -/
def HostAccepts (st : HostState) (s : Bytes) : Prop :=
  (s.foldl parseHostChar st).isFinal = true ∧ s.foldl parseHostChar st ≠ .dead

theorem foldl_hostDead (s : Bytes) : s.foldl parseHostChar .dead = .dead := by
  induction s with
  | nil => rfl
  | cons c s ih => exact ih

theorem not_hostAccepts_dead (s : Bytes) : ¬ HostAccepts .dead s :=
  fun h ↦ h.2 (foldl_hostDead s)

theorem hostAccepts_cons {st : HostState} {c : UInt8} {s : Bytes} :
    HostAccepts st (c :: s) ↔ HostAccepts (parseHostChar st c) s :=
  Iff.rfl

theorem hostAccepts_dropWhile {st : HostState} {test : UInt8 → Bool}
    (hloop : ∀ c, test c = true → parseHostChar st c = st) (s : Bytes) :
    HostAccepts st s ↔ HostAccepts st (s.dropWhile test) := by
  rw [HostAccepts, HostAccepts, foldl_dropWhile hloop]

/-- The loop of the host parser, as far as its states are concerned. -/
theorem scanHost_accepts_iff (position : ℕ) (st : HostState) (u : HttpParserUrl) (s : Bytes)
    (hst : st ≠ .dead) :
    ((scanHost position st u s).1 && (scanHost position st u s).2.1.isFinal) = true ↔
      HostAccepts st s := by
  induction s generalizing position st u with
  | nil => exact ⟨fun h ↦ ⟨h, hst⟩, fun h ↦ h.1⟩
  | cons c rest ih =>
    rw [hostAccepts_cons, scanHost]
    generalize parseHostChar st c = next
    cases next with
    | dead => exact iff_of_false Bool.false_ne_true (not_hostAccepts_dead rest)
    | _ => exact ih _ _ _ (by decide)

/-- The delimiters of a server part are not bytes of the parts in front of them. -/
theorem delimiters_of_host : ∀ ch : UInt8,
    (isUserinfoChar ch = true → ch ≠ char '@') ∧ (isHostChar ch = true → ch ≠ char '[') ∧
      (isV6Char ch = true → ch ≠ char ']') ∧ (isZoneChar ch = true → ch ≠ char ']') :=
  forall_byte (by decide +kernel)

theorem parseHostChar_port (ch : UInt8) :
    parseHostChar .portStart ch = parseHostChar .port ch ∧
      parseHostChar .port ch = if isNum ch then .port else .dead :=
  ⟨rfl, rfl⟩

theorem parseHostChar_host (ch : UInt8) : parseHostChar .host ch =
    if isHostChar ch then .host else if ch = char ':' then .portStart else .dead :=
  rfl

theorem parseHostChar_hostV6 (ch : UInt8) : parseHostChar .hostV6 ch =
    if isV6Char ch then .hostV6 else if ch = char ']' then .hostV6End
    else if ch = char '%' then .hostV6ZoneStart else .dead := by
  have hdelimiter := (delimiters_of_host ch).2.2.1
  unfold parseHostChar parseV6Char
  unfold isV6Char at *
  grind

theorem parseHostChar_hostV6Start (ch : UInt8) : parseHostChar .hostV6Start ch =
    if isV6Char ch then .hostV6 else .dead := by
  unfold parseHostChar parseV6Char isV6Char
  grind

theorem parseHostChar_zone (ch : UInt8) : (parseHostChar .hostV6ZoneStart ch =
      if isZoneChar ch then .hostV6Zone else .dead) ∧
    parseHostChar .hostV6Zone ch =
      if isZoneChar ch then .hostV6Zone else if ch = char ']' then .hostV6End else .dead := by
  have hdelimiter := (delimiters_of_host ch).2.2.2
  refine ⟨rfl, ?_⟩
  unfold parseHostChar parseZoneChar
  unfold isZoneChar at *
  grind

theorem parseHostChar_hostStart (ch : UInt8) : parseHostChar .hostStart ch =
    if ch = char '[' then .hostV6Start else if isHostChar ch then .host else .dead := rfl

theorem parseHostChar_userinfo (ch : UInt8) :
    parseHostChar .userinfoStart ch = parseHostChar .userinfo ch ∧
      parseHostChar .userinfo ch =
        if isUserinfoChar ch then .userinfo else if ch = char '@' then .hostStart else .dead := by
  have hdelimiter := (delimiters_of_host ch).1
  refine ⟨rfl, ?_⟩
  unfold parseHostChar
  grind

theorem isNum_of_hostAccepts {s : Bytes} (h : HostAccepts .port s) : ∀ c ∈ s, isNum c = true := by
  induction s with
  | nil => exact fun c hc ↦ absurd hc List.not_mem_nil
  | cons c rest ih =>
    rw [hostAccepts_cons, (parseHostChar_port c).2] at h
    split_ifs at h with hc
    · exact List.forall_mem_cons.mpr ⟨hc, ih h⟩
    · exact absurd h (not_hostAccepts_dead rest)

/-- What is accepted behind the colon is a port. -/
theorem exists_digits_of_accepted {s : Bytes} (h : HostAccepts .portStart s) :
    ∃ digits : Name isNum, s = digits.text := by
  cases s with
  | nil => exact absurd h.1 (by decide)
  | cons c rest =>
    have hport : HostAccepts .port (c :: rest) := by
      rw [hostAccepts_cons, (parseHostChar_port c).1] at h
      exact h
    exact ⟨⟨⟨c :: rest, isNum_of_hostAccepts hport⟩, List.cons_ne_nil c rest⟩, rfl⟩

/-- What is accepted behind a v6 address is nothing or a port. -/
theorem exists_digits_of_v6End {s : Bytes} (h : HostAccepts .hostV6End s) :
    ∃ digits : Option (Name isNum), s = renderPort digits := by
  cases s with
  | nil => exact ⟨none, rfl⟩
  | cons c rest =>
    rw [hostAccepts_cons] at h
    by_cases hc : c = char ':'
    · have hnext : parseHostChar .hostV6End c = .portStart := if_pos hc
      rw [hnext] at h
      obtain ⟨digits, hdigits⟩ := exists_digits_of_accepted h
      exact ⟨some digits, by rw [hc, hdigits]; rfl⟩
    · have hnext : parseHostChar .hostV6End c = .dead := if_neg hc
      rw [hnext] at h
      exact absurd h (not_hostAccepts_dead rest)

/-- What is accepted behind the `%` of a v6 address. -/
theorem exists_zone_of_accepted {s : Bytes} (h : HostAccepts .hostV6ZoneStart s) :
    ∃ (zone : Name isZoneChar) (digits : Option (Name isNum)),
      s = zone.text ++ char ']' :: renderPort digits := by
  cases s with
  | nil => exact absurd h.1 (by decide)
  | cons c rest =>
    rw [hostAccepts_cons, (parseHostChar_zone c).1] at h
    split_ifs at h with hc
    · have hloop : ∀ c : UInt8, isZoneChar c = true → parseHostChar .hostV6Zone c = .hostV6Zone :=
        fun c hc ↦ by rw [(parseHostChar_zone c).2, if_pos hc]
      have hrest := (hostAccepts_dropWhile hloop rest).mp h
      have hsplit := List.takeWhile_append_dropWhile (p := isZoneChar) (l := rest)
      cases htail : rest.dropWhile isZoneChar with
      | nil =>
        rw [htail] at hrest
        exact absurd hrest.1 (by decide)
      | cons d tail =>
        have hd : ¬ isZoneChar d = true := by simp [not_of_dropWhile_eq_cons htail]
        rw [htail, hostAccepts_cons, (parseHostChar_zone d).2, if_neg hd] at hrest
        split_ifs at hrest with hbracket
        · obtain ⟨digits, hdigits⟩ := exists_digits_of_v6End hrest
          refine ⟨⟨⟨c :: rest.takeWhile isZoneChar, List.forall_mem_cons.mpr
            ⟨hc, (wordOf isZoneChar rest).chars⟩⟩, List.cons_ne_nil _ _⟩, digits, ?_⟩
          rw [List.cons_append, ← hdigits, ← hbracket, ← htail, hsplit]
        · exact absurd hrest (not_hostAccepts_dead tail)
    · exact absurd h (not_hostAccepts_dead rest)

/-- What is accepted behind the opening bracket of a v6 address. -/
theorem exists_v6_of_accepted {s : Bytes} (h : HostAccepts .hostV6Start s) :
    ∃ (address : Name isV6Char) (zone : Option (Name isZoneChar)) (digits : Option (Name isNum)),
      s = address.text ++ renderZone zone ++ char ']' :: renderPort digits := by
  cases s with
  | nil => exact absurd h.1 (by decide)
  | cons c rest =>
    rw [hostAccepts_cons, parseHostChar_hostV6Start] at h
    split_ifs at h with hc
    · have hloop : ∀ c : UInt8, isV6Char c = true → parseHostChar .hostV6 c = .hostV6 :=
        fun c hc ↦ by rw [parseHostChar_hostV6, if_pos hc]
      have hrest := (hostAccepts_dropWhile hloop rest).mp h
      have hsplit := List.takeWhile_append_dropWhile (p := isV6Char) (l := rest)
      let address : Name isV6Char := ⟨⟨c :: rest.takeWhile isV6Char, List.forall_mem_cons.mpr
        ⟨hc, (wordOf isV6Char rest).chars⟩⟩, List.cons_ne_nil _ _⟩
      cases htail : rest.dropWhile isV6Char with
      | nil =>
        rw [htail] at hrest
        exact absurd hrest.1 (by decide)
      | cons d tail =>
        have hd : ¬ isV6Char d = true := by simp [not_of_dropWhile_eq_cons htail]
        rw [htail] at hsplit
        rw [htail, hostAccepts_cons, parseHostChar_hostV6, if_neg hd] at hrest
        split_ifs at hrest with hbracket hpercent
        · obtain ⟨digits, hdigits⟩ := exists_digits_of_v6End hrest
          refine ⟨address, none, digits, ?_⟩
          rw [renderZone, Option.elim_none, List.append_nil, ← hdigits, ← hbracket]
          exact congrArg (c :: ·) hsplit.symm
        · obtain ⟨zone, digits, hzone⟩ := exists_zone_of_accepted hrest
          refine ⟨address, some zone, digits, ?_⟩
          rw [renderZone, Option.elim_some, List.append_assoc, List.cons_append,
            List.cons_append, ← hzone, ← hpercent]
          exact congrArg (c :: ·) hsplit.symm
        · exact absurd hrest (not_hostAccepts_dead tail)
    · exact absurd h (not_hostAccepts_dead rest)

/-- What is accepted where a host begins is a host, perhaps with a port. -/
theorem exists_host_of_accepted {s : Bytes} (h : HostAccepts .hostStart s) :
    ∃ (host : UrlHost) (digits : Option (Name isNum)), s = host.render ++ renderPort digits := by
  cases s with
  | nil => exact absurd h.1 (by decide)
  | cons c rest =>
    rw [hostAccepts_cons, parseHostChar_hostStart] at h
    split_ifs at h with hbracket hc
    · obtain ⟨address, zone, digits, hrest⟩ := exists_v6_of_accepted h
      refine ⟨.v6 address zone, digits, ?_⟩
      rw [UrlHost.render, hbracket, hrest, List.cons_append, List.append_assoc _ [char ']']]
      rfl
    · have hloop : ∀ c : UInt8, isHostChar c = true → parseHostChar .host c = .host :=
        fun c hc ↦ by rw [parseHostChar_host, if_pos hc]
      have hrest := (hostAccepts_dropWhile hloop rest).mp h
      have hsplit := List.takeWhile_append_dropWhile (p := isHostChar) (l := rest)
      let host : Name isHostChar := ⟨⟨c :: rest.takeWhile isHostChar, List.forall_mem_cons.mpr
        ⟨hc, (wordOf isHostChar rest).chars⟩⟩, List.cons_ne_nil _ _⟩
      cases htail : rest.dropWhile isHostChar with
      | nil =>
        refine ⟨.name host, none, ?_⟩
        rw [htail] at hsplit
        exact (congrArg (c :: ·) hsplit.symm)
      | cons d tail =>
        have hd : ¬ isHostChar d = true := by simp [not_of_dropWhile_eq_cons htail]
        rw [htail] at hsplit
        rw [htail, hostAccepts_cons, parseHostChar_host, if_neg hd] at hrest
        split_ifs at hrest with hcolon
        · obtain ⟨digits, hdigits⟩ := exists_digits_of_accepted hrest
          refine ⟨.name host, some digits, ?_⟩
          rw [renderPort, Option.elim_some, ← hdigits, ← hcolon]
          exact congrArg (c :: ·) hsplit.symm
        · exact absurd hrest (not_hostAccepts_dead tail)
    · exact absurd h (not_hostAccepts_dead rest)

/-- What is accepted where user information may stand is such a part, a host and perhaps a port. -/
theorem exists_userinfo_of_accepted {s : Bytes} (h : HostAccepts .userinfoStart s) :
    ∃ (userinfo : Word isUserinfoChar) (host : UrlHost) (digits : Option (Name isNum)),
      s = renderUserinfo (some userinfo) ++ host.render ++ renderPort digits := by
  have huserinfo : HostAccepts .userinfo s := by
    cases s with
    | nil => exact absurd h.1 (by decide)
    | cons c rest =>
      rw [hostAccepts_cons, (parseHostChar_userinfo c).1] at h
      exact h
  have hloop : ∀ c : UInt8, isUserinfoChar c = true → parseHostChar .userinfo c = .userinfo :=
    fun c hc ↦ by rw [(parseHostChar_userinfo c).2, if_pos hc]
  have hrest := (hostAccepts_dropWhile hloop s).mp huserinfo
  have hsplit := List.takeWhile_append_dropWhile (p := isUserinfoChar) (l := s)
  cases htail : s.dropWhile isUserinfoChar with
  | nil =>
    rw [htail] at hrest
    exact absurd hrest.1 (by decide)
  | cons d tail =>
    have hd : ¬ isUserinfoChar d = true := by simp [not_of_dropWhile_eq_cons htail]
    rw [htail] at hsplit
    rw [htail, hostAccepts_cons, (parseHostChar_userinfo d).2, if_neg hd] at hrest
    split_ifs at hrest with hat
    · obtain ⟨host, digits, hhost⟩ := exists_host_of_accepted hrest
      refine ⟨wordOf isUserinfoChar s, host, digits, ?_⟩
      refine hsplit.symm.trans ?_
      rw [hat, hhost, renderUserinfo, Option.elim_some, List.append_assoc, List.append_assoc]
      rfl
    · exact absurd hrest (not_hostAccepts_dead tail)

/-- **What the host parser accepts** is an authority. -/
theorem exists_authority_of_accepted (foundAt : Bool) {s : Bytes}
    (h : HostAccepts (if foundAt then .userinfoStart else .hostStart) s) :
    ∃ a : Authority, s = a.render := by
  cases foundAt with
  | true =>
    obtain ⟨userinfo, host, port, hs⟩ := exists_userinfo_of_accepted h
    exact ⟨⟨some userinfo, host, port⟩, hs⟩
  | false =>
    obtain ⟨host, port, hs⟩ := exists_host_of_accepted h
    exact ⟨⟨none, host, port⟩, hs⟩

end Maock.Http
