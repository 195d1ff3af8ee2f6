import Maock.Http.UrlGrammar

/-!
# The marks of the URL parser

The two passes of `http_parser_parse_url` over a URL that is written down, part by part. The loop of
the first one comes to the end and marks the schema, the whole server part as the host, the path,
the query and the fragment (`scanUrl_absolute`, `scanUrl_target`); the loop of the second one goes
over the server part and marks the user information, the host proper and the port
(`scanHost_authority`).
-/

set_option autoImplicit false
set_option relaxedAutoImplicit false

namespace Maock.Http

open Foundation Foundation.Bytes

/-! ### Marks -/

/-- A field set to a place and a length. -/
def HttpParserUrl.set (uf : UrlField) (off len : ℕ) (u : HttpParserUrl) : HttpParserUrl :=
  { u with field := Function.update u.field uf (some ⟨uint16 off, uint16 len⟩) }

/-- A field set to a text at a place, when it is not empty. -/
def HttpParserUrl.mark (uf : UrlField) (off : ℕ) (text : Bytes) (u : HttpParserUrl) :
    HttpParserUrl :=
  if text = [] then u else u.set uf off text.length

section Marks

variable {uf other : UrlField} (off len : ℕ) (u : HttpParserUrl)

theorem field_set : (u.set uf off len).field uf = some ⟨uint16 off, uint16 len⟩ :=
  Function.update_self _ _ _

theorem field_set_of_ne (hne : other ≠ uf) : (u.set uf off len).field other = u.field other :=
  Function.update_of_ne hne _ _

theorem set_set (off' len' : ℕ) : (u.set uf off len).set uf off' len' = u.set uf off' len' := by
  simp [HttpParserUrl.set]

theorem start_eq_set : u.start uf off = u.set uf off 1 := rfl

theorem extend_set : (u.set uf off len).extend uf = u.set uf off (len + 1) := by
  simp [HttpParserUrl.set, HttpParserUrl.extend, uint16]

theorem extendBy_set (n : ℕ) : (u.set uf off len).extendBy uf n = u.set uf off (len + n) := by
  induction n generalizing len with
  | zero => rfl
  | succ n ih => rw [HttpParserUrl.extendBy, extend_set, ih, Nat.add_right_comm, Nat.add_assoc]

theorem field_mark (text : Bytes) : (u.mark uf off text).field uf =
    if text = [] then u.field uf else some ⟨uint16 off, uint16 text.length⟩ := by
  unfold HttpParserUrl.mark
  split_ifs
  · rfl
  · exact field_set off text.length u

theorem field_mark_of_ne (hne : other ≠ uf) (text : Bytes) :
    (u.mark uf off text).field other = u.field other := by
  unfold HttpParserUrl.mark
  split_ifs
  · rfl
  · exact field_set_of_ne off text.length u hne

theorem mark_of_ne_nil {text : Bytes} (hne : text ≠ []) :
    u.mark uf off text = u.set uf off text.length :=
  if_neg hne

@[simp] theorem port_set : (u.set uf off len).port = u.port := rfl

@[simp] theorem port_mark (text : Bytes) : (u.mark uf off text).port = u.port := by
  unfold HttpParserUrl.mark
  split_ifs <;> rfl

end Marks

/-! ### The first pass -/

/-- The loop over a field that begins here. -/
theorem scanUrl_segment {st₀ st : UrlState} {uf : UrlField} {old : Option UrlField} {first : UInt8}
    {run : Bytes} (huf : st.uf = some uf) (hat : st ≠ .serverWithAt)
    (hfirst : parseUrlChar st₀ first = st) (hrun : ∀ c ∈ run, parseUrlChar st c = st)
    (hold : old ≠ some uf) (rest : Bytes) (position : ℕ) (foundAt : Bool) (u : HttpParserUrl) :
    scanUrl position ⟨st₀, old, foundAt, u⟩ (first :: run ++ rest) =
      scanUrl (position + (first :: run).length)
        ⟨st, some uf, foundAt, u.set uf position (first :: run).length⟩ rest := by
  have hdead : st ≠ .dead := by
    rintro rfl
    exact absurd huf (by simp [UrlState.uf])
  have henter : UrlScan.enter position st ⟨st₀, old, foundAt, u⟩ =
      ⟨st, some uf, foundAt, u.set uf position 1⟩ := by
    simp [UrlScan.enter, huf, hat, hold, start_eq_set]
  rw [List.cons_append, scanUrl_cons hfirst hdead, henter, scanUrl_run huf hat hrun, extendBy_set,
    List.length_cons, Nat.add_assoc, Nat.add_comm 1]

/-- The loop over a delimiter. -/
theorem scanUrl_delimiter {st₀ : UrlState} (st : UrlState) {c : UInt8} (huf : st.uf = none)
    (hdead : st ≠ .dead) (hc : parseUrlChar st₀ c = st) (rest : Bytes) (position : ℕ)
    (old : Option UrlField) (foundAt : Bool) (u : HttpParserUrl) :
    scanUrl position ⟨st₀, old, foundAt, u⟩ (c :: rest) =
      scanUrl (position + 1) ⟨st, old, foundAt, u⟩ rest := by
  have hat : (st == .serverWithAt) = false := by
    cases st with
    | serverWithAt => exact absurd huf (by simp [UrlState.uf])
    | _ => rfl
  have henter : UrlScan.enter position st ⟨st₀, old, foundAt, u⟩ = ⟨st, old, foundAt, u⟩ := by
    simp [UrlScan.enter, huf, hat]
  rw [scanUrl_cons hc hdead, henter]

/-- Where the fragment stands, from the end of the path on. -/
def UrlTail.fragmentOffset (tail : UrlTail) : ℕ :=
  (renderQuery tail.query).length + tail.fragment.elim 0 fun f ↦ f.hashes + 1

/-- What the loop marks in a tail. -/
def UrlTail.mark (position : ℕ) (tail : UrlTail) (u : HttpParserUrl) : HttpParserUrl :=
  (u.mark .query (position + 1) tail.queryText).mark .fragment (position + tail.fragmentOffset)
    tail.fragmentText

/-- The loop over a fragment. -/
theorem scanUrl_fragment (f : Fragment) {st : UrlState} (position : ℕ) {old : Option UrlField}
    (hold : old ≠ some .fragment) (foundAt : Bool) (u : HttpParserUrl)
    (hst : parseUrlChar st (char '#') = .fragmentStart) :
    ∃ st' old', scanUrl position ⟨st, old, foundAt, u⟩ f.render =
      (true, ⟨st', old', foundAt,
        u.mark .fragment (position + f.hashes + 1) f.word.text⟩) := by
  have hhashes : ∀ n position, scanUrl position ⟨.fragmentStart, old, foundAt, u⟩
      (List.replicate n (char '#') ++ f.word.text) =
        scanUrl (position + n) ⟨.fragmentStart, old, foundAt, u⟩ f.word.text := by
    intro n
    induction n with
    | zero => exact fun _ ↦ rfl
    | succ n ih =>
      intro position
      have hhash : parseUrlChar .fragmentStart (char '#') = .fragmentStart := by decide
      rw [List.replicate_succ, List.cons_append, scanUrl_delimiter _ rfl (by decide) hhash, ih,
        Nat.add_right_comm, Nat.add_assoc]
  rw [Fragment.render, List.replicate_succ, List.cons_append,
    scanUrl_delimiter _ rfl (by decide) hst, hhashes]
  have hchars := f.word.chars
  have hhead := f.head_ne
  cases htext : f.word.text with
  | nil => exact ⟨_, _, rfl⟩
  | cons c run =>
    rw [htext] at hchars hhead
    have hc := List.forall_mem_cons.mp hchars
    have hfirst : parseUrlChar .fragmentStart c = .fragment := by
      rw [parseUrlChar_fragmentStart, if_neg fun h ↦ hhead (congrArg some h), if_pos hc.1]
    have hrun : ∀ d ∈ run, parseUrlChar .fragment d = .fragment := by
      intro d hd
      rw [parseUrlChar_fragment, if_pos (hc.2 d hd)]
    have hsegment := scanUrl_segment rfl (by decide) hfirst hrun hold [] (position + 1 + f.hashes)
      foundAt u
    rw [List.append_nil] at hsegment
    refine ⟨.fragment, some .fragment, hsegment.trans ?_⟩
    rw [mark_of_ne_nil _ _ (List.cons_ne_nil c run), Nat.add_right_comm position]
    rfl

/-- The loop over a tail, from a state in which the path or the server part has ended with it. -/
theorem scanUrl_tail (tail : UrlTail) (st : UrlState) (position : ℕ) {old : Option UrlField}
    (hold : old ≠ some .query ∧ old ≠ some .fragment) (foundAt : Bool) (u : HttpParserUrl)
    (hquery : parseUrlChar st (char '?') = .queryStringStart)
    (hhash : tail.fragment.isSome = true → tail.query = none →
      parseUrlChar st (char '#') = .fragmentStart) :
    ∃ st' old', scanUrl position ⟨st, old, foundAt, u⟩ tail.render =
      (true, ⟨st', old', foundAt, tail.mark position u⟩) := by
  obtain ⟨query, fragment⟩ := tail
  cases query with
  | none =>
    cases fragment with
    | none => exact ⟨st, old, rfl⟩
    | some f =>
      obtain ⟨st', old', hend⟩ := scanUrl_fragment f position hold.2 foundAt u (hhash rfl rfl)
      refine ⟨st', old', hend.trans ?_⟩
      have hoffset : (UrlTail.mk none (some f)).fragmentOffset = f.hashes + 1 := Nat.zero_add _
      rw [UrlTail.mark, hoffset, ← Nat.add_assoc]
      rfl
  | some word =>
    obtain ⟨text, hchars⟩ := word
    have hstart : ∀ rest, scanUrl position ⟨st, old, foundAt, u⟩ (char '?' :: rest) =
        scanUrl (position + 1) ⟨.queryStringStart, old, foundAt, u⟩ rest := fun rest ↦
      scanUrl_delimiter _ rfl (by decide) hquery rest position old foundAt u
    have hstays : ∀ c : UInt8, isQueryChar c = true → parseUrlChar .queryString c = .queryString :=
      fun c hc ↦ by rw [parseUrlChar_queryString, if_pos hc]
    -- where the query ends, with its mark
    obtain ⟨st', old', hold', hhash', hscan⟩ : ∃ st' old', old' ≠ some UrlField.fragment ∧
        parseUrlChar st' (char '#') = .fragmentStart ∧ ∀ rest,
          scanUrl (position + 1) ⟨.queryStringStart, old, foundAt, u⟩ (text ++ rest) =
            scanUrl (position + 1 + text.length)
              ⟨st', old', foundAt, u.mark .query (position + 1) text⟩ rest := by
      cases text with
      | nil => exact ⟨.queryStringStart, old, hold.2, by decide, fun rest ↦ rfl⟩
      | cons c run =>
        have hc := List.forall_mem_cons.mp hchars
        have hfirst : parseUrlChar .queryStringStart c = .queryString :=
          (parseUrlChar_query c).1.trans (hstays c hc.1)
        refine ⟨.queryString, some .query, by decide, by decide, fun rest ↦ ?_⟩
        rw [mark_of_ne_nil _ _ (List.cons_ne_nil c run)]
        exact scanUrl_segment rfl (by decide) hfirst (fun d hd ↦ hstays d (hc.2 d hd)) hold.1 rest
          (position + 1) foundAt u
    have hrender : (UrlTail.mk (some ⟨text, hchars⟩) fragment).render =
        char '?' :: (text ++ fragment.elim [] Fragment.render) := rfl
    rw [hrender, hstart, hscan]
    cases fragment with
    | none => exact ⟨st', old', rfl⟩
    | some f =>
      obtain ⟨st'', old'', hend⟩ := scanUrl_fragment f (position + 1 + text.length) hold' foundAt
        (u.mark .query (position + 1) text) hhash'
      refine ⟨st'', old'', hend.trans ?_⟩
      have hoffset : (UrlTail.mk (some ⟨text, hchars⟩) (some f)).fragmentOffset =
          text.length + 1 + (f.hashes + 1) := rfl
      have hplace : position + 1 + text.length + f.hashes + 1 =
          position + (text.length + 1 + (f.hashes + 1)) := by
        omega
      rw [UrlTail.mark, hoffset, hplace]
      rfl

/-- The loop over the rest of a path and a tail. -/
theorem scanUrl_path (word : Word isUrlChar) (tail : UrlTail) {st : UrlState} {first : UInt8}
    (hfirst : parseUrlChar st first = .path) (position : ℕ) (old : Option UrlField)
    (hold : old ≠ some .path) (foundAt : Bool) (u : HttpParserUrl) :
    ∃ st' old', scanUrl position ⟨st, old, foundAt, u⟩ (first :: word.text ++ tail.render) =
      (true, ⟨st', old', foundAt, tail.mark (position + (first :: word.text).length)
        (u.set .path position (first :: word.text).length)⟩) := by
  have hrun : ∀ c ∈ word.text, parseUrlChar .path c = .path := by
    intro c hc
    rw [parseUrlChar_path, if_pos (word.chars c hc)]
  rw [scanUrl_segment rfl (by decide) hfirst hrun hold]
  exact scanUrl_tail tail _ _ ⟨by decide, by decide⟩ foundAt _ (by decide) fun _ _ ↦ by decide

/-- One byte of the server part. -/
theorem parseUrlChar_server {st : UrlState} (hst : st.isServer = true) {c : UInt8} {rest : Bytes}
    (hc : isServerChar c = true) (halive : Alive st (c :: rest)) :
    parseUrlChar st c = if c = char '@' then .serverWithAt else .server := by
  obtain hdead | hnext := parseUrlChar_isServer hst c
  · rw [alive_cons, hdead] at halive
    exact absurd halive (not_alive_dead rest)
  · rw [hnext, parseServerChar_eq, if_pos hc]

/-- The loop enters a state of the server part with a byte of the host. -/
theorem enter_server {st : UrlState} (c : UInt8) (position : ℕ) (old : Option UrlField)
    (foundAt : Bool) (u : HttpParserUrl) :
    UrlScan.enter position (if c = char '@' then .serverWithAt else .server)
        ⟨st, old, foundAt, u⟩ =
      ⟨if c = char '@' then .serverWithAt else .server, some .host, foundAt || c == char '@',
        if old = some .host then u.extend .host else u.start .host position⟩ := by
  by_cases hat : c = char '@'
  · rw [if_pos hat, hat]
    unfold UrlScan.enter
    simp only [UrlState.uf]
    split_ifs with hold
    · rw [hold]
      rfl
    · rfl
  · rw [if_neg hat, beq_eq_false_iff_ne.mpr hat]
    unfold UrlScan.enter
    simp only [UrlState.uf]
    split_ifs with hold
    · rw [hold]
      rfl
    · rfl

/-- The loop over bytes of the server part behind its first byte. -/
theorem scanUrl_serverRun {server : Bytes} {st : UrlState} (hst : st.isServer = true)
    (hchars : ∀ c ∈ server, isServerChar c = true) (halive : Alive st server) (rest : Bytes)
    (position : ℕ) (foundAt : Bool) (off len : ℕ) (u : HttpParserUrl) :
    scanUrl position ⟨st, some .host, foundAt, u.set .host off len⟩ (server ++ rest) =
      scanUrl (position + server.length) ⟨server.foldl parseUrlChar st, some .host,
        foundAt || server.contains (char '@'), u.set .host off (len + server.length)⟩ rest := by
  induction server generalizing st position foundAt len with
  | nil => simp
  | cons c server ih =>
    have hc := List.forall_mem_cons.mp hchars
    have hnext := parseUrlChar_server hst hc.1 halive
    have hstate : (parseUrlChar st c).isServer = true := by
      rw [hnext]
      split_ifs <;> rfl
    have hdead : parseUrlChar st c ≠ .dead := by
      rw [hnext]
      split_ifs <;> decide
    rw [List.cons_append, scanUrl_cons rfl hdead, List.foldl_cons]
    have henter : UrlScan.enter position (parseUrlChar st c)
        ⟨st, some .host, foundAt, u.set .host off len⟩ =
          ⟨parseUrlChar st c, some .host, foundAt || c == char '@',
            u.set .host off (len + 1)⟩ := by
      rw [hnext, enter_server, if_pos rfl, extend_set]
    rw [henter, ih hstate hc.2 halive, Bool.or_assoc, List.contains_cons,
      Bool.beq_comm (a := c), List.length_cons, Nat.add_right_comm, Nat.add_assoc,
      Nat.add_right_comm len, Nat.add_assoc len]

/-- The loop over the server part. -/
theorem scanUrl_server {server : Bytes} (hne : server ≠ [])
    (hchars : ∀ c ∈ server, isServerChar c = true) (halive : Alive .serverStart server)
    (rest : Bytes) (position : ℕ) {old : Option UrlField} (hold : old ≠ some .host)
    (u : HttpParserUrl) :
    scanUrl position ⟨.serverStart, old, false, u⟩ (server ++ rest) =
      scanUrl (position + server.length) ⟨server.foldl parseUrlChar .serverStart, some .host,
        server.contains (char '@'), u.set .host position server.length⟩ rest := by
  cases server with
  | nil => exact absurd rfl hne
  | cons c server =>
    have hc := List.forall_mem_cons.mp hchars
    have hstart : UrlState.serverStart.isServer = true := rfl
    have hnext := parseUrlChar_server hstart hc.1 halive
    have hstate : (parseUrlChar .serverStart c).isServer = true := by
      rw [hnext]
      split_ifs <;> rfl
    have hdead : parseUrlChar .serverStart c ≠ .dead := by
      rw [hnext]
      split_ifs <;> decide
    have henter : UrlScan.enter position (parseUrlChar .serverStart c)
        ⟨.serverStart, old, false, u⟩ =
          ⟨parseUrlChar .serverStart c, some .host, c == char '@', u.set .host position 1⟩ := by
      rw [hnext, enter_server, if_neg hold, start_eq_set, Bool.false_or]
    rw [List.cons_append, scanUrl_cons rfl hdead, henter, List.foldl_cons,
      scanUrl_serverRun hstate hc.2 halive, List.contains_cons, Bool.beq_comm (a := c),
      List.length_cons, Nat.add_right_comm, Nat.add_assoc, Nat.add_comm 1]

/-- The transitions out of the server part that lead on. -/
theorem parseUrlChar_behindServer {st : UrlState} (hst : st.isServer = true) :
    parseUrlChar st (char '/') = .path ∧ parseUrlChar st (char '?') = .queryStringStart := by
  cases st with
  | serverStart | server | serverWithAt => decide
  | _ => exact absurd hst (by decide)

/-- The fields of an absolute URL that the loop marks; `server` is what stands between the slashes
and the path. -/
def markAbsolute (schema server path : Bytes) (tail : UrlTail) : HttpParserUrl :=
  tail.mark (schema.length + 3 + server.length + path.length)
    (((HttpParserUrl.init.set .schema 0 schema.length).set .host (schema.length + 3)
      server.length).mark .path (schema.length + 3 + server.length) path)

/-- The loop over the schema and the slashes behind it. -/
theorem scanUrl_schema (schema : Name isAlpha) (rest : Bytes) :
    scanUrl 0 UrlScan.init (schema.text ++ (schemaEnd ++ rest)) =
      scanUrl (schema.text.length + 3) ⟨.serverStart, some .schema, false,
        HttpParserUrl.init.set .schema 0 schema.text.length⟩ rest := by
  obtain ⟨⟨letters, hletters⟩, hne⟩ := schema
  cases letters with
  | nil => exact absurd rfl hne
  | cons c run =>
    have hc := List.forall_mem_cons.mp hletters
    have hfirst : parseUrlChar .spacesBeforeUrl c = .schema := by
      rw [parseUrlChar_spacesBeforeUrl, if_neg (not_target_of_isAlpha hc.1), if_pos hc.1]
    have hrun : ∀ d ∈ run, parseUrlChar .schema d = .schema := by
      intro d hd
      rw [parseUrlChar_schema, if_pos (hc.2 d hd)]
    have hslashes : schemaEnd ++ rest = char ':' :: char '/' :: char '/' :: rest := rfl
    rw [UrlScan.init, hslashes, scanUrl_segment rfl (by decide) hfirst hrun (by decide),
      scanUrl_delimiter .schemaSlash rfl (by decide) (by decide),
      scanUrl_delimiter .schemaSlashSlash rfl (by decide) (by decide),
      scanUrl_delimiter .serverStart rfl (by decide) (by decide), Nat.zero_add]

/-- **The loop over an absolute URL** comes to its end and marks its parts. -/
theorem scanUrl_absolute (schema : Name isAlpha) {server : Bytes} (hne : server ≠ [])
    (hchars : ∀ c ∈ server, isServerChar c = true) (halive : Alive .serverStart server)
    (path : Option (Word isUrlChar)) (tail : UrlTail)
    (hfragment : path = none → tail.fragment.isSome = true → tail.query.isSome = true) :
    ∃ st old, scanUrl 0 UrlScan.init
        (schema.text ++ schemaEnd ++ server ++ renderPath path ++ tail.render) =
      (true, ⟨st, old, server.contains (char '@'),
        markAbsolute schema.text server (renderPath path) tail⟩) := by
  have hstart : UrlState.serverStart.isServer = true := rfl
  have hstate := isServer_foldl hstart hchars halive
  have hbehind := parseUrlChar_behindServer hstate
  simp only [List.append_assoc]
  rw [scanUrl_schema, scanUrl_server hne hchars halive _ _ (by decide)]
  cases path with
  | none =>
    refine scanUrl_tail tail _ _ ⟨by decide, by decide⟩ _ _ hbehind.2 fun hsome hnone ↦ ?_
    exact absurd (hfragment rfl hsome) (by simp [hnone])
  | some word =>
    have hpath : renderPath (some word) = char '/' :: word.text := rfl
    rw [markAbsolute, hpath, mark_of_ne_nil _ _ (List.cons_ne_nil _ _)]
    exact scanUrl_path word tail hbehind.1 _ _ (by decide) _ _

/-- **The loop over a request target** comes to its end and marks its parts. -/
theorem scanUrl_target {first : UInt8} (hfirst : first = char '/' ∨ first = char '*')
    (path : Word isUrlChar) (tail : UrlTail) :
    ∃ st old, scanUrl 0 UrlScan.init (first :: path.text ++ tail.render) =
      (true, ⟨st, old, false, tail.mark (first :: path.text).length
        (HttpParserUrl.init.set .path 0 (first :: path.text).length)⟩) := by
  have hpath : parseUrlChar .spacesBeforeUrl first = .path := by
    rw [parseUrlChar_spacesBeforeUrl, if_pos hfirst]
  obtain ⟨st, old, hscan⟩ := scanUrl_path path tail hpath 0 none (by decide) false
    HttpParserUrl.init
  rw [Nat.zero_add] at hscan
  exact ⟨st, old, hscan⟩

/-! ### The second pass -/

/-- The loop of the host parser over bytes that only make a field longer. -/
theorem scanHost_run {st : HostState} {uf : UrlField} {run : Bytes}
    (hstep : ∀ c ∈ run, ∀ (position : ℕ) (u : HttpParserUrl) (rest : Bytes),
      scanHost position st u (c :: rest) = scanHost (position + 1) st (u.extend uf) rest)
    (position : ℕ) (u : HttpParserUrl) (rest : Bytes) :
    scanHost position st u (run ++ rest) =
      scanHost (position + run.length) st (u.extendBy uf run.length) rest := by
  induction run generalizing position u with
  | nil => rfl
  | cons c run ih =>
    rw [List.cons_append, hstep c List.mem_cons_self,
      ih (fun d hd ↦ hstep d (List.mem_cons_of_mem c hd)), List.length_cons, Nat.add_right_comm,
      Nat.add_assoc]
    rfl

/-- A part that begins here, with its first byte. -/
theorem enterPart_new (uf : UrlField) (position : ℕ) (u : HttpParserUrl) :
    u.enterPart uf true position = u.set uf position 1 := by
  have hbegun : { u with field := Function.update u.field uf (some ⟨uint16 position, 0⟩) } =
      u.set uf position 0 := rfl
  rw [HttpParserUrl.enterPart, if_pos rfl, hbegun, extend_set]

/-- The host proper begins here, with its first byte. -/
theorem enterHost_new (position off : ℕ) {u : HttpParserUrl}
    (hhost : u.field .host = some ⟨off, 0⟩) :
    u.enterHost true position = u.set .host position 1 := by
  have hbegun : u.enterHost true position = (u.set .host position 0).extend .host := by
    rw [HttpParserUrl.enterHost, if_pos rfl, hhost]
    rfl
  rw [hbegun, extend_set]

/-- The host parser over the user information. -/
theorem scanHost_userinfo (word : Word isUserinfoChar) (position : ℕ) (u : HttpParserUrl)
    (rest : Bytes) :
    scanHost position .userinfoStart u (word.text ++ char '@' :: rest) =
      scanHost (position + word.text.length + 1) .hostStart (u.mark .userinfo position word.text)
        rest := by
  have hchar : ∀ (st : HostState) (c : UInt8) (position : ℕ) (u : HttpParserUrl) (rest : Bytes),
      isUserinfoChar c = true → st = .userinfoStart ∨ st = .userinfo →
        scanHost position st u (c :: rest) = scanHost (position + 1) .userinfo
          (u.enterPart .userinfo (st != .userinfo) position) rest := by
    intro st c position u rest hc hst
    have hnext : parseHostChar st c = .userinfo := by
      have huserinfo := (parseHostChar_userinfo c).2
      rw [if_pos hc] at huserinfo
      rcases hst with rfl | rfl
      · exact (parseHostChar_userinfo c).1.trans huserinfo
      · exact huserinfo
    rw [scanHost, hnext]
  have hat : ∀ (st : HostState) (position : ℕ) (u : HttpParserUrl),
      st = .userinfoStart ∨ st = .userinfo →
        scanHost position st u (char '@' :: rest) = scanHost (position + 1) .hostStart u rest := by
    intro st position u hst
    rcases hst with rfl | rfl <;> rfl
  obtain ⟨text, hchars⟩ := word
  cases text with
  | nil => exact hat _ _ _ (Or.inl rfl)
  | cons c run =>
    have hc := List.forall_mem_cons.mp hchars
    rw [List.cons_append, hchar _ c _ _ _ hc.1 (Or.inl rfl)]
    show scanHost _ _ (u.enterPart .userinfo true position) _ = _
    rw [enterPart_new, scanHost_run fun d hd position u rest ↦
        hchar _ d position u rest (hc.2 d hd) (Or.inr rfl),
      extendBy_set, hat _ _ _ (Or.inr rfl), mark_of_ne_nil _ _ (List.cons_ne_nil c run),
      List.length_cons, Nat.add_right_comm position, Nat.add_assoc position, Nat.add_comm 1]

/-- The host parser over the digits of a port. -/
theorem scanHost_port (digits : Name isNum) (position : ℕ) (u : HttpParserUrl) :
    scanHost position .portStart u digits.text =
      (true, .port, u.set .port position digits.text.length) := by
  have hchar : ∀ (st : HostState) (c : UInt8) (position : ℕ) (u : HttpParserUrl) (rest : Bytes),
      isNum c = true → st = .portStart ∨ st = .port →
        scanHost position st u (c :: rest) = scanHost (position + 1) .port
          (u.enterPart .port (st != .port) position) rest := by
    intro st c position u rest hc hst
    have hnext : parseHostChar st c = .port := by
      have hport := (parseHostChar_port c).2
      rw [if_pos hc] at hport
      rcases hst with rfl | rfl
      · exact (parseHostChar_port c).1.trans hport
      · exact hport
    rw [scanHost, hnext]
  obtain ⟨⟨text, hchars⟩, hne⟩ := digits
  cases text with
  | nil => exact absurd rfl hne
  | cons c run =>
    have hc := List.forall_mem_cons.mp hchars
    have hlonger : ∀ d ∈ run, ∀ (position : ℕ) (u : HttpParserUrl) (rest : Bytes),
        scanHost position .port u (d :: rest) =
          scanHost (position + 1) .port (u.extend .port) rest := fun d hd position u rest ↦
      hchar .port d position u rest (hc.2 d hd) (Or.inr rfl)
    have hrun := scanHost_run hlonger (position + 1) (u.set .port position 1) []
    rw [List.append_nil] at hrun
    show scanHost _ _ _ (c :: run) = _
    rw [hchar _ c _ _ _ hc.1 (Or.inl rfl)]
    show scanHost _ _ (u.enterPart .port true position) _ = _
    rw [enterPart_new, hrun, extendBy_set, Nat.add_comm 1]
    rfl

/-- What the host parser makes of the end of a host. -/
theorem scanHost_portPart {st : HostState} (hst : st = .host ∨ st = .hostV6End)
    (port : Option (Name isNum)) (position : ℕ) (u : HttpParserUrl) :
    ∃ st', st'.isFinal = true ∧ scanHost position st u (renderPort port) =
      (true, st', u.mark .port (position + 1) (port.elim [] fun digits ↦ digits.text)) := by
  cases port with
  | none =>
    refine ⟨st, ?_, rfl⟩
    rcases hst with rfl | rfl <;> rfl
  | some digits =>
    have hcolon : parseHostChar st (char ':') = .portStart := by
      rcases hst with rfl | rfl <;> decide
    refine ⟨.port, rfl, ?_⟩
    show scanHost position st u (char ':' :: digits.text) = _
    rw [scanHost, hcolon]
    show scanHost (position + 1) .portStart u digits.text = _
    rw [scanHost_port, Option.elim_some, mark_of_ne_nil _ _ digits.ne_nil]

/-- The host parser over a name. -/
theorem scanHost_name (host : Name isHostChar) {position off : ℕ} {u : HttpParserUrl}
    (hhost : u.field .host = some ⟨off, 0⟩) (rest : Bytes) :
    scanHost position .hostStart u (host.text ++ rest) =
      scanHost (position + host.text.length) .host (u.set .host position host.text.length)
        rest := by
  have hchar : ∀ (c : UInt8) (position : ℕ) (u : HttpParserUrl) (rest : Bytes),
      isHostChar c = true → scanHost position .host u (c :: rest) =
        scanHost (position + 1) .host (u.extend .host) rest := by
    intro c position u rest hc
    rw [scanHost, parseHostChar_host, if_pos hc]
    rfl
  obtain ⟨⟨text, hchars⟩, hne⟩ := host
  cases text with
  | nil => exact absurd rfl hne
  | cons c run =>
    have hc := List.forall_mem_cons.mp hchars
    have hfirst : parseHostChar .hostStart c = .host := by
      rw [parseHostChar_hostStart, if_neg ((delimiters_of_host c).2.1 hc.1), if_pos hc.1]
    rw [List.cons_append, scanHost, hfirst]
    show scanHost _ _ (u.enterHost true position) _ = _
    rw [enterHost_new position off hhost,
      scanHost_run fun d hd position u rest ↦ hchar d position u rest (hc.2 d hd), extendBy_set,
      List.length_cons, Nat.add_right_comm, Nat.add_assoc, Nat.add_comm 1]

/-- The host parser over the zone of a v6 address and the bracket behind it. -/
theorem scanHost_zone (zone : Option (Name isZoneChar)) (position : ℕ) (u : HttpParserUrl)
    (rest : Bytes) :
    scanHost position .hostV6 u (renderZone zone ++ char ']' :: rest) =
      scanHost (position + (renderZone zone).length + 1) .hostV6End
        (u.extendBy .host (renderZone zone).length) rest := by
  have hchar : ∀ (st : HostState) (c : UInt8) (position : ℕ) (u : HttpParserUrl) (rest : Bytes),
      isZoneChar c = true → st = .hostV6ZoneStart ∨ st = .hostV6Zone →
        scanHost position st u (c :: rest) =
          scanHost (position + 1) .hostV6Zone (u.extend .host) rest := by
    intro st c position u rest hc hst
    have hnext : parseHostChar st c = .hostV6Zone := by
      rcases hst with rfl | rfl
      · exact (parseHostChar_zone c).1.trans (if_pos hc)
      · exact (parseHostChar_zone c).2.trans (if_pos hc)
    rw [scanHost, hnext]
  cases zone with
  | none => rfl
  | some name =>
    obtain ⟨⟨text, hchars⟩, hne⟩ := name
    cases text with
    | nil => exact absurd rfl hne
    | cons c run =>
      have hc := List.forall_mem_cons.mp hchars
      show scanHost position .hostV6 u (char '%' :: c :: (run ++ char ']' :: rest)) = _
      have hpercent : parseHostChar .hostV6 (char '%') = .hostV6ZoneStart := by decide
      rw [scanHost, hpercent]
      show scanHost (position + 1) .hostV6ZoneStart (u.extend .host)
        (c :: (run ++ char ']' :: rest)) = _
      rw [hchar _ c _ _ _ hc.1 (Or.inl rfl), scanHost_run fun d hd position u rest ↦
        hchar _ d position u rest (hc.2 d hd) (Or.inr rfl)]
      have hlength : (renderZone (some ⟨⟨c :: run, hchars⟩, hne⟩)).length = run.length + 2 := rfl
      have hplace : position + (run.length + 2) + 1 = position + 1 + 1 + run.length + 1 := by
        omega
      rw [hlength, hplace]
      rfl

/-- The host parser over a v6 address. -/
theorem scanHost_v6 (address : Name isV6Char) (zone : Option (Name isZoneChar)) {position off : ℕ}
    {u : HttpParserUrl} (hhost : u.field .host = some ⟨off, 0⟩) (rest : Bytes) :
    scanHost position .hostStart u ((UrlHost.v6 address zone).render ++ rest) =
      scanHost (position + (UrlHost.v6 address zone).render.length) .hostV6End
        (u.set .host (position + 1) (UrlHost.v6 address zone).text.length) rest := by
  have hchar : ∀ (c : UInt8) (position : ℕ) (u : HttpParserUrl) (rest : Bytes),
      isV6Char c = true → scanHost position .hostV6 u (c :: rest) =
        scanHost (position + 1) .hostV6 (u.extend .host) rest := by
    intro c position u rest hc
    rw [scanHost, parseHostChar_hostV6, if_pos hc]
    rfl
  obtain ⟨⟨text, hchars⟩, hne⟩ := address
  cases text with
  | nil => exact absurd rfl hne
  | cons c run =>
    have hc := List.forall_mem_cons.mp hchars
    have hrender : (UrlHost.v6 ⟨⟨c :: run, hchars⟩, hne⟩ zone).render ++ rest =
        char '[' :: c :: (run ++ (renderZone zone ++ char ']' :: rest)) := by
      simp [UrlHost.render]
    have hlength : (UrlHost.v6 ⟨⟨c :: run, hchars⟩, hne⟩ zone).render.length =
        run.length + (renderZone zone).length + 3 := by
      simp [UrlHost.render]
      omega
    have htext : (UrlHost.v6 ⟨⟨c :: run, hchars⟩, hne⟩ zone).text.length =
        1 + run.length + (renderZone zone).length := by
      simp [UrlHost.text]
      omega
    have hfirst : parseHostChar .hostV6Start c = .hostV6 :=
      (parseHostChar_hostV6Start c).trans (if_pos hc.1)
    have hbracket : parseHostChar .hostStart (char '[') = .hostV6Start := by decide
    rw [hrender, hlength, htext, scanHost, hbracket]
    show scanHost (position + 1) .hostV6Start u _ = _
    rw [scanHost, hfirst]
    show scanHost _ _ (u.enterHost true (position + 1)) _ = _
    have hplace : position + 1 + 1 + run.length + (renderZone zone).length + 1 =
        position + (run.length + (renderZone zone).length + 3) := by
      omega
    rw [enterHost_new (position + 1) off hhost, scanHost_run fun d hd position u rest ↦
      hchar d position u rest (hc.2 d hd), scanHost_zone, extendBy_set, extendBy_set, hplace]

/-- How many bytes stand in front of the host as a field: the bracket of a v6 address. -/
def UrlHost.bracket : UrlHost → ℕ
  | .name _ => 0
  | .v6 _ _ => 1

/-- The host parser over a host. -/
theorem scanHost_host (host : UrlHost) (position : ℕ) {off : ℕ} {u : HttpParserUrl}
    (hhost : u.field .host = some ⟨off, 0⟩) (rest : Bytes) :
    ∃ st, (st = .host ∨ st = .hostV6End) ∧
      scanHost position .hostStart u (host.render ++ rest) =
        scanHost (position + host.render.length) st
          (u.set .host (position + host.bracket) host.text.length) rest := by
  cases host with
  | name host => exact ⟨.host, Or.inl rfl, scanHost_name host hhost rest⟩
  | v6 address zone => exact ⟨.hostV6End, Or.inr rfl, scanHost_v6 address zone hhost rest⟩

/-- Where the parts of an authority stand, from its beginning on. -/
def Authority.hostOffset (a : Authority) : ℕ :=
  (renderUserinfo a.userinfo).length + a.host.bracket

def Authority.portOffset (a : Authority) : ℕ :=
  (renderUserinfo a.userinfo).length + a.host.render.length + 1

/-- What the host parser marks. -/
def Authority.mark (a : Authority) (position : ℕ) (u : HttpParserUrl) : HttpParserUrl :=
  ((u.mark .userinfo position (a.userinfoText)).set .host (position + a.hostOffset)
    a.host.text.length).mark .port (position + a.portOffset)
      a.portText

/-- **The host parser over an authority** comes to its end, in a state in which a host may end, and
marks the parts. -/
theorem scanHost_authority (a : Authority) (position : ℕ) {off : ℕ} {u : HttpParserUrl}
    (hhost : u.field .host = some ⟨off, 0⟩) :
    ∃ st, st.isFinal = true ∧
      scanHost position (if a.userinfo.isSome then .userinfoStart else .hostStart) u a.render =
        (true, st, a.mark position u) := by
  obtain ⟨userinfo, host, port⟩ := a
  cases userinfo with
  | none =>
    obtain ⟨st, hst, hscan⟩ := scanHost_host host position hhost (renderPort port)
    obtain ⟨st', hfinal, hport⟩ := scanHost_portPart hst port (position + host.render.length)
      (u.set .host (position + host.bracket) host.text.length)
    refine ⟨st', hfinal, ?_⟩
    simp only [Authority.render, Authority.mark, Authority.hostOffset, Authority.portOffset,
      renderUserinfo, Option.elim_none, List.nil_append, List.length_nil, Nat.zero_add]
    rw [if_neg (by decide), hscan, hport, Nat.add_assoc]
    rfl
  | some word =>
    have hkept : (u.mark .userinfo position word.text).field .host = some ⟨off, 0⟩ := by
      rw [field_mark_of_ne _ _ (by decide), hhost]
    obtain ⟨st, hst, hscan⟩ := scanHost_host host (position + word.text.length + 1)
      hkept (renderPort port)
    obtain ⟨st', hfinal, hport⟩ := scanHost_portPart hst port
      (position + word.text.length + 1 + host.render.length)
      ((u.mark .userinfo position word.text).set .host
        (position + word.text.length + 1 + host.bracket) host.text.length)
    refine ⟨st', hfinal, ?_⟩
    have hrender : (Authority.mk (some word) host port).render =
        word.text ++ char '@' :: (host.render ++ renderPort port) := by
      simp [Authority.render, renderUserinfo]
    have hlength : (renderUserinfo (some word)).length = word.text.length + 1 := by
      simp [renderUserinfo]
    show scanHost position .userinfoStart u (Authority.mk (some word) host port).render = _
    rw [hrender, scanHost_userinfo, hscan, hport]
    simp only [Authority.mark, Authority.hostOffset, Authority.portOffset, hlength, Nat.add_assoc]
    rfl

end Maock.Http
