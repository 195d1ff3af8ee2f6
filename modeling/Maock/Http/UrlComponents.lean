import Maock.Http.UrlMarks

/-!
# The components of a URL

What `http_parser_parse_url` makes of a URL that is written down: it accepts it, and its data are
the components that are not empty with the places where they stand, and the number of the port
(`httpParserParseUrl_render`). With the first half of the grammar, `url_grammar`: the parser accepts
a string of fewer than `2 ^ 16` bytes if and only if it is a `Url` written down, and
`get_uri_field` gives the components of that `Url`.
-/

set_option autoImplicit false
set_option relaxedAutoImplicit false

namespace Maock.Http

open Foundation Foundation.Bytes

/-! ### Authorities as server parts -/

theorem isServerChar_of_part : ∀ c : UInt8,
    (isUserinfoChar c = true ∨ isHostChar c = true ∨ isV6Char c = true ∨ isZoneChar c = true ∨
      isNum c = true ∨ c = char '[' ∨ c = char ']' ∨ c = char '%' ∨ c = char ':') →
        isServerChar c = true ∧ c ≠ char '@' :=
  forall_byte (by decide +kernel)

theorem isServerChar_of_userinfo {c : UInt8} (hc : isUserinfoChar c = true) :
    isServerChar c = true ∧ c ≠ char '@' :=
  isServerChar_of_part c (Or.inl hc)

theorem isServerChar_of_host (host : UrlHost) :
    ∀ c ∈ host.render, isServerChar c = true ∧ c ≠ char '@' := by
  intro c hc
  apply isServerChar_of_part
  cases host with
  | name host => exact Or.inr (Or.inl (host.chars c hc))
  | v6 address zone =>
    cases zone with
    | none =>
      simp only [UrlHost.render, renderZone, Option.elim_none, List.append_nil, List.mem_cons,
        List.mem_append, List.not_mem_nil, or_false] at hc
      have haddress := address.chars c
      tauto
    | some zone =>
      simp only [UrlHost.render, renderZone, Option.elim_some, List.mem_cons, List.mem_append,
        List.not_mem_nil, or_false] at hc
      have haddress := address.chars c
      have hzone := zone.chars c
      tauto

theorem isServerChar_of_port (port : Option (Name isNum)) :
    ∀ c ∈ renderPort port, isServerChar c = true ∧ c ≠ char '@' := by
  intro c hc
  apply isServerChar_of_part
  cases port with
  | none => exact absurd hc List.not_mem_nil
  | some digits =>
    rcases List.mem_cons.mp hc with hcolon | hdigit
    · tauto
    · have hnum := digits.chars c hdigit
      tauto

/-- Without an `@` the parser stays in the server part. -/
theorem alive_of_no_at {st : UrlState} (hst : st.isServer = true) {s : Bytes}
    (hchars : ∀ c ∈ s, isServerChar c = true ∧ c ≠ char '@') :
    Alive st s ∧ (s ≠ [] → s.foldl parseUrlChar st = .server) := by
  have hdead : st ≠ .dead := by
    rintro rfl
    exact absurd hst (by decide)
  induction s generalizing st with
  | nil => exact ⟨hdead, fun h ↦ absurd rfl h⟩
  | cons c s ih =>
    have hc := List.forall_mem_cons.mp hchars
    have hnext : parseUrlChar st c = .server := by
      have hserver : parseServerChar c = .server := by
        rw [parseServerChar_eq, if_pos hc.1.1, if_neg hc.1.2]
      have hspace : ¬ isDeadChar c = true := fun hdead ↦
        absurd hc.1.1 (by simp [(classes_of_isDeadChar c hdead).2.1])
      unfold parseUrlChar
      rw [if_neg hspace]
      cases st with
      | serverStart | server => exact hserver
      | serverWithAt => exact (if_neg hc.1.2).trans hserver
      | _ => exact absurd hst (by decide)
    rw [alive_cons, List.foldl_cons, hnext]
    have hserver : UrlState.server.isServer = true := rfl
    have hrest := ih hserver hc.2 (by decide)
    refine ⟨hrest.1, fun _ ↦ ?_⟩
    by_cases hs : s = []
    · rw [hs]
      rfl
    · exact hrest.2 hs

theorem contains_at_of_no_at {s : Bytes}
    (hchars : ∀ c ∈ s, isServerChar c = true ∧ c ≠ char '@') : s.contains (char '@') = false := by
  simpa using fun h ↦ (hchars _ h).2 rfl

/-- An authority is a server part: it is not empty, consists of bytes of the server part, the
parser survives it, and it has an `@` where it has user information. -/
theorem server_of_authority (a : Authority) :
    a.render ≠ [] ∧ (∀ c ∈ a.render, isServerChar c = true) ∧ Alive .serverStart a.render ∧
      a.render.contains (char '@') = a.userinfo.isSome := by
  have hbehind : ∀ c ∈ a.host.render ++ renderPort a.port,
      isServerChar c = true ∧ c ≠ char '@' := by
    intro c hc
    rcases List.mem_append.mp hc with hhost | hport
    · exact isServerChar_of_host a.host c hhost
    · exact isServerChar_of_port a.port c hport
  have hne : a.host.render ++ renderPort a.port ≠ [] := by
    have hhost : a.host.render ≠ [] := by
      cases a.host with
      | name host => exact host.ne_nil
      | v6 address zone => exact List.cons_ne_nil _ _
    exact List.append_ne_nil_of_left_ne_nil hhost _
  have hrender : a.render = renderUserinfo a.userinfo ++ (a.host.render ++ renderPort a.port) :=
    List.append_assoc _ _ _
  rw [hrender]
  cases a.userinfo with
  | none =>
    exact ⟨hne, fun c hc ↦ (hbehind c hc).1, (alive_of_no_at rfl hbehind).1,
      contains_at_of_no_at hbehind⟩
  | some word =>
    have hword : ∀ c ∈ word.text, isServerChar c = true ∧ c ≠ char '@' := fun c hc ↦
      isServerChar_of_userinfo (word.chars c hc)
    have hsplit : renderUserinfo (some word) ++ (a.host.render ++ renderPort a.port) =
        word.text ++ char '@' :: (a.host.render ++ renderPort a.port) := by
      simp [renderUserinfo]
    rw [hsplit]
    refine ⟨by simp, fun c hc ↦ ?_, ?_, ?_⟩
    · rcases List.mem_append.mp hc with hc | hc
      · exact (hword c hc).1
      · rcases List.mem_cons.mp hc with rfl | hc
        · decide
        · exact (hbehind c hc).1
    · have hat : parseUrlChar (word.text.foldl parseUrlChar .serverStart) (char '@') =
          .serverWithAt := by
        by_cases hempty : word.text = []
        · rw [hempty]
          decide
        · rw [(alive_of_no_at rfl hword).2 hempty]
          decide
      rw [Alive, List.foldl_append, List.foldl_cons, hat]
      exact (alive_of_no_at rfl hbehind).1
    · simp

/-! ### The number of the port -/

theorem le_foldl_port (digits : Bytes) (v : ℕ) :
    v ≤ digits.foldl (fun v ch ↦ v * 10 + (ch.toNat - (char '0').toNat)) v := by
  induction digits generalizing v with
  | nil => exact Nat.le_refl v
  | cons c digits ih =>
    refine Nat.le_trans ?_ (ih _)
    exact (Nat.le_mul_of_pos_right v (by decide)).trans (Nat.le_add_right _ _)

/-- The port number is the value of the digits, as long as it fits into 16 bits. -/
theorem portNumber_eq_some_iff (digits : Bytes) {v value : ℕ} (hv : v ≤ 0xffff) :
    portNumber digits v = some value ↔
      digits.foldl (fun v ch ↦ v * 10 + (ch.toNat - (char '0').toNat)) v = value ∧
        value ≤ 0xffff := by
  induction digits generalizing v with
  | nil =>
    rw [portNumber, Option.some_inj]
    exact ⟨fun h ↦ ⟨h, h ▸ hv⟩, fun h ↦ h.1⟩
  | cons c digits ih =>
    simp only [portNumber, List.foldl_cons]
    split_ifs with hover
    · have hle := le_foldl_port digits (v * 10 + (c.toNat - (char '0').toNat))
      refine iff_of_false False.elim fun h ↦ ?_
      rw [h.1] at hle
      exact absurd (hle.trans h.2) (Nat.not_le_of_lt hover)
    · exact ih (Nat.le_of_not_lt hover)

/-- The number of a port, if it fits. -/
theorem portNumber_eq (digits : Bytes) :
    portNumber digits 0 = if portValue digits ≤ 0xffff then some (portValue digits) else none := by
  split_ifs with hvalue
  · exact (portNumber_eq_some_iff digits (Nat.zero_le _)).mpr ⟨rfl, hvalue⟩
  · rw [Option.eq_none_iff_forall_ne_some]
    intro value hsome
    obtain ⟨hfold, hle⟩ := (portNumber_eq_some_iff digits (Nat.zero_le _)).mp hsome
    exact hvalue (Nat.le_trans (Nat.le_of_eq hfold) hle)

/-! ### The data of a URL -/

/-- Where a field stands. -/
def Url.offset : Url → UrlField → ℕ
  | .target _ _ path tail, field =>
    match field with
    | .query => path.text.length + 2
    | .fragment => path.text.length + 1 + tail.fragmentOffset
    | _ => 0
  | .absolute schema authority path tail _, field =>
    let server := schema.text.length + 3
    let behind := server + authority.render.length
    let pathEnd := behind + (renderPath path).length
    match field with
    | .schema => 0
    | .userinfo => server
    | .host => server + authority.hostOffset
    | .port => server + authority.portOffset
    | .path => behind
    | .query => pathEnd + 1
    | .fragment => pathEnd + tail.fragmentOffset

/-- The data of a URL: the places of the components that are not empty, and the number of the port
if it fits into 16 bits. -/
def Url.parsed (url : Url) : HttpParserUrl where
  port := if url.port ≤ 0xffff then url.port else 0
  field f :=
    if url.component f = [] then none
    else some ⟨url.offset f, (url.component f).length⟩

/-- The host as a field stands in the host. -/
theorem UrlHost.exists_split (host : UrlHost) :
    ∃ before behind, host.render = before ++ (host.text ++ behind) ∧
      before.length = host.bracket := by
  cases host with
  | name host => exact ⟨[], [], by simp [UrlHost.render, UrlHost.text], rfl⟩
  | v6 address zone => exact ⟨[char '['], [char ']'], rfl, rfl⟩

/-- The parts of an authority stand at their offsets. -/
theorem Authority.exists_split (a : Authority) :
    (a.userinfoText ≠ [] → ∃ behind, a.render = a.userinfoText ++ behind) ∧
      (∃ before behind, a.render = before ++ (a.host.text ++ behind) ∧
        before.length = a.hostOffset) ∧
      (a.portText ≠ [] → ∃ before, a.render = before ++ a.portText ∧
        before.length = a.portOffset) := by
  obtain ⟨userinfo, host, port⟩ := a
  refine ⟨fun hne ↦ ?_, ?_, fun hne ↦ ?_⟩
  · cases userinfo with
    | none => exact absurd rfl hne
    | some word =>
      exact ⟨char '@' :: (host.render ++ renderPort port),
        by simp [Authority.render, renderUserinfo, Authority.userinfoText]⟩
  · obtain ⟨before, behind, hhost, hlength⟩ := host.exists_split
    refine ⟨renderUserinfo userinfo ++ before, behind ++ renderPort port, ?_, ?_⟩
    · simp [Authority.render, hhost]
    · rw [List.length_append, hlength]
      rfl
  · cases port with
    | none => exact absurd rfl hne
    | some port =>
      refine ⟨renderUserinfo userinfo ++ host.render ++ [char ':'], ?_, ?_⟩
      · simp [Authority.render, renderPort, Authority.portText]
      · simp [Authority.portOffset, Nat.add_assoc]

/-- The query and the fragment stand at their offsets behind the path. -/
theorem UrlTail.exists_split (front : Bytes) (tail : UrlTail) :
    (tail.queryText ≠ [] → ∃ before behind,
      front ++ tail.render = before ++ (tail.queryText ++ behind) ∧
        before.length = front.length + 1) ∧
      (tail.fragmentText ≠ [] → ∃ before, front ++ tail.render = before ++ tail.fragmentText ∧
        before.length = front.length + tail.fragmentOffset) := by
  obtain ⟨query, fragment⟩ := tail
  refine ⟨fun hne ↦ ?_, fun hne ↦ ?_⟩
  · cases query with
    | none => exact absurd rfl hne
    | some word =>
      refine ⟨front ++ [char '?'], fragment.elim [] Fragment.render, ?_, by simp⟩
      simp [UrlTail.render, renderQuery, UrlTail.queryText]
  · cases fragment with
    | none => exact absurd rfl hne
    | some f =>
      refine ⟨front ++ renderQuery query ++ List.replicate (f.hashes + 1) (char '#'), ?_, ?_⟩
      · simp [UrlTail.render, UrlTail.fragmentText, Fragment.render]
      · simp [UrlTail.fragmentOffset]

/-- A component that is not empty stands at its offset. -/
theorem Url.exists_split (url : Url) {f : UrlField} (hne : url.component f ≠ []) :
    ∃ before behind, url.render = before ++ (url.component f ++ behind) ∧
      before.length = url.offset f := by
  cases url with
  | target first hfirst path tail =>
    cases f with
    | path => exact ⟨[], tail.render, rfl, rfl⟩
    | query => exact (tail.exists_split (first :: path.text)).1 hne
    | fragment =>
      obtain ⟨before, hsplit, hlength⟩ := (tail.exists_split (first :: path.text)).2 hne
      exact ⟨before, [], hsplit.trans (by rw [List.append_nil]; rfl), hlength⟩
    | _ => exact absurd rfl hne
  | absolute schema authority path tail hbare =>
    have hrender : (Url.absolute schema authority path tail hbare).render =
        schema.text ++ schemaEnd ++ authority.render ++ renderPath path ++ tail.render := rfl
    have hfront : (schema.text ++ schemaEnd).length = schema.text.length + 3 := by
      rw [List.length_append]
      rfl
    have hpath : (schema.text ++ schemaEnd ++ authority.render ++ renderPath path).length =
        schema.text.length + 3 + authority.render.length + (renderPath path).length := by
      rw [List.length_append, List.length_append, hfront]
    rw [hrender]
    cases f with
    | schema =>
      refine ⟨[], schemaEnd ++ authority.render ++ renderPath path ++ tail.render, ?_, rfl⟩
      simp [Url.component]
    | userinfo =>
      obtain ⟨behind, hsplit⟩ := authority.exists_split.1 hne
      refine ⟨schema.text ++ schemaEnd, behind ++ renderPath path ++ tail.render, ?_, hfront⟩
      rw [hsplit]
      simp [Url.component]
    | host =>
      obtain ⟨before, behind, hsplit, hlength⟩ := authority.exists_split.2.1
      refine ⟨schema.text ++ schemaEnd ++ before, behind ++ renderPath path ++ tail.render, ?_, ?_⟩
      · rw [hsplit]
        simp [Url.component]
      · rw [List.length_append, hfront, hlength]
        rfl
    | port =>
      obtain ⟨before, hsplit, hlength⟩ := authority.exists_split.2.2 hne
      refine ⟨schema.text ++ schemaEnd ++ before, renderPath path ++ tail.render, ?_, ?_⟩
      · rw [hsplit]
        simp [Url.component]
      · rw [List.length_append, hfront, hlength]
        rfl
    | path =>
      refine ⟨schema.text ++ schemaEnd ++ authority.render, tail.render, ?_, ?_⟩
      · simp [Url.component]
      · rw [List.length_append, hfront]
        rfl
    | query =>
      obtain ⟨before, behind, hsplit, hlength⟩ := (tail.exists_split _).1 hne
      exact ⟨before, behind, hsplit, hlength.trans (by rw [hpath]; rfl)⟩
    | fragment =>
      obtain ⟨before, hsplit, hlength⟩ := (tail.exists_split _).2 hne
      exact ⟨before, [], hsplit.trans (by rw [List.append_nil]; rfl),
        hlength.trans (by rw [hpath]; rfl)⟩

/-- `get_uri_field` on the data of a URL gives its components. -/
theorem getUriField_parsed (url : Url) (f : UrlField) :
    getUriField url.render url.parsed f = url.component f := by
  unfold getUriField
  by_cases hempty : url.component f = []
  · have hfield : url.parsed.field f = none := if_pos hempty
    rw [hfield, hempty]
  · obtain ⟨before, behind, hrender, hlength⟩ := url.exists_split hempty
    have hfield : url.parsed.field f = some ⟨url.offset f, (url.component f).length⟩ :=
      if_neg hempty
    rw [hfield]
    dsimp only
    rw [← hlength, hrender, List.drop_left, List.take_left]

/-! ### URLs that are written down -/

/-- The marks of a tail, for a URL that has none of its fields yet. -/
theorem field_tailMark (tail : UrlTail) (position : ℕ) (u : HttpParserUrl)
    (hquery : u.field .query = none) (hfragment : u.field .fragment = none) :
    (tail.mark position u).field .query =
        (if tail.queryText = [] then none
        else some ⟨uint16 (position + 1), uint16 tail.queryText.length⟩) ∧
      (tail.mark position u).field .fragment =
        (if tail.fragmentText = [] then none
        else some ⟨uint16 (position + tail.fragmentOffset), uint16 tail.fragmentText.length⟩) ∧
      ∀ f, f ≠ .query → f ≠ .fragment → (tail.mark position u).field f = u.field f := by
  refine ⟨?_, ?_, fun f hf hf' ↦ ?_⟩
  · rw [UrlTail.mark, field_mark_of_ne _ _ (by decide), field_mark, hquery]
  · rw [UrlTail.mark, field_mark, field_mark_of_ne _ _ (by decide), hfragment]
  · rw [UrlTail.mark, field_mark_of_ne _ _ hf', field_mark_of_ne _ _ hf]

/-- The marks of an authority, for a URL that has neither user information nor a port yet. -/
theorem field_authorityMark (a : Authority) (position : ℕ) (u : HttpParserUrl)
    (huserinfo : u.field .userinfo = none) (hport : u.field .port = none) :
    (a.mark position u).field .userinfo =
        (if a.userinfoText = [] then none
        else some ⟨uint16 position, uint16 a.userinfoText.length⟩) ∧
      (a.mark position u).field .host =
        some ⟨uint16 (position + a.hostOffset), uint16 a.host.text.length⟩ ∧
      (a.mark position u).field .port =
        (if a.portText = [] then none
        else some ⟨uint16 (position + a.portOffset), uint16 a.portText.length⟩) ∧
      ∀ f, f ≠ .userinfo → f ≠ .host → f ≠ .port → (a.mark position u).field f = u.field f := by
  refine ⟨?_, ?_, ?_, fun f hf hf' hf'' ↦ ?_⟩
  · rw [Authority.mark, field_mark_of_ne _ _ (by decide), field_set_of_ne _ _ _ (by decide),
      field_mark, huserinfo]
  · rw [Authority.mark, field_mark_of_ne _ _ (by decide), field_set]
  · rw [Authority.mark, field_mark, field_set_of_ne _ _ _ (by decide),
      field_mark_of_ne _ _ (by decide), hport]
  · rw [Authority.mark, field_mark_of_ne _ _ hf'', field_set_of_ne _ _ _ hf',
      field_mark_of_ne _ _ hf]

/-- Two URL data with one port and the same fields. -/
theorem HttpParserUrl.eq_of_fields {u v : HttpParserUrl} (hport : u.port = v.port)
    (hfield : ∀ f, u.field f = v.field f) : u = v := by
  obtain ⟨port, field⟩ := u
  obtain ⟨port', field'⟩ := v
  obtain rfl : port = port' := hport
  obtain rfl : field = field' := funext hfield
  rfl

/-- The places of a URL of fewer than `2 ^ 16` bytes fit into 16 bits. -/
theorem Url.field_parsed (url : Url) (hlength : url.render.length < 2 ^ 16) (f : UrlField) :
    url.parsed.field f = if url.component f = [] then none
      else some ⟨uint16 (url.offset f), uint16 (url.component f).length⟩ := by
  rw [Url.parsed]
  dsimp only
  split_ifs with hempty
  · rfl
  · obtain ⟨before, behind, hrender, hbefore⟩ := url.exists_split hempty
    have hsum := congrArg List.length hrender
    rw [List.length_append, List.length_append, hbefore] at hsum
    rw [uint16_of_lt (by omega), uint16_of_lt (by omega)]

/-- The parser on a request target. -/
theorem httpParserParseUrl_target {first : UInt8} (hfirst : first = char '/' ∨ first = char '*')
    (path : Word isUrlChar) (tail : UrlTail)
    (hlength : (Url.target first hfirst path tail).render.length < 2 ^ 16) :
    httpParserParseUrl (Url.target first hfirst path tail).render =
      (true, (Url.target first hfirst path tail).parsed) := by
  obtain ⟨st, old, hscan⟩ := scanUrl_target hfirst path tail
  have hparse := httpParserParseUrl_of_slash hfirst (path.text ++ tail.render)
  rw [← List.cons_append, hscan] at hparse
  refine hparse.trans (congrArg (Prod.mk true) (HttpParserUrl.eq_of_fields ?_ fun f ↦ ?_))
  · show (tail.mark _ _).port = 0
    rw [UrlTail.mark, port_mark, port_mark]
    rfl
  · obtain ⟨hquery, hfragment, hother⟩ := field_tailMark tail (first :: path.text).length
      (HttpParserUrl.init.set .path 0 (first :: path.text).length) rfl rfl
    rw [Url.field_parsed _ hlength]
    cases f with
    | query => exact hquery
    | fragment => exact hfragment
    | _ => exact hother _ (by decide) (by decide)

/-- The second pass over a URL whose server part is an authority. -/
theorem httpParseHost_authority (a : Authority) {buf before behind : Bytes}
    (hbuf : buf = before ++ (a.render ++ behind)) (hbefore : before.length < 2 ^ 16)
    (u : HttpParserUrl) :
    httpParseHost buf ⟨before.length, a.render.length⟩ a.userinfo.isSome u =
      (true, a.mark before.length (u.set .host before.length 0)) := by
  have hslice : (buf.drop before.length).take a.render.length = a.render := by
    rw [hbuf, List.drop_left, List.take_left]
  have hhost : (u.set .host before.length 0).field .host = some ⟨before.length, 0⟩ := by
    rw [field_set, uint16_of_lt hbefore]
    rfl
  have hstart : { u with field := Function.update u.field .host (some ⟨before.length, 0⟩) } =
      u.set .host before.length 0 := by
    rw [HttpParserUrl.set, uint16_of_lt hbefore]
    rfl
  obtain ⟨st, hfinal, hscan⟩ := scanHost_authority a before.length hhost
  unfold httpParseHost
  simp only [hstart, hslice, hscan, hfinal, Bool.and_self]

/-- The last part of the parser, for the port of an authority. -/
theorem parsePort_authority (a : Authority) {buf : Bytes} {u : HttpParserUrl} {off : ℕ}
    (hfield : u.field .port = if a.portText = [] then none else some ⟨off, a.portText.length⟩)
    (hslice : a.portText ≠ [] → (buf.drop off).take a.portText.length = a.portText)
    (hport : u.port = 0) :
    parsePort buf u = (decide (portValue a.portText ≤ 0xffff),
      { u with port := if portValue a.portText ≤ 0xffff then portValue a.portText else 0 }) := by
  obtain ⟨userinfo, host, port⟩ := a
  unfold parsePort
  cases port with
  | none =>
    have hnone : u.field .port = none := hfield
    rw [hnone]
    exact congrArg (Prod.mk true) (HttpParserUrl.eq_of_fields hport fun _ ↦ rfl)
  | some digits =>
    have hne : (Authority.mk userinfo host (some digits)).portText ≠ [] := digits.ne_nil
    rw [hfield, if_neg hne]
    dsimp only
    rw [hslice hne, portNumber_eq]
    split_ifs with hvalue
    · rw [decide_eq_true hvalue]
    · rw [decide_eq_false hvalue, ← hport]

/-- The first pass leaves the server part as the host. -/
theorem field_host_markAbsolute (schema server : Bytes) (path : Bytes) (tail : UrlTail)
    (hlength : schema.length + 3 + server.length < 2 ^ 16) :
    (markAbsolute schema server path tail).field .host =
      some ⟨(schema ++ schemaEnd).length, server.length⟩ := by
  have hfront : (schema ++ schemaEnd).length = schema.length + 3 := by
    rw [List.length_append]
    rfl
  rw [markAbsolute, UrlTail.mark, field_mark_of_ne _ _ (by decide),
    field_mark_of_ne _ _ (by decide), field_mark_of_ne _ _ (by decide), field_set, hfront,
    uint16_of_lt (by omega), uint16_of_lt (by omega)]

/-- What the first pass leaves of an absolute URL: the server part as the host, and all other
components but the user information and the port. -/
theorem field_markAbsolute (schema : Name isAlpha) (authority : Authority)
    (path : Option (Word isUrlChar)) (tail : UrlTail)
    (hbare : path = none → tail.fragment.isSome = true → tail.query.isSome = true)
    (hlength : (Url.absolute schema authority path tail hbare).render.length < 2 ^ 16) :
    let u := markAbsolute schema.text authority.render (renderPath path) tail
    u.port = 0 ∧ u.field .userinfo = none ∧ u.field .port = none ∧
      u.field .host = some ⟨(schema.text ++ schemaEnd).length, authority.render.length⟩ ∧
      ∀ f, f ≠ .userinfo → f ≠ .host → f ≠ .port →
        u.field f = (Url.absolute schema authority path tail hbare).parsed.field f := by
  have hfront : (schema.text ++ schemaEnd).length = schema.text.length + 3 := by
    rw [List.length_append]
    rfl
  have hserver : schema.text.length + 3 + authority.render.length < 2 ^ 16 := by
    have hsum : (Url.absolute schema authority path tail hbare).render.length =
        schema.text.length + 3 + authority.render.length + (renderPath path).length +
          tail.render.length := by
      rw [Url.render, List.length_append, List.length_append, List.length_append, hfront]
    omega
  obtain ⟨hquery, hfragment, hother⟩ := field_tailMark tail
    (schema.text.length + 3 + authority.render.length + (renderPath path).length)
    (((HttpParserUrl.init.set .schema 0 schema.text.length).set .host (schema.text.length + 3)
      authority.render.length).mark .path (schema.text.length + 3 + authority.render.length)
        (renderPath path))
    (field_mark_of_ne _ _ (by decide) _) (field_mark_of_ne _ _ (by decide) _)
  intro u
  refine ⟨?_, ?_, ?_, ?_, fun f huserinfo hhost hport ↦ ?_⟩
  · show (UrlTail.mark _ tail _).port = 0
    rw [UrlTail.mark, port_mark, port_mark, port_mark]
    rfl
  · exact (hother _ (by decide) (by decide)).trans (field_mark_of_ne _ _ (by decide) _)
  · exact (hother _ (by decide) (by decide)).trans (field_mark_of_ne _ _ (by decide) _)
  · exact field_host_markAbsolute _ _ _ tail hserver
  · rw [Url.field_parsed _ hlength]
    cases f with
    | schema =>
      refine (hother _ (by decide) (by decide)).trans ?_
      rw [field_mark_of_ne _ _ (by decide)]
      exact (if_neg schema.ne_nil).symm
    | path =>
      refine (hother _ (by decide) (by decide)).trans ?_
      rw [field_mark]
      rfl
    | query => exact hquery
    | fragment => exact hfragment
    | userinfo => exact absurd rfl huserinfo
    | host => exact absurd rfl hhost
    | port => exact absurd rfl hport

/-- What the second pass makes of it: the data of the URL, but for the number of the port. -/
theorem field_markAuthority (schema : Name isAlpha) (authority : Authority)
    (path : Option (Word isUrlChar)) (tail : UrlTail)
    (hbare : path = none → tail.fragment.isSome = true → tail.query.isSome = true)
    (hlength : (Url.absolute schema authority path tail hbare).render.length < 2 ^ 16)
    {position : ℕ} (hposition : position = (schema.text ++ schemaEnd).length) :
    let u := authority.mark position
      ((markAbsolute schema.text authority.render (renderPath path) tail).set .host position 0)
    u.port = 0 ∧
      ∀ f, u.field f = (Url.absolute schema authority path tail hbare).parsed.field f := by
  obtain ⟨hport, huserinfo, hportField, -, hother⟩ :=
    field_markAbsolute schema authority path tail hbare hlength
  have hserver : position = schema.text.length + 3 := by
    rw [hposition, List.length_append]
    rfl
  obtain ⟨huserinfo', hhost', hport', hother'⟩ := field_authorityMark authority position
    ((markAbsolute schema.text authority.render (renderPath path) tail).set .host position 0)
    ((field_set_of_ne _ _ _ (by decide)).trans huserinfo)
    ((field_set_of_ne _ _ _ (by decide)).trans hportField)
  have hhostText : authority.host.text ≠ [] := by
    cases authority.host with
    | name host => exact host.ne_nil
    | v6 address zone => exact List.append_ne_nil_of_left_ne_nil address.ne_nil _
  refine ⟨?_, fun f ↦ ?_⟩
  · rw [Authority.mark, port_mark, port_set, port_mark, port_set]
    exact hport
  · cases f with
    | userinfo =>
      rw [huserinfo', hserver, Url.field_parsed _ hlength]
      rfl
    | host =>
      rw [hhost', hserver, Url.field_parsed _ hlength]
      exact (if_neg hhostText).symm
    | port =>
      rw [hport', hserver, Url.field_parsed _ hlength]
      rfl
    | _ =>
      rw [hother' _ (by decide) (by decide) (by decide), field_set_of_ne _ _ _ (by decide)]
      exact hother _ (by decide) (by decide) (by decide)

/-- The parser on an absolute URL. -/
theorem httpParserParseUrl_absolute (schema : Name isAlpha) (authority : Authority)
    (path : Option (Word isUrlChar)) (tail : UrlTail)
    (hbare : path = none → tail.fragment.isSome = true → tail.query.isSome = true)
    (hlength : (Url.absolute schema authority path tail hbare).render.length < 2 ^ 16) :
    httpParserParseUrl (Url.absolute schema authority path tail hbare).render =
      (decide (portValue authority.portText ≤ 0xffff),
        (Url.absolute schema authority path tail hbare).parsed) := by
  obtain ⟨hne, hchars, halive, hat⟩ := server_of_authority authority
  obtain ⟨st, old, hscan⟩ := scanUrl_absolute schema hne hchars halive path tail hbare
  obtain ⟨-, -, -, hhost, -⟩ := field_markAbsolute schema authority path tail hbare hlength
  obtain ⟨hport, hfield⟩ := field_markAuthority schema authority path tail hbare hlength rfl
  have hrender : (Url.absolute schema authority path tail hbare).render =
      schema.text ++ schemaEnd ++ (authority.render ++ (renderPath path ++ tail.render)) := by
    simp [Url.render]
  have hnonempty : (Url.absolute schema authority path tail hbare).render.isEmpty = false := by
    rw [hrender]
    simp [schema.ne_nil]
  have hbefore : (schema.text ++ schemaEnd).length < 2 ^ 16 := by
    have hsum := congrArg List.length hrender
    rw [List.length_append] at hsum
    omega
  have hpass := httpParseHost_authority authority hrender hbefore
    (markAbsolute schema.text authority.render (renderPath path) tail)
  have hslice : authority.portText ≠ [] →
      ((Url.absolute schema authority path tail hbare).render.drop
        ((Url.absolute schema authority path tail hbare).offset .port)).take
          authority.portText.length = authority.portText := by
    intro hne
    obtain ⟨before, behind, hsplit, hlength'⟩ :=
      (Url.absolute schema authority path tail hbare).exists_split (f := .port) hne
    rw [← hlength', hsplit, List.drop_left]
    exact List.take_left
  have hnumber := parsePort_authority authority (hfield .port) hslice hport
  have hscan' : scanUrl 0 UrlScan.init (Url.absolute schema authority path tail hbare).render =
      (true, ⟨st, old, authority.userinfo.isSome,
        markAbsolute schema.text authority.render (renderPath path) tail⟩) := by
    rw [← hat]
    exact hscan
  rw [httpParserParseUrl, hnonempty]
  simp only [hscan', hhost, hpass, hnumber, Bool.false_eq_true, if_false, Bool.not_true]
  exact congrArg (Prod.mk _) (HttpParserUrl.eq_of_fields rfl hfield)

/-- **A URL that is written down** in fewer than `2 ^ 16` bytes: the parser accepts it if the number
of its port fits into 16 bits, and marks the components that are not empty in any case. -/
theorem httpParserParseUrl_render (url : Url) (hlength : url.render.length < 2 ^ 16) :
    httpParserParseUrl url.render = (decide (url.port ≤ 0xffff), url.parsed) := by
  cases url with
  | target first hfirst path tail => exact httpParserParseUrl_target hfirst path tail hlength
  | absolute schema authority path tail hbare =>
    exact httpParserParseUrl_absolute schema authority path tail hbare hlength

/-! ### Strings that the parser accepts -/

/-- The parser rejects a string in which it marks a schema and no host. -/
theorem not_accepted_of_no_host {buf : Bytes} {scan : UrlScan}
    (hscan : scanUrl 0 UrlScan.init buf = (true, scan)) (hhost : scan.url.field .host = none)
    (hschema : (scan.url.field .schema).isSome = true) :
    ¬ (httpParserParseUrl buf).1 = true := by
  by_cases hbuf : buf = []
  · rw [hbuf]
    decide
  · rw [httpParserParseUrl_of_no_host hbuf (by rw [hscan]; exact hhost), hscan]
    simpa using Option.isSome_iff_ne_none.mp hschema

/-- The loop comes to the end of what the parser accepts. -/
theorem alive_of_accepted {buf : Bytes} (h : (httpParserParseUrl buf).1 = true) :
    Alive .spacesBeforeUrl buf := by
  refine (scanUrl_fst_iff 0 UrlScan.init buf (by decide)).mp ?_
  unfold httpParserParseUrl at h
  split_ifs at h
  cases hended : (scanUrl 0 UrlScan.init buf).1 with
  | true => rfl
  | false => simp [hended] at h

/-- Behind a schema, what the parser accepts goes on with the two slashes. -/
theorem exists_slashes_of_accepted {c : UInt8} (hc : isAlpha c = true) {rest : Bytes}
    (h : (httpParserParseUrl (c :: rest)).1 = true) :
    ∃ behind, rest.dropWhile isAlpha = schemaEnd ++ behind ∧ Alive .serverStart behind := by
  have hnone : ∀ scan : UrlScan, scanUrl 0 UrlScan.init (c :: rest) = (true, scan) →
      scan.url ≠ .withSchema (rest.takeWhile isAlpha).length := by
    intro scan hscan hurl
    refine not_accepted_of_no_host hscan ?_ ?_ h
    · rw [hurl, HttpParserUrl.withSchema, field_extendBy_of_ne (by decide)]
      rfl
    · rw [hurl, HttpParserUrl.withSchema, field_extendBy _ (field_start 0 _)]
      rfl
  have halive := alive_of_accepted h
  have hscan := scanUrl_init_letter hc rest
  have hfirst : parseUrlChar .spacesBeforeUrl c = .schema := by
    rw [parseUrlChar_spacesBeforeUrl, if_neg (not_target_of_isAlpha hc), if_pos hc]
  have hloop : ∀ d : UInt8, isAlpha d = true → parseUrlChar .schema d = .schema := by
    intro d hd
    rw [parseUrlChar_schema, if_pos hd]
  rw [alive_cons, hfirst, alive_dropWhile hloop] at halive
  -- each of the three bytes is there and is the one the parser waits for
  cases hrest : rest.dropWhile isAlpha with
  | nil =>
    rw [hrest] at hscan
    exact absurd rfl (hnone _ hscan)
  | cons d rest₁ =>
    have hd : ¬ isAlpha d = true := by simp [not_of_dropWhile_eq_cons hrest]
    rw [hrest, alive_cons, parseUrlChar_schema, if_neg hd] at halive
    split_ifs at halive with hcolon
    · rw [hrest, hcolon] at hscan
      replace hscan := hscan.trans (scanUrl_delimiter .schemaSlash rfl (by decide)
        (by decide) rest₁ _ _ _ _)
      cases rest₁ with
      | nil => exact absurd rfl (hnone _ hscan)
      | cons e rest₂ =>
        rw [alive_cons, (parseUrlChar_schemaSlash e).1] at halive
        split_ifs at halive with hslash
        · rw [hslash] at hscan
          replace hscan := hscan.trans (scanUrl_delimiter .schemaSlashSlash rfl (by decide)
            (by decide) rest₂ _ _ _ _)
          cases rest₂ with
          | nil => exact absurd rfl (hnone _ hscan)
          | cons f behind =>
            rw [alive_cons, (parseUrlChar_schemaSlash f).2] at halive
            split_ifs at halive with hslash'
            · refine ⟨behind, ?_, halive⟩
              rw [hcolon, hslash, hslash']
              rfl
            · exact absurd halive (not_alive_dead behind)
        · exact absurd halive (not_alive_dead rest₂)
    · exact absurd halive (not_alive_dead rest₁)

/-- The parser rejects a URL without a server part between the slashes and the path. -/
theorem not_accepted_of_no_server (schema : Name isAlpha) (path : Option (Word isUrlChar))
    (tail : UrlTail)
    (hbare : path = none → tail.fragment.isSome = true → tail.query.isSome = true) :
    ¬ (httpParserParseUrl (schema.text ++ (schemaEnd ++ (renderPath path ++ tail.render)))).1 =
      true := by
  have hkept : ∀ (position : ℕ) (u : HttpParserUrl),
      u.field .query = none → u.field .fragment = none → u.field .host = none →
        (u.field .schema).isSome = true → ((tail.mark position u).field .host = none) ∧
          ((tail.mark position u).field .schema).isSome = true := by
    intro position u hquery hfragment hhost hschema
    obtain ⟨-, -, hother⟩ := field_tailMark tail position u hquery hfragment
    rw [hother .host (by decide) (by decide), hother .schema (by decide) (by decide)]
    exact ⟨hhost, hschema⟩
  have hscan := scanUrl_schema schema (renderPath path ++ tail.render)
  cases path with
  | none =>
    have hold : some UrlField.schema ≠ some .query ∧ some UrlField.schema ≠ some .fragment :=
      ⟨by decide, by decide⟩
    obtain ⟨st, old, hend⟩ := scanUrl_tail tail .serverStart (schema.text.length + 3) hold false
      (HttpParserUrl.init.set .schema 0 schema.text.length) (by decide)
      fun hsome hnone ↦ absurd (hbare rfl hsome) (by simp [hnone])
    have hfields := hkept (schema.text.length + 3)
      (HttpParserUrl.init.set .schema 0 schema.text.length) rfl rfl rfl rfl
    exact not_accepted_of_no_host (hscan.trans hend) hfields.1 hfields.2
  | some word =>
    have hslash : parseUrlChar .serverStart (char '/') = .path := by decide
    obtain ⟨st, old, hend⟩ := scanUrl_path word tail hslash (schema.text.length + 3)
      (some .schema) (by decide) false (HttpParserUrl.init.set .schema 0 schema.text.length)
    have hfields := hkept (schema.text.length + 3 + (char '/' :: word.text).length)
      ((HttpParserUrl.init.set .schema 0 schema.text.length).set .path (schema.text.length + 3)
        (char '/' :: word.text).length) rfl rfl rfl rfl
    exact not_accepted_of_no_host (hscan.trans hend) hfields.1 hfields.2

/-- A string that the parser accepts and that begins with a letter has a schema, two slashes and a
server part. -/
theorem exists_server_of_accepted {c : UInt8} (hc : isAlpha c = true) {rest : Bytes}
    (h : (httpParserParseUrl (c :: rest)).1 = true) :
    ∃ (schema : Name isAlpha) (server : Word isServerChar) (path : Option (Word isUrlChar))
      (tail : UrlTail),
      c :: rest = schema.text ++ schemaEnd ++ server.text ++ renderPath path ++ tail.render ∧
        server.text ≠ [] ∧ Alive .serverStart server.text ∧
        (path = none → tail.fragment.isSome = true → tail.query.isSome = true) := by
  obtain ⟨behind, hrest, halive⟩ := exists_slashes_of_accepted hc h
  obtain ⟨server, path, tail, hbehind, hserver, hbare⟩ := exists_server_of_alive halive
  have hsplit := List.takeWhile_append_dropWhile (p := isAlpha) (l := rest)
  let schema : Name isAlpha := ⟨⟨c :: rest.takeWhile isAlpha, List.forall_mem_cons.mpr
    ⟨hc, (wordOf isAlpha rest).chars⟩⟩, List.cons_ne_nil _ _⟩
  have hparts : c :: rest =
      schema.text ++ schemaEnd ++ server.text ++ renderPath path ++ tail.render := by
    rw [← hsplit, hrest, hbehind]
    simp [schema]
  refine ⟨schema, server, path, tail, hparts, fun hempty ↦ ?_, hserver, hbare⟩
  refine not_accepted_of_no_server schema path tail hbare ?_
  rw [hparts, hempty, List.append_nil, List.append_assoc, List.append_assoc] at h
  exact h

/-- What the second pass accepts is an authority. -/
theorem exists_authority_of_httpParseHost {buf front server behind : Bytes} {foundAt : Bool}
    {u : HttpParserUrl} (hbuf : buf = front ++ (server ++ behind))
    (h : (httpParseHost buf ⟨front.length, server.length⟩ foundAt u).1 = true) :
    ∃ a : Authority, server = a.render := by
  have hslice : (buf.drop front.length).take server.length = server := by
    rw [hbuf, List.drop_left, List.take_left]
  have hstart : (if foundAt then HostState.userinfoStart else .hostStart) ≠ .dead := by
    cases foundAt <;> decide
  unfold httpParseHost at h
  simp only [hslice] at h
  exact exists_authority_of_accepted foundAt ((scanHost_accepts_iff _ _ _ _ hstart).mp h)

/-- **What the parser accepts** is a URL written down. -/
theorem exists_url_of_accepted {buf : Bytes} (hlength : buf.length < 2 ^ 16)
    (h : (httpParserParseUrl buf).1 = true) : ∃ url : Url, url.render = buf := by
  cases buf with
  | nil => exact absurd h (by decide)
  | cons c rest =>
    have halive := alive_of_accepted h
    rw [alive_cons, parseUrlChar_spacesBeforeUrl] at halive
    split_ifs at halive with hpath hletter
    · obtain ⟨word, tail, hrest⟩ := exists_word_of_alive_path halive
      exact ⟨.target c hpath word tail, by rw [Url.render, hrest, List.cons_append]⟩
    · obtain ⟨schema, server, path, tail, hparts, hne, hserver, hbare⟩ :=
        exists_server_of_accepted hletter h
      obtain ⟨st, old, hscan⟩ :=
        scanUrl_absolute schema hne server.chars hserver path tail hbare
      rw [← hparts] at hscan
      have hbuf : c :: rest = schema.text ++ schemaEnd ++
          (server.text ++ (renderPath path ++ tail.render)) := by
        rw [hparts]
        simp
      have hsum : (c :: rest).length = schema.text.length + 3 + server.text.length +
          (renderPath path ++ tail.render).length := by
        rw [hbuf]
        simp only [List.length_append]
        show _ + 3 + _ = _
        omega
      have hhost := field_host_markAbsolute schema.text server.text (renderPath path) tail
        (by omega)
      have hpass : (httpParseHost (c :: rest) ⟨(schema.text ++ schemaEnd).length,
          server.text.length⟩ (server.text.contains (char '@'))
          (markAbsolute schema.text server.text (renderPath path) tail)).1 = true := by
        by_contra hrejected
        rw [httpParserParseUrl, if_neg (by simp)] at h
        simp only [hscan, hhost, Bool.eq_false_of_not_eq_true hrejected, Bool.not_true,
          Bool.not_false, Bool.false_eq_true, if_true, if_false] at h
      obtain ⟨a, ha⟩ := exists_authority_of_httpParseHost hbuf hpass
      refine ⟨.absolute schema a path tail hbare, ?_⟩
      rw [Url.render, ← ha, ← hparts]
    · exact absurd halive (not_alive_dead rest)

/-- **The grammar of the URL parser.** A string of fewer than `2 ^ 16` bytes is accepted if and only
if it is a URL written down whose port fits into 16 bits. Whether or not the port fits, the fields
that are marked are the components of the URL that are not empty, and reading them gives those
components. -/
theorem url_grammar {buf : Bytes} (hlength : buf.length < 2 ^ 16) :
    ((httpParserParseUrl buf).1 = true ↔ ∃ url : Url, url.render = buf ∧ url.port ≤ 0xffff) ∧
      ∀ url : Url, url.render = buf →
        ((httpParserParseUrl buf).1 = true → (httpParserParseUrl buf).2.port = url.port) ∧
        ∀ f, getUriField buf (httpParserParseUrl buf).2 f = url.component f ∧
          (((httpParserParseUrl buf).2.field f).isSome = true ↔ url.component f ≠ []) := by
  refine ⟨⟨fun h ↦ ?_, ?_⟩, ?_⟩
  · obtain ⟨url, rfl⟩ := exists_url_of_accepted hlength h
    rw [httpParserParseUrl_render url hlength] at h
    exact ⟨url, rfl, of_decide_eq_true h⟩
  · rintro ⟨url, rfl, hport⟩
    rw [httpParserParseUrl_render url hlength]
    exact decide_eq_true hport
  · rintro url rfl
    rw [httpParserParseUrl_render url hlength]
    refine ⟨fun hport ↦ if_pos (of_decide_eq_true hport), fun f ↦ ?_⟩
    refine ⟨getUriField_parsed url f, ?_⟩
    rw [Url.parsed]
    dsimp only
    split_ifs with hempty <;> simp [hempty]

theorem url_grammar_absolute :
    (httpParserParseUrl (ascii "http://u@h:80/p?q#f")).1 = true ∧
      ∃ url : Url, url.render = ascii "http://u@h:80/p?q#f" ∧ url.port ≤ 0xffff := by
  have haccepted : (httpParserParseUrl (ascii "http://u@h:80/p?q#f")).1 = true := by decide
  exact ⟨haccepted, (url_grammar (by decide)).1.mp haccepted⟩

end Maock.Http
