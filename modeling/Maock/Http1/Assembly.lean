import Maock.Http1.Callbacks
import Maock.Http1.UrlPieces

/-!
# Assembling a request from pieces

llhttp may deliver every span of a message in several pieces, one for each read that sees a part of
it. `Fragmentation` is one way to deliver the spans of a message in pieces that are not empty, and
`assembledAlike_iff` says for which messages all of them assemble the same request. An empty span
has no piece then; the vendored llhttp, which reports an empty header value with a callback of
length 0, goes beyond this.

The payload is put together again, but the callbacks of the request target and of the header fields
treat every piece as a whole: a piece of a field name replaces the piece before, and a piece of a
value adds a field of its own (`fieldEntries`).
-/

set_option autoImplicit false
set_option relaxedAutoImplicit false

namespace Maock.Http1

open Foundation Foundation.OrderedContainer Foundation.Bytes Http

/-! ### Messages and their pieces -/

/-- The spans of a message. Header field names are not empty. -/
structure RequestSpans where
  method : Bytes
  url : Bytes
  headers : List (Bytes × Bytes)
  body : Bytes
  trailers : List (Bytes × Bytes)
  shouldKeepAlive : Bool
  names_ne : ∀ field ∈ headers ++ trailers, field.1 ≠ []

/-- The pieces of the names and values of a list of header fields. -/
def FieldFragments (fields : List (Bytes × Bytes)) (pieces : List (List Bytes × List Bytes)) :
    Prop :=
  List.Forall₂ (fun field piece ↦ Fragments field.1 piece.1 ∧ Fragments field.2 piece.2) fields
    pieces

/-- A way to deliver the spans of a message in pieces. -/
structure Fragmentation (r : RequestSpans) where
  url : List Bytes
  url_fragments : Fragments r.url url
  fields : List (List Bytes × List Bytes)
  fields_fragments : FieldFragments (r.headers ++ r.trailers) fields
  body : List Bytes
  body_fragments : Fragments r.body body

/-- The callbacks for the pieces of some header fields. -/
def fieldCallbacks (fields : List (List Bytes × List Bytes)) : List Callback :=
  fields.flatMap fun piece ↦ piece.1.map .headerField ++ piece.2.map .headerValue

namespace Fragmentation

variable {r : RequestSpans}

/-- The callbacks between message begin and message complete. -/
def innerCallbacks (f : Fragmentation r) : List Callback :=
  f.url.map (.url r.method) ++ fieldCallbacks (f.fields.take r.headers.length) ++
    f.body.map .body ++ fieldCallbacks (f.fields.drop r.headers.length)

/-- The callbacks of the message. -/
def callbacks (f : Fragmentation r) : List Callback :=
  [.messageBegin] ++ f.innerCallbacks ++ [.messageComplete r.shouldKeepAlive]

/-- The requests that the callbacks dispatch. -/
def dispatched (config : TlsConfig) (h : Http1Handler) (f : Fragmentation r) :
    List AsioServerRequest :=
  (h.onCallbacks config f.callbacks).2

end Fragmentation

/-- However its spans are cut, the message dispatches one request, always with the same content. -/
def AssembledAlike (config : TlsConfig) (h : Http1Handler) (r : RequestSpans) : Prop :=
  ∀ first second : Fragmentation r, ∃ a b,
    first.dispatched config h = [a] ∧ second.dispatched config h = [b] ∧ a.SameContent b

/-! ### What the pieces assemble -/

/-- The header fields that the pieces add: one for each piece of a value, under the last piece of
the name. -/
def fieldEntries (fields : List (List Bytes × List Bytes)) : List (Bytes × Bytes) :=
  fields.flatMap fun piece ↦
    piece.2.map fun value ↦ ((piece.1.getLastD []).map toLower, value)

/-- Header fields added to a header map one after another. -/
def addEntries (entries : List (Bytes × Bytes)) (header : HeaderMap) : HeaderMap :=
  entries.foldl (fun header entry ↦ header.emplace entry.1 ⟨entry.2, true⟩) header

theorem addEntries_append (first second : List (Bytes × Bytes)) (header : HeaderMap) :
    addEntries (first ++ second) header = addEntries second (addEntries first header) :=
  List.foldl_append

theorem entries_addEntries_perm (entries : List (Bytes × Bytes)) (header : HeaderMap) :
    ((addEntries entries header).entries.map fun entry ↦ (entry.1, entry.2.value)).Perm
      (entries ++ header.entries.map fun entry ↦ (entry.1, entry.2.value)) := by
  induction entries generalizing header with
  | nil => exact List.Perm.refl _
  | cons entry rest ih =>
    refine (ih _).trans ?_
    have hemplace := (OrderedMultimap.entries_emplace_perm entry.1 (⟨entry.2, true⟩ : HeaderValue)
      header).map fun entry ↦ (entry.1, entry.2.value)
    exact (hemplace.append_left rest).trans List.perm_middle

namespace Assembly

theorem receiveAll_append (a : Assembly) (first second : List Callback) :
    a.receiveAll (first ++ second) = (a.receiveAll first).receiveAll second :=
  List.foldl_append

/-- The pieces of the URL. -/
theorem receiveAll_url (a : Assembly) (method : Bytes) (pieces : List Bytes) :
    (a.receiveAll (pieces.map (.url method))).request.uri =
        pieces.foldl (fun uri data ↦ uri.fillFromUrl data) a.request.uri ∧
      (a.receiveAll (pieces.map (.url method))).request.header = a.request.header ∧
      (a.receiveAll (pieces.map (.url method))).request.payload = a.request.payload := by
  induction pieces generalizing a with
  | nil => exact ⟨rfl, rfl, rfl⟩
  | cons piece rest ih => exact ih (a.receive (.url method piece))

/-- The pieces of the payload. -/
theorem receiveAll_body (a : Assembly) (pieces : List Bytes) :
    (a.receiveAll (pieces.map .body)).request =
      { a.request with payload := a.request.payload ++ pieces.flatten } := by
  induction pieces generalizing a with
  | nil => rw [List.flatten_nil, List.append_nil]; rfl
  | cons piece rest ih =>
    show ((a.receive (.body piece)).receiveAll (rest.map .body)).request = _
    rw [ih, List.flatten_cons, ← List.append_assoc]
    rfl

/-- The pieces of a field name: the last one stays. -/
theorem receiveAll_name (a : Assembly) (pieces : List Bytes) :
    a.receiveAll (pieces.map .headerField) =
      { a with currHeaderName := (pieces.getLast?.map (·.map toLower)).getD a.currHeaderName } := by
  induction pieces using List.reverseRecOn with
  | nil => rfl
  | append_singleton before last ih =>
    rw [List.map_append, receiveAll_append, ih]
    simp [receiveAll, receive]

/-- The pieces of a field value: each adds a field. -/
theorem receiveAll_value (a : Assembly) (pieces : List Bytes) :
    a.receiveAll (pieces.map .headerValue) =
      { a with request := { a.request with
          header := addEntries (pieces.map fun value ↦ (a.currHeaderName, value))
            a.request.header } } := by
  induction pieces generalizing a with
  | nil => rfl
  | cons piece rest ih =>
    show (a.receive (.headerValue piece)).receiveAll (rest.map .headerValue) = _
    rw [ih]
    rfl

/-- The pieces of header fields with names that are not empty. -/
theorem receiveAll_fields (a : Assembly) {fields : List (List Bytes × List Bytes)}
    (hnames : ∀ piece ∈ fields, piece.1 ≠ []) :
    (a.receiveAll (fieldCallbacks fields)).request =
      { a.request with header := addEntries (fieldEntries fields) a.request.header } := by
  induction fields generalizing a with
  | nil => rfl
  | cons piece rest ih =>
    have hname : (piece.1.getLast?.map (·.map toLower)).getD a.currHeaderName =
        (piece.1.getLastD []).map toLower := by
      rw [List.getLastD_eq_getLast?,
        List.getLast?_eq_some_getLast (hnames piece List.mem_cons_self)]
      rfl
    have hcallbacks : fieldCallbacks (piece :: rest) =
        piece.1.map .headerField ++ piece.2.map .headerValue ++ fieldCallbacks rest :=
      List.flatMap_cons
    have hentries : fieldEntries (piece :: rest) =
        (piece.2.map fun value ↦ ((piece.1.getLastD []).map toLower, value)) ++ fieldEntries rest :=
      List.flatMap_cons
    rw [hcallbacks, receiveAll_append, receiveAll_append,
      ih _ fun piece hmem ↦ hnames piece (List.mem_cons_of_mem _ hmem), receiveAll_name,
      receiveAll_value, hname, hentries, addEntries_append]

end Assembly

/-- The pieces of a name that is not empty are not none. -/
theorem names_ne_of_fragments {fields : List (Bytes × Bytes)}
    {pieces : List (List Bytes × List Bytes)} (hpieces : FieldFragments fields pieces)
    (hnames : ∀ field ∈ fields, field.1 ≠ []) : ∀ piece ∈ pieces, piece.1 ≠ [] := by
  induction hpieces with
  | nil => exact fun piece hmem ↦ absurd hmem List.not_mem_nil
  | @cons field piece fields pieces hhead _ ih =>
    intro other hmem
    rcases List.mem_cons.mp hmem with rfl | hmem
    · intro hnone
      refine hnames field List.mem_cons_self ?_
      rw [← hhead.1.1, hnone]
      rfl
    · exact ih (fun field hmem ↦ hnames field (List.mem_cons_of_mem _ hmem)) other hmem

namespace Fragmentation

variable {r : RequestSpans}

theorem isInner_innerCallbacks (f : Fragmentation r) :
    ∀ callback ∈ f.innerCallbacks, callback.isInner = true := by
  intro callback hmem
  simp only [innerCallbacks, fieldCallbacks, List.mem_append, List.mem_map, List.mem_flatMap]
    at hmem
  rcases hmem with ((⟨_, -, rfl⟩ | ⟨_, -, ⟨_, -, rfl⟩ | ⟨_, -, rfl⟩⟩) | ⟨_, -, rfl⟩) |
    ⟨_, -, ⟨_, -, rfl⟩ | ⟨_, -, rfl⟩⟩ <;> rfl

/-- The request that the pieces assemble, from the field name that the handler holds before. -/
def request (name : Bytes) (f : Fragmentation r) : AsioServerRequest :=
  (Assembly.receiveAll ⟨AsioServerRequest.empty, name⟩ f.innerCallbacks).request

theorem uri_request (name : Bytes) (f : Fragmentation r) :
    (f.request name).uri = fillFromPieces f.url ∧
      (f.request name).header =
        addEntries (fieldEntries f.fields) (OrderedMultimap.empty HeaderValue bytesLess) ∧
      (f.request name).payload = r.body := by
  have hnames := names_ne_of_fragments f.fields_fragments r.names_ne
  obtain ⟨huri, hheader, hpayload⟩ :=
    Assembly.receiveAll_url ⟨AsioServerRequest.empty, name⟩ r.method f.url
  have hentries : fieldEntries f.fields =
      fieldEntries (f.fields.take r.headers.length) ++
        fieldEntries (f.fields.drop r.headers.length) := by
    rw [fieldEntries, fieldEntries, fieldEntries, ← List.flatMap_append, List.take_append_drop]
  unfold request innerCallbacks
  rw [Assembly.receiveAll_append, Assembly.receiveAll_append, Assembly.receiveAll_append,
    Assembly.receiveAll_fields _ fun piece hmem ↦ hnames piece (List.mem_of_mem_drop hmem),
    Assembly.receiveAll_body,
    Assembly.receiveAll_fields _ fun piece hmem ↦ hnames piece (List.mem_of_mem_take hmem)]
  refine ⟨huri, ?_, ?_⟩
  · show addEntries _ (addEntries _ _) = _
    rw [hheader, ← addEntries_append, ← hentries]
    rfl
  · show _ ++ f.body.flatten = _
    rw [hpayload, f.body_fragments.1]
    rfl

theorem dispatched_eq (config : TlsConfig) {h : Http1Handler}
    (hcount : ∀ id ∈ h.openIds, id ≤ h.requestCount) (f : Fragmentation r) :
    f.dispatched config h = [completeRequest config (f.request h.currHeaderName)] :=
  onCallbacks_message config hcount r.shouldKeepAlive f.isInner_innerCallbacks

end Fragmentation

/-- The name and value pairs that a fragmentation adds are those of the request it assembles. -/
theorem perm_fieldEntries_of_sameContent {r : RequestSpans} {config : TlsConfig} {name : Bytes}
    {first second : Fragmentation r}
    (hsame : (completeRequest config (first.request name)).SameContent
      (completeRequest config (second.request name))) :
    (fieldEntries first.fields).Perm (fieldEntries second.fields) := by
  obtain ⟨-, -, -, -, hperm, -⟩ := hsame
  have hentries : ∀ f : Fragmentation r,
      ((completeRequest config (f.request name)).header.entries.map
        fun entry ↦ (entry.1, entry.2.value)).Perm (fieldEntries f.fields) := by
    intro f
    show ((f.request name).header.entries.map _).Perm _
    rw [(f.uri_request name).2.1]
    simpa [OrderedMultimap.empty] using entries_addEntries_perm (fieldEntries f.fields)
      (OrderedMultimap.empty HeaderValue bytesLess)
  exact ((hentries first).symm.trans hperm).trans (hentries second)

/-! ### Messages that may be cut anywhere -/

/-- A header field that adds the same fields wherever it is cut: its value is empty, so that it has
no piece and nothing is added, or neither name nor value can be cut. -/
def FieldCutsAlike (field : Bytes × Bytes) : Prop :=
  field.2 = [] ∨ field.1.length ≤ 1 ∧ field.2.length ≤ 1

/-- Header fields in one piece each. -/
def wholeFields (fields : List (Bytes × Bytes)) : List (List Bytes × List Bytes) :=
  fields.map fun field ↦ (wholePiece field.1, wholePiece field.2)

theorem fieldFragments_wholeFields (fields : List (Bytes × Bytes)) :
    FieldFragments fields (wholeFields fields) := by
  induction fields with
  | nil => exact List.Forall₂.nil
  | cons field rest ih =>
    exact List.Forall₂.cons ⟨fragments_wholePiece field.1, fragments_wholePiece field.2⟩ ih

/-- A message in one piece for each span. -/
def Fragmentation.whole (r : RequestSpans) : Fragmentation r where
  url := wholePiece r.url
  url_fragments := fragments_wholePiece r.url
  fields := wholeFields (r.headers ++ r.trailers)
  fields_fragments := fieldFragments_wholeFields _
  body := wholePiece r.body
  body_fragments := fragments_wholePiece r.body

/-- Header fields that may be cut anywhere add the same fields for all cuts. -/
theorem fieldEntries_eq_of_cutsAlike {fields : List (Bytes × Bytes)}
    {pieces : List (List Bytes × List Bytes)} (hpieces : FieldFragments fields pieces)
    (halike : ∀ field ∈ fields, FieldCutsAlike field) :
    fieldEntries pieces = fieldEntries (wholeFields fields) := by
  induction hpieces with
  | nil => rfl
  | @cons field piece fields pieces hhead _ ih =>
    have hrest := ih fun field hmem ↦ halike field (List.mem_cons_of_mem _ hmem)
    have hfirst : (piece.2.map fun value ↦ ((piece.1.getLastD []).map toLower, value)) =
        (wholePiece field.2).map fun value ↦
          (((wholePiece field.1).getLastD []).map toLower, value) := by
      rcases halike field List.mem_cons_self with hempty | ⟨hname, hvalue⟩
      · rw [eq_wholePiece_of_short (by simp [hempty]) hhead.2, hempty]
        rfl
      · rw [eq_wholePiece_of_short hname hhead.1, eq_wholePiece_of_short hvalue hhead.2]
    show _ ++ fieldEntries pieces = _ ++ fieldEntries (wholeFields fields)
    rw [hrest]
    exact congrArg (· ++ _) hfirst

/-- The same fragmentation with other pieces of the URL. -/
def Fragmentation.withUrl {r : RequestSpans} (f : Fragmentation r) (url : List Bytes)
    (hurl : Fragments r.url url) : Fragmentation r :=
  { f with url := url, url_fragments := hurl }

/-- The same fragmentation with other pieces of the header fields. -/
def Fragmentation.withFields {r : RequestSpans} (f : Fragmentation r)
    (fields : List (List Bytes × List Bytes))
    (hfields : FieldFragments (r.headers ++ r.trailers) fields) : Fragmentation r :=
  { f with fields := fields, fields_fragments := hfields }

theorem FieldFragments.append {first second : List (Bytes × Bytes)}
    {pieces more : List (List Bytes × List Bytes)} (hfirst : FieldFragments first pieces)
    (hsecond : FieldFragments second more) :
    FieldFragments (first ++ second) (pieces ++ more) := by
  induction hfirst with
  | nil => exact hsecond
  | cons hhead _ ih => exact List.Forall₂.cons hhead ih

/-- A header field adds the same name and value pairs wherever it is cut only when its value is
empty or neither name nor value can be cut. -/
theorem fieldCutsAlike_of_perm {field : Bytes × Bytes} (hname : field.1 ≠ [])
    (hperm : ∀ name value, Fragments field.1 name → Fragments field.2 value →
      (value.map fun v ↦ ((name.getLastD []).map toLower, v)).Perm
        ((wholePiece field.2).map fun v ↦
          (((wholePiece field.1).getLastD []).map toLower, v))) : FieldCutsAlike field := by
  by_cases hvalue : field.2 = []
  · exact Or.inl hvalue
  have hwhole : ∀ {span : Bytes}, span ≠ [] → wholePiece span = [span] := fun {span} hspan ↦ by
    simp [wholePiece, hspan]
  refine Or.inr ⟨?_, ?_⟩
  · by_contra hlong
    have hcut : Fragments field.1 (cutPieces (field.1.length - 1) field.1) :=
      fragments_cutPieces (by omega) (by omega)
    have hlast := hperm _ _ hcut (fragments_wholePiece field.2)
    rw [hwhole hname, hwhole hvalue] at hlast
    have heq := congrArg Prod.fst (List.singleton_inj.mp (List.perm_singleton.mp hlast))
    have hlength := congrArg List.length heq
    simp only [cutPieces, List.getLastD_cons, List.getLastD_nil, List.length_map,
      List.length_drop] at hlength
    omega
  · by_contra hlong
    have hcut : Fragments field.2 (cutPieces 1 field.2) :=
      fragments_cutPieces (by omega) (by omega)
    have hlength := (hperm _ _ (fragments_wholePiece field.1) hcut).length_eq
    rw [hwhole hvalue] at hlength
    exact absurd hlength (by simp [cutPieces])

section Alike

variable {config : TlsConfig} {h : Http1Handler} {r : RequestSpans}
  (hcount : ∀ id ∈ h.openIds, id ≤ h.requestCount)

include hcount

/-- Two fragmentations of a message that is always assembled alike assemble the same content. -/
theorem AssembledAlike.sameContent (halike : AssembledAlike config h r)
    (first second : Fragmentation r) :
    (completeRequest config (first.request h.currHeaderName)).SameContent
      (completeRequest config (second.request h.currHeaderName)) := by
  obtain ⟨a, b, ha, hb, hsame⟩ := halike first second
  rw [Fragmentation.dispatched_eq config hcount] at ha hb
  rw [List.singleton_inj] at ha hb
  rw [ha, hb]
  exact hsame

theorem AssembledAlike.cutsAlike (halike : AssembledAlike config h r) : CutsAlike r.url := by
  let whole := Fragmentation.whole r
  have hcontent : ∀ {url : List Bytes}, Fragments r.url url →
      (fillFromPieces url).rawPath = (fillFromPieces (wholePiece r.url)).rawPath ∧
        orDefault (defaultScheme config) (fillFromPieces url).scheme =
          orDefault (defaultScheme config) (fillFromPieces (wholePiece r.url)).scheme := by
    intro url hurl
    obtain ⟨hscheme, -, hpath, -, -, -⟩ := halike.sameContent hcount (whole.withUrl url hurl) whole
    have huri := ((whole.withUrl url hurl).uri_request h.currHeaderName).1
    have huri' := (whole.uri_request h.currHeaderName).1
    change orDefault _ (Fragmentation.request _ _).uri.scheme =
      orDefault _ (Fragmentation.request _ _).uri.scheme at hscheme
    change (Fragmentation.request _ _).uri.rawPath = (Fragmentation.request _ _).uri.rawPath
      at hpath
    rw [huri, huri'] at hscheme hpath
    exact ⟨hpath, hscheme⟩
  have hdefault : 2 ≤ (defaultScheme config).length ∧ (defaultScheme config).length < 65535 := by
    unfold defaultScheme
    split_ifs <;> decide
  exact cutsAlike_of_fill hdefault.1 hdefault.2
    (fun i hpos hlt ↦ (hcontent (fragments_cutPieces hpos hlt)).1)
    (fun i hpos hlt ↦ (hcontent (fragments_cutPieces hpos hlt)).2)

theorem AssembledAlike.fieldCutsAlike (halike : AssembledAlike config h r) :
    ∀ field ∈ r.headers ++ r.trailers, FieldCutsAlike field := by
  intro field hmem
  refine fieldCutsAlike_of_perm (r.names_ne field hmem) fun name value hname hvalue ↦ ?_
  obtain ⟨before, after, hfields⟩ := List.append_of_mem hmem
  have hcut : FieldFragments (r.headers ++ r.trailers)
      (wholeFields before ++ (name, value) :: wholeFields after) := by
    rw [hfields]
    exact (fieldFragments_wholeFields before).append
      (List.Forall₂.cons ⟨hname, hvalue⟩ (fieldFragments_wholeFields after))
  have hwhole : FieldFragments (r.headers ++ r.trailers)
      (wholeFields before ++ (wholePiece field.1, wholePiece field.2) :: wholeFields after) := by
    rw [hfields]
    exact (fieldFragments_wholeFields before).append
      (List.Forall₂.cons ⟨fragments_wholePiece _, fragments_wholePiece _⟩
        (fieldFragments_wholeFields after))
  have hperm := perm_fieldEntries_of_sameContent (halike.sameContent hcount
    ((Fragmentation.whole r).withFields _ hcut) ((Fragmentation.whole r).withFields _ hwhole))
  change (fieldEntries (wholeFields before ++ (name, value) :: wholeFields after)).Perm
    (fieldEntries (wholeFields before ++ (wholePiece field.1, wholePiece field.2) ::
      wholeFields after)) at hperm
  simp only [fieldEntries, List.flatMap_append, List.flatMap_cons] at hperm
  exact (List.perm_append_right_iff _).mp ((List.perm_append_left_iff _).mp hperm)

/-- **A message is assembled alike however its spans are cut** exactly when its URL may be cut
anywhere and each of its header fields has an empty value or neither a name nor a value that can be
cut. -/
theorem assembledAlike_iff :
    AssembledAlike config h r ↔
      CutsAlike r.url ∧ ∀ field ∈ r.headers ++ r.trailers, FieldCutsAlike field := by
  refine ⟨fun halike ↦ ⟨halike.cutsAlike hcount, halike.fieldCutsAlike hcount⟩, ?_⟩
  rintro ⟨hurl, hfields⟩ first second
  refine ⟨_, _, first.dispatched_eq config hcount, second.dispatched_eq config hcount, ?_⟩
  obtain ⟨huri, hheader, hpayload⟩ := first.uri_request h.currHeaderName
  obtain ⟨huri', hheader', hpayload'⟩ := second.uri_request h.currHeaderName
  rw [fillFromPieces_eq_of_cutsAlike hurl first.url_fragments] at huri
  rw [fillFromPieces_eq_of_cutsAlike hurl second.url_fragments] at huri'
  rw [fieldEntries_eq_of_cutsAlike first.fields_fragments hfields] at hheader
  rw [fieldEntries_eq_of_cutsAlike second.fields_fragments hfields] at hheader'
  have hcomplete : completeUri config (first.request h.currHeaderName) =
      completeUri config (second.request h.currHeaderName) := by
    unfold completeUri
    rw [huri, huri', hheader, hheader']
  refine ⟨congrArg UriRef.scheme hcomplete, congrArg UriRef.host hcomplete,
    congrArg UriRef.rawPath hcomplete, congrArg UriRef.path hcomplete, ?_,
    hpayload.trans hpayload'.symm⟩
  show List.Perm (List.map _ (Fragmentation.request _ _).header.entries)
    (List.map _ (Fragmentation.request _ _).header.entries)
  rw [hheader, hheader']

end Alike

/-- A `POST` to `/` with a payload and no header fields. -/
def postRoot : RequestSpans where
  method := ascii "POST"
  url := ascii "/"
  headers := []
  body := ascii "payload"
  trailers := []
  shouldKeepAlive := true
  names_ne := by decide

theorem assembledAlike_postRoot : AssembledAlike ⟨[], []⟩ Http1Handler.initial postRoot :=
  (assembledAlike_iff (fun id hid ↦ absurd hid (by simp [Http1Handler.openIds,
    Http1Handler.initial, OrderedMap.keys, OrderedSet.empty]))).mpr
    ⟨Or.inl (by decide), fun field hmem ↦ absurd hmem List.not_mem_nil⟩

/-- A `GET` of `/abc` with a host. -/
def getAbc : RequestSpans where
  method := ascii "GET"
  url := ascii "/abc"
  headers := [(ascii "Host", ascii "maock")]
  body := []
  trailers := []
  shouldKeepAlive := true
  names_ne := by decide

/-- The URL of the message cut behind its second byte. -/
def getAbcCut : Fragmentation getAbc :=
  (Fragmentation.whole getAbc).withUrl (cutPieces 2 (ascii "/abc"))
    (fragments_cutPieces (by decide) (by decide))

/-- A read that ends within the URL: the part behind the cut is parsed on its own, and the path is
`/`. -/
theorem not_assembledAlike_cutUrl :
    (getAbcCut.dispatched ⟨[], []⟩ Http1Handler.initial).map (fun req ↦ req.uri.rawPath) =
        [ascii "/"] ∧
      ((Fragmentation.whole getAbc).dispatched ⟨[], []⟩ Http1Handler.initial).map
        (fun req ↦ req.uri.rawPath) = [ascii "/abc"] ∧
      ¬ AssembledAlike ⟨[], []⟩ Http1Handler.initial getAbc := by
  have hcut : (getAbcCut.dispatched ⟨[], []⟩ Http1Handler.initial).map
      (fun req ↦ req.uri.rawPath) = [ascii "/"] := by decide +kernel
  have hwhole : ((Fragmentation.whole getAbc).dispatched ⟨[], []⟩ Http1Handler.initial).map
      (fun req ↦ req.uri.rawPath) = [ascii "/abc"] := by decide +kernel
  refine ⟨hcut, hwhole, fun halike ↦ ?_⟩
  obtain ⟨a, b, ha, hb, -, -, hpath, -⟩ := halike getAbcCut (Fragmentation.whole getAbc)
  rw [ha] at hcut
  rw [hb] at hwhole
  have heq : ascii "/" = ascii "/abc" := by
    rw [← List.singleton_inj, ← hcut, ← hwhole, List.map_singleton, List.map_singleton, hpath]
  exact absurd heq (by decide)

end Maock.Http1
