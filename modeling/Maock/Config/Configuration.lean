import Maock.Config.Schema

/-!
# Which configurations are accepted

What a configuration file has to look like, stated of the document and not of the handlers:
`IsConfiguration` gives the members of every object with what may stand in them. Members with other
names do not matter, and neither does the order.

`configuration_read` says that the handlers, event by event, read what a recursion over the document
reads, with the same trace where it fails; `configuration_accepted_iff` that they accept exactly the
documents that look like a configuration; `configuration_dumped` that reading a configuration that
has been dumped gives this configuration back.
-/

set_option autoImplicit false
set_option relaxedAutoImplicit false

namespace Maock.Config

open Foundation Foundation.Bytes Json Matching Answering

variable {Double : Type}

/-! ### What may stand in a member -/

def IsBool (v : Value Double) : Prop :=
  ∃ b, v = .bool b

def IsString (v : Value Double) : Prop :=
  ∃ s, v = .string s

/-- An integer within limits. A number with a fraction part of zero is one. -/
def IsInteger (lib : DoubleLibrary Double) (least greatest : ℤ) (v : Value Double) : Prop :=
  ∃ n, (v = .integer n ∨ ∃ x, v = .double x ∧ lib.toInteger x = some n) ∧
    least ≤ n ∧ n ≤ greatest

/-- A number; an integer of more than 32 bits has to be equal to a double. -/
def IsNumber (lib : DoubleLibrary Double) (v : Value Double) : Prop :=
  (∃ x, v = .double x) ∨ ∃ n, v = .integer n ∧
    (-2 ^ 31 ≤ n ∧ n < 2 ^ 32 ∨ lib.toInteger (lib.ofInteger n) = some n)

def IsArrayOf (p : Value Double → Prop) (v : Value Double) : Prop :=
  ∃ vs, v = .array vs ∧ ∀ w ∈ vs, p w

/-- A member of an object: its name, whether it may be left out, and what may stand in it. -/
structure MemberRule (Double : Type) where
  name : String
  optional : Bool
  conforms : Value Double → Prop

def MemberRule.Holds (rule : MemberRule Double) (members : List (Bytes × Value Double)) : Prop :=
  match members.lookup (ascii rule.name) with
  | some v => rule.conforms v
  | none => rule.optional = true

def IsObjectWith {n : ℕ} (rules : Fin n → MemberRule Double) (v : Value Double) : Prop :=
  ∃ members, v = .object members ∧ ∀ i, (rules i).Holds members

/-! ### The configuration -/

variable (lib : DoubleLibrary Double)

abbrev IsUint32 : Value Double → Prop := IsInteger lib 0 (2 ^ 32 - 1)

abbrev IsUint64 : Value Double → Prop := IsInteger lib 0 (2 ^ 64 - 1)

abbrev IsInt64 : Value Double → Prop := IsInteger lib (-2 ^ 63) (2 ^ 63 - 1)

def IsHeaderMatch : Value Double → Prop :=
  IsObjectWith ![
    ⟨"matchType", false, IsString⟩, ⟨"header-name", false, IsString⟩, ⟨"input", false, IsString⟩]

def IsPayloadMatch : Value Double → Prop :=
  IsObjectWith ![
    ⟨"matchType", false, IsString⟩, ⟨"JsonPointer", false, IsString⟩, ⟨"input", false, IsString⟩]

def IsRequestMatch : Value Double → Prop :=
  IsObjectWith ![
    ⟨"headers", false, IsArrayOf IsHeaderMatch⟩, ⟨"payload", true, IsArrayOf IsPayloadMatch⟩,
    ⟨"name", false, IsString⟩]

def IsArgument : Value Double → Prop :=
  IsObjectWith ![
    ⟨"type-of-value", false, IsString⟩, ⟨"value-identifier", true, IsString⟩,
    ⟨"regex", true, IsString⟩, ⟨"sub-string-start", true, IsInt64 lib⟩,
    ⟨"sub-string-length", true, IsInt64 lib⟩]

def IsTemplate (textName : String) : Value Double → Prop :=
  IsObjectWith ![
    ⟨textName, false, IsString⟩, ⟨"placeholder", false, IsString⟩,
    ⟨"arguments", false, IsArrayOf (IsArgument lib)⟩]

def IsResponse : Value Double → Prop :=
  IsObjectWith ![
    ⟨"status-code", false, IsUint32 lib⟩, ⟨"throttle-ratio", true, IsNumber lib⟩,
    ⟨"payload", true, IsTemplate lib "msg-payload"⟩,
    ⟨"additonalHeaders", true, IsArrayOf (IsTemplate lib "header")⟩,
    ⟨"luaScript", true, IsString⟩, ⟨"lua-offload", true, IsBool⟩, ⟨"name", false, IsString⟩,
    ⟨"weight", true, IsUint32 lib⟩]

def IsService : Value Double → Prop :=
  IsObjectWith ![
    ⟨"Request", false, IsRequestMatch⟩, ⟨"Responses", false, IsArrayOf (IsResponse lib)⟩]

/-- What a configuration file looks like. -/
def IsConfiguration : Value Double → Prop :=
  IsObjectWith ![
    ⟨"verbose", true, IsBool⟩, ⟨"address", false, IsString⟩, ⟨"port", false, IsUint32 lib⟩,
    ⟨"threads", false, IsUint32 lib⟩, ⟨"private-key-file", true, IsString⟩,
    ⟨"cert-file", true, IsString⟩, ⟨"caCert-file", true, IsString⟩, ⟨"mTLS", true, IsBool⟩,
    ⟨"max-concurrent-streams", true, IsUint32 lib⟩,
    ⟨"socket-receive-buffer-size", true, IsUint64 lib⟩,
    ⟨"socket-send-buffer-size", true, IsUint64 lib⟩,
    ⟨"header-table-size", true, IsUint64 lib⟩,
    ⟨"encoder-header-table-size", true, IsUint64 lib⟩, ⟨"window-bits", true, IsUint64 lib⟩,
    ⟨"connection-window-bits", true, IsUint64 lib⟩, ⟨"no-tls-proto", true, IsString⟩,
    ⟨"statistics-file", true, IsString⟩, ⟨"statistics-interval", true, IsUint32 lib⟩,
    ⟨"Service", false, IsArrayOf (IsService lib)⟩]

/-! ### What the handlers accept -/

variable {lib}

theorem conforms_ofBool (v : Value Double) :
    (Meaning.ofBool : Meaning lib boolHandler).Conforms v ↔ IsBool v := by
  unfold IsBool Meaning.ofBool Meaning.scalar
  cases v with
  | integer n =>
    simp only [firstEvent, numberEvent]
    split_ifs <;> simp
  | _ => simp [firstEvent]

theorem conforms_ofString (v : Value Double) :
    (Meaning.ofString : Meaning lib stringHandler).Conforms v ↔ IsString v := by
  unfold IsString Meaning.ofString Meaning.scalar
  cases v with
  | integer n =>
    simp only [firstEvent, numberEvent]
    split_ifs <;> simp
  | _ => simp [firstEvent]

theorem receiveInteger_ok_iff {α : Type} {typeName actualType : String} {least greatest n : ℤ}
    {cast : ℤ → α} : (∃ a, receiveInteger typeName least greatest cast n actualType = .ok a) ↔
      least ≤ n ∧ n ≤ greatest := by
  unfold receiveInteger
  split_ifs with h
  · simp only [exists_false, false_iff]
    omega
  · simp only [Except.ok.injEq, exists_eq', true_iff]
    omega

/-- Whichever type the reader takes for an integer, its limits decide. -/
theorem receiveNumber_ok_iff {α : Type} {typeName : String} {least greatest : ℤ} {cast : ℤ → α}
    (v : Value Double) :
    (∃ a, receiveNumber lib typeName least greatest cast (firstEvent v) = some (.ok a)) ↔
      IsInteger lib least greatest v := by
  unfold IsInteger
  cases v with
  | integer n =>
    simp only [firstEvent, numberEvent]
    split_ifs <;> simp [receiveNumber, receiveInteger_ok_iff]
  | double x =>
    cases hx : lib.toInteger x <;> simp [firstEvent, receiveNumber, hx, receiveInteger_ok_iff]
  | _ => simp [firstEvent, receiveNumber]

theorem conforms_ofUint32 (v : Value Double) :
    (Meaning.ofUint32 : Meaning lib (uint32Handler lib)).Conforms v ↔ IsUint32 lib v :=
  receiveNumber_ok_iff v

theorem conforms_ofInt64 (v : Value Double) :
    (Meaning.ofInt64 : Meaning lib (int64Handler lib)).Conforms v ↔ IsInt64 lib v :=
  receiveNumber_ok_iff v

theorem conforms_ofUint64 (v : Value Double) :
    (Meaning.ofUint64 : Meaning lib (uint64Handler lib)).Conforms v ↔ IsUint64 lib v :=
  receiveNumber_ok_iff v

theorem receiveWide_ok_iff {n : ℤ} {actualType : String} :
    (∃ x, receiveWide lib n actualType = .ok x) ↔ lib.toInteger (lib.ofInteger n) = some n := by
  unfold receiveWide
  split_ifs with h <;> simp [h]

theorem conforms_ofDouble (v : Value Double) :
    (Meaning.ofDouble : Meaning lib (doubleHandler lib)).Conforms v ↔ IsNumber lib v := by
  show (∃ a, receiveDouble lib (firstEvent v) = some (.ok a)) ↔ _
  unfold IsNumber
  cases v with
  | integer n =>
    have hnarrow : (∃ a, some (Except.ok (lib.ofInteger n) : Except ErrorEntry Double) =
        some (.ok a)) := ⟨_, rfl⟩
    simp only [firstEvent, numberEvent]
    split_ifs with hnonneg hlt hlt
    · simp only [receiveDouble, hnarrow, true_iff]
      exact Or.inr ⟨n, rfl, Or.inl ⟨by omega, hlt⟩⟩
    · simp only [receiveDouble, Option.some_inj, receiveWide_ok_iff, exists_false,
        false_or, Value.integer.injEq, exists_eq_left']
      exact (or_iff_right (by omega)).symm
    · simp only [receiveDouble, hnarrow, true_iff]
      exact Or.inr ⟨n, rfl, Or.inl ⟨hlt, by omega⟩⟩
    · simp only [receiveDouble, Option.some_inj, receiveWide_ok_iff, exists_false,
        false_or, Value.integer.injEq, exists_eq_left']
      exact (or_iff_right (by omega)).symm
  | _ => simp [firstEvent, receiveDouble]

/-! ### Objects by their rules -/

theorem conforms_array_iff {α : Type} {h : Handler Double α} {m : Meaning lib h} {fresh : α}
    {p : Value Double → Prop} (hp : ∀ v, m.Conforms v ↔ p v) (v : Value Double) :
    (m.array fresh).Conforms v ↔ IsArrayOf p v := by
  simp only [Meaning.array, IsArrayOf, hp]

/-- The rules of a class say what its handler asks of the members. -/
theorem conforms_object_iff {S : Type} {n : ℕ} {internals : Internals Double S n}
    {m : (i : Fin n) → Meaning lib (internals.handler i)} {rules : Fin n → MemberRule Double}
    (hrules : ∀ i, ascii (rules i).name = internals.name i ∧
      (rules i).optional = (internals.property i).optional ∧
      ∀ v, (m i).Conforms v ↔ (rules i).conforms v) {hmakeUp} (v : Value Double) :
    (Meaning.object m hmakeUp).Conforms v ↔ IsObjectWith rules v := by
  refine exists_congr fun members ↦ and_congr_right fun _ ↦ forall_congr' fun i ↦ ?_
  obtain ⟨hname, hoptional, hconforms⟩ := hrules i
  unfold Meaning.ConformsMember MemberRule.Holds
  rw [hname, hoptional]
  cases members.lookup (internals.name i) with
  | none => exact Iff.rfl
  | some w => exact hconforms w

theorem conforms_headerMatch (v : Value Double) :
    (headerMatchMeaning : Meaning lib _).Conforms v ↔ IsHeaderMatch v := by
  unfold headerMatchMeaning IsHeaderMatch
  refine conforms_object_iff (fun i ↦ ?_) v
  exact match i with
    | 0 | 1 | 2 => ⟨rfl, rfl, conforms_ofString⟩

theorem conforms_payloadMatch (v : Value Double) :
    (payloadMatchMeaning : Meaning lib _).Conforms v ↔ IsPayloadMatch v := by
  unfold payloadMatchMeaning IsPayloadMatch
  refine conforms_object_iff (fun i ↦ ?_) v
  exact match i with
    | 0 | 1 | 2 => ⟨rfl, rfl, conforms_ofString⟩

theorem conforms_requestMatch (v : Value Double) :
    (requestMatchMeaning : Meaning lib _).Conforms v ↔ IsRequestMatch v := by
  unfold requestMatchMeaning IsRequestMatch
  refine conforms_object_iff (fun i ↦ ?_) v
  exact match i with
    | 0 => ⟨rfl, rfl, conforms_array_iff conforms_headerMatch⟩
    | 1 => ⟨rfl, rfl, conforms_array_iff conforms_payloadMatch⟩
    | 2 => ⟨rfl, rfl, conforms_ofString⟩

theorem conforms_argument (v : Value Double) :
    (argumentMeaning lib).Conforms v ↔ IsArgument lib v := by
  unfold argumentMeaning IsArgument
  refine conforms_object_iff (fun i ↦ ?_) v
  exact match i with
    | 0 | 1 | 2 => ⟨rfl, rfl, conforms_ofString⟩
    | 3 | 4 => ⟨rfl, rfl, conforms_ofInt64⟩

variable {memory : Memory Double}

theorem conforms_template {textName : String} {sorted} (v : Value Double) :
    (templateMeaning lib memory textName sorted).Conforms v ↔ IsTemplate lib textName v := by
  unfold templateMeaning IsTemplate
  refine conforms_object_iff (fun i ↦ ?_) v
  exact match i with
    | 0 | 1 => ⟨rfl, rfl, conforms_ofString⟩
    | 2 => ⟨rfl, rfl, conforms_array_iff conforms_argument⟩

theorem conforms_response (v : Value Double) :
    (responseMeaning lib memory).Conforms v ↔ IsResponse lib v := by
  unfold responseMeaning IsResponse
  refine conforms_object_iff (fun i ↦ ?_) v
  exact match i with
    | 0 | 7 => ⟨rfl, rfl, conforms_ofUint32⟩
    | 1 => ⟨rfl, rfl, conforms_ofDouble⟩
    | 2 => ⟨rfl, rfl, conforms_template⟩
    | 3 => ⟨rfl, rfl, conforms_array_iff conforms_template⟩
    | 4 | 6 => ⟨rfl, rfl, conforms_ofString⟩
    | 5 => ⟨rfl, rfl, conforms_ofBool⟩

theorem conforms_service (v : Value Double) :
    (serviceMeaning lib memory).Conforms v ↔ IsService lib v := by
  unfold serviceMeaning IsService
  refine conforms_object_iff (fun i ↦ ?_) v
  exact match i with
    | 0 => ⟨rfl, rfl, conforms_requestMatch⟩
    | 1 => ⟨rfl, rfl, conforms_array_iff conforms_response⟩

theorem conforms_config (v : Value Double) :
    (configMeaning lib memory).Conforms v ↔ IsConfiguration lib v := by
  unfold configMeaning IsConfiguration
  refine conforms_object_iff (fun i ↦ ?_) v
  exact match i with
    | ⟨0, _⟩ | ⟨7, _⟩ => ⟨rfl, rfl, conforms_ofBool⟩
    | ⟨1, _⟩ | ⟨4, _⟩ | ⟨5, _⟩ | ⟨6, _⟩ | ⟨15, _⟩ | ⟨16, _⟩ => ⟨rfl, rfl, conforms_ofString⟩
    | ⟨2, _⟩ | ⟨3, _⟩ | ⟨8, _⟩ | ⟨17, _⟩ => ⟨rfl, rfl, conforms_ofUint32⟩
    | ⟨9, _⟩ | ⟨10, _⟩ | ⟨11, _⟩ | ⟨12, _⟩ | ⟨13, _⟩ | ⟨14, _⟩ => ⟨rfl, rfl, conforms_ofUint64⟩
    | ⟨18, _⟩ => ⟨rfl, rfl, conforms_array_iff conforms_service⟩
    | ⟨_ + 19, h⟩ => absurd h (by omega)

/-! ### Which doubles are read again as they are -/

theorem exact_requestMatch (s : SchemaRequestMatch) :
    (requestMatchMeaning : Meaning lib _).Exact s := fun i ↦
  match i with
  | 0 => fun _ _ i ↦ match i with
    | 0 | 1 | 2 => trivial
  | 1 => fun _ _ i ↦ match i with
    | 0 | 1 | 2 => trivial
  | 2 => trivial

theorem exact_template {textName : String} {sorted} (s : SchemaTemplate) :
    (templateMeaning lib memory textName sorted).Exact s := fun i ↦
  match i with
  | 0 | 1 => trivial
  | 2 => fun _ _ i ↦ match i with
    | 0 | 1 | 2 | 3 | 4 => trivial

theorem exact_response {s : SchemaResponseToReturn Double}
    (hexact : lib.reread s.throttleRatio = some s.throttleRatio) :
    (responseMeaning lib memory).Exact s := fun i ↦
  match i with
  | 0 | 4 | 5 | 6 | 7 => trivial
  | 1 => hexact
  | 2 => exact_template s.payload
  | 3 => fun header _ ↦ exact_template header

/-- The throttle ratios are the only doubles of a configuration. -/
theorem exact_config {config : H2ServerConfigSchema Double}
    (hexact : ∀ service ∈ config.service, ∀ response ∈ service.responseGroup,
      lib.reread response.throttleRatio = some response.throttleRatio) :
    (configMeaning lib memory).Exact config := by
  intro i
  exact match i with
    | ⟨0, _⟩ | ⟨1, _⟩ | ⟨2, _⟩ | ⟨3, _⟩ | ⟨4, _⟩ | ⟨5, _⟩ | ⟨6, _⟩ | ⟨7, _⟩ | ⟨8, _⟩ | ⟨9, _⟩
    | ⟨10, _⟩ | ⟨11, _⟩ | ⟨12, _⟩ | ⟨13, _⟩ | ⟨14, _⟩ | ⟨15, _⟩ | ⟨16, _⟩ | ⟨17, _⟩ => trivial
    | ⟨18, _⟩ => fun service hservice i ↦ match i with
      | 0 => exact_requestMatch service.request
      | 1 => fun response hresponse ↦ exact_response (hexact service hservice response hresponse)
    | ⟨_ + 19, h⟩ => absurd h (by omega)

/-! ### Reading and dumping -/

variable (lib) (memory)

/-- **The handlers read, event by event, what a recursion over the document reads.** Where the
recursion fails they stop with its trace. -/
theorem configuration_read {v : Value Double} (hunique : UniqueNames v) :
    fromJsonString lib memory (events v) =
      (configMeaning lib memory).decode v (H2ServerConfigSchema.initial memory) := by
  have hcomputes := (configMeaning lib memory).computes
  unfold fromJsonString
  cases hdecode : (configMeaning lib memory).decode v (H2ServerConfigSchema.initial memory) with
  | error trace =>
    have hfeed := hcomputes.of_error v hunique _ trace hdecode
    exact congrArg (Except.map Prod.snd) hfeed
  | ok config =>
    obtain ⟨st, hfeed, -⟩ := hcomputes.of_ok v hunique _ config hdecode
    exact congrArg (Except.map Prod.snd) hfeed

/-- Numbers without a fraction part, as doubles. -/
def wholeNumbers : DoubleLibrary ℤ where
  ofInteger := id
  toInteger := some
  reread := some

def clearedMemory : Memory ℤ where
  substringLength := 0
  statusCode := 0
  throttleRatio := 0
  weight := 0
  port := 0
  threads := 0

/-- The service of a configuration file: requests with one header field get one response. -/
def smallService : Value ℤ :=
  .object [
    (ascii "Request", .object [
      (ascii "name", .string (ascii "ping")),
      (ascii "headers", .array [
        .object [(ascii "matchType", .string (ascii "EqualsTo")),
          (ascii "header-name", .string (ascii "x-id")), (ascii "input", .string (ascii "1"))]])]),
    (ascii "Responses", .array [
      .object [(ascii "name", .string (ascii "pong")), (ascii "status-code", .integer 200),
        (ascii "weight", .integer 3), (ascii "throttle-ratio", .double 10),
        (ascii "additonalHeaders", .array [
          .object [(ascii "header", .string (ascii "a:1")), (ascii "placeholder", .string []),
            (ascii "arguments", .array [])]])]])]

/-- A configuration with this service, and with a member that does not belong to it. -/
def smallDocument : Value ℤ :=
  .object [(ascii "threads", .integer 1), (ascii "address", .string (ascii "::")),
    (ascii "comment", .array [.null]), (ascii "port", .integer 8080),
    (ascii "Service", .array [smallService])]

theorem uniqueNames_smallDocument : UniqueNames smallDocument := by
  simp only [smallDocument, smallService, UniqueNames, UniqueMembers, UniqueElements]
  decide

theorem configuration_read_small :
    fromJsonString wholeNumbers clearedMemory (events smallDocument) =
      .ok { H2ServerConfigSchema.initial clearedMemory with
        threads := 1
        address := ascii "::"
        port := 8080
        service := [⟨⟨[⟨ascii "EqualsTo", ascii "x-id", ascii "1"⟩], [], ascii "ping"⟩,
          [{ SchemaResponseToReturn.initial clearedMemory with
            name := ascii "pong"
            statusCode := 200
            weight := 3
            throttleRatio := 10
            additonalHeaders := [⟨ascii "a:1", [], []⟩] }]⟩] } :=
  (configuration_read wholeNumbers clearedMemory uniqueNames_smallDocument).trans rfl

/-- **The documents that are accepted are those that look like a configuration.** -/
theorem configuration_accepted_iff {v : Value Double} (hunique : UniqueNames v) :
    (∃ config, fromJsonString lib memory (events v) = .ok config) ↔ IsConfiguration lib v := by
  rw [configuration_read lib memory hunique, (configMeaning lib memory).decode_ok_iff v hunique]
  exact conforms_config v

theorem configuration_accepted_small : IsConfiguration wholeNumbers smallDocument :=
  (configuration_accepted_iff wholeNumbers clearedMemory uniqueNames_smallDocument).mp ⟨_, rfl⟩

theorem fileOrText_of_none {files : Bytes → Option Bytes} {text : Bytes}
    (h : files text = none) : fileOrText files text = text := by
  unfold fileOrText
  rw [h]
  split_ifs <;> rfl

/-- Texts that name no file are left as they are. -/
theorem postProcess_eq_self {files : Bytes → Option Bytes} {config : H2ServerConfigSchema Double}
    (hfiles : ∀ service ∈ config.service, ∀ response ∈ service.responseGroup,
      files response.payload.text = none ∧ files response.luaScript = none) :
    config.postProcess files = config := by
  have hresponses : ∀ service ∈ config.service,
      service.responseGroup.map (SchemaResponseToReturn.postProcess files) =
        service.responseGroup := by
    intro service hservice
    refine (List.map_congr_left fun response hresponse ↦ ?_).trans (List.map_id _)
    obtain ⟨hpayload, hscript⟩ := hfiles service hservice response hresponse
    unfold SchemaResponseToReturn.postProcess
    rw [fileOrText_of_none hpayload, fileOrText_of_none hscript]
    rfl
  have hservices : config.service.map (fun service ↦
      { service with
        responseGroup := service.responseGroup.map (SchemaResponseToReturn.postProcess files) }) =
      config.service :=
    (List.map_congr_left fun service hservice ↦ by rw [hresponses service hservice]; rfl).trans
      (List.map_id _)
  unfold H2ServerConfigSchema.postProcess
  rw [hservices]

/-- **A configuration that has been dumped is read back.** Its dump does not fail, and parsed and
post-processed it is the configuration again. -/
theorem configuration_dumped {files : Bytes → Option Bytes}
    {config : H2ServerConfigSchema Double}
    (hexact : ∀ service ∈ config.service, ∀ response ∈ service.responseGroup,
      lib.reread response.throttleRatio = some response.throttleRatio)
    (hfiles : ∀ service ∈ config.service, ∀ response ∈ service.responseGroup,
      files response.payload.text = none ∧ files response.luaScript = none) :
    ∃ written, toJsonString lib memory config = some written ∧
      readConfiguration lib memory files (written.map lib.rereadEvent) = .ok config := by
  obtain ⟨written, hwrite, st, hfeed⟩ := (configMeaning lib memory).feed_write
    (exact_config hexact) (H2ServerConfigSchema.initial memory)
  refine ⟨written, hwrite, ?_⟩
  have hread : fromJsonString lib memory (written.map lib.rereadEvent) = .ok config :=
    congrArg (Except.map Prod.snd) hfeed
  rw [readConfiguration, hread]
  exact congrArg Except.ok (postProcess_eq_self hfiles)

/-- A configuration with a service and a response. -/
def smallConfiguration : H2ServerConfigSchema ℤ :=
  { H2ServerConfigSchema.initial clearedMemory with
    threads := 1
    service := [⟨⟨[], [], ascii "ping"⟩,
      [{ SchemaResponseToReturn.initial clearedMemory with throttleRatio := 10 }]⟩] }

theorem configuration_dumped_small :
    ∃ written, toJsonString wholeNumbers clearedMemory smallConfiguration = some written ∧
      readConfiguration wholeNumbers clearedMemory (fun _ ↦ none)
        (written.map wholeNumbers.rereadEvent) = .ok smallConfiguration :=
  configuration_dumped wholeNumbers clearedMemory (fun _ _ _ _ ↦ rfl) fun _ _ _ _ ↦ ⟨rfl, rfl⟩

end Maock.Config
