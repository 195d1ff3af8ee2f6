import Mathlib.Data.Fin.VecNotation
import Maock.Answering.Substring
import Maock.Config.Meaning
import Maock.Matching.Server

/-!
# The configuration schema

The classes of `H2Server_Config_Schema.h` with the properties that their `staticjson_init` adds, and
what `start_server` makes of a configuration: `fromJsonString` reads the events of a document into
`H2Server_Config_Schema()`, `postProcess` replaces the names of files by what they contain.

`Memory` stands for the members that the constructors leave without a value. Every class has a
meaning that is put together from those of its properties; the classes are written in the order in
which the header declares them.
-/

set_option autoImplicit false
set_option relaxedAutoImplicit false

namespace Maock.Config

open Foundation Foundation.Bytes Json Matching Answering

variable {Double : Type} {lib : DoubleLibrary Double}

/-- `add_property(name, pointer, flags)`. -/
def addProperty {α S : Type} (name : String) (optional : Bool) (handler : Handler Double α)
    (get : S → α) (set : α → S → S) (get_set : ∀ v s, get (set v s) = v := by intros; rfl)
    (set_set : ∀ v v' s, set v (set v' s) = set v s := by intros; rfl) : Property Double S where
  name := ascii name
  optional := optional
  Place := α
  handler := handler
  get := get
  set := set
  get_set := get_set
  set_set := set_set

/-! ### Requests -/

/-- `Schema_Header_Match::staticjson_init`. -/
def headerMatchInternals : Internals Double SchemaHeaderMatch 3 where
  property := ![
    addProperty "matchType" false stringHandler (·.matchType) fun v s ↦ { s with matchType := v },
    addProperty "header-name" false stringHandler (·.header) fun v s ↦ { s with header := v },
    addProperty "input" false stringHandler (·.input) fun v s ↦ { s with input := v }]
  order := [1, 2, 0]
  sorted := show ([ascii "header-name", ascii "input", ascii "matchType"]).IsChain _ by decide
  complete := by decide

def headerMatchMeaning : Meaning lib (objectHandler headerMatchInternals) :=
  Meaning.object
    (fun i ↦ match i with
      | 0 | 1 | 2 => Meaning.ofString)
    fun _ _ ↦ rfl

/-- `Schema_Payload_Match::staticjson_init`. -/
def payloadMatchInternals : Internals Double SchemaPayloadMatch 3 where
  property := ![
    addProperty "matchType" false stringHandler (·.matchType) fun v s ↦ { s with matchType := v },
    addProperty "JsonPointer" false stringHandler (·.jsonPointer) fun v s ↦
      { s with jsonPointer := v },
    addProperty "input" false stringHandler (·.input) fun v s ↦ { s with input := v }]
  order := [1, 2, 0]
  sorted := show ([ascii "JsonPointer", ascii "input", ascii "matchType"]).IsChain _ by decide
  complete := by decide

def payloadMatchMeaning : Meaning lib (objectHandler payloadMatchInternals) :=
  Meaning.object
    (fun i ↦ match i with
      | 0 | 1 | 2 => Meaning.ofString)
    fun _ _ ↦ rfl

/-- `Schema_Request_Match::staticjson_init`. -/
def requestMatchInternals : Internals Double SchemaRequestMatch 3 where
  property := ![
    addProperty "headers" false (arrayHandler (objectHandler headerMatchInternals) ⟨[], [], []⟩)
      (·.headerMatch) fun v s ↦ { s with headerMatch := v },
    addProperty "payload" true (arrayHandler (objectHandler payloadMatchInternals) ⟨[], [], []⟩)
      (·.payloadMatch) fun v s ↦ { s with payloadMatch := v },
    addProperty "name" false stringHandler (·.name) fun v s ↦ { s with name := v }]
  order := [0, 2, 1]
  sorted := show ([ascii "headers", ascii "name", ascii "payload"]).IsChain _ by decide
  complete := by decide

def requestMatchMeaning : Meaning lib (objectHandler requestMatchInternals) :=
  Meaning.object
    (fun i ↦ match i with
      | 0 => Meaning.array headerMatchMeaning ⟨[], [], []⟩
      | 1 => Meaning.array payloadMatchMeaning ⟨[], [], []⟩
      | 2 => Meaning.ofString)
    fun _ _ ↦ rfl

/-! ### Responses -/

/-- What stands in the members that no constructor gives a value: one value for each member, which
is found in every object that has it. -/
structure Memory (Double : Type) where
  substringLength : Int64
  statusCode : UInt32
  throttleRatio : Double
  weight : UInt32
  port : UInt32
  threads : UInt32

variable (lib : DoubleLibrary Double) (memory : Memory Double)

/-- `Schema_Argument::staticjson_init`. -/
def argumentInternals : Internals Double SchemaArgument 5 where
  property := ![
    addProperty "type-of-value" false stringHandler (·.typeOfValue) fun v s ↦
      { s with typeOfValue := v },
    addProperty "value-identifier" true stringHandler (·.valueIdentifier) fun v s ↦
      { s with valueIdentifier := v },
    addProperty "regex" true stringHandler (·.regex) fun v s ↦ { s with regex := v },
    addProperty "sub-string-start" true (int64Handler lib) (·.substringStart) fun v s ↦
      { s with substringStart := v },
    addProperty "sub-string-length" true (int64Handler lib) (·.substringLength) fun v s ↦
      { s with substringLength := v }]
  order := [2, 4, 3, 0, 1]
  sorted := show ([ascii "regex", ascii "sub-string-length", ascii "sub-string-start",
    ascii "type-of-value", ascii "value-identifier"]).IsChain _ by decide
  complete := by decide

def argumentMeaning : Meaning lib (objectHandler (argumentInternals lib)) :=
  Meaning.object
    (fun i ↦ match i with
      | 0 | 1 | 2 => Meaning.ofString
      | 3 | 4 => Meaning.ofInt64)
    fun _ _ ↦ rfl

/-- `Handler<std::vector<Schema_Argument>>`. -/
def argumentsHandler : Handler Double (List SchemaArgument) :=
  arrayHandler (objectHandler (argumentInternals lib))
    (SchemaArgument.initial memory.substringLength)

/-- The properties of a text with placeholders; the classes of such texts differ in the name of the
text. -/
def templateInternals (textName : String)
    (sorted : ([ascii "arguments", ascii textName, ascii "placeholder"]).IsChain
      fun a b ↦ bytesLess a b = true) : Internals Double SchemaTemplate 3 where
  property := ![
    addProperty textName false stringHandler (·.text) fun v s ↦ { s with text := v },
    addProperty "placeholder" false stringHandler (·.placeholder) fun v s ↦
      { s with placeholder := v },
    addProperty "arguments" false (argumentsHandler lib memory) (·.arguments) fun v s ↦
      { s with arguments := v }]
  order := [2, 0, 1]
  sorted := sorted
  complete := by decide

/-- `Schema_Response_Payload::staticjson_init`. -/
def responsePayloadInternals : Internals Double SchemaTemplate 3 :=
  templateInternals lib memory "msg-payload" (by decide)

/-- `Schema_Response_Header::staticjson_init`. -/
def responseHeaderInternals : Internals Double SchemaTemplate 3 :=
  templateInternals lib memory "header" (by decide)

def templateMeaning (textName : String)
    (sorted : ([ascii "arguments", ascii textName, ascii "placeholder"]).IsChain
      fun a b ↦ bytesLess a b = true) :
    Meaning lib (objectHandler (templateInternals lib memory textName sorted)) :=
  Meaning.object
    (fun i ↦ match i with
      | 0 | 1 => Meaning.ofString
      | 2 => Meaning.array (argumentMeaning lib) (SchemaArgument.initial memory.substringLength))
    fun _ _ ↦ rfl

/-- `Schema_Response_To_Return`. -/
structure SchemaResponseToReturn (Double : Type) where
  statusCode : UInt32
  throttleRatio : Double
  payload : SchemaTemplate
  additonalHeaders : List SchemaTemplate
  luaScript : Bytes
  luaOffload : Bool
  weight : UInt32
  name : Bytes

/-- `Schema_Response_To_Return()`. -/
def SchemaResponseToReturn.initial : SchemaResponseToReturn Double where
  statusCode := memory.statusCode
  throttleRatio := memory.throttleRatio
  payload := ⟨[], [], []⟩
  additonalHeaders := []
  luaScript := []
  luaOffload := false
  weight := memory.weight
  name := []

/-- `Schema_Response_To_Return::staticjson_init`. -/
def responseInternals : Internals Double (SchemaResponseToReturn Double) 8 where
  property := ![
    addProperty "status-code" false (uint32Handler lib) (·.statusCode) fun v s ↦
      { s with statusCode := v },
    addProperty "throttle-ratio" true (doubleHandler lib) (·.throttleRatio) fun v s ↦
      { s with throttleRatio := v },
    addProperty "payload" true (objectHandler (responsePayloadInternals lib memory)) (·.payload)
      fun v s ↦ { s with payload := v },
    addProperty "additonalHeaders" true
      (arrayHandler (objectHandler (responseHeaderInternals lib memory)) ⟨[], [], []⟩)
      (·.additonalHeaders) fun v s ↦ { s with additonalHeaders := v },
    addProperty "luaScript" true stringHandler (·.luaScript) fun v s ↦ { s with luaScript := v },
    addProperty "lua-offload" true boolHandler (·.luaOffload) fun v s ↦
      { s with luaOffload := v },
    addProperty "name" false stringHandler (·.name) fun v s ↦ { s with name := v },
    addProperty "weight" true (uint32Handler lib) (·.weight) fun v s ↦ { s with weight := v }]
  order := [3, 5, 4, 6, 2, 0, 1, 7]
  sorted := show ([ascii "additonalHeaders", ascii "lua-offload", ascii "luaScript",
    ascii "name", ascii "payload", ascii "status-code", ascii "throttle-ratio",
    ascii "weight"]).IsChain _ by decide
  complete := by decide

theorem makeUp_response : Meaning.MakeUp (responseInternals lib memory) := by
  intro s b
  simp [responseInternals, addProperty]

def responseMeaning : Meaning lib (objectHandler (responseInternals lib memory)) :=
  Meaning.object
    (fun i ↦ match i with
      | 0 | 7 => Meaning.ofUint32
      | 1 => Meaning.ofDouble
      | 2 => templateMeaning lib memory "msg-payload" _
      | 3 => Meaning.array (templateMeaning lib memory "header" _) ⟨[], [], []⟩
      | 4 | 6 => Meaning.ofString
      | 5 => Meaning.ofBool)
    (makeUp_response lib memory)

/-! ### Services -/

/-- `Schema_Service`, with the responses as they are configured. -/
abbrev ConfiguredService (Double : Type) := SchemaService (List (SchemaResponseToReturn Double))

/-- `Schema_Service::staticjson_init`. -/
def serviceInternals : Internals Double (ConfiguredService Double) 2 where
  property := ![
    addProperty "Request" false (objectHandler requestMatchInternals) (·.request) fun v s ↦
      { s with request := v },
    addProperty "Responses" false
      (arrayHandler (objectHandler (responseInternals lib memory))
        (SchemaResponseToReturn.initial memory))
      (·.responseGroup) fun v s ↦ { s with responseGroup := v }]
  order := [0, 1]
  sorted := show ([ascii "Request", ascii "Responses"]).IsChain _ by decide
  complete := by decide

def serviceMeaning : Meaning lib (objectHandler (serviceInternals lib memory)) :=
  Meaning.object
    (fun i ↦ match i with
      | 0 => requestMatchMeaning
      | 1 => Meaning.array (responseMeaning lib memory) (SchemaResponseToReturn.initial memory))
    fun _ _ ↦ rfl

/-! ### The configuration -/

/-- `H2Server_Config_Schema`, but for `no_tls_proto_enum`, which no property names. -/
structure H2ServerConfigSchema (Double : Type) where
  verbose : Bool
  address : Bytes
  port : UInt32
  threads : UInt32
  privateKeyFile : Bytes
  certFile : Bytes
  caCertFile : Bytes
  enableMTLS : Bool
  maxConcurrentStreams : UInt32
  sktRecvBufferSize : UInt64
  sktSendBufferSize : UInt64
  windowBits : UInt64
  connectionWindowBits : UInt64
  headerTableSize : UInt64
  encoderHeaderTableSize : UInt64
  noTlsProto : Bytes
  service : List (ConfiguredService Double)
  statisticsFile : Bytes
  statisticsInterval : UInt32

/-- `H2Server_Config_Schema()`. -/
def H2ServerConfigSchema.initial : H2ServerConfigSchema Double where
  verbose := false
  address := []
  port := memory.port
  threads := memory.threads
  privateKeyFile := []
  certFile := []
  caCertFile := []
  enableMTLS := false
  maxConcurrentStreams := 2048
  sktRecvBufferSize := 4 * 1024 * 1024
  sktSendBufferSize := 4 * 1024 * 1024
  windowBits := 30
  connectionWindowBits := 30
  headerTableSize := 4096
  encoderHeaderTableSize := 4096
  noTlsProto := ascii "h2c"
  service := []
  statisticsFile := []
  statisticsInterval := 1

/-- `H2Server_Config_Schema::staticjson_init`. -/
def configInternals : Internals Double (H2ServerConfigSchema Double) 19 where
  property := ![
    addProperty "verbose" true boolHandler (·.verbose) fun v s ↦ { s with verbose := v },
    addProperty "address" false stringHandler (·.address) fun v s ↦ { s with address := v },
    addProperty "port" false (uint32Handler lib) (·.port) fun v s ↦ { s with port := v },
    addProperty "threads" false (uint32Handler lib) (·.threads) fun v s ↦ { s with threads := v },
    addProperty "private-key-file" true stringHandler (·.privateKeyFile) fun v s ↦
      { s with privateKeyFile := v },
    addProperty "cert-file" true stringHandler (·.certFile) fun v s ↦ { s with certFile := v },
    addProperty "caCert-file" true stringHandler (·.caCertFile) fun v s ↦
      { s with caCertFile := v },
    addProperty "mTLS" true boolHandler (·.enableMTLS) fun v s ↦ { s with enableMTLS := v },
    addProperty "max-concurrent-streams" true (uint32Handler lib) (·.maxConcurrentStreams)
      fun v s ↦ { s with maxConcurrentStreams := v },
    addProperty "socket-receive-buffer-size" true (uint64Handler lib) (·.sktRecvBufferSize)
      fun v s ↦ { s with sktRecvBufferSize := v },
    addProperty "socket-send-buffer-size" true (uint64Handler lib) (·.sktSendBufferSize)
      fun v s ↦ { s with sktSendBufferSize := v },
    addProperty "header-table-size" true (uint64Handler lib) (·.headerTableSize) fun v s ↦
      { s with headerTableSize := v },
    addProperty "encoder-header-table-size" true (uint64Handler lib) (·.encoderHeaderTableSize)
      fun v s ↦ { s with encoderHeaderTableSize := v },
    addProperty "window-bits" true (uint64Handler lib) (·.windowBits) fun v s ↦
      { s with windowBits := v },
    addProperty "connection-window-bits" true (uint64Handler lib) (·.connectionWindowBits)
      fun v s ↦ { s with connectionWindowBits := v },
    addProperty "no-tls-proto" true stringHandler (·.noTlsProto) fun v s ↦
      { s with noTlsProto := v },
    addProperty "statistics-file" true stringHandler (·.statisticsFile) fun v s ↦
      { s with statisticsFile := v },
    addProperty "statistics-interval" true (uint32Handler lib) (·.statisticsInterval) fun v s ↦
      { s with statisticsInterval := v },
    addProperty "Service" false
      (arrayHandler (objectHandler (serviceInternals lib memory)) ⟨⟨[], [], []⟩, []⟩)
      (·.service) fun v s ↦ { s with service := v }]
  order := [18, 1, 6, 5, 14, 12, 11, 7, 8, 15, 2, 4, 9, 10, 16, 17, 3, 0, 13]
  sorted := show ([ascii "Service", ascii "address", ascii "caCert-file", ascii "cert-file",
    ascii "connection-window-bits", ascii "encoder-header-table-size", ascii "header-table-size",
    ascii "mTLS", ascii "max-concurrent-streams", ascii "no-tls-proto", ascii "port",
    ascii "private-key-file", ascii "socket-receive-buffer-size",
    ascii "socket-send-buffer-size", ascii "statistics-file", ascii "statistics-interval",
    ascii "threads", ascii "verbose", ascii "window-bits"]).IsChain _ by decide
  complete := by decide

def configMeanings : (i : Fin 19) → Meaning lib ((configInternals lib memory).handler i)
  | ⟨0, _⟩ | ⟨7, _⟩ => Meaning.ofBool
  | ⟨1, _⟩ | ⟨4, _⟩ | ⟨5, _⟩ | ⟨6, _⟩ | ⟨15, _⟩ | ⟨16, _⟩ => Meaning.ofString
  | ⟨2, _⟩ | ⟨3, _⟩ | ⟨8, _⟩ | ⟨17, _⟩ => Meaning.ofUint32
  | ⟨9, _⟩ | ⟨10, _⟩ | ⟨11, _⟩ | ⟨12, _⟩ | ⟨13, _⟩ | ⟨14, _⟩ => Meaning.ofUint64
  | ⟨18, _⟩ => Meaning.array (serviceMeaning lib memory) ⟨⟨[], [], []⟩, []⟩
  | ⟨_ + 19, h⟩ => absurd h (by omega)

theorem makeUp_config : Meaning.MakeUp (configInternals lib memory) := by
  intro s b
  simp [configInternals, addProperty]

def configMeaning : Meaning lib (objectHandler (configInternals lib memory)) :=
  Meaning.object (configMeanings lib memory) (makeUp_config lib memory)

/-- `from_json_string(str, &config_schema, &result)` with the events of the document that the reader
reads in the string. -/
def fromJsonString (document : List (Event Double)) : Except Trace (H2ServerConfigSchema Double) :=
  ((objectHandler (configInternals lib memory)).feed document
    (ObjectState.initial (configInternals lib memory)) (H2ServerConfigSchema.initial memory)).map
      Prod.snd

/-- `to_pretty_json_string(config_schema)`, as the events that the writer is called with. -/
def toJsonString (config : H2ServerConfigSchema Double) : Option (List (Event Double)) :=
  (objectHandler (configInternals lib memory)).write config

/-- What a text is replaced by that is taken for the name of a file; `files` has the files that can
be opened. -/
def fileOrText (files : Bytes → Option Bytes) (text : Bytes) : Bytes :=
  if text = [] then text else (files text).getD text

/-- The loop of `config_post_process` over the responses. -/
def SchemaResponseToReturn.postProcess (files : Bytes → Option Bytes)
    (response : SchemaResponseToReturn Double) : SchemaResponseToReturn Double :=
  { response with
    payload := { response.payload with text := fileOrText files response.payload.text }
    luaScript := fileOrText files response.luaScript }

/-- `config_post_process`, as far as it changes what the properties name. -/
def H2ServerConfigSchema.postProcess (files : Bytes → Option Bytes)
    (config : H2ServerConfigSchema Double) : H2ServerConfigSchema Double :=
  { config with
    service := config.service.map fun service ↦
      { service with
        responseGroup := service.responseGroup.map (SchemaResponseToReturn.postProcess files) } }

/-- `from_json_string` and `config_post_process`: the configuration that `start_server` has read, in
front of what it makes of it. -/
def readConfiguration (files : Bytes → Option Bytes) (document : List (Event Double)) :
    Except Trace (H2ServerConfigSchema Double) :=
  (fromJsonString lib memory document).map (H2ServerConfigSchema.postProcess files)

end Maock.Config
