import Mathlib.Logic.Function.Basic
import Maock.Json.ExtendedPointer

/-!
# Reading JSON by events

The handlers of StaticJSON, as the configuration is read with them. The reader of the JSON library
calls a handler once for every event of a document; a handler keeps the state that it needs between
two events and writes what it reads through a pointer. A handler of an array passes the events of an
element on to a handler of the element, a handler of an object those of a member to the handler of
the member; how deep an event lies is counted, since the handlers share the events that open and
close arrays and objects.

A call that returns `false` ends the reading. What it leaves is the trace of errors that
`reap_error` collects: the path to the value, and behind it what is wrong there.

The same handlers `write` a value, as the events that the writer of the JSON library is called
with.
-/

set_option autoImplicit false
set_option relaxedAutoImplicit false

namespace Maock.Config

open Foundation Foundation.Bytes Json

variable {Double : Type}

/-! ### Events -/

/-- The events of the reader, by the functions of `IHandler`. -/
inductive Event (Double : Type) where
  | null
  | bool (b : Bool)
  | int (n : ℤ)
  | uint (n : ℤ)
  | int64 (n : ℤ)
  | uint64 (n : ℤ)
  | double (x : Double)
  | string (s : Bytes)
  | startObject
  | key (name : Bytes)
  | endObject
  | startArray
  | endArray

/-- The event for an integer: the reader takes the first of its types that holds it. -/
def numberEvent (n : ℤ) : Event Double :=
  if 0 ≤ n then (if n < 2 ^ 32 then .uint n else .uint64 n)
  else if -2 ^ 31 ≤ n then .int n
  else .int64 n

mutual

/-- The events of a document, in their order. -/
def events : Value Double → List (Event Double)
  | .null => [.null]
  | .bool b => [.bool b]
  | .integer n => [numberEvent n]
  | .double x => [.double x]
  | .string s => [.string s]
  | .array elements => .startArray :: (elementEvents elements ++ [.endArray])
  | .object members => .startObject :: (memberEvents members ++ [.endObject])

def elementEvents : List (Value Double) → List (Event Double)
  | [] => []
  | v :: rest => events v ++ elementEvents rest

def memberEvents : List (Bytes × Value Double) → List (Event Double)
  | [] => []
  | (name, v) :: rest => .key name :: (events v ++ memberEvents rest)

end

/-! ### Errors -/

/-- The errors of the trace. -/
inductive ErrorEntry where
  | objectMember (name : Bytes)
  | arrayElement (index : ℕ)
  | missingRequired (names : List Bytes)
  | typeMismatch (expected actual : String)
  | numberOutOfRange (expected actual : String)
  | duplicateKey (name : Bytes)
  | corruptedDom
  deriving DecidableEq

/-- The trace that `reap_error` leaves, from the outermost handler inwards. -/
abbrev Trace := List ErrorEntry

/-- The names of the types in the errors of `BaseHandler`. -/
def Event.typeName : Event Double → String
  | .null => "null"
  | .bool _ => "bool"
  | .int _ => "int"
  | .uint _ => "unsigned"
  | .int64 _ => "int64_t"
  | .uint64 _ => "uint64_t"
  | .double _ => "double"
  | .string _ => "string"
  | .startObject | .key _ | .endObject => "object"
  | .startArray | .endArray => "array"

/-! ### Handlers -/

/-- A handler of values of a type: its state between two events, whether it `is_parsed`, and what an
event makes of the state and of the value behind its pointer. `write` is `none` where the writer
returns `false`. -/
structure Handler (Double α : Type) where
  typeName : String
  State : Type
  initial : State
  isParsed : State → Bool
  step : Event Double → State → α → Except Trace (State × α)
  write : α → Option (List (Event Double))

/-- The handler reads events one after the other. -/
def Handler.feed {α : Type} (h : Handler Double α) :
    List (Event Double) → h.State → α → Except Trace (h.State × α)
  | [], st, a => .ok (st, a)
  | e :: rest, st, a =>
    match h.step e st a with
    | .error trace => .error trace
    | .ok (st, a) => h.feed rest st a

/-! ### Values without parts -/

/-- A handler that takes a value from one event and writes it as one; `receive` is `none` for the
events that it has not overridden. Its state is `parsed`. -/
def scalarHandler {α : Type} (typeName : String)
    (receive : Event Double → Option (Except ErrorEntry α)) (write : α → Option (Event Double)) :
    Handler Double α where
  typeName := typeName
  State := Bool
  initial := false
  isParsed := id
  step e _ _ :=
    match receive e with
    | none => .error [.typeMismatch typeName e.typeName]
    | some (.error entry) => .error [entry]
    | some (.ok v) => .ok (true, v)
  write a := (write a).map fun e ↦ [e]

/-- `Handler<bool>`. -/
def boolHandler : Handler Double Bool :=
  scalarHandler "bool"
    (fun
      | .bool b => some (.ok b)
      | _ => none)
    fun b ↦ some (.bool b)

/-- `Handler<std::string>`. -/
def stringHandler : Handler Double Bytes :=
  scalarHandler "string"
    (fun
      | .string s => some (.ok s)
      | _ => none)
    fun s ↦ some (.string s)

/-- What the handlers use of floating point numbers. -/
structure DoubleLibrary (Double : Type) where
  /-- `static_cast<double>(n)`. -/
  ofInteger : ℤ → Double
  /-- The integer that a double is equal to. -/
  toInteger : Double → Option ℤ
  /-- The double that the reader makes of the text that the writer makes of a double. It is `none`
  for the doubles that the writer refuses. -/
  reread : Double → Option Double

section

variable {α : Type}

/-- `IntegerHandler<IntType>::receive`, for a type with these limits. -/
def receiveInteger (typeName : String) (least greatest : ℤ) (cast : ℤ → α) (n : ℤ)
    (actualType : String) : Except ErrorEntry α :=
  if n < least ∨ greatest < n then .error (.numberOutOfRange typeName actualType)
  else .ok (cast n)

/-- The events that `IntegerHandler<IntType>` overrides. -/
def receiveNumber (lib : DoubleLibrary Double) (typeName : String) (least greatest : ℤ)
    (cast : ℤ → α) : Event Double → Option (Except ErrorEntry α)
  | .int n => some (receiveInteger typeName least greatest cast n "int")
  | .uint n => some (receiveInteger typeName least greatest cast n "unsigned int")
  | .int64 n => some (receiveInteger typeName least greatest cast n "std::int64_t")
  | .uint64 n => some (receiveInteger typeName least greatest cast n "std::uint64_t")
  | .double x =>
    match lib.toInteger x with
    | none => some (.error (.numberOutOfRange typeName "double"))
    | some n => some (receiveInteger typeName least greatest cast n "double")
  | _ => none

/-- `IntegerHandler<IntType>`. -/
def integerHandler (lib : DoubleLibrary Double) (typeName : String) (least greatest : ℤ)
    (cast : ℤ → α) (write : α → Option (Event Double)) : Handler Double α :=
  scalarHandler typeName (receiveNumber lib typeName least greatest cast) write

end

/-- `Handler<uint32_t>`. -/
def uint32Handler (lib : DoubleLibrary Double) : Handler Double UInt32 :=
  integerHandler lib "unsigned int" 0 (2 ^ 32 - 1) (fun n ↦ UInt32.ofNat n.toNat)
    fun n ↦ some (.uint n.toNat)

/-- `Handler<int64_t>`. -/
def int64Handler (lib : DoubleLibrary Double) : Handler Double Int64 :=
  integerHandler lib "long" (-2 ^ 63) (2 ^ 63 - 1) Int64.ofInt fun n ↦ some (.int64 n.toInt)

/-- `Handler<uint64_t>`. -/
def uint64Handler (lib : DoubleLibrary Double) : Handler Double UInt64 :=
  integerHandler lib "unsigned long" 0 (2 ^ 64 - 1) (fun n ↦ UInt64.ofNat n.toNat)
    fun n ↦ some (.uint64 n.toNat)

/-- An integer of 64 bits as a double, which has to be equal to it. -/
def receiveWide (lib : DoubleLibrary Double) (n : ℤ) (actualType : String) :
    Except ErrorEntry Double :=
  if lib.toInteger (lib.ofInteger n) = some n then .ok (lib.ofInteger n)
  else .error (.numberOutOfRange "double" actualType)

/-- The events that `Handler<double>` overrides. -/
def receiveDouble (lib : DoubleLibrary Double) : Event Double → Option (Except ErrorEntry Double)
  | .int n => some (.ok (lib.ofInteger n))
  | .uint n => some (.ok (lib.ofInteger n))
  | .int64 n => some (receiveWide lib n "std::int64_t")
  | .uint64 n => some (receiveWide lib n "std::uint64_t")
  | .double x => some (.ok x)
  | _ => none

/-- `Handler<double>`. -/
def doubleHandler (lib : DoubleLibrary Double) : Handler Double Double :=
  scalarHandler "double" (receiveDouble lib) fun x ↦ (lib.reread x).map fun _ ↦ .double x

/-! ### Arrays -/

/-- The members of an `ArrayHandler`: the element with the state of its handler, the depth, and
`parsed`. -/
structure ArrayState (σ α : Type) where
  internal : σ
  element : α
  depth : ℤ
  parsed : Bool

namespace ArrayState

variable {α : Type} {h : Handler Double α}

/-- An `ArrayHandler` that has just been made; `fresh` is `ElementType()`. -/
def initial (h : Handler Double α) (fresh : α) : ArrayState h.State α where
  internal := h.initial
  element := fresh
  depth := 0
  parsed := false

/-- `postcheck(internal.…)`: an element that has been read is moved behind the others. -/
def forward (h : Handler Double α) (fresh : α) (e : Event Double) (st : ArrayState h.State α)
    (elements : List α) : Except Trace (ArrayState h.State α × List α) :=
  match h.step e st.internal st.element with
  | .error trace => .error (.arrayElement elements.length :: trace)
  | .ok (internal, element) =>
    if h.isParsed internal then
      .ok ({ st with internal := h.initial, element := fresh }, elements ++ [element])
    else .ok ({ st with internal := internal, element := element }, elements)

end ArrayState

/-- `Handler<std::vector<T>>`. -/
def arrayHandler {α : Type} (h : Handler Double α) (fresh : α) : Handler Double (List α) where
  typeName := "std::vector<" ++ h.typeName ++ ">"
  State := ArrayState h.State α
  initial := ArrayState.initial h fresh
  isParsed st := st.parsed
  step e st elements :=
    match e with
    | .startArray =>
      let st := { st with depth := st.depth + 1 }
      if (1 : ℤ) < st.depth then st.forward h fresh e elements else .ok (st, [])
    | .endArray =>
      let st := { st with depth := st.depth - 1 }
      if (0 : ℤ) < st.depth then st.forward h fresh e elements
      else .ok ({ st with parsed := true }, elements)
    | _ =>
      if st.depth ≤ 0 then
        .error [.typeMismatch ("std::vector<" ++ h.typeName ++ ">") e.typeName]
      else st.forward h fresh e elements
  write elements :=
    (elements.mapM h.write).map fun written ↦ .startArray :: (written.flatten ++ [.endArray])

/-! ### Objects -/

/-- A property of a class as `add_property` describes it: its name, whether `Flags::Optional` is
set, and its handler with the pointer to its place in the object. -/
structure Property (Double S : Type) where
  name : Bytes
  optional : Bool
  Place : Type
  handler : Handler Double Place
  get : S → Place
  set : Place → S → S
  get_set : ∀ v s, get (set v s) = v
  set_set : ∀ v v' s, set v (set v' s) = set v s

/-- The properties that `staticjson_init` adds to an `ObjectHandler`, in its order, and the order in
which the map `internals` keeps them. -/
structure Internals (Double S : Type) (n : ℕ) where
  property : Fin n → Property Double S
  order : List (Fin n)
  sorted : (order.map fun i ↦ (property i).name).IsChain fun a b ↦ bytesLess a b = true
  complete : ∀ i, i ∈ order

variable {S : Type} {n : ℕ}

namespace Internals

abbrev name (internals : Internals Double S n) (i : Fin n) : Bytes :=
  (internals.property i).name

abbrev Place (internals : Internals Double S n) (i : Fin n) : Type :=
  (internals.property i).Place

abbrev handler (internals : Internals Double S n) (i : Fin n) :
    Handler Double (internals.Place i) :=
  (internals.property i).handler

/-- `internals.find(name)`. -/
def find (internals : Internals Double S n) (name : Bytes) : Option (Fin n) :=
  internals.order.find? fun i ↦ internals.name i == name

/-- The names of the properties that a test picks, in the order of the map. -/
def namesWhere (internals : Internals Double S n) (test : Fin n → Bool) : List Bytes :=
  (internals.order.filter test).map internals.name

/-- The name and the value of a property, as an `ObjectHandler` writes them. -/
def writeMember (internals : Internals Double S n) (s : S) (i : Fin n) :
    Option (List (Event Double)) :=
  ((internals.handler i).write ((internals.property i).get s)).map fun value ↦
    .key (internals.name i) :: value

end Internals

/-- The members of an `ObjectHandler`; `states` holds the state of the handler of each property. -/
structure ObjectState (internals : Internals Double S n) where
  states : (i : Fin n) → (internals.handler i).State
  current : Option (Fin n)
  currentName : Bytes
  depth : ℤ
  parsed : Bool

namespace ObjectState

variable {internals : Internals Double S n}

/-- An `ObjectHandler` to which the properties have just been added. -/
def initial (internals : Internals Double S n) : ObjectState internals where
  states i := (internals.handler i).initial
  current := none
  currentName := []
  depth := 0
  parsed := false

/-- The handler of the member that is being read has read a value. -/
def currentParsed (st : ObjectState internals) : Bool :=
  st.current.elim false fun i ↦ (internals.handler i).isParsed (st.states i)

/-- `POSTCHECK(current->handler->…)`: the events of an unknown member are dropped. -/
def forward (e : Event Double) (st : ObjectState internals) (s : S) :
    Except Trace (ObjectState internals × S) :=
  match st.current with
  | none => .ok (st, s)
  | some i =>
    match (internals.handler i).step e (st.states i) ((internals.property i).get s) with
    | .error trace => .error (.objectMember st.currentName :: trace)
    | .ok (state, v) =>
      .ok ({ st with states := Function.update st.states i state },
        (internals.property i).set v s)

/-- The required properties without a value. -/
def missing (st : ObjectState internals) : List Bytes :=
  internals.namesWhere fun i ↦
    !(internals.property i).optional && !(internals.handler i).isParsed (st.states i)

/-- The names of the types in the errors of `ObjectHandler`. -/
def actualType : Event Double → String
  | .uint64 _ => "std::uint64_t"
  | .int64 _ => "std::int64_t"
  | e => e.typeName

end ObjectState

/-- `ObjectTypeHandler<T>`: an `ObjectHandler` with the properties that `staticjson_init` adds. -/
def objectHandler (internals : Internals Double S n) : Handler Double S where
  typeName := "object"
  State := ObjectState internals
  initial := ObjectState.initial internals
  isParsed st := st.parsed
  step e st s :=
    match e with
    | .startObject =>
      let st := { st with depth := st.depth + 1 }
      if (1 : ℤ) < st.depth then st.forward e s else .ok (st, s)
    | .endObject =>
      let st := { st with depth := st.depth - 1 }
      if (0 : ℤ) < st.depth then st.forward e s
      else if st.missing = [] then .ok ({ st with parsed := true }, s)
      else .error [.missingRequired st.missing]
    | .key name =>
      if st.depth ≤ 0 then .error [.corruptedDom]
      else if st.depth = 1 then
        .ok ({ st with currentName := name, current := internals.find name }, s)
      else st.forward e s
    | _ =>
      if st.depth ≤ 0 then .error [.typeMismatch "object" (ObjectState.actualType e)]
      else if st.currentParsed then .error [.duplicateKey st.currentName]
      else st.forward e s
  write s :=
    (internals.order.mapM (internals.writeMember s)).map fun written ↦
      .startObject :: (written.flatten ++ [.endObject])

end Maock.Config
