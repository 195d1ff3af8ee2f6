import Maock.Config.Objects

/-!
# The meaning of a handler

What a handler is for, next to the handler: the decoder that it computes, the documents that it
accepts, and the document that it writes a value as (`Meaning`). The meaning of a handler is built
from those of its parts: `Meaning.scalar` for values without parts, `Meaning.array` and
`Meaning.object`.

The reader makes of a written text what the writer was told, but for the types of the numbers
(`DoubleLibrary.rereadEvent`). A value that is read from its own document is the value again
(`decode_document`), so that a handler that reads what it wrote gives the value back
(`Meaning.feed_write`).
-/

set_option autoImplicit false
set_option relaxedAutoImplicit false

namespace Maock.Config

open Foundation Foundation.Bytes Json

variable {Double α : Type} {lib : DoubleLibrary Double}

/-- The event that the reader makes of the text of an event. An integer has no type in the text. -/
def DoubleLibrary.rereadEvent (lib : DoubleLibrary Double) : Event Double → Event Double
  | .int n | .uint n | .int64 n | .uint64 n => numberEvent n
  | .double x => .double ((lib.reread x).getD x)
  | e => e

/-- What a handler is for. -/
structure Meaning (lib : DoubleLibrary Double) (h : Handler Double α) where
  decode : Decoder Double α
  computes : Computes h decode
  /-- The documents that the handler accepts. -/
  Conforms : Value Double → Prop
  decode_ok_iff : ∀ v, UniqueNames v → ∀ a, (∃ a', decode v a = .ok a') ↔ Conforms v
  /-- The doubles in a value are read again as they are. -/
  Exact : α → Prop
  /-- The document that a value is written as. -/
  document : α → Value Double
  unique_document : ∀ a, UniqueNames (document a)
  write_eq : ∀ a, Exact a →
    ∃ written, h.write a = some written ∧ written.map lib.rereadEvent = events (document a)
  decode_document : ∀ a, Exact a → ∀ b, decode (document a) b = .ok a

namespace Meaning

variable {h : Handler Double α}

/-- The handler accepts the events of exactly the documents that conform. -/
theorem feed_ok_iff (m : Meaning lib h) {v : Value Double} (hunique : UniqueNames v) (a : α) :
    (∃ st a', h.feed (events v) h.initial a = .ok (st, a')) ↔ m.Conforms v := by
  rw [← m.decode_ok_iff v hunique a]
  constructor
  · rintro ⟨st, a', hfeed⟩
    cases hdecode : m.decode v a with
    | ok a'' => exact ⟨a'', rfl⟩
    | error trace => simp [m.computes.of_error v hunique a trace hdecode] at hfeed
  · rintro ⟨a', hdecode⟩
    obtain ⟨st, hfeed, -⟩ := m.computes.of_ok v hunique a a' hdecode
    exact ⟨st, a', hfeed⟩

/-- A handler that reads what it wrote gives the value back. -/
theorem feed_write (m : Meaning lib h) {a : α} (hexact : m.Exact a) (b : α) :
    ∃ written, h.write a = some written ∧
      ∃ st, h.feed (written.map lib.rereadEvent) h.initial b = .ok (st, a) := by
  obtain ⟨written, hwrite, hreread⟩ := m.write_eq a hexact
  refine ⟨written, hwrite, ?_⟩
  rw [hreread]
  obtain ⟨st, hfeed, -⟩ := m.computes.of_ok _ (m.unique_document a) b a
    (m.decode_document a hexact b)
  exact ⟨st, hfeed⟩

/-! ### Values without parts -/

/-- The meaning of a scalar handler, from what it makes of the document that it writes. -/
def scalar (typeName : String) {receive : Event Double → Option (Except ErrorEntry α)}
    {write : α → Option (Event Double)} (harray : receive .startArray = none)
    (hobject : receive .startObject = none) (Exact : α → Prop) (document : α → Value Double)
    (hunique : ∀ a, UniqueNames (document a))
    (hwrite : ∀ a, Exact a → ∃ e, write a = some e ∧ events (document a) = [lib.rereadEvent e] ∧
      firstEvent (document a) = lib.rereadEvent e ∧ receive (lib.rereadEvent e) = some (.ok a)) :
    Meaning lib (scalarHandler typeName receive write) where
  decode := decodeScalar typeName receive
  computes := computes_scalar typeName harray hobject
  Conforms v := ∃ a, receive (firstEvent v) = some (.ok a)
  decode_ok_iff v _ a := by
    unfold decodeScalar
    rcases receive (firstEvent v) with _ | _ | a' <;> simp
  Exact := Exact
  document := document
  unique_document := hunique
  write_eq a hexact := by
    obtain ⟨e, he, hevents, -⟩ := hwrite a hexact
    exact ⟨[e], by simp [scalarHandler, he], hevents.symm⟩
  decode_document a hexact b := by
    obtain ⟨e, -, -, hfirst, hreceive⟩ := hwrite a hexact
    rw [decodeScalar, hfirst, hreceive]

/-- `Handler<bool>` reads and writes truth values. -/
def ofBool : Meaning lib boolHandler :=
  scalar "bool" rfl rfl (fun _ ↦ True) .bool (fun _ ↦ trivial) fun b _ ↦
    ⟨.bool b, rfl, rfl, rfl, rfl⟩

/-- `Handler<std::string>` reads and writes strings. -/
def ofString : Meaning lib stringHandler :=
  scalar "string" rfl rfl (fun _ ↦ True) .string (fun _ ↦ trivial) fun s _ ↦
    ⟨.string s, rfl, rfl, rfl, rfl⟩

/-- An integer is received by its value, whichever of the types the reader takes. -/
theorem receiveNumber_numberEvent {typeName : String} {least greatest n : ℤ} {cast : ℤ → α}
    (hleast : least ≤ n) (hgreatest : n ≤ greatest) :
    receiveNumber lib typeName least greatest cast (numberEvent n) = some (.ok (cast n)) := by
  have hreceive : ∀ actualType,
      receiveInteger typeName least greatest cast n actualType = .ok (cast n) := fun _ ↦
    if_neg (by omega)
  unfold numberEvent
  split_ifs <;> simp only [receiveNumber, hreceive]

/-- `IntegerHandler<IntType>`, of a type with these limits that is written as an integer. -/
def integer (typeName : String) {least greatest : ℤ} {cast : ℤ → α}
    {write : α → Option (Event Double)} (value : α → ℤ)
    (hwrite : ∀ a, ∃ e, write a = some e ∧ lib.rereadEvent e = numberEvent (value a))
    (hvalue : ∀ a, least ≤ value a ∧ value a ≤ greatest ∧ cast (value a) = a) :
    Meaning lib (integerHandler lib typeName least greatest cast write) :=
  scalar typeName rfl rfl (fun _ ↦ True) (fun a ↦ .integer (value a)) (fun _ ↦ trivial)
    fun a _ ↦ by
    obtain ⟨e, he, hreread⟩ := hwrite a
    obtain ⟨hleast, hgreatest, hcast⟩ := hvalue a
    refine ⟨e, he, ?_⟩
    rw [hreread, receiveNumber_numberEvent hleast hgreatest, hcast]
    exact ⟨rfl, rfl, rfl⟩

def ofUint32 : Meaning lib (uint32Handler lib) :=
  integer "unsigned int" (fun n ↦ n.toNat) (fun n ↦ ⟨.uint n.toNat, rfl, rfl⟩) fun n ↦ by
    have hlt := n.toNat_lt
    exact ⟨by omega, by omega, by simp⟩

def ofInt64 : Meaning lib (int64Handler lib) :=
  integer "long" Int64.toInt (fun n ↦ ⟨.int64 n.toInt, rfl, rfl⟩) fun n ↦ by
    have hlt := n.toInt_lt
    have hle := n.le_toInt
    exact ⟨by omega, by omega, by simp⟩

def ofUint64 : Meaning lib (uint64Handler lib) :=
  integer "unsigned long" (fun n ↦ n.toNat) (fun n ↦ ⟨.uint64 n.toNat, rfl, rfl⟩) fun n ↦ by
    have hlt := n.toNat_lt
    exact ⟨by omega, by omega, by simp⟩

/-- `Handler<double>` writes the doubles that the writer takes. -/
def ofDouble : Meaning lib (doubleHandler lib) :=
  scalar "double" rfl rfl (fun x ↦ lib.reread x = some x) .double (fun _ ↦ trivial)
    fun x hexact ↦ by
    refine ⟨.double x, by rw [hexact]; rfl, ?_⟩
    simp [DoubleLibrary.rereadEvent, hexact, events, firstEvent, receiveDouble]

/-! ### Arrays -/

theorem mapM_cons_eq_some {β γ : Type} {f : β → Option γ} {b : β} {bs : List β} {c : γ}
    {rest : List γ} (hb : f b = some c) (hbs : bs.mapM f = some rest) :
    (b :: bs).mapM f = some (c :: rest) := by
  simp [List.mapM_cons, hb, hbs]

/-- The elements are read again as they were. -/
theorem decodeElements_document (m : Meaning lib h) {fresh : α} {as : List α}
    (hexact : ∀ a ∈ as, m.Exact a) (elements : List α) :
    decodeElements m.decode fresh (as.map m.document) elements = .ok (elements ++ as) := by
  induction as generalizing elements with
  | nil => simp [decodeElements]
  | cons a as ih =>
    rw [List.map_cons, decodeElements, m.decode_document a (hexact a (by simp)) fresh]
    dsimp only
    rw [ih (fun a ha ↦ hexact a (List.mem_cons_of_mem _ ha)), List.append_assoc]
    rfl

theorem write_elements (m : Meaning lib h) {as : List α} (hexact : ∀ a ∈ as, m.Exact a) :
    ∃ written, as.mapM h.write = some written ∧
      written.flatten.map lib.rereadEvent = elementEvents (as.map m.document) := by
  induction as with
  | nil => exact ⟨[], rfl, rfl⟩
  | cons a as ih =>
    obtain ⟨first, hfirst, hreread⟩ := m.write_eq a (hexact a (by simp))
    obtain ⟨rest, hrest, hrereads⟩ := ih fun a ha ↦ hexact a (List.mem_cons_of_mem _ ha)
    refine ⟨first :: rest, mapM_cons_eq_some hfirst hrest, ?_⟩
    rw [List.flatten_cons, List.map_append, hreread, hrereads]
    rfl

theorem decodeElements_ok_iff (m : Meaning lib h) {fresh : α} {vs : List (Value Double)}
    (hunique : UniqueElements vs) (elements : List α) :
    (∃ as, decodeElements m.decode fresh vs elements = .ok as) ↔ ∀ v ∈ vs, m.Conforms v := by
  induction vs generalizing elements with
  | nil => simp [decodeElements]
  | cons v vs ih =>
    have hfirst := m.decode_ok_iff v hunique.1 fresh
    rw [List.forall_mem_cons, ← hfirst, decodeElements]
    cases hdecode : m.decode v fresh with
    | error trace => simp
    | ok a =>
      dsimp only
      rw [ih hunique.2]
      simp

theorem unique_elements (m : Meaning lib h) (as : List α) :
    UniqueElements (as.map m.document) := by
  induction as with
  | nil => trivial
  | cons a as ih => exact ⟨m.unique_document a, ih⟩

/-- Arrays of values with a meaning. -/
def array (m : Meaning lib h) (fresh : α) : Meaning lib (arrayHandler h fresh) where
  decode := decodeArray (arrayHandler h fresh).typeName m.decode fresh
  computes := computes_array m.computes fresh
  Conforms v := ∃ vs, v = .array vs ∧ ∀ w ∈ vs, m.Conforms w
  decode_ok_iff v hunique a := by
    by_cases hv : ∃ vs, v = .array vs
    · obtain ⟨vs, rfl⟩ := hv
      refine (m.decodeElements_ok_iff hunique []).trans ?_
      simp
    · rw [decodeArray_not_array (not_exists.mp hv)]
      simp only [reduceCtorEq, exists_false, false_iff]
      rintro ⟨vs, rfl, -⟩
      exact hv ⟨vs, rfl⟩
  Exact as := ∀ a ∈ as, m.Exact a
  document as := .array (as.map m.document)
  unique_document as := m.unique_elements as
  write_eq as hexact := by
    obtain ⟨written, hwritten, hreread⟩ := m.write_elements hexact
    refine ⟨.startArray :: (written.flatten ++ [.endArray]), by simp [arrayHandler, hwritten], ?_⟩
    rw [List.map_cons, List.map_append, hreread]
    rfl
  decode_document as hexact b := m.decodeElements_document hexact []

/-! ### Objects -/

section

variable {S : Type} {n : ℕ} {internals : Internals Double S n}

/-- With distinct names a lookup finds every member. -/
theorem lookup_eq_some_iff {members : List (Bytes × Value Double)}
    (hnodup : (members.map Prod.fst).Nodup) {name : Bytes} {v : Value Double} :
    members.lookup name = some v ↔ (name, v) ∈ members := by
  induction members with
  | nil => simp
  | cons member rest ih =>
    obtain ⟨other, w⟩ := member
    obtain ⟨hfresh, hnodup⟩ := List.nodup_cons.mp hnodup
    rw [List.lookup_cons, List.mem_cons, Prod.mk.injEq]
    by_cases hname : name = other
    · subst hname
      have hmem : (name, v) ∉ rest := fun hv ↦
        hfresh (List.mem_map.mpr ⟨(name, v), hv, rfl⟩)
      simp [hmem, eq_comm]
    · rw [beq_false_of_ne hname]
      simpa [hname] using ih hnodup

theorem lookup_eq_none_iff {members : List (Bytes × Value Double)} {name : Bytes} :
    members.lookup name = none ↔ name ∉ members.map Prod.fst := by
  rw [List.lookup_eq_none_iff, List.mem_map, not_exists]
  refine forall_congr' fun member ↦ ?_
  rw [not_and, bne_iff_ne, ne_comm, ne_eq]

/-- The member with the name of a property conforms, and is there unless it is optional. -/
def ConformsMember (m : (i : Fin n) → Meaning lib (internals.handler i))
    (members : List (Bytes × Value Double)) (i : Fin n) : Prop :=
  match members.lookup (internals.name i) with
  | some v => (m i).Conforms v
  | none => (internals.property i).optional = true

/-- The document of a property and its name. -/
def memberOf (m : (i : Fin n) → Meaning lib (internals.handler i)) (s : S) (i : Fin n) :
    Bytes × Value Double :=
  (internals.name i, (m i).document ((internals.property i).get s))

variable (m : (i : Fin n) → Meaning lib (internals.handler i))

theorem decodeMembers_ok_iff {members : List (Bytes × Value Double)}
    (hunique : UniqueMembers members) (s : S) :
    (∃ s', decodeMembers internals (fun i ↦ (m i).decode) members s = .ok s') ↔
      ∀ member ∈ members, ∀ i, internals.find member.1 = some i → (m i).Conforms member.2 := by
  induction members generalizing s with
  | nil => simp [decodeMembers]
  | cons member rest ih =>
    obtain ⟨name, v⟩ := member
    rw [List.forall_mem_cons, decodeMembers, decodeMember]
    cases hfind : internals.find name with
    | none => simp [ih hunique.2]
    | some i =>
      have hfirst := (m i).decode_ok_iff v hunique.1 ((internals.property i).get s)
      have hall : (∀ j, some i = some j → (m j).Conforms v) ↔ (m i).Conforms v :=
        ⟨fun h ↦ h i rfl, fun h j hj ↦ Option.some_inj.mp hj ▸ h⟩
      dsimp only
      rw [hall, ← hfirst]
      cases hdecode : (m i).decode v ((internals.property i).get s) with
      | error trace => simp
      | ok a =>
        dsimp only
        rw [ih hunique.2]
        simp

theorem absentNames_eq_nil_iff {names : List Bytes} :
    absentNames internals names = [] ↔
      ∀ i, internals.name i ∈ names ∨ (internals.property i).optional = true := by
  unfold absentNames Internals.namesWhere
  rw [List.map_eq_nil_iff, List.filter_eq_nil_iff]
  refine ⟨fun h i ↦ ?_, fun h i _ ↦ ?_⟩
  · have hi := h i (internals.complete i)
    simp only [Bool.and_eq_true, Bool.not_eq_true', List.contains_eq_mem, decide_eq_false_iff_not,
      not_and, not_not] at hi
    by_cases hoptional : (internals.property i).optional = true
    · exact Or.inr hoptional
    · exact Or.inl (hi (by simpa using hoptional))
  · rcases h i with hname | hoptional
    · simp [hname]
    · simp [hoptional]

/-- An object is accepted when every property finds its member. -/
theorem decodeObject_ok_iff {members : List (Bytes × Value Double)}
    (hunique : UniqueNames (.object members)) (s : S) :
    (∃ s', decodeObject internals (fun i ↦ (m i).decode) (.object members) s = .ok s') ↔
      ∀ i, ConformsMember m members i := by
  have hlookup : ∀ name v, members.lookup name = some v ↔ (name, v) ∈ members := fun _ _ ↦
    lookup_eq_some_iff hunique.1
  calc (∃ s', decodeObject internals (fun i ↦ (m i).decode) (.object members) s = .ok s')
      ↔ (∃ s', decodeMembers internals (fun i ↦ (m i).decode) members s = .ok s') ∧
          absentNames internals (members.map Prod.fst) = [] := by
        rw [decodeObject]
        cases decodeMembers internals (fun i ↦ (m i).decode) members s with
        | error trace => simp
        | ok s' =>
          dsimp only
          split_ifs with habsent
          · simp [habsent]
          · simp [habsent]
    _ ↔ ∀ i, ConformsMember m members i := by
        rw [decodeMembers_ok_iff m hunique.2, absentNames_eq_nil_iff]
        refine ⟨fun h i ↦ ?_, fun h ↦ ⟨fun member hmember i hfind ↦ ?_, fun i ↦ ?_⟩⟩
        · unfold ConformsMember
          cases hmember : members.lookup (internals.name i) with
          | none => exact (h.2 i).resolve_left (lookup_eq_none_iff.mp hmember)
          | some v => exact h.1 _ ((hlookup _ _).mp hmember) i (internals.find_name i)
        · have hi := h i
          rw [ConformsMember, Internals.find_some hfind,
            (hlookup member.1 member.2).mpr hmember] at hi
          exact hi
        · have hi := h i
          unfold ConformsMember at hi
          cases hmember : members.lookup (internals.name i) with
          | none =>
            rw [hmember] at hi
            exact Or.inr hi
          | some v => exact Or.inl (List.mem_map_of_mem ((hlookup _ _).mp hmember))

/-- The written members, read into any object, set each property to what it was. -/
theorem decodeMembers_memberOf {s : S} (hexact : ∀ i, (m i).Exact ((internals.property i).get s))
    (is : List (Fin n)) (b : S) :
    decodeMembers internals (fun i ↦ (m i).decode) (is.map (memberOf m s)) b =
      .ok (is.foldl (fun b i ↦ (internals.property i).set ((internals.property i).get s) b) b) := by
  induction is generalizing b with
  | nil => rfl
  | cons i is ih =>
    have hdecode := (m i).decode_document _ (hexact i) ((internals.property i).get b)
    rw [List.map_cons, memberOf, decodeMembers, decodeMember, internals.find_name]
    dsimp only
    rw [hdecode]
    exact ih _

theorem write_members {s : S} (hexact : ∀ i, (m i).Exact ((internals.property i).get s))
    (is : List (Fin n)) :
    ∃ written, is.mapM (internals.writeMember s) = some written ∧
      written.flatten.map lib.rereadEvent = memberEvents (is.map (memberOf m s)) := by
  induction is with
  | nil => exact ⟨[], rfl, rfl⟩
  | cons i is ih =>
    obtain ⟨value, hvalue, hreread⟩ := (m i).write_eq _ (hexact i)
    obtain ⟨rest, hrest, hrereads⟩ := ih
    refine ⟨(.key (internals.name i) :: value) :: rest,
      mapM_cons_eq_some (by rw [Internals.writeMember, hvalue]; rfl) hrest, ?_⟩
    rw [List.flatten_cons, List.map_append, List.map_cons, hreread, hrereads]
    rfl

theorem unique_members (s : S) (is : List (Fin n)) : UniqueMembers (is.map (memberOf m s)) := by
  induction is with
  | nil => trivial
  | cons i is ih => exact ⟨(m i).unique_document _, ih⟩

theorem map_fst_memberOf (s : S) (is : List (Fin n)) :
    (is.map (memberOf m s)).map Prod.fst = is.map internals.name := by
  rw [List.map_map]
  rfl

variable (internals) in
/-- The properties make up the object: setting all of them makes it of any other. -/
def MakeUp : Prop :=
  ∀ s b : S, internals.order.foldl
    (fun b i ↦ (internals.property i).set ((internals.property i).get s) b) b = s

/-- Objects of a class whose properties have a meaning and make up the object. -/
def object (hmakeUp : MakeUp internals) : Meaning lib (objectHandler internals) where
  decode := decodeObject internals fun i ↦ (m i).decode
  computes := computes_object fun i ↦ (m i).computes
  Conforms v := ∃ members, v = .object members ∧ ∀ i, ConformsMember m members i
  decode_ok_iff v hunique s := by
    by_cases hv : ∃ members, v = .object members
    · obtain ⟨members, rfl⟩ := hv
      rw [decodeObject_ok_iff m hunique s]
      simp
    · rw [decodeObject_not_object (not_exists.mp hv)]
      simp only [reduceCtorEq, exists_false, false_iff]
      rintro ⟨members, rfl, -⟩
      exact hv ⟨members, rfl⟩
  Exact s := ∀ i, (m i).Exact ((internals.property i).get s)
  document s := .object (internals.order.map (memberOf m s))
  unique_document s := by
    refine ⟨?_, unique_members m s internals.order⟩
    rw [map_fst_memberOf]
    exact internals.nodup_names
  write_eq s hexact := by
    obtain ⟨written, hwritten, hreread⟩ := write_members m hexact internals.order
    refine ⟨.startObject :: (written.flatten ++ [.endObject]), by simp [objectHandler, hwritten],
      ?_⟩
    rw [List.map_cons, List.map_append, hreread]
    rfl
  decode_document s hexact b := by
    have hnone : absentNames internals (internals.order.map internals.name) = [] :=
      absentNames_eq_nil_iff.mpr fun i ↦ Or.inl (List.mem_map_of_mem (internals.complete i))
    rw [decodeObject, decodeMembers_memberOf m hexact]
    dsimp only
    rw [map_fst_memberOf, if_pos hnone, hmakeUp]

end

end Meaning

end Maock.Config
