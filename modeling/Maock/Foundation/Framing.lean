import Mathlib.Data.List.Forall2
import Mathlib.Tactic.Common

/-!
# Messages in a stream

A format for messages that follow one another in a stream without anything between them (`Format`):
an encoding, a reader, and the condition under which a message is read back. What the reader expects
may depend on what it has asked for, which is a key of the message. The one law of a format is that
the reader takes exactly the encoding of a message that it can read off the front of the stream.

`readAll_eq_some_iff` says that a sequence of messages is read back exactly when each of them can be
read, and `exists_readArrived` that a reader who has seen a part of the stream only has read the
first messages of the stream, and no others.
-/

set_option autoImplicit false
set_option relaxedAutoImplicit false

namespace Maock.Foundation.Framing

variable {κ μ α : Type*}

/-- A format for messages in a stream. -/
structure Format (κ μ α : Type*) where
  encode : μ → List α
  Readable : κ → μ → Prop
  read : κ → List α → Option (μ × List α)
  read_eq_some_iff : ∀ key message stream rest,
    read key stream = some (message, rest) ↔ Readable key message ∧ stream = encode message ++ rest

namespace Format

variable (F : Format κ μ α)

/-- The messages for these keys, and what is left of the stream. -/
def readAll : List κ → List α → Option (List μ × List α)
  | [], stream => some ([], stream)
  | key :: keys, stream =>
    (F.read key stream).bind fun (message, rest) ↦
      (readAll keys rest).map fun (messages, rest) ↦ (message :: messages, rest)

/-- The messages for these keys that have arrived as a whole. -/
def readArrived : List κ → List α → List μ
  | [], _ => []
  | key :: keys, stream =>
    match F.read key stream with
    | none => []
    | some (message, rest) => message :: readArrived keys rest

variable {F}

/-- A message that can be read is read off the front of every stream. -/
theorem read_encode {key : κ} {message : μ} (h : F.Readable key message) (rest : List α) :
    F.read key (F.encode message ++ rest) = some (message, rest) :=
  (F.read_eq_some_iff _ _ _ _).mpr ⟨h, rfl⟩

/-- What is read does not depend on what arrives later. -/
theorem read_append {key : κ} {message : μ} {stream rest : List α}
    (h : F.read key stream = some (message, rest)) (later : List α) :
    F.read key (stream ++ later) = some (message, rest ++ later) := by
  obtain ⟨hreadable, rfl⟩ := (F.read_eq_some_iff _ _ _ _).mp h
  rw [List.append_assoc]
  exact read_encode hreadable _

/-- A sequence of messages is read exactly when each can be read and the stream begins with their
encodings. -/
theorem readAll_eq_some_iff {keys : List κ} {messages : List μ} {stream rest : List α} :
    F.readAll keys stream = some (messages, rest) ↔
      List.Forall₂ F.Readable keys messages ∧ stream = messages.flatMap F.encode ++ rest := by
  induction keys generalizing messages stream with
  | nil =>
    constructor
    · intro h
      obtain ⟨rfl, rfl⟩ := Prod.mk.inj (Option.some_inj.mp h)
      exact ⟨List.Forall₂.nil, rfl⟩
    · rintro ⟨hforall, rfl⟩
      rw [List.forall₂_nil_left_iff.mp hforall]
      rfl
  | cons key keys ih =>
    unfold readAll
    constructor
    · intro h
      obtain ⟨⟨message, middle⟩, hread, hrest⟩ := Option.bind_eq_some_iff.mp h
      obtain ⟨⟨others, last⟩, hothers, heq⟩ := Option.map_eq_some_iff.mp hrest
      obtain ⟨rfl, rfl⟩ := Prod.mk.inj heq
      obtain ⟨hreadable, rfl⟩ := (F.read_eq_some_iff _ _ _ _).mp hread
      obtain ⟨hforall, rfl⟩ := ih.mp hothers
      exact ⟨List.Forall₂.cons hreadable hforall, by rw [List.flatMap_cons, List.append_assoc]⟩
    · rintro ⟨hforall, rfl⟩
      obtain ⟨message, others, hreadable, hothers, rfl⟩ := List.forall₂_cons_left_iff.mp hforall
      have hrest : F.readAll keys (others.flatMap F.encode ++ rest) = some (others, rest) :=
        ih.mpr ⟨hothers, rfl⟩
      rw [List.flatMap_cons, List.append_assoc, read_encode hreadable, Option.bind_some]
      dsimp only
      rw [hrest]
      rfl

/-- A reader who has seen the beginning of a stream of messages that can be read has read the first
of them, up to the first one that has not arrived as a whole. -/
theorem exists_readArrived {keys : List κ} {messages : List μ}
    (hreadable : List.Forall₂ F.Readable keys messages) {arrived : List α}
    (harrived : arrived <+: messages.flatMap F.encode) :
    ∃ n ≤ messages.length, ∃ part, F.readArrived keys arrived = messages.take n ∧
      arrived = (messages.take n).flatMap F.encode ++ part ∧
      ∀ next ∈ messages[n]?, ¬ F.encode next <+: part := by
  induction hreadable generalizing arrived with
  | nil => exact ⟨0, Nat.le_refl 0, arrived, rfl, rfl, by simp⟩
  | @cons key message keys messages hmessage hothers ih =>
    cases hread : F.read key arrived with
    | none =>
      refine ⟨0, Nat.zero_le _, arrived, by simp [readArrived, hread], rfl, ?_⟩
      rintro next hnext ⟨rest, rfl⟩
      obtain rfl : message = next := by simpa using hnext
      exact absurd (hread.symm.trans (read_encode hmessage rest)) (by simp)
    | some taken =>
      -- what is read now is read of the whole stream too
      obtain ⟨first, rest⟩ := taken
      obtain ⟨later, hlater⟩ := harrived
      have hwhole := read_append hread later
      rw [hlater, List.flatMap_cons, read_encode hmessage] at hwhole
      obtain ⟨rfl, hrest⟩ := Prod.mk.inj (Option.some_inj.mp hwhole)
      obtain ⟨n, hn, part, heq, hpart, hnext⟩ := ih ⟨later, hrest.symm⟩
      refine ⟨n + 1, Nat.succ_le_succ hn, part, ?_, ?_, hnext⟩
      · simp only [readArrived, hread, heq, List.take_succ_cons]
      · rw [((F.read_eq_some_iff _ _ _ _).mp hread).2, hpart, List.take_succ_cons,
          List.flatMap_cons, List.append_assoc]

end Format

end Maock.Foundation.Framing
