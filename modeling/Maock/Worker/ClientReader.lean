import Maock.Foundation.Framing
import Maock.Worker.ContentLength

/-!
# A client that reads responses

What a client makes of the bytes of a connection: it reads a status line, header fields up to an
empty line, and a body whose end the fields and the method of its request determine. It takes no
liberties: a line ends with CR LF and contains neither of the two nor a zero byte, a field name is a
token, there is at most one content length, and an interim response or a switch to a tunnel is not
the response to a request.

`readResponse_eq_some_iff` says that the client reads a message off the front of the bytes exactly
when they begin with its text and it can be read (`Message.Readable`). `readable_messageOf_iff` says
which answers of `send_response` become messages that can be read.
-/

set_option autoImplicit false
set_option relaxedAutoImplicit false

namespace Maock.Worker

open Foundation Foundation.Bytes Foundation.Lines Foundation.Framing
open Http (AsioServerRequest)
open Http1 (expectResponseBody fieldText headBytes headFields getReasonPhrase)

/-! ### Texts -/

/-- A byte that may stand in a line. -/
def isLineByte (c : UInt8) : Bool :=
  c != 13 && c != 10 && c != 0

/-- A byte that may stand in the name of a field. -/
def isTokenChar (c : UInt8) : Bool :=
  isDigit c || char 'a' ≤ c && c ≤ char 'z' || char 'A' ≤ c && c ≤ char 'Z' ||
    (ascii "!#$%&'*+-.^_|~").contains c || c == 96

/-- A text that keeps to its line. -/
def IsLine (text : Bytes) : Prop :=
  ∀ c ∈ text, isLineByte c = true

/-- A field that can be read: its name is a token, and its value keeps to the line. -/
def IsField (field : Bytes × Bytes) : Prop :=
  (field.1 ≠ [] ∧ ∀ c ∈ field.1, isTokenChar c = true) ∧ IsLine field.2

instance (text : Bytes) : Decidable (IsLine text) :=
  decidable_of_iff (text.all isLineByte = true) List.all_eq_true

/-- A list up to the first element that fails a test. -/
theorem takeWhile_dropWhile_iff {α : Type*} {p : α → Bool} {c : α} (hc : p c = false)
    {xs front back : List α} :
    xs.takeWhile p = front ∧ xs.dropWhile p = c :: back ↔
      (∀ a ∈ front, p a = true) ∧ xs = front ++ c :: back := by
  constructor
  · rintro ⟨rfl, hback⟩
    exact ⟨fun a ha ↦ List.mem_takeWhile_imp ha, by rw [← hback, List.takeWhile_append_dropWhile]⟩
  · rintro ⟨hfront, rfl⟩
    rw [List.takeWhile_append_of_pos hfront, List.dropWhile_append_of_pos hfront,
      List.takeWhile_cons_of_neg (by simp [hc]), List.dropWhile_cons_of_neg (by simp [hc]),
      List.append_nil]
    exact ⟨rfl, rfl⟩

theorem length_le_length_joined (parts : List Bytes) : parts.length ≤ (joined parts).length := by
  induction parts with
  | nil => exact Nat.le_refl 0
  | cons part rest ih =>
    show rest.length + 1 ≤ (part ++ lineBreak ++ joined rest).length
    simp only [List.length_append, lineBreak, List.length_cons, List.length_nil]
    omega

/-! ### Reading a head -/

/-- A line and what stands behind its line break. -/
def readLine (bytes : Bytes) : Option (Bytes × Bytes) :=
  match bytes.dropWhile isLineByte with
  | 13 :: 10 :: rest => some (bytes.takeWhile isLineByte, rest)
  | _ => none

theorem readLine_eq_some_iff {bytes line rest : Bytes} :
    readLine bytes = some (line, rest) ↔ IsLine line ∧ bytes = line ++ lineBreak ++ rest := by
  have hsplit := @takeWhile_dropWhile_iff UInt8 isLineByte 13 (by decide) bytes line (10 :: rest)
  have htext : line ++ lineBreak ++ rest = line ++ 13 :: 10 :: rest := by
    rw [List.append_assoc]
    rfl
  rw [htext, IsLine, ← hsplit]
  unfold readLine
  split
  case h_1 tail hdrop => simp [hdrop]
  case h_2 hother =>
    exact ⟨fun h ↦ absurd h (by simp), fun h ↦ absurd h.2 (hother rest)⟩

/-- The version of a status line, with the space behind it. -/
def versionText (keepAlive : Bool) : Bytes :=
  ascii (if keepAlive then "HTTP/1.1" else "HTTP/1.0") ++ ascii " "

/-- The version in front of a status line. -/
def readVersion (line : Bytes) : Option (Bool × Bytes) :=
  if (versionText true).isPrefixOf line then some (true, line.drop 9)
  else if (versionText false).isPrefixOf line then some (false, line.drop 9)
  else none

theorem readVersion_eq_some_iff {line rest : Bytes} {keepAlive : Bool} :
    readVersion line = some (keepAlive, rest) ↔ line = versionText keepAlive ++ rest := by
  have hlength : ∀ alive, (versionText alive).length = 9 := by decide
  have hdrop : ∀ alive tail, (versionText alive ++ tail).drop 9 = tail := fun alive tail ↦
    List.drop_left' (hlength alive)
  have hbegins : ∀ alive, (versionText alive).isPrefixOf line = true ↔
      ∃ tail, line = versionText alive ++ tail := fun alive ↦ by
    rw [List.isPrefixOf_iff_prefix]
    exact ⟨fun ⟨tail, h⟩ ↦ ⟨tail, h.symm⟩, fun ⟨tail, h⟩ ↦ ⟨tail, h.symm⟩⟩
  unfold readVersion
  constructor
  · intro h
    split_ifs at h with htrue hfalse
    · obtain ⟨tail, rfl⟩ := (hbegins true).mp htrue
      obtain ⟨rfl, rfl⟩ := Prod.mk.inj (Option.some_inj.mp h)
      rw [hdrop]
    · obtain ⟨tail, rfl⟩ := (hbegins false).mp hfalse
      obtain ⟨rfl, rfl⟩ := Prod.mk.inj (Option.some_inj.mp h)
      rw [hdrop]
  · rintro rfl
    cases keepAlive with
    | true => rw [if_pos ((hbegins true).mpr ⟨rest, rfl⟩), hdrop]
    | false =>
      have hother : ¬ (versionText true).isPrefixOf (versionText false ++ rest) = true := by
        intro h
        obtain ⟨tail, htail⟩ := (hbegins true).mp h
        have hsame := congrArg (List.take 9) htail
        rw [List.take_left' (hlength false), List.take_left' (hlength true)] at hsame
        exact absurd hsame (by decide)
      rw [if_neg hother, if_pos ((hbegins false).mpr ⟨rest, rfl⟩), hdrop]

/-- The status code, written as numbers are, and the reason behind it. -/
def readStatusCode (text : Bytes) : Option (ℕ × Bytes) :=
  match text.dropWhile isDigit with
  | 32 :: reason =>
    let code := digitsValue (text.takeWhile isDigit)
    if decimal code = text.takeWhile isDigit then some (code, reason) else none
  | _ => none

theorem readStatusCode_eq_some_iff {text reason : Bytes} {code : ℕ} :
    readStatusCode text = some (code, reason) ↔ text = decimal code ++ ascii " " ++ reason := by
  have hsplit := @takeWhile_dropWhile_iff UInt8 isDigit 32 (by decide) text (decimal code) reason
  have htext : decimal code ++ ascii " " ++ reason = decimal code ++ 32 :: reason := by
    rw [List.append_assoc]
    rfl
  have hdigits : (∀ c ∈ decimal code, isDigit c = true) ∧ text = decimal code ++ 32 :: reason ↔
      text = decimal code ++ 32 :: reason :=
    and_iff_right fun c hc ↦ isDigit_of_mem_decimal hc
  rw [htext, ← hdigits, ← hsplit]
  unfold readStatusCode
  split
  case h_1 tail hdrop =>
    dsimp only
    constructor
    · intro h
      obtain ⟨hcanonical, heq⟩ := Option.ite_none_right_eq_some.mp h
      obtain ⟨rfl, rfl⟩ := Prod.mk.inj (Option.some_inj.mp heq)
      exact ⟨hcanonical.symm, hdrop⟩
    · rintro ⟨htake, hreason⟩
      obtain rfl : tail = reason := by simpa using hdrop.symm.trans hreason
      rw [htake, digitsValue_decimal, if_pos rfl]
  case h_2 hother =>
    exact ⟨fun h ↦ absurd h (by simp), fun h ↦ absurd h.2 (hother reason)⟩

/-- The field of a line. -/
def readField (line : Bytes) : Option (Bytes × Bytes) :=
  match line.dropWhile isTokenChar with
  | 58 :: value =>
    if line.takeWhile isTokenChar = [] then none else some (line.takeWhile isTokenChar, value)
  | _ => none

theorem readField_eq_some_iff {line : Bytes} {field : Bytes × Bytes} :
    readField line = some field ↔
      (field.1 ≠ [] ∧ ∀ c ∈ field.1, isTokenChar c = true) ∧ line = fieldText field := by
  have hsplit := @takeWhile_dropWhile_iff UInt8 isTokenChar 58 (by decide) line field.1 field.2
  have htext : fieldText field = field.1 ++ 58 :: field.2 := by
    unfold fieldText
    rw [List.append_assoc]
    rfl
  rw [htext, and_assoc, ← hsplit]
  unfold readField
  split
  case h_1 value hdrop =>
    constructor
    · intro h
      obtain ⟨hname, heq⟩ := Option.ite_none_left_eq_some.mp h
      obtain rfl := Option.some_inj.mp heq
      exact ⟨hname, rfl, hdrop⟩
    · rintro ⟨hname, htake, hvalue⟩
      obtain rfl : value = field.2 := by simpa using hdrop.symm.trans hvalue
      rw [htake, if_neg hname]
  case h_2 hother =>
    exact ⟨fun h ↦ absurd h (by simp), fun h ↦ absurd h.2.2 (hother field.2)⟩

/-- Fields up to the empty line, at most `fuel` lines. -/
def readFields : ℕ → Bytes → Option (List (Bytes × Bytes) × Bytes)
  | 0, _ => none
  | fuel + 1, bytes =>
    (readLine bytes).bind fun (line, rest) ↦
      if line = [] then some ([], rest)
      else (readField line).bind fun field ↦
        (readFields fuel rest).map fun (fields, rest) ↦ (field :: fields, rest)

theorem isLineByte_of_isTokenChar {c : UInt8} (h : isTokenChar c = true) : isLineByte c = true := by
  have hall : ∀ c : UInt8, isTokenChar c = true → isLineByte c = true :=
    forall_byte (by decide +kernel)
  exact hall c h

theorem isLine_fieldText_iff {field : Bytes × Bytes}
    (hname : ∀ c ∈ field.1, isTokenChar c = true) : IsLine (fieldText field) ↔ IsLine field.2 := by
  unfold fieldText IsLine
  refine ⟨fun h c hc ↦ h c (List.mem_append_right _ hc), fun h c hc ↦ ?_⟩
  rcases List.mem_append.mp hc with hc | hc
  · rcases List.mem_append.mp hc with hc | hc
    · exact isLineByte_of_isTokenChar (hname c hc)
    · rw [List.mem_singleton.mp hc]
      decide
  · exact h c hc

theorem readFields_eq_some_iff {fuel : ℕ} {bytes rest : Bytes} {fields : List (Bytes × Bytes)} :
    readFields fuel bytes = some (fields, rest) ↔
      fields.length < fuel ∧ (∀ field ∈ fields, IsField field) ∧
        bytes = joined (fields.map fieldText ++ [[]]) ++ rest := by
  induction fuel generalizing bytes fields with
  | zero => exact ⟨fun h ↦ absurd h (by simp [readFields]), fun h ↦ absurd h.1 (Nat.not_lt_zero _)⟩
  | succ fuel ih =>
    unfold readFields
    constructor
    · intro h
      obtain ⟨⟨line, tail⟩, hline, hrest⟩ := Option.bind_eq_some_iff.mp h
      obtain ⟨hkeeps, rfl⟩ := readLine_eq_some_iff.mp hline
      dsimp only at hrest
      split_ifs at hrest with hempty
      · obtain ⟨rfl, rfl⟩ := Prod.mk.inj (Option.some_inj.mp hrest)
        exact ⟨Nat.succ_pos fuel, by simp, by simp [hempty, joined]⟩
      · obtain ⟨field, hfield, hothers⟩ := Option.bind_eq_some_iff.mp hrest
        obtain ⟨⟨others, last⟩, hread, heq⟩ := Option.map_eq_some_iff.mp hothers
        obtain ⟨rfl, rfl⟩ := Prod.mk.inj heq
        obtain ⟨hname, rfl⟩ := readField_eq_some_iff.mp hfield
        obtain ⟨hlength, hall, rfl⟩ := ih.mp hread
        refine ⟨Nat.succ_lt_succ hlength, List.forall_mem_cons.mpr
          ⟨⟨hname, (isLine_fieldText_iff hname.2).mp hkeeps⟩, hall⟩, ?_⟩
        simp [joined, List.append_assoc]
    · rintro ⟨hlength, hall, rfl⟩
      cases fields with
      | nil =>
        have hline : readLine (joined ([[]] : List Bytes) ++ rest) = some ([], rest) :=
          readLine_eq_some_iff.mpr ⟨fun c hc ↦ absurd hc List.not_mem_nil, rfl⟩
        rw [List.map_nil, List.nil_append, hline, Option.bind_some]
        rfl
      | cons field others =>
        obtain ⟨⟨hname, hvalue⟩, hothers⟩ := List.forall_mem_cons.mp hall
        have hline : readLine (joined ((field :: others).map fieldText ++ [[]]) ++ rest) =
            some (fieldText field, joined (others.map fieldText ++ [[]]) ++ rest) :=
          readLine_eq_some_iff.mpr ⟨(isLine_fieldText_iff hname.2).mpr hvalue,
            by simp [joined, List.append_assoc]⟩
        have hnonempty : fieldText field ≠ [] := by simp [fieldText, hname.1]
        have hfield : readField (fieldText field) = some field :=
          readField_eq_some_iff.mpr ⟨hname, rfl⟩
        have hread := ih.mpr ⟨Nat.lt_of_succ_lt_succ hlength, hothers, rfl⟩
        rw [hline, Option.bind_some]
        dsimp only
        rw [if_neg hnonempty, hfield, Option.bind_some, hread]
        rfl

/-! ### Reading a response -/

/-- A response as a client reads it. -/
structure Message where
  keepAlive : Bool
  statusCode : ℕ
  reason : Bytes
  fields : List (Bytes × Bytes)
  body : Bytes
  deriving DecidableEq

/-- A status that answers a request of this method: it is neither that of an interim response nor
one behind which a tunnel begins. -/
def IsFinal (method : Bytes) (statusCode : ℕ) : Prop :=
  200 ≤ statusCode ∧ statusCode < 1000 ∧ ¬ (method = ascii "CONNECT" ∧ statusCode / 100 = 2)

instance (method : Bytes) (statusCode : ℕ) : Decidable (IsFinal method statusCode) :=
  inferInstanceAs (Decidable (_ ∧ _ ∧ _))

/-- A final response with this status to a request of this method has a body. -/
def carriesBody (method : Bytes) (statusCode : ℕ) : Bool :=
  method != ascii "HEAD" && statusCode != 304 && statusCode != 204

/-- The field says that the body is encoded for its transfer. -/
def isTransferEncoding (field : Bytes × Bytes) : Bool :=
  field.1.map toLower == ascii "transfer-encoding"

/-- The number that the value of a content length stands for, with blanks around it or not. -/
def readLength (value : Bytes) : Option ℕ :=
  let digits := trimBlanks value
  if digits ≠ [] ∧ digits.all isDigit = true then some (digitsValue digits) else none

/-- How long a body is, if the fields say it. -/
def bodyLength (method : Bytes) (statusCode : ℕ) (fields : List (Bytes × Bytes)) : Option ℕ :=
  if fields.any isTransferEncoding then none
  else
    match (fields.filter isContentLength).map Prod.snd with
    | [] => if carriesBody method statusCode then none else some 0
    | [value] => if carriesBody method statusCode then readLength value else some 0
    | _ => none

/-- A response to a request of this method. -/
def readResponse (method : Bytes) (bytes : Bytes) : Option (Message × Bytes) :=
  (readLine bytes).bind fun (line, bytes) ↦
    (readVersion line).bind fun (keepAlive, text) ↦
      (readStatusCode text).bind fun (statusCode, reason) ↦
        (readFields (bytes.length + 1) bytes).bind fun (fields, bytes) ↦
          if IsFinal method statusCode then
            (bodyLength method statusCode fields).bind fun length ↦
              if length ≤ bytes.length then
                some (⟨keepAlive, statusCode, reason, fields, bytes.take length⟩, bytes.drop length)
              else none
          else none

namespace Message

/-- The status line. -/
def startLine (m : Message) : Bytes :=
  versionText m.keepAlive ++ decimal m.statusCode ++ ascii " " ++ m.reason

/-- The text of a message. -/
def text (m : Message) : Bytes :=
  joined (m.startLine :: m.fields.map fieldText ++ [[]]) ++ m.body

/-- A message that can be read as the response to a request of this method. -/
structure Readable (method : Bytes) (m : Message) : Prop where
  isFinal : IsFinal method m.statusCode
  reason : IsLine m.reason
  fields : ∀ field ∈ m.fields, IsField field
  length : bodyLength method m.statusCode m.fields = some m.body.length

/-- A status line keeps to its line when its reason does. -/
theorem isLine_startLine_iff (m : Message) : IsLine m.startLine ↔ IsLine m.reason := by
  have hversion : ∀ alive, IsLine (versionText alive) := by decide
  have hdigits : IsLine (decimal m.statusCode) := by
    have hall : ∀ c : UInt8, isDigit c = true → isLineByte c = true :=
      forall_byte (by decide +kernel)
    exact fun c hc ↦ hall c (isDigit_of_mem_decimal hc)
  have hspace : IsLine (ascii " ") := by decide
  unfold startLine IsLine
  refine ⟨fun h c hc ↦ h c (List.mem_append_right _ hc), fun h c hc ↦ ?_⟩
  simp only [List.mem_append] at hc
  rcases hc with ((hc | hc) | hc) | hc
  · exact hversion m.keepAlive c hc
  · exact hdigits c hc
  · exact hspace c hc
  · exact h c hc

end Message

theorem readStartLine_iff {line text reason : Bytes} {keepAlive : Bool} {statusCode : ℕ} :
    readVersion line = some (keepAlive, text) ∧ readStatusCode text = some (statusCode, reason) ↔
      line = versionText keepAlive ++ decimal statusCode ++ ascii " " ++ reason ∧
        text = decimal statusCode ++ ascii " " ++ reason := by
  rw [readVersion_eq_some_iff, readStatusCode_eq_some_iff]
  refine and_congr_left fun htext ↦ ?_
  rw [htext]
  simp only [List.append_assoc]

/-- **What a client reads.** It reads a message off the front of the bytes exactly when the message
can be read and the bytes begin with its text. -/
theorem readResponse_eq_some_iff {method bytes rest : Bytes} {m : Message} :
    readResponse method bytes = some (m, rest) ↔
      m.Readable method ∧ bytes = m.text ++ rest := by
  unfold readResponse
  constructor
  · intro h
    obtain ⟨⟨line, tail⟩, hline, h⟩ := Option.bind_eq_some_iff.mp h
    obtain ⟨⟨keepAlive, text⟩, hversion, h⟩ := Option.bind_eq_some_iff.mp h
    obtain ⟨⟨statusCode, reason⟩, hcode, h⟩ := Option.bind_eq_some_iff.mp h
    obtain ⟨⟨fields, body⟩, hfields, h⟩ := Option.bind_eq_some_iff.mp h
    obtain ⟨hfinal, h⟩ := Option.ite_none_right_eq_some.mp h
    obtain ⟨length, hlength, h⟩ := Option.bind_eq_some_iff.mp h
    obtain ⟨hroom, h⟩ := Option.ite_none_right_eq_some.mp h
    obtain ⟨rfl, rfl⟩ := Prod.mk.inj (Option.some_inj.mp h)
    obtain ⟨hkeeps, rfl⟩ := readLine_eq_some_iff.mp hline
    obtain ⟨rfl, -⟩ := readStartLine_iff.mp ⟨hversion, hcode⟩
    obtain ⟨-, hall, rfl⟩ := readFields_eq_some_iff.mp hfields
    refine ⟨⟨hfinal, ?_, hall, ?_⟩, ?_⟩
    · exact (Message.isLine_startLine_iff ⟨keepAlive, statusCode, reason, fields, []⟩).mp hkeeps
    · rw [hlength, List.length_take, Nat.min_eq_left hroom]
    · simp only [Message.text, Message.startLine, joined, List.cons_append, List.map_cons,
        List.flatten_cons, List.append_assoc, List.take_append_drop]
  · rintro ⟨⟨hfinal, hreason, hall, hlength⟩, rfl⟩
    have hline : readLine (m.text ++ rest) =
        some (m.startLine, joined (m.fields.map fieldText ++ [[]]) ++ (m.body ++ rest)) :=
      readLine_eq_some_iff.mpr ⟨(Message.isLine_startLine_iff m).mpr hreason,
        by simp [Message.text, joined, List.append_assoc]⟩
    obtain ⟨hversion, hcode⟩ := readStartLine_iff.mpr
      ⟨show m.startLine = versionText m.keepAlive ++ decimal m.statusCode ++ ascii " " ++ m.reason
        from rfl, rfl⟩
    have hfuel : m.fields.length <
        (joined (m.fields.map fieldText ++ [[]]) ++ (m.body ++ rest)).length + 1 := by
      have hle : m.fields.length ≤ (joined (m.fields.map fieldText ++ [[]])).length := by
        refine Nat.le_trans ?_ (length_le_length_joined _)
        simp
      rw [List.length_append]
      omega
    have hfields := (@readFields_eq_some_iff _ _ (m.body ++ rest) m.fields).mpr ⟨hfuel, hall, rfl⟩
    rw [hline, Option.bind_some]
    dsimp only
    rw [hversion, Option.bind_some]
    dsimp only
    rw [hcode, Option.bind_some]
    dsimp only
    rw [hfields, Option.bind_some]
    dsimp only
    rw [if_pos hfinal, hlength, Option.bind_some, if_pos (by simp), List.take_left, List.drop_left]

/-- The responses of a connection, for the methods of its requests. -/
def responseFormat : Format Bytes Message UInt8 where
  encode := Message.text
  Readable := Message.Readable
  read := readResponse
  read_eq_some_iff _ _ _ _ := readResponse_eq_some_iff

/-! ### Answers -/

/-- The message that an answer to a request becomes. -/
def Answer.message (keepAlive : Bool) (request : AsioServerRequest) (a : Answer) : Message where
  keepAlive := keepAlive
  statusCode := a.statusCode
  reason := ascii (getReasonPhrase a.statusCode)
  fields := headFields (a.sent request)
  body := if expectResponseBody request.method a.statusCode then a.payload else []

/-- An answer that a client can read: its status is final, its own fields can be read and do not
speak of an encoding, there is one content length where a body is due, whether of its own or added,
and never more than one. -/
structure Answer.Readable (request : AsioServerRequest) (a : Answer) : Prop where
  isFinal : IsFinal request.method a.statusCode
  fields : ∀ field ∈ a.ownFields, IsField field
  encoding : ∀ field ∈ a.ownFields, isTransferEncoding field = false
  once : (a.ownFields.filter isContentLength).length ≤ 1
  added : a.AddsContentLength → a.ownFields.filter isContentLength = []
  delimited : carriesBody request.method a.statusCode = true → a.AddsContentLength ∨
    ∃ field, a.ownFields.filter isContentLength = [field] ∧
      readLength field.2 = some a.payload.length

theorem expectResponseBody_of_isFinal {method : Bytes} {statusCode : ℕ}
    (h : IsFinal method statusCode) :
    expectResponseBody method statusCode = carriesBody method statusCode := by
  have hother : (statusCode == 101) = false := beq_eq_false_iff_ne.mpr (by have := h.1; omega)
  have hclass : (statusCode / 100 != 1) = true := bne_iff_ne.mpr (by have := h.1; omega)
  unfold expectResponseBody carriesBody
  rw [hother, hclass, Bool.false_or, Bool.true_and, Bool.and_assoc]

/-- A content length that the server adds is read back. -/
theorem readLength_decimal (n : ℕ) : readLength (decimal n) = some n := by
  unfold readLength
  rw [trimBlanks_decimal]
  dsimp only
  rw [digitsValue_decimal]
  exact if_pos ⟨decimal_ne_nil n, List.all_eq_true.mpr fun c hc ↦ isDigit_of_mem_decimal hc⟩

/-- The length of a body does not depend on the order of the fields. -/
theorem bodyLength_perm (method : Bytes) (statusCode : ℕ) {fields fields' : List (Bytes × Bytes)}
    (h : fields.Perm fields') :
    bodyLength method statusCode fields = bodyLength method statusCode fields' := by
  have hlengths := (h.filter isContentLength).map Prod.snd
  unfold bodyLength
  rw [h.any_eq]
  refine if_congr Iff.rfl rfl ?_
  generalize (fields.filter isContentLength).map Prod.snd = lengths at hlengths ⊢
  generalize (fields'.filter isContentLength).map Prod.snd = lengths' at hlengths ⊢
  match lengths, lengths' with
  | [], [] => rfl
  | [value], [value'] => rw [List.singleton_perm_singleton.mp hlengths]
  | _ :: _ :: _, _ :: _ :: _ => rfl
  | [], _ :: _ => exact absurd hlengths.length_eq (by simp)
  | _ :: _, [] => exact absurd hlengths.length_eq (by simp)
  | [_], _ :: _ :: _ => exact absurd hlengths.length_eq (by simp)
  | _ :: _ :: _, [_] => exact absurd hlengths.length_eq (by simp)

/-- The fields of the head say how long the body is exactly when one content length does. -/
theorem bodyLength_message_iff {request : AsioServerRequest} {a : Answer}
    (hfinal : IsFinal request.method a.statusCode) (keepAlive : Bool) :
    bodyLength request.method a.statusCode (headFields (a.sent request)) =
        some (a.message keepAlive request).body.length ↔
      (∀ field ∈ a.ownFields, isTransferEncoding field = false) ∧
        (a.ownFields.filter isContentLength).length ≤ 1 ∧
        (a.AddsContentLength → a.ownFields.filter isContentLength = []) ∧
        (carriesBody request.method a.statusCode = true → a.AddsContentLength ∨
          ∃ field, a.ownFields.filter isContentLength = [field] ∧
            readLength field.2 = some a.payload.length) := by
  have hadded : ∀ value, isTransferEncoding (contentLength, value) = false ∧
      isContentLength (contentLength, value) = true := fun value ↦
    ⟨(by decide : (contentLength.map toLower == ascii "transfer-encoding") = false),
      (by decide : (contentLength.map toLower == contentLength) = true)⟩
  have hbody : (a.message keepAlive request).body.length =
      if carriesBody request.method a.statusCode then a.payload.length else 0 := by
    unfold Answer.message
    dsimp only
    rw [expectResponseBody_of_isFinal hfinal, apply_ite List.length, List.length_nil]
  rw [bodyLength_perm _ _ (headFields_sent_perm a request), hbody, bodyLength, List.any_append,
    List.filter_append, List.map_append]
  by_cases hown : ∀ field ∈ a.ownFields, isTransferEncoding field = false
  · have hnone : a.ownFields.any isTransferEncoding = false :=
      List.any_eq_false.mpr fun field hfield ↦ by simp [hown field hfield]
    refine Iff.trans ?_ (and_iff_right hown).symm
    by_cases hadds : a.AddsContentLength
    · rw [if_pos hadds]
      simp only [hnone, List.any_cons, (hadded _).1, List.any_nil, Bool.or_false,
        Bool.false_eq_true, if_false, List.filter_cons, (hadded _).2, if_true, List.filter_nil,
        List.map_cons, List.map_nil, List.singleton_append]
      cases hfields : a.ownFields.filter isContentLength with
      | nil => simp [hadds, readLength_decimal, apply_ite some]
      | cons field rest => simp [hadds]
    · rw [if_neg hadds]
      simp only [hnone, List.any_nil, Bool.or_false, Bool.false_eq_true, if_false, List.filter_nil,
        List.map_nil, List.nil_append]
      -- a content length of its own has to be the only one
      match a.ownFields.filter isContentLength with
      | [] => by_cases hcarries : carriesBody request.method a.statusCode = true <;>
          simp [hadds, hcarries]
      | [field] => by_cases hcarries : carriesBody request.method a.statusCode = true <;>
          simp [hadds, hcarries]
      | _ :: _ :: _ => simp
  · have hsome : a.ownFields.any isTransferEncoding = true := by
      obtain ⟨field, hfield, hencoded⟩ := not_forall₂.mp hown
      exact List.any_eq_true.mpr ⟨field, hfield, by simpa using hencoded⟩
    refine ⟨fun h ↦ absurd h ?_, fun h ↦ absurd h.1 hown⟩
    rw [hsome, Bool.or_true, if_pos rfl]
    simp

/-- **The answers that a client can read**: an answer becomes a message that can be read as the
response to its request exactly when it can be read. -/
theorem readable_message_iff (keepAlive : Bool) (request : AsioServerRequest) (a : Answer) :
    (a.message keepAlive request).Readable request.method ↔ a.Readable request := by
  have hreason : IsLine (ascii (getReasonPhrase a.statusCode)) := by
    unfold getReasonPhrase
    split <;> decide +kernel
  have hcontent : ∀ n, IsField (contentLength, decimal n) := by
    have hall : ∀ c : UInt8, isDigit c = true → isLineByte c = true :=
      forall_byte (by decide +kernel)
    have hname : contentLength.all isTokenChar = true := by decide
    exact fun n ↦ ⟨⟨by simp [contentLength, ascii], List.all_eq_true.mp hname⟩,
      fun c hc ↦ hall c (isDigit_of_mem_decimal hc)⟩
  have hfields : (∀ field ∈ headFields (a.sent request), IsField field) ↔
      ∀ field ∈ a.ownFields, IsField field := by
    have hperm := headFields_sent_perm a request
    constructor
    · exact fun h field hfield ↦ h field (hperm.mem_iff.mpr (List.mem_append_right _ hfield))
    · intro h field hfield
      rcases List.mem_append.mp (hperm.mem_iff.mp hfield) with hadded | hown
      · split_ifs at hadded
        · rw [List.mem_singleton.mp hadded]
          exact hcontent _
        · exact absurd hadded List.not_mem_nil
      · exact h field hown
  constructor
  · rintro ⟨hfinal, -, hread, hlength⟩
    obtain ⟨hencoding, honce, hadded, hdelimited⟩ :=
      (bodyLength_message_iff hfinal keepAlive).mp hlength
    exact ⟨hfinal, hfields.mp hread, hencoding, honce, hadded, hdelimited⟩
  · rintro ⟨hfinal, hread, hencoding, honce, hadded, hdelimited⟩
    exact ⟨hfinal, hreason, hfields.mpr hread,
      (bodyLength_message_iff hfinal keepAlive).mpr ⟨hencoding, honce, hadded, hdelimited⟩⟩

end Maock.Worker
