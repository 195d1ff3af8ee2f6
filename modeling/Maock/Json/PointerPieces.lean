import Mathlib.Data.List.Chain
import Maock.Foundation.Fuel
import Maock.Foundation.StringPositions
import Maock.Json.ExtendedPointer

/-!
# The pieces of an extended pointer

`splitComplexJsonPointer` as the loop over positions that the source has (`splitLoop`), for every
string. `splitComplexJsonPointer_of_none`, `splitComplexJsonPointer_of_last` and
`splitComplexJsonPointer_of_next` are the turns of the loop: nothing positional is left, the last
positional piece, and one with something behind it. The loop ends with what they give
(`settles_splitLoop`), and with them goes the induction that says what the pieces are
(`losesNothing_splitComplexJsonPointer`).
-/

set_option autoImplicit false
set_option relaxedAutoImplicit false

namespace Maock.Json

open Foundation Foundation.Bytes Foundation.Fuel Foundation.StringPositions

/-! ### The loop -/

/-- How a run of the loop can go wrong. -/
inductive SplitFault where
  | outOfFuel
  /-- `substr` throws. -/
  | outOfRange
  deriving DecidableEq

/-- `JsonPointers.emplace_back(json_pointer.substr(start, count))`. -/
def emplaceSubstr (jsonPointer : Bytes) (start count : ℕ) (jsonPointers : List Bytes) :
    Except SplitFault (List Bytes) :=
  match substr jsonPointer start count with
  | none => .error .outOfRange
  | some piece => .ok (jsonPointers ++ [piece])

/-- The loop of `splitComplexJsonPointer`, from `start_pos` on. -/
def splitLoop (jsonPointer : Bytes) : ℕ → ℕ → List Bytes → Except SplitFault (List Bytes)
  | 0, _, _ => .error .outOfFuel
  | fuel + 1, startPos, jsonPointers =>
    if startPos = npos then .ok jsonPointers
    else
      let endPos := findFrom indicator jsonPointer startPos
      let simple :=
        if sizeSub endPos startPos = 0 then .ok jsonPointers
        else emplaceSubstr jsonPointer startPos (sizeSub endPos startPos) jsonPointers
      simple.bind fun jsonPointers ↦
        if endPos = npos then .ok jsonPointers
        else
          let nextJsonPtrPos := findFrom (ascii "/") jsonPointer (endPos + 1)
          (emplaceSubstr jsonPointer endPos (sizeSub nextJsonPtrPos endPos) jsonPointers).bind
            (splitLoop jsonPointer fuel nextJsonPtrPos)

/-! ### Turns -/

section Turns

variable {pointer : Bytes} {endPos : ℕ}

/-- The piece in front of an indicator, which is left out when it is empty. -/
def simplePieces (pointer : Bytes) (endPos : ℕ) : List Bytes :=
  if endPos = 0 then [] else [pointer.take endPos]

/-- Where an indicator was found it stands. -/
theorem exists_drop_eq_of_find?_indicator (h : find? indicator pointer = some endPos) :
    ∃ rest, pointer.drop endPos = indicator ++ rest := by
  have hwhole := take_append_of_find? h
  rw [List.append_assoc] at hwhole
  exact ⟨_, List.append_cancel_left ((List.take_append_drop endPos pointer).trans hwhole.symm)⟩

theorem length_rest_lt {rest : Bytes} (hdrop : pointer.drop endPos = indicator ++ rest)
    (next : ℕ) : (rest.drop next).length < pointer.length := by
  have hlength := congrArg List.length hdrop
  have hindicator : indicator.length = 3 := rfl
  rw [List.length_append, List.length_drop] at hlength
  rw [List.length_drop]
  omega

/-- The search for the next slash goes on behind the indicator. -/
theorem find?_slash_tail (rest : Bytes) :
    find? (ascii "/") (indicator ++ rest).tail = (find? (ascii "/") rest).map (2 + ·) :=
  find?_append_of_notMem (s := [char '~', char '#']) (by decide) [] rest

/-- Nothing positional is left. -/
theorem splitComplexJsonPointer_of_none (h : find? indicator pointer = none) :
    splitComplexJsonPointer pointer = [pointer] := by
  rw [splitComplexJsonPointer]
  split
  · rfl
  · next hfound => exact absurd (h.symm.trans hfound) (by simp)

/-- The last positional piece. -/
theorem splitComplexJsonPointer_of_last (h : find? indicator pointer = some endPos) {rest : Bytes}
    (hdrop : pointer.drop endPos = indicator ++ rest) (hlast : find? (ascii "/") rest = none) :
    splitComplexJsonPointer pointer = simplePieces pointer endPos ++ [indicator ++ rest] := by
  rw [splitComplexJsonPointer]
  split
  · next hfound => exact absurd (h.symm.trans hfound) (by simp)
  · next hfound =>
    obtain rfl := Option.some.inj (hfound.symm.trans h)
    rw [hdrop]
    dsimp only
    rw [find?_slash_tail, hlast]
    rfl

/-- A positional piece with something behind it. -/
theorem splitComplexJsonPointer_of_next (h : find? indicator pointer = some endPos) {rest : Bytes}
    (hdrop : pointer.drop endPos = indicator ++ rest) {next : ℕ}
    (hnext : find? (ascii "/") rest = some next) :
    splitComplexJsonPointer pointer = simplePieces pointer endPos ++
      (indicator ++ rest.take next) :: splitComplexJsonPointer (rest.drop next) := by
  have hindicator : 2 + next + 1 = indicator.length + next := by
    show 2 + next + 1 = 3 + next
    omega
  rw [splitComplexJsonPointer]
  split
  · next hfound => exact absurd (h.symm.trans hfound) (by simp)
  · next hfound =>
    obtain rfl := Option.some.inj (hfound.symm.trans h)
    rw [hdrop]
    dsimp only
    rw [find?_slash_tail, hnext, Option.map_some]
    dsimp only
    rw [hindicator, List.take_length_add_append, List.drop_length_add_append]
    rfl

end Turns

/-! ### What the pieces are -/

/-- A piece that begins with an indicator and has no slash but that of the indicator. -/
def IsExtended (piece : Bytes) : Prop :=
  indicator <+: piece ∧ char '/' ∉ piece.tail

/-- A piece without an indicator. -/
def IsSimple (piece : Bytes) : Prop :=
  ¬ indicator <:+: piece

/-- What cutting a pointer into pieces has to do. -/
structure LosesNothing (pointer : Bytes) (pieces : List Bytes) : Prop where
  joined : pieces.flatten = pointer
  kinds : ∀ piece ∈ pieces, IsExtended piece ∨ IsSimple piece
  apart : pieces.IsChain fun piece next ↦ ¬ (IsSimple piece ∧ IsSimple next)

theorem losesNothing_nil : LosesNothing [] [] where
  joined := rfl
  kinds _ h := absurd h List.not_mem_nil
  apart := List.IsChain.nil

theorem losesNothing_singleton {pointer : Bytes} (h : IsSimple pointer) :
    LosesNothing pointer [pointer] where
  joined := by rw [List.flatten_cons, List.flatten_nil, List.append_nil]
  kinds _ hmem := Or.inr (List.mem_singleton.mp hmem ▸ h)
  apart := List.IsChain.singleton _

theorem not_isSimple_extended (body : Bytes) : ¬ IsSimple (indicator ++ body) :=
  fun h ↦ h (List.prefix_append _ _).isInfix

/-- A positional piece in front of other pieces. -/
theorem LosesNothing.consExtended {rest body : Bytes} {pieces : List Bytes}
    (h : LosesNothing rest pieces) (hbody : char '/' ∉ body) :
    LosesNothing (indicator ++ body ++ rest) ((indicator ++ body) :: pieces) where
  joined := by rw [List.flatten_cons, h.joined]
  kinds piece hmem := by
    rcases List.mem_cons.mp hmem with rfl | hmem
    · refine Or.inl ⟨List.prefix_append _ _, ?_⟩
      show char '/' ∉ ascii "~#" ++ body
      exact fun hslash ↦ (List.mem_append.mp hslash).elim (by decide) hbody
    · exact h.kinds piece hmem
  apart := List.isChain_cons.mpr
    ⟨fun _ _ hboth ↦ not_isSimple_extended body hboth.1, h.apart⟩

/-- What stands in front of a positional piece. -/
theorem LosesNothing.consSimple {pointer whole body : Bytes} {endPos : ℕ} {pieces : List Bytes}
    (h : LosesNothing whole ((indicator ++ body) :: pieces))
    (hfound : find? indicator pointer = some endPos) (hdrop : pointer.drop endPos = whole) :
    LosesNothing pointer (simplePieces pointer endPos ++ (indicator ++ body) :: pieces) := by
  subst hdrop
  unfold simplePieces
  split_ifs with hzero
  · subst hzero
    exact h
  rw [List.singleton_append]
  constructor
  case joined => rw [List.flatten_cons, h.joined, List.take_append_drop]
  case kinds =>
    intro piece hmem
    rcases List.mem_cons.mp hmem with rfl | hmem
    · exact Or.inr (not_isInfix_take_of_find? (by decide) hfound)
    · exact h.kinds piece hmem
  case apart =>
    refine List.isChain_cons.mpr ⟨fun next hnext hboth ↦ ?_, h.apart⟩
    rw [List.head?_cons, Option.mem_some_iff] at hnext
    exact not_isSimple_extended body (hnext ▸ hboth.2)

/-- The pieces of every pointer lose nothing of it. -/
theorem losesNothing_splitComplexJsonPointer (pointer : Bytes) :
    LosesNothing pointer (splitComplexJsonPointer pointer) := by
  -- what stands behind a positional piece is shorter than the pointer
  induction hlength : pointer.length using Nat.strongRecOn generalizing pointer with
  | ind length ih =>
    subst hlength
    cases hfound : find? indicator pointer with
    | none =>
      rw [splitComplexJsonPointer_of_none hfound]
      exact losesNothing_singleton (not_isInfix_of_find?_eq_none hfound)
    | some endPos =>
      obtain ⟨rest, hdrop⟩ := exists_drop_eq_of_find?_indicator hfound
      cases hslash : find? (ascii "/") rest with
      | none =>
        have hlast := losesNothing_nil.consExtended (notMem_of_find?_eq_none hslash)
        rw [splitComplexJsonPointer_of_last hfound hdrop hslash]
        exact hlast.consSimple hfound (hdrop.trans (List.append_nil _).symm)
      | some next =>
        have hnext := (ih _ (length_rest_lt hdrop next) (rest.drop next) rfl).consExtended
          (notMem_take_of_find? hslash)
        rw [List.append_assoc, List.take_append_drop] at hnext
        rw [splitComplexJsonPointer_of_next hfound hdrop hslash]
        exact hnext.consSimple hfound hdrop

/-! ### Runs of the loop -/

/-- Where the loop goes on behind a positional piece. -/
theorem drop_slash_eq {s : Bytes} {startPos endPos : ℕ} {rest : Bytes}
    (hdrop : (s.drop startPos).drop endPos = indicator ++ rest) {next : ℕ}
    (hnext : find? (ascii "/") rest = some next) :
    startPos + endPos + (3 + next) ≤ s.length ∧
      s.drop (startPos + endPos + (3 + next)) = rest.drop next := by
  rw [List.drop_drop] at hdrop
  have hlength := congrArg List.length hdrop
  have hindicator : indicator.length = 3 := rfl
  have hinside := add_length_le_of_find? (by decide) hnext
  rw [List.length_drop, List.length_append] at hlength
  refine ⟨by omega, ?_⟩
  rw [← List.drop_drop, hdrop, ← hindicator, List.drop_length_add_append]

section Loop

variable {s : Bytes} (hshort : s.length < npos) {startPos : ℕ} (hstart : startPos ≤ s.length)

include hshort hstart

theorem startPos_ne_npos : startPos ≠ npos :=
  Nat.ne_of_lt (Nat.lt_of_le_of_lt hstart hshort)

/-- A turn without an indicator ahead is the last one. -/
theorem splitLoop_of_none (hfound : find? indicator (s.drop startPos) = none) (fuel : ℕ)
    (jsonPointers : List Bytes) :
    splitLoop s (fuel + 1) startPos jsonPointers = .ok (jsonPointers ++ [s.drop startPos]) := by
  have hlt : startPos < npos := Nat.lt_of_le_of_lt hstart hshort
  have hrest : sizeSub npos startPos ≠ 0 := by
    rw [sizeSub_of_le (Nat.le_of_lt hlt) (Nat.le_refl _)]
    omega
  rw [splitLoop, if_neg (startPos_ne_npos hshort hstart), findFrom_of_none hstart hfound]
  dsimp only
  rw [if_neg hrest, emplaceSubstr, substr_to_npos hstart hshort]
  dsimp only [Except.bind]
  rw [if_pos rfl]

/-- A turn with an indicator ahead cuts off what stands in front of it and the piece that begins
with it. -/
theorem splitLoop_of_some {endPos : ℕ} (hfound : find? indicator (s.drop startPos) = some endPos)
    (fuel : ℕ) (jsonPointers : List Bytes) :
    splitLoop s (fuel + 1) startPos jsonPointers =
      (emplaceSubstr s (startPos + endPos)
        (sizeSub (findFrom (ascii "/") s (startPos + endPos + 1)) (startPos + endPos))
        (jsonPointers ++ simplePieces (s.drop startPos) endPos)).bind
          (splitLoop s fuel (findFrom (ascii "/") s (startPos + endPos + 1))) := by
  have hinside := add_length_le_of_find? (by decide) hfound
  rw [List.length_drop] at hinside
  have hend : startPos + endPos ≤ s.length := by omega
  have hsize : sizeSub (startPos + endPos) startPos = endPos := by
    rw [sizeSub_of_le (Nat.le_add_right _ _) (by omega)]
    omega
  have hsimple : (if sizeSub (startPos + endPos) startPos = 0 then .ok jsonPointers
      else emplaceSubstr s startPos (sizeSub (startPos + endPos) startPos) jsonPointers) =
        Except.ok (jsonPointers ++ simplePieces (s.drop startPos) endPos) := by
    rw [hsize, simplePieces]
    split_ifs
    · rw [List.append_nil]
    · rw [emplaceSubstr, substr_of_le hstart]
  rw [splitLoop, if_neg (startPos_ne_npos hshort hstart), findFrom_of_some hstart hfound]
  dsimp only
  rw [hsimple]
  dsimp only [Except.bind]
  rw [if_neg (startPos_ne_npos hshort hend)]

/-- A turn behind which no slash stands. -/
theorem splitLoop_of_last {endPos : ℕ} (hfound : find? indicator (s.drop startPos) = some endPos)
    {rest : Bytes} (hdrop : (s.drop startPos).drop endPos = indicator ++ rest)
    (hlast : find? (ascii "/") rest = none) (fuel : ℕ) (jsonPointers : List Bytes) :
    splitLoop s (fuel + 1) startPos jsonPointers =
      splitLoop s fuel npos
        (jsonPointers ++ simplePieces (s.drop startPos) endPos ++ [indicator ++ rest]) := by
  have hinside := add_length_le_of_find? (by decide) hfound
  rw [List.length_drop] at hinside
  have hindicator : indicator.length = 3 := rfl
  rw [List.drop_drop] at hdrop
  have hslash : find? (ascii "/") (s.drop (startPos + endPos + 1)) = none := by
    rw [← List.tail_drop, hdrop, find?_slash_tail, hlast, Option.map_none]
  rw [splitLoop_of_some hshort hstart hfound, findFrom_of_none (by omega) hslash, emplaceSubstr,
    substr_to_npos (by omega) hshort, hdrop]
  rfl

/-- A turn that goes on at the slash behind a positional piece. -/
theorem splitLoop_of_next {endPos : ℕ} (hfound : find? indicator (s.drop startPos) = some endPos)
    {rest : Bytes} (hdrop : (s.drop startPos).drop endPos = indicator ++ rest) {next : ℕ}
    (hnext : find? (ascii "/") rest = some next) (fuel : ℕ) (jsonPointers : List Bytes) :
    splitLoop s (fuel + 1) startPos jsonPointers =
      splitLoop s fuel (startPos + endPos + (3 + next))
        (jsonPointers ++ simplePieces (s.drop startPos) endPos ++
          [indicator ++ rest.take next]) := by
  have hindicator : indicator.length = 3 := rfl
  have hinside := (drop_slash_eq hdrop hnext).1
  rw [List.drop_drop] at hdrop
  have hslash : find? (ascii "/") (s.drop (startPos + endPos + 1)) = some (2 + next) := by
    rw [← List.tail_drop, hdrop, find?_slash_tail, hnext, Option.map_some]
  have hposition : startPos + endPos + 1 + (2 + next) = startPos + endPos + (3 + next) := by omega
  have hsize : sizeSub (startPos + endPos + (3 + next)) (startPos + endPos) =
      indicator.length + next := by
    rw [sizeSub_of_le (by omega) (by omega), hindicator]
    omega
  rw [splitLoop_of_some hshort hstart hfound, findFrom_of_some (by omega) hslash, hposition, hsize,
    emplaceSubstr, substr_of_le (by omega), hdrop, List.take_length_add_append]
  rfl

end Loop

theorem splitLoop_npos (s : Bytes) (fuel : ℕ) (jsonPointers : List Bytes) :
    splitLoop s (fuel + 1) npos jsonPointers = .ok jsonPointers :=
  if_pos rfl

/-- From every position in the string the loop ends, with the pieces of what stands there. -/
theorem settles_splitLoop {s : Bytes} (hshort : s.length < npos) {startPos : ℕ}
    (hstart : startPos ≤ s.length) (jsonPointers : List Bytes) :
    Settles .outOfFuel (fun fuel ↦ splitLoop s fuel startPos jsonPointers)
      (.ok (jsonPointers ++ splitComplexJsonPointer (s.drop startPos))) := by
  induction hlength : (s.drop startPos).length using Nat.strongRecOn
    generalizing startPos jsonPointers with
  | ind length ih =>
    subst hlength
    cases hfound : find? indicator (s.drop startPos) with
    | none =>
      rw [splitComplexJsonPointer_of_none hfound]
      exact Settles.of_turn rfl (fun fuel ↦ splitLoop_of_none hshort hstart hfound fuel _)
    | some endPos =>
      obtain ⟨rest, hdrop⟩ := exists_drop_eq_of_find?_indicator hfound
      cases hslash : find? (ascii "/") rest with
      | none =>
        rw [splitComplexJsonPointer_of_last hfound hdrop hslash, ← List.append_assoc]
        exact Settles.succ rfl
          (fun fuel ↦ splitLoop_of_last hshort hstart hfound hdrop hslash fuel _)
          (Settles.of_turn rfl fun fuel ↦ splitLoop_npos s fuel _)
      | some next =>
        obtain ⟨hinside, hnext⟩ := drop_slash_eq hdrop hslash
        have hrest := ih _ (hnext ▸ length_rest_lt hdrop next) hinside
          (jsonPointers ++ simplePieces (s.drop startPos) endPos ++ [indicator ++ rest.take next])
          rfl
        rw [hnext] at hrest
        rw [splitComplexJsonPointer_of_next hfound hdrop hslash, ← List.append_assoc,
          List.append_cons]
        exact Settles.succ rfl
          (fun fuel ↦ splitLoop_of_next hshort hstart hfound hdrop hslash fuel _) hrest

/-- **Splitting an extended pointer loses nothing.** For every string the loop ends, the pieces
joined are the string, each of them is positional or has nothing positional, and no two pieces
without positions are neighbours. -/
theorem splitLoop_losesNothing (jsonPointer : StdString) :
    ∃ jsonPointers, Settles .outOfFuel (fun fuel ↦ splitLoop jsonPointer.bytes fuel 0 [])
        (.ok jsonPointers) ∧
      LosesNothing jsonPointer.bytes jsonPointers :=
  ⟨splitComplexJsonPointer jsonPointer.bytes,
    settles_splitLoop jsonPointer.short (Nat.zero_le _) [],
    losesNothing_splitComplexJsonPointer jsonPointer.bytes⟩

end Maock.Json
