import Mathlib.Data.List.Basic
import Mathlib.Data.List.Perm.Basic
import Mathlib.Tactic.Common

/-!
# Ledgers of work items

A ledger lists work items in the order of their arrival, each with its fate. An item whose fate is
open is in flight under a ticket, which names its number in the ledger, and is settled later, in any
order. `Outstanding` says that the tickets in flight are exactly the open items, each once, and
`Counts` that counters have the numbers of the items that count for them.
-/

set_option autoImplicit false
set_option relaxedAutoImplicit false

namespace Maock.Foundation.Ledger

variable {α φ κ γ : Type*}

/-- An item with its fate. -/
structure Entry (α φ : Type*) where
  item : α
  fate : φ

/-- A new item. -/
def record (item : α) (fate : φ) (ledger : List (Entry α φ)) : List (Entry α φ) :=
  ledger ++ [⟨item, fate⟩]

/-- A new fate for an item. -/
def settle (number : ℕ) (fate : φ) (ledger : List (Entry α φ)) : List (Entry α φ) :=
  ledger.modify number fun entry ↦ { entry with fate := fate }

theorem items_record (item : α) (fate : φ) (ledger : List (Entry α φ)) :
    (record item fate ledger).map Entry.item = ledger.map Entry.item ++ [item] := by
  simp [record]

theorem length_record (item : α) (fate : φ) (ledger : List (Entry α φ)) :
    (record item fate ledger).length = ledger.length + 1 := by
  simp [record]

/-- Settling leaves the items as they are. -/
theorem items_settle (number : ℕ) (fate : φ) (ledger : List (Entry α φ)) :
    (settle number fate ledger).map Entry.item = ledger.map Entry.item := by
  refine List.ext_getElem? fun n ↦ ?_
  rw [List.getElem?_map, List.getElem?_map, settle, List.getElem?_modify]
  cases ledger[n]? with
  | none => rfl
  | some entry =>
    by_cases hnumber : number = n
    · simp [hnumber]
    · simp [hnumber]

theorem length_settle (number : ℕ) (fate : φ) (ledger : List (Entry α φ)) :
    (settle number fate ledger).length = ledger.length :=
  List.length_modify _ ledger number

theorem mem_record {item : α} {fate : φ} {ledger : List (Entry α φ)} {entry : Entry α φ} :
    entry ∈ record item fate ledger ↔ entry ∈ ledger ∨ entry = ⟨item, fate⟩ := by
  simp [record]

theorem getElem?_record_of_lt {number : ℕ} {ledger : List (Entry α φ)}
    (hnumber : number < ledger.length) (item : α) (fate : φ) :
    (record item fate ledger)[number]? = ledger[number]? :=
  List.getElem?_append_left hnumber

theorem getElem?_record_length (item : α) (fate : φ) (ledger : List (Entry α φ)) :
    (record item fate ledger)[ledger.length]? = some ⟨item, fate⟩ :=
  List.getElem?_concat_length

theorem getElem?_settle_self {number : ℕ} {ledger : List (Entry α φ)} {entry : Entry α φ}
    (hentry : ledger[number]? = some entry) (fate : φ) :
    (settle number fate ledger)[number]? = some ⟨entry.item, fate⟩ := by
  rw [settle, List.getElem?_modify_eq, hentry]
  rfl

theorem getElem?_settle_of_ne {number other : ℕ} (hne : number ≠ other) (fate : φ)
    (ledger : List (Entry α φ)) : (settle number fate ledger)[other]? = ledger[other]? :=
  List.getElem?_modify_ne _ ledger hne

/-- After a settlement there are the old entries and the settled item with its new fate. -/
theorem mem_settle {number : ℕ} {fate : φ} {ledger : List (Entry α φ)} {entry : Entry α φ}
    (hentry : entry ∈ settle number fate ledger) :
    entry ∈ ledger ∨ ∃ settled, ledger[number]? = some settled ∧ entry = ⟨settled.item, fate⟩ := by
  obtain ⟨other, hother⟩ := List.getElem?_of_mem hentry
  by_cases hnumber : number = other
  · subst hnumber
    rw [settle, List.getElem?_modify_eq] at hother
    obtain ⟨settled, hsettled, rfl⟩ := Option.map_eq_some_iff.mp hother
    exact Or.inr ⟨settled, hsettled, rfl⟩
  · rw [getElem?_settle_of_ne hnumber] at hother
    exact Or.inl (List.mem_of_getElem? hother)

/-! ### Tickets -/

/-- The tickets name exactly the items whose fate is open, each once, with the key that the fate
has. -/
structure Outstanding (openKey : φ → Option κ) (tickets : List (ℕ × κ))
    (ledger : List (Entry α φ)) : Prop where
  nodup : (tickets.map Prod.fst).Nodup
  mem_iff : ∀ number key, (number, key) ∈ tickets ↔
    ∃ entry, ledger[number]? = some entry ∧ openKey entry.fate = some key

section Tickets

variable {openKey : φ → Option κ} {tickets : List (ℕ × κ)} {ledger : List (Entry α φ)}

/-- A list without one of its elements. -/
theorem perm_cons_eraseIdx {a : α} {l : List α} {n : ℕ} (hget : l[n]? = some a) :
    l.Perm (a :: l.eraseIdx n) := by
  obtain ⟨hlt, rfl⟩ := List.getElem?_eq_some_iff.mp hget
  exact (List.getElem_cons_eraseIdx_perm hlt).symm

theorem outstanding_nil : Outstanding openKey [] ([] : List (Entry α φ)) :=
  ⟨List.nodup_nil, fun number key ↦ by simp⟩

/-- The order of the tickets does not matter. -/
theorem Outstanding.perm {tickets' : List (ℕ × κ)} (h : Outstanding openKey tickets ledger)
    (hperm : tickets.Perm tickets') : Outstanding openKey tickets' ledger :=
  ⟨(hperm.map Prod.fst).nodup_iff.mp h.nodup,
    fun number key ↦ hperm.mem_iff.symm.trans (h.mem_iff number key)⟩

/-- The item of a ticket is in the ledger. -/
theorem Outstanding.exists_entry (h : Outstanding openKey tickets ledger) {ticket : ℕ × κ}
    (hticket : ticket ∈ tickets) :
    ∃ entry, ledger[ticket.1]? = some entry ∧ openKey entry.fate = some ticket.2 :=
  (h.mem_iff ticket.1 ticket.2).mp hticket

theorem Outstanding.number_lt (h : Outstanding openKey tickets ledger) {ticket : ℕ × κ}
    (hticket : ticket ∈ tickets) : ticket.1 < ledger.length := by
  obtain ⟨entry, hentry, -⟩ := h.exists_entry hticket
  exact (List.getElem?_eq_some_iff.mp hentry).1

/-- An entry of a longer ledger is an old one or the new one. -/
theorem getElem?_record_eq_some_iff {item : α} {fate : φ} {number : ℕ} {entry : Entry α φ} :
    (record item fate ledger)[number]? = some entry ↔
      ledger[number]? = some entry ∨ number = ledger.length ∧ entry = ⟨item, fate⟩ := by
  rcases Nat.lt_trichotomy number ledger.length with hlt | rfl | hgt
  · rw [getElem?_record_of_lt hlt]
    exact ⟨Or.inl, fun h ↦ h.resolve_right fun hnumber ↦ absurd hnumber.1 (by omega)⟩
  · rw [getElem?_record_length, List.getElem?_eq_none (Nat.le_refl _), Option.some_inj]
    simp [eq_comm]
  · have hlength := length_record item fate ledger
    rw [List.getElem?_eq_none (by omega), List.getElem?_eq_none (by omega)]
    simp only [reduceCtorEq, false_or, false_iff, not_and]
    omega

/-- An item with a settled fate needs no ticket. -/
theorem Outstanding.record_settled (h : Outstanding openKey tickets ledger) (item : α) {fate : φ}
    (hfate : openKey fate = none) : Outstanding openKey tickets (record item fate ledger) := by
  refine ⟨h.nodup, fun number key ↦ (h.mem_iff number key).trans ?_⟩
  constructor
  · rintro ⟨entry, hentry, hkey⟩
    exact ⟨entry, getElem?_record_eq_some_iff.mpr (Or.inl hentry), hkey⟩
  · rintro ⟨entry, hentry, hkey⟩
    rcases getElem?_record_eq_some_iff.mp hentry with hold | ⟨-, rfl⟩
    · exact ⟨entry, hold, hkey⟩
    · exact absurd (hfate.symm.trans hkey) (by simp)

/-- An item with an open fate needs a new one. -/
theorem Outstanding.record_open (h : Outstanding openKey tickets ledger) (item : α) {fate : φ}
    {key : κ} (hfate : openKey fate = some key) :
    Outstanding openKey ((ledger.length, key) :: tickets) (record item fate ledger) := by
  refine ⟨?_, fun number other ↦ ?_⟩
  · rw [List.map_cons, List.nodup_cons]
    refine ⟨fun hmem ↦ ?_, h.nodup⟩
    obtain ⟨ticket, hticket, heq⟩ := List.mem_map.mp hmem
    exact absurd (h.number_lt hticket) (by omega)
  · rw [List.mem_cons, Prod.mk.injEq, h.mem_iff]
    constructor
    · rintro (⟨rfl, rfl⟩ | ⟨entry, hentry, hkey⟩)
      · exact ⟨⟨item, fate⟩, getElem?_record_length item fate ledger, hfate⟩
      · exact ⟨entry, getElem?_record_eq_some_iff.mpr (Or.inl hentry), hkey⟩
    · rintro ⟨entry, hentry, hkey⟩
      rcases getElem?_record_eq_some_iff.mp hentry with hold | ⟨rfl, rfl⟩
      · exact Or.inr ⟨entry, hold, hkey⟩
      · exact Or.inl ⟨rfl, Option.some.inj (hkey.symm.trans hfate)⟩

/-- Settling an item uses up its ticket. -/
theorem Outstanding.settle {ticket : ℕ × κ} (h : Outstanding openKey (ticket :: tickets) ledger)
    {fate : φ} (hfate : openKey fate = none) :
    Outstanding openKey tickets (settle ticket.1 fate ledger) := by
  have hnodup := h.nodup
  rw [List.map_cons, List.nodup_cons] at hnodup
  obtain ⟨settled, hsettled, -⟩ := h.exists_entry List.mem_cons_self
  refine ⟨hnodup.2, fun number key ↦ ?_⟩
  by_cases hnumber : ticket.1 = number
  · subst hnumber
    rw [getElem?_settle_self hsettled]
    constructor
    · exact fun hmem ↦ absurd (List.mem_map_of_mem hmem) hnodup.1
    · rintro ⟨entry, hentry, hkey⟩
      obtain rfl := Option.some.inj hentry
      exact absurd (hfate.symm.trans hkey) (by simp)
  · rw [getElem?_settle_of_ne hnumber, ← h.mem_iff, List.mem_cons]
    exact ⟨Or.inr, fun hmem ↦ hmem.resolve_left fun heq ↦ hnumber (congrArg Prod.fst heq).symm⟩

end Tickets

/-! ### Counters -/

/-- The number of items for which a test holds of the fate. -/
def count (test : φ → Bool) (ledger : List (Entry α φ)) : ℕ :=
  ledger.countP fun entry ↦ test entry.fate

theorem count_le_length (test : φ → Bool) (ledger : List (Entry α φ)) :
    count test ledger ≤ ledger.length :=
  List.countP_le_length

/-- All items count exactly when the test holds of every fate. -/
theorem count_eq_length_iff {test : φ → Bool} {ledger : List (Entry α φ)} :
    count test ledger = ledger.length ↔ ∀ entry ∈ ledger, test entry.fate = true :=
  List.countP_eq_length

theorem count_record (test : φ → Bool) (item : α) (fate : φ) (ledger : List (Entry α φ)) :
    count test (record item fate ledger) = count test ledger + if test fate then 1 else 0 := by
  rw [count, record, List.countP_append, List.countP_singleton, count]

/-- A settled item that did not count before counts by its new fate. -/
theorem count_settle {test : φ → Bool} {number : ℕ} {ledger : List (Entry α φ)}
    {entry : Entry α φ} (hentry : ledger[number]? = some entry) (hold : test entry.fate = false)
    (fate : φ) :
    count test (settle number fate ledger) = count test ledger + if test fate then 1 else 0 := by
  induction ledger generalizing number with
  | nil => exact absurd hentry (by simp)
  | cons first rest ih =>
    cases number with
    | zero =>
      obtain rfl : first = entry := by simpa using hentry
      rw [settle, List.modify_zero_cons, count, List.countP_cons, count, List.countP_cons, hold]
      simp
    | succ number =>
      have hrest := @ih number (by simpa using hentry)
      rw [settle, List.modify_succ_cons, count, List.countP_cons, count, List.countP_cons]
      rw [settle, count, count] at hrest
      omega

end Maock.Foundation.Ledger
