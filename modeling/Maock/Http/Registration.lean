import Mathlib.Data.List.Induction
import Mathlib.Data.List.MinMax
import Maock.Http.ServeMux

/-!
# Registration of patterns in any order

What the table of a `serve_mux` has become by some calls of `handle`. Entries of the program and
implicit redirects share one map. `handle` puts an entry in with `emplace`, which keeps an entry
that is already there. So a pattern is lost when the implicit redirect for it was there before,
although `handle` returns true.

`lookup_handle` says what one registration does to every entry. Registrations are `InOrder` when
none of them comes behind that of the pattern with one more `/`; the table then has the entries that
it should have (`lookup_table`), and only then (`registersAll_iff`).
-/

set_option autoImplicit false
set_option relaxedAutoImplicit false

namespace Maock.Http.ServeMux

open Foundation Foundation.OrderedContainer Foundation.Bytes

/-! ### Entries -/

/-- A pattern with one more `/`. -/
def withSlash (pattern : Bytes) : Bytes :=
  pattern ++ [char '/']

/-- The entry of the implicit redirect that the registration of a pattern brings. -/
def redirectEntry (pattern : Bytes) : HandlerEntry :=
  ⟨false, .redirectHandler 301 (pathOfPattern pattern), pattern⟩

theorem withSlash_injective {p q : Bytes} (h : withSlash p = withSlash q) : p = q :=
  List.append_cancel_right h

theorem withSlash_ne (pattern : Bytes) : withSlash pattern ≠ pattern := fun h ↦ by
  have hlength := congrArg List.length h
  rw [withSlash, List.length_append, List.length_singleton] at hlength
  omega

/-- A pattern brings a redirect when it is another one, not empty, with one more `/`. -/
theorem hasRedirect_iff {pattern : Bytes} :
    2 ≤ pattern.length ∧ pattern.getLast? = some (char '/') ↔
      ∃ shorter, shorter ≠ [] ∧ withSlash shorter = pattern := by
  constructor
  · rintro ⟨hlength, hlast⟩
    obtain ⟨shorter, rfl⟩ := List.getLast?_eq_some_iff.mp hlast
    rw [List.length_append, List.length_singleton] at hlength
    exact ⟨shorter, List.length_pos_iff.mp (by omega), rfl⟩
  · rintro ⟨shorter, hshorter, rfl⟩
    have hlength := List.length_pos_iff.mpr hshorter
    rw [withSlash, List.length_append, List.length_singleton]
    exact ⟨by omega, List.getLast?_concat⟩

theorem lookup_addRedirect (shorter other : Bytes) (mux : OrderedMap HandlerEntry bytesLess) :
    OrderedMap.lookup (addRedirect (withSlash shorter) mux) other =
      if other = shorter then
        some (((mux.lookup shorter).filter HandlerEntry.userDefined).getD
          (redirectEntry (withSlash shorter)))
      else mux.lookup other := by
  unfold addRedirect
  rw [withSlash, List.dropLast_concat]
  cases hknown : mux.lookup shorter with
  | none =>
    simp only [hknown]
    rw [lookup_insert, hknown]
    rfl
  | some known =>
    simp only [hknown]
    cases huser : known.userDefined with
    | true =>
      rw [if_pos rfl]
      split_ifs with hsame
      · rw [hsame, hknown, Option.filter_some, if_pos huser]
        rfl
      · rfl
    | false =>
      have hnone : Option.filter HandlerEntry.userDefined (some known) = none := by
        rw [Option.filter_some, if_neg (by simp [huser])]
      rw [if_neg Bool.false_ne_true, lookup_modify, hknown, hnone]
      rfl

/-! ### One registration -/

section Handle

variable {pattern : Bytes} {m : ServeMux}

/-- A pattern that the program has registered is refused. -/
theorem handle_of_registered (hknown : (m.mux.lookup pattern).any HandlerEntry.userDefined = true)
    (cb : RequestCb) : handle pattern (some cb) m = (false, m) :=
  if_pos (by rw [hknown, Bool.or_true])

/-- Any other one is accepted. -/
theorem handle_of_free (hpattern : pattern ≠ [])
    (hfree : (m.mux.lookup pattern).any HandlerEntry.userDefined = false) (cb : RequestCb) :
    handle pattern (some cb) m =
      (true, ⟨OrderedSet.insert (pattern, ⟨true, cb, pattern⟩)
        (if 2 ≤ pattern.length ∧ pattern.getLast? = some (char '/') then addRedirect pattern m.mux
        else m.mux)⟩) :=
  if_neg (by rw [hfree, Bool.or_false]; simpa using hpattern)

/-- An accepted pattern keeps the entry that it has, and gets its own when it has none. The pattern
without its last `/` gets a redirect, unless the program has registered it. -/
theorem lookup_handle (hpattern : pattern ≠ [])
    (hfree : (m.mux.lookup pattern).any HandlerEntry.userDefined = false) (cb : RequestCb)
    (other : Bytes) :
    (handle pattern (some cb) m).2.mux.lookup other =
      if other = pattern then some ((m.mux.lookup pattern).getD ⟨true, cb, pattern⟩)
      else if other ≠ [] ∧ withSlash other = pattern then
        some (((m.mux.lookup other).filter HandlerEntry.userDefined).getD (redirectEntry pattern))
      else m.mux.lookup other := by
  rw [handle_of_free hpattern hfree]
  dsimp only
  rw [lookup_insert]
  by_cases hredirect : 2 ≤ pattern.length ∧ pattern.getLast? = some (char '/')
  · rw [if_pos hredirect]
    obtain ⟨shorter, hshorter, rfl⟩ := hasRedirect_iff.mp hredirect
    rw [lookup_addRedirect, lookup_addRedirect, if_neg (withSlash_ne shorter)]
    by_cases hother : other = shorter
    · subst hother
      rw [if_neg (withSlash_ne other).symm, if_neg (withSlash_ne other).symm, if_pos rfl,
        if_pos ⟨hshorter, rfl⟩]
    · have hnot : ¬ (other ≠ [] ∧ withSlash other = withSlash shorter) :=
        fun h ↦ hother (withSlash_injective h.2)
      rw [if_neg hother, if_neg hnot]
  · have hnot : ¬ (other ≠ [] ∧ withSlash other = pattern) :=
      fun h ↦ hredirect (hasRedirect_iff.mpr ⟨other, h⟩)
    rw [if_neg hredirect, if_neg hnot]

end Handle

/-! ### Registrations one after the other -/

/-- The table after a registration. -/
def register (m : ServeMux) (call : Bytes × RequestCb) : ServeMux :=
  (handle call.1 (some call.2) m).2

/-- The table after some registrations. -/
def table (calls : List (Bytes × RequestCb)) : ServeMux :=
  calls.foldl register empty

/-- The patterns of some registrations. -/
def patterns (calls : List (Bytes × RequestCb)) : List Bytes :=
  calls.map Prod.fst

/-- The callback of the first registration of a pattern. -/
def firstCallback (calls : List (Bytes × RequestCb)) (pattern : Bytes) : Option RequestCb :=
  (calls.find? fun call ↦ call.1 == pattern).map Prod.snd

/-- The entry that a pattern should have: the one of its first registration, or a redirect to the
pattern with one more `/`. -/
def expected (calls : List (Bytes × RequestCb)) (pattern : Bytes) : Option HandlerEntry :=
  match firstCallback calls pattern with
  | some cb => some ⟨true, cb, pattern⟩
  | none =>
    if pattern ≠ [] ∧ withSlash pattern ∈ patterns calls then
      some (redirectEntry (withSlash pattern))
    else none

theorem table_concat (calls : List (Bytes × RequestCb)) (call : Bytes × RequestCb) :
    table (calls ++ [call]) = (table calls).register call := by
  rw [table, List.foldl_append]
  rfl

theorem mem_patterns_concat {calls : List (Bytes × RequestCb)} {call : Bytes × RequestCb}
    {pattern : Bytes} :
    pattern ∈ patterns (calls ++ [call]) ↔ pattern ∈ patterns calls ∨ pattern = call.1 := by
  simp [patterns, eq_comm]

theorem firstCallback_eq_none_iff {calls : List (Bytes × RequestCb)} {pattern : Bytes} :
    firstCallback calls pattern = none ↔ pattern ∉ patterns calls := by
  rw [firstCallback, Option.map_eq_none_iff, List.find?_eq_none, patterns, List.mem_map, not_exists]
  simp

theorem firstCallback_append (first second : List (Bytes × RequestCb)) (pattern : Bytes) :
    firstCallback (first ++ second) pattern =
      (firstCallback first pattern).or (firstCallback second pattern) := by
  rw [firstCallback, List.find?_append]
  cases hfound : first.find? fun call ↦ call.1 == pattern <;> simp [firstCallback, hfound]

theorem firstCallback_concat (calls : List (Bytes × RequestCb)) (call : Bytes × RequestCb)
    (pattern : Bytes) :
    firstCallback (calls ++ [call]) pattern =
      (firstCallback calls pattern).or (if call.1 = pattern then some call.2 else none) := by
  rw [firstCallback_append]
  by_cases hsame : call.1 = pattern <;> simp [firstCallback, hsame]

/-- An expected entry is the program's exactly for the registered patterns. -/
theorem expected_userDefined_iff {calls : List (Bytes × RequestCb)} {pattern : Bytes} :
    (expected calls pattern).any HandlerEntry.userDefined = true ↔ pattern ∈ patterns calls := by
  unfold expected
  cases hfirst : firstCallback calls pattern with
  | none =>
    refine iff_of_false ?_ (firstCallback_eq_none_iff.mp hfirst)
    dsimp only
    split_ifs <;> simp [redirectEntry]
  | some cb =>
    refine iff_of_true rfl (not_not.mp fun hmem ↦ ?_)
    rw [firstCallback_eq_none_iff.mpr hmem] at hfirst
    exact absurd hfirst (by simp)

/-! ### Registrations in order -/

/-- No pattern is registered for the first time behind the same one with one more `/`. -/
def InOrder (calls : List (Bytes × RequestCb)) : Prop :=
  ∀ before call, before ++ [call] <+: calls → withSlash call.1 ∈ patterns before →
    call.1 ∈ patterns before

theorem inOrder_nil : InOrder [] := fun _ _ hpart ↦
  absurd (List.prefix_nil.mp hpart) (by simp)

theorem inOrder_concat {calls : List (Bytes × RequestCb)} {call : Bytes × RequestCb} :
    InOrder (calls ++ [call]) ↔
      InOrder calls ∧ (withSlash call.1 ∈ patterns calls → call.1 ∈ patterns calls) := by
  constructor
  · intro h
    exact ⟨fun before other hpart ↦ h before other (hpart.trans (List.prefix_append _ _)),
      h calls call (List.prefix_refl _)⟩
  · rintro ⟨hcalls, hcall⟩ before other hpart
    rcases List.prefix_concat_iff.mp hpart with hall | hpart
    · obtain ⟨rfl, rfl⟩ := List.append_singleton_inj.mp hall
      exact hcall
    · exact hcalls before other hpart

/-- The first registration of a pattern leaves the entries of the others, but for its redirect. -/
theorem expected_concat_of_ne {calls : List (Bytes × RequestCb)} {call : Bytes × RequestCb}
    (hnew : call.1 ∉ patterns calls) {other : Bytes} (hother : other ≠ call.1) :
    expected (calls ++ [call]) other =
      if other ≠ [] ∧ withSlash other = call.1 then
        some (((expected calls other).filter HandlerEntry.userDefined).getD (redirectEntry call.1))
      else expected calls other := by
  have hfirst : firstCallback (calls ++ [call]) other = firstCallback calls other := by
    rw [firstCallback_concat, if_neg hother.symm, Option.or_none]
  unfold expected
  rw [hfirst]
  cases hcalls : firstCallback calls other with
  | some cb =>
    dsimp only
    split_ifs <;> rfl
  | none =>
    dsimp only
    simp only [mem_patterns_concat]
    by_cases hslash : other ≠ [] ∧ withSlash other = call.1
    · rw [if_pos ⟨hslash.1, Or.inr hslash.2⟩, if_pos hslash, hslash.2, if_neg fun h ↦ hnew h.2]
      rfl
    · rw [if_neg hslash]
      refine if_congr (and_congr_right fun hnonempty ↦ or_iff_left fun h ↦ ?_) rfl rfl
      exact hslash ⟨hnonempty, h⟩

/-- A second registration changes no expected entry. -/
theorem expected_concat_of_mem {calls : List (Bytes × RequestCb)} {call : Bytes × RequestCb}
    (hknown : call.1 ∈ patterns calls) (other : Bytes) :
    expected (calls ++ [call]) other = expected calls other := by
  have hfirst : firstCallback (calls ++ [call]) other = firstCallback calls other := by
    rw [firstCallback_concat]
    split_ifs with hsame
    · subst hsame
      cases hcalls : firstCallback calls call.1 with
      | none => exact absurd hknown (firstCallback_eq_none_iff.mp hcalls)
      | some cb => rfl
    · exact Option.or_none
  have hpatterns (pattern : Bytes) :
      pattern ∈ patterns (calls ++ [call]) ↔ pattern ∈ patterns calls := by
    rw [mem_patterns_concat]
    exact or_iff_left_of_imp fun h ↦ h ▸ hknown
  unfold expected
  simp only [hfirst, hpatterns]

theorem expected_concat_self {calls : List (Bytes × RequestCb)} {call : Bytes × RequestCb}
    (hnew : call.1 ∉ patterns calls) :
    expected (calls ++ [call]) call.1 = some ⟨true, call.2, call.1⟩ := by
  unfold expected
  rw [firstCallback_concat, firstCallback_eq_none_iff.mpr hnew, if_pos rfl]
  rfl

theorem expected_eq_none {calls : List (Bytes × RequestCb)} {pattern : Bytes}
    (hnew : pattern ∉ patterns calls) (hslash : withSlash pattern ∉ patterns calls) :
    expected calls pattern = none := by
  unfold expected
  rw [firstCallback_eq_none_iff.mpr hnew]
  exact if_neg fun h ↦ hslash h.2

/-- Behind registrations in order every pattern has the entry that it should have. -/
theorem lookup_table {calls : List (Bytes × RequestCb)} (hpatterns : ∀ call ∈ calls, call.1 ≠ [])
    (horder : InOrder calls) (pattern : Bytes) :
    (table calls).mux.lookup pattern = expected calls pattern := by
  induction calls using List.reverseRecOn generalizing pattern with
  | nil => exact (expected_eq_none List.not_mem_nil List.not_mem_nil).symm
  | append_singleton calls call ih =>
    rw [inOrder_concat] at horder
    have hbefore := ih (fun other hother ↦ hpatterns other (List.mem_append_left _ hother)) horder.1
    rw [table_concat, register]
    by_cases hknown : call.1 ∈ patterns calls
    · rw [handle_of_registered (by rw [hbefore, expected_userDefined_iff.mpr hknown]),
        expected_concat_of_mem hknown, hbefore]
    · have hnone : expected calls call.1 = none :=
        expected_eq_none hknown fun hslash ↦ hknown (horder.2 hslash)
      have hcall := hpatterns call (List.mem_append_right _ (List.mem_singleton.mpr rfl))
      rw [lookup_handle hcall (by rw [hbefore, hnone]; rfl)]
      simp only [hbefore, hnone]
      by_cases hsame : pattern = call.1
      · rw [if_pos hsame, hsame, expected_concat_self hknown]
        rfl
      · rw [if_neg hsame, expected_concat_of_ne hknown hsame]

/-! ### Matching -/

/-- A pattern matches its own path, and with a `/` at its end every path that begins with it. -/
def Matches (pattern path : Bytes) : Prop :=
  pattern = path ∨ pattern.getLast? = some (char '/') ∧ pattern <+: path

theorem pathMatch_iff {pattern path : Bytes} :
    pathMatch pattern path = true ↔ Matches pattern path := by
  unfold pathMatch Matches
  split_ifs with hlast
  · rw [List.isPrefixOf_iff_prefix]
    exact ⟨fun h ↦ Or.inr ⟨hlast, h⟩,
      fun h ↦ h.elim (fun hsame ↦ hsame ▸ List.prefix_refl _) And.right⟩
  · rw [beq_iff_eq]
    exact ⟨Or.inl, fun h ↦ h.resolve_right fun hslash ↦ hlast hslash.1⟩

theorem Matches.prefix {pattern path : Bytes} (h : Matches pattern path) : pattern <+: path :=
  h.elim (fun hsame ↦ hsame ▸ List.prefix_refl _) And.right

/-- The loop of `match` keeps the first of the longest patterns that match. -/
theorem foldl_longer_eq_argmax (path : Bytes) (entries : List (Bytes × HandlerEntry)) :
    entries.foldl (longer path) none =
      (entries.filter fun kv ↦ pathMatch kv.1 path).argmax fun kv ↦ kv.1.length := by
  rw [List.argmax, List.foldl_filter]
  congr 1
  funext best kv
  unfold longer List.argAux
  cases pathMatch kv.1 path with
  | false => rfl
  | true => cases best <;> rfl

/-- A callback that a table with these entries should give for a path: that of the longest pattern
which matches. -/
def IsLongest (entry : Bytes → Option HandlerEntry) (path : Bytes) (cb : RequestCb) : Prop :=
  ∃ pattern known, entry pattern = some known ∧ known.cb = cb ∧ Matches pattern path ∧
    ∀ other, (entry other).isSome → Matches other path → other.length ≤ pattern.length

/-- The entries that the loop of `match` does not skip. -/
theorem mem_matching_iff (m : ServeMux) {path pattern : Bytes} {known : HandlerEntry} :
    (pattern, known) ∈ (m.mux.elems.filter fun kv ↦ pathMatch kv.1 path) ↔
      m.mux.lookup pattern = some known ∧ Matches pattern path := by
  rw [List.mem_filter, pathMatch_iff, lookup_eq_some_iff]
  exact Iff.rfl

/-- `match` gives the callback of the longest pattern that matches. -/
theorem matchPath_eq_some_iff (m : ServeMux) (path : Bytes) (cb : RequestCb) :
    m.matchPath path = some cb ↔ IsLongest m.mux.lookup path cb := by
  rw [matchPath, foldl_longer_eq_argmax, Option.map_eq_some_iff]
  constructor
  · rintro ⟨⟨pattern, known⟩, hbest, rfl⟩
    obtain ⟨hknown, hmatches⟩ := (mem_matching_iff m).mp (List.argmax_mem hbest)
    refine ⟨pattern, known, hknown, rfl, hmatches, fun other hsome hother ↦ ?_⟩
    obtain ⟨found, hfound⟩ := Option.isSome_iff_exists.mp hsome
    have hle := List.le_of_mem_argmax ((mem_matching_iff m).mpr ⟨hfound, hother⟩) hbest
    exact hle
  · rintro ⟨pattern, known, hknown, rfl, hmatches, hlongest⟩
    have hcandidate := (mem_matching_iff m).mpr ⟨hknown, hmatches⟩
    cases hbest : List.argmax (fun kv : Bytes × HandlerEntry ↦ kv.1.length)
        (m.mux.elems.filter fun kv ↦ pathMatch kv.1 path) with
    | none =>
      rw [List.argmax_eq_none.mp hbest] at hcandidate
      exact absurd hcandidate List.not_mem_nil
    | some best =>
      obtain ⟨hfound, hother⟩ := (mem_matching_iff m).mp (List.argmax_mem hbest)
      have hle := List.le_of_mem_argmax hcandidate hbest
      have hge := hlongest best.1 (by rw [hfound]; rfl) hother
      -- two prefixes of one length are the same
      have hsame : best.1 = pattern := by
        rw [List.prefix_iff_eq_take.mp hother.prefix, List.prefix_iff_eq_take.mp hmatches.prefix,
          Nat.le_antisymm hge hle]
      rw [hsame, hknown] at hfound
      exact ⟨best, rfl, congrArg HandlerEntry.cb (Option.some.inj hfound).symm⟩

/-- It gives none exactly when no pattern matches. -/
theorem matchPath_eq_none_iff (m : ServeMux) (path : Bytes) :
    m.matchPath path = none ↔
      ∀ pattern, (m.mux.lookup pattern).isSome → ¬ Matches pattern path := by
  rw [matchPath, foldl_longer_eq_argmax, Option.map_eq_none_iff, List.argmax_eq_none,
    List.eq_nil_iff_forall_not_mem]
  constructor
  · intro h pattern hsome hmatches
    obtain ⟨known, hknown⟩ := Option.isSome_iff_exists.mp hsome
    exact h (pattern, known) ((mem_matching_iff m).mpr ⟨hknown, hmatches⟩)
  · intro h kv hkv
    obtain ⟨hknown, hmatches⟩ := (mem_matching_iff m).mp hkv
    exact h kv.1 (by rw [hknown]; rfl) hmatches

/-! ### Registrations that keep what they promise -/

/-- What some registrations have to do: an accepted one is in the table with its callback from then
on, a second one of a pattern is refused and changes nothing, and `match` goes by the longest
pattern among the registered ones and the redirects to registered ones. -/
structure RegistersAll (calls : List (Bytes × RequestCb)) : Prop where
  kept : ∀ before call later, before ++ call :: later <+: calls →
    (handle call.1 (some call.2) (table before)).1 = true →
    (table (before ++ call :: later)).mux.lookup call.1 = some ⟨true, call.2, call.1⟩
  second : ∀ before call, before ++ [call] <+: calls → call.1 ∈ patterns before →
    handle call.1 (some call.2) (table before) = (false, table before)
  longest : ∀ before, before <+: calls → ∀ path cb,
    (table before).matchPath path = some cb ↔ IsLongest (expected before) path cb
  noMatch : ∀ before, before <+: calls → ∀ path,
    (table before).matchPath path = none ↔
      ∀ pattern, (expected before pattern).isSome → ¬ Matches pattern path

theorem InOrder.of_prefix {calls before : List (Bytes × RequestCb)} (h : InOrder calls)
    (hpart : before <+: calls) : InOrder before :=
  fun first call hfirst ↦ h first call (hfirst.trans hpart)

theorem RegistersAll.of_prefix {calls before : List (Bytes × RequestCb)} (h : RegistersAll calls)
    (hpart : before <+: calls) : RegistersAll before where
  kept := fun first call later hfirst ↦ h.kept first call later (hfirst.trans hpart)
  second := fun first call hfirst ↦ h.second first call (hfirst.trans hpart)
  longest := fun first hfirst ↦ h.longest first (hfirst.trans hpart)
  noMatch := fun first hfirst ↦ h.noMatch first (hfirst.trans hpart)

theorem registersAll_of_inOrder {calls : List (Bytes × RequestCb)}
    (hpatterns : ∀ call ∈ calls, call.1 ≠ []) (horder : InOrder calls) : RegistersAll calls := by
  have htable {before : List (Bytes × RequestCb)} (hpart : before <+: calls) (pattern : Bytes) :
      (table before).mux.lookup pattern = expected before pattern :=
    lookup_table (fun call hcall ↦ hpatterns call (hpart.subset hcall)) (horder.of_prefix hpart)
      pattern
  constructor
  case kept =>
    intro before call later hpart haccepted
    have hbefore := htable ((List.prefix_append before _).trans hpart) call.1
    have hnew : call.1 ∉ patterns before := by
      intro hknown
      rw [handle_of_registered (by rw [hbefore, expected_userDefined_iff.mpr hknown])] at haccepted
      exact absurd haccepted (by simp)
    have hfirst : firstCallback (before ++ call :: later) call.1 = some call.2 := by
      rw [firstCallback_append, firstCallback_eq_none_iff.mpr hnew, Option.none_or, firstCallback,
        List.find?_cons_of_pos (by simp)]
      rfl
    rw [htable hpart, expected, hfirst]
  case second =>
    intro before call hpart hknown
    have hbefore := htable ((List.prefix_append before _).trans hpart) call.1
    exact handle_of_registered (by rw [hbefore, expected_userDefined_iff.mpr hknown]) call.2
  case longest =>
    intro before hpart path cb
    rw [matchPath_eq_some_iff, funext (htable hpart)]
  case noMatch =>
    intro before hpart path
    simp only [matchPath_eq_none_iff, htable hpart]

/-- A pattern that is registered where its redirect stands is lost. -/
theorem lookup_table_of_redirect {calls : List (Bytes × RequestCb)} {call : Bytes × RequestCb}
    (hpatterns : ∀ call ∈ calls, call.1 ≠ []) (horder : InOrder calls) (hcall : call.1 ≠ [])
    (hslash : withSlash call.1 ∈ patterns calls) (hnew : call.1 ∉ patterns calls) :
    (handle call.1 (some call.2) (table calls)).1 = true ∧
      (table (calls ++ [call])).mux.lookup call.1 = some (redirectEntry (withSlash call.1)) := by
  have hentry : (table calls).mux.lookup call.1 = some (redirectEntry (withSlash call.1)) := by
    rw [lookup_table hpatterns horder, expected, firstCallback_eq_none_iff.mpr hnew]
    exact if_pos ⟨hcall, hslash⟩
  have hfree : ((table calls).mux.lookup call.1).any HandlerEntry.userDefined = false := by
    rw [hentry]
    rfl
  refine ⟨by rw [handle_of_free hcall hfree], ?_⟩
  rw [table_concat, register, lookup_handle hcall hfree, if_pos rfl, hentry]
  rfl

theorem inOrder_of_registersAll {calls : List (Bytes × RequestCb)}
    (hpatterns : ∀ call ∈ calls, call.1 ≠ []) (h : RegistersAll calls) : InOrder calls := by
  induction calls using List.reverseRecOn with
  | nil => exact inOrder_nil
  | append_singleton calls call ih =>
    have hbefore (other : Bytes × RequestCb) (hother : other ∈ calls) : other.1 ≠ [] :=
      hpatterns other (List.mem_append_left _ hother)
    have horder := ih hbefore (h.of_prefix (List.prefix_append _ _))
    refine inOrder_concat.mpr ⟨horder, fun hslash ↦ by_contra fun hnew ↦ ?_⟩
    have hcall := hpatterns call (List.mem_append_right _ (List.mem_singleton.mpr rfl))
    obtain ⟨haccepted, hlost⟩ := lookup_table_of_redirect hbefore horder hcall hslash hnew
    have hkept := h.kept calls call [] (List.prefix_refl _) haccepted
    rw [hlost] at hkept
    exact absurd (congrArg HandlerEntry.userDefined (Option.some.inj hkept))
      (by simp [redirectEntry])

/-- **Registrations keep what they promise** exactly when they are in order. -/
theorem registersAll_iff (calls : List (Bytes × RequestCb))
    (hpatterns : ∀ call ∈ calls, call.1 ≠ []) :
    RegistersAll calls ↔ InOrder calls :=
  ⟨inOrder_of_registersAll hpatterns, registersAll_of_inOrder hpatterns⟩

/-- A pattern in front of the one with one more `/`, and once more behind it. -/
def inOrderCalls : List (Bytes × RequestCb) :=
  [(ascii "/foo", .registered 1), (ascii "/foo/", .registered 2), (ascii "/foo", .registered 3)]

theorem inOrder_inOrderCalls : InOrder inOrderCalls := by
  have hfirst := (@inOrder_concat [] (ascii "/foo", .registered 1)).mpr ⟨inOrder_nil, by decide⟩
  have hsecond := (@inOrder_concat _ (ascii "/foo/", .registered 2)).mpr ⟨hfirst, by decide⟩
  exact (@inOrder_concat _ (ascii "/foo", .registered 3)).mpr ⟨hsecond, by decide⟩

theorem registersAll_inOrderCalls : RegistersAll inOrderCalls :=
  (registersAll_iff inOrderCalls (by decide)).mpr inOrder_inOrderCalls

/-- A pattern behind the one with one more `/`. -/
def redirectFirst : List (Bytes × RequestCb) :=
  [(ascii "/foo/", .registered 1), (ascii "/foo", .registered 2)]

theorem not_registersAll_redirectFirst : ¬ RegistersAll redirectFirst := fun h ↦ by
  have horder := inOrder_of_registersAll (by decide) h
  have hknown := horder [(ascii "/foo/", .registered 1)] (ascii "/foo", .registered 2)
    (List.prefix_refl _) (by decide)
  exact absurd hknown (by decide)

end Maock.Http.ServeMux
