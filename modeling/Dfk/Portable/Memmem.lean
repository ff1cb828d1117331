import Dfk.Bytes
import Dfk.Fault
import Dfk.Library.Search

/-!
# Portable substring search

`portable/memmem.c`, in the build that has `memmem` and in the one that has to
do without.  Places are offsets into the haystack, and `NULL` is no place.
-/

namespace Dfk.Portable

/-! ## The source -/

/-- `memcmp`, of two strings of one length. -/
def memcmp : Bytes → Bytes → Int
  | a :: left, b :: right =>
      if a = b then memcmp left right else (a.toNat : Int) - b.toNat
  | _, _ => 0

/-- The bytes of an object from a place on, all of which have to be inside. -/
def bytesAt (object : Bytes) (place count : Nat) : Except Fault Bytes :=
  if place + count ≤ object.length then
    .ok ((object.drop place).take count)
  else .error .outOfBounds

/-- The loop of `dfkp_memmem` from `cur` on. -/
def scan (haystack needle : Bytes) (last : Nat) :
    Nat → Nat → Except Fault (Option Nat)
  | 0, _ => .error .outOfFuel
  | fuel + 1, cur =>
      if cur ≤ last then do
        let here ← bytesAt haystack cur needle.length
        if memcmp here needle = 0 then pure (some cur)
        else scan haystack needle last fuel (cur + 1)
      else pure none

/-- `memmem` of the C library. -/
def memmem (haystack needle : Bytes) : Option Nat :=
  (List.range (haystack.length + 1)).find? fun place =>
    needle.isPrefixOf (haystack.drop place)

/-- `dfkp_memmem` -/
def dfkpMemmem (haveMemmem : Bool) (fuel : Nat) (haystack needle : Bytes) :
    Except Fault (Option Nat) :=
  if haveMemmem then .ok (memmem haystack needle)
  else if haystack.length = 0 ∨ needle.length = 0 then .ok none
  else if haystack.length < needle.length then .ok none
  else
    let last := haystack.length - needle.length
    scan haystack needle last fuel 0

/-! ## Occurrences -/

/-- The needle is in the haystack at a place. -/
def Occurs (haystack needle : Bytes) (place : Nat) : Prop :=
  place + needle.length ≤ haystack.length ∧
    (haystack.drop place).take needle.length = needle

variable {haystack needle : Bytes} {place last fuel : Nat}

theorem memcmp_eq_zero_iff :
    ∀ {left right : Bytes},
      left.length = right.length → (memcmp left right = 0 ↔ left = right) := by
  intro left
  induction left with
  | nil =>
      intro right same
      rw [List.length_eq_zero_iff.mp same.symm]
      exact iff_of_true rfl rfl
  | cons a left inductionHypothesis =>
      intro right same
      cases right with
      | nil => cases same
      | cons b right =>
          rw [memcmp, List.cons.injEq]
          by_cases equal : a = b
          · rw [if_pos equal, inductionHypothesis (Nat.succ.inj same)]
            exact (and_iff_right equal).symm
          · rw [if_neg equal]
            apply iff_of_false
            · intro zero
              apply equal
              apply UInt8.toNat_inj.mp
              exact_mod_cast sub_eq_zero.mp zero
            · exact fun both => equal both.1

/-- Where a prefix begins the needle occurs. -/
theorem isPrefixOf_drop_iff (inside : place ≤ haystack.length) :
    needle.isPrefixOf (haystack.drop place) = true ↔
      Occurs haystack needle place := by
  rw [List.isPrefixOf_iff_prefix, List.prefix_iff_eq_take, Occurs]
  constructor
  · intro isTake
    have long := congrArg List.length isTake
    rw [List.length_take, List.length_drop] at long
    refine ⟨?_, isTake.symm⟩
    omega
  · intro occurs
    exact occurs.2.symm

/-- `memmem` finds the first occurrence, which is the start without a needle. -/
theorem memmem_finds (haystack needle : Bytes) :
    Search.Finds (Occurs haystack needle) (memmem haystack needle) := by
  have inside (place : Nat) (occurs : Occurs haystack needle place) :
      place < haystack.length + 1 :=
    Nat.lt_succ_of_le (Nat.le_trans (Nat.le_add_right _ _) occurs.1)
  cases found : memmem haystack needle with
  | none =>
      intro place occurs
      have member := List.mem_range.mpr (inside place occurs)
      have notFound := List.find?_eq_none.mp found place member
      apply notFound
      exact (isPrefixOf_drop_iff (Nat.le_of_lt_succ (inside place occurs))).mpr
        occurs
  | some place =>
      rw [memmem, List.find?_range_eq_some] at found
      obtain ⟨isPrefix, member, passed⟩ := found
      have within := Nat.le_of_lt_succ (List.mem_range.mp member)
      refine ⟨(isPrefixOf_drop_iff within).mp isPrefix, ?_⟩
      intro earlier before occurs
      have notPrefix := passed earlier before
      rw [(isPrefixOf_drop_iff
        (Nat.le_of_lt_succ (inside earlier occurs))).mpr occurs] at notPrefix
      cases notPrefix

/-- The loop finds the first occurrence from its place on. -/
theorem scan_finds
    (fits : last + needle.length = haystack.length) :
    ∀ {cur : Nat},
      cur ≤ last + 1 →
        last + 1 < cur + fuel →
          (∀ earlier, earlier < cur → ¬ Occurs haystack needle earlier) →
            ∃ result,
              scan haystack needle last fuel cur = .ok result ∧
                Search.Finds (Occurs haystack needle) result := by
  induction fuel with
  | zero =>
      intro cur within left
      exact absurd left (Nat.not_lt.mpr within)
  | succ fuel inductionHypothesis =>
      intro cur within left passed
      rw [scan]
      by_cases inside : cur ≤ last
      · have covered : cur + needle.length ≤ haystack.length := by
          rw [← fits]
          exact Nat.add_le_add_right inside _
        have sameLength :
            ((haystack.drop cur).take needle.length).length =
              needle.length := by
          rw [List.length_take, List.length_drop]
          exact Nat.min_eq_left (Nat.le_sub_of_add_le' covered)
        rw [if_pos inside, bytesAt, if_pos covered, ok_bind]
        by_cases here : (haystack.drop cur).take needle.length = needle
        · rw [if_pos ((memcmp_eq_zero_iff sameLength).mpr here)]
          exact ⟨some cur, rfl, Search.finds_here ⟨covered, here⟩ passed⟩
        · rw [if_neg fun zero => here ((memcmp_eq_zero_iff sameLength).mp zero)]
          apply inductionHypothesis (Nat.succ_le_succ inside)
          · omega
          · exact Search.passed_succ passed fun occurs => here occurs.2
      · rw [if_neg inside]
        refine ⟨none, rfl, Search.finds_none passed fun place occurs => ?_⟩
        have bounded := occurs.1
        rw [← fits] at bounded
        have reached : place ≤ last := Nat.le_of_add_le_add_right bounded
        exact Nat.lt_of_le_of_lt reached (Nat.lt_of_not_le inside)

/-- Both builds return the first occurrence of the needle. -/
def Agree (fuel : Nat) (haystack needle : Bytes) : Prop :=
  ∃ result,
    dfkpMemmem false fuel haystack needle = .ok result ∧
      dfkpMemmem true fuel haystack needle = .ok result ∧
      Search.Finds (Occurs haystack needle) result

/-- A needle that is longer than the haystack is not in it. -/
theorem not_occurs_of_longer (longer : haystack.length < needle.length) :
    Search.Finds (Occurs haystack needle) none := by
  intro place occurs
  exact absurd (Nat.le_trans (Nat.le_add_left _ _) occurs.1)
    (Nat.not_le.mpr longer)

/-- Without `memmem` a needle that is not empty is searched for. -/
theorem dfkpMemmem_finds
    (notEmpty : needle ≠ [])
    (enough : haystack.length < fuel) :
    ∃ result,
      dfkpMemmem false fuel haystack needle = .ok result ∧
        Search.Finds (Occurs haystack needle) result := by
  have positive : 0 < needle.length := List.length_pos_iff.mpr notEmpty
  rw [dfkpMemmem, if_neg Bool.false_ne_true]
  by_cases nothing : haystack.length = 0 ∨ needle.length = 0
  · rw [if_pos nothing]
    have longer : haystack.length < needle.length := by
      rw [nothing.resolve_right (Nat.ne_of_gt positive)]
      exact positive
    exact ⟨none, rfl, not_occurs_of_longer longer⟩
  · rw [if_neg nothing]
    by_cases longer : haystack.length < needle.length
    · rw [if_pos longer]
      exact ⟨none, rfl, not_occurs_of_longer longer⟩
    · rw [if_neg longer]
      have fits :
          haystack.length - needle.length + needle.length =
            haystack.length :=
        Nat.sub_add_cancel (Nat.le_of_not_lt longer)
      apply scan_finds fits (Nat.zero_le _)
      · omega
      · intro earlier before
        exact absurd before (Nat.not_lt_zero _)

/-- Both builds agree, if and only if there is something to search for. -/
theorem dfkp_memmem_agrees_iff
    (haystack needle : Bytes)
    (enough : haystack.length < fuel) :
    Agree fuel haystack needle ↔ needle ≠ [] := by
  constructor
  · rintro ⟨result, returns, -, finds⟩ isEmpty
    subst isEmpty
    have isNone : result = none := by
      rw [dfkpMemmem, if_neg Bool.false_ne_true,
        if_pos (Or.inr List.length_nil)] at returns
      cases returns
      rfl
    subst isNone
    exact finds 0 ⟨Nat.zero_le _, List.take_zero⟩
  · intro notEmpty
    obtain ⟨result, returns, finds⟩ := dfkpMemmem_finds notEmpty enough
    refine ⟨result, returns, ?_, finds⟩
    rw [dfkpMemmem, if_pos rfl]
    exact congrArg Except.ok ((memmem_finds haystack needle).unique finds)

theorem dfkp_memmem_agrees_iff_inside :
    Agree 4 (ascii "abc") (ascii "bc") :=
  (dfkp_memmem_agrees_iff (ascii "abc") (ascii "bc") (by decide)).mpr
    (by decide)

/-- An empty needle is at the start, and is only found by `memmem`. -/
theorem empty_needle_not_found :
    dfkpMemmem false 2 (ascii "a") [] = .ok none ∧
      dfkpMemmem true 2 (ascii "a") [] = .ok (some 0) ∧
      ¬ Agree 2 (ascii "a") [] := by
  refine ⟨rfl, by decide, ?_⟩
  rintro ⟨result, returns, returns', -⟩
  cases returns
  exact absurd returns' (by decide)

end Dfk.Portable
