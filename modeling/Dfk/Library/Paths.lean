import Mathlib

/-!
# Paths, resolved lexically

A path is a row of segments that stay, go up or go down.  A location is where
a path leads to from a start: at the root, or a number of steps above a start
that is not known.  What a path leads to from any location follows from what it
leads to by itself.
-/

namespace Paths

variable {α : Type}

/-- A segment of a path. -/
inductive Segment (α : Type) where
  | stay
  | up
  | down (name : α)
  deriving Repr, DecidableEq

/-- Where a path leads to. -/
structure Location (α : Type) where
  /-- The names are below the root. -/
  absolute : Bool
  /-- Steps up from a start that is not the root. -/
  ups : Nat
  names : List α
  deriving Repr, DecidableEq

namespace Location

/-- The root, or a start that is not the root. -/
def start (absolute : Bool) : Location α where
  absolute := absolute
  ups := 0
  names := []

/-- Follow one segment; the root is above itself. -/
def step (location : Location α) : Segment α → Location α
  | .stay => location
  | .down name => { location with names := location.names ++ [name] }
  | .up =>
      if location.names = [] then
        { location with
          ups := if location.absolute then location.ups else location.ups + 1 }
      else { location with names := location.names.dropLast }

/-- Follow segments one after the other. -/
def walk (location : Location α) (segments : List (Segment α)) : Location α :=
  segments.foldl step location

/-- Segments may be followed in two parts. -/
theorem walk_append (location : Location α) (before after : List (Segment α)) :
    location.walk (before ++ after) = (location.walk before).walk after :=
  List.foldl_append

/-- Where segments lead to by themselves. -/
def reduce (segments : List (Segment α)) : Location α :=
  (start false).walk segments

/-- The names that are left after some steps up. -/
def kept (location : Location α) (ups : Nat) : List α :=
  location.names.take (location.names.length - ups)

/-- Go up, and down the names of another location. -/
def climb (location other : Location α) : Location α where
  absolute := location.absolute
  ups :=
    if location.absolute then location.ups
    else location.ups + (other.ups - location.names.length)
  names := location.kept other.ups ++ other.names

section Climb

variable {location other : Location α} {segments : List (Segment α)}

theorem kept_zero : location.kept 0 = location.names := by
  rw [kept, Nat.sub_zero, List.take_length]

/-- All names are left behind. -/
theorem kept_eq_nil {ups : Nat} (above : location.names.length ≤ ups) :
    location.kept ups = [] := by
  rw [kept, Nat.sub_eq_zero_of_le above, List.take_zero]

/-- One more step up. -/
theorem dropLast_kept {ups : Nat} :
    (location.kept ups).dropLast = location.kept (ups + 1) := by
  rw [kept, kept, List.dropLast_eq_take, List.length_take, List.take_take]
  congr 1
  omega

theorem climb_start : location.climb (start false) = location := by
  rw [climb, start]
  dsimp only
  rw [kept_zero, List.append_nil, Nat.zero_sub, Nat.add_zero, ite_self]

/-- Following a segment and climbing may be exchanged. -/
theorem step_climb (segment : Segment α) (relative : other.absolute = false) :
    (location.climb other).step segment =
      location.climb (other.step segment) := by
  cases segment with
  | stay =>
      rfl
  | down name =>
      simp only [step, climb, List.append_assoc]
  | up =>
      by_cases below : other.names = []
      · have stepped :
            other.step .up = { other with ups := other.ups + 1 } := by
          rw [step, if_pos below, relative]
          rfl
        have names : (location.climb other).names = location.kept other.ups := by
          rw [climb, below, List.append_nil]
        rw [stepped, step]
        by_cases nothing : location.kept other.ups = []
        · have above : location.names.length ≤ other.ups := by
            rw [kept, List.take_eq_nil_iff] at nothing
            rcases nothing with less | empty
            · exact Nat.sub_eq_zero_iff_le.mp less
            · rw [empty]
              exact Nat.zero_le _
          rw [if_pos (names.trans nothing), climb, climb]
          dsimp only
          rw [nothing, kept_eq_nil (above.trans (Nat.le_succ _)),
            Nat.sub_add_comm above]
          cases location.absolute with
          | true => rfl
          | false => rfl
        · have under : other.ups < location.names.length := by
            apply Nat.lt_of_not_le
            intro above
            exact nothing (kept_eq_nil above)
          have above : (location.climb other).names ≠ [] := by
            rw [names]
            exact nothing
          rw [if_neg above, names, dropLast_kept, climb, climb]
          dsimp only
          rw [below, List.append_nil, Nat.sub_eq_zero_of_le under.le,
            Nat.sub_eq_zero_of_le under]
      · have stepped :
            other.step .up = { other with names := other.names.dropLast } := by
          rw [step, if_neg below]
        have nonempty : (location.climb other).names ≠ [] := by
          intro nothing
          exact below (List.append_eq_nil_iff.mp nothing).2
        rw [stepped, step, if_neg nonempty, climb, climb]
        dsimp only
        rw [List.dropLast_append_of_ne_nil below]

/-- Steps from a start that is not the root stay relative to it. -/
theorem step_absolute (segment : Segment α) :
    (other.step segment).absolute = other.absolute := by
  cases segment with
  | stay => rfl
  | down name => rfl
  | up =>
      rw [step]
      split
      · rfl
      · rfl

theorem walk_absolute (segments : List (Segment α)) :
    ∀ location : Location α,
      (location.walk segments).absolute = location.absolute := by
  induction segments with
  | nil =>
      intro location
      rfl
  | cons segment segments inductionHypothesis =>
      intro location
      exact (inductionHypothesis _).trans (step_absolute segment)

/-- What segments lead to follows from what they lead to by themselves. -/
theorem walk_eq_climb (segments : List (Segment α)) (location : Location α) :
    location.walk segments = location.climb (reduce segments) := by
  induction segments using List.reverseRecOn with
  | nil =>
      exact climb_start.symm
  | append_singleton segments segment inductionHypothesis =>
      have relative : (reduce segments).absolute = false := walk_absolute _ _
      have reduced :
          reduce (segments ++ [segment]) = (reduce segments).step segment :=
        walk_append _ _ _
      calc
        location.walk (segments ++ [segment]) =
            (location.walk segments).step segment :=
          walk_append _ _ _
        _ = location.climb ((reduce segments).step segment) := by
          rw [inductionHypothesis, step_climb segment relative]
        _ = location.climb (reduce (segments ++ [segment])) := by
          rw [reduced]

/-- More steps up keep a part of what fewer keep. -/
theorem kept_append_drop {less more : Nat} (fewer : less ≤ more) :
    location.kept more ++
        (location.kept less).drop (location.names.length - more) =
      location.kept less := by
  have part :
      location.kept more =
        (location.kept less).take (location.names.length - more) := by
    rw [kept, kept, List.take_take]
    congr 1
    omega
  rw [part, List.take_append_drop]

/-- Nothing of what is kept lies behind what fewer steps up keep. -/
theorem drop_kept_eq_nil {less more : Nat} (fewer : less ≤ more) :
    (location.kept more).drop (location.names.length - less) = [] := by
  apply List.drop_eq_nil_of_le
  rw [kept, List.length_take]
  omega

end Climb

/-- A location is that of a directory, or of something below it. -/
def Inside (directory file : Location α) : Prop :=
  directory.absolute = file.absolute ∧
    (directory.ups = file.ups ∧ directory.names <+: file.names ∨
      -- what is above the start lies below everything further above
      file.ups < directory.ups ∧ directory.names = [])

instance [DecidableEq α] (directory file : Location α) :
    Decidable (directory.Inside file) :=
  inferInstanceAs (Decidable (_ ∧ _))

/--
What one path leads to comes back into what another one leads to: steps up
beyond it are followed by the names they have left.
-/
def ComesBack (location directory file : Location α) : Prop :=
  (location.absolute = true ∨ file.ups ≤ location.names.length ∨
      file.ups ≤ directory.ups) ∧
    (location.kept directory.ups).drop
          (location.names.length - file.ups) ++
        directory.names <+:
      file.names

section Inside

variable {location directory file : Location α}

/-- The names of a climb, compared behind what both keep. -/
theorem names_climb_prefix_iff (more : directory.ups ≤ file.ups) :
    (location.climb directory).names <+: (location.climb file).names ↔
      (location.kept directory.ups).drop
            (location.names.length - file.ups) ++
          directory.names <+:
        file.names := by
  have parts : location.kept file.ups ++ _ = location.kept directory.ups :=
    kept_append_drop more
  have regrouped :
      (location.climb directory).names =
        location.kept file.ups ++
          ((location.kept directory.ups).drop
              (location.names.length - file.ups) ++
            directory.names) := by
    rw [← List.append_assoc, parts]
    rfl
  rw [regrouped]
  exact List.prefix_append_right_inj _

/-- Steps up that keep more than a directory does stay inside. -/
theorem inside_climb_of_fewer
    (fewer : file.ups ≤ directory.ups) (nothing : directory.names = []) :
    (location.climb directory).Inside (location.climb file) := by
  have parts : location.kept directory.ups ++ _ = location.kept file.ups :=
    kept_append_drop fewer
  have within :
      (location.climb directory).names <+: (location.climb file).names := by
    rw [climb, climb, nothing, ← parts, List.append_nil, List.append_assoc]
    exact List.prefix_append _ _
  refine ⟨rfl, ?_⟩
  cases absolute : location.absolute with
  | true =>
      left
      refine ⟨?_, within⟩
      rw [climb, climb, absolute]
      rfl
  | false =>
      rcases Nat.lt_or_eq_of_le
          (Nat.sub_le_sub_right fewer location.names.length) with less | same
      · right
        have above : location.names.length ≤ directory.ups := by
          have positive := Nat.zero_lt_of_lt less
          exact (Nat.lt_of_sub_pos positive).le
        constructor
        · rw [climb, climb, absolute]
          exact Nat.add_lt_add_left less _
        · rw [climb, nothing, kept_eq_nil above]
          rfl
      · left
        refine ⟨?_, within⟩
        rw [climb, climb, absolute, same]

/-- Being inside, said of the two paths by themselves. -/
theorem inside_climb_iff
    (simple : directory.ups = 0 ∨ directory.names = []) :
    (location.climb directory).Inside (location.climb file) ↔
      location.ComesBack directory file := by
  rcases Nat.lt_or_ge file.ups directory.ups with fewer | more
  · have nothing : directory.names = [] := by
      rcases simple with level | nothing
      · rw [level] at fewer
        exact absurd fewer (Nat.not_lt_zero _)
      · exact nothing
    constructor
    · intro _
      refine ⟨Or.inr (Or.inr fewer.le), ?_⟩
      rw [drop_kept_eq_nil fewer.le, nothing]
      exact List.nil_prefix
    · intro _
      exact inside_climb_of_fewer fewer.le nothing
  · rw [ComesBack, ← names_climb_prefix_iff more]
    constructor
    · intro inside
      obtain ⟨-, ⟨same, within⟩ | ⟨less, -⟩⟩ := inside
      · refine ⟨?_, within⟩
        rw [climb, climb] at same
        cases absolute : location.absolute with
        | true =>
            exact Or.inl rfl
        | false =>
            rw [absolute] at same
            have level := Nat.add_left_cancel same
            right
            omega
      · rw [climb, climb] at less
        cases absolute : location.absolute with
        | true =>
            rw [absolute] at less
            exact absurd less (Nat.lt_irrefl _)
        | false =>
            rw [absolute] at less
            have above :=
              Nat.sub_le_sub_right more location.names.length
            have below := Nat.lt_of_add_lt_add_left less
            exact absurd above (Nat.not_le.mpr below)
    · intro back
      obtain ⟨reaches, within⟩ := back
      refine ⟨rfl, Or.inl ⟨?_, within⟩⟩
      rw [climb, climb]
      cases absolute : location.absolute with
      | true =>
          rfl
      | false =>
          rw [absolute] at reaches
          have level :
              directory.ups - location.names.length =
                file.ups - location.names.length := by
            rcases reaches with root | low | level
            · cases root
            · rw [Nat.sub_eq_zero_of_le low,
                Nat.sub_eq_zero_of_le (more.trans low)]
            · rw [Nat.le_antisymm level more]
          exact congrArg (location.ups + ·) level

end Inside

end Location

end Paths
