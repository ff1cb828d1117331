import Mathlib

/-!
# Words made of tokens

A lexicon says how tokens are spelled and which token a word begins with.
Reading tokens off a word as long as there is one reads the longest part of it
that can be spelled, and there is only one way to spell it.
-/

namespace Dfk

/-- Tokens that can be told from the word they begin. -/
structure Lexicon (α τ : Type) where
  text : τ → List α
  /-- The token a word begins with. -/
  next : List α → Option τ
  text_ne_nil : ∀ token, text token ≠ []
  next_text : ∀ token rest, next (text token ++ rest) = some token
  text_of_next : ∀ {word token}, next word = some token → text token <+: word

namespace Lexicon

variable {α τ : Type} {lexicon : Lexicon α τ}

/-- The word that tokens make up. -/
def spell (lexicon : Lexicon α τ) (tokens : List τ) : List α :=
  tokens.flatMap lexicon.text

/-- A word is read as tokens up to where no token begins. -/
structure Scans (lexicon : Lexicon α τ) (word : List α) (tokens : List τ)
    (rest : List α) : Prop where
  spelled : word = lexicon.spell tokens ++ rest
  ends : lexicon.next rest = none

@[simp] theorem spell_nil : lexicon.spell [] = [] :=
  rfl

@[simp] theorem spell_cons (token : τ) (tokens : List τ) :
    lexicon.spell (token :: tokens) =
      lexicon.text token ++ lexicon.spell tokens :=
  rfl

@[simp] theorem spell_append (tokens more : List τ) :
    lexicon.spell (tokens ++ more) =
      lexicon.spell tokens ++ lexicon.spell more :=
  List.flatMap_append

/-- No token begins an empty word. -/
theorem next_nil : lexicon.next [] = none := by
  cases begins : lexicon.next [] with
  | none =>
      rfl
  | some token =>
      have empty := List.prefix_nil.mp (lexicon.text_of_next begins)
      exact absurd empty (lexicon.text_ne_nil token)

namespace Scans

variable {word rest : List α} {tokens : List τ}

/-- Nothing is read where no token begins. -/
theorem stop (ends : lexicon.next word = none) :
    lexicon.Scans word [] word where
  spelled := rfl
  ends := ends

/-- One more token in front. -/
theorem cons
    (token : τ)
    (scans : lexicon.Scans word tokens rest) :
    lexicon.Scans (lexicon.text token ++ word) (token :: tokens) rest where
  spelled := by
    rw [spell_cons, List.append_assoc, ← scans.spelled]
  ends := scans.ends

/-- Every word can be read. -/
theorem exists_scans (lexicon : Lexicon α τ) (word : List α) :
    ∃ tokens rest, lexicon.Scans word tokens rest := by
  induction length : word.length using Nat.strong_induction_on
    generalizing word with
  | h count inductionHypothesis =>
      cases begins : lexicon.next word with
      | none =>
          exact ⟨[], word, stop begins⟩
      | some token =>
          obtain ⟨after, split⟩ := lexicon.text_of_next begins
          have positive : 0 < (lexicon.text token).length :=
            List.length_pos_iff.mpr (lexicon.text_ne_nil token)
          have shorter : after.length < count := by
            rw [← length, ← split, List.length_append]
            omega
          obtain ⟨tokens, rest, scans⟩ :=
            inductionHypothesis after.length shorter after rfl
          exact ⟨token :: tokens, rest, split ▸ scans.cons token⟩

/-- Whatever the word begins with is read. -/
theorem longest
    (scans : lexicon.Scans word tokens rest)
    {others : List τ} {after : List α}
    (spelled : word = lexicon.spell others ++ after) :
    others <+: tokens := by
  induction others generalizing word tokens with
  | nil =>
      exact List.nil_prefix
  | cons other others inductionHypothesis =>
      have begins : lexicon.next word = some other := by
        rw [spelled, spell_cons, List.append_assoc]
        exact lexicon.next_text other _
      cases tokens with
      | nil =>
          have sameWord : word = rest := scans.spelled
          rw [sameWord, scans.ends] at begins
          cases begins
      | cons token tokens =>
          have isSpelled := scans.spelled
          rw [spell_cons, List.append_assoc] at isSpelled
          have same : token = other := by
            rw [isSpelled, lexicon.next_text] at begins
            exact Option.some.inj begins
          subst same
          rw [spell_cons, List.append_assoc, isSpelled] at spelled
          have behind := List.append_cancel_left spelled
          have later : lexicon.Scans (lexicon.spell tokens ++ rest) tokens rest :=
            ⟨rfl, scans.ends⟩
          exact List.cons_prefix_cons.mpr
            ⟨rfl, inductionHypothesis later behind⟩

/-- A word is read in one way. -/
theorem unique
    (scans : lexicon.Scans word tokens rest)
    {others : List τ} {after : List α}
    (again : lexicon.Scans word others after) :
    others = tokens ∧ after = rest := by
  have atMost := scans.longest again.spelled
  have atLeast := again.longest scans.spelled
  have same := atMost.eq_of_length_le atLeast.length_le
  refine ⟨same, ?_⟩
  have spelled := again.spelled
  rw [same, scans.spelled] at spelled
  exact (List.append_cancel_left spelled).symm

/-- A word that is read whole does not change how the next one is read. -/
theorem append
    (whole : lexicon.Scans word tokens [])
    {next after : List α} {more : List τ}
    (scans : lexicon.Scans next more after) :
    lexicon.Scans (word ++ next) (tokens ++ more) after where
  spelled := by
    have isWord := whole.spelled
    rw [List.append_nil] at isWord
    rw [isWord, scans.spelled, spell_append, List.append_assoc]
  ends := scans.ends

/-- Spelled tokens are read whole. -/
theorem spell (lexicon : Lexicon α τ) (tokens : List τ) :
    lexicon.Scans (lexicon.spell tokens) tokens [] where
  spelled := (List.append_nil _).symm
  ends := next_nil

/-- A word is read whole exactly if it can be spelled. -/
theorem whole_iff (scans : lexicon.Scans word tokens rest) :
    rest = [] ↔ ∃ others, lexicon.spell others = word := by
  constructor
  · intro nothing
    refine ⟨tokens, ?_⟩
    rw [scans.spelled, nothing, List.append_nil]
  · rintro ⟨others, rfl⟩
    exact (unique (spell lexicon others) scans).2

end Scans

/-- Tokens can be read from their word. -/
theorem spell_injective : Function.Injective lexicon.spell := by
  intro tokens others same
  have scans := Scans.spell lexicon tokens
  rw [same] at scans
  exact ((Scans.spell lexicon others).unique scans).1

end Lexicon

end Dfk
