import Dfk.Library.Markup

/-!
# Text in markup

When text that stands between tags, in an element that holds text only, or in
an attribute is read as that text.  Elsewhere fewer characters are read than
the text has before something that is not a character.
-/

namespace Markup

/-- A text as characters. -/
def chars (text : Text) : List Lexeme :=
  text.map Lexeme.char

/-- A character, with its own byte. -/
def Lexeme.isChar : Lexeme → Bool
  | .char _ => true
  | _ => false

/-- How many characters there are before something else. -/
def leading (written : List Lexeme) : Nat :=
  (written.takeWhile Lexeme.isChar).length

/-- What makes `<` more than a character. -/
def startsMarkup (byte : UInt8) : Bool :=
  isLetter byte || byte = slash || byte = bang || byte = questionMark

/-- No `<` is followed by what makes it more than a character. -/
def plain : Text → Bool
  | [] => true
  | byte :: rest =>
      !(byte = lessThan && rest.head?.any startsMarkup) && plain rest

/-- States of a reader that write something else than a character next. -/
def silent : State → Bool
  | .tag _ _ => true
  | .bogusComment => true
  | .declaration _ => true
  | .comment _ => true
  | .doctype => true
  | _ => false

@[simp] theorem chars_cons (byte : UInt8) (text : Text) :
    chars (byte :: text) = .char byte :: chars text :=
  rfl

@[simp] theorem chars_append (first second : Text) :
    chars (first ++ second) = chars first ++ chars second :=
  List.map_append

/-- What the reader writes at one byte and afterwards. -/
theorem lexer_output_cons
    {state later : State} {byte : UInt8} {written : List Lexeme}
    (steps : step state byte = (later, written)) (input : Text) :
    lexer.output state (byte :: input) =
      written ++ lexer.output later input :=
  Transducer.output_of_step steps input

/-! ## Leading characters -/

@[simp] theorem leading_char (byte : UInt8) (written : List Lexeme) :
    leading (.char byte :: written) = leading written + 1 :=
  rfl

/-- Characters in front. -/
theorem leading_chars_append (text : Text) (written : List Lexeme) :
    leading (chars text ++ written) = text.length + leading written := by
  induction text with
  | nil =>
      exact (Nat.zero_add _).symm
  | cons byte text inductionHypothesis =>
      rw [chars_cons, List.cons_append, leading_char, inductionHypothesis,
        List.length_cons, Nat.add_right_comm]

/-- Something else comes first. -/
theorem leading_of_first
    {written : List Lexeme}
    (other : ∀ first ∈ written.head?, first.isChar = false) :
    leading written = 0 := by
  cases written with
  | nil =>
      rfl
  | cons first rest =>
      rw [leading, List.takeWhile_cons, other first rfl]
      rfl

/-- What a tag writes when it is done is no character. -/
theorem written_cases (tagging : Tagging) :
    tagging.written.2 = [] ∧ silent tagging.written.1 ∨
      ∃ tag, tagging.written.2 = [.tag tag] := by
  cases tagging with
  | inside place tag =>
      exact Or.inl ⟨rfl, rfl⟩
  | done tag =>
      exact Or.inr ⟨tag, rfl⟩

/-- One byte in a silent state. -/
theorem step_silent
    (state : State) (byte : UInt8) (isSilent : silent state) :
    (step state byte).2 = [] ∧ silent (step state byte).1 ∨
      ∃ first rest,
        (step state byte).2 = first :: rest ∧ first.isChar = false := by
  cases state with
  | tag place tag =>
      rcases written_cases (placeStep place tag byte) with
        stays | ⟨done, writes⟩
      · exact Or.inl stays
      · exact Or.inr ⟨.tag done, [], writes, rfl⟩
  | bogusComment =>
      by_cases ends : byte = greaterThan
      · right
        exact ⟨.comment, [], by rw [step, if_pos ends], rfl⟩
      · left
        rw [step, if_neg ends]
        exact ⟨rfl, rfl⟩
  | declaration text =>
      rw [step, declarationStep]
      split_ifs
      · exact Or.inl ⟨rfl, rfl⟩
      · exact Or.inl ⟨rfl, rfl⟩
      · exact Or.inl ⟨rfl, rfl⟩
      · exact Or.inr ⟨.comment, [], rfl, rfl⟩
      · exact Or.inl ⟨rfl, rfl⟩
  | comment text =>
      by_cases ends : byte = greaterThan ∧ commentEnds text
      · right
        exact ⟨.comment, [], by rw [step, if_pos ends], rfl⟩
      · left
        rw [step, if_neg ends]
        exact ⟨rfl, rfl⟩
  | doctype =>
      by_cases ends : byte = greaterThan
      · right
        exact ⟨.doctype, [], by rw [step, if_pos ends], rfl⟩
      · left
        rw [step, if_neg ends]
        exact ⟨rfl, rfl⟩
  | data => cases isSilent
  | tagOpen => cases isSilent
  | endTagOpen => cases isSilent
  | raw element => cases isSilent
  | rawLessThan element => cases isSilent
  | rawEndTag element typed => cases isSilent

/-- The end of the input in a silent state. -/
theorem finish_silent
    (state : State) (isSilent : silent state) :
    ∀ first ∈ (finish state).head?, first.isChar = false := by
  intro first member
  cases state with
  | tag place tag => cases member
  | bogusComment =>
      cases member
      rfl
  | declaration text =>
      cases member
      rfl
  | comment text =>
      cases member
      rfl
  | doctype =>
      cases member
      rfl
  | data => cases isSilent
  | tagOpen => cases isSilent
  | endTagOpen => cases isSilent
  | raw element => cases isSilent
  | rawLessThan element => cases isSilent
  | rawEndTag element typed => cases isSilent

/-- No character comes first in a silent state. -/
theorem leading_of_silent
    {state : State} (isSilent : silent state) (input : Text) :
    leading (lexer.output state input) = 0 := by
  apply leading_of_first
  exact @Transducer.first_of_kept _ _ _ lexer (fun state => silent state)
    (fun first => first.isChar = false) step_silent finish_silent state
    isSilent input

/-! ## Text between tags -/

/-- A silent state that is reached without a word. -/
theorem leading_of_silent_step
    {state later : State} {byte : UInt8}
    (steps : step state byte = (later, []))
    (isSilent : silent later) (input : Text) :
    leading (lexer.output state (byte :: input)) = 0 := by
  rw [lexer_output_cons steps, List.nil_append]
  exact leading_of_silent isSilent input

/-- Behind `<` a tag or a comment begins. -/
theorem step_tagOpen_silent
    {byte : UInt8} (markup : startsMarkup byte = true)
    (other : byte ≠ slash) :
    ∃ later, step .tagOpen byte = (later, []) ∧ silent later := by
  simp only [startsMarkup, Bool.or_eq_true, decide_eq_true_eq] at markup
  rw [step, if_neg other]
  split_ifs with letter isBang isQuestion
  · exact ⟨_, rfl, rfl⟩
  · exact ⟨_, rfl, rfl⟩
  · exact ⟨_, rfl, rfl⟩
  · rcases markup with ((isLetter | isSlash) | bangs) | questions
    · exact absurd isLetter letter
    · exact absurd isSlash other
    · exact absurd bangs isBang
    · exact absurd questions isQuestion

/-- Behind `</` a tag or a comment begins. -/
theorem step_endTagOpen_silent
    {byte : UInt8} (other : byte ≠ greaterThan) :
    ∃ later, step .endTagOpen byte = (later, []) ∧ silent later := by
  rw [step, if_neg other]
  split_ifs
  · exact ⟨_, rfl, rfl⟩
  · exact ⟨_, rfl, rfl⟩

/-- `<` that is no more than a character. -/
theorem output_tagOpen_of_text
    {byte : UInt8} (isText : startsMarkup byte = false) (input : Text) :
    lexer.output .tagOpen (byte :: input) =
      .char lessThan :: lexer.output .data (byte :: input) := by
  simp only [startsMarkup, Bool.or_eq_false_iff, decide_eq_false_iff_not]
    at isText
  obtain ⟨⟨⟨noLetter, noSlash⟩, noBang⟩, noQuestion⟩ := isText
  have steps :
      step .tagOpen byte =
        ((dataStep byte).1, .char lessThan :: (dataStep byte).2) := by
    rw [step, noLetter, if_neg Bool.false_ne_true, if_neg noSlash,
      if_neg noBang, if_neg noQuestion]
  rw [lexer_output_cons steps]
  rfl

/-- `<` as the first byte of a text. -/
theorem output_lessThan (input : Text) :
    lexer.output .data (lessThan :: input) = lexer.output .tagOpen input :=
  lexer_output_cons rfl input

/-- `/` makes `<` the beginning of an end tag. -/
theorem output_slash (input : Text) :
    lexer.output .tagOpen (slash :: input) =
      lexer.output .endTagOpen input :=
  lexer_output_cons rfl input

/-- An end tag without a name is nothing. -/
theorem output_noName (input : Text) :
    lexer.output .endTagOpen (greaterThan :: input) =
      lexer.output .data input :=
  lexer_output_cons rfl input

/-- Another byte as the first byte of a text. -/
theorem output_other
    {byte : UInt8} (other : byte ≠ lessThan) (input : Text) :
    lexer.output .data (byte :: input) =
      .char byte :: lexer.output .data input := by
  have steps : step .data byte = (.data, [.char byte]) := if_neg other
  rw [lexer_output_cons steps]
  rfl

/-- A byte that is not `<` does not matter. -/
theorem plain_other
    {byte : UInt8} (other : byte ≠ lessThan) (text : Text) :
    plain (byte :: text) = plain text := by
  rw [plain, decide_eq_false other]
  rfl

/-- `<` before something that makes it more than a character. -/
theorem plain_markup
    {byte : UInt8} (markup : startsMarkup byte = true) (text : Text) :
    plain (lessThan :: byte :: text) = false := by
  rw [plain, List.head?_cons, Option.any_some, markup]
  rfl

/-- `<` before something else. -/
theorem plain_lessThan
    {byte : UInt8} (isText : startsMarkup byte = false) (text : Text) :
    plain (lessThan :: byte :: text) = plain (byte :: text) := by
  rw [plain, List.head?_cons, Option.any_some, isText]
  rfl

/-- Text before does not make text plain. -/
theorem plain_append_of_not_plain
    (before : Text) {text : Text} (notPlain : plain text = false) :
    plain (before ++ text) = false := by
  induction before with
  | nil =>
      exact notPlain
  | cons byte before inductionHypothesis =>
      rw [List.cons_append, plain, inductionHypothesis, Bool.and_false]

/-- Plain text is read as it stands. -/
theorem output_of_plain
    (text after : Text) :
    (plain text = true →
        lexer.output .data (text ++ lessThan :: after) =
          chars text ++ lexer.output .data (lessThan :: after)) ∧
      (plain (lessThan :: text) = true →
        lexer.output .tagOpen (text ++ lessThan :: after) =
          .char lessThan ::
            (chars text ++ lexer.output .data (lessThan :: after))) := by
  induction text with
  | nil =>
      constructor
      · intro _
        rfl
      · intro _
        exact output_tagOpen_of_text rfl after
  | cons byte text inductionHypothesis =>
      obtain ⟨between, behind⟩ := inductionHypothesis
      have here :
          plain (byte :: text) = true →
            lexer.output .data (byte :: text ++ lessThan :: after) =
              chars (byte :: text) ++
                lexer.output .data (lessThan :: after) := by
        intro isPlain
        by_cases less : byte = lessThan
        · subst less
          exact (output_lessThan _).trans (behind isPlain)
        · rw [plain_other less] at isPlain
          rw [List.cons_append, output_other less, between isPlain]
          rfl
      refine ⟨here, ?_⟩
      intro isPlain
      cases markup : startsMarkup byte with
      | true =>
          rw [plain_markup markup] at isPlain
          cases isPlain
      | false =>
          rw [plain_lessThan markup] at isPlain
          rw [List.cons_append, output_tagOpen_of_text markup]
          exact congrArg _ (here isPlain)

/-- An end tag begins. -/
theorem leading_endTag
    {letter : UInt8} (isName : isLetter letter) (after : Text) :
    leading (lexer.output .data (lessThan :: slash :: letter :: after)) =
      0 := by
  have steps :
      step .endTagOpen letter =
        (.tag .name ⟨true, [lower letter], []⟩, []) := by
    rw [step, if_pos isName]
  rw [output_lessThan, output_slash]
  exact leading_of_silent_step steps rfl after

/-- Text that is not plain is cut short. -/
theorem leading_of_not_plain
    {letter : UInt8} (isName : isLetter letter) (text after : Text) :
    (plain text = false →
        leading (lexer.output .data
          (text ++ lessThan :: slash :: letter :: after)) < text.length) ∧
      (plain (lessThan :: text) = false →
        leading (lexer.output .tagOpen
          (text ++ lessThan :: slash :: letter :: after)) <
            text.length + 1) ∧
      leading (lexer.output .endTagOpen
        (text ++ lessThan :: slash :: letter :: after)) ≤ text.length := by
  induction text with
  | nil =>
      refine ⟨?_, ?_, ?_⟩
      · intro notPlain
        cases notPlain
      · intro notPlain
        cases notPlain
      · have steps : step .endTagOpen lessThan = (.bogusComment, []) := rfl
        exact Nat.le_of_eq (leading_of_silent_step steps rfl _)
  | cons byte text inductionHypothesis =>
      obtain ⟨between, behind, closing⟩ := inductionHypothesis
      have here :
          plain (byte :: text) = false →
            leading (lexer.output .data
              (byte :: text ++ lessThan :: slash :: letter :: after)) <
                (byte :: text).length := by
        intro notPlain
        by_cases less : byte = lessThan
        · subst less
          rw [List.cons_append, output_lessThan]
          exact behind notPlain
        · rw [plain_other less] at notPlain
          rw [List.cons_append, output_other less, leading_char]
          exact Nat.succ_lt_succ (between notPlain)
      refine ⟨here, ?_, ?_⟩
      · intro notPlain
        cases markup : startsMarkup byte with
        | false =>
            rw [plain_lessThan markup] at notPlain
            rw [List.cons_append, output_tagOpen_of_text markup,
              leading_char]
            exact Nat.succ_lt_succ (here notPlain)
        | true =>
            by_cases isClosing : byte = slash
            · subst isClosing
              rw [List.cons_append, output_slash]
              exact Nat.lt_succ_of_le (Nat.le_succ_of_le closing)
            · obtain ⟨later, steps, isSilent⟩ :=
                step_tagOpen_silent markup isClosing
              rw [List.cons_append,
                leading_of_silent_step steps isSilent]
              exact Nat.succ_pos _
      · by_cases empty : byte = greaterThan
        · subst empty
          rw [List.cons_append, output_noName]
          apply Nat.le_succ_of_le
          cases isPlain : plain text with
          | true =>
              have reads :=
                (output_of_plain text (slash :: letter :: after)).1 isPlain
              rw [reads, leading_chars_append,
                leading_endTag isName]
              exact Nat.le_refl _
          | false =>
              exact Nat.le_of_lt (between isPlain)
        · obtain ⟨later, steps, isSilent⟩ := step_endTagOpen_silent empty
          rw [List.cons_append, leading_of_silent_step steps isSilent]
          exact Nat.zero_le _

/-- Text before an end tag is read as it stands exactly if it is plain. -/
theorem text_iff
    {letter : UInt8} {text close after rest : Text}
    {closed expected : List Lexeme}
    (isName : isLetter letter)
    (begins : close = lessThan :: slash :: letter :: after)
    (runs : lexer.run .data close = (.data, closed))
    (noChar : leading (closed ++ expected) = 0) :
    lexer.output .data (text ++ (close ++ rest)) =
        chars text ++ (closed ++ expected) ↔
      plain text = true ∧ lexer.output .data rest = expected := by
  cases isPlain : plain text with
  | true =>
      have reads :=
        (output_of_plain text (slash :: letter :: after ++ rest)).1 isPlain
      rw [← List.cons_append, ← begins, Transducer.output_of_run runs]
        at reads
      rw [reads, List.append_cancel_left_eq, List.append_cancel_left_eq]
      exact (and_iff_right rfl).symm
  | false =>
      apply iff_of_false
      · intro reads
        have short :=
          (leading_of_not_plain isName text (after ++ rest)).1 isPlain
        rw [begins] at reads
        rw [← List.cons_append, ← List.cons_append, ← List.cons_append,
          reads, leading_chars_append, noChar] at short
        exact Nat.lt_irrefl _ short
      · intro both
        exact Bool.false_ne_true both.1

end Markup
