import Dfk.Library.MarkupText

/-!
# Elements and attributes

How text is read in an element that holds text only and in the value of an
attribute, and what a link says about its target and its text.
-/

namespace Markup

/-! ## Elements that hold text only -/

section Escapable

variable {element : Text}

/-- Such an element ends. -/
theorem ne_plaintext_of_escapable
    (isEscapable : element ∈ escapable) :
    element ≠ plaintext := by
  intro same
  subst same
  revert isEscapable
  decide

/-- Such an element holds characters. -/
theorem rawLexeme_of_escapable
    (isEscapable : element ∈ escapable)
    {byte : UInt8} (notZero : byte ≠ 0) :
    rawLexeme element byte = .char byte := by
  rw [rawLexeme, if_neg notZero, if_pos (List.contains_iff_mem.mpr
    isEscapable)]

/-- Letters that have been typed there are characters. -/
theorem map_rawLexeme_of_escapable
    (isEscapable : element ∈ escapable)
    {typed : Text} (noZero : (0 : UInt8) ∉ typed) :
    typed.map (rawLexeme element) = chars typed := by
  apply List.map_congr_left
  intro byte member
  apply rawLexeme_of_escapable isEscapable
  intro zero
  exact noZero (zero ▸ member)

/-- `<` in such an element. -/
theorem output_raw_lessThan
    (isEscapable : element ∈ escapable) (input : Text) :
    lexer.output (.raw element) (lessThan :: input) =
      lexer.output (.rawLessThan element) input := by
  have steps :
      step (.raw element) lessThan = (.rawLessThan element, []) :=
    if_pos ⟨rfl, ne_plaintext_of_escapable isEscapable⟩
  exact lexer_output_cons steps input

/-- Another byte in such an element. -/
theorem output_raw_other
    {byte : UInt8} (other : byte ≠ lessThan) (input : Text) :
    lexer.output (.raw element) (byte :: input) =
      rawLexeme element byte :: lexer.output (.raw element) input := by
  have steps :
      step (.raw element) byte =
        (.raw element, [rawLexeme element byte]) :=
    if_neg (not_and_of_not_left _ other)
  exact lexer_output_cons steps input

/-- `<` without a slash is a character. -/
theorem output_rawLessThan_of_text
    (isEscapable : element ∈ escapable)
    {byte : UInt8} (other : byte ≠ slash) (input : Text) :
    lexer.output (.rawLessThan element) (byte :: input) =
      .char lessThan :: lexer.output (.raw element) (byte :: input) := by
  have steps :
      step (.rawLessThan element) byte =
        ((rawStep element byte).1,
          rawLexeme element lessThan :: (rawStep element byte).2) :=
    if_neg other
  rw [lexer_output_cons steps, rawLexeme_of_escapable isEscapable (by decide)]
  rfl

/-- An end tag of another element is text. -/
theorem output_rawEndTag_of_text
    (isEscapable : element ∈ escapable)
    {typed : Text} {byte : UInt8} (noZero : (0 : UInt8) ∉ typed)
    (noLetter : isLetter byte = false)
    (another :
      ¬ (typed.map lower = element ∧
        (isSpace byte ∨ byte = slash ∨ byte = greaterThan)))
    (input : Text) :
    lexer.output (.rawEndTag element typed) (byte :: input) =
      chars (lessThan :: slash :: typed) ++
        lexer.output (.raw element) (byte :: input) := by
  have steps :
      step (.rawEndTag element typed) byte =
        ((rawStep element byte).1,
          (lessThan :: slash :: typed).map (rawLexeme element) ++
            (rawStep element byte).2) := by
    rw [step, noLetter, if_neg Bool.false_ne_true, if_neg another]
  have noZeroes : (0 : UInt8) ∉ lessThan :: slash :: typed := by
    rw [List.mem_cons, List.mem_cons, not_or, not_or]
    exact ⟨by decide, by decide, noZero⟩
  rw [lexer_output_cons steps,
    map_rawLexeme_of_escapable isEscapable noZeroes, List.append_assoc]
  rfl

/--
What is read of some text before `<`, behind pending characters: the text as it
stands, if it has no zero byte, or fewer characters.
-/
def ReadRaw (element : Text) (state : State) (pending text after : Text) :
    Prop :=
  lexer.output state (text ++ lessThan :: after) =
        chars (pending ++ text) ++
          lexer.output (.raw element) (lessThan :: after) ∧
      0 ∉ text ∨
    leading (lexer.output state (text ++ lessThan :: after)) <
        (pending ++ text).length ∧
      (0 ∈ text ∨ plain (pending ++ text) = false)

/-- Letters are not zero. -/
theorem zero_of_letters
    {typed : Text} (letters : ∀ byte ∈ typed, isLetter byte) :
    (0 : UInt8) ∉ typed := by
  intro member
  have letter := letters 0 member
  revert letter
  decide

/-- A character in front. -/
theorem ReadRaw.cons
    {state later : State} {byte : UInt8} {text after : Text}
    (reads :
      ∀ input,
        lexer.output state (byte :: input) =
          .char byte :: lexer.output later input)
    (other : byte ≠ lessThan) (notZero : byte ≠ 0)
    (read : ReadRaw element later [] text after) :
    ReadRaw element state [] (byte :: text) after := by
  rcases read with ⟨asItStands, noZero⟩ | ⟨short, reason⟩
  · left
    rw [List.cons_append, reads, asItStands]
    exact ⟨rfl, List.not_mem_cons_of_ne_of_not_mem (Ne.symm notZero) noZero⟩
  · right
    rw [List.cons_append, reads, leading_char]
    refine ⟨Nat.succ_lt_succ short, ?_⟩
    rcases reason with zero | notPlain
    · exact Or.inl (List.mem_cons_of_mem _ zero)
    · exact Or.inr ((plain_other other text).trans notPlain)

/-- One more character is pending. -/
theorem ReadRaw.remember
    {state later : State} {byte : UInt8} {pending text after : Text}
    (read : ReadRaw element later (pending ++ [byte]) text after)
    (reads :
      lexer.output state (byte :: (text ++ lessThan :: after)) =
        lexer.output later (text ++ lessThan :: after))
    (notZero : byte ≠ 0) :
    ReadRaw element state pending (byte :: text) after := by
  rw [ReadRaw, List.append_assoc, ← reads] at read
  rcases read with ⟨asItStands, noZero⟩ | ⟨short, reason⟩
  · left
    exact ⟨asItStands,
      List.not_mem_cons_of_ne_of_not_mem (Ne.symm notZero) noZero⟩
  · right
    refine ⟨short, ?_⟩
    rcases reason with zero | notPlain
    · exact Or.inl (List.mem_cons_of_mem _ zero)
    · exact Or.inr notPlain

/-- Pending characters turn out to be text. -/
theorem ReadRaw.resume
    {state : State} {pending text after : Text}
    (reads :
      lexer.output state (text ++ lessThan :: after) =
        chars pending ++
          lexer.output (.raw element) (text ++ lessThan :: after))
    (read : ReadRaw element (.raw element) [] text after) :
    ReadRaw element state pending text after := by
  rcases read with ⟨asItStands, noZero⟩ | ⟨short, reason⟩
  · left
    rw [reads, asItStands, List.nil_append, chars_append,
      List.append_assoc]
    exact ⟨rfl, noZero⟩
  · right
    rw [reads, leading_chars_append, List.length_append]
    refine ⟨Nat.add_lt_add_left short _, ?_⟩
    rcases reason with zero | notPlain
    · exact Or.inl zero
    · exact Or.inr (plain_append_of_not_plain pending notPlain)

/-- An end tag is read instead of pending characters. -/
theorem ReadRaw.ended
    {state : State} {byte : UInt8} {typed text after : Text}
    {tagging : Tagging}
    (ends : step state byte = tagging.written) :
    ReadRaw element state (lessThan :: slash :: typed) (byte :: text)
      after := by
  right
  have none :
      leading (lexer.output state (byte :: (text ++ lessThan :: after))) =
        0 := by
    rcases written_cases tagging with ⟨silently, isSilent⟩ | ⟨tag, writes⟩
    · rw [← ends] at silently isSilent
      exact leading_of_silent_step (Prod.ext rfl silently) isSilent _
    · rw [← ends] at writes
      rw [lexer_output_cons
        (show step state byte = ((step state byte).1, [.tag tag]) from
          Prod.ext rfl writes)]
      rfl
  refine ⟨?_, Or.inr (plain_markup rfl _)⟩
  rw [List.cons_append, none]
  exact Nat.succ_pos _

/-- Text in an element that holds text only. -/
theorem readRaw
    (isEscapable : element ∈ escapable) (text after : Text) :
    ReadRaw element (.raw element) [] text after ∧
      ReadRaw element (.rawLessThan element) [lessThan] text after ∧
      ∀ typed, (∀ byte ∈ typed, isLetter byte) →
        ReadRaw element (.rawEndTag element typed)
          (lessThan :: slash :: typed) text after := by
  induction text with
  | nil =>
      have here : ReadRaw element (.raw element) [] [] after :=
        Or.inl ⟨rfl, List.not_mem_nil⟩
      refine ⟨here, ?_, ?_⟩
      · apply ReadRaw.resume _ here
        exact output_rawLessThan_of_text isEscapable (by decide) after
      · intro typed letters
        apply ReadRaw.resume _ here
        apply output_rawEndTag_of_text isEscapable (zero_of_letters letters)
          rfl
        rintro ⟨_, ends⟩
        revert ends
        decide
  | cons byte text inductionHypothesis =>
      obtain ⟨between, behind, closing⟩ := inductionHypothesis
      have here : ReadRaw element (.raw element) [] (byte :: text) after := by
        by_cases less : byte = lessThan
        · subst less
          exact behind.remember (output_raw_lessThan isEscapable _)
            (by decide)
        · by_cases zero : byte = 0
          · subst zero
            right
            rw [List.cons_append, output_raw_other less]
            exact ⟨Nat.succ_pos _, Or.inl (List.mem_cons_self ..)⟩
          · apply ReadRaw.cons _ less zero between
            intro input
            rw [output_raw_other less,
              rawLexeme_of_escapable isEscapable zero]
      refine ⟨here, ?_, ?_⟩
      · by_cases isClosing : byte = slash
        · subst isClosing
          have opened := closing [] (List.forall_mem_nil _)
          exact opened.remember (lexer_output_cons rfl _) (by decide)
        · exact here.resume
            (output_rawLessThan_of_text isEscapable isClosing _)
      · intro typed letters
        cases letter : isLetter byte with
        | true =>
            have steps :
                step (.rawEndTag element typed) byte =
                  (.rawEndTag element (typed ++ [byte]), []) := by
              rw [step, letter, if_pos rfl]
            have more := closing (typed ++ [byte])
              (List.forall_mem_append.mpr
                ⟨letters, List.forall_mem_singleton.mpr letter⟩)
            apply more.remember (lexer_output_cons steps _)
            intro zero
            rw [zero] at letter
            exact absurd letter (by decide)
        | false =>
            by_cases ends :
                typed.map lower = element ∧
                  (isSpace byte ∨ byte = slash ∨ byte = greaterThan)
            · apply ReadRaw.ended
              rw [step, letter, if_neg Bool.false_ne_true, if_pos ends]
            · exact here.resume
                (output_rawEndTag_of_text isEscapable
                  (zero_of_letters letters) letter ends _)

variable {text close after rest : Text} {closed expected : List Lexeme}

/-- Text that is read as it stands has no zero byte. -/
theorem rawText_of_eq
    (isEscapable : element ∈ escapable)
    (begins : close = lessThan :: after)
    (runs : lexer.run (.raw element) close = (.data, closed))
    (noChar : leading (closed ++ expected) = 0)
    (reads :
      lexer.output (.raw element) (text ++ (close ++ rest)) =
        chars text ++ (closed ++ expected)) :
    0 ∉ text ∧ lexer.output .data rest = expected := by
  rcases (readRaw isEscapable text (after ++ rest)).1 with
    ⟨asItStands, noZero⟩ | ⟨short, _⟩
  · rw [← List.cons_append, ← begins, reads, List.nil_append,
      Transducer.output_of_run runs, List.append_cancel_left_eq,
      List.append_cancel_left_eq] at asItStands
    exact ⟨noZero, asItStands.symm⟩
  · rw [← List.cons_append, ← begins, reads, leading_chars_append, noChar]
      at short
    exact absurd short (Nat.lt_irrefl _)

/-- Plain text without a zero byte is read as it stands. -/
theorem rawText_of_plain
    (isEscapable : element ∈ escapable)
    (begins : close = lessThan :: after)
    (runs : lexer.run (.raw element) close = (.data, closed))
    (noZero : 0 ∉ text) (isPlain : plain text = true) :
    lexer.output (.raw element) (text ++ (close ++ rest)) =
      chars text ++ (closed ++ lexer.output .data rest) := by
  rcases (readRaw isEscapable text (after ++ rest)).1 with
    ⟨asItStands, _⟩ | ⟨_, zero | notPlain⟩
  · rw [← List.cons_append, ← begins, List.nil_append,
      Transducer.output_of_run runs] at asItStands
    exact asItStands
  · exact absurd zero noZero
  · exact absurd (notPlain.symm.trans isPlain) Bool.false_ne_true

end Escapable

/-! ## Attributes -/

/-- The tag that goes on or ends. -/
def Tagging.tag : Tagging → Tag
  | .inside _ tag => tag
  | .done tag => tag

/-- An attribute that ends is put behind the others. -/
theorem attributes_finish (tag : Tag) (field : Attribute) :
    tag.attributes <+: (tag.finish field).attributes := by
  rw [Tag.finish]
  split_ifs
  · exact List.prefix_refl _
  · exact List.prefix_append _ _

/-- Between attributes none is lost. -/
theorem attributes_betweenStep (tag : Tag) (byte : UInt8) :
    (betweenStep tag byte).tag.attributes = tag.attributes := by
  rw [betweenStep]
  split_ifs
  · rfl
  · rfl
  · rfl

/-- No attribute is lost. -/
theorem attributes_placeStep (place : Place) (tag : Tag) (byte : UInt8) :
    tag.attributes <+: (placeStep place tag byte).tag.attributes := by
  cases place with
  | name =>
      rw [placeStep]
      split_ifs
      · rw [attributes_betweenStep]
      · exact List.prefix_refl _
  | beforeName =>
      rw [placeStep, attributes_betweenStep]
  | attributeName field =>
      rw [placeStep]
      split_ifs
      · exact List.prefix_refl _
      · exact List.prefix_refl _
      · rw [attributes_betweenStep]
        exact attributes_finish tag field
      · exact List.prefix_refl _
  | afterName field =>
      rw [placeStep]
      split_ifs
      · exact List.prefix_refl _
      · exact List.prefix_refl _
      · rw [attributes_betweenStep]
        exact attributes_finish tag field
  | beforeValue field =>
      rw [placeStep]
      split_ifs
      · exact List.prefix_refl _
      · exact List.prefix_refl _
      · exact attributes_finish tag field
      · exact List.prefix_refl _
  | quoted quote field =>
      rw [placeStep]
      split_ifs
      · exact attributes_finish tag field
      · exact List.prefix_refl _
  | unquoted field =>
      rw [placeStep]
      split_ifs
      · exact attributes_finish tag field
      · exact attributes_finish tag field
      · exact List.prefix_refl _

/-- A tag with some attributes and perhaps others. -/
def Tagged (attributes : List Attribute) (lexeme : Lexeme) : Prop :=
  ∃ tag, lexeme = .tag tag ∧ attributes <+: tag.attributes

/-- What follows in a tag is the tag, with the attributes it has. -/
theorem first_of_tag (place : Place) (tag : Tag) (input : Text) :
    ∀ first ∈ (lexer.output (.tag place tag) input).head?,
      Tagged tag.attributes first := by
  apply @Transducer.first_of_kept _ _ _ lexer
    (fun state =>
      ∃ place later,
        state = .tag place later ∧ tag.attributes <+: later.attributes)
    (Tagged tag.attributes)
  · rintro state byte ⟨place, later, rfl, kept⟩
    have more := kept.trans (attributes_placeStep place later byte)
    have steps :
        lexer.step (.tag place later) byte =
          (placeStep place later byte).written :=
      rfl
    rw [steps]
    cases placed : placeStep place later byte with
    | inside place last =>
        rw [placed] at more
        exact Or.inl ⟨rfl, place, last, rfl, more⟩
    | done last =>
        rw [placed] at more
        exact Or.inr ⟨.tag last, [], rfl, last, rfl, more⟩
  · rintro state ⟨place, later, rfl, kept⟩ first member
    cases member
  · exact ⟨place, tag, rfl, List.prefix_refl _⟩

/-- A value without its quote. -/
theorem run_quoted
    {quote : UInt8} (tag : Tag) {text : Text} (noQuote : quote ∉ text)
    (noZero : (0 : UInt8) ∉ text) :
    ∀ field : Attribute,
      lexer.run (.tag (.quoted quote field) tag) text =
        (.tag
          (.quoted quote { field with value := field.value ++ text }) tag,
          []) := by
  induction text with
  | nil =>
      intro field
      rw [List.append_nil]
      rfl
  | cons byte text inductionHypothesis =>
      intro field
      rw [List.mem_cons, not_or] at noQuote noZero
      have steps :
          lexer.step (.tag (.quoted quote field) tag) byte =
            (.tag (.quoted quote (field.addValue byte)) tag, []) := by
        have placed :
            placeStep (.quoted quote field) tag byte =
              .inside (.quoted quote (field.addValue byte)) tag :=
          if_neg (Ne.symm noQuote.1)
        exact congrArg Tagging.written placed
      rw [Transducer.run_of_step steps
        (inductionHypothesis noQuote.2 noZero.2 _)]
      simp [Attribute.addValue, known, Ne.symm noZero.1]

/-! ## Ends of lines -/

/-- No carriage return is left. -/
theorem not_mem_newlines (page : Text) :
    carriageReturn ∉ newlines page := by
  induction page with
  | nil =>
      exact List.not_mem_nil
  | cons byte page inductionHypothesis =>
      rw [newlines]
      split_ifs with isReturn isFeed
      · exact inductionHypothesis
      · exact List.not_mem_cons_of_ne_of_not_mem (by decide)
          inductionHypothesis
      · exact List.not_mem_cons_of_ne_of_not_mem (Ne.symm isReturn)
          inductionHypothesis

/-- A page without carriage returns is read as it stands. -/
theorem newlines_eq_self
    {page : Text} (noReturn : carriageReturn ∉ page) :
    newlines page = page := by
  induction page with
  | nil =>
      rfl
  | cons byte page inductionHypothesis =>
      rw [List.mem_cons, not_or] at noReturn
      rw [newlines, if_neg (Ne.symm noReturn.1),
        inductionHypothesis noReturn.2]

/-- A reader that has not seen a carriage return. -/
def NoReturn : State → Prop
  | .rawEndTag _ typed => carriageReturn ∉ typed
  | _ => True

/-- A character of the input, or none. -/
theorem rawLexeme_ne_return
    (element : Text) {byte : UInt8} (other : byte ≠ carriageReturn) :
    rawLexeme element byte ≠ .char carriageReturn := by
  rw [rawLexeme]
  split_ifs
  · exact Lexeme.noConfusion
  · intro same
    exact other (Lexeme.char.inj same)
  · exact Lexeme.noConfusion

/-- No carriage return is written, now or later. -/
def Returnless (result : State × List Lexeme) : Prop :=
  NoReturn result.1 ∧
    ∀ written ∈ result.2, written ≠ .char carriageReturn

/-- Nothing is written. -/
theorem Returnless.silently {state : State} (none : NoReturn state) :
    Returnless (state, []) :=
  ⟨none, List.forall_mem_nil _⟩

/-- Something else is written. -/
theorem Returnless.writes
    {state : State} {written : Lexeme} (none : NoReturn state)
    (other : written ≠ .char carriageReturn) :
    Returnless (state, [written]) :=
  ⟨none, List.forall_mem_singleton.mpr other⟩

/-- Something else is written before. -/
theorem Returnless.behind
    {result : State × List Lexeme} {before : List Lexeme}
    (returnless : Returnless result)
    (others : ∀ written ∈ before, written ≠ .char carriageReturn) :
    Returnless (result.1, before ++ result.2) :=
  ⟨returnless.1, List.forall_mem_append.mpr ⟨others, returnless.2⟩⟩

/-- One other thing is written before. -/
theorem Returnless.behindOne
    {result : State × List Lexeme} {before : Lexeme}
    (returnless : Returnless result)
    (other : before ≠ .char carriageReturn) :
    Returnless (result.1, before :: result.2) :=
  returnless.behind (List.forall_mem_singleton.mpr other)

/-- A byte of text is written as it is. -/
theorem returnless_dataStep
    {byte : UInt8} (other : byte ≠ carriageReturn) :
    Returnless (dataStep byte) := by
  rw [dataStep]
  split_ifs
  · exact Returnless.silently trivial
  · apply @Returnless.writes .data _ trivial
    intro same
    exact other (Lexeme.char.inj same)

/-- So it is in an element that holds text only. -/
theorem returnless_rawStep
    (element : Text) {byte : UInt8} (other : byte ≠ carriageReturn) :
    Returnless (rawStep element byte) := by
  rw [rawStep]
  split_ifs
  · exact Returnless.silently trivial
  · exact Returnless.writes trivial (rawLexeme_ne_return element other)

/-- Pending characters are not carriage returns. -/
theorem returnless_pending
    (element : Text) {typed : Text} (none : carriageReturn ∉ typed) :
    ∀ written ∈ (lessThan :: slash :: typed).map (rawLexeme element),
      written ≠ .char carriageReturn := by
  intro written member
  obtain ⟨byte, isPending, rfl⟩ := List.mem_map.mp member
  apply rawLexeme_ne_return
  rintro rfl
  rcases List.mem_cons.mp isPending with isLess | behind
  · exact absurd isLess (by decide)
  · rcases List.mem_cons.mp behind with isSlash | isTyped
    · exact absurd isSlash (by decide)
    · exact none isTyped

/-- What a tag writes. -/
theorem returnless_written (tagging : Tagging) :
    Returnless tagging.written := by
  cases tagging with
  | inside place tag =>
      exact Returnless.silently trivial
  | done tag =>
      apply Returnless.writes _ Lexeme.noConfusion
      rw [Tag.content]
      split_ifs
      · trivial
      · trivial

/-- A byte that is no carriage return does not lead to one. -/
theorem returnless_step
    (state : State) (byte : UInt8) (none : NoReturn state)
    (other : byte ≠ carriageReturn) :
    Returnless (step state byte) := by
  cases state with
  | data => exact returnless_dataStep other
  | tagOpen =>
      rw [step]
      split_ifs
      · exact Returnless.silently trivial
      · exact Returnless.silently trivial
      · exact Returnless.silently trivial
      · exact Returnless.silently trivial
      · exact (returnless_dataStep other).behindOne (by decide)
  | endTagOpen =>
      rw [step]
      split_ifs
      · exact Returnless.silently trivial
      · exact Returnless.silently trivial
      · exact Returnless.silently trivial
  | tag place tag => exact returnless_written _
  | bogusComment =>
      rw [step]
      split_ifs
      · exact Returnless.writes trivial Lexeme.noConfusion
      · exact Returnless.silently trivial
  | declaration text =>
      rw [step, declarationStep]
      split_ifs
      · exact Returnless.silently trivial
      · exact Returnless.silently trivial
      · exact Returnless.silently trivial
      · exact Returnless.writes trivial Lexeme.noConfusion
      · exact Returnless.silently trivial
  | comment text =>
      rw [step]
      split_ifs
      · exact Returnless.writes trivial Lexeme.noConfusion
      · exact Returnless.silently trivial
  | doctype =>
      rw [step]
      split_ifs
      · exact Returnless.writes trivial Lexeme.noConfusion
      · exact Returnless.silently trivial
  | raw element => exact returnless_rawStep element other
  | rawLessThan element =>
      rw [step]
      split_ifs
      · exact Returnless.silently List.not_mem_nil
      · exact (returnless_rawStep element other).behindOne
          (rawLexeme_ne_return element (by decide))
  | rawEndTag element typed =>
      rw [step]
      split_ifs
      · apply Returnless.silently
        intro member
        rcases List.mem_append.mp member with isTyped | isByte
        · exact none isTyped
        · exact other (List.mem_singleton.mp isByte).symm
      · exact returnless_written _
      · exact (returnless_rawStep element other).behind
          (returnless_pending element none)

/-- Nor does the end of the input. -/
theorem returnless_finish
    (state : State) (none : NoReturn state) :
    ∀ written ∈ finish state, written ≠ .char carriageReturn := by
  cases state with
  | data => exact List.forall_mem_nil _
  | tagOpen => decide
  | endTagOpen => decide
  | tag place tag => exact List.forall_mem_nil _
  | bogusComment => decide
  | declaration text =>
      exact List.forall_mem_singleton.mpr Lexeme.noConfusion
  | comment text =>
      exact List.forall_mem_singleton.mpr Lexeme.noConfusion
  | doctype => decide
  | raw element => exact List.forall_mem_nil _
  | rawLessThan element =>
      exact List.forall_mem_singleton.mpr
        (rawLexeme_ne_return element (by decide))
  | rawEndTag element typed => exact returnless_pending element none

/-- No carriage return is ever read from a page. -/
theorem return_not_mem_lexemes (page : Text) :
    .char carriageReturn ∉ lexemes page := by
  intro member
  refine @Transducer.forall_output _ _ _ lexer NoReturn
    (fun byte => byte ≠ carriageReturn)
    (fun written => written ≠ .char carriageReturn)
    returnless_step returnless_finish .data trivial _ ?_ _ member rfl
  intro byte isByte isReturn
  exact not_mem_newlines page (isReturn ▸ isByte)

/-! ## Links -/

section Links

variable (references : Bool → Text → Text)

/-- Characters outside of links. -/
theorem run_chars_outside (text : Text) :
    (linkReader references).run none (chars text) = (none, []) := by
  induction text with
  | nil =>
      rfl
  | cons byte text inductionHypothesis =>
      exact Transducer.run_of_step rfl inductionHypothesis

/-- Characters in a link. -/
theorem run_chars_inside (text : Text) :
    ∀ reading : Reading,
      (linkReader references).run (some reading) (chars text) =
        (some { reading with pending := reading.pending ++ text }, []) := by
  induction text with
  | nil =>
      intro reading
      rw [List.append_nil]
      rfl
  | cons byte text inductionHypothesis =>
      intro reading
      have first :
          (linkReader references).step (some reading) (.char byte) =
            (some { reading with pending := reading.pending ++ [byte] },
              []) :=
        rfl
      rw [chars_cons,
        Transducer.run_of_step first (inductionHypothesis _)]
      simp

end Links

end Markup
