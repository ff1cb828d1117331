import Dfk.Library.MarkupElements
import Dfk.Middleware.Listing

/-!
# The listing as a browser reads it

The path and the names go into the page as they are.  The page is the intended
one, with a link for each entry, exactly if none of them holds markup.
-/

namespace Dfk.Middleware

open Markup Transducer

/-! ## The intended page -/

/-- A start tag without attributes. -/
def startTag (name : String) : Lexeme := .tag ⟨false, word name, []⟩

/-- An end tag. -/
def endTag (name : String) : Lexeme := .tag ⟨true, word name, []⟩

/-- The start tag of a link. -/
def anchor (path name : Bytes) : Lexeme :=
  .tag ⟨false, word "a", [⟨word "href", target path name⟩]⟩

/-- What `autoindex_header_1` is made of. -/
def header1Lexemes : List Lexeme :=
  startTag "html" :: chars (ascii "\n  ") ++
    startTag "head" :: chars (ascii "\n    ") ++
    startTag "title" :: chars (ascii "Directory listing for ") ++
    [.replacement]

/-- What `autoindex_header_2` is made of. -/
def header2Lexemes : List Lexeme :=
  endTag "title" :: chars (ascii "\n  ") ++
    endTag "head" :: chars (ascii "\n  ") ++
    startTag "body" :: chars (ascii "\n    ") ++
    startTag "h2" :: chars (ascii "Directory listing for ") ++ [.char 0]

/-- What `autoindex_header_3` is made of. -/
def header3Lexemes : List Lexeme :=
  endTag "h2" :: chars (ascii "\n    ") ++
    startTag "hr" :: chars (ascii "\n    ") ++
    startTag "ul" :: chars (ascii "\n") ++ [.char 0]

/-- What the line of an entry is to be made of. -/
def itemLexemes (path name : Bytes) : List Lexeme :=
  chars (ascii "      ") ++ startTag "li" :: anchor path name ::
    chars name ++ endTag "a" :: endTag "li" :: chars (ascii "\n")

/-- What `autoindex_footer` is made of. -/
def footerLexemes : List Lexeme :=
  chars (ascii "    ") ++ endTag "ul" :: chars (ascii "\n    ") ++
    startTag "hr" :: chars (ascii "\n  ") ++
    endTag "body" :: chars (ascii "\n") ++
    endTag "html" :: chars (ascii "\n") ++ [.char 0]

/-- What the page is to be made of: the path and the names are text. -/
def intended (path : Bytes) (names : List Bytes) : List Lexeme :=
  header1Lexemes ++ (chars path ++ (header2Lexemes ++ (chars path ++
    (header3Lexemes ++ (names.flatMap (itemLexemes path) ++
      footerLexemes)))))

/-- The link of an entry. -/
def link (path name : Bytes) : Link := ⟨target path name, name⟩

/-! ## One entry -/

/-- Up to the value of the target. -/
def itemOpen : Bytes := ascii "      <li><a href=\""

/-- Behind the name. -/
def itemClose : Bytes := ascii "</a></li>\n"

/-- The reader in the value of the target. -/
def inTarget (value : Bytes) : State :=
  .tag (.quoted quotationMark ⟨word "href", value⟩) ⟨false, word "a", []⟩

/-- The line of an entry up to its target. -/
theorem run_itemOpen :
    lexer.run .data itemOpen =
      (inTarget [], chars (ascii "      ") ++ [startTag "li"]) := by
  decide

/-- The line of an entry behind its name. -/
theorem run_itemClose :
    lexer.run .data itemClose =
      (.data, endTag "a" :: endTag "li" :: chars (ascii "\n")) := by
  decide

/-- The line of an entry between target and name. -/
theorem run_targetEnd (path name : Bytes) :
    lexer.run (inTarget (target path name)) (ascii "\">") =
      (.data, [anchor path name]) :=
  rfl

/-- A target without quotes. -/
theorem run_target
    {value : Bytes} (noQuote : quotationMark ∉ value)
    (noZero : (0 : UInt8) ∉ value) :
    lexer.run (inTarget []) value = (inTarget value, []) :=
  run_quoted ⟨false, word "a", []⟩ noQuote noZero ⟨word "href", []⟩

/-- A quote ends the target early. -/
theorem ne_anchor_of_quote
    {path name rest : Bytes} {expected : List Lexeme}
    (quotes : quotationMark ∈ target path name)
    (noZero : (0 : UInt8) ∉ target path name) :
    lexer.output (inTarget []) (target path name ++ rest) ≠
      anchor path name :: expected := by
  intro reads
  obtain ⟨before, after, split, noQuote⟩ :=
    List.eq_append_cons_of_mem quotes
  have noZeroBefore : (0 : UInt8) ∉ before := by
    intro member
    apply noZero
    rw [split]
    exact List.mem_append_left _ member
  let ended : Tag := ⟨false, word "a", [⟨word "href", before⟩]⟩
  have quote :
      lexer.output (inTarget before)
          (quotationMark :: (after ++ rest)) =
        lexer.output (.tag .beforeName ended) (after ++ rest) :=
    rfl
  rw [split, List.append_assoc, List.cons_append,
    output_of_run (run_target noQuote noZeroBefore), List.nil_append,
    quote] at reads
  have first :=
    first_of_tag .beforeName ended (after ++ rest) (anchor path name)
      (by rw [reads]; rfl)
  obtain ⟨tag, same, kept⟩ := first
  cases same
  have value : before = target path name := by
    have fields := (List.cons_prefix_cons.mp kept).1
    exact (Attribute.mk.inj fields).2
  have length := congrArg List.length split
  rw [List.length_append, List.length_cons, ← value] at length
  omega

/-- A line is as long as its parts. -/
theorem item_append (path name rest : Bytes) :
    item path name ++ rest =
      itemOpen ++ (target path name ++ (ascii "\">" ++
        (name ++ (itemClose ++ rest)))) := by
  rw [item, itemOpen, itemClose]
  simp only [List.append_assoc]

/-- Its intended parts. -/
theorem itemLexemes_append (path name : Bytes) (rest : List Lexeme) :
    itemLexemes path name ++ rest =
      (chars (ascii "      ") ++ [startTag "li"]) ++
        anchor path name ::
          (chars name ++
            ((endTag "a" :: endTag "li" :: chars (ascii "\n")) ++
              rest)) := by
  rw [itemLexemes]
  simp only [List.append_assoc, List.cons_append, List.nil_append]

/-- A name between its tags. -/
theorem name_iff
    {name rest : Bytes} {expected : List Lexeme} :
    lexer.output .data (name ++ (itemClose ++ rest)) =
        chars name ++
          ((endTag "a" :: endTag "li" :: chars (ascii "\n")) ++
            expected) ↔
      plain name = true ∧ lexer.output .data rest = expected := by
  have begins :
      itemClose = lessThan :: Markup.slash :: 97 :: ascii "></li>\n" := by
    decide
  exact text_iff rfl begins run_itemClose rfl

/-- The line of an entry is read as intended, or what follows is not. -/
theorem item_iff
    {path name rest : Bytes} {expected : List Lexeme}
    (noZero : (0 : UInt8) ∉ target path name) :
    lexer.output .data (item path name ++ rest) =
        itemLexemes path name ++ expected ↔
      (quotationMark ∉ target path name ∧ plain name = true) ∧
        lexer.output .data rest = expected := by
  rw [item_append, itemLexemes_append, output_of_run run_itemOpen,
    List.append_cancel_left_eq]
  by_cases quotes : quotationMark ∈ target path name
  · apply iff_of_false
    · exact ne_anchor_of_quote quotes noZero
    · intro both
      exact both.1.1 quotes
  · rw [output_of_run (run_target quotes noZero), List.nil_append,
      output_of_run (run_targetEnd path name), List.singleton_append,
      List.cons_inj_right, name_iff, and_assoc]
    exact (and_iff_right quotes).symm

/-! ## All entries -/

/-- The footer is read as intended. -/
theorem output_footer :
    lexer.output .data autoindexFooter = footerLexemes := by
  decide

/-- A target has the bytes of the path and of the name, and a separator. -/
theorem not_mem_target
    {byte : UInt8} {path name : Bytes} (other : byte ≠ separator)
    (inPath : byte ∉ path) (inName : byte ∉ name) :
    byte ∉ target path name := by
  have inSeparator : byte ∉ separatorAfter path := by
    rw [separatorAfter]
    split_ifs
    · exact List.not_mem_nil
    · exact List.not_mem_cons_of_ne_of_not_mem other List.not_mem_nil
  rw [target, List.mem_append, List.mem_append, not_or, not_or]
  exact ⟨⟨inPath, inSeparator⟩, inName⟩

/-- The lines are read as intended if each of them is. -/
theorem items_iff
    {path : Bytes} (noZero : (0 : UInt8) ∉ path) (names : List Bytes)
    (noZeroes : ∀ name ∈ names, (0 : UInt8) ∉ name) :
    lexer.output .data (names.flatMap (item path) ++ autoindexFooter) =
        names.flatMap (itemLexemes path) ++ footerLexemes ↔
      ∀ name ∈ names,
        quotationMark ∉ target path name ∧ plain name = true := by
  induction names with
  | nil =>
      exact iff_of_true output_footer (List.forall_mem_nil _)
  | cons name names inductionHypothesis =>
      obtain ⟨inName, inNames⟩ := List.forall_mem_cons.mp noZeroes
      have inTarget := not_mem_target (by decide) noZero inName
      rw [List.flatMap_cons, List.flatMap_cons, List.append_assoc,
        List.append_assoc, item_iff inTarget, inductionHypothesis inNames,
        List.forall_mem_cons]

/-! ## The page -/

/-- The page begins with the element for its title. -/
theorem run_header1 :
    lexer.run .data autoindexHeader1 =
      (.raw (word "title"), header1Lexemes) := by
  decide

/-- Behind the title. -/
theorem run_header2 :
    lexer.run (.raw (word "title")) autoindexHeader2 =
      (.data, header2Lexemes) := by
  decide +kernel

/-- Behind the heading. -/
theorem run_header3 :
    lexer.run .data autoindexHeader3 = (.data, header3Lexemes) := by
  decide

/-- The path in the heading. -/
theorem heading_iff
    {path rest : Bytes} {expected : List Lexeme} :
    lexer.output .data (path ++ (autoindexHeader3 ++ rest)) =
        chars path ++ (header3Lexemes ++ expected) ↔
      plain path = true ∧ lexer.output .data rest = expected := by
  have begins :
      autoindexHeader3 =
        lessThan :: Markup.slash :: 104 ::
          (ascii "2>\n    <hr>\n    <ul>\n" ++ [0]) := by
    decide
  exact text_iff rfl begins run_header3 rfl

/-- The path in the title and in the heading. -/
theorem paths_iff
    {path rest : Bytes} {expected : List Lexeme} :
    lexer.output (.raw (word "title"))
          (path ++ (autoindexHeader2 ++
            (path ++ (autoindexHeader3 ++ rest)))) =
        chars path ++ (header2Lexemes ++
          (chars path ++ (header3Lexemes ++ expected))) ↔
      ((0 : UInt8) ∉ path ∧ plain path = true) ∧
        lexer.output .data rest = expected := by
  have isEscapable : word "title" ∈ escapable := List.mem_cons_self ..
  have begins :
      autoindexHeader2 = lessThan :: autoindexHeader2.tail := by
    decide
  constructor
  · intro reads
    obtain ⟨noZero, heading⟩ :=
      rawText_of_eq isEscapable begins run_header2 rfl reads
    obtain ⟨isPlain, others⟩ := heading_iff.mp heading
    exact ⟨⟨noZero, isPlain⟩, others⟩
  · rintro ⟨⟨noZero, isPlain⟩, others⟩
    rw [rawText_of_plain isEscapable begins run_header2 noZero isPlain,
      heading_iff.mpr ⟨isPlain, others⟩]

/-- No name and no target holds markup. -/
def PlainEntry (path name : Bytes) : Prop :=
  quotationMark ∉ target path name ∧ plain name = true

/-- A page without carriage returns is read as intended. -/
theorem page_iff
    (path : Bytes) (names : List Bytes)
    (noZeroes : ∀ name ∈ names, (0 : UInt8) ∉ name) :
    lexer.output .data (page path names) = intended path names ↔
      ((0 : UInt8) ∉ path ∧ plain path = true) ∧
        ∀ name ∈ names, PlainEntry path name := by
  have parts :
      page path names =
        autoindexHeader1 ++ (path ++ (autoindexHeader2 ++
          (path ++ (autoindexHeader3 ++
            (names.flatMap (item path) ++ autoindexFooter))))) := by
    rw [page]
    simp only [List.append_assoc]
  rw [parts, output_of_run run_header1, intended,
    List.append_cancel_left_eq, paths_iff]
  apply and_congr_right
  intro pathPlain
  exact items_iff pathPlain.1 names noZeroes

/-! ## Ends of lines -/

/-- A carriage return of the path or of a name is to be read. -/
theorem return_mem_intended
    {path : Bytes} {names : List Bytes}
    (returns :
      carriageReturn ∈ path ∨ ∃ name ∈ names, carriageReturn ∈ name) :
    .char carriageReturn ∈ intended path names := by
  rw [intended]
  apply List.mem_append_right
  rcases returns with inPath | ⟨name, isName, inName⟩
  · exact List.mem_append_left _ (List.mem_map_of_mem inPath)
  · apply List.mem_append_right
    apply List.mem_append_right
    apply List.mem_append_right
    apply List.mem_append_right
    apply List.mem_append_left
    apply List.mem_flatMap.mpr
    refine ⟨name, isName, ?_⟩
    rw [← List.append_nil (itemLexemes path name), itemLexemes_append]
    apply List.mem_append_right
    apply List.mem_cons_of_mem
    exact List.mem_append_left _ (List.mem_map_of_mem inName)

/-- The line of an entry has the carriage returns of path and name. -/
theorem return_not_mem_item
    {path name : Bytes} (inPath : carriageReturn ∉ path)
    (inName : carriageReturn ∉ name) :
    carriageReturn ∉ item path name := by
  have inTarget : carriageReturn ∉ target path name :=
    not_mem_target (by decide) inPath inName
  rw [← List.append_nil (item path name), item_append]
  simp only [List.mem_append, not_or]
  exact ⟨by decide, inTarget, by decide, inName, by decide,
    List.not_mem_nil⟩

/-- The page has the carriage returns of the path and of the names. -/
theorem return_not_mem_page
    {path : Bytes} {names : List Bytes} (inPath : carriageReturn ∉ path)
    (inNames : ∀ name ∈ names, carriageReturn ∉ name) :
    carriageReturn ∉ page path names := by
  have inItems : carriageReturn ∉ names.flatMap (item path) := by
    intro member
    obtain ⟨name, isName, inItem⟩ := List.mem_flatMap.mp member
    exact return_not_mem_item inPath (inNames name isName) inItem
  rw [page]
  simp only [List.mem_append, not_or]
  exact ⟨⟨⟨⟨⟨⟨by decide, inPath⟩, by decide⟩, inPath⟩, by decide⟩,
    inItems⟩, by decide⟩

/-- The page is read as intended if nothing in it holds markup. -/
theorem lexemes_iff
    (path : Bytes) (names : List Bytes)
    (noZeroes : ∀ name ∈ names, (0 : UInt8) ∉ name) :
    lexemes (page path names) = intended path names ↔
      (carriageReturn ∉ path ∧ ∀ name ∈ names, carriageReturn ∉ name) ∧
        ((0 : UInt8) ∉ path ∧ plain path = true) ∧
          ∀ name ∈ names, PlainEntry path name := by
  by_cases returnless :
      carriageReturn ∉ path ∧ ∀ name ∈ names, carriageReturn ∉ name
  · rw [lexemes,
      newlines_eq_self (return_not_mem_page returnless.1 returnless.2),
      page_iff path names noZeroes]
    exact (and_iff_right returnless).symm
  · apply iff_of_false
    · intro reads
      apply return_not_mem_lexemes (page path names)
      rw [reads]
      apply return_mem_intended
      by_contra none
      push Not at none
      exact returnless none
    · intro both
      exact returnless both.1

/-! ## The links -/

section Links

variable (references : Bool → Bytes → Bytes)

/-- Nothing in the headers is a link. -/
theorem run_headers :
    (linkReader references).run none header1Lexemes = (none, []) ∧
      (linkReader references).run none header2Lexemes = (none, []) ∧
      (linkReader references).run none header3Lexemes = (none, []) :=
  ⟨rfl, rfl, rfl⟩

/-- Nothing in the footer is a link. -/
theorem output_footerLexemes :
    (linkReader references).output none footerLexemes = [] :=
  rfl

/-- The link of an entry, with its character references. -/
def readLink (path name : Bytes) : Link :=
  ⟨references true (target path name), references false name⟩

/-- The line of an entry is one link. -/
theorem run_itemLexemes (path name : Bytes) :
    (linkReader references).run none (itemLexemes path name) =
      (none, [readLink references path name]) := by
  have before :
      (linkReader references).run none
          (chars (ascii "      ") ++ [startTag "li"]) = (none, []) :=
    rfl
  have opens :
      (linkReader references).step none (anchor path name) =
        (some ⟨references true (target path name), [], []⟩, []) :=
    rfl
  have behind :
      (linkReader references).run
          (some ⟨references true (target path name), [], [] ++ name⟩)
          ((endTag "a" :: endTag "li" :: chars (ascii "\n")) ++ []) =
        (none, [readLink references path name]) :=
    rfl
  rw [← List.append_nil (itemLexemes path name), itemLexemes_append]
  exact run_append before
    (run_of_step opens
      (run_append (run_chars_inside references name _) behind))

/-- The lines of all entries are their links. -/
theorem output_items (path : Bytes) (names : List Bytes) :
    (linkReader references).output none
        (names.flatMap (itemLexemes path) ++ footerLexemes) =
      names.map (readLink references path) := by
  induction names with
  | nil =>
      exact output_footerLexemes references
  | cons name names inductionHypothesis =>
      rw [List.flatMap_cons, List.append_assoc,
        output_of_run (run_itemLexemes references path name),
        inductionHypothesis]
      rfl

/-- The intended page has a link for each entry. -/
theorem links_intended (path : Bytes) (names : List Bytes) :
    links references (intended path names) =
      names.map (readLink references path) := by
  obtain ⟨header1, header2, header3⟩ := run_headers references
  have outside := run_chars_outside references path
  rw [links, intended, output_of_run header1, output_of_run outside,
    output_of_run header2, output_of_run outside, output_of_run header3,
    output_items]
  rfl

end Links

/-! ## Faithful listings -/

section Faithful

variable (references : Bool → Bytes → Bytes)

/--
The array is filled, its bytes are announced, and the page is the intended one,
whose links are those of the entries.
-/
structure Faithful (path : Bytes) (names : List Bytes) (listing : Listing) :
    Prop where
  filled : listing.iov.length = listing.niov
  announced : listing.contentLength = listing.iov.flatten.length
  structured : lexemes listing.iov.flatten = intended path names
  linked :
    links references (lexemes listing.iov.flatten) = names.map (link path)

/-- A name that goes into its tags and between them as it is. -/
structure HarmlessEntry (path name : Bytes) : Prop where
  isPlain : plain name = true
  noReturn : carriageReturn ∉ name
  noQuote : quotationMark ∉ target path name
  noReferenceInTarget : references true (target path name) = target path name
  noReferenceInText : references false name = name

/-- A path and names that go into the page as they are. -/
structure Harmless (path : Bytes) (names : List Bytes) : Prop where
  notEmpty : path ≠ []
  isPlain : plain path = true
  noZero : (0 : UInt8) ∉ path
  noReturn : carriageReturn ∉ path
  entries : ∀ name ∈ names, HarmlessEntry references path name

variable {references} {path : Bytes} {names : List Bytes}

/-- A page of harmless parts is the intended one, with its links. -/
theorem reads_of_harmless
    (harmless : Harmless references path names)
    (noZeroes : ∀ name ∈ names, (0 : UInt8) ∉ name) :
    lexemes (page path names) = intended path names ∧
      links references (lexemes (page path names)) =
        names.map (link path) := by
  have structured :=
    (lexemes_iff path names noZeroes).mpr
      ⟨⟨harmless.noReturn,
          fun name isName => (harmless.entries name isName).noReturn⟩,
        ⟨harmless.noZero, harmless.isPlain⟩,
        fun name isName =>
          ⟨(harmless.entries name isName).noQuote,
            (harmless.entries name isName).isPlain⟩⟩
  refine ⟨structured, ?_⟩
  rw [structured, links_intended]
  apply List.map_congr_left
  intro name isName
  have entry := harmless.entries name isName
  rw [readLink, entry.noReferenceInTarget, entry.noReferenceInText, link]

/-- Only such parts make the intended page, with its links. -/
theorem harmless_of_reads
    (notEmpty : path ≠ [])
    (noZeroes : ∀ name ∈ names, (0 : UInt8) ∉ name)
    (structured : lexemes (page path names) = intended path names)
    (linked :
      links references (lexemes (page path names)) =
        names.map (link path)) :
    Harmless references path names := by
  obtain ⟨⟨pathReturn, nameReturn⟩, ⟨pathZero, pathPlain⟩, entries⟩ :=
    (lexemes_iff path names noZeroes).mp structured
  rw [structured, links_intended, List.map_inj_left] at linked
  refine ⟨notEmpty, pathPlain, pathZero, pathReturn, ?_⟩
  intro name isName
  have same := Link.mk.inj (linked name isName)
  exact ⟨(entries name isName).2, nameReturn name isName,
    (entries name isName).1, same.1, same.2⟩

/-- The name of an entry ends before the first zero byte. -/
theorem noZero_name (de : Dirent) : (0 : UInt8) ∉ de.name := by
  intro member
  have notZero := List.mem_takeWhile_imp member
  exact absurd rfl (of_decide_eq_true notZero)

/-- So do the names of all entries. -/
theorem noZero_names (filelist : List Dirent) :
    ∀ name ∈ filelist.map Dirent.name, (0 : UInt8) ∉ name := by
  intro name isName
  obtain ⟨de, _, rfl⟩ := List.mem_map.mp isName
  exact noZero_name de

/-- A page that has been made is faithful if it reads as intended. -/
theorem faithful_iff_of_holds
    {listing : Listing} (holds : listing.Holds path names)
    (notEmpty : path ≠ [])
    (noZeroes : ∀ name ∈ names, (0 : UInt8) ∉ name) :
    Faithful references path names listing ↔
      Harmless references path names := by
  constructor
  · intro faithful
    have structured := faithful.structured
    have linked := faithful.linked
    rw [holds.written] at structured linked
    exact harmless_of_reads notEmpty noZeroes structured linked
  · intro harmless
    obtain ⟨structured, linked⟩ := reads_of_harmless harmless noZeroes
    rw [← holds.written] at structured linked
    refine ⟨holds.filled, ?_, structured, linked⟩
    rw [holds.written]
    exact holds.announced

end Faithful

/-- Character references in texts without any. -/
def noReferences (_ : Bool) (text : Bytes) : Bytes := text

/-- A regular file. -/
def regularFile (name : String) : Dirent := ⟨dtReg, ascii name⟩

/-- Memory never runs out. -/
def roomyWorld : World where
  input := []
  output := []
  reads := []
  writes := []
  waits := []
  allocations := []

/-- A name that ends the value of its target. -/
def quotingName : String := "\"><img src=x onerror=alert(1)>"

end Dfk.Middleware
