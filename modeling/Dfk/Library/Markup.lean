import Dfk.Library.Transducer

/-!
# Reading markup

How a browser reads a page of HTML up to the point at which it builds elements:
characters, tags with their attributes, comments.  Where the elements go does
not matter to the links of a page, which stand between tags.  A byte stands for
a character, and the states in which a script hides a comment are left out.
-/

namespace Markup

/-- Bytes of a page. -/
abbrev Text := List UInt8

/-- The bytes of a word in ASCII. -/
def word (text : String) : Text :=
  text.toList.map fun character => character.toNat.toUInt8

/-- `<` -/
abbrev lessThan : UInt8 := 60

/-- `>` -/
abbrev greaterThan : UInt8 := 62

/-- `/` -/
abbrev slash : UInt8 := 47

/-- `!` -/
abbrev bang : UInt8 := 33

/-- `?` -/
abbrev questionMark : UInt8 := 63

/-- `=` -/
abbrev equalsSign : UInt8 := 61

/-- `"` -/
abbrev quotationMark : UInt8 := 34

/-- `'` -/
abbrev apostrophe : UInt8 := 39

/-- The carriage return. -/
abbrev carriageReturn : UInt8 := 13

/-- The line feed. -/
abbrev lineFeed : UInt8 := 10

/-- A letter of the alphabet. -/
def isLetter (byte : UInt8) : Bool :=
  65 ≤ byte && byte ≤ 90 || 97 ≤ byte && byte ≤ 122

/-- A tabulator, a line feed, a form feed or a space. -/
def isSpace (byte : UInt8) : Bool :=
  byte = 9 || byte = lineFeed || byte = 12 || byte = 32

/-- The small letter. -/
def lower (byte : UInt8) : UInt8 :=
  if 65 ≤ byte && byte ≤ 90 then byte + 32 else byte

/-- U+FFFD, which stands for a zero byte. -/
def replacementCharacter : Text := [239, 191, 189]

/-- A byte of a name or a value. -/
def known (byte : UInt8) : Text :=
  if byte = 0 then replacementCharacter else [byte]

/-- An attribute of a tag. -/
structure Attribute where
  name : Text
  value : Text
  deriving Repr, DecidableEq

/-- A start tag or an end tag. -/
structure Tag where
  closing : Bool
  name : Text
  attributes : List Attribute
  deriving Repr, DecidableEq

/-- What a page is made of. -/
inductive Lexeme where
  | char (byte : UInt8)
  /-- A character in an element without character references. -/
  | verbatim (byte : UInt8)
  /-- `replacementCharacter`, as a character. -/
  | replacement
  | tag (tag : Tag)
  | comment
  | doctype
  deriving Repr, DecidableEq

/-! ## Tags -/

/-- Where in a tag. -/
inductive Place where
  | name
  | beforeName
  | attributeName (field : Attribute)
  | afterName (field : Attribute)
  | beforeValue (field : Attribute)
  | quoted (quote : UInt8) (field : Attribute)
  | unquoted (field : Attribute)
  deriving Repr, DecidableEq

/-- A tag that goes on or ends. -/
inductive Tagging where
  | inside (place : Place) (tag : Tag)
  | done (tag : Tag)
  deriving Repr, DecidableEq

/-- An attribute comes to its end; the second one of a name is dropped. -/
def Tag.finish (tag : Tag) (field : Attribute) : Tag :=
  if tag.attributes.any fun other => other.name = field.name then tag
  else { tag with attributes := tag.attributes ++ [field] }

/-- More of the name of an attribute. -/
def Attribute.addName (field : Attribute) (byte : UInt8) : Attribute :=
  { field with name := field.name ++ known (lower byte) }

/-- More of the value of an attribute. -/
def Attribute.addValue (field : Attribute) (byte : UInt8) : Attribute :=
  { field with value := field.value ++ known byte }

/-- Between attributes, where a slash counts as little as a space. -/
def betweenStep (tag : Tag) (byte : UInt8) : Tagging :=
  if isSpace byte || byte = slash then .inside .beforeName tag
  else if byte = greaterThan then .done tag
  else .inside (.attributeName (Attribute.addName ⟨[], []⟩ byte)) tag

/-- One byte in a tag. -/
def placeStep : Place → Tag → UInt8 → Tagging
  | .name, tag, byte =>
      if isSpace byte || byte = slash || byte = greaterThan then
        betweenStep tag byte
      else
        .inside .name { tag with name := tag.name ++ known (lower byte) }
  | .beforeName, tag, byte => betweenStep tag byte
  | .attributeName field, tag, byte =>
      if byte = equalsSign then .inside (.beforeValue field) tag
      else if isSpace byte then .inside (.afterName field) tag
      else if byte = slash || byte = greaterThan then
        betweenStep (tag.finish field) byte
      else .inside (.attributeName (field.addName byte)) tag
  | .afterName field, tag, byte =>
      if byte = equalsSign then .inside (.beforeValue field) tag
      else if isSpace byte then .inside (.afterName field) tag
      else betweenStep (tag.finish field) byte
  | .beforeValue field, tag, byte =>
      if isSpace byte then .inside (.beforeValue field) tag
      else if byte = quotationMark || byte = apostrophe then
        .inside (.quoted byte field) tag
      else if byte = greaterThan then .done (tag.finish field)
      else .inside (.unquoted (field.addValue byte)) tag
  | .quoted quote field, tag, byte =>
      if byte = quote then .inside .beforeName (tag.finish field)
      else .inside (.quoted quote (field.addValue byte)) tag
  | .unquoted field, tag, byte =>
      if isSpace byte then .inside .beforeName (tag.finish field)
      else if byte = greaterThan then .done (tag.finish field)
      else .inside (.unquoted (field.addValue byte)) tag

/-! ## Pages -/

/-- The states of a reader. -/
inductive State where
  | data
  /-- Behind `<`. -/
  | tagOpen
  /-- Behind `</`. -/
  | endTagOpen
  | tag (place : Place) (tag : Tag)
  /-- What ends at the next `>`, as a comment. -/
  | bogusComment
  /-- Behind `<!` and some of what makes it a comment or a `DOCTYPE`. -/
  | declaration (text : Text)
  | comment (text : Text)
  | doctype
  /-- In an element that holds text only. -/
  | raw (element : Text)
  /-- Behind `<` there. -/
  | rawLessThan (element : Text)
  /-- Behind `</` and some letters there. -/
  | rawEndTag (element typed : Text)
  deriving Repr, DecidableEq

/-- The elements that hold characters and character references. -/
def escapable : List Text := [word "title", word "textarea"]

/-- The element that does not end. -/
def plaintext : Text := word "plaintext"

/-- The elements that hold text only. -/
def textOnly : List Text :=
  escapable ++
    [word "style", word "xmp", word "iframe", word "noembed", word "noframes",
      word "noscript", word "script", plaintext]

/-- What follows a tag. -/
def Tag.content (tag : Tag) : State :=
  if !tag.closing && textOnly.contains tag.name then .raw tag.name else .data

/-- A tag is written when it is done. -/
def Tagging.written : Tagging → State × List Lexeme
  | .inside place tag => (.tag place tag, [])
  | .done tag => (tag.content, [.tag tag])

/-- One byte of text. -/
def dataStep (byte : UInt8) : State × List Lexeme :=
  if byte = lessThan then (.tagOpen, []) else (.data, [.char byte])

/-- A byte in an element that holds text only. -/
def rawLexeme (element : Text) (byte : UInt8) : Lexeme :=
  if byte = 0 then .replacement
  else if escapable.contains element then .char byte
  else .verbatim byte

/-- One byte in an element that holds text only. -/
def rawStep (element : Text) (byte : UInt8) : State × List Lexeme :=
  if byte = lessThan ∧ element ≠ plaintext then (.rawLessThan element, [])
  else (.raw element, [rawLexeme element byte])

/-- One byte behind `<!`. -/
def declarationStep (text : Text) (byte : UInt8) : State × List Lexeme :=
  if text ++ [byte] = word "--" then (.comment [], [])
  else if (text ++ [byte]).map lower = word "doctype" then (.doctype, [])
  else if (text ++ [byte]).isPrefixOf (word "--") ||
      ((text ++ [byte]).map lower).isPrefixOf (word "doctype") then
    (.declaration (text ++ [byte]), [])
  else if byte = greaterThan then (.data, [.comment])
  else (.bogusComment, [])

/-- Whether a comment ends where `>` follows. -/
def commentEnds (text : Text) : Bool :=
  text = [] || text = word "-" || (word "--").isSuffixOf text ||
    (word "--!").isSuffixOf text

/-- One byte of a page. -/
def step : State → UInt8 → State × List Lexeme
  | .data, byte => dataStep byte
  | .tagOpen, byte =>
      if isLetter byte then (.tag .name ⟨false, [lower byte], []⟩, [])
      else if byte = slash then (.endTagOpen, [])
      else if byte = bang then (.declaration [], [])
      else if byte = questionMark then (.bogusComment, [])
      else ((dataStep byte).1, .char lessThan :: (dataStep byte).2)
  | .endTagOpen, byte =>
      if isLetter byte then (.tag .name ⟨true, [lower byte], []⟩, [])
      else if byte = greaterThan then (.data, [])
      else (.bogusComment, [])
  | .tag place tag, byte => (placeStep place tag byte).written
  | .bogusComment, byte =>
      if byte = greaterThan then (.data, [.comment]) else (.bogusComment, [])
  | .declaration text, byte => declarationStep text byte
  | .comment text, byte =>
      if byte = greaterThan ∧ commentEnds text then (.data, [.comment])
      else (.comment (text ++ [byte]), [])
  | .doctype, byte =>
      if byte = greaterThan then (.data, [.doctype]) else (.doctype, [])
  | .raw element, byte => rawStep element byte
  | .rawLessThan element, byte =>
      if byte = slash then (.rawEndTag element [], [])
      else
        ((rawStep element byte).1,
          rawLexeme element lessThan :: (rawStep element byte).2)
  | .rawEndTag element typed, byte =>
      if isLetter byte then (.rawEndTag element (typed ++ [byte]), [])
      else if typed.map lower = element ∧
          (isSpace byte ∨ byte = slash ∨ byte = greaterThan) then
        (betweenStep ⟨true, element, []⟩ byte).written
      else
        ((rawStep element byte).1,
          (lessThan :: slash :: typed).map (rawLexeme element) ++
            (rawStep element byte).2)

/-- The end of a page. -/
def finish : State → List Lexeme
  | .data => []
  | .tagOpen => [.char lessThan]
  | .endTagOpen => [.char lessThan, .char slash]
  | .tag _ _ => []
  | .bogusComment => [.comment]
  | .declaration _ => [.comment]
  | .comment _ => [.comment]
  | .doctype => [.doctype]
  | .raw _ => []
  | .rawLessThan element => [rawLexeme element lessThan]
  | .rawEndTag element typed =>
      (lessThan :: slash :: typed).map (rawLexeme element)

/-- The reader of a page. -/
def lexer : Transducer State UInt8 Lexeme where
  step := step
  finish := finish

/-- The ends of lines as line feeds. -/
def newlines : Text → Text
  | [] => []
  | byte :: rest =>
      if byte = carriageReturn then
        if rest.head? = some lineFeed then newlines rest
        else lineFeed :: newlines rest
      else byte :: newlines rest

/-- What a page is made of. -/
def lexemes (page : Text) : List Lexeme :=
  lexer.output .data (newlines page)

/-! ## Links -/

/-- A link of a page. -/
structure Link where
  target : Text
  text : Text
  deriving Repr, DecidableEq

/-- A link whose text is not complete. -/
structure Reading where
  target : Text
  text : Text
  /-- Characters with character references. -/
  pending : Text
  deriving Repr, DecidableEq

section Links

-- How character references are resolved, in attributes and elsewhere.
variable (references : Bool → Text → Text)

/-- Other text follows, or none. -/
def Reading.flush (reading : Reading) : Reading where
  target := reading.target
  text := reading.text ++ references false reading.pending
  pending := []

/-- The link has been read. -/
def Reading.link (reading : Reading) : Link where
  target := reading.target
  text := (reading.flush references).text

/-- A start tag opens a link if it has a target. -/
def opened (tag : Tag) : Option Reading :=
  (tag.attributes.find? fun field => field.name = word "href").map
    fun field => ⟨references true field.value, [], []⟩

/-- One part of a page, perhaps in a link. -/
def linkStep : Option Reading → Lexeme → Option Reading × List Link
  | reading, .char byte =>
      (reading.map fun reading =>
        { reading with pending := reading.pending ++ [byte] }, [])
  | reading, .verbatim byte =>
      ((reading.map (Reading.flush references)).map fun reading =>
        { reading with text := reading.text ++ [byte] }, [])
  | reading, .replacement =>
      ((reading.map (Reading.flush references)).map fun reading =>
        { reading with text := reading.text ++ replacementCharacter }, [])
  | reading, .tag tag =>
      if tag.name = word "a" then
        (if tag.closing then none else opened references tag,
          (reading.map (Reading.link references)).toList)
      else (reading.map (Reading.flush references), [])
  | reading, .comment => (reading.map (Reading.flush references), [])
  | reading, .doctype => (reading.map (Reading.flush references), [])

/-- The reader of links. -/
def linkReader : Transducer (Option Reading) Lexeme Link where
  step := linkStep references
  finish := fun reading => (reading.map (Reading.link references)).toList

/-- The links of a page. -/
def links (page : List Lexeme) : List Link :=
  (linkReader references).output none page

end Links

end Markup
