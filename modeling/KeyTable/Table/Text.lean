import KeyTable.Table.Basic

/-!
# Texts and sets in a table

A text key is stored as its UTF-8 bytes and a zero byte, which is also the form
that a dump needs.  A text value has the same form, and no text at all is stored
as no bytes.  A table of text keys without values is a set of texts.
-/

namespace KeyTable

/-- The key of a text. -/
def textKey (text : String) : Bytes := Bytes.ofText text ++ [0]

/-- The value of a text, or of no text. -/
def textValue : Option String → Bytes
  | none => []
  | some text => textKey text

namespace Table

/-! ## Texts -/

/-- Fetches the bytes stored under a text key. -/
def fetchBytes (table : Table) (key : String) : Except Fault Bytes × Table :=
  table.fetch (textKey key)

/-- Fetches the text stored under a text key, without the zero byte that ends it. -/
def fetchText (table : Table) (key : String) : Except Fault String × Table :=
  let (answer, table) := table.fetch (textKey key)
  let text := answer.bind fun value =>
    (Utf8.decode value.dropNul).mapError fun flaw => .corrupt (.notText key flaw)
  (text, table)

/-- Stores a text, or no text, under a text key. -/
def storeText (table : Table) (disk : Disk) (key : String) (text : Option String) :
    Outcome Table Unit :=
  (table.store disk (textKey key) (.given (textValue text))).map fun _ => ()

/-- Stores a text, or no text, under a text key that is absent. -/
def insertText (table : Table) (disk : Disk) (key : String) (text : Option String) :
    Outcome Table Unit :=
  (table.insert disk (textKey key) (.given (textValue text))).map fun _ => ()

/-- Removes a text key. -/
def deleteText (table : Table) (disk : Disk) (key : String) : Outcome Table Unit :=
  table.delete disk (textKey key)

/-! ## Sets -/

/-- Adds a text to a set, and answers whether it is new there. -/
def addMember (table : Table) (disk : Disk) (member : String) : Outcome Table Bool :=
  let outcome := table.insert disk (textKey member) (.given [])
  let answer :=
    match outcome.answer with
    | .ok _ => .ok true
    | .error .alreadyExists => .ok false
    | .error fault => .error fault
  { outcome with answer }

/-- Is this text in the set?  The cursor moves as in a fetch. -/
def hasMember (table : Table) (member : String) : Bool × Table :=
  let (answer, table) := table.fetch (textKey member)
  (answer.toBool, table)

end Table

end KeyTable
