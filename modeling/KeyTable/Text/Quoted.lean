import KeyTable.Text.Unprintable
import KeyTable.Text.Extending

/-!
# Quoted text

How a key or a path is shown inside a message.  Backslash, tab, line feed, carriage return
and the zero character have short escapes; unprintable characters are written by
their number.  Two forms differ in what else they escape:

* `quoted` stands in double quotes, escapes these and every character that
  extends a grapheme;
* `escaped` stands bare, escapes quotes of both kinds, and an extending character
  only at the very start, where there is nothing that it could extend.
-/

namespace KeyTable
namespace Text

/-- What an escaper treats as special, besides what all of them do. -/
structure EscapeRule where
  /-- Escape the single quote. -/
  singleQuote : Bool
  /-- Escape characters that extend a grapheme. -/
  extending : Bool

/-- A character written by its number in lower-case hexadecimal. -/
def byNumber (c : Char) : List Char :=
  ['\\', 'u', '\x7b'] ++ Nat.toDigits 16 c.toNat ++ ['\x7d']

/-- The written form of one character. -/
def escapeChar (rule : EscapeRule) (c : Char) : List Char :=
  if c = '\x00' then ['\\', '0']
  else if c = '\t' then ['\\', 't']
  else if c = '\r' then ['\\', 'r']
  else if c = '\n' then ['\\', 'n']
  else if c = '\\' then ['\\', '\\']
  else if c = '"' then ['\\', '"']
  else if c = '\'' && rule.singleQuote then ['\\', '\'']
  else if rule.extending && isExtending c then byNumber c
  else if isUnprintable c then byNumber c
  else [c]

/-- The text in double quotes. -/
def quoted (text : List Char) : String :=
  String.ofList ('"' :: text.flatMap (escapeChar ⟨false, true⟩) ++ ['"'])

/-- The text without quotes around it. -/
def escaped : List Char → String
  | [] => ""
  | c :: rest =>
    String.ofList
      (escapeChar ⟨true, true⟩ c ++ rest.flatMap (escapeChar ⟨true, false⟩))

end Text
end KeyTable
