/-!
# Quoted literals

Text between quotes: a backslash, a line break, a tab and the quote in use are written as a
backslash and one more character, everything else stands for itself.  Reading undoes writing and
stops right behind the closing quote, whatever follows it.
-/

namespace CompanionFactory.Text

/-- The written form of one character between two quotes `quote`. -/
def escapeChar (quote c : Char) : List Char :=
  if c = '\\' then ['\\', '\\']
  else if c = '\n' then ['\\', 'n']
  else if c = '\r' then ['\\', 'r']
  else if c = '\t' then ['\\', 't']
  else if c = quote then ['\\', quote]
  else [c]

/-- The written form of a text between two quotes `quote`; the quotes are not part of it. -/
def escape (quote : Char) (text : List Char) : List Char :=
  text.flatMap (escapeChar quote)

/-- The literal for `text` between two quotes `quote`. -/
def quoted (quote : Char) (text : List Char) : String :=
  String.ofList (quote :: (escape quote text ++ [quote]))

/-- What a backslash and `c` stand for between two quotes `quote`. -/
def unescapeChar? (quote c : Char) : Option Char :=
  if c = '\\' then some '\\'
  else if c = 'n' then some '\n'
  else if c = 'r' then some '\r'
  else if c = 't' then some '\t'
  else if c = quote then some quote
  else none

/-- Read up to the closing quote.  Answers the text and what follows the quote, or nothing when
the quote never comes or a backslash stands before a character it cannot stand before. -/
def unquote? (quote : Char) : List Char → Option (List Char × List Char)
  | [] => none
  | '\\' :: [] => none
  | '\\' :: c :: rest =>
      match unescapeChar? quote c, unquote? quote rest with
      | some d, some (text, after) => some (d :: text, after)
      | _, _ => none
  | c :: rest =>
      if c = quote then some ([], rest)
      else
        match unquote? quote rest with
        | some (text, after) => some (c :: text, after)
        | none => none

@[simp] theorem escape_nil (quote : Char) : escape quote [] = [] := rfl

@[simp] theorem escape_cons (quote c : Char) (text : List Char) :
    escape quote (c :: text) = escapeChar quote c ++ escape quote text := rfl

@[simp] theorem toList_quoted (quote : Char) (text : List Char) :
    (quoted quote text).toList = quote :: (escape quote text ++ [quote]) := by
  simp [quoted]

end CompanionFactory.Text
