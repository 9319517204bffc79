import CommandCompletion.Text.Blank

/-!
# Text as one literal word of a shell

Names and values come from specifications and may hold any character, so a script holds
them only in quotes. In bash and zsh a single text stands between single quotes, a quote
inside being taken out of them, and a list stands in one word with escapes, its items
separated by an escaped newline. In fish a text stands between single quotes with a
backslash before quotes and backslashes, and the items of a list are joined by an
unquoted escape for the newline.

For a regular expression every punctuation character of ASCII gets a backslash.
-/

set_option autoImplicit false

namespace CommandCompletion.Script

/-- The characters of texts one after the other, with a separator between them. -/
def joinWith (separator : List Char) : List (List Char) → List Char
  | [] => []
  | [text] => text
  | text :: rest => text ++ separator ++ joinWith separator rest

/-- A text with a backslash before every backslash and every single quote. -/
def backslashed (text : List Char) : List Char :=
  text.flatMap fun c => if c = '\\' ∨ c = '\'' then ['\\', c] else [c]

/-- Single quotes of bash and zsh: a quote closes them, is escaped, and opens them again. -/
def posixQuote (text : List Char) : List Char :=
  '\'' :: text.flatMap (fun c => if c = '\'' then ['\'', '\\', '\'', '\''] else [c]) ++ ['\'']

/-- A list as one word of bash and zsh, its items on lines of their own. -/
def ansiLines (values : List (List Char)) : List Char :=
  if values.isEmpty then ['\'', '\'']
  else ['$', '\''] ++ joinWith ['\\', 'n'] (values.map backslashed) ++ ['\'']

/-- Single quotes of fish. -/
def fishQuote (text : List Char) : List Char :=
  '\'' :: backslashed text ++ ['\'']

/-- A list as one word of fish, its items on lines of their own. -/
def fishLines (values : List (List Char)) : List Char :=
  if values.isEmpty then ['\'', '\'']
  else joinWith ['\\', 'n'] (values.map fishQuote)

/-- A regular expression that matches a text literally. -/
def regexLiteral (text : List Char) : List Char :=
  text.flatMap fun c => if Text.isPunctuation c then ['\\', c] else [c]

end CommandCompletion.Script
