import Seeing.Toml.Scalars

/-!
# Reading TOML documents

A document is read line by line into statements: an assignment to a key, a header of a table, or a
header of one more table of a list. `read?` applies them in order, each to the table that the last
header has opened.
-/

namespace Seeing.Toml

/-- Whether a character is a blank within a line. -/
def isBlank (c : Char) : Bool := c = ' ' || c = '\t'

/-- The text after the blanks it starts with. -/
def skipBlanks (text : List Char) : List Char := text.dropWhile isBlank

/-- The text after the blanks, line ends and comments it starts with. The flag tells whether the
text starts within a comment. -/
def skipFiller : (inComment : Bool) → List Char → List Char
  | _, [] => []
  | _, '\n' :: rest => skipFiller false rest
  | _, '\r' :: '\n' :: rest => skipFiller false rest
  | true, c :: rest => if isPrintable c then skipFiller true rest else c :: rest
  | false, '#' :: rest => skipFiller true rest
  | false, c :: rest => if isBlank c then skipFiller false rest else c :: rest

/-- The text after the end of a line, if only blanks and a comment come before it. The end of the
text ends its last line. -/
def endLine? (text : List Char) : Option (List Char) :=
  let text := match skipBlanks text with
    | '#' :: rest => rest.dropWhile isPrintable
    | text => text
  match text with
  | [] => some []
  | '\n' :: rest => some rest
  | '\r' :: '\n' :: rest => some rest
  | _ => none

/-- Whether a character may stand in a key without quotes. -/
def isBare (c : Char) : Bool := c.isAlphanum || c = '-' || c = '_'

/-- A key without dots. -/
def simpleKey? : Read String
  | '"' :: rest => (quoted? rest).map fun (key, rest) => (.ofList key, rest)
  | '\'' :: rest => (literal? rest).map fun (key, rest) => (.ofList key, rest)
  | text =>
    let key := text.takeWhile isBare
    if key.isEmpty then none else some (.ofList key, text.dropWhile isBare)

/-- The steps of a dotted key before the last, and the last. The fuel bounds the number of steps. -/
def key? : (fuel : Nat) → Read (List String × String)
  | 0, _ => none
  | fuel + 1, text => do
    let (key, rest) ← simpleKey? (skipBlanks text)
    match skipBlanks rest with
    | '.' :: rest =>
      let ((steps, last), rest) ← key? fuel rest
      some ((key :: steps, last), rest)
    | rest => some (([], key), rest)

mutual

/-- A value. The depth bounds how far values are nested, and the fuel how many there are. -/
def value? : (fuel depth : Nat) → Read Value
  | fuel + 1, depth + 1, '[' :: rest => do
    let (items, rest) ← items? fuel depth rest
    some (.array items, rest)
  | fuel + 1, depth + 1, '{' :: rest =>
    match skipBlanks rest with
    | '}' :: rest => some (.table .braces [], rest)
    | rest => do
      let ((_, entries), rest) ← pairs? fuel depth (.header, []) rest
      some (.table .braces entries, rest)
  | 0, _, _ => none
  | _, 0, _ => none
  | _ + 1, _ + 1, text => scalar? text

/-- The rest of a list in brackets, after its bracket or a comma. -/
def items? : (fuel depth : Nat) → Read (List Value)
  | 0, _, _ => none
  | fuel + 1, depth, text =>
    match skipFiller false text with
    | ']' :: rest => some ([], rest)
    | text => do
      let (item, rest) ← value? fuel depth text
      match skipFiller false rest with
      | ',' :: rest =>
        let (items, rest) ← items? fuel depth rest
        some (item :: items, rest)
      | ']' :: rest => some ([item], rest)
      | _ => none

/-- The rest of a table in braces, after its brace or a comma, added to the entries so far. -/
def pairs? : (fuel depth : Nat) → Origin × Entries → Read (Origin × Entries)
  | 0, _, _, _ => none
  | fuel + 1, depth, table, text => do
    let ((steps, key), rest) ← key? text.length text
    match rest with
    | '=' :: rest =>
      let (value, rest) ← value? fuel depth (skipBlanks rest)
      let table ← Entries.assign? steps key value table
      match skipBlanks rest with
      | ',' :: rest => pairs? fuel depth table rest
      | '}' :: rest => some (table, rest)
      | _ => none
    | _ => none

end

/-- A statement of a document. -/
inductive Statement where
  /-- A value for a dotted key. -/
  | assign (steps : List String) (key : String) (value : Value)
  /-- The header of a table. -/
  | table (steps : List String) (key : String)
  /-- The header of one more table of a list. -/
  | item (steps : List String) (key : String)

/-- How far values may be nested. -/
def maxDepth : Nat := 80

/-- The statement at the start of a line, up to the end of what it says. -/
def statement? : Read Statement
  | '[' :: '[' :: rest => do
    let ((steps, key), rest) ← key? rest.length rest
    let rest ← word? [']', ']'] rest
    some (.item steps key, rest)
  | '[' :: rest => do
    let ((steps, key), rest) ← key? rest.length rest
    let rest ← word? [']'] rest
    some (.table steps key, rest)
  | text => do
    let ((steps, key), rest) ← key? text.length text
    let rest ← word? ['='] rest
    let (value, rest) ← value? (rest.length + 1) maxDepth (skipBlanks rest)
    some (.assign steps key value, rest)

/-- The statements of a document. The fuel bounds the number of lines. -/
def statements? : (fuel : Nat) → List Char → Option (List Statement)
  | 0, text => if text.isEmpty then some [] else none
  | fuel + 1, text =>
    match skipBlanks text with
    | [] => some []
    | text =>
      match endLine? text with
      | some rest => statements? fuel rest
      | none => do
        let (statement, rest) ← statement? text
        let rest ← endLine? rest
        let others ← statements? fuel rest
        some (statement :: others)

/-- A document that is being read: its entries, and the path of the table that was opened last. -/
structure Draft where
  /-- The entries of the document. -/
  entries : Entries
  /-- The path of the open table. -/
  path : List String

/-- The document after one more statement. -/
def Draft.apply? (draft : Draft) : Statement → Option Draft
  | .assign steps key value => do
    let (_, entries) ←
      Entries.updateAt? false (Entries.assign? steps key value) draft.path (.header, draft.entries)
    some { draft with entries := entries }
  | .table steps key => do
    let (_, entries) ← Entries.open? steps key (.header, draft.entries)
    some ⟨entries, steps ++ [key]⟩
  | .item steps key => do
    let (_, entries) ← Entries.append? steps key (.header, draft.entries)
    some ⟨entries, steps ++ [key]⟩

/-- The entries of a document, if its text is one. A mark of the byte order before it is skipped. -/
def read? (text : List Char) : Option Entries := do
  let text := match text with
    | '\uFEFF' :: rest => rest
    | text => text
  let statements ← statements? (text.length + 1) text
  let draft ← statements.foldlM Draft.apply? ⟨[], []⟩
  some draft.entries

end Seeing.Toml
