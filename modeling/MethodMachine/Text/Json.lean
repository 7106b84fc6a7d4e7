/-
# JSON documents

The documents that jemu's `disassemble` and `benchmark` print (specification, 9).

A document is printed over several lines: every entry of a list or an object stands on its own line,
two blanks further in, and an empty list or object is closed at once.
-/

namespace MethodMachine

/-- A JSON document.  A number is given by its text. -/
inductive Json where
  | null
  | bool (value : Bool)
  | number (text : String)
  | string (value : String)
  | list (entries : List Json)
  | object (fields : List (String × Json))

namespace Json

/-- A natural number. -/
def nat (n : Nat) : Json := number n.repr

/-- A character inside a string. -/
def escaped (c : Char) : List Char :=
  if c = '"' then ['\\', '"']
  else if c = '\\' then ['\\', '\\']
  else if c = '\n' then ['\\', 'n']
  else if c = '\r' then ['\\', 'r']
  else if c = '\t' then ['\\', 't']
  else if c.toNat = 8 then ['\\', 'b']
  else if c.toNat = 12 then ['\\', 'f']
  else if c.toNat < 0x20 then
    ['\\', 'u', '0', '0'] ++ List.replicate (if c.toNat < 16 then 1 else 0) '0' ++
      Nat.toDigits 16 c.toNat
  else [c]

/-- A string between quotes. -/
def quote (text : String) : String :=
  "\"" ++ String.ofList (text.toList.flatMap escaped) ++ "\""

/-- The start of a line at a depth. -/
def margin (depth : Nat) : String := String.ofList (List.replicate (2 * depth) ' ')

/-- Entries on lines of their own between brackets. -/
def block (depth : Nat) (opening closing : String) (entries : List String) : String :=
  if entries.isEmpty then opening ++ closing
  else
    opening ++ "\n" ++ ",\n".intercalate (entries.map (margin (depth + 1) ++ ·)) ++ "\n" ++
      margin depth ++ closing

mutual

/-- The text of a document at a depth. -/
def render (depth : Nat) : Json → String
  | null => "null"
  | bool value => if value then "true" else "false"
  | number text => text
  | string value => quote value
  | list entries => block depth "[" "]" (renderList (depth + 1) entries)
  | object fields => block depth "\x7b" "\x7d" (renderFields (depth + 1) fields)

/-- The texts of the entries of a list. -/
def renderList (depth : Nat) : List Json → List String
  | [] => []
  | entry :: rest => render depth entry :: renderList depth rest

/-- The texts of the fields of an object. -/
def renderFields (depth : Nat) : List (String × Json) → List String
  | [] => []
  | (key, value) :: rest =>
    (quote key ++ ": " ++ render depth value) :: renderFields depth rest

end

/-- The text of a document. -/
def pretty (document : Json) : String := render 0 document

end Json

end MethodMachine
