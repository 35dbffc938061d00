import LazyCollections.Text.Quoted

/-!
# Inspection forms

The text forms that messages use for structured data: a list in brackets, a mapping and a record
in braces, a constructor with its arguments in parentheses.
-/

namespace LazyCollections.Text

set_option autoImplicit false

def commaSeparated (items : List String) : String :=
  ", ".intercalate items

def inspectList (items : List String) : String :=
  "[" ++ commaSeparated items ++ "]"

def inspectMapping (entries : List (String × String)) : String :=
  "\x7b" ++ commaSeparated (entries.map fun e => e.1 ++ ": " ++ e.2) ++ "\x7d"

def inspectCall (name : String) (arguments : List String) : String :=
  name ++ "(" ++ commaSeparated arguments ++ ")"

def inspectRecord (name : String) (fields : List (String × String)) : String :=
  name ++ " \x7b " ++ commaSeparated (fields.map fun f => f.1 ++ ": " ++ f.2) ++ " \x7d"

/-- A record that shows only some of its fields. -/
def inspectOpenRecord (name : String) (fields : List (String × String)) : String :=
  name ++ " \x7b " ++ commaSeparated (fields.map fun f => f.1 ++ ": " ++ f.2) ++ ", .. \x7d"

def inspectOption (item : Option String) : String :=
  match item with
  | none => "None"
  | some text => inspectCall "Some" [text]

def inspectBool (b : Bool) : String :=
  if b then "true" else "false"

end LazyCollections.Text
