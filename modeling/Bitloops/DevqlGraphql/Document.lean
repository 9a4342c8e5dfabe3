import Bitloops.DevqlGraphql.Query
import Bitloops.Foundation.JsonStrings

/-!
# GraphQL documents

The compiler makes a tree of fields and prints it.  An argument is a literal, a list of quoted
strings or an input object whose fields are literals; a `raw` literal is printed as it is.
-/

namespace Bitloops
namespace DevqlGraphql

open Checkpoints

/-! ## Values -/

def quoteGraphqlString (value : String) : String :=
  String.ofList (JsonStrings.encodeChars value.toList)

def enumLiteral (value : String) : String :=
  (toAsciiUppercase (trimText value)).map fun c => if c = '-' then '_' else c

/-- A literal: text that is printed as it is, a quoted string, or a range of lines. -/
inductive GraphqlLiteral where
  | raw (text : String)
  | quoted (text : String)
  | lines (start stop : ℤ)
  deriving DecidableEq, Repr

namespace GraphqlLiteral

def render : GraphqlLiteral → String
  | raw text => text
  | quoted text => quoteGraphqlString text
  | lines start stop => "\x7b start: " ++ toString start ++ ", end: " ++ toString stop ++ " \x7d"

def enum (value : String) : GraphqlLiteral := raw (enumLiteral value)

def bool (value : Bool) : GraphqlLiteral := raw (if value then "true" else "false")

end GraphqlLiteral

/-- The value of an argument. -/
inductive GraphqlValue where
  | literal (value : GraphqlLiteral)
  | list (items : List String)
  | object (fields : List (String × GraphqlLiteral))
  deriving DecidableEq, Repr

def GraphqlValue.render : GraphqlValue → String
  | literal value => value.render
  | list items => "[" ++ ", ".intercalate (items.map quoteGraphqlString) ++ "]"
  | object fields =>
    "\x7b " ++ ", ".intercalate (fields.map fun f => f.1 ++ ": " ++ f.2.render) ++ " \x7d"

/-- An input object, when it has a field. -/
def GraphqlValue.object? (fields : List (String × GraphqlLiteral)) : Option GraphqlValue :=
  if fields.isEmpty then none else some (.object fields)

/-- `split(',')`, trimmed, without the empty terms. -/
def compileTermsList (raw : String) : GraphqlValue :=
  .list
    (((raw.toList.splitOnP (· = ',')).map fun term => trimText (String.ofList term)).filter
      (· ≠ ""))

/-! ## Fields -/

structure GraphqlArgument where
  name : String
  value : GraphqlValue
  deriving DecidableEq, Repr

inductive GraphqlSelection where
  | scalar (name : String)
  | field (name : String) (args : List GraphqlArgument) (selectionSet : List GraphqlSelection)

/-- `first_arg`. -/
def firstArg (first : Option ℕ) : List GraphqlArgument :=
  (first.map fun value => { name := "first", value := .literal (.raw value.repr) }).toList

/-- `connection_field`. -/
def connectionField (name : String) (args : List GraphqlArgument)
    (nodeSelection : List GraphqlSelection) : GraphqlSelection :=
  .field name args [.field "edges" [] [.field "node" [] nodeSelection]]

/-! ## Printing -/

def renderArgs (args : List GraphqlArgument) : String :=
  if args.isEmpty then ""
  else "(" ++ ", ".intercalate (args.map fun a => a.name ++ ": " ++ a.value.render) ++ ")"

def indent (depth : ℕ) : String := String.ofList (List.replicate (2 * depth) ' ')

/-- The lines of a selection. -/
def renderSelection (depth : ℕ) : GraphqlSelection → List String
  | .scalar name => [indent depth ++ name]
  | .field name args selectionSet =>
    if selectionSet.isEmpty then [indent depth ++ name ++ renderArgs args]
    else
      [indent depth ++ name ++ renderArgs args ++ " \x7b"] ++
        selectionSet.flatMap (renderSelection (depth + 1)) ++ [indent depth ++ "\x7d"]

/-- The text of a document with the root fields. -/
def buildDocument (rootFields : List GraphqlSelection) : String :=
  "\n".intercalate (["query \x7b"] ++ rootFields.flatMap (renderSelection 1) ++ ["\x7d"])

end DevqlGraphql
end Bitloops
