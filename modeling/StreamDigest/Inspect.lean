/-!
# Printed states

A printed state is first described as a tree and then laid out, on one line
(`Inspect.inline`) or with one field or element a line (`Inspect.indented`).
The tree holds all that a printed state may reveal.
-/

namespace StreamDigest

/-- What encloses the items of a group. -/
inductive Enclosure where
  /-- Braces after a name. -/
  | record
  /-- Parentheses after a name. -/
  | tuple
  /-- Brackets. -/
  | list
  deriving DecidableEq, Repr

namespace Enclosure

/-- The text before the items, given the name of the group. -/
def opening (name : String) : Enclosure → String
  | record => name ++ " \x7b"
  | tuple => name ++ "("
  | list => "["

def closing : Enclosure → String
  | record => "\x7d"
  | tuple => ")"
  | list => "]"

/-- The space inside the enclosure when all stands on one line. -/
def padding : Enclosure → String
  | record => " "
  | tuple | list => ""

end Enclosure

/-- The description of a printed state. -/
inductive Inspect where
  /-- Text that is printed as it is. -/
  | atom (text : String)
  /-- A field of a record. -/
  | field (label : String) (value : Inspect)
  | group (shape : Enclosure) (name : String) (items : List Inspect)
  deriving Repr

namespace Inspect

def nat (n : Nat) : Inspect := .atom (toString n)

/-- A record whose contents are not shown. -/
def sealed (name : String) : Inspect := .atom (name ++ " \x7b .. \x7d")

def record (name : String) (fields : List (String × Inspect)) : Inspect :=
  .group .record name (fields.map fun f => .field f.1 f.2)

def tuple (name : String) (items : List Inspect) : Inspect := .group .tuple name items

def list (items : List Inspect) : Inspect := .group .list "" items

mutual

def inline : Inspect → String
  | atom text => text
  | field label value => label ++ ": " ++ value.inline
  | group shape name items =>
    shape.opening name ++ shape.padding ++ ", ".intercalate (inlineAll items) ++
      shape.padding ++ shape.closing

def inlineAll : List Inspect → List String
  | [] => []
  | item :: rest => item.inline :: inlineAll rest

end

/-- The start of a line `depth` levels deep, four spaces a level. -/
def indent (depth : Nat) : String := String.ofList (List.replicate (4 * depth) ' ')

mutual

/-- The description with every item of a group on a line of its own, a comma
after each; `depth` is the level of the line that the description starts on. -/
def indentedFrom (depth : Nat) : Inspect → String
  | atom text => text
  | field label value => label ++ ": " ++ value.indentedFrom depth
  | group shape name [] => shape.opening name ++ shape.closing
  | group shape name (item :: rest) =>
    shape.opening name ++ "\n" ++ linesFrom (depth + 1) (item :: rest) ++
      indent depth ++ shape.closing

def linesFrom (depth : Nat) : List Inspect → String
  | [] => ""
  | item :: rest =>
    indent depth ++ item.indentedFrom depth ++ ",\n" ++ linesFrom depth rest

end

def indented (d : Inspect) : String := d.indentedFrom 0

end Inspect

end StreamDigest
