/-
# The HTML parser

`infrastructure/parsing/html.py`, on the parsed tree: an ordered forest of tags with text nodes at
its leaves, each of them one occurrence.  `find_all` lists the tags below one in the order of
their start tags, `find_parent` asks for the names around one, `get_text` puts the text nodes below
one together.

A block is kept with the text nodes it was made of until its text is asked for.
-/
import AtlasKnowledge.Lib.Forest
import AtlasKnowledge.Parsing.Blocks

namespace AtlasKnowledge.Parsing

/-! ## 1. The tree -/

/-- The names of tags; `heading 0` is `h1`. -/
inductive TagName where
  | heading (level : Fin 6)
  | p | li | table | tr | th | td | script | style
  | other (name : String)
  deriving DecidableEq, Repr

structure TextNode where
  id : Nat
  text : Text
  deriving DecidableEq, Repr

abbrev Tag := Forest.Element TagName TextNode

/-- The parsed tree. -/
structure Soup where
  forest : Forest TagName TextNode
  nodup : forest.leaves.Nodup

/-- `find_all(names)`. -/
def findAll (wanted : TagName → Bool) (above : List TagName) (f : Forest TagName TextNode) :
    List Tag :=
  (f.elements above).filter fun el => wanted el.name

/-- `el.find_all(names)`. -/
def Tag.findAll (el : Tag) (wanted : TagName → Bool) : List Tag :=
  Parsing.findAll wanted (el.name :: el.above) el.children

/-- `get_text(" ", strip=True)`, of the text nodes. -/
def getText (strings : List TextNode) : Text :=
  List.intercalate [' '] ((strings.map fun s => Str.strip s.text).filter fun text => text ≠ [])

/-! ## 2. Blocks -/

/-- A block, with the text nodes that its text or the cells of its rows are made of. -/
structure Emitted where
  type : BlockType
  strings : List TextNode := []
  level : Option Int := none
  rows : Option (List (List (List TextNode))) := none

def Emitted.block (e : Emitted) : Block where
  type := e.type
  text := getText e.strings
  level := e.level
  rows := e.rows.map fun rows => rows.map fun row => row.map getText

/-- A table has cells, any other block one text. -/
def Emitted.places (e : Emitted) : List (List TextNode) :=
  match e.rows with
  | some rows => rows.flatten
  | none => [e.strings]

def isCell : TagName → Bool
  | .th | .td => true
  | _ => false

/-- `_table_rows`. -/
def tableRows (table : Tag) : List (List (List TextNode)) :=
  ((table.findAll fun name => name = .tr).map fun tr =>
    (tr.findAll isCell).map fun cell => cell.children.leaves).filter fun cells => cells ≠ []

/-- `_WANTED`. -/
def wanted : TagName → Bool
  | .heading _ | .p | .li | .table => true
  | _ => false

/-- The loop body. -/
def emit (el : Tag) : Option Emitted :=
  if el.name ≠ .table ∧ .table ∈ el.above then none
  else
    match el.name with
    | .table => some { type := .table, rows := some (tableRows el) }
    | .heading level =>
      some { type := .heading, strings := el.children.leaves, level := some (level.val + 1 : Nat) }
    | .li => some { type := .listItem, strings := el.children.leaves }
    | _ =>
      if .li ∈ el.above then none
      else some { type := .paragraph, strings := el.children.leaves }

/-- The tree without scripts and styles. -/
def Soup.content (soup : Soup) : Forest TagName TextNode :=
  soup.forest.prune fun name => name = .script ∨ name = .style

/-- The blocks that `parse` hands on. -/
def Soup.emitted (soup : Soup) : List Emitted :=
  (findAll wanted [] soup.content).filterMap emit

/-- `HtmlParser.parse`, on the parsed tree. -/
def parseHtml (soup : Soup) : Except ParseError NormalizedDocument :=
  finalizeDocument (soup.emitted.map Emitted.block) { sourceMime := "text/html" }

end AtlasKnowledge.Parsing
