import ModuleLift.Tree.Basic
import ModuleLift.Text.Quoted

/-! Trees for the statements a conversion puts in. -/

namespace ModuleLift.Tree

/-- A node that was not read from the text. -/
def synthetic (kind : String) (fields : List (String × Tree)) : Tree := .node (some kind) {} fields

/-- A name. -/
def identifier (name : Text) : Tree := synthetic "Identifier" [("name", .text name)]

/-- A string literal between the given quotes. -/
def stringLiteral (quote : Char) (value : Text) : Tree :=
  synthetic "Literal" [("value", .text value), ("raw", .text (Text.quoted quote value))]

/-- The quote a literal is written with; without one the double quote. -/
def quoteOf (literal : Tree) : Char :=
  if (literal.get "raw").textD.head? = some (.char '\'') then '\'' else '"'

/-- An import of some names from a module. -/
def importFrom (specifiers : List Tree) (source : Tree) : Tree :=
  synthetic "ImportDeclaration" [("specifiers", .list specifiers), ("source", source)]

/-- `import name from source` -/
def importDefault (name : Text) (source : Tree) : Tree :=
  importFrom [synthetic "ImportDefaultSpecifier" [("local", identifier name)]] source

/-- An import of pairs of an imported and a local name. -/
def importNamed (pairs : List (Text × Text)) (source : Tree) : Tree :=
  importFrom (pairs.map fun (imported, bound) =>
    synthetic "ImportSpecifier" [("imported", identifier imported), ("local", identifier bound)])
    source

/-- An import of a module for its effects only. -/
def importEffects (source : Tree) : Tree := importFrom [] source

/-- An export of pairs of a local and an exported name. -/
def exportNamed (pairs : List (Text × Text)) : Tree :=
  synthetic "ExportNamedDeclaration" [("declaration", .null),
    ("specifiers", .list (pairs.map fun (bound, exported) =>
      synthetic "ExportSpecifier"
        [("local", identifier bound), ("exported", identifier exported)])),
    ("source", .null)]

/-- The default export of a value. -/
def exportDefault (declaration : Tree) : Tree :=
  synthetic "ExportDefaultDeclaration" [("declaration", declaration)]

/-- A declaration of some kind. -/
def variableDeclaration (kind : Tree) (declarations : List Tree) : Tree :=
  synthetic "VariableDeclaration" [("declarations", .list declarations), ("kind", kind)]

/-- A declared pattern with its initializer. -/
def variableDeclarator (id init : Tree) : Tree :=
  synthetic "VariableDeclarator" [("id", id), ("init", init)]

/-- A call. -/
def call (callee : Tree) (arguments : List Tree) : Tree :=
  synthetic "CallExpression" [("callee", callee), ("arguments", .list arguments)]

/-- `import.meta.url` -/
def importMetaUrl : Tree :=
  synthetic "MemberExpression" [("computed", .flag false),
    ("object", synthetic "MetaProperty"
      [("meta", identifier "import"), ("property", identifier "meta")]),
    ("property", identifier "url")]

/-- The statement as one that stands for a region of the text. -/
def anchor (t : Tree) (region : Region) : Tree :=
  t.mapMark fun mark => { mark with span := some region }

/-- The node with a comment before it; one that it has already is not repeated. -/
def comment (t : Tree) (text : Text) : Tree := t.mapMark fun mark => mark.addComment text

/-- A step from a tree to a part of it. -/
inductive Step where
  | field (key : String)
  | index (place : Nat)
deriving DecidableEq, Repr, Inhabited

/-- Flags a node as one that gained a comment somewhere below. -/
def flagModified (t : Tree) : Tree := t.mapMark fun mark => { mark with modified := true }

/-- The tree with a comment before the node that a path leads to, and whether it is a new one. If
asked to, it flags the nodes passed on the way to a new comment. -/
def commentAt (text : Text) (flagging : Bool) : List Step → Tree → Tree × Bool
  | [], t => (t.comment text, !t.mark.comments.contains text)
  | .field key :: path, t =>
    let (value, added) := commentAt text flagging path (t.get key)
    -- Lists carry no flag; the node around them does.
    let changed := t.mapField key fun _ => value
    (if flagging && added then changed.flagModified else changed, added)
  | .index place :: path, t =>
    match t.items[place]? with
    | some item =>
      let (item, added) := commentAt text flagging path item
      (.list (t.items.set place item), added)
    | none => (t, false)

end ModuleLift.Tree
