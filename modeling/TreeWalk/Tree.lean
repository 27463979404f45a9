import TreeWalk.Terminal
import TreeWalk.Text.Lower
import TreeWalk.Text.Quoted

/-! Labelled trees: the shape in which a parsed program is displayed and handed on.

A tree may also be put together by hand, so labels and leaf kinds that the language does not have are
allowed, and so are children in the wrong places; what such a tree means is decided when it runs. -/
namespace TreeWalk

/-- What an inner node stands for. -/
inductive Label where
  | program
  | block
  | evaluation
  | declaration
  | assignment
  | returning
  | loop
  | branch
  | function
  | params
  | call
  | args
  | index
  | binary
  | unary
  | array
  /-- Any other label. -/
  | other (name : String)
  deriving DecidableEq, Repr

namespace Label

/-- The name that is displayed. -/
def name : Label → String
  | program => "program"
  | block => "block"
  | evaluation => "expr_stmt"
  | declaration => "var_stmt"
  | assignment => "assign_stmt"
  | returning => "return_stmt"
  | loop => "for_stmt"
  | branch => "if_expr"
  | function => "fn_lit"
  | params => "params"
  | call => "call"
  | args => "args"
  | index => "index"
  | binary => "infix"
  | unary => "prefix"
  | array => "array"
  | other name => name

/-- The levels for a node when it was read: statements and elements were held by a node of their own. -/
def levelsRead : Label → Nat
  | program | block | array => 2
  | _ => 1

/-- The labels of the language. -/
def known : List Label :=
  [program, block, evaluation, declaration, assignment, returning, loop, branch, function, params, call,
    args, index, binary, unary, array]

/-- The label with a given name. -/
def ofName (name : String) : Label := (known.find? (·.name == name)).getD (other name)

end Label

/-- What a leaf is: a lexeme of the language, or something else. -/
inductive LeafKind where
  | terminal (t : Terminal)
  | other (name : String)
  deriving DecidableEq, Repr

namespace LeafKind

/-- The name that is displayed. -/
def name : LeafKind → String
  | terminal t => t.name
  | other name => name

/-- The leaf kind with a given name. -/
def ofName (name : String) : LeafKind := ((Terminal.ofName? name).map terminal).getD (other name)

end LeafKind

/-- A labelled tree; `absent` fills the place of an optional child that is not there. -/
inductive Tree where
  | node (label : Label) (children : List Tree)
  | leaf (kind : LeafKind) (text : String)
  | absent
  deriving Repr

namespace Tree

instance : Inhabited Tree := ⟨absent⟩

/-- The label of an inner node. -/
def label? : Tree → Option Label
  | node label _ => some label
  | _ => none

/-- The kind of a leaf. -/
def kind? : Tree → Option LeafKind
  | leaf kind _ => some kind
  | _ => none

/-- The name that an identifier leaf holds. -/
def identifier? : Tree → Option String
  | leaf (.terminal .identifier) text => some text
  | _ => none

/-- One line about a tree: the label of a node, kind and text of a leaf. -/
def describe : Tree → String
  | node label _ => label.name
  | leaf kind text => kind.name ++ ":" ++ text
  | absent => "NoneType"

mutual

/-- The lines that display a tree, each child two columns further in than its parent. -/
def outlineFrom (margin : String) : Tree → List String
  | node label children => (margin ++ label.name) :: outlineAll (margin ++ "  ") children
  | leaf kind text => [margin ++ Text.lower kind.name ++ "  " ++ text]
  | absent => [margin ++ "-"]

/-- The lines that display the trees of a list, one after the other. -/
def outlineAll (margin : String) : List Tree → List String
  | [] => []
  | tree :: trees => outlineFrom margin tree ++ outlineAll margin trees

end

/-- The lines that display a tree. -/
def outline (tree : Tree) : List String := outlineFrom "" tree

mutual

/-- A tree in constructor form, on one line. -/
def literal : Tree → String
  | node label children => "Tree(" ++ Text.quoted label.name ++ ", [" ++ literals children ++ "])"
  | leaf kind text => "Token(" ++ Text.quoted kind.name ++ ", " ++ Text.quoted text ++ ")"
  | absent => "None"

/-- Trees in constructor form, with commas between them. -/
def literals : List Tree → String
  | [] => ""
  | [tree] => literal tree
  | tree :: trees => literal tree ++ ", " ++ literals trees

end

/-- The text an operator has in a tree: that of a leaf, or else the constructor form. -/
def operatorText : Tree → String
  | leaf _ text => text
  | tree => literal tree

mutual

/-- How many levels a tree had when it was read. -/
def levelsRead : Tree → Nat
  | node label children => levelsReadOf children + label.levelsRead
  | leaf .. | absent => 1

/-- How many levels the trees of a list had when they were read. -/
def levelsReadOf : List Tree → Nat
  | [] => 0
  | tree :: trees => max (levelsRead tree) (levelsReadOf trees)

end

end Tree

end TreeWalk
