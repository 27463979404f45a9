import TreeWalk.Failure
import TreeWalk.Tree

/-! Programs in the form in which they run.

Code is made from a tree. What is wrong with a tree does no harm until it is reached, so it becomes
code that reports the fault when it runs; the same holds for a function literal that repeats a
parameter. -/
namespace TreeWalk

/-- A program or a part of one. -/
inductive Code where
  | program (body : List Code)
  | block (body : List Code)
  /-- Binds a name in the innermost scope. -/
  | bind (name : String) (value : Code)
  /-- Makes a return signal. -/
  | giveBack (value : Code)
  | loop (source element : String) (index : Option String) (body : List Code)
  | branch (condition consequence alternative : Code)
  | function (params : List String) (body : List Code)
  | call (callee : Code) (args : List Code)
  | subscript (left index : Code)
  | binary (op : Binary) (left right : Code)
  | unary (op : Unary) (operand : Code)
  | array (items : List Code)
  | int (value : Int)
  | str (value : String)
  | bool (value : Bool)
  | ident (name : String)
  /-- Ends the run with an error of the language. -/
  | fail (failure : Failure)
  /-- Reports a tree that no source text has. -/
  | fault (fault : Fault)
  deriving Repr

namespace Code

/-- The code of a leaf. -/
def ofLeaf (kind : LeafKind) (text : String) : Code :=
  match kind with
  | .terminal .integer =>
    match Decimal.read? text with
    | some n => int n
    | none => fault (.notNumeral text)
  | .terminal .string => str text
  | .terminal .trueWord => bool true
  | .terminal .falseWord => bool false
  | .terminal .identifier => ident text
  | kind => fault (.unknownLeaf kind.name text)

/-- The name in a place that takes an identifier, or the code that reports its absence. -/
def nameIn (slot : NameSlot) (tree : Tree) : Except Code String :=
  match tree.identifier? with
  | some name => .ok name
  | none => .error (fault (.notIdentifier slot))

/-- The parameters after those already seen, which are listed last first. -/
def paramsAfter (seen : List String) : List Tree → Except Code (List String)
  | [] => .ok seen.reverse
  | tree :: trees =>
    match nameIn .parameter tree with
    | .error code => .error code
    | .ok name =>
      if name ∈ seen then .error (fail (.repeatedParameter name))
      else paramsAfter (name :: seen) trees

/-- The parameters of a function literal; anything but a node has none. -/
def paramsOf : Tree → Except Code (List String)
  | .node _ children => paramsAfter [] children
  | _ => .ok []

/-- Code for a binding. -/
def makeBind (slot : NameSlot) (target : Tree) (value : Code) : Code :=
  match nameIn slot target with
  | .ok name => bind name value
  | .error code => code

/-- The index name of a loop, if it has one. -/
def indexName : Tree → Except Code (Option String)
  | .absent => .ok none
  | tree => (nameIn .loopIndex tree).map some

/-- Code for a loop; its names are looked at in the order source, element, index. -/
def makeLoop (source element index : Tree) (body : List Code) : Code :=
  match nameIn .loopSource source with
  | .error code => code
  | .ok source =>
    match nameIn .loopElement element with
    | .error code => code
    | .ok element =>
      match indexName index with
      | .error code => code
      | .ok index => loop source element index body

/-- Code for a function literal with a proper body. -/
def makeFunction (params : Tree) (body : List Code) : Code :=
  match paramsOf params with
  | .ok names => function names body
  | .error code => code

/-- Code for a node with too few or too many children. -/
def misshapen (expected : Nat) (children : List Tree) : Code :=
  fault (.wrongChildren expected children.length)

mutual

/-- The code of a tree. -/
def ofTree : Tree → Code
  | .absent => fault (.unknownNode Tree.absent.describe)
  | .leaf kind text => ofLeaf kind text
  | .node .program children => program (ofTrees children)
  | .node .block children => block (ofTrees children)
  | .node .array children => array (ofTrees children)
  | .node .evaluation (child :: _) => ofTree child
  | .node .evaluation [] => misshapen 1 []
  | .node .returning (child :: _) => giveBack (ofTree child)
  | .node .returning [] => misshapen 1 []
  | .node .declaration [target, value] => makeBind .declared target (ofTree value)
  | .node .declaration children => misshapen 2 children
  | .node .assignment [target, value] => makeBind .assigned target (ofTree value)
  | .node .assignment children => misshapen 2 children
  | .node .loop [source, element, index, body] => makeLoop source element index (ofChildren body)
  | .node .loop children => misshapen 4 children
  | .node .branch [condition, consequence, .absent] =>
    branch (ofTree condition) (ofTree consequence) (block [])
  | .node .branch [condition, consequence, alternative] =>
    branch (ofTree condition) (ofTree consequence) (ofTree alternative)
  | .node .branch children => misshapen 3 children
  | .node .function [params, .node .block body] => makeFunction params (ofTrees body)
  | .node .function [_, _] => fault .bodyNotBlock
  | .node .function children => misshapen 2 children
  | .node .call [callee, args] => call (ofTree callee) (ofChildren args)
  | .node .call children => misshapen 2 children
  | .node .index [left, index] => subscript (ofTree left) (ofTree index)
  | .node .index children => misshapen 2 children
  | .node .binary [left, op, right] =>
    binary (.ofText op.operatorText) (ofTree left) (ofTree right)
  | .node .binary children => misshapen 3 children
  | .node .unary [op, operand] => unary (.ofText op.operatorText) (ofTree operand)
  | .node .unary children => misshapen 2 children
  | .node .params _ => fault (.unknownNode Label.params.name)
  | .node .args _ => fault (.unknownNode Label.args.name)
  | .node (.other label) _ => fault (.unknownNode label)

/-- The code of trees in a row. -/
def ofTrees : List Tree → List Code
  | [] => []
  | tree :: trees => ofTree tree :: ofTrees trees

/-- The code of the children of a node, whatever its label. -/
def ofChildren : Tree → List Code
  | .node _ children => ofTrees children
  | tree => [fault (.unknownNode tree.describe)]

end

end Code

end TreeWalk
