/-! The terminals of the language: what a lexeme can be, and the end of the input.

They are declared in the order of their names, which is the order in which messages list them. -/
namespace TreeWalk

/-- The classes of lexemes and the end of the input. -/
inductive Terminal where
  | endOfInput
  | bang
  | comma
  | elseWord
  | equalTo
  | assign
  | falseWord
  | forWord
  | functionWord
  | greater
  | identifier
  | ifWord
  | inWord
  | integer
  | leftBrace
  | leftParen
  | leftBracket
  | less
  | minus
  | notEqual
  | plus
  | rightBrace
  | returnWord
  | rightParen
  | rightBracket
  | semicolon
  | slash
  | star
  | string
  | trueWord
  | varWord
  deriving DecidableEq, Repr

namespace Terminal

/-- Every terminal, in the order of their names. -/
def all : List Terminal :=
  [endOfInput, bang, comma, elseWord, equalTo, assign, falseWord, forWord, functionWord, greater,
    identifier, ifWord, inWord, integer, leftBrace, leftParen, leftBracket, less, minus, notEqual,
    plus, rightBrace, returnWord, rightParen, rightBracket, semicolon, slash, star, string, trueWord,
    varWord]

theorem mem_all (t : Terminal) : t ∈ all := by cases t <;> decide

/-- The name that messages and trees use. -/
def name : Terminal → String
  | endOfInput => "$END"
  | bang => "BANG"
  | comma => "COMMA"
  | elseWord => "ELSE"
  | equalTo => "EQ"
  | assign => "EQUAL"
  | falseWord => "FALSE"
  | forWord => "FOR"
  | functionWord => "FUNCTION"
  | greater => "GT"
  | identifier => "IDENT"
  | ifWord => "IF"
  | inWord => "IN"
  | integer => "INT"
  | leftBrace => "LBRACE"
  | leftParen => "LPAR"
  | leftBracket => "LSQB"
  | less => "LT"
  | minus => "MINUS"
  | notEqual => "NE"
  | plus => "PLUS"
  | rightBrace => "RBRACE"
  | returnWord => "RETURN"
  | rightParen => "RPAR"
  | rightBracket => "RSQB"
  | semicolon => "SEMICOLON"
  | slash => "SLASH"
  | star => "STAR"
  | string => "STRING"
  | trueWord => "TRUE"
  | varWord => "VAR"

/-- The terminal with a given name. -/
def ofName? (text : String) : Option Terminal := all.find? (·.name == text)

/-- The reserved words. -/
def keywords : List (String × Terminal) :=
  [("function", functionWord), ("return", returnWord), ("false", falseWord), ("else", elseWord),
    ("true", trueWord), ("for", forWord), ("var", varWord), ("if", ifWord), ("in", inWord)]

/-- What a word is: a keyword if it is reserved, else an identifier. -/
def ofWord (word : String) : Terminal := (keywords.lookup word).getD identifier

/-- The terminals that are written with a single character. -/
def ofChar? : Char → Option Terminal
  | '!' => some bang
  | ',' => some comma
  | '=' => some assign
  | '>' => some greater
  | '\x7b' => some leftBrace
  | '(' => some leftParen
  | '[' => some leftBracket
  | '<' => some less
  | '-' => some minus
  | '+' => some plus
  | '\x7d' => some rightBrace
  | ')' => some rightParen
  | ']' => some rightBracket
  | ';' => some semicolon
  | '/' => some slash
  | '*' => some star
  | _ => none

/-- A bracket that opens. -/
def opens (t : Terminal) : Bool := t = leftBrace || t = leftParen || t = leftBracket

/-- A bracket that closes. -/
def closes (t : Terminal) : Bool := t = rightBrace || t = rightParen || t = rightBracket

end Terminal

end TreeWalk
