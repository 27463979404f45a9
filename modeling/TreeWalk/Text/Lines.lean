/-! Line ends.

A text that comes from a file has one kind of line end: a carriage return, with the line feed after
it if there is one, counts as a line feed. A text read from the input is taken line by line, and
there only a line feed ends a line. -/
namespace TreeWalk.Text

/-- Every line end becomes a single line feed. -/
def uniformLines : List Char → List Char
  | [] => []
  | '\r' :: '\n' :: rest => '\n' :: uniformLines rest
  | '\r' :: rest => '\n' :: uniformLines rest
  | c :: rest => c :: uniformLines rest

/-- The first line of a text without its line feed, and what follows it. -/
def takeLine (cs : List Char) : List Char × List Char :=
  (cs.takeWhile (· ≠ '\n'), (cs.dropWhile (· ≠ '\n')).drop 1)

end TreeWalk.Text
