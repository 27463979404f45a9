import TreeWalk.Value

/-! Two ways to show a value.

`render` is what a program prints: the text of a string, the value inside a signal. `describe` spells
out how the value is made. Of the host it is assumed that it has room to go down into all arrays. -/
namespace TreeWalk.Value

mutual

/-- The text that is printed. -/
def render : Value → String
  | int n => Decimal.write n
  | str text => text
  | bool b => if b then "true" else "false"
  | null => "null"
  | array items => "[" ++ ", ".intercalate (renderItems items) ++ "]"
  | function _ params _ _ => "function(" ++ ", ".intercalate params ++ ") \x7b ... \x7d"
  | builtin b => "builtin " ++ b.name
  | signal _ value => render value
  | error _ failure => "ERROR: " ++ failure.message

/-- The texts of the elements of an array; strings have double quotes around them. -/
def renderItems : List Value → List String
  | [] => []
  | str text :: items => ("\"" ++ text ++ "\"") :: renderItems items
  | item :: items => render item :: renderItems items

end

/-- The parameters of a function in a description. -/
def paramsText (params : List String) : String :=
  let text := ", ".intercalate params
  if text = "" then "nullary" else text

mutual

/-- How a value is made, field by field. -/
def describe : Value → String
  | int n => "KtInteger(value=" ++ Decimal.write n ++ ")"
  | str text => "KtString(value=" ++ Text.quoted text ++ ")"
  | bool b => "KtBool(value=" ++ (if b then "True" else "False") ++ ")"
  | null => "KtNull()"
  | array items => "KtArray(elements=[" ++ ", ".intercalate (describeAll items) ++ "])"
  | function _ params _ _ => "<function params=" ++ paramsText params ++ ">"
  | builtin b => "KtBuiltin(name=" ++ Text.quoted b.name ++ ")"
  | signal _ value => "KtReturn(value=" ++ describe value ++ ")"
  | error _ failure => "KtError(message=" ++ Text.quoted failure.message ++ ")"

/-- The descriptions of values in a row. -/
def describeAll : List Value → List String
  | [] => []
  | value :: values => describe value :: describeAll values

end

end TreeWalk.Value
