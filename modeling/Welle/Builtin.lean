set_option autoImplicit false

/-! # Builtin functions and methods

The functions that every program can call, and the methods of strings, with the text that editors
show for them. -/

namespace Welle

/-- What is known about a builtin: its name, its signature, a sentence about it, and the names of
    its parameters. -/
structure Builtin where
  name : String
  signature : String
  doc : String
  params : List String
deriving DecidableEq, Repr

namespace Builtin

/-- The builtin functions. -/
def functions : List Builtin := [
  ⟨"print", "print(...args) -> nil", "Prints each argument.", ["...args"]⟩,
  ⟨"len", "len(x) -> int",
    "Length of a string, list or dict. Any other type is an error.", ["x"]⟩,
  ⟨"str", "str(x) -> string", "Converts a value to string.", ["x"]⟩,
  ⟨"join", "join(array, sep) -> string",
    "Joins a list of strings with a separator.", ["array", "sep"]⟩,
  ⟨"keys", "keys(dict) -> [key]", "Keys of a dict in a stable order.", ["dict"]⟩,
  ⟨"values", "values(dict) -> [value]",
    "Values of a dict, in the same order as keys().", ["dict"]⟩,
  ⟨"range", "range(n) | range(start, end) | range(start, end, step) -> [int]",
    "Ints from start up to end, exclusive.", ["n|start", "end?", "step?"]⟩,
  ⟨"append", "append(array, value) -> [any]",
    "Returns a new list with value added at the end.", ["array", "value"]⟩,
  ⟨"push", "push(array, value) -> [any]", "Alias of append.", ["array", "value"]⟩,
  ⟨"count", "count(array, value) -> int",
    "Number of elements equal to value.", ["array", "value"]⟩,
  ⟨"remove", "remove(array, value) -> bool",
    "Removes the first matching element and reports whether one was found.", ["array", "value"]⟩,
  ⟨"get", "get(dict, key, default?) -> any",
    "Value for key, otherwise default or nil.", ["dict", "key", "default?"]⟩,
  ⟨"pop", "pop(array) -> any | pop(dict, key, default?) -> any",
    "Removes the last list element, or a dict entry by key.", ["array|dict", "key?", "default?"]⟩,
  ⟨"hasKey", "hasKey(dict, key) -> bool", "True if dict has key.", ["dict", "key"]⟩,
  ⟨"sort", "sort(array) -> [any]",
    "Returns a new sorted list of all ints or all strings.", ["array"]⟩,
  ⟨"max", "max(array) -> number|string",
    "Largest element of a list of numbers or strings.", ["array"]⟩,
  ⟨"abs", "abs(x) -> number", "Absolute value of an int or float.", ["x"]⟩,
  ⟨"sum", "sum(array) -> number", "Sum of numeric elements; 0 for an empty list.", ["array"]⟩,
  ⟨"reverse", "reverse(array|string) -> array|string",
    "Returns a reversed copy.", ["array|string"]⟩,
  ⟨"any", "any(array) -> bool",
    "True if any element is truthy. Only false and nil are falsy.", ["array"]⟩,
  ⟨"all", "all(array) -> bool",
    "True if every element is truthy; true for an empty list.", ["array"]⟩,
  ⟨"error", "error(message, code?) -> Error",
    "Builds an error value without throwing it.", ["message", "code?"]⟩,
  ⟨"writeFile", "writeFile(path, content) -> nil",
    "Writes a string to disk.", ["path", "content"]⟩,
  ⟨"sqrt", "sqrt(x) -> float", "Square root.", ["x"]⟩,
  ⟨"input", "input(prompt?) -> string", "Reads a line from stdin.", ["prompt?"]⟩,
  ⟨"getpass", "getpass(prompt?) -> string",
    "Reads a line from stdin without echo when possible.", ["prompt?"]⟩,
  ⟨"group_digits", "group_digits(x, sep=\",\", group=3) -> string",
    "Groups integer digits from the right.", ["x", "sep?", "group?"]⟩,
  ⟨"format_float", "format_float(x, decimals) -> string",
    "Formats a number with a fixed number of decimals.", ["x", "decimals"]⟩,
  ⟨"format_percent", "format_percent(x, decimals) -> string",
    "Formats x * 100 with decimals and a trailing '%'.", ["x", "decimals"]⟩]

/-- The methods of strings. -/
def methods : List Builtin := [
  ⟨"strip", "strip() -> string", "Removes leading and trailing whitespace.", []⟩,
  ⟨"capitalize", "capitalize() -> string",
    "Uppercases the first character and lowercases the rest.", []⟩,
  ⟨"uppercase", "uppercase() -> string", "Uppercase copy of the string.", []⟩,
  ⟨"lowercase", "lowercase() -> string", "Lowercase copy of the string.", []⟩,
  ⟨"startswith", "startswith(prefix) -> bool",
    "True if the string begins with prefix.", ["prefix"]⟩,
  ⟨"endswith", "endswith(suffix) -> bool", "True if the string ends with suffix.", ["suffix"]⟩,
  ⟨"slice", "slice(low?, high?) -> string",
    "Substring with the same bounds rules as s[low:high].", ["low?", "high?"]⟩]

/-- The builtin function of a name. -/
def function? (name : String) : Option Builtin := functions.find? (·.name = name)

/-- The string method of a name. -/
def method? (name : String) : Option Builtin := methods.find? (·.name = name)

/-- Whether a name is that of a builtin function. -/
def isFunction (name : String) : Bool := (function? name).isSome

end Builtin

end Welle
