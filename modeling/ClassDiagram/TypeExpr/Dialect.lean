import ClassDiagram.Text.Basic
import ClassDiagram.Text.Letter

/-!
# Dialects of type expressions

What the four languages differ in when they write a type: the bracket of type arguments, the signs
between alternatives, the wrappers that denote shape rather than a relation, the built-in names
and the words that carry no name.
-/

namespace ClassDiagram

/-- The rules for reading the type expressions of one language. -/
structure Dialect where
  /-- Names of wrappers such as lists, which are passed over in favour of their arguments. -/
  containers : List String
  /-- Built-in names, which no diagram shows as a relation. -/
  primitives : List String
  /-- The bracket that opens type arguments. -/
  opener : Char := '<'
  /-- The signs between alternatives. -/
  alternatives : List Char := []
  /-- Whether every name that starts with a lowercase letter is built in. -/
  lowercaseIsPrimitive : Bool := false
  /-- Words that stand beside a type without naming one. -/
  droppedWords : List String := []
  /-- Wrappers whose arguments are values and name no type. -/
  valueWrappers : List String := []

namespace Dialect

/-- Whether a name is built in. -/
def isPrimitive (dialect : Dialect) (name : String) : Bool :=
  dialect.primitives.contains name ||
    (dialect.lowercaseIsPrimitive && (name.toList.head?.map Text.isLowercase).getD false)

/-- Whether quoted text names a type that is declared further on. -/
def readsQuoted (dialect : Dialect) : Bool := dialect.opener == '['

/-- Type expressions of C#. -/
def cSharp : Dialect where
  containers := [
    "List", "IList", "ICollection", "IEnumerable", "IReadOnlyList",
    "IReadOnlyCollection", "Dictionary", "IDictionary", "IReadOnlyDictionary",
    "HashSet", "ISet", "Queue", "Stack", "Task", "ValueTask", "Nullable",
    "Tuple", "ValueTuple", "Func", "Action", "IAsyncEnumerable", "Lazy",
    "ConcurrentDictionary", "SortedDictionary", "LinkedList", "Span",
    "ReadOnlySpan", "Memory"]
  primitives := [
    "int", "long", "short", "byte", "float", "double", "decimal", "bool",
    "char", "string", "object", "void", "String", "Object"]
  lowercaseIsPrimitive := true
  droppedWords := ["ref", "out", "in", "params", "readonly", "scoped", "this"]

/-- Type expressions of TypeScript. -/
def typeScript : Dialect where
  containers := [
    "Array", "ReadonlyArray", "Promise", "PromiseLike", "Map", "ReadonlyMap",
    "Set", "ReadonlySet", "WeakMap", "WeakSet", "Record", "Partial",
    "Readonly", "Required", "Pick", "Omit", "NonNullable", "Iterable",
    "AsyncIterable", "Iterator"]
  primitives := [
    "string", "number", "boolean", "void", "any", "unknown", "never", "null",
    "undefined", "object", "bigint", "symbol", "this", "true", "false"]
  alternatives := ['|', '&']
  droppedWords := ["readonly", "keyof", "typeof", "unique"]

/-- Annotations of Python. -/
def python : Dialect where
  containers := [
    "List", "list", "Dict", "dict", "Set", "set", "FrozenSet", "frozenset",
    "Tuple", "tuple", "Optional", "Union", "Iterable", "Iterator", "Sequence",
    "MutableSequence", "Mapping", "MutableMapping", "Callable", "Type", "type",
    "Awaitable", "Coroutine", "AsyncIterator", "AsyncIterable", "Generator",
    "AsyncGenerator", "ClassVar", "Final", "Annotated", "Literal", "Collection",
    "DefaultDict", "defaultdict", "Deque", "deque", "OrderedDict"]
  primitives := [
    "int", "float", "str", "bytes", "bool", "complex", "None", "object",
    "any", "Any", "void", "bytearray"]
  opener := '['
  alternatives := ['|']
  valueWrappers := ["Literal"]

/-- Type expressions of Java. -/
def java : Dialect where
  containers := [
    "List", "ArrayList", "LinkedList", "Map", "HashMap", "TreeMap",
    "LinkedHashMap", "Set", "HashSet", "TreeSet", "Collection", "Iterable",
    "Optional", "Stream", "Future", "CompletableFuture", "Supplier",
    "Function", "Consumer"]
  primitives := [
    "int", "long", "short", "byte", "float", "double", "boolean", "char",
    "void", "String", "Object", "Integer", "Long", "Double", "Boolean"]

end Dialect

end ClassDiagram
