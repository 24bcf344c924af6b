-- SUMMARY: The values that a statement binds, and its text with placeholders or literals at the parameters.
import QueryCompiler.Token.Basic
import QueryCompiler.Value

/-!
# Bindings

Values are bound one after the other while a statement is emitted. Each gets the
number of values before it as its index, and the index is what stands at the
parameter. So the text is spelled with the placeholder of an index or with the
literal of the value that it leads to.
-/

namespace QueryCompiler

/-- The values bound so far. -/
structure Bindings where
  values : Array Value := #[]
deriving Repr

namespace Bindings

def size (b : Bindings) : Nat :=
  b.values.size

def isEmpty (b : Bindings) : Bool :=
  b.values.isEmpty

/-- Binds one more value; its index is the number of values before it. -/
def bind (v : Value) : StateM Bindings Nat :=
  fun b => (b.size, ⟨b.values.push v⟩)

end Bindings

namespace Token

/-- The text with a placeholder at every parameter. -/
def placeholderText (p : Profile) (tokens : List (Token Nat)) : String :=
  textOf p p.placeholder tokens

/-- The text with the literal of its value at every parameter, when finite numbers are written in this way.
A parameter without a value keeps its placeholder. -/
def inlineTextWith (write : Double → String) (p : Profile) (values : Array Value) (tokens : List (Token Nat)) :
    String :=
  textOf p (fun i => match values[i]? with
    | some v => v.literalWith write p
    | none => p.placeholder i) tokens

/-- The text with literals. -/
def inlineText (p : Profile) (values : Array Value) (tokens : List (Token Nat)) : String :=
  inlineTextWith Decimal.literalLayout.write p values tokens

end Token

end QueryCompiler
