import MuonSpin.Text.Blank

/-!
# Theory lines

A theory block is a list of numbered lines. A bracket `(` or a hash `#` starts a comment that goes to
the end of the line. The numbers a kernel computes with are fit parameters or the values of derived
functions.

* `TheoryLine.content`, `TheoryLine.tokens`: what stands before the comment, and its words;
* `TheoryLine.isSeparator`: the line starts with the word `+`, which divides terms;
* `Reference.decode`: one number for both kinds of references, the functions from `functionOffset` on;
* `Reference.resolve?`: the value, or `none` outside the given lists;
* `FunctionTable.indexOf?`: the position of a function by its number; **of a repeated number the
  last position counts**.
-/

namespace MuonSpin

/-- A line of a theory block. -/
structure TheoryLine where
  number : Nat
  text : String
  deriving DecidableEq

namespace TheoryLine

/-- Lines with consecutive numbers. -/
def numbered (first : Nat) (texts : List String) : List TheoryLine :=
  texts.mapIdx fun i text => ⟨first + i, text⟩

/-- Not the start of a comment. -/
def isContent (c : Char) : Bool := c != '(' && c != '#'

/-- The line without its comment and the blanks around what is left. -/
def content (line : TheoryLine) : String :=
  String.ofList (trimChars (line.text.toList.takeWhile isContent))

/-- The words of the content. -/
def tokens (line : TheoryLine) : List String := words line.content

/-- The line divides two terms. -/
def isSeparator (line : TheoryLine) : Bool := line.tokens.head? == some "+"

end TheoryLine

/-! ## References -/

/-- The parameter of a theory line. -/
inductive Reference where
  /-- A fit parameter, counted from zero. -/
  | parameter (index : Nat)
  /-- A derived function by its position. -/
  | function (index : Nat)
  deriving DecidableEq

/-- Encoded numbers from here on stand for functions. -/
def functionOffset : Nat := 20000

namespace Reference

def decode (encoded : Nat) : Reference :=
  if encoded < functionOffset then parameter encoded else function (encoded - functionOffset)

/-- The current value. -/
def resolve? {α : Type} (params funcs : List α) : Reference → Option α
  | parameter i => params[i]?
  | function i => funcs[i]?

end Reference

/-- The numbers of the derived functions in the order of their values. -/
structure FunctionTable where
  numbers : List Nat

namespace FunctionTable

/-- The last position of a number. -/
def indexOf? (table : FunctionTable) (number : Nat) : Option Nat :=
  table.numbers.zipIdx.reverse.lookup number

/-- How many different numbers there are. -/
def size (table : FunctionTable) : Nat := table.numbers.eraseDups.length

end FunctionTable

end MuonSpin
