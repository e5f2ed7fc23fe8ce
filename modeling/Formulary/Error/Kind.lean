/-
  The kinds of error that a program of the language can meet.

  A kind is what users branch on and what stands before the message on a
  console; the message itself belongs to the cause.
-/

namespace Formulary

inductive ErrorKind where
  | lexing
  | parsing
  | unbalanced
  | unboundSymbol
  | unknownOperator
  | arity
  | oddArity
  | type
  | divisionByZero
  | emptyList
  | elementNotFound
  | depthExceeded
  | overflow
  deriving DecidableEq, Repr

def ErrorKind.name : ErrorKind → String
  | lexing => "LexError"
  | parsing => "ParseError"
  | unbalanced => "ParseError::UnbalancedParens"
  | unboundSymbol => "UnboundSymbol"
  | unknownOperator => "UnknownOperator"
  | arity => "ArityError"
  | oddArity => "OddArityError"
  | type => "TypeError"
  | divisionByZero => "DivisionByZero"
  | emptyList => "EmptyList"
  | elementNotFound => "ElementNotFound"
  | depthExceeded => "DepthExceeded"
  | overflow => "Overflow"

end Formulary
