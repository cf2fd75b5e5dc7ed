/-
The part of a translation unit that `ast-pass/GetLabeledStmts.cpp` looks at.

Clang parses the source and walks its declarations; what is modelled is the
statement trees and the function declarations the walk hands to the visitor.
A statement carries its expansion line, a function its qualified name, and
any of its declarations the body of its definition, as `hasBody` and
`getBody` find it.
-/
import LlvmTracer.Lib.Text
import LlvmTracer.Lib.OrdMap
import Mathlib.Data.List.Lex
import Mathlib.Data.Char

namespace LlvmTracer.Ast

open Text

/-- A name in the source, which holds no NUL. -/
abbrev Name := { cs : Chars // '\x00' ∉ cs }

/-- A statement, with the expansion line it starts at. An absent part, such
as the condition of `for (;;)`, is a null child. -/
inductive Stmt
  | label (line : Nat) (name : Name) (subStmt : Stmt)
  | call (line : Nat) (directCallee : Option Name) (children : List (Option Stmt))
  | other (line : Nat) (children : List (Option Stmt))

def Stmt.line : Stmt → Nat
  | .label line .. | .call line .. | .other line .. => line

def Stmt.children : Stmt → List (Option Stmt)
  | .label _ _ subStmt => [some subStmt]
  | .call _ _ children | .other _ children => children

mutual

/-- The statements below a statement, from the top and from the left. -/
def Stmt.descendants : Stmt → List Stmt
  | .label _ _ subStmt => subStmt :: subStmt.descendants
  | .call _ _ children | .other _ children => descendantsOf children

def descendantsOf : List (Option Stmt) → List Stmt
  | [] => []
  | child :: children => withDescendants child ++ descendantsOf children

def withDescendants : Option Stmt → List Stmt
  | none => []
  | some st => st :: st.descendants

end

inductive Linkage
  | c | cxx
  deriving DecidableEq, Repr

/-- A `FunctionDecl`: of a free function, in a namespace or not, a class
member, or a function template's pattern or a specialization of one. Only a
free function can have C language linkage. -/
inductive FunctionForm
  | free (linkage : Linkage)
  | method
  | template
  deriving DecidableEq, Repr

inductive AttrKind
  | alwaysInline | other
  deriving DecidableEq, Repr

structure FunctionDecl where
  qualifiedName : Name
  form : FunctionForm
  isMain : Bool
  attrs : List AttrKind
  body : Option Stmt

/-- Of the form the tracer supports. -/
def FunctionDecl.IsC (func : FunctionDecl) : Prop := func.form = .free .c

instance (func : FunctionDecl) : Decidable func.IsC := inferInstanceAs (Decidable (_ = _))

/-- The function declarations of a translation unit, in the order
`TraverseDecl` comes to them. -/
abbrev TranslationUnit := List FunctionDecl

/-- A label's name. -/
def Stmt.labelName? : Stmt → Option Name
  | .label _ name _ => some name
  | .call .. | .other .. => none

/-- The label occurs in the body. -/
def FunctionDecl.HasLabel (func : FunctionDecl) (label : Name) : Prop :=
  ∃ body ∈ func.body, ∃ st ∈ body.descendants, st.labelName? = some label

end LlvmTracer.Ast
