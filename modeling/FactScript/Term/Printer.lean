import FactScript.Outline
import FactScript.Term.Basic
import FactScript.Text.Cut

/-!
How terms, types and facts are printed. Applications of operators are wrapped in parentheses, so no
precedence is needed to read them back; a universal fact is a header line over its premises and
conclusions.
-/
namespace FactScript

namespace Piece

abbrev sym (s : Symbol) : Piece := .lexeme (.symbol s)

abbrev kw (k : Keyword) : Piece := .lexeme (.keyword k)

abbrev ident (name : String) : Piece := .lexeme (.identifier name)

/-- A numeral is two runs of digits around a dot, or a single run. -/
def numeral (text : String) : List Piece :=
  List.intersperse (sym .dot)
    ((Text.cut '.' text.toList).map fun digits => .lexeme (.number (String.ofList digits)))

def joined (separator : List Piece) (parts : List (List Piece)) : List Piece :=
  separator.intercalate parts

def commaJoined (parts : List (List Piece)) : List Piece := joined [sym .comma, space] parts

/-- Parts in brackets, or nothing when there is no part. -/
def bracketed (parts : List (List Piece)) : List Piece :=
  if parts.isEmpty then [] else [sym .lbracket] ++ commaJoined parts ++ [sym .rbracket]

def parenthesized (parts : List (List Piece)) : List Piece :=
  [sym .lparen] ++ commaJoined parts ++ [sym .rparen]

/-- The word `not` before what is denied. -/
def denial (holds : Bool) : List Piece := if holds then [] else [kw .not, space]

end Piece

open Piece

def GenericParam.pieces (g : GenericParam) : List Piece := [ident g.name, space, ident g.concept]

def TypeArg.pieces : TypeArg → List Piece
  | .plain name => [ident name]
  | .ascribed name concept =>
    [kw .as, sym .lparen, ident name, sym .comma, space, ident concept, sym .rparen]

/-- The operator that a call of this callee applies. -/
def Term.operator? (typeArgs : List TypeArg) : Term → Option Symbol
  | .atom name => if typeArgs.isEmpty then operators.find? (·.text == name) else none
  | _ => none

/-- A call from the pieces of its parts: an operator stands before its one operand or between its
two. -/
def Call.assemble (operator? : Option Symbol) (callee : List Piece) (typeArgs : List TypeArg)
    (args : List (List Piece)) : List Piece :=
  match operator?, args with
  | some op, [left, right] =>
    [sym .lparen] ++ left ++ [space, sym op, space] ++ right ++ [sym .rparen]
  | some op, [operand] => [sym .lparen, sym op] ++ operand ++ [sym .rparen]
  | _, _ => callee ++ bracketed (typeArgs.map TypeArg.pieces) ++ parenthesized args

/-- A parameter list in parentheses, its guards after a double colon. -/
def Signature.assemble (generics : List GenericParam) (params guards : List (List Piece)) :
    List Piece :=
  bracketed (generics.map GenericParam.pieces) ++ [sym .lparen] ++ commaJoined params ++
    (if guards.isEmpty then []
     else (if params.isEmpty then [] else [space]) ++ [sym .colonColon, space] ++
       commaJoined guards) ++ [sym .rparen]

mutual

def Term.pieces : Term → List Piece
  | .atom name => [ident name]
  | .number text => numeral text
  | .chain parts => joined [sym .dot] (Term.piecesOfAll parts)
  | .call c => c.pieces
  | .ascribed term signature =>
    [kw .as, sym .lparen] ++ term.pieces ++ [sym .comma, space, kw .property] ++ signature.pieces ++
      [sym .rparen]

def Term.piecesOfAll : List Term → List (List Piece)
  | [] => []
  | t :: ts => t.pieces :: Term.piecesOfAll ts

def Call.pieces : Call → List Piece
  | ⟨callee, typeArgs, args⟩ =>
    Call.assemble (callee.operator? typeArgs) callee.pieces typeArgs (Term.piecesOfAll args)

def Signature.pieces : Signature → List Piece
  | ⟨generics, params, guards⟩ =>
    Signature.assemble generics (Param.piecesOfAll params) (Fact.piecesOfAll guards)

def Param.pieces : Param → List Piece
  | ⟨name, type⟩ => [ident name, space] ++ type.pieces

def Param.piecesOfAll : List Param → List (List Piece)
  | [] => []
  | p :: ps => p.pieces :: Param.piecesOfAll ps

def Ty.pieces : Ty → List Piece
  | .named name => [ident name]
  | .fn signature result => [kw .fn] ++ signature.pieces ++ [space] ++ result.pieces
  | .property signature => [kw .property] ++ signature.pieces
  | .placeholder kind => [sym .question, kw kind.keyword]

/-- The line of a fact; for a universal fact, the header of its block. -/
def Fact.pieces : Fact → List Piece
  | .relational holds operator operands =>
    denial holds ++ joined [space, sym operator, space] (Term.piecesOfAll operands)
  | .property holds call => denial holds ++ [sym .dollar] ++ call.pieces
  | .universal generics params premises conclusions =>
    [kw .forallKw, space] ++
      (if generics.isEmpty then [] else bracketed (generics.map GenericParam.pieces) ++ [space]) ++
      commaJoined (Param.piecesOfAll params) ++
      (if premises.isEmpty && conclusions.isEmpty then [] else [sym .colon])

def Fact.piecesOfAll : List Fact → List (List Piece)
  | [] => []
  | f :: fs => f.pieces :: Fact.piecesOfAll fs

end

namespace Outline

/-- A block that is headed by one word: `then:`. -/
def section_ (k : Keyword) (body : List Outline) : Outline := ⟨[kw k, sym .colon], body⟩

/-- The body of what follows from premises: the conclusions alone when nothing is required. -/
def ifThen (premises conclusions : List Outline) : List Outline :=
  if premises.isEmpty then conclusions
  else [section_ .ifKw premises, section_ .thenKw conclusions]

/-- A line that ends in a colon exactly when there is something below it. -/
def opening (header : List Piece) (body : List Outline) : Outline :=
  ⟨header ++ (if body.isEmpty then [] else [sym .colon]), body⟩

def leaf (header : List Piece) : Outline := ⟨header, []⟩

end Outline

mutual

def Fact.outline : Fact → Outline
  | .relational holds operator operands => .leaf (Fact.relational holds operator operands).pieces
  | .property holds call => .leaf (Fact.property holds call).pieces
  | .universal generics params premises conclusions =>
    ⟨(Fact.universal generics params premises conclusions).pieces,
      Outline.ifThen (Fact.outlines premises) (Fact.outlines conclusions)⟩

def Fact.outlines : List Fact → List Outline
  | [] => []
  | f :: fs => f.outline :: Fact.outlines fs

end

def Piece.text (pieces : List Piece) : String := String.ofList (line pieces)

def Term.text (t : Term) : String := Piece.text t.pieces

def Fact.text (f : Fact) : String := f.outline.text

end FactScript
