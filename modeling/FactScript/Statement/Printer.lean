import FactScript.Statement.Basic
import FactScript.Term.Printer

/-!
How declarations and statements are printed.
-/
namespace FactScript

open Piece

/-- The parameters of `var`, without the word itself. -/
def Param.list (ps : List Param) : List Piece := commaJoined (Param.piecesOfAll ps)

def FnDecl.pieces (d : FnDecl) : List Piece :=
  [kw .fn, space, ident d.name] ++ d.signature.pieces ++ [space] ++ d.result.pieces

/-- A name with its signature, after the word that says what is declared. -/
def PropertyDecl.piecesAfter (k : Keyword) (d : PropertyDecl) : List Piece :=
  [kw k, space, ident d.name] ++ d.signature.pieces

def PropertyDecl.pieces (d : PropertyDecl) : List Piece := d.piecesAfter .property

def Decl.pieces : Decl → List Piece
  | .var vars => [kw .var, space] ++ Param.list vars
  | .fn d => d.pieces
  | .property d => d.pieces

def Decl.text (d : Decl) : String := Piece.text d.pieces

def Predication.pieces (p : Predication) : List Piece := p.fact.pieces

namespace Outline

/-- A section, or nothing when it would be empty. -/
def section? (k : Keyword) (body : List Outline) : List Outline :=
  if body.isEmpty then [] else [section_ k body]

def ofDecls (decls : List Decl) : List Outline := decls.map fun d => leaf d.pieces

def ofNames (names : List String) : Outline := leaf (commaJoined (names.map fun n => [ident n]))

end Outline

def ConceptBody.outlines (b : ConceptBody) : List Outline :=
  Outline.section? .inherit (if b.inherits.isEmpty then [] else [.ofNames b.inherits]) ++
    Outline.section? .typeMember (Outline.ofDecls b.typeMembers.decls) ++
    Outline.section? .member (Outline.ofDecls b.members.decls) ++
    Outline.section? .thenKw (Fact.outlines b.facts)

mutual

def Statement.outline : Statement → Outline
  | .var vars facts => .opening ((Decl.var vars).pieces) (Fact.outlines facts)
  | .concept typeVar name body =>
    .opening [kw .concept, space, ident typeVar, space, ident name] body.outlines
  | .type name body => .opening [kw .type, space, ident name] body.outlines
  | .property d premises conclusions =>
    .opening d.pieces (Outline.ifThen (Fact.outlines premises) (Fact.outlines conclusions))
  | .fn d premises conclusions =>
    .opening d.pieces (Outline.ifThen (Fact.outlines premises) (Fact.outlines conclusions))
  | .claim goals proof =>
    if goals.isEmpty then .section_ .proof (Statement.outlines proof)
    else .section_ .claim (Fact.outlines goals ++ [.section_ .proof (Statement.outlines proof)])
  | .know [f] =>
    let line := f.outline
    ⟨[kw .know, space] ++ line.header, line.body⟩
  | .know facts => .section_ .know (Fact.outlines facts)
  | .use name value => .leaf ([kw .use, space, ident name, space] ++ value.pieces)
  | .exist d premises members conclusions =>
    .opening (d.piecesAfter .exist)
      (Outline.section? .ifKw (Fact.outlines premises) ++
        Outline.section? .member (Outline.ofDecls members) ++
        Outline.section? .thenKw (Fact.outlines conclusions))
  | .witness existence names =>
    ⟨[kw .haveKw, space] ++ existence.pieces ++ [sym .colon], [.ofNames names]⟩
  | .member owner self d facts =>
    .opening
      ([kw .member, space, sym .lbracket] ++ owner.pieces ++
        [sym .rbracket, space, sym .lparen] ++ self.pieces ++ [sym .rparen, space] ++ d.pieces)
      (Fact.outlines facts)
  | .typeMember owner d facts =>
    .opening
      ([kw .typeMember, space, sym .lbracket] ++ owner.pieces ++ [sym .rbracket, space] ++ d.pieces)
      (Fact.outlines facts)
  | .fact f => f.outline

def Statement.outlines : List Statement → List Outline
  | [] => []
  | s :: ss => s.outline :: Statement.outlines ss

end

def Statement.text (s : Statement) : String := s.outline.text

def TopStatement.outline (t : TopStatement) : Outline :=
  let line := t.statement.outline
  if t.isPublic then ⟨[kw .pub, space] ++ line.header, line.body⟩ else line

def TopStatement.text (t : TopStatement) : String := t.outline.text

end FactScript
