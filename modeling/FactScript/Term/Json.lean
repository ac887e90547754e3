import FactScript.Json
import FactScript.Term.Basic

/-!
Terms, types and facts as JSON: a record is an object with its fields in order, and one of several
cases stands under a tag.
-/
namespace FactScript

open Json (tagged)

def GenericParam.toJson (g : GenericParam) : Json :=
  .obj [("name", .str g.name), ("concept", .str g.concept)]

def TypeArg.toJson : TypeArg → Json
  | .plain name => tagged "Name" (.str name)
  | .ascribed name concept => tagged "Typed" (.obj [("name", .str name), ("concept", .str concept)])

def Symbol.toJson : Symbol → Json
  | colon => .str "Colon"
  | lbracket => .str "LBracket"
  | rbracket => .str "RBracket"
  | lparen => .str "LParen"
  | rparen => .str "RParen"
  | comma => .str "Comma"
  | dollar => .str "Dollar"
  | eq => .str "Eq"
  | slash => .str "Slash"
  | plus => .str "Plus"
  | minus => .str "Minus"
  | star => .str "Star"
  | caret => .str "Caret"
  | lt => .str "Lt"
  | gt => .str "Gt"
  | bang => .str "Bang"
  | pipe => .str "Pipe"
  | tilde => .str "Tilde"
  | amp => .str "Amp"
  | dot => .str "Dot"
  | question => .str "Question"
  | colonColon => .str "ColonColon"
  | plusPlus => .str "PlusPlus"
  | minusMinus => .str "MinusMinus"
  | andAnd => .str "AndAnd"
  | orOr => .str "OrOr"
  | eqEq => .str "EqEq"
  | notEq => .str "NotEq"

def Placeholder.toJson : Placeholder → Json
  | fn => .str "Fn"
  | var => .str "Var"
  | property => .str "Property"

mutual

def Term.toJson : Term → Json
  | .atom name => tagged "Atom" (.str name)
  | .number text => tagged "Number" (.str text)
  | .chain parts => tagged "Chain" (.arr (Term.toJsons parts))
  | .call c => tagged "Call" c.toJson
  | .ascribed term signature =>
    tagged "Typed" (.obj [("fc", term.toJson), ("ty", .obj signature.toFields)])

def Term.toJsons : List Term → List Json
  | [] => []
  | t :: ts => t.toJson :: Term.toJsons ts

def Call.toJson : Call → Json
  | ⟨callee, typeArgs, args⟩ =>
    .obj [("callee", callee.toJson), ("type_args", .arr (typeArgs.map TypeArg.toJson)),
      ("args", .arr (Term.toJsons args))]

def Signature.toFields : Signature → List (String × Json)
  | ⟨generics, params, guards⟩ =>
    [("generics", .arr (generics.map GenericParam.toJson)), ("params", .arr (Param.toJsons params)),
      ("guards", .arr (Fact.toJsons guards))]

def Param.toJson : Param → Json
  | ⟨name, type⟩ => .obj [("name", .str name), ("ty", type.toJson)]

def Param.toJsons : List Param → List Json
  | [] => []
  | p :: ps => p.toJson :: Param.toJsons ps

def Ty.toJson : Ty → Json
  | .named name => tagged "Named" (.str name)
  | .fn signature result => tagged "Fn" (.obj (signature.toFields ++ [("ret", result.toJson)]))
  | .property signature => tagged "Property" (.obj signature.toFields)
  | .placeholder kind => tagged "Undefined" kind.toJson

def Fact.toJson : Fact → Json
  | .relational holds operator operands =>
    tagged "Relational" (.obj [("is_true", .bool holds), ("operator", operator.toJson),
      ("operands", .arr (Term.toJsons operands))])
  | .property holds call =>
    tagged "Property" (.obj [("is_true", .bool holds), ("call", call.toJson)])
  | .universal generics params premises conclusions =>
    tagged "Forall" (.obj [("generics", .arr (generics.map GenericParam.toJson)),
      ("params", .arr (Param.toJsons params)), ("if_facts", .arr (Fact.toJsons premises)),
      ("then_facts", .arr (Fact.toJsons conclusions))])

def Fact.toJsons : List Fact → List Json
  | [] => []
  | f :: fs => f.toJson :: Fact.toJsons fs

end

def Signature.toJson (s : Signature) : Json := .obj s.toFields

def Predication.toJson (p : Predication) : Json :=
  .obj [("is_true", .bool p.holds), ("call", p.call.toJson)]

end FactScript
