import FactScript.Statement.Basic
import FactScript.Term.Json

/-!
Declarations and statements as JSON.
-/
namespace FactScript

open Json (tagged strs)

def Position.toJson (p : Position) : Json :=
  .obj [("line", .num p.line), ("column", .num p.column), ("offset", .num p.offset)]

def FnDecl.toJson (d : FnDecl) : Json :=
  .obj [("name", .str d.name), ("ty", .obj (d.signature.toFields ++ [("ret", d.result.toJson)]))]

def PropertyDecl.toJson (d : PropertyDecl) : Json :=
  .obj [("name", .str d.name), ("ty", d.signature.toJson)]

/-- The variables of one declaration. -/
def Param.declToJson (vars : List Param) : Json := .obj [("vars", .arr (Param.toJsons vars))]

def Decl.toJson : Decl → Json
  | .var vars => tagged "Var" (Param.declToJson vars)
  | .fn d => tagged "Fn" d.toJson
  | .property d => tagged "Property" d.toJson

def Members.toJson (m : Members) : Json :=
  .obj [("vars", .arr (m.vars.map Param.declToJson)), ("fns", .arr (m.fns.map FnDecl.toJson)),
    ("properties", .arr (m.properties.map PropertyDecl.toJson))]

def ConceptBody.toJson (b : ConceptBody) : Json :=
  .obj [("inherit", strs b.inherits), ("type_members", b.typeMembers.toJson),
    ("members", b.members.toJson), ("then_facts", .arr (Fact.toJsons b.facts))]

mutual

def Statement.toJson : Statement → Json
  | .var vars facts =>
    tagged "DefVar" (.obj [("decl", Param.declToJson vars), ("facts", .arr (Fact.toJsons facts))])
  | .concept typeVar name body =>
    tagged "DefConcept" (.obj [("type_var", .str typeVar), ("name", .str name),
      ("body", body.toJson)])
  | .type name body => tagged "DefType" (.obj [("name", .str name), ("body", body.toJson)])
  | .property d premises conclusions =>
    tagged "DefProperty" (.obj [("decl", d.toJson), ("if_facts", .arr (Fact.toJsons premises)),
      ("then_facts", .arr (Fact.toJsons conclusions))])
  | .fn d premises conclusions =>
    tagged "DefFn" (.obj [("decl", d.toJson), ("if_facts", .arr (Fact.toJsons premises)),
      ("then_facts", .arr (Fact.toJsons conclusions))])
  | .claim goals proof =>
    tagged "Claim" (.obj [("to_check", .arr (Fact.toJsons goals)),
      ("proof", .arr (Statement.toJsons proof))])
  | .know facts => tagged "Know" (.obj [("facts", .arr (Fact.toJsons facts))])
  | .use name value => tagged "DefUse" (.obj [("name", .str name), ("value", value.toJson)])
  | .exist d premises members conclusions =>
    tagged "DefExist" (.obj [("decl", d.toJson), ("if_facts", .arr (Fact.toJsons premises)),
      ("members", .arr (members.map Decl.toJson)), ("then_facts", .arr (Fact.toJsons conclusions))])
  | .witness existence names =>
    tagged "Have" (.obj [("fact", existence.toJson), ("members", strs names)])
  | .member owner self d facts =>
    tagged "DefMember" (.obj [("type_concept", owner.toJson), ("instance", self.toJson),
      ("decl", d.toJson), ("facts", .arr (Fact.toJsons facts))])
  | .typeMember owner d facts =>
    tagged "DefTypeMember" (.obj [("type_concept", owner.toJson), ("decl", d.toJson),
      ("facts", .arr (Fact.toJsons facts))])
  | .fact f => if f.isSpecific then tagged "Fact" f.toJson else f.toJson

def Statement.toJsons : List Statement → List Json
  | [] => []
  | s :: ss => s.toJson :: Statement.toJsons ss

end

def TopStatement.toJson (t : TopStatement) : Json :=
  .obj [("stmt", t.statement.toJson), ("is_pub", .bool t.isPublic), ("position", t.position.toJson)]

end FactScript
