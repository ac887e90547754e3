import FactScript.Memory.Basic
import FactScript.Statement.Json

/-!
What a memory holds, as JSON.
-/
namespace FactScript

def Conditional.toJson (c : Conditional) : Json :=
  .obj [("guards", .arr (Fact.toJsons c.guards)), ("consequence", c.consequence.toJson)]

def Rule.toJson (r : Rule) : Json :=
  .obj [("generics", .arr (r.generics.map GenericParam.toJson)),
    ("params", .arr (Param.toJsons r.params)), ("guards", .arr (Fact.toJsons r.guards)),
    ("consequences", .arr (Fact.toJsons r.consequences))]

def Stats.toJson (s : Stats) : Json :=
  .obj [("ground", .num s.ground), ("conditional", .num s.conditional),
    ("universal", .num s.universal), ("vars", .num s.vars), ("properties", .num s.properties),
    ("fns", .num s.fns), ("aliases", .num s.aliases)]

end FactScript
