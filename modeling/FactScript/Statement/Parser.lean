import FactScript.Statement.Header

/-!
Facts, declarations and statements as blocks: a header together with the blocks in its body.
-/
namespace FactScript

mutual

def Fact.ofBlock : Block → Except ParseError Fact
  | ⟨header, body, indent, position⟩ =>
    Block.read ⟨header, body, indent, position⟩ Parser.factHeader fun
      | .specific fact => .ok fact
      | .universal generics params guards => do
        let (premises, conclusions) ← Fact.ifThen body
        return .universal generics params (guards ++ premises) conclusions

def Fact.ofBlocks : List Block → Except ParseError (List Fact)
  | [] => .ok []
  | b :: bs => do
    let fact ← Fact.ofBlock b
    return fact :: (← Fact.ofBlocks bs)

/-- The premises and conclusions in a body: a section of each, or conclusions alone with or without
the word `then` above them. -/
def Fact.ifThen : List Block → Except ParseError (List Fact × List Fact)
  | [] => .ok ([], [])
  | ⟨header, body, indent, position⟩ :: rest =>
    let first : Block := ⟨header, body, indent, position⟩
    if first.startsWith .ifKw then do
      let premises ← first.readSection .ifKw fun _ => Fact.ofBlocks body
      match rest with
      | [] => .error (.bare .ifWithoutThen)
      | ⟨header', body', indent', position'⟩ :: more =>
        let second : Block := ⟨header', body', indent', position'⟩
        if second.startsWith .thenKw then do
          let conclusions ← second.readSection .thenKw fun _ => Fact.ofBlocks body'
          match more with
          | [] => return (premises, conclusions)
          | extra :: _ => .error (.bare (.trailingBlock extra.headerText))
        else .error (.bare .ifWithoutThen)
    else if first.startsWith .thenKw then
      match rest with
      | [] => do return ([], ← first.readSection .thenKw fun _ => Fact.ofBlocks body)
      | extra :: _ => .error (.bare (.trailingBlock extra.headerText))
    else do
      let fact ← Fact.ofBlock ⟨header, body, indent, position⟩
      return ([], fact :: (← Fact.ofBlocks rest))

end

def FactHeader.build (body : List Block) : FactHeader → Except ParseError Fact
  | .specific fact => .ok fact
  | .universal generics params guards => do
    let (premises, conclusions) ← Fact.ifThen body
    return .universal generics params (guards ++ premises) conclusions

def Decl.ofBlock (b : Block) : Except ParseError Decl := b.readLine Parser.decl

def Decl.ofBlocks (bs : List Block) : Except ParseError (List Decl) := bs.mapM Decl.ofBlock

def Members.ofBlocks (bs : List Block) : Except ParseError Members := .ofDecls <$> Decl.ofBlocks bs

def Block.names (bs : List Block) : Except ParseError (List String) :=
  List.flatten <$> bs.mapM (·.readLine Parser.names)

/-- The word that heads a section, which must be allowed here and not have been used before. -/
def Sectioned.keyword (host : Sectioned) (allowed seen : List Keyword) (b : Block) :
    Except ParseError Keyword :=
  match allowed.find? b.startsWith with
  | none => .error (.bare (.unexpectedBlock host b.headerText))
  | some k => if seen.contains k then .error (.bare (.duplicateBlock host k)) else .ok k

namespace ConceptBody

def keywords : List Keyword := [.inherit, .typeMember, .member, .thenKw]

/-- Fills in the part that a section headed by `k` describes. -/
def withSection (c : ConceptBody) (k : Keyword) (b : Block) : Except ParseError ConceptBody :=
  match k with
  | .inherit => return { c with inherits := ← b.readSection k fun _ => Block.names b.body }
  | .typeMember =>
    return { c with typeMembers := ← b.readSection k fun _ => Members.ofBlocks b.body }
  | .member => return { c with members := ← b.readSection k fun _ => Members.ofBlocks b.body }
  | _ => return { c with facts := ← b.readSection k fun _ => Fact.ofBlocks b.body }

def addSections (host : Sectioned) (seen : List Keyword) (c : ConceptBody) :
    List Block → Except ParseError ConceptBody
  | [] => .ok c
  | b :: bs => do
    let k ← host.keyword keywords seen b
    addSections host (k :: seen) (← c.withSection k b) bs

/-- What the sections of a body say, each given at most once. -/
def ofBlocks (host : Sectioned) (bs : List Block) : Except ParseError ConceptBody :=
  addSections host [] {} bs

end ConceptBody

structure ExistBody where
  premises : List Fact := []
  members : List Decl := []
  conclusions : List Fact := []

namespace ExistBody

def keywords : List Keyword := [.ifKw, .member, .thenKw]

def withSection (e : ExistBody) (k : Keyword) (b : Block) : Except ParseError ExistBody :=
  match k with
  | .ifKw => return { e with premises := ← b.readSection k fun _ => Fact.ofBlocks b.body }
  | .member => return { e with members := ← b.readSection k fun _ => Decl.ofBlocks b.body }
  | _ => return { e with conclusions := ← b.readSection k fun _ => Fact.ofBlocks b.body }

def addSections (seen : List Keyword) (e : ExistBody) : List Block → Except ParseError ExistBody
  | [] => .ok e
  | b :: bs => do
    let k ← Sectioned.exist.keyword keywords seen b
    addSections (k :: seen) (← e.withSection k b) bs

def ofBlocks (bs : List Block) : Except ParseError ExistBody := addSections [] {} bs

end ExistBody

def Block.endInProof (bs : List Block) : Bool := bs.getLast?.any (·.startsWith .proof)

/-- The statement that a header opens over a body. How goals with their proof, and a proof alone,
are read from the body is given. -/
def Header.buildWith (body : List Block)
    (goalsAndProof : Unit → Except ParseError (List Fact × List Statement))
    (proof : Unit → Except ParseError (List Statement)) : Header → Except ParseError Statement
  | .var vars opens => return .var vars (← if opens then Fact.ofBlocks body else .ok [])
  | .concept typeVar name opens =>
    return .concept typeVar name (← if opens then ConceptBody.ofBlocks .concept body else .ok {})
  | .type name opens =>
    return .type name (← if opens then ConceptBody.ofBlocks .type body else .ok {})
  | .property decl opens => do
    let (premises, conclusions) ← if opens then Fact.ifThen body else .ok ([], [])
    return .property decl premises conclusions
  | .fn decl opens => do
    let (premises, conclusions) ← if opens then Fact.ifThen body else .ok ([], [])
    return .fn decl premises conclusions
  | .claim =>
    if Block.endInProof body then do
      let (goals, proof) ← goalsAndProof ()
      return .claim goals proof
    else .error (.bare .missingProof)
  | .proof => return .claim [] (← proof ())
  | .know => return .know (← Fact.ofBlocks body)
  | .knowFact f => return .know [← f.build body]
  | .use name value => .ok (.use name value)
  | .exist decl opens => do
    let sections ← if opens then ExistBody.ofBlocks body else .ok {}
    return .exist decl sections.premises sections.members sections.conclusions
  | .witness existence =>
    match body with
    | [line] => return .witness existence (← line.readLine Parser.names)
    | lines => .error (.bare (.witnessLines lines.length))
  | .member owner self decl opens =>
    return .member owner self decl (← if opens then Fact.ofBlocks body else .ok [])
  | .typeMember owner decl opens =>
    return .typeMember owner decl (← if opens then Fact.ofBlocks body else .ok [])
  | .fact f => return .fact (← f.build body)

mutual

def Statement.ofBlock : Block → Except ParseError Statement
  | ⟨header, body, indent, position⟩ =>
    Block.read ⟨header, body, indent, position⟩ Parser.header
      (Header.buildWith body (fun _ => Statement.goalsAndProof body)
        (fun _ => Statement.ofBlocks body))

def Statement.ofBlocks : List Block → Except ParseError (List Statement)
  | [] => .ok []
  | b :: bs => do
    let statement ← Statement.ofBlock b
    return statement :: (← Statement.ofBlocks bs)

/-- The body of a claim: goals, and a section with their proof as the last block. -/
def Statement.goalsAndProof : List Block → Except ParseError (List Fact × List Statement)
  | [] => .error (.bare .missingProof)
  | [⟨header, body, indent, position⟩] => do
    let last : Block := ⟨header, body, indent, position⟩
    return ([], ← last.readSection .proof fun _ => Statement.ofBlocks body)
  | b :: b' :: bs => do
    let goal ← Fact.ofBlock b
    let (goals, proof) ← Statement.goalsAndProof (b' :: bs)
    return (goal :: goals, proof)

end

def Header.build (body : List Block) : Header → Except ParseError Statement :=
  Header.buildWith body (fun _ => Statement.goalsAndProof body) (fun _ => Statement.ofBlocks body)

/-- A statement of a program may be marked as public. -/
def TopStatement.ofBlock (b : Block) : Except ParseError TopStatement :=
  b.read (do return (← Parser.skipKeyword .pub, ← Parser.header)) fun (isPublic, header) => do
    return ⟨← header.build b.body, isPublic, b.position⟩

end FactScript
