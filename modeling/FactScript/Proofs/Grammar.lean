import FactScript.Proofs.Decimal
import FactScript.Statement.Parser
import Mathlib.Data.List.Forall2

/-!
The grammar of the language, apart from any parser. What can stand on one line is given by sorts of
phrases (`Phrase`) and a relation between the lexemes of a phrase and what it means (`Reads`); what
takes up several lines is given on skeletons, the block structure of a text without its layout. The
relations carry the meaning along, so a derivation says which statement a text stands for and not
only that it is one.
-/
namespace FactScript

inductive Phrase
  | name
  | typeArg
  | typeArgs
  | genericParam
  | generics
  | param
  | valueParams
  | signature
  | args
  | applications
  | segment
  | chain
  | predicate
  | atom
  | power
  | unary
  | product
  | sum
  | type
  | specific
  | guards
  | quantifier
  | decl
  /-- Phrases of one sort with a symbol between them, at least one. -/
  | separated (s : Symbol) (p : Phrase)

/-- What a phrase of each sort stands for. Lists of parameters come with their guards. -/
abbrev Phrase.Meaning : Phrase → Type
  | .name => String
  | .typeArg => TypeArg
  | .typeArgs => List TypeArg
  | .genericParam => GenericParam
  | .generics => List GenericParam × List Fact
  | .param => Param
  | .valueParams => List Param × List Fact
  | .signature => Signature
  | .args => List Term
  | .applications => List (List TypeArg × List Term)
  | .segment | .chain => Term
  | .predicate => Call
  | .atom | .power | .unary | .product | .sum => Term
  | .type => Ty
  | .specific => Fact
  | .guards => List Fact
  | .quantifier => List GenericParam × List Param × List Fact
  | .decl => Decl
  | .separated _ p => List p.Meaning

def Term.applied (callee : Term) (applications : List (List TypeArg × List Term)) : Term :=
  applications.foldl (fun callee a => .call ⟨callee, a.1, a.2⟩) callee

/-- `Reads p ts a`: the lexemes `ts` are a phrase of sort `p` that means `a`. -/
inductive Reads : (p : Phrase) → List Lexeme → p.Meaning → Prop
  | name (n : String) : Reads .name [.identifier n] n
  -- p {s p}
  | one {s p u a} : Reads p u a → Reads (.separated s p) u [a]
  | more {s p u v a as} : Reads p u a → Reads (.separated s p) v as →
      Reads (.separated s p) (u ++ .symbol s :: v) (a :: as)
  -- typeArg = id | 'as' '(' id ',' id ')'
  | plainTypeArg (n : String) : Reads .typeArg [.identifier n] (.plain n)
  | ascribedTypeArg (n c : String) :
      Reads .typeArg
        [.keyword .as, .symbol .lparen, .identifier n, .symbol .comma, .identifier c,
          .symbol .rparen]
        (.ascribed n c)
  -- typeArgs = '[' typeArg {',' typeArg} ']'
  | typeArgs {u as} : Reads (.separated .comma .typeArg) u as →
      Reads .typeArgs (.symbol .lbracket :: u ++ [.symbol .rbracket]) as
  | genericParam (n c : String) : Reads .genericParam [.identifier n, .identifier c] ⟨n, c⟩
  -- guards = ['::' specific {',' specific}]
  | noGuards : Reads .guards [] []
  | someGuards {u fs} : Reads (.separated .comma .specific) u fs →
      Reads .guards (.symbol .colonColon :: u) fs
  -- generics = ['[' genericParam {',' genericParam} guards ']']
  | noGenerics : Reads .generics [] ([], [])
  | someGenerics {u v gs fs} : Reads (.separated .comma .genericParam) u gs → Reads .guards v fs →
      Reads .generics (.symbol .lbracket :: u ++ v ++ [.symbol .rbracket]) (gs, fs)
  | param {n u t} : Reads .type u t → Reads .param (.identifier n :: u) ⟨n, t⟩
  -- valueParams = '(' [param {',' param}] guards ')'
  | noParams {v fs} : Reads .guards v fs →
      Reads .valueParams (.symbol .lparen :: v ++ [.symbol .rparen]) ([], fs)
  | someParams {u v ps fs} : Reads (.separated .comma .param) u ps → Reads .guards v fs →
      Reads .valueParams (.symbol .lparen :: u ++ v ++ [.symbol .rparen]) (ps, fs)
  -- signature = generics valueParams
  | signature {u v gs ps fs fs'} : Reads .generics u (gs, fs) → Reads .valueParams v (ps, fs') →
      Reads .signature (u ++ v) ⟨gs, ps, fs ++ fs'⟩
  -- type = id | 'fn' signature type | 'property' signature | '?' ('fn' | 'var' | 'property')
  | named (n : String) : Reads .type [.identifier n] (.named n)
  | fnType {u v s r} : Reads .signature u s → Reads .type v r →
      Reads .type (.keyword .fn :: u ++ v) (.fn s r)
  | propertyType {u s} : Reads .signature u s → Reads .type (.keyword .property :: u) (.property s)
  | placeholder (k : Placeholder) :
      Reads .type [.symbol .question, .keyword k.keyword] (.placeholder k)
  -- args = '(' [sum {',' sum}] ')'
  | noArgs : Reads .args [.symbol .lparen, .symbol .rparen] []
  | someArgs {u ts} : Reads (.separated .comma .sum) u ts →
      Reads .args (.symbol .lparen :: u ++ [.symbol .rparen]) ts
  -- applications = {typeArgs [args] | args}; arguments right after type arguments belong to these
  | noApplications : Reads .applications [] []
  | valueApplication {u v as l} : Reads .args u as → Reads .applications v l →
      Reads .applications (u ++ v) (([], as) :: l)
  | typeApplication {u v ts l} : Reads .typeArgs u ts → Reads .applications v l →
      v.head? ≠ some (.symbol .lparen) → Reads .applications (u ++ v) ((ts, []) :: l)
  | fullApplication {u v w ts as l} :
      Reads .typeArgs u ts → Reads .args v as → Reads .applications w l →
        Reads .applications (u ++ v ++ w) ((ts, as) :: l)
  | segment {n u l} : Reads .applications u l →
      Reads .segment (.identifier n :: u) ((Term.atom n).applied l)
  -- chain = segment {'.' segment}
  | soleSegment {u t} : Reads .segment u t → Reads .chain u t
  | dotted {u ts} :
      Reads (.separated .dot .segment) u ts → 2 ≤ ts.length → Reads .chain u (.chain ts)
  -- predicate = {segment '.'} segment, where the last segment has an application
  | solePredicate {u c} : Reads .segment u (.call c) → Reads .predicate u c
  | dottedPredicate {u v ts c} :
      Reads (.separated .dot .segment) u ts → Reads .segment v (.call c) →
        Reads .predicate (u ++ .symbol .dot :: v) ⟨.chain (ts ++ [c.callee]), c.typeArgs, c.args⟩
  -- atom = '(' sum ')' | 'as' '(' sum ',' 'property' signature ')' | number ['.' number] | chain
  | parenthesized {u t} : Reads .sum u t →
      Reads .atom (.symbol .lparen :: u ++ [.symbol .rparen]) t
  | ascription {u v t s} : Reads .sum u t → Reads .signature v s →
      Reads .atom
        (.keyword .as :: .symbol .lparen :: u ++ .symbol .comma :: .keyword .property :: v ++
          [.symbol .rparen])
        (.ascribed t s)
  | whole {w : String} : Numeral.Whole w → Reads .atom [.number w] (.number w)
  | fraction {w f : String} : Numeral.Whole w → Numeral.Fraction f →
      Reads .atom [.number w, .symbol .dot, .number f] (.number (w ++ "." ++ f))
  | chainAtom {u t} : Reads .chain u t → Reads .atom u t
  -- power = atom ['^' power]
  | base {u t} : Reads .atom u t → Reads .power u t
  | exponentiation {u v t t'} : Reads .atom u t → Reads .power v t' →
      Reads .power (u ++ .symbol .caret :: v) (.apply .caret [t, t'])
  -- unary = ['-'] power
  | unsigned {u t} : Reads .power u t → Reads .unary u t
  | negation {u t} : Reads .power u t → Reads .unary (.symbol .minus :: u) (.apply .minus [t])
  -- product = unary {('*' | '/') unary}, grouped from the left
  | factor {u t} : Reads .unary u t → Reads .product u t
  | multiplication {u v t t'} (op : Symbol) : op = .star ∨ op = .slash → Reads .product u t →
      Reads .unary v t' → Reads .product (u ++ .symbol op :: v) (.apply op [t, t'])
  -- sum = product {('+' | '-') product}, grouped from the left
  | summand {u t} : Reads .product u t → Reads .sum u t
  | addition {u v t t'} (op : Symbol) : op = .plus ∨ op = .minus → Reads .sum u t →
      Reads .product v t' → Reads .sum (u ++ .symbol op :: v) (.apply op [t, t'])
  -- specific = ['not'] ('$' predicate | sum 'is' id ['[' typeArg ']'] | sum r sum {r sum})
  | predication {u c} :
      Reads .predicate u c → Reads .specific (.symbol .dollar :: u) (.property true c)
  | isA {u t n} : Reads .sum u t →
      Reads .specific (u ++ [.keyword .is, .identifier n]) (.property true ⟨.atom n, [], [t]⟩)
  | isATyped {u v t n a} : Reads .sum u t → Reads .typeArg v a →
      Reads .specific
        (u ++ .keyword .is :: .identifier n :: .symbol .lbracket :: v ++ [.symbol .rbracket])
        (.property true ⟨.atom n, [a], [t]⟩)
  | relation {u ts} (s : Symbol) : s.isRelational = true → Reads (.separated s .sum) u ts →
      2 ≤ ts.length → Reads .specific u (.relational true s ts)
  | deniedProperty {u c} : Reads .specific u (.property true c) →
      Reads .specific (.keyword .not :: u) (.property false c)
  | deniedRelation {u s ts} : Reads .specific u (.relational true s ts) →
      Reads .specific (.keyword .not :: u) (.relational false s ts)
  -- quantifier = 'forall' generics param {',' param} guards
  | quantifier {u v w gs ps fs fs'} :
      Reads .generics u (gs, fs) → Reads (.separated .comma .param) v ps → Reads .guards w fs' →
        Reads .quantifier (.keyword .forallKw :: u ++ v ++ w) (gs, ps, fs ++ fs')
  -- decl = 'var' param {',' param} | 'fn' id signature type | 'property' id signature
  | varDecl {u ps} :
      Reads (.separated .comma .param) u ps → Reads .decl (.keyword .var :: u) (.var ps)
  | fnDecl {n u v s r} : Reads .signature u s → Reads .type v r →
      Reads .decl (.keyword .fn :: .identifier n :: u ++ v) (.fn ⟨n, s, r⟩)
  | propertyDecl {n u s} : Reads .signature u s →
      Reads .decl (.keyword .property :: .identifier n :: u) (.property ⟨n, s⟩)

/-- A block without its layout: the lexemes of its header, and what is nested under it. -/
structure Skeleton where
  header : List Lexeme
  body : List Skeleton

mutual

def Block.skeleton : Block → Skeleton
  | ⟨header, body, _, _⟩ => ⟨header.map Token.lexeme, skeletons body⟩

def Block.skeletons : List Block → List Skeleton
  | [] => []
  | b :: bs => b.skeleton :: skeletons bs

end

def Skeleton.section_ (k : Keyword) (body : List Skeleton) : Skeleton :=
  ⟨[.keyword k, .symbol .colon], body⟩

def ReadsLine (p : Phrase) (k : Skeleton) (a : p.Meaning) : Prop := k.body = [] ∧ Reads p k.header a

def ReadsLines (p : Phrase) : List Skeleton → List p.Meaning → Prop := List.Forall₂ (ReadsLine p)

mutual

inductive ReadsFact : Skeleton → Fact → Prop
  | specific {h f} : Reads .specific h f → ReadsFact ⟨h, []⟩ f
  | universal {h body gs ps guards premises conclusions} : Reads .quantifier h (gs, ps, guards) →
      ReadsIfThen body premises conclusions →
      ReadsFact ⟨h ++ [.symbol .colon], body⟩ (.universal gs ps (guards ++ premises) conclusions)

inductive ReadsFacts : List Skeleton → List Fact → Prop
  | nil : ReadsFacts [] []
  | cons {k ks f fs} : ReadsFact k f → ReadsFacts ks fs → ReadsFacts (k :: ks) (f :: fs)

/-- A body with premises and conclusions, or with conclusions alone. -/
inductive ReadsIfThen : List Skeleton → List Fact → List Fact → Prop
  | both {b b' premises conclusions} : ReadsFacts b premises → ReadsFacts b' conclusions →
      ReadsIfThen [.section_ .ifKw b, .section_ .thenKw b'] premises conclusions
  | conclusions {b conclusions} : ReadsFacts b conclusions →
      ReadsIfThen [.section_ .thenKw b] [] conclusions
  | bare {ks conclusions} : ReadsFacts ks conclusions → ReadsIfThen ks [] conclusions

end

/-- A block with the header `h` and no body, or with a colon after `h` and a body. -/
inductive ReadsOpening {α : Type} (body : List Skeleton → α → Prop) (absent : α) (h : List Lexeme) :
    Skeleton → α → Prop
  | closed : ReadsOpening body absent h ⟨h, []⟩ absent
  | opened {ks a} : body ks a → ReadsOpening body absent h ⟨h ++ [.symbol .colon], ks⟩ a

inductive ReadsSection {α : Type} (k : Keyword) (body : List Skeleton → α → Prop) (absent : α) :
    List Skeleton → α → Prop
  | absent : ReadsSection k body absent [] absent
  | present {ks a} : body ks a → ReadsSection k body absent [.section_ k ks] a

def ReadsNames (ks : List Skeleton) (names : List String) : Prop :=
  ∃ lines, ReadsLines (.separated .comma .name) ks lines ∧ names = lines.flatten

def ReadsMembers (ks : List Skeleton) (m : Members) : Prop :=
  ∃ decls, ReadsLines .decl ks decls ∧ m = .ofDecls decls

/-- Sections in any order, each at most once. -/
def ReadsConceptBody (ks : List Skeleton) (c : ConceptBody) : Prop :=
  ∃ i t m f, ks.Perm (i ++ t ++ m ++ f) ∧
    ReadsSection .inherit ReadsNames [] i c.inherits ∧
    ReadsSection .typeMember ReadsMembers {} t c.typeMembers ∧
    ReadsSection .member ReadsMembers {} m c.members ∧
    ReadsSection .thenKw ReadsFacts [] f c.facts

def ReadsExistBody (ks : List Skeleton) (e : ExistBody) : Prop :=
  ∃ p m c, ks.Perm (p ++ m ++ c) ∧
    ReadsSection .ifKw ReadsFacts [] p e.premises ∧
    ReadsSection .member (ReadsLines .decl) [] m e.members ∧
    ReadsSection .thenKw ReadsFacts [] c e.conclusions

mutual

inductive ReadsStatement : Skeleton → Statement → Prop
  | concept {k typeVar name c} :
      ReadsOpening ReadsConceptBody {}
        [.keyword .concept, .identifier typeVar, .identifier name] k c →
      ReadsStatement k (.concept typeVar name c)
  | type {k name c} : ReadsOpening ReadsConceptBody {} [.keyword .type, .identifier name] k c →
      ReadsStatement k (.type name c)
  | property {h k d b} : Reads .decl h (.property d) →
      ReadsOpening (fun ks b => ReadsIfThen ks b.1 b.2) ([], []) h k b →
      ReadsStatement k (.property d b.1 b.2)
  | fn {h k d b} : Reads .decl h (.fn d) →
      ReadsOpening (fun ks b => ReadsIfThen ks b.1 b.2) ([], []) h k b →
      ReadsStatement k (.fn d b.1 b.2)
  | var {h k vars facts} : Reads .decl h (.var vars) → ReadsOpening ReadsFacts [] h k facts →
      ReadsStatement k (.var vars facts)
  | claim {ks body goals proof} : ReadsFacts ks goals → ReadsStatements body proof →
      ReadsStatement (.section_ .claim (ks ++ [.section_ .proof body])) (.claim goals proof)
  | proof {body proof} : ReadsStatements body proof →
      ReadsStatement (.section_ .proof body) (.claim [] proof)
  | use {u name value} : Reads .sum u value →
      ReadsStatement ⟨.keyword .use :: .identifier name :: u, []⟩ (.use name value)
  | knowFact {h body f} : ReadsFact ⟨h, body⟩ f →
      ReadsStatement ⟨.keyword .know :: h, body⟩ (.know [f])
  | know {body facts} : ReadsFacts body facts → ReadsStatement (.section_ .know body) (.know facts)
  | exist {u k name s e} : Reads .signature u s →
      ReadsOpening ReadsExistBody {} (.keyword .exist :: .identifier name :: u) k e →
      ReadsStatement k (.exist ⟨name, s⟩ e.premises e.members e.conclusions)
  | witness {u k c names} : Reads .predicate u c → ReadsLine (.separated .comma .name) k names →
      ReadsStatement ⟨.keyword .haveKw :: .symbol .dollar :: u ++ [.symbol .colon], [k]⟩
        (.witness ⟨true, c⟩ names)
  | member {v w k name concept self t d facts} : Reads .type v t → Reads .decl w d →
      ReadsOpening ReadsFacts []
        (.keyword .member :: .symbol .lbracket :: .identifier name :: .identifier concept ::
          .symbol .rbracket :: .symbol .lparen :: .identifier self :: v ++ .symbol .rparen :: w)
        k facts →
      ReadsStatement k (.member ⟨name, concept⟩ ⟨self, t⟩ d facts)
  | typeMember {w k name concept d facts} : Reads .decl w d →
      ReadsOpening ReadsFacts []
        (.keyword .typeMember :: .symbol .lbracket :: .identifier name :: .identifier concept ::
          .symbol .rbracket :: w) k facts →
      ReadsStatement k (.typeMember ⟨name, concept⟩ d facts)
  | fact {k f} : ReadsFact k f → ReadsStatement k (.fact f)

inductive ReadsStatements : List Skeleton → List Statement → Prop
  | nil : ReadsStatements [] []
  | cons {k ks s ss} :
      ReadsStatement k s → ReadsStatements ks ss → ReadsStatements (k :: ks) (s :: ss)

end

/-- A statement of a program: the word `pub` marks it as public. -/
inductive ReadsTop : Skeleton → Bool → Statement → Prop
  | plain {k s} : ReadsStatement k s → ReadsTop k false s
  | marked {h body s} : ReadsStatement ⟨h, body⟩ s → ReadsTop ⟨.keyword .pub :: h, body⟩ true s

end FactScript
