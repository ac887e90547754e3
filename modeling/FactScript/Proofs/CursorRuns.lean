import FactScript.Proofs.Discipline
import FactScript.Proofs.Placement

/-!
Runs of a cursor. On one block, tokens are looked at, skipped and demanded, and phrases are read, in
any order and with any outcome. The cursor never goes back and never leaves the header. What a
phrase is read as, and where the cursor stands then, depends only on the tokens from where it stood
up to the one after those taken.
-/
namespace FactScript

namespace Parser

variable {k n : ℕ}

theorem Careful.pred {α : Type} {p : Parser α} (h : Careful k (n + 1) p) : Careful k n p :=
  h.mono (Nat.le_refl k) (Nat.le_succ n)

theorem careful_at (l : Lexeme) : Careful 0 n (at_ l) := by
  have h : Careful 0 n (at_ l >>= pure) := .at fun here => careful_pure here
  rwa [bind_pure] at h

theorem careful_next : Careful 1 n next := by
  intro ts _
  cases ts with
  | nil =>
    refine ⟨[], [], rfl, .error .unexpectedEnd Fault.unexpectedEnd_fits fun ts' hhead => ?_⟩
    rw [List.head?_eq_none_iff.mp hhead]
    rfl
  | cons t ts => exact ⟨[t], ts, rfl, .ok t (Nat.le_refl 1) fun _ _ => rfl⟩

/-! Operations of any strength, also of those that no layer has. -/

section Climbing

open Infix

variable {atom : Parser Term}

theorem level_continued_careful (ha : Sound .atom atom) (h : ∀ n, Careful 1 n atom) (n : ℕ) :
    (∀ s, Careful 1 n (level atom s)) ∧ ∀ s t, Careful 0 n (continued atom s t) := by
  induction n with
  | zero => exact ⟨fun _ => careful_zero, fun _ _ => careful_zero⟩
  | succ n ih =>
    -- A right operand, and the operand of a minus, come after a lexeme that has been taken.
    obtain ⟨hlevel, hcontinued⟩ := ih
    refine ⟨fun s => ?_, fun s t ts hts => ?_⟩
    · have hlead : Careful 1 (n + 1) (lead (level atom (negation + 1)) atom s) := by
        by_cases hs : s ≤ negation
        · rw [lead_of_le hs]
          exact .skip ((hlevel _).weak.bind fun _ => careful_pure _) (h _)
        · rw [lead_of_lt (Nat.lt_of_not_le hs)]
          exact h _
      rw [level_eq ha]
      exact hlead.bind fun t => hcontinued s t
    · rcases below_or_operator s ts with hbelow | ⟨x, ts', op, rfl, hop, hs⟩
      · refine ⟨[], ts, rfl, .ok t (Nat.le_refl 0) fun ts' hhead => ?_⟩
        refine continued_of_below fun op hop => ?_
        rw [List.nil_append, next?, hhead] at hop
        exact hbelow op hop
      · have hmore : Careful 0 n
            (level atom op.right >>= fun right => continued atom s (.apply x [t, right])) :=
          (hlevel op.right).weak.bind fun right => hcontinued s _
        rw [List.length_cons] at hts
        obtain ⟨u, rest, rfl, hu⟩ := @hmore ts' (by omega)
        exact ⟨.symbol x :: u, rest, rfl,
          hu.of_eq (fun _ => Nat.zero_le _) fun rest' _ => continued_of_le ha hop hs⟩

end Climbing

theorem level_careful (s : ℕ) : Careful 1 n (level full.atom s) :=
  (level_continued_careful (Nested.atom_sound full_sound)
    (fun _ => (Nested.atom_careful full_careful).pred) n).1 s

/-- The headers of the statements that begin with this word; all others are headers of facts. -/
def headerFor : Keyword → Parser Header
  | .concept => conceptHeader
  | .type => typeHeader
  | .property => propertyHeader
  | .fn => fnHeader
  | .var => varHeader
  | .claim => claimHeader
  | .proof => proofHeader
  | .use => useHeader
  | .know => knowHeader
  | .exist => existHeader
  | .haveKw => witnessHeader
  | .member => memberHeader
  | .typeMember => typeMemberHeader
  | _ => do return .fact (← factHeader)

theorem header_cons (k : Keyword) (ts : List Lexeme) :
    header (.keyword k :: ts) = headerFor k (.keyword k :: ts) := by
  cases k <;> rfl

theorem headerFor_careful (k : Keyword) : Careful 1 n (headerFor k) := by
  cases k with
  | concept => exact conceptHeader_careful
  | type => exact typeHeader_careful
  | property => exact propertyHeader_careful
  | fn => exact fnHeader_careful
  | var => exact varHeader_careful
  | claim => exact claimHeader_careful
  | proof => exact proofHeader_careful
  | use => exact useHeader_careful
  | know => exact knowHeader_careful
  | exist => exact existHeader_careful
  | haveKw => exact witnessHeader_careful
  | member => exact memberHeader_careful
  | typeMember => exact typeMemberHeader_careful
  | _ => exact factHeader_careful.bind fun _ => careful_pure _

end Parser

/-- How something is read from a block: a part of the header, and with it the body. -/
structure Reading (α : Type) where
  {η : Type}
  header : Parser η
  build : List Block → η → Except ParseError α

namespace Reading

variable {α : Type}

def ofHeader (p : Parser α) : Reading α := ⟨p, fun _ => .ok⟩

def ofBody (f : List Block → Except ParseError α) : Reading α := ⟨pure (), fun body _ => f body⟩

def ofOpened (f : List Block → Except ParseError α) (a : α) : Reading α :=
  ⟨Parser.opens, fun body opens => if opens then f body else .ok a⟩

end Reading

inductive Target : Type → Type
  | term : Target Term
  | operation (strength : ℕ) : Target Term
  | atom : Target Term
  | number : Target Term
  | chain : Target Term
  | segment : Target Term
  | ascription : Target Term
  | args : Target (List Term)
  | typeArg : Target TypeArg
  | typeArgs : Target (List TypeArg)
  | genericPairs : Target (List GenericParam)
  | genericParams : Target (List GenericParam)
  | guardedGenerics : Target (List GenericParam × List Fact)
  | param : Target Param
  | params : Target (List Param)
  | valueParams : Target (List Param)
  | guardedParams : Target (List Param × List Fact)
  | guards : Target (List Fact)
  | signature : Target Signature
  | propertyType : Target Signature
  | fnSignature : Target (Signature × Ty)
  | fnType : Target (Signature × Ty)
  | type : Target Ty
  | predication (holds : Bool) : Target Predication
  | relational (holds : Bool) : Target Fact
  | specificFact : Target Fact
  | universal : Target Fact
  | fact : Target Fact
  | facts : Target (List Fact)
  | ifThen : Target (List Fact × List Fact)
  | openedFacts : Target (List Fact)
  | openedIfThen : Target (List Fact × List Fact)
  | varDecl : Target (List Param)
  | fnDecl : Target FnDecl
  | propertyDecl : Target PropertyDecl
  | decl : Target Decl
  | decls : Target (List Decl)
  | members : Target Members
  | names : Target (List String)
  | nameLines : Target (List String)
  | conceptBody (host : Sectioned) : Target ConceptBody
  | statementFor (k : Keyword) : Target Statement
  | statement : Target Statement
  | statements : Target (List Statement)

namespace Target

open FactScript.Parser Reading

variable {α : Type}

def reading : Target α → Reading α
  | term => ofHeader Parser.term
  | operation strength => ofHeader (level full.atom strength)
  | atom => ofHeader full.atom
  | number => ofHeader Parser.number
  | chain => ofHeader full.chain
  | segment => ofHeader full.segment
  | ascription => ofHeader full.ascription
  | args => ofHeader full.args
  | typeArg => ofHeader Parser.typeArg
  | typeArgs => ofHeader Parser.typeArgs
  | genericPairs => ofHeader (separated .comma genericParam)
  | genericParams => ofHeader Parser.genericParams
  | guardedGenerics => ofHeader full.guardedGenerics
  | param => ofHeader full.param
  | params => ofHeader full.params
  | valueParams => ofHeader full.valueParams
  | guardedParams => ofHeader full.guardedParams
  | guards => ofHeader full.guards
  | signature => ofHeader full.signature
  | propertyType => ofHeader full.propertyType
  | fnSignature => ofHeader do return (← full.signature, ← Parser.type)
  | fnType => ofHeader full.fnType
  | type => ofHeader Parser.type
  | predication holds => ofHeader (full.predication holds)
  | relational holds => ofHeader (full.relational holds)
  | specificFact => ofHeader full.specificFact
  | universal => ⟨universalHeader, FactHeader.build⟩
  | fact => ⟨factHeader, FactHeader.build⟩
  | facts => ofBody Fact.ofBlocks
  | ifThen => ofBody Fact.ifThen
  | openedFacts => ofOpened Fact.ofBlocks []
  | openedIfThen => ofOpened Fact.ifThen ([], [])
  | varDecl => ofHeader Parser.varDecl
  | fnDecl => ofHeader Parser.fnDecl
  | propertyDecl => ofHeader Parser.propertyDecl
  | decl => ofHeader Parser.decl
  | decls => ofBody Decl.ofBlocks
  | members => ofBody Members.ofBlocks
  | names => ofHeader Parser.names
  | nameLines => ofBody Block.names
  | conceptBody host => ofOpened (ConceptBody.ofBlocks host) {}
  | statementFor k => ⟨headerFor k, Header.build⟩
  | statement => ⟨header, Header.build⟩
  | statements => ofBody Statement.ofBlocks

/-- How many tokens are taken at least: none for what may be absent or stands in the body alone. -/
def least : Target α → ℕ
  | guardedGenerics | guards | facts | ifThen | openedFacts | openedIfThen | decls | members
  | nameLines | conceptBody _ | statements => 0
  | _ => 1

theorem careful (t : Target α) (n : ℕ) : Careful t.least n t.reading.header := by
  cases t with
  | term => exact term_careful
  | operation strength => exact level_careful strength
  | atom => exact (Nested.atom_careful full_careful).pred
  | number => exact number_careful
  | chain => exact (Nested.chain_careful full_careful).pred
  | segment => exact (Nested.segment_careful full_careful).pred
  | ascription => exact (Nested.ascription_careful full_careful).pred
  | args => exact Nested.args_careful full_careful
  | typeArg => exact typeArg_careful
  | typeArgs => exact typeArgs_careful
  | genericPairs => exact genericParam_careful.separated
  | genericParams => exact genericParams_careful
  | guardedGenerics => exact Nested.guardedGenerics_careful full_careful
  | param => exact careful_identifier.bind fun _ => type_careful.weak.bind fun _ => careful_pure _
  | params => exact Nested.params_careful full_careful
  | valueParams => exact Nested.valueParams_careful full_careful
  | guardedParams => exact Nested.guardedParams_careful full_careful
  | guards => exact Nested.guards_careful full_careful
  | signature => exact Nested.signature_careful full_careful
  | propertyType => exact (Nested.propertyType_careful full_careful).pred
  | fnSignature =>
    exact (Nested.signature_careful full_careful).bind fun _ => type_careful.weak.bind fun _ =>
      careful_pure _
  | fnType => exact (Nested.fnType_careful full_careful).pred
  | type => exact type_careful
  | predication holds => exact Nested.predication_careful full_careful holds
  | relational holds => exact Nested.relational_careful full_careful holds
  | specificFact => exact Nested.specificFact_careful full_careful
  | universal => exact universalHeader_careful
  | fact => exact factHeader_careful
  | openedFacts => exact opens_careful
  | openedIfThen => exact opens_careful
  | varDecl => exact varDecl_careful
  | fnDecl => exact fnDecl_careful
  | propertyDecl => exact signedName_careful _
  | decl => exact decl_careful
  | names => exact names_careful
  | conceptBody host => exact opens_careful
  | statementFor k => exact headerFor_careful k
  | statement => exact header_careful
  | facts => exact careful_pure ()
  | ifThen => exact careful_pure ()
  | decls => exact careful_pure ()
  | members => exact careful_pure ()
  | nameLines => exact careful_pure ()
  | statements => exact careful_pure ()

end Target

namespace Cursor

open FactScript.Parser

section Parsers

variable {α η : Type} {c c' : Cursor} {k : ℕ} {p : Parser η} {build : η → Except ParseError α}

def Inside (c : Cursor) : Prop := c.offset ≤ c.block.header.length

def advance (c : Cursor) (k : ℕ) : Cursor := { c with offset := c.offset + k }

theorem length_rest (c : Cursor) : c.rest.length = c.block.header.length - c.offset := by
  rw [rest, Block.lexemes, List.length_drop, List.length_map]

theorem leaving_eq_advance {u rest : List Lexeme} (hc : c.Inside) (h : c.rest = u ++ rest) :
    c.leaving rest = c.advance u.length ∧ (c.advance u.length).Inside := by
  have hlen := c.length_rest
  rw [h, List.length_append] at hlen
  have hc : c.offset ≤ c.block.header.length := hc
  have hoffset : c.block.header.length - rest.length = c.offset + u.length := by omega
  refine ⟨by rw [leaving, hoffset, advance], ?_⟩
  show c.offset + u.length ≤ c.block.header.length
  omega

/-- What a parser takes is taken from every cursor that has it before it, with the same result. -/
theorem run_of_takes {u : List Lexeme} {next : Option Lexeme} (h : Takes k p u next)
    (build : η → Except ParseError α) :
    ∃ r : Except ParseError α, (∀ a, r = .ok a → k ≤ u.length) ∧
      ∀ ⦃c : Cursor⦄ ⦃rest : List Lexeme⦄, c.Inside → c.rest = u ++ rest → rest.head? = next →
        c.run p build = (r, c.advance u.length) := by
  cases h with
  | ok a hk hrun =>
    refine ⟨build a, fun _ _ => hk, fun c rest hc hrest hhead => ?_⟩
    simp only [run, hrest, hrun hhead, (leaving_eq_advance hc hrest).1]
  | error fault _ hrun =>
    refine ⟨.error (.bare fault), fun _ hok => (by cases hok), fun c rest hc hrest hhead => ?_⟩
    simp only [run, hrest, hrun hhead, (leaving_eq_advance hc hrest).1]

/-- The cursor `c'` stands in the same header, not before `c`. -/
structure Moves (c c' : Cursor) : Prop where
  block : c'.block = c.block
  le : c.offset ≤ c'.offset
  inside : c'.Inside

theorem Inside.moves (h : c.Inside) : Moves c c := ⟨rfl, Nat.le_refl _, h⟩

theorem Moves.trans {c'' : Cursor} (h : Moves c c') (h' : Moves c' c'') : Moves c c'' :=
  ⟨h'.block.trans h.block, Nat.le_trans h.le h'.le, h'.inside⟩

/-- A careful parser moves the cursor, on success by `k` tokens at least. -/
theorem moves_run (h : ∀ n, Careful k n p) (hc : c.Inside) (build : η → Except ParseError α) :
    Moves c (c.run p build).2 ∧ ∀ a, (c.run p build).1 = .ok a →
      c.offset + k ≤ (c.run p build).2.offset := by
  obtain ⟨u, rest, hrest, hu⟩ := h _ (Nat.lt_succ_self c.rest.length)
  obtain ⟨r, hk, hrun⟩ := run_of_takes hu build
  rw [hrun hc hrest rfl]
  exact ⟨⟨rfl, Nat.le_add_right _ _, (leaving_eq_advance hc hrest).2⟩,
    fun a ha => Nat.add_le_add_left (hk a ha) _⟩

/-- A list that agrees with `u ++ rest` up to the place after `u` begins with `u` and goes
on alike. -/
theorem exists_append_of_getElem? {u rest ts : List Lexeme}
    (h : ∀ k ≤ u.length, ts[k]? = (u ++ rest)[k]?) :
    ∃ rest', ts = u ++ rest' ∧ rest'.head? = rest.head? := by
  have htake : ts.take u.length = u := by
    refine List.ext_getElem? fun k => ?_
    by_cases hk : k < u.length
    · rw [List.getElem?_take_of_lt hk, h k (Nat.le_of_lt hk), List.getElem?_append_left hk]
    · rw [List.getElem?_eq_none (Nat.le_of_not_lt hk),
        List.getElem?_take_eq_none (Nat.le_of_not_lt hk)]
  refine ⟨ts.drop u.length, ?_, ?_⟩
  · conv_lhs => rw [← List.take_append_drop u.length ts, htake]
  · rw [List.head?_drop, h u.length (Nat.le_refl _), List.getElem?_append_right (Nat.le_refl _),
      Nat.sub_self, List.head?_eq_getElem?]

/-- A careful parser does the same from a cursor at the same place of another header, if the headers
agree from this place up to where the parser stops. -/
theorem run_congr (h : ∀ n, Careful k n p) (hc : c.Inside) (hc' : c'.Inside)
    (hoffset : c'.offset = c.offset)
    (hagree : ∀ i, c.offset ≤ i → i ≤ (c.run p build).2.offset →
      c'.block.lexemes[i]? = c.block.lexemes[i]?) :
    (c'.run p build).1 = (c.run p build).1 ∧
      (c'.run p build).2.offset = (c.run p build).2.offset := by
  obtain ⟨u, rest, hrest, hu⟩ := h _ (Nat.lt_succ_self c.rest.length)
  obtain ⟨r, -, hrun⟩ := run_of_takes hu build
  rw [hrun hc hrest rfl] at hagree ⊢
  have hshared : ∀ i ≤ u.length, c'.rest[i]? = (u ++ rest)[i]? := by
    intro i hi
    rw [← hrest, Cursor.rest, Cursor.rest, List.getElem?_drop, List.getElem?_drop, hoffset]
    exact hagree _ (Nat.le_add_right _ _) (Nat.add_le_add_left hi _)
  obtain ⟨rest', hrest', hhead⟩ := exists_append_of_getElem? hshared
  rw [hrun hc' hrest' hhead]
  exact ⟨rfl, by rw [advance, advance, hoffset]⟩

end Parsers

section Operations

variable {α : Type} {c : Cursor}

def current (c : Cursor) : Except ParseError Token :=
  match c.peek? 0 with
  | some t => .ok t
  | none => .error (.bare .unexpectedEnd)

inductive Operation : Type → Type 1
  | block : Operation Block
  | offset : Operation ℕ
  | isAtEnd : Operation Bool
  | current : Operation Token
  | peek (n : ℕ) : Operation (Option Token)
  | next : Operation Token
  | bump : Operation Unit
  | isAt (l : Lexeme) : Operation Bool
  | skip (l : Lexeme) : Operation Bool
  | expect (l : Lexeme) : Operation Unit
  | identifier : Operation String
  | atEnd : Operation Unit
  | expected (what : String) : Operation ParseError
  | wrap (e : ParseError) : Operation ParseError
  | read {β : Type} (t : Target β) : Operation β

def read (c : Cursor) (t : Target α) : Except ParseError α × Cursor :=
  c.run t.reading.header (t.reading.build c.block.body)

/-- The outcome of an operation, and the cursor where it is left, be the outcome a success or an
error. -/
def step (c : Cursor) : Operation α → Except ParseError α × Cursor
  | .block => (.ok c.block, c)
  | .offset => (.ok c.offset, c)
  | .isAtEnd => (.ok c.isAtEnd, c)
  | .current => (c.current, c)
  | .peek n => (.ok (c.peek? n), c)
  | .next => c.run Parser.next fun _ => c.current
  | .bump => c.run Parser.next fun _ => .ok ()
  | .isAt l => c.run (at_ l) .ok
  | .skip l => c.run (skip l) .ok
  | .expect l => c.run (expect l) .ok
  | .identifier => c.run identifier .ok
  | .atEnd => c.run atEnd .ok
  | .expected what => (.ok (.bare (.expected what c.rest)), c)
  | .wrap e => (.ok (c.wrap e), c)
  | .read t => c.read t

def after (c : Cursor) (ops : List (Sigma Operation)) : Cursor :=
  ops.foldl (fun c op => (c.step op.2).2) c

theorem moves_step (hc : c.Inside) (op : Operation α) : Moves c (c.step op).2 := by
  cases op with
  | next => exact (moves_run (fun _ => careful_next) hc _).1
  | bump => exact (moves_run (fun _ => careful_next) hc _).1
  | isAt l => exact (moves_run (fun _ => careful_at l) hc _).1
  | skip l => exact (moves_run (fun _ => careful_skip) hc _).1
  | expect l => exact (moves_run (fun _ => careful_expect l) hc _).1
  | identifier => exact (moves_run (fun _ => careful_identifier) hc _).1
  | atEnd => exact (moves_run (fun _ => careful_atEnd) hc _).1
  | read t => exact (moves_run t.careful hc _).1
  | _ => exact hc.moves

theorem moves_after (hc : c.Inside) (ops : List (Sigma Operation)) : Moves c (c.after ops) := by
  induction ops generalizing c with
  | nil => exact hc.moves
  | cons op ops ih =>
    have hstep := moves_step hc op.2
    exact hstep.trans (ih hstep.inside)

/-- The cursor has come to where it stands by operations on this block. -/
def Reached (b : Block) (c : Cursor) : Prop := ∃ ops, c = (ofBlock b).after ops

theorem Reached.moves {b : Block} (h : Reached b c) : Moves (ofBlock b) c := by
  obtain ⟨ops, rfl⟩ := h
  exact moves_after (Nat.zero_le _) ops

/-- A cursor stays inside the header and does not go back, whatever is done. Reading takes at least
as many tokens as are needed, if it succeeds. Whether or not it does, it looks no further than at
the first token that it does not take. -/
theorem Reached.disciplined {b : Block} (h : Reached b c) :
    c.block = b ∧ c.offset ≤ b.header.length ∧ (∀ ops, c.offset ≤ (c.after ops).offset) ∧
      ∀ {α : Type} (t : Target α),
        (∀ a, (c.read t).1 = .ok a → c.offset + t.least ≤ (c.read t).2.offset) ∧
        ∀ {b' : Block} {c' : Cursor}, Reached b' c' → b'.body = b.body → c'.offset = c.offset →
          (∀ i, c.offset ≤ i → i ≤ (c.read t).2.offset → b'.lexemes[i]? = b.lexemes[i]?) →
          (c'.read t).1 = (c.read t).1 ∧ (c'.read t).2.offset = (c.read t).2.offset := by
  have hmoves := h.moves
  have hblock : c.block = b := hmoves.block
  refine ⟨hblock, hblock ▸ hmoves.inside, fun ops => (moves_after hmoves.inside ops).le,
    fun t => ?_⟩
  refine ⟨(moves_run t.careful hmoves.inside _).2, fun {b' c'} h' hbody hoffset hagree => ?_⟩
  have hmoves' := h'.moves
  have hblock' : c'.block = b' := hmoves'.block
  subst hblock hblock'
  rw [read, hbody]
  exact run_congr t.careful hmoves.inside hmoves'.inside hoffset hagree

/-- Reading a term fails after three tokens, a comma is skipped, and a universal fact is read where
this has left the cursor. It is read alike in a line that begins and ends otherwise. -/
theorem Reached.disciplined_resumed : ∃ b b' : Block, ∃ c c' : Cursor,
    b.lexemes = [.identifier "f", .symbol .lparen, .number "007", .symbol .comma,
      .keyword .forallKw, .identifier "x", .identifier "T", .symbol .colon, .symbol .dot] ∧
    b'.lexemes = [.keyword .pub, .symbol .plus, .identifier "g", .symbol .dot, .keyword .forallKw,
      .identifier "x", .identifier "T", .symbol .colon, .symbol .dot, .number "5"] ∧
    c = (ofBlock b).after [⟨_, .read .term⟩, ⟨_, .skip (.symbol .comma)⟩] ∧
    c' = (ofBlock b').after
      [⟨_, .bump⟩, ⟨_, .next⟩, ⟨_, .identifier⟩, ⟨_, .expect (.symbol .dot)⟩] ∧
    c.offset = 4 ∧ (c.read .universal).2.offset = 8 ∧
    c.offset + 1 ≤ (c.read .universal).2.offset ∧ (c'.read .universal).1 =
      .ok (.universal [] [⟨"x", .named "T"⟩] [] [.relational true .eq [.atom "x", .atom "x"]]) ∧
    (c'.read .universal).2.offset = 8 := by
  let body : List Skeleton := [⟨[.identifier "x", .symbol .eq, .identifier "x"], []⟩]
  let b := Skeleton.block ⟨[.identifier "f", .symbol .lparen, .number "007", .symbol .comma,
    .keyword .forallKw, .identifier "x", .identifier "T", .symbol .colon, .symbol .dot], body⟩
  let b' := Skeleton.block ⟨[.keyword .pub, .symbol .plus, .identifier "g", .symbol .dot,
    .keyword .forallKw, .identifier "x", .identifier "T", .symbol .colon, .symbol .dot,
    .number "5"], body⟩
  have hc : Reached b ((ofBlock b).after [⟨_, .read .term⟩, ⟨_, .skip (.symbol .comma)⟩]) :=
    ⟨_, rfl⟩
  have hc' : Reached b' ((ofBlock b').after
      [⟨_, .bump⟩, ⟨_, .next⟩, ⟨_, .identifier⟩, ⟨_, .expect (.symbol .dot)⟩]) := ⟨_, rfl⟩
  obtain ⟨-, -, -, hread⟩ := hc.disciplined
  obtain ⟨hleast, hlocal⟩ := hread .universal
  obtain ⟨hresult, hoffset⟩ := hlocal hc' rfl rfl fun i hi hle => by
    have hle : i ≤ 8 := hle
    obtain rfl | rfl | rfl | rfl | rfl : i = 4 ∨ i = 5 ∨ i = 6 ∨ i = 7 ∨ i = 8 := by
      have hi : 4 ≤ i := hi
      omega
    all_goals rfl
  exact ⟨b, b', _, _, rfl, rfl, rfl, rfl, rfl, rfl, hleast _ rfl, hresult, hoffset⟩

end Operations

end Cursor

end FactScript
