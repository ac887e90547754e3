import FactScript.Proofs.Lookahead
import FactScript.Proofs.Spacing
import FactScript.Proofs.WellFormed
import FactScript.Statement.Printer

/-!
Printing is an inverse of reading: what is well formed is printed as a phrase that means it. An
operation is printed in parentheses, so a printed term is an atom wherever it stands.
-/
namespace FactScript

open Piece

/-- The pieces make up a phrase that means `a`, and a symbol or a space may follow. -/
structure Prints [Alphabet] (p : Phrase) (ps : List Piece) (a : p.Meaning) : Prop where
  reads : Reads p (lexemes ps) a
  closed : Sealed ps

structure Separator [Alphabet] (s : Symbol) (sep : List Piece) : Prop where
  lexemes_eq : lexemes sep = [.symbol s]
  closed {ps qs : List Piece} : Sealed ps → Sealed qs → Sealed (ps ++ (sep ++ qs))

namespace Separator

variable [Alphabet]

theorem comma : Separator .comma [sym .comma, space] where
  lexemes_eq := rfl
  closed hp hq := by simp [hp, hq, apart, Symbol.isPunctuation]

theorem dot : Separator .dot [sym .dot] where
  lexemes_eq := rfl
  closed hp hq := by simp [hp, hq, apart, Symbol.isPunctuation]

theorem spaced (s : Symbol) : Separator s [space, sym s, space] where
  lexemes_eq := rfl
  closed hp hq := by simp [hp, hq, apart, isClosed]

end Separator

theorem Piece.joined_cons_cons (sep part next : List Piece) (parts : List (List Piece)) :
    joined sep (part :: next :: parts) = part ++ (sep ++ joined sep (next :: parts)) := by
  simp [joined, List.intercalate]

theorem Piece.joined_concat {sep : List Piece} {parts : List (List Piece)} (hne : parts ≠ [])
    (last : List Piece) : joined sep (parts ++ [last]) = joined sep parts ++ (sep ++ last) := by
  induction parts with
  | nil => exact absurd rfl hne
  | cons part parts ih =>
    cases parts with
    | nil => simp [joined, List.intercalate]
    | cons next parts =>
      have hrest := ih (by simp)
      rw [List.cons_append] at hrest ⊢
      rw [List.cons_append, joined_cons_cons, hrest, joined_cons_cons, List.append_assoc,
        List.append_assoc]

namespace Prints

theorem separated [Alphabet] {s : Symbol} {p : Phrase} {sep : List Piece} (hsep : Separator s sep)
    {f : p.Meaning → List Piece} {as : List p.Meaning} (hne : as ≠ [])
    (h : ∀ a ∈ as, Prints p (f a) a) :
    Prints (.separated s p) (joined sep (as.map f)) as := by
  induction as with
  | nil => exact absurd rfl hne
  | cons a as ih =>
    obtain ⟨ha, has⟩ := List.forall_mem_cons.mp h
    cases as with
    | nil => exact ⟨by simpa [joined] using .one ha.reads, by simpa [joined] using ha.closed⟩
    | cons b bs =>
      have hrest := ih (by simp) has
      rw [List.map_cons, List.map_cons, joined_cons_cons]
      refine ⟨?_, hsep.closed ha.closed hrest.closed⟩
      rw [lexemes_append, lexemes_append, hsep.lexemes_eq]
      exact .more ha.reads hrest.reads

theorem commaSeparated [Alphabet] {p : Phrase} {f : p.Meaning → List Piece} {as : List p.Meaning}
    (hne : as ≠ []) (h : ∀ a ∈ as, Prints p (f a) a) :
    Prints (.separated .comma p) (commaJoined (as.map f)) as :=
  separated .comma hne h

theorem name [Alphabet] {n : String} (h : Text.isName n = true) : Prints .name [ident n] n :=
  ⟨.name n, by simp [h, apart, isBreak, Lexeme.Spelled]⟩

theorem typeArg [Alphabet] {a : TypeArg} (h : a.WellFormed) : Prints .typeArg a.pieces a := by
  cases a with
  | plain n => exact ⟨.plainTypeArg n, (name h).closed⟩
  | ascribed n c =>
    obtain ⟨hn, hc⟩ := h
    refine ⟨.ascribedTypeArg n c, ?_⟩
    simp [TypeArg.pieces, hn, hc, apart, isBreak, Symbol.isPunctuation, Lexeme.Spelled]

theorem genericParam [Alphabet] {g : GenericParam} (h : g.WellFormed) :
    Prints .genericParam g.pieces g := by
  obtain ⟨hn, hc⟩ := h
  refine ⟨.genericParam g.name g.concept, ?_⟩
  simp [GenericParam.pieces, hn, hc, apart, isBreak, Lexeme.Spelled]

theorem bracketed_map {α : Type} {f : α → List Piece} {as : List α} (hne : as ≠ []) :
    bracketed (as.map f) = sym .lbracket :: (commaJoined (as.map f) ++ [sym .rbracket]) := by
  cases as with
  | nil => exact absurd rfl hne
  | cons a as => rfl

variable [Alphabet]

theorem typeArgs {as : List TypeArg} (hne : as ≠ []) (h : ∀ a ∈ as, a.WellFormed) :
    Prints .typeArgs (bracketed (as.map TypeArg.pieces)) as := by
  have hjoined :=
    commaSeparated (p := .typeArg) (f := TypeArg.pieces) hne fun a ha => typeArg (h a ha)
  rw [bracketed_map hne]
  refine ⟨by simpa using Reads.typeArgs hjoined.reads, ?_⟩
  simp [hjoined.closed, apart, Symbol.isPunctuation]

theorem generics {gs : List GenericParam} (h : ∀ g ∈ gs, g.WellFormed) :
    Prints .generics (bracketed (gs.map GenericParam.pieces)) (gs, []) := by
  by_cases hne : gs = []
  · subst hne
    exact ⟨.noGenerics, sealed_nil⟩
  · have hjoined := commaSeparated (p := .genericParam) (f := GenericParam.pieces) hne
      fun g hg => genericParam (h g hg)
    rw [bracketed_map hne]
    refine ⟨by simpa using Reads.someGenerics hjoined.reads .noGuards, ?_⟩
    simp [hjoined.closed, apart, Symbol.isPunctuation]

theorem args {ts : List Term} (h : ∀ t ∈ ts, Prints .sum t.pieces t) :
    Prints .args (parenthesized (ts.map Term.pieces)) ts := by
  by_cases hne : ts = []
  · subst hne
    exact ⟨.noArgs, by simp [parenthesized, commaJoined, joined, apart, Symbol.isPunctuation]⟩
  · have hjoined := commaSeparated (p := .sum) (f := Term.pieces) hne h
    refine ⟨by simpa [parenthesized] using Reads.someArgs hjoined.reads, ?_⟩
    simp [parenthesized, hjoined.closed, apart, Symbol.isPunctuation]

end Prints

theorem Term.piecesOfAll_eq_map (ts : List Term) : Term.piecesOfAll ts = ts.map Term.pieces := by
  induction ts with
  | nil => rfl
  | cons t ts ih => rw [Term.piecesOfAll, ih, List.map_cons]

theorem Param.piecesOfAll_eq_map (ps : List Param) :
    Param.piecesOfAll ps = ps.map Param.pieces := by
  induction ps with
  | nil => rfl
  | cons p ps ih => rw [Param.piecesOfAll, ih, List.map_cons]

theorem Fact.piecesOfAll_eq_map (fs : List Fact) : Fact.piecesOfAll fs = fs.map Fact.pieces := by
  induction fs with
  | nil => rfl
  | cons f fs ih => rw [Fact.piecesOfAll, ih, List.map_cons]

def Call.argumentPieces (typeArgs : List TypeArg) (args : List Term) : List Piece :=
  bracketed (typeArgs.map TypeArg.pieces) ++ parenthesized (args.map Term.pieces)

theorem Call.pieces_eq {callee : Term} {typeArgs : List TypeArg} (args : List Term)
    (h : callee.operator? typeArgs = none) :
    Call.pieces ⟨callee, typeArgs, args⟩ = callee.pieces ++ argumentPieces typeArgs args := by
  rw [Call.pieces, h, Term.piecesOfAll_eq_map, Call.assemble, argumentPieces, List.append_assoc]
  all_goals nofun

section Arguments

variable {typeArgs : List TypeArg} {args : List Term}

theorem Call.argumentPieces_closed [Alphabet] (htypeArgs : ∀ a ∈ typeArgs, a.WellFormed)
    (hargs : ∀ t ∈ args, Prints .sum t.pieces t) : Sealed (argumentPieces typeArgs args) := by
  have hclosed := (Prints.args hargs).closed
  by_cases hne : typeArgs = []
  · subst hne
    exact hclosed
  · exact (Prints.typeArgs hne htypeArgs).closed.append hclosed (by simp [parenthesized, isBreak])

theorem Call.isBreak_argumentPieces :
    ∀ y ∈ (argumentPieces typeArgs args).head?, y.isBreak = true := by
  by_cases hne : typeArgs = []
  · subst hne
    simp [argumentPieces, bracketed, parenthesized, isBreak]
  · simp [argumentPieces, Prints.bracketed_map hne, isBreak]

theorem Call.argumentPieces_reads [Alphabet] (htypeArgs : ∀ a ∈ typeArgs, a.WellFormed)
    (hargs : ∀ t ∈ args, Prints .sum t.pieces t) {v : List Lexeme}
    {l : List (List TypeArg × List Term)} (hv : Reads .applications v l) :
    Reads .applications (lexemes (argumentPieces typeArgs args) ++ v) ((typeArgs, args) :: l) := by
  have hreads := (Prints.args hargs).reads
  by_cases hne : typeArgs = []
  · subst hne
    exact .valueApplication hreads hv
  · rw [argumentPieces, lexemes_append]
    exact .fullApplication (Prints.typeArgs hne htypeArgs).reads hreads hv

end Arguments

/-- A segment is printed such that it may be applied further. -/
structure PrintsSegment [Alphabet] (t : Term) : Prop where
  reads {v : List Lexeme} {l : List (List TypeArg × List Term)} : Reads .applications v l →
    Reads .segment (lexemes t.pieces ++ v) (t.applied l)
  closed : Sealed t.pieces
  leads : Leads t.pieces

namespace PrintsSegment

variable [Alphabet]

theorem prints {t : Term} (h : PrintsSegment t) : Prints .segment t.pieces t :=
  ⟨by simpa [Term.applied] using h.reads .noApplications, h.closed⟩

theorem atom {n : String} (h : Text.isName n = true) : PrintsSegment (.atom n) where
  reads hv := .segment hv
  closed := (Prints.name h).closed
  leads := leads_cons _ _

theorem call {callee : Term} {typeArgs : List TypeArg} {args : List Term}
    (hcallee : PrintsSegment callee) (hop : callee.operator? typeArgs = none)
    (htypeArgs : ∀ a ∈ typeArgs, a.WellFormed) (hargs : ∀ t ∈ args, Prints .sum t.pieces t) :
    PrintsSegment (.call ⟨callee, typeArgs, args⟩) where
  reads hv := by
    rw [Term.pieces, Call.pieces_eq args hop, lexemes_append, List.append_assoc]
    exact hcallee.reads (Call.argumentPieces_reads htypeArgs hargs hv)
  closed := by
    rw [Term.pieces, Call.pieces_eq args hop]
    exact hcallee.closed.append (Call.argumentPieces_closed htypeArgs hargs)
      Call.isBreak_argumentPieces
  leads := by
    rw [Term.pieces, Call.pieces_eq args hop]
    exact hcallee.leads.append _

end PrintsSegment

/-! Terms. -/

section Operators

variable {u v : List Lexeme} {t t' : Term}

theorem Reads.product_of_atom (h : Reads .atom u t) : Reads .product u t :=
  .factor (.unsigned (.base h))

theorem Reads.sum_of_atom (h : Reads .atom u t) : Reads .sum u t := .summand h.product_of_atom

/-- An operation between atoms, whatever the operator. -/
theorem Reads.operation {op : Symbol} (hop : op ∈ Term.operators) (h : Reads .atom u t)
    (h' : Reads .atom v t') : Reads .sum (u ++ .symbol op :: v) (.apply op [t, t']) := by
  simp only [Term.operators, List.mem_cons, List.not_mem_nil, or_false] at hop
  rcases hop with rfl | rfl | rfl | rfl | rfl
  · exact .addition .plus (.inl rfl) h.sum_of_atom h'.product_of_atom
  · exact .addition .minus (.inr rfl) h.sum_of_atom h'.product_of_atom
  · exact .summand (.multiplication .star (.inl rfl) h.product_of_atom (.unsigned (.base h')))
  · exact .summand (.multiplication .slash (.inr rfl) h.product_of_atom (.unsigned (.base h')))
  · exact .summand (.factor (.unsigned (.exponentiation h (.base h'))))

end Operators

theorem Term.pieces_operation {op : Symbol} {l r : Term} (hop : op ∈ Term.operators) :
    (Term.apply op [l, r]).pieces =
      sym .lparen :: (l.pieces ++ space :: sym op :: space :: (r.pieces ++ [sym .rparen])) := by
  simp [Term.apply, Term.pieces, Call.pieces, Term.operator?_of_mem hop, Term.piecesOfAll,
    Call.assemble]

theorem Term.pieces_negation (t : Term) :
    (Term.apply .minus [t]).pieces = sym .lparen :: (sym .minus :: t.pieces ++ [sym .rparen]) := by
  have hop : .minus ∈ Term.operators := by decide
  simp [Term.apply, Term.pieces, Call.pieces, Term.operator?_of_mem hop, Term.piecesOfAll,
    Call.assemble]

theorem Piece.numeral_whole {digits : String} (h : Text.isDigits digits = true) :
    numeral digits = [.lexeme (.number digits)] := by
  simp [numeral, Text.cut_of_notMem (Text.dot_notMem_digits h)]

theorem Piece.numeral_fraction {whole fraction : String} (hw : Text.isDigits whole = true)
    (hf : Text.isDigits fraction = true) : numeral (whole ++ "." ++ fraction) =
      [.lexeme (.number whole), sym .dot, .lexeme (.number fraction)] := by
  simp [numeral, Text.cut_append (Text.dot_notMem_digits hw),
    Text.cut_of_notMem (Text.dot_notMem_digits hf)]

namespace Prints

variable [Alphabet] {ps : List Piece} {t : Term}

theorem sum (h : Prints .atom ps t) : Prints .sum ps t := ⟨h.reads.sum_of_atom, h.closed⟩

theorem minus_closed (h : Prints .atom ps t) : Sealed (sym .minus :: ps) := by
  refine sealed_cons.mpr ⟨by simp, ?_, h.closed⟩
  have hbegun := h.reads.begun
  match ps with
  | [] => exact absurd hbegun (by simp [Phrase.Begun, Phrase.isOptional])
  | space :: ps => simp [apart, isClosed]
  | .lexeme (.symbol s) :: ps =>
    have hs : s = .lparen := by
      cases s <;> simp_all [Phrase.Begun, Phrase.begins, Phrase.beginsAtom]
    simp [hs, apart, isClosed, Symbol.isPunctuation]
  | .lexeme (.keyword _) :: ps | .lexeme (.identifier _) :: ps | .lexeme (.number _) :: ps =>
    simp [apart, isClosed]

theorem segment (h : PrintsSegment t) : Prints .atom t.pieces t :=
  ⟨.chainAtom (.soleSegment h.prints.reads), h.closed⟩

theorem chain {parts : List Term} (hlen : 2 ≤ parts.length) (h : ∀ t ∈ parts, PrintsSegment t) :
    Prints .atom (Term.chain parts).pieces (.chain parts) := by
  have hne : parts ≠ [] := List.ne_nil_of_length_pos (by omega)
  have hjoined := separated (p := .segment) (f := Term.pieces) .dot hne fun t ht => (h t ht).prints
  rw [Term.pieces, Term.piecesOfAll_eq_map]
  exact ⟨.chainAtom (.dotted hjoined.reads hlen), hjoined.closed⟩

theorem number {text : String} (h : Numeral text) :
    Prints .atom (Term.number text).pieces (.number text) := by
  rw [Term.pieces]
  cases h with
  | whole hw =>
    rw [numeral_whole hw.digits]
    exact ⟨.whole hw, by simp [Lexeme.Spelled, hw.digits, apart, isBreak]⟩
  | fraction hw hf =>
    rw [numeral_fraction hw.digits hf.digits]
    refine ⟨.fraction hw hf, ?_⟩
    simp [Lexeme.Spelled, hw.digits, hf.digits, apart, isBreak, Symbol.isPunctuation]

theorem operation {op : Symbol} {l r : Term} (hop : op ∈ Term.operators)
    (hl : Prints .atom l.pieces l) (hr : Prints .atom r.pieces r) :
    Prints .atom (Term.apply op [l, r]).pieces (.apply op [l, r]) := by
  rw [Term.pieces_operation hop]
  refine ⟨by simpa using Reads.parenthesized (Reads.operation hop hl.reads hr.reads), ?_⟩
  simp [hl.closed, hr.closed, apart, isClosed, Symbol.isPunctuation]

theorem negation (h : Prints .atom t.pieces t) :
    Prints .atom (Term.apply .minus [t]).pieces (.apply .minus [t]) := by
  rw [Term.pieces_negation]
  have hreads := Reads.parenthesized (.summand (.factor (.negation (.base h.reads))))
  refine ⟨by simpa using hreads, ?_⟩
  have hclosed :=
    (sealed_append_symbol h.minus_closed).mpr (sealed_nil.punctuation_cons (s := .rparen) rfl)
  exact hclosed.punctuation_cons rfl

end Prints

/-! Signatures and types. -/

def Signature.guardPieces (params : List Param) (guards : List Fact) : List Piece :=
  if guards.isEmpty then []
  else (if params.isEmpty then [] else [space]) ++ [sym .colonColon, space] ++
    commaJoined (guards.map Fact.pieces)

theorem Signature.pieces_eq (gs : List GenericParam) (ps : List Param) (fs : List Fact) :
    Signature.pieces ⟨gs, ps, fs⟩ = bracketed (gs.map GenericParam.pieces) ++
      sym .lparen :: (commaJoined (ps.map Param.pieces) ++
        (guardPieces ps fs ++ [sym .rparen])) := by
  simp [Signature.pieces, Signature.assemble, Param.piecesOfAll_eq_map, Fact.piecesOfAll_eq_map,
    guardPieces]

theorem Signature.isBreak_pieces (s : Signature) : ∀ y ∈ s.pieces.head?, y.isBreak = true := by
  obtain ⟨gs, ps, fs⟩ := s
  rw [Signature.pieces_eq]
  by_cases hgs : gs = []
  · simp [hgs, bracketed, isBreak]
  · simp [Prints.bracketed_map hgs, isBreak]

variable [Alphabet]

namespace Prints

theorem guards (ps : List Param) {fs : List Fact} (h : ∀ f ∈ fs, Prints .specific f.pieces f) :
    Reads .guards (lexemes (Signature.guardPieces ps fs)) fs ∧
      Sealed (Signature.guardPieces ps fs ++ [sym .rparen]) ∧
      ∀ y ∈ (Signature.guardPieces ps fs).head?, y.isBreak = true := by
  by_cases hfs : fs = []
  · subst hfs
    exact ⟨.noGuards, by simp [Signature.guardPieces, apart, Symbol.isPunctuation], nofun⟩
  · have hjoined := commaSeparated (p := .specific) (f := Fact.pieces) hfs h
    refine ⟨?_, ?_, ?_⟩
    · simpa [Signature.guardPieces, hfs, apply_ite lexemes] using Reads.someGuards hjoined.reads
    · by_cases hps : ps = [] <;>
        simp [Signature.guardPieces, hfs, hps, hjoined.closed, apart, isClosed,
          Symbol.isPunctuation]
    · by_cases hps : ps = [] <;> simp [Signature.guardPieces, hfs, hps, isBreak]

theorem valueParams {ps : List Param} {fs : List Fact} (hps : ∀ p ∈ ps, Prints .param p.pieces p)
    (hfs : ∀ f ∈ fs, Prints .specific f.pieces f) :
    Prints .valueParams
      (sym .lparen :: (commaJoined (ps.map Param.pieces) ++
        (Signature.guardPieces ps fs ++ [sym .rparen]))) (ps, fs) := by
  obtain ⟨hguards, hclosed, hbreak⟩ := guards ps hfs
  by_cases hne : ps = []
  · subst hne
    have hreads := Reads.noParams hguards
    refine ⟨by simpa [commaJoined, joined] using hreads, ?_⟩
    simp [commaJoined, joined, apart, Symbol.isPunctuation, hclosed]
  · have hjoined := commaSeparated (p := .param) (f := Param.pieces) hne hps
    have hbreak' :
        ∀ y ∈ (Signature.guardPieces ps fs ++ [sym .rparen]).head?, y.isBreak = true := by
      cases hg : Signature.guardPieces ps fs with
      | nil => simp [isBreak]
      | cons x xs => simpa [hg] using hbreak
    refine ⟨by simpa using Reads.someParams hjoined.reads hguards, ?_⟩
    exact (hjoined.closed.append hclosed hbreak').punctuation_cons rfl

theorem signature {gs : List GenericParam} {ps : List Param} {fs : List Fact}
    (hgs : ∀ g ∈ gs, g.WellFormed) (hps : ∀ p ∈ ps, Prints .param p.pieces p)
    (hfs : ∀ f ∈ fs, Prints .specific f.pieces f) :
    Prints .signature (Signature.pieces ⟨gs, ps, fs⟩) ⟨gs, ps, fs⟩ := by
  have hgenerics := generics hgs
  have hparams := valueParams hps hfs
  rw [Signature.pieces_eq]
  refine ⟨?_, hgenerics.closed.append hparams.closed (by simp [isBreak])⟩
  rw [lexemes_append]
  exact .signature hgenerics.reads hparams.reads

theorem signed_closed {k : Keyword} {s : Signature} (h : Prints .signature s.pieces s) :
    Sealed (kw k :: s.pieces) :=
  h.closed.word_cons rfl trivial s.isBreak_pieces

theorem param {n : String} {t : Ty} (hn : Text.isName n = true) (h : Prints .type t.pieces t) :
    Prints .param (Param.pieces ⟨n, t⟩) ⟨n, t⟩ := by
  rw [Param.pieces]
  exact ⟨.param h.reads, by simp [Lexeme.Spelled, hn, apart, isBreak, h.closed]⟩

theorem fnType {s : Signature} {r : Ty} (hs : Prints .signature s.pieces s)
    (hr : Prints .type r.pieces r) :
    Prints .type (Ty.fn s r).pieces (.fn s r) := by
  have hpieces : (Ty.fn s r).pieces = (kw .fn :: s.pieces) ++ space :: r.pieces := by
    simp [Ty.pieces]
  rw [hpieces]
  exact ⟨by simpa using Reads.fnType hs.reads hr.reads,
    (sealed_append_space hs.signed_closed).mpr hr.closed⟩

theorem propertyType {s : Signature} (h : Prints .signature s.pieces s) :
    Prints .type (Ty.property s).pieces (.property s) :=
  ⟨.propertyType h.reads, h.signed_closed⟩

theorem placeholder (k : Placeholder) : Prints .type (Ty.placeholder k).pieces (.placeholder k) :=
  ⟨.placeholder k, by simp [Ty.pieces, apart, isBreak, Symbol.isPunctuation]⟩

theorem ascribed {t : Term} {s : Signature} (ht : Prints .atom t.pieces t)
    (hs : Prints .signature s.pieces s) :
    Prints .atom (Term.ascribed t s).pieces (.ascribed t s) := by
  have hpieces : (Term.ascribed t s).pieces = kw .as :: sym .lparen ::
      (t.pieces ++ sym .comma :: space :: ((kw .property :: s.pieces) ++ [sym .rparen])) := by
    simp [Term.pieces]
  rw [hpieces]
  refine ⟨by simpa using Reads.ascription ht.sum.reads hs.reads, ?_⟩
  have hsignature : Sealed ((kw .property :: s.pieces) ++ [sym .rparen]) :=
    (sealed_append_symbol hs.signed_closed).mpr (sealed_nil.punctuation_cons rfl)
  have hbody := (Separator.comma.closed ht.closed hsignature).punctuation_cons (s := .lparen) rfl
  exact hbody.word_cons rfl trivial (by simp [isBreak])

/-! Facts. -/

theorem denied {ps : List Piece} {c : Call} {holds : Bool}
    (h : Prints .specific ps (.property true c)) :
    Prints .specific (denial holds ++ ps) (.property holds c) := by
  cases holds with
  | true => exact h
  | false => exact ⟨.deniedProperty h.reads, by simp [denial, apart, isBreak, h.closed]⟩

theorem deniedRelation {ps : List Piece} {s : Symbol} {ts : List Term} {holds : Bool}
    (h : Prints .specific ps (.relational true s ts)) :
    Prints .specific (denial holds ++ ps) (.relational holds s ts) := by
  cases holds with
  | true => exact h
  | false => exact ⟨.deniedRelation h.reads, by simp [denial, apart, isBreak, h.closed]⟩

theorem relational {s : Symbol} {ts : List Term} (holds : Bool) (hs : s.isRelational = true)
    (hlen : 2 ≤ ts.length) (h : ∀ t ∈ ts, Prints .atom t.pieces t) :
    Prints .specific (Fact.relational holds s ts).pieces (.relational holds s ts) := by
  have hne : ts ≠ [] := List.ne_nil_of_length_pos (by omega)
  have hjoined := separated (p := .sum) (f := Term.pieces) (.spaced s) hne fun t ht => (h t ht).sum
  rw [Fact.pieces, Term.piecesOfAll_eq_map]
  exact deniedRelation ⟨.relation s hs hjoined.reads hlen, hjoined.closed⟩

theorem property {c : Call} (holds : Bool) (h : Prints .predicate c.pieces c) :
    Prints .specific (Fact.property holds c).pieces (.property holds c) := by
  rw [Fact.pieces, List.append_assoc]
  exact denied ⟨.predication h.reads, h.closed.punctuation_cons rfl⟩

theorem predicate {callee : Term} {typeArgs : List TypeArg} {args : List Term}
    (h : PrintsSegment callee) (hop : callee.operator? typeArgs = none)
    (htypeArgs : ∀ a ∈ typeArgs, a.WellFormed) (hargs : ∀ t ∈ args, Prints .sum t.pieces t) :
    Prints .predicate (Call.pieces ⟨callee, typeArgs, args⟩) ⟨callee, typeArgs, args⟩ := by
  have hcall := (h.call hop htypeArgs hargs).prints
  exact ⟨.solePredicate hcall.reads, hcall.closed⟩

/-- The last segment of a chain takes the arguments. -/
theorem chainPredicate {parts : List Term} {typeArgs : List TypeArg} {args : List Term}
    (hlen : 2 ≤ parts.length) (h : ∀ t ∈ parts, PrintsSegment t)
    (htypeArgs : ∀ a ∈ typeArgs, a.WellFormed) (hargs : ∀ t ∈ args, Prints .sum t.pieces t) :
    Prints .predicate (Call.pieces ⟨.chain parts, typeArgs, args⟩)
      ⟨.chain parts, typeArgs, args⟩ := by
  have hchain := Prints.chain hlen h
  rw [Call.pieces_eq args rfl]
  have harguments := Call.argumentPieces_closed htypeArgs hargs
  refine ⟨?_, hchain.closed.append harguments Call.isBreak_argumentPieces⟩
  obtain ⟨ts, t, rfl⟩ : ∃ ts t, parts = ts ++ [t] := by
    rcases List.eq_nil_or_concat parts with rfl | ⟨ts, t, rfl⟩
    · simp at hlen
    · exact ⟨ts, t, List.concat_eq_append⟩
  have hne : ts ≠ [] := by
    rintro rfl
    simp at hlen
  obtain ⟨hts, ht⟩ := List.forall_mem_append.mp h
  have hjoined :=
    separated (p := .segment) (f := Term.pieces) .dot hne fun t ht => (hts t ht).prints
  have hlast := (ht t (by simp)).reads (Call.argumentPieces_reads htypeArgs hargs .noApplications)
  have hpieces : (Term.chain (ts ++ [t])).pieces =
      joined [sym .dot] (ts.map Term.pieces) ++ sym .dot :: t.pieces := by
    rw [Term.pieces, Term.piecesOfAll_eq_map, List.map_append]
    exact joined_concat (by simpa using hne) t.pieces
  rw [List.append_nil] at hlast
  rw [hpieces]
  simpa using Reads.dottedPredicate hjoined.reads hlast

end Prints

/-! Whatever is well formed is printed as a phrase that means it. -/

mutual

theorem Term.Segment.prints : ∀ {t : Term}, t.Segment → PrintsSegment t
  | _, .atom h => .atom h
  | _, .call hcallee htypeArgs hargs =>
    (Term.Segment.prints hcallee).call (hcallee.operator?_eq_none _) htypeArgs
      fun t ht => (Term.WellFormed.prints (hargs t ht)).sum

theorem Term.WellFormed.prints : ∀ {t : Term}, t.WellFormed → Prints .atom t.pieces t
  | _, .segment h => .segment (Term.Segment.prints h)
  | _, .chain hlen h => .chain hlen fun t ht => Term.Segment.prints (h t ht)
  | _, .number h => .number h
  | _, .ascribed ht hs => .ascribed (Term.WellFormed.prints ht) (Signature.WellFormed.prints hs)
  | _, .binary hop hl hr => .operation hop (Term.WellFormed.prints hl) (Term.WellFormed.prints hr)
  | _, .negation h => (Term.WellFormed.prints h).negation

theorem Call.Predicate.prints : ∀ {c : Call}, c.Predicate → Prints .predicate c.pieces c
  | _, .plain hcallee htypeArgs hargs =>
    .predicate (Term.Segment.prints hcallee) (hcallee.operator?_eq_none _) htypeArgs
      fun t ht => (Term.WellFormed.prints (hargs t ht)).sum
  | _, .chain hlen hparts htypeArgs hargs =>
    .chainPredicate hlen (fun t ht => Term.Segment.prints (hparts t ht)) htypeArgs
      fun t ht => (Term.WellFormed.prints (hargs t ht)).sum

theorem Signature.WellFormed.prints : ∀ {s : Signature}, s.WellFormed → Prints .signature s.pieces s
  | _, .mk hgs hps hfs hspecific =>
    .signature hgs (fun p hp => Param.WellFormed.prints (hps p hp))
      fun f hf => Fact.WellFormed.prints (hfs f hf) (hspecific f hf)

theorem Param.WellFormed.prints : ∀ {p : Param}, p.WellFormed → Prints .param p.pieces p
  | _, .mk hn ht => .param hn (Ty.WellFormed.prints ht)

theorem Ty.WellFormed.prints : ∀ {t : Ty}, t.WellFormed → Prints .type t.pieces t
  | _, .named h => ⟨.named _, (Prints.name h).closed⟩
  | _, .fn hs hr => .fnType (Signature.WellFormed.prints hs) (Ty.WellFormed.prints hr)
  | _, .property hs => .propertyType (Signature.WellFormed.prints hs)
  | _, .placeholder k => .placeholder k

theorem Fact.WellFormed.prints : ∀ {f : Fact}, f.WellFormed → f.isSpecific = true →
    Prints .specific f.pieces f
  | _, .relational hs hlen h, _ => .relational _ hs hlen fun t ht => Term.WellFormed.prints (h t ht)
  | _, .property h, _ => .property _ (Call.Predicate.prints h)

end

end FactScript
