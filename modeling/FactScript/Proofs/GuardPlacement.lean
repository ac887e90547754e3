import FactScript.Proofs.Locality
import FactScript.Proofs.Placement

/-!
Where guards are written makes no difference. The guards of a signature may stand behind its type
parameters or behind its value parameters; the guards of a universal fact may as well stand among
the premises in its body, each on a line of its own.
-/
namespace FactScript

/-! Lists of phrases, one by one. -/

section Intercalate

variable {s : Symbol} {p : Phrase}

theorem Reads.intercalate {us : List (List Lexeme)} {as : List p.Meaning}
    (h : List.Forall₂ (Reads p) us as) (hne : us ≠ []) :
    Reads (.separated s p) ([.symbol s].intercalate us) as := by
  induction h with
  | nil => exact absurd rfl hne
  | @cons u a us as hu hus ih =>
    cases hus with
    | nil =>
      rw [List.intercalate_singleton]
      exact .one hu
    | cons hv hvs =>
      rw [List.intercalate_cons_cons, List.append_assoc]
      exact .more hu (ih (by simp))

theorem Reads.exists_intercalate {u : List Lexeme} {as : List p.Meaning}
    (h : Reads (.separated s p) u as) :
    ∃ us, u = [.symbol s].intercalate us ∧ List.Forall₂ (Reads p) us as := by
  induction as generalizing u with
  | nil => cases h
  | cons a as ih =>
    cases h with
    | one hu => exact ⟨[u], by simp, .cons hu .nil⟩
    | @more _ _ u v _ _ hu hv =>
      cases as with
      | nil => cases hv
      | cons a' as =>
        obtain ⟨us, rfl, hus⟩ := ih hv
        cases hus with
        | @cons w _ ws _ hw hws =>
          refine ⟨u :: w :: ws, ?_, .cons hu (.cons hw hws)⟩
          rw [List.intercalate_cons_cons, List.append_assoc]
          rfl

end Intercalate

/-! Signatures. -/

def given (guards : List Lexeme) : List Lexeme := .symbol .colonColon :: guards

/-- The lexemes of a signature. Guards may stand behind its type parameters and behind its value
parameters. -/
def Signature.spell (generics guards params guards' : List Lexeme) : List Lexeme :=
  (.symbol .lbracket :: generics ++ guards ++ [.symbol .rbracket]) ++
    (.symbol .lparen :: params ++ guards' ++ [.symbol .rparen])

/-- Wherever a signature can stand, `s` is read of the lexemes `ts`, and what follows them is left
as it is. -/
structure Signature.ReadFrom (s : Signature) (ts : List Lexeme) : Prop where
  property : ∀ name rest, Parser.propertyDecl
    (.keyword .property :: .identifier name :: ts ++ rest) = .ok ⟨name, s⟩ rest
  fn : ∀ name rest, Parser.fnDecl (.keyword .fn :: .identifier name :: ts ++ rest) =
    (FnDecl.mk name s <$> Parser.type) rest
  exist : ∀ name rest, Parser.signedName .exist
    (.keyword .exist :: .identifier name :: ts ++ rest) = .ok ⟨name, s⟩ rest
  propertyType : ∀ rest, Parser.type (.keyword .property :: ts ++ rest) = .ok (.property s) rest
  fnType : ∀ rest, Parser.type (.keyword .fn :: ts ++ rest) = (Ty.fn s <$> Parser.type) rest

section Signature

variable {generics guards params guards' ts ts' : List Lexeme} {gs : List GenericParam}
  {ps : List Param}
  {fs fs' : List Fact} {s : Signature}

theorem Reads.spell (hgs : Reads (.separated .comma .genericParam) generics gs)
    (hfs : Reads .guards guards fs)
    (hps : params = [] ∧ ps = [] ∨ Reads (.separated .comma .param) params ps)
    (hfs' : Reads .guards guards' fs') :
    Reads .signature (Signature.spell generics guards params guards') ⟨gs, ps, fs ++ fs'⟩ := by
  refine .signature (.someGenerics hgs hfs) ?_
  rcases hps with ⟨rfl, rfl⟩ | hps
  · exact .noParams hfs'
  · exact .someParams hps hfs'

theorem Reads.readFrom (h : Reads .signature ts s) : s.ReadFrom ts := by
  have hs (rest : List Lexeme) : Parser.full.signature (ts ++ rest) = .ok s rest :=
    Parser.signature_exact.eq_ok h (Phrase.ended_of_closed (fun _ => rfl) rest)
  constructor
  case property => exact fun name rest => Parser.signedName_eq_ok .property name h rest
  case exist => exact fun name rest => Parser.signedName_eq_ok .exist name h rest
  case fn =>
    intro name rest
    change (Parser.full.signature >>= fun s => Parser.type >>= fun r => pure (FnDecl.mk name s r))
      (ts ++ rest) = _
    rw [Parser.bind_of_ok (hs rest), map_eq_pure_bind]
  case propertyType =>
    intro rest
    exact Parser.type_exact.eq_ok (.propertyType h) (Phrase.ended_of_closed (fun _ => rfl) rest)
  case fnType =>
    intro rest
    have hstep : Parser.type (.keyword .fn :: ts ++ rest) =
        (Parser.full.signature >>= fun s => Parser.type >>= fun r => pure (Ty.fn s r))
          (ts ++ rest) := by
      rw [congrFun Parser.type_eq]
      change ((Parser.full.signature >>= fun s => Parser.type >>= fun r => pure (s, r)) >>=
        fun x => pure (Ty.fn x.1 x.2)) (ts ++ rest) = _
      simp only [bind_assoc, pure_bind]
    rw [hstep, Parser.bind_of_ok (hs rest), map_eq_pure_bind]

end Signature

/-- The signature `s` may be written as `ts` or as `ts'`: both are read as `s`, and a statement that
declares a name with one of them is the same with the other. -/
structure Signature.Interchangeable (s : Signature) (ts ts' : List Lexeme) : Prop where
  left : s.ReadFrom ts
  right : s.ReadFrom ts'
  statement : ∀ k ∈ [Keyword.property, .fn, .exist], ∀ name rest body, ∀ b b' : Block,
    b.skeleton = ⟨.keyword k :: .identifier name :: ts ++ rest, body⟩ →
    b'.skeleton = ⟨.keyword k :: .identifier name :: ts' ++ rest, body⟩ →
    ∀ st, Statement.ofBlock b = .ok st ↔ Statement.ofBlock b' = .ok st

section Interchangeable

variable {ts ts' : List Lexeme} {s : Signature}

theorem Parser.bind_congr_input {α β : Type} {p : Parser α} {f : α → Parser β} (h : p ts = p ts') :
    (p >>= f) ts = (p >>= f) ts' := by
  change EStateM.bind p f ts = EStateM.bind p f ts'
  rw [EStateM.bind, EStateM.bind, h]

theorem Signature.ReadFrom.header_eq (h : s.ReadFrom ts) (h' : s.ReadFrom ts') {k : Keyword}
    (hk : k ∈ [Keyword.property, .fn, .exist]) (name : String) (rest : List Lexeme) :
    Parser.header (.keyword k :: .identifier name :: ts ++ rest) =
      Parser.header (.keyword k :: .identifier name :: ts' ++ rest) := by
  simp only [List.mem_cons, List.not_mem_nil, or_false] at hk
  rcases hk with rfl | rfl | rfl
  · exact Parser.bind_congr_input (p := Parser.propertyDecl)
      ((h.property name rest).trans (h'.property name rest).symm)
  · exact Parser.bind_congr_input (p := Parser.fnDecl)
      ((h.fn name rest).trans (h'.fn name rest).symm)
  · exact Parser.bind_congr_input (p := Parser.signedName .exist)
      ((h.exist name rest).trans (h'.exist name rest).symm)

theorem Signature.interchangeable (h : Reads .signature ts s) (h' : Reads .signature ts' s) :
    s.Interchangeable ts ts' := by
  refine ⟨h.readFrom, h'.readFrom, ?_⟩
  intro k hk name rest body b b' hb hb' st
  rw [← Statement.ofBlock_block, ← Statement.ofBlock_block (b := b'), hb, hb']
  simp only [Statement.ofBlock_eq_ok_iff, Skeleton.lexemes_block, Skeleton.body_block,
    h.readFrom.header_eq h'.readFrom hk]

end Interchangeable

/-! Universal facts. -/

def Block.premises : List Block → List Block
  | [] => []
  | b :: _ => if b.startsWith .ifKw then b.body else []

/-- The blocks of a body that hold conclusions: those under the word `then`, or all if no section is
headed by such a word. -/
def Block.conclusions : List Block → List Block
  | [] => []
  | b :: rest =>
    if b.startsWith .ifKw then rest.flatMap Block.body
    else if b.startsWith .thenKw then b.body
    else b :: rest

structure GuardLines (guards : List Lexeme) (lines : List (List Lexeme)) : Prop where
  joined : [.symbol .comma].intercalate lines = guards
  facts : ∃ fs, List.Forall₂ (fun l f => Parser.full.specificFact l = .ok f []) lines fs

/-- A universal fact with guards as its first premises, one to a line. -/
def Skeleton.guardsAsPremises (generics params : List Lexeme) (guards : List (List Lexeme))
    (premises conclusions : List Skeleton) : Skeleton :=
  ⟨.keyword .forallKw :: (.symbol .lbracket :: generics ++ [.symbol .rbracket]) ++ params ++
      [.symbol .colon],
    [.section_ .ifKw (guards.map (⟨·, []⟩) ++ premises), .section_ .thenKw conclusions]⟩

section Universal

variable {b : Block} {bs : List Block} {premises conclusions fs fs' : List Fact}
  {generics params guards guards' ts : List Lexeme} {lines lines' : List (List Lexeme)}
  {gs : List GenericParam} {ps : List Param}

theorem Fact.ofBlocks_of_ifThen (h : Fact.ifThen bs = .ok (premises, conclusions)) :
    Fact.ofBlocks (Block.premises bs) = .ok premises ∧
      Fact.ofBlocks (Block.conclusions bs) = .ok conclusions := by
  cases bs with
  | nil => cases h; exact ⟨rfl, rfl⟩
  | cons b rest =>
    rw [Block.premises, Block.conclusions]
    by_cases hi : b.startsWith .ifKw = true
    · obtain ⟨⟨-, hp⟩, b', rfl, -, hc⟩ := (Fact.ifThen_of_if hi).mp h
      simpa [hi] using ⟨hp, hc⟩
    · by_cases ht : b.startsWith .thenKw = true
      · obtain ⟨rfl, rfl, -, hc⟩ := (Fact.ifThen_of_then ht).mp h
        simpa [hi, ht] using ⟨rfl, hc⟩
      · obtain ⟨rfl, hc⟩ := (Fact.ifThen_of_bare (by simpa using hi) (by simpa using ht)).mp h
        simpa [hi, ht] using ⟨rfl, hc⟩

theorem Fact.ofBlocks_append {bs' : List Block} (h : Fact.ofBlocks bs = .ok fs)
    (h' : Fact.ofBlocks bs' = .ok fs') : Fact.ofBlocks (bs ++ bs') = .ok (fs ++ fs') := by
  rw [Fact.ofBlocks_eq_mapM] at h h' ⊢
  rw [List.mapM_append, h, h']
  rfl

theorem GuardLines.exists_of_reads (h : Reads (.separated .comma .specific) guards fs) :
    ∃ lines, GuardLines guards lines := by
  obtain ⟨lines, hguards, hlines⟩ := h.exists_intercalate
  refine ⟨lines, hguards.symm, fs, ?_⟩
  simpa only [Parser.specificFact_exact.eq_ok_nil] using hlines

theorem GuardLines.forall₂ (h : GuardLines guards lines)
    (hfs : Reads (.separated .comma .specific) guards fs) :
    List.Forall₂ (Reads .specific) lines fs := by
  obtain ⟨hjoined, fs', hlines⟩ := h
  simp only [Parser.specificFact_exact.eq_ok_nil] at hlines
  have hne : lines ≠ [] := by
    rintro rfl
    exact hfs.ne_nil rfl hjoined.symm
  have hfs' : Reads (.separated .comma .specific) guards fs' := hjoined ▸ .intercalate hlines hne
  -- A list has one reading only, since the parser of lists returns each of its readings.
  rw [← Parser.specificFacts_exact.eq_ok_nil] at hfs hfs'
  cases hfs.symm.trans hfs'
  exact hlines

theorem GuardLines.ofBlocks (h : GuardLines guards lines)
    (hfs : Reads (.separated .comma .specific) guards fs) :
    Fact.ofBlocks (Skeleton.blocks (lines.map (⟨·, []⟩))) = .ok fs := by
  rw [Fact.ofBlocks_eq_mapM, mapM_eq_ok, Skeleton.blocks_eq_map, List.map_map,
    List.forall₂_map_left_iff]
  refine (h.forall₂ hfs).imp fun l f hf => ?_
  refine Fact.ofBlock_eq_ok_iff.mpr ⟨.specific f, ?_, rfl⟩
  rw [Function.comp_apply, Skeleton.lexemes_block]
  exact .specific hf

theorem Fact.ofBlock_universal (hb : b.lexemes = ts ++ [.symbol .colon])
    (hts : Reads .quantifier ts (gs, ps, fs))
    (hbody : Fact.ifThen b.body = .ok (premises, conclusions)) :
    Fact.ofBlock b = .ok (.universal gs ps (fs ++ premises) conclusions) := by
  refine Fact.ofBlock_eq_ok_iff.mpr ⟨.universal gs ps fs, ?_, ?_⟩
  · rw [hb]
    exact .universal hts
  · rw [FactHeader.build, hbody]
    rfl

theorem Fact.ofBlock_guardsAsPremises (hgs : Reads (.separated .comma .genericParam) generics gs)
    (hps : Reads (.separated .comma .param) params ps)
    (hfs : Reads (.separated .comma .specific) guards fs)
    (hfs' : Reads (.separated .comma .specific) guards' fs')
    (hlines : GuardLines guards lines) (hlines' : GuardLines guards' lines')
    (hbody : Fact.ifThen bs = .ok (premises, conclusions))
    (hb : b.skeleton = .guardsAsPremises generics params (lines ++ lines')
      (Block.skeletons (Block.premises bs)) (Block.skeletons (Block.conclusions bs))) :
    Fact.ofBlock b = .ok (.universal gs ps (fs ++ fs' ++ premises) conclusions) := by
  obtain ⟨hpremises, hconclusions⟩ := Fact.ofBlocks_of_ifThen hbody
  rw [← Fact.ofBlocks_blocks] at hpremises hconclusions
  rw [← Fact.ofBlock_block, hb]
  have hquantifier : Reads .quantifier
      (.keyword .forallKw :: (.symbol .lbracket :: generics ++ [.symbol .rbracket]) ++ params)
        (gs, ps, []) := by
    simpa using Reads.quantifier (.someGenerics hgs .noGuards) hps .noGuards
  have hsections : Fact.ifThen (Skeleton.guardsAsPremises generics params (lines ++ lines')
      (Block.skeletons (Block.premises bs)) (Block.skeletons (Block.conclusions bs))).block.body =
      .ok (fs ++ fs' ++ premises, conclusions) := by
    rw [Skeleton.body_block]
    refine (Fact.ifThen_of_if (by simp [Block.startsWith_iff])).mpr
      ⟨⟨Skeleton.lexemes_block _, ?_⟩, _, rfl, Skeleton.lexemes_block _, ?_⟩
    · rw [Skeleton.body_block, Skeleton.body_section, Skeleton.blocks_append, List.map_append,
        Skeleton.blocks_append]
      have hguards := Fact.ofBlocks_append (hlines.ofBlocks hfs) (hlines'.ofBlocks hfs')
      exact Fact.ofBlocks_append hguards hpremises
    · rwa [Skeleton.body_block]
  have hfact := Fact.ofBlock_universal (Skeleton.lexemes_block _) hquantifier hsections
  exact hfact

end Universal

/-- Guards may be written behind the type parameters or behind the value parameters of a signature,
before other guards or alone, and the guards of a universal fact may be its first
premises instead. -/
theorem guards_anywhere {generics guards params guards' : List Lexeme} {gs : List GenericParam}
    {ps : List Param} {fs fs' : List Fact}
    (hgs : Parser.separated .comma Parser.genericParam generics = .ok gs [])
    (hps : params = [] ∧ ps = [] ∨ Parser.full.params params = .ok ps [])
    (hfs : Parser.separated .comma Parser.full.specificFact guards = .ok fs [])
    (hfs' : Parser.separated .comma Parser.full.specificFact guards' = .ok fs' []) :
    Signature.Interchangeable ⟨gs, ps, fs ++ fs'⟩
      (Signature.spell generics (given guards) params (given guards'))
      (Signature.spell generics [] params (given (guards ++ .symbol .comma :: guards'))) ∧
    Signature.Interchangeable ⟨gs, ps, fs⟩ (Signature.spell generics (given guards) params [])
      (Signature.spell generics [] params (given guards)) ∧
    (params ≠ [] → ∀ b : Block,
      b.lexemes = .keyword .forallKw ::
        (.symbol .lbracket :: generics ++ given guards ++ [.symbol .rbracket]) ++ params ++
        given guards' ++ [.symbol .colon] →
      ∀ premises conclusions, Fact.ifThen b.body = .ok (premises, conclusions) →
        Fact.ofBlock b = .ok (.universal gs ps (fs ++ fs' ++ premises) conclusions) ∧
        (∃ lines lines', GuardLines guards lines ∧ GuardLines guards' lines') ∧
        ∀ lines lines', GuardLines guards lines → GuardLines guards' lines' →
          ∀ b' : Block, b'.skeleton = .guardsAsPremises generics params (lines ++ lines')
            (Block.skeletons (Block.premises b.body)) (Block.skeletons (Block.conclusions b.body)) →
          Fact.ofBlock b' = .ok (.universal gs ps (fs ++ fs' ++ premises) conclusions)) := by
  rw [Parser.genericParams_exact.eq_ok_nil] at hgs
  rw [Parser.params_exact.eq_ok_nil] at hps
  rw [Parser.specificFacts_exact.eq_ok_nil] at hfs hfs'
  have hnone : Reads .guards [] [] := .noGuards
  refine ⟨?_, ?_, ?_⟩
  · have hmoved := Reads.spell hgs hnone hps (.someGuards (hfs.append hfs'))
    exact Signature.interchangeable (.spell hgs (.someGuards hfs) hps (.someGuards hfs')) hmoved
  · have hbehind := Reads.spell hgs (.someGuards hfs) hps hnone
    rw [List.append_nil] at hbehind
    exact Signature.interchangeable hbehind (.spell hgs hnone hps (.someGuards hfs))
  · intro hne b hb premises conclusions hbody
    have hps := hps.resolve_left fun h => hne h.1
    refine ⟨?_, ?_, ?_⟩
    · exact Fact.ofBlock_universal hb
        (.quantifier (.someGenerics hgs (.someGuards hfs)) hps (.someGuards hfs')) hbody
    · obtain ⟨lines, hlines⟩ := GuardLines.exists_of_reads hfs
      obtain ⟨lines', hlines'⟩ := GuardLines.exists_of_reads hfs'
      exact ⟨lines, lines', hlines, hlines'⟩
    · intro lines lines' hlines hlines' b' hb'
      exact Fact.ofBlock_guardsAsPremises hgs hps hfs hfs' hlines hlines' hbody hb'

/-- The lines `forall [T G :: x = e] x T :: x < e, e = e:` and `forall [T G] x T:`, the latter over
three premises, and signatures with these guards. -/
theorem guards_anywhere_three : ∃ b b' : Block, ∃ f s,
    b.skeleton = ⟨[.keyword .forallKw, .symbol .lbracket, .identifier "T", .identifier "G",
      .symbol .colonColon, .identifier "x", .symbol .eq, .identifier "e", .symbol .rbracket,
      .identifier "x", .identifier "T", .symbol .colonColon, .identifier "x", .symbol .lt,
      .identifier "e", .symbol .comma, .identifier "e", .symbol .eq, .identifier "e",
      .symbol .colon], [⟨[.identifier "x", .symbol .eq, .identifier "x"], []⟩]⟩ ∧
    b'.skeleton = ⟨[.keyword .forallKw, .symbol .lbracket, .identifier "T", .identifier "G",
      .symbol .rbracket, .identifier "x", .identifier "T", .symbol .colon],
      [.section_ .ifKw [⟨[.identifier "x", .symbol .eq, .identifier "e"], []⟩,
        ⟨[.identifier "x", .symbol .lt, .identifier "e"], []⟩,
        ⟨[.identifier "e", .symbol .eq, .identifier "e"], []⟩],
      .section_ .thenKw [⟨[.identifier "x", .symbol .eq, .identifier "x"], []⟩]]⟩ ∧
    Fact.ofBlock b = .ok f ∧ Fact.ofBlock b' = .ok f ∧
    Signature.ReadFrom s [.symbol .lbracket, .identifier "T", .identifier "G", .symbol .colonColon,
      .identifier "x", .symbol .eq, .identifier "e", .symbol .rbracket, .symbol .lparen,
      .identifier "x", .identifier "T", .symbol .colonColon, .identifier "x", .symbol .lt,
      .identifier "e", .symbol .comma, .identifier "e", .symbol .eq, .identifier "e",
      .symbol .rparen] ∧
    Signature.ReadFrom s [.symbol .lbracket, .identifier "T", .identifier "G", .symbol .rbracket,
      .symbol .lparen, .identifier "x", .identifier "T", .symbol .colonColon, .identifier "x",
      .symbol .eq, .identifier "e", .symbol .comma, .identifier "x", .symbol .lt, .identifier "e",
      .symbol .comma, .identifier "e", .symbol .eq, .identifier "e", .symbol .rparen] := by
  have hgs : Parser.separated .comma Parser.genericParam [.identifier "T", .identifier "G"] =
      .ok [⟨"T", "G"⟩] [] := rfl
  have hps : Parser.full.params [.identifier "x", .identifier "T"] = .ok [⟨"x", .named "T"⟩] [] :=
    rfl
  have hfs : Parser.separated .comma Parser.full.specificFact [.identifier "x", .symbol .eq,
      .identifier "e"] = .ok [.relational true .eq [.atom "x", .atom "e"]] [] := rfl
  have hfs' : Parser.separated .comma Parser.full.specificFact
      [.identifier "x", .symbol .lt, .identifier "e", .symbol .comma,
        .identifier "e", .symbol .eq, .identifier "e"] =
      .ok [.relational true .lt [.atom "x", .atom "e"],
        .relational true .eq [.atom "e", .atom "e"]] [] := rfl
  obtain ⟨hsignature, -, huniversal⟩ := guards_anywhere hgs (.inr hps) hfs hfs'
  obtain ⟨hb, -, hmoved⟩ := huniversal (by simp)
    (Skeleton.block ⟨_, [⟨[.identifier "x", .symbol .eq, .identifier "x"], []⟩]⟩)
      (Skeleton.lexemes_block _)
    [] [.relational true .eq [.atom "x", .atom "x"]] rfl
  have hb' := hmoved [[.identifier "x", .symbol .eq, .identifier "e"]]
    [[.identifier "x", .symbol .lt, .identifier "e"],
      [.identifier "e", .symbol .eq, .identifier "e"]]
    ⟨rfl, _, .cons rfl .nil⟩ ⟨rfl, _, .cons rfl (.cons rfl .nil)⟩ _ (Skeleton.skeleton_block _)
  exact ⟨_, _, _, _, Skeleton.skeleton_block _, Skeleton.skeleton_block _, hb, hb', hsignature.left,
    hsignature.right⟩

end FactScript
