import FactScript.Proofs.RoundTrip

/-!
Reading blocks does not depend on where they stand. `Block.place` gives every block of a tree
another place and drops its indentation and the spans of its tokens; whatever is read of a tree is
then read as before, and a fault is found as before, with the same header and offset at each level
and only the places replaced.
-/
namespace FactScript

section MapError

variable {ε δ α β : Type} {h : ε → δ}

@[simp] theorem mapError_ok (a : α) : (Except.ok a : Except ε α).mapError h = .ok a := rfl

@[simp] theorem mapError_error (e : ε) :
    (Except.error e : Except ε α).mapError h = .error (h e) := rfl

@[simp] theorem mapError_pure (a : α) : (pure a : Except ε α).mapError h = pure a := rfl

@[simp] theorem mapError_bind (x : Except ε α) (g : α → Except ε β) :
    (x >>= g).mapError h = x.mapError h >>= fun a => (g a).mapError h := by
  cases x <;> rfl

@[simp] theorem mapError_map (x : Except ε α) (g : α → β) :
    (g <$> x).mapError h = g <$> x.mapError h := by
  cases x <;> rfl

theorem mapError_ite {c : Prop} [Decidable c] (x y : Except ε α) :
    (if c then x else y).mapError h = if c then x.mapError h else y.mapError h := by
  split <;> rfl

end MapError

/-! Other places. -/

def Level.place (f : Position → Position) (l : Level) : Level := { l with position := f l.position }

def ParseError.place (f : Position → Position) (e : ParseError) : ParseError :=
  ⟨e.levels.map (Level.place f), e.fault⟩

@[simp] theorem ParseError.place_bare (f : Position → Position) (fault : Fault) :
    (bare fault).place f = bare fault := rfl

/-- Whatever does not look at the place of a level is the same at all levels. -/
theorem ParseError.map_levels_of_place {α : Type} {f : Position → Position} {e e' : ParseError}
    {view : Level → α} (hview : ∀ l, view (l.place f) = view l)
    (h : e.place f = e'.place f) : e.levels.map view = e'.levels.map view := by
  have hlevels := congrArg (List.map view ∘ ParseError.levels) h
  simpa only [Function.comp_apply, place, List.map_map, Function.comp_def, hview] using hlevels

def Token.bare (t : Token) : Token := ⟨t.lexeme, .start, .start⟩

mutual

def Block.place (f : Position → Position) : Block → Block
  | ⟨header, body, _, position⟩ => ⟨header.map Token.bare, placeAll f body, 0, f position⟩

def Block.placeAll (f : Position → Position) : List Block → List Block
  | [] => []
  | b :: bs => b.place f :: placeAll f bs

end

namespace Block

variable {f : Position → Position}

theorem placeAll_eq_map (bs : List Block) : placeAll f bs = bs.map (place f) := by
  induction bs with
  | nil => rfl
  | cons b bs ih => rw [placeAll, ih, List.map_cons]

theorem place_eq (b : Block) :
    b.place f = ⟨b.header.map Token.bare, b.body.map (place f), 0, f b.position⟩ := by
  rw [← placeAll_eq_map]
  cases b
  rfl

@[simp] theorem body_place (b : Block) : (b.place f).body = b.body.map (place f) := by rw [place_eq]

@[simp] theorem position_place (b : Block) : (b.place f).position = f b.position := by rw [place_eq]

@[simp] theorem lexemes_place (b : Block) : (b.place f).lexemes = b.lexemes := by
  rw [place_eq, lexemes, List.map_map]
  rfl

@[simp] theorem headerText_place (b : Block) : (b.place f).headerText = b.headerText := by
  rw [place_eq, headerText, List.map_map]
  rfl

@[simp] theorem startsWith_place (b : Block) (k : Keyword) :
    (b.place f).startsWith k = b.startsWith k := by
  rw [startsWith, lexemes_place, startsWith]

theorem level_place (b : Block) (rest : List Lexeme) :
    (b.place f).level rest = (b.level rest).place f := by
  have hlength : (b.place f).header.length = b.header.length := by rw [place_eq, List.length_map]
  rw [level, headerText_place, hlength, position_place]
  rfl

theorem read_place {η α : Type} (b : Block) {header : Parser η}
    {build build' : η → Except ParseError α} (h : ∀ a, build' a = (build a).mapError (.place f)) :
    (b.place f).read header build' = (b.read header build).mapError (.place f) := by
  simp only [read, lexemes_place, h]
  cases header b.lexemes with
  | error fault rest =>
    simp only [level_place, mapError_error]
    rfl
  | ok a rest =>
    cases hbuild : build a with
    | error e =>
      simp only [hbuild, level_place, mapError_error]
      rfl
    | ok c =>
      cases rest with
      | nil => simp [hbuild]
      | cons t rest =>
        simp only [hbuild, mapError_ok, level_place, mapError_error]
        rfl

theorem read_map {η α β : Type} (b : Block) (header : Parser η) (build : η → Except ParseError α)
    (g : α → β) :
    b.read header (fun a => g <$> build a) = g <$> b.read header build := by
  rw [read, read]
  cases header b.lexemes with
  | error fault rest => rfl
  | ok a rest =>
    dsimp only
    cases build a with
    | error e => rfl
    | ok c => cases rest <;> rfl

theorem readLine_place {α : Type} (b : Block) (header : Parser α) :
    (b.place f).readLine header = (b.readLine header).mapError (.place f) :=
  b.read_place fun _ => rfl

theorem readSection_place {α : Type} {b : Block} (k : Keyword)
    {read : List Block → Except ParseError α}
    (h : read (b.body.map (place f)) = (read b.body).mapError (.place f)) :
    (b.place f).readSection k (fun _ => read (b.place f).body) =
      (b.readSection k fun _ => read b.body).mapError (.place f) := by
  rw [body_place]
  exact b.read_place fun _ => h

theorem mapM_place {α : Type} {read : Block → Except ParseError α} {bs : List Block}
    (h : ∀ b ∈ bs, read (b.place f) = (read b).mapError (.place f)) :
    (bs.map (place f)).mapM read = (bs.mapM read).mapError (.place f) := by
  induction bs with
  | nil => rfl
  | cons b bs ih =>
    obtain ⟨hb, hbs⟩ := List.forall_mem_cons.mp h
    simp only [List.map_cons, List.mapM_cons, hb, ih hbs, mapError_bind, mapError_pure]

end Block

open Block

variable {f : Position → Position}

/-! Facts. -/

theorem Fact.ofBlocks_eq_mapM (bs : List Block) : Fact.ofBlocks bs = bs.mapM Fact.ofBlock := by
  induction bs with
  | nil => rfl
  | cons b bs ih => rw [Fact.ofBlocks, List.mapM_cons, ih]

section IfThenCases

variable {b b' : Block} {rest : List Block}

theorem Fact.ifThen_if_alone (hb : b.startsWith .ifKw = true) : Fact.ifThen [b] =
    b.readSection .ifKw (fun _ => Fact.ofBlocks b.body) >>=
      fun _ => .error (.bare .ifWithoutThen) := by
  obtain ⟨header, body, indent, position⟩ := b
  rw [Fact.ifThen.eq_def]
  exact if_pos hb

theorem Fact.ifThen_if_other (hb : b.startsWith .ifKw = true)
    (hb' : b'.startsWith .thenKw = false) :
    Fact.ifThen (b :: b' :: rest) =
      b.readSection .ifKw (fun _ => Fact.ofBlocks b.body) >>=
        fun _ => .error (.bare .ifWithoutThen) := by
  obtain ⟨header, body, indent, position⟩ := b
  obtain ⟨header', body', indent', position'⟩ := b'
  rw [Fact.ifThen.eq_def]
  dsimp only
  rw [if_pos hb, hb']
  rfl

theorem Fact.ifThen_if_then (hb : b.startsWith .ifKw = true) (hb' : b'.startsWith .thenKw = true) :
    Fact.ifThen [b, b'] = (do
      let premises ← b.readSection .ifKw fun _ => Fact.ofBlocks b.body
      let conclusions ← b'.readSection .thenKw fun _ => Fact.ofBlocks b'.body
      return (premises, conclusions)) := by
  obtain ⟨header, body, indent, position⟩ := b
  obtain ⟨header', body', indent', position'⟩ := b'
  rw [Fact.ifThen.eq_def]
  dsimp only
  rw [if_pos hb, hb']
  rfl

theorem Fact.ifThen_if_trailing {extra : Block} (hb : b.startsWith .ifKw = true)
    (hb' : b'.startsWith .thenKw = true) : Fact.ifThen (b :: b' :: extra :: rest) = (do
      let _ ← b.readSection .ifKw fun _ => Fact.ofBlocks b.body
      let _ ← b'.readSection .thenKw fun _ => Fact.ofBlocks b'.body
      .error (.bare (.trailingBlock extra.headerText))) := by
  obtain ⟨header, body, indent, position⟩ := b
  obtain ⟨header', body', indent', position'⟩ := b'
  rw [Fact.ifThen.eq_def]
  dsimp only
  rw [if_pos hb, hb']
  rfl

theorem Fact.ifThen_then_alone (hi : b.startsWith .ifKw = false)
    (hb : b.startsWith .thenKw = true) :
    Fact.ifThen [b] = ([], ·) <$> b.readSection .thenKw fun _ => Fact.ofBlocks b.body := by
  obtain ⟨header, body, indent, position⟩ := b
  rw [Fact.ifThen.eq_def]
  dsimp only
  rw [hi, hb]
  rfl

theorem Fact.ifThen_then_trailing {extra : Block} (hi : b.startsWith .ifKw = false)
    (hb : b.startsWith .thenKw = true) :
    Fact.ifThen (b :: extra :: rest) = .error (.bare (.trailingBlock extra.headerText)) := by
  obtain ⟨header, body, indent, position⟩ := b
  rw [Fact.ifThen.eq_def]
  dsimp only
  rw [hi, hb]
  rfl

theorem Fact.ifThen_facts (hi : b.startsWith .ifKw = false) (ht : b.startsWith .thenKw = false) :
    Fact.ifThen (b :: rest) = ([], ·) <$> Fact.ofBlocks (b :: rest) := by
  obtain ⟨header, body, indent, position⟩ := b
  rw [Fact.ifThen.eq_def, Fact.ofBlocks]
  dsimp only
  rw [hi, ht]
  cases Fact.ofBlock ⟨header, body, indent, position⟩ with
  | error e => rfl
  | ok fact => cases Fact.ofBlocks rest <;> rfl

end IfThenCases

def Fact.Placed (f : Position → Position) (bs : List Block) : Prop :=
  Fact.ofBlocks (bs.map (place f)) = (Fact.ofBlocks bs).mapError (.place f)

theorem Fact.placed_of_forall {bs : List Block}
    (h : ∀ b ∈ bs, Fact.ofBlock (b.place f) = (Fact.ofBlock b).mapError (.place f)) :
    Fact.Placed f bs := by
  rw [Fact.Placed, Fact.ofBlocks_eq_mapM, Fact.ofBlocks_eq_mapM]
  exact mapM_place h

theorem Fact.ifThen_place {bs : List Block} (hbs : Fact.Placed f bs)
    (hbodies : ∀ b ∈ bs, Fact.Placed f b.body) :
    Fact.ifThen (bs.map (place f)) = (Fact.ifThen bs).mapError (.place f) := by
  cases bs with
  | nil => rfl
  | cons b rest =>
    obtain ⟨hbody, hrest⟩ := List.forall_mem_cons.mp hbodies
    by_cases hi : b.startsWith .ifKw = true
    · have hi' : (b.place f).startsWith .ifKw = true := by rwa [startsWith_place]
      cases rest with
      | nil =>
        rw [List.map_cons, List.map_nil, Fact.ifThen_if_alone hi, Fact.ifThen_if_alone hi',
          readSection_place .ifKw hbody]
        simp
      | cons b' rest =>
        obtain ⟨hbody', -⟩ := List.forall_mem_cons.mp hrest
        by_cases ht : b'.startsWith .thenKw = true
        · have ht' : (b'.place f).startsWith .thenKw = true := by rwa [startsWith_place]
          cases rest with
          | nil =>
            simp only [List.map_cons, List.map_nil, Fact.ifThen_if_then hi ht,
              Fact.ifThen_if_then hi' ht', readSection_place .ifKw hbody,
              readSection_place .thenKw hbody', mapError_bind, mapError_pure]
          | cons extra rest =>
            simp only [List.map_cons, Fact.ifThen_if_trailing hi ht,
              Fact.ifThen_if_trailing hi' ht', readSection_place .ifKw hbody,
              readSection_place .thenKw hbody', mapError_bind, mapError_error, headerText_place,
              ParseError.place_bare]
        · have ht : b'.startsWith .thenKw = false := by simpa using ht
          have ht' : (b'.place f).startsWith .thenKw = false := by rwa [startsWith_place]
          rw [List.map_cons, List.map_cons, Fact.ifThen_if_other hi ht,
            Fact.ifThen_if_other hi' ht', readSection_place .ifKw hbody]
          simp
    · have hi : b.startsWith .ifKw = false := by simpa using hi
      have hi' : (b.place f).startsWith .ifKw = false := by rwa [startsWith_place]
      by_cases ht : b.startsWith .thenKw = true
      · have ht' : (b.place f).startsWith .thenKw = true := by rwa [startsWith_place]
        cases rest with
        | nil =>
          rw [List.map_cons, List.map_nil, Fact.ifThen_then_alone hi ht,
            Fact.ifThen_then_alone hi' ht', readSection_place .thenKw hbody, mapError_map]
        | cons extra rest =>
          rw [List.map_cons, List.map_cons, Fact.ifThen_then_trailing hi ht,
            Fact.ifThen_then_trailing hi' ht', headerText_place]
          rfl
      · have ht : b.startsWith .thenKw = false := by simpa using ht
        have ht' : (b.place f).startsWith .thenKw = false := by rwa [startsWith_place]
        rw [Fact.Placed, List.map_cons] at hbs
        rw [List.map_cons, Fact.ifThen_facts hi ht, Fact.ifThen_facts hi' ht', hbs, mapError_map]

theorem FactHeader.build_place {body : List Block} (hbody : Fact.Placed f body)
    (hbodies : ∀ b ∈ body, Fact.Placed f b.body) (hd : FactHeader) :
    hd.build (body.map (place f)) = (hd.build body).mapError (.place f) := by
  cases hd with
  | specific fact => rfl
  | universal generics params guards =>
    simp only [FactHeader.build, Fact.ifThen_place hbody hbodies, mapError_bind, mapError_pure]

/-- A fact is read of a block wherever it stands, by induction on what is nested under it. -/
theorem Fact.placed (b : Block) :
    Fact.ofBlock (b.place f) = (Fact.ofBlock b).mapError (.place f) ∧ Fact.Placed f b.body := by
  induction b using Block.induction with
  | h b ih =>
    have hbody : Fact.Placed f b.body := Fact.placed_of_forall fun b' hb' => (ih b' hb').1
    refine ⟨?_, hbody⟩
    rw [Fact.ofBlock_eq, Fact.ofBlock_eq, body_place]
    exact b.read_place (FactHeader.build_place hbody fun b' hb' => (ih b' hb').2)

theorem Fact.ofBlocks_place (bs : List Block) :
    Fact.ofBlocks (bs.map (place f)) = (Fact.ofBlocks bs).mapError (.place f) :=
  Fact.placed_of_forall fun b _ => (Fact.placed b).1

/-! Declarations and sections. -/

theorem Decl.ofBlocks_place (bs : List Block) :
    Decl.ofBlocks (bs.map (place f)) = (Decl.ofBlocks bs).mapError (.place f) :=
  mapM_place fun b _ => b.readLine_place Parser.decl

theorem Members.ofBlocks_place (bs : List Block) :
    Members.ofBlocks (bs.map (place f)) = (Members.ofBlocks bs).mapError (.place f) := by
  rw [Members.ofBlocks, Members.ofBlocks, Decl.ofBlocks_place, mapError_map]

theorem Block.names_place (bs : List Block) :
    Block.names (bs.map (place f)) = (Block.names bs).mapError (.place f) := by
  rw [Block.names, Block.names, mapM_place fun b _ => b.readLine_place Parser.names, mapError_map]

theorem Sectioned.keyword_place (host : Sectioned) (allowed seen : List Keyword) (b : Block) :
    host.keyword allowed seen (b.place f) = (host.keyword allowed seen b).mapError (.place f) := by
  have hfind : allowed.find? (b.place f).startsWith = allowed.find? b.startsWith :=
    congrArg (List.find? · allowed) (funext fun k => startsWith_place b k)
  rw [Sectioned.keyword, Sectioned.keyword, hfind, headerText_place]
  cases allowed.find? b.startsWith with
  | none => rfl
  | some k =>
    dsimp only
    rw [mapError_ite]
    rfl

theorem ConceptBody.withSection_place (c : ConceptBody) (k : Keyword) (b : Block) :
    c.withSection k (b.place f) = (c.withSection k b).mapError (.place f) := by
  have hnames := readSection_place (f := f) k (Block.names_place b.body)
  have hmembers := readSection_place (f := f) k (Members.ofBlocks_place b.body)
  have hfacts := readSection_place (f := f) k (Fact.ofBlocks_place b.body)
  cases k <;> simp only [withSection, hnames, hmembers, hfacts, mapError_bind, mapError_pure]

theorem ConceptBody.addSections_place (host : Sectioned) (seen : List Keyword) (c : ConceptBody)
    (bs : List Block) :
    addSections host seen c (bs.map (place f)) =
      (addSections host seen c bs).mapError (.place f) := by
  induction bs generalizing seen c with
  | nil => rfl
  | cons b bs ih =>
    simp only [List.map_cons, addSections, Sectioned.keyword_place, withSection_place, ih,
      mapError_bind]

theorem ExistBody.withSection_place (e : ExistBody) (k : Keyword) (b : Block) :
    e.withSection k (b.place f) = (e.withSection k b).mapError (.place f) := by
  have hdecls := readSection_place (f := f) k (Decl.ofBlocks_place b.body)
  have hfacts := readSection_place (f := f) k (Fact.ofBlocks_place b.body)
  cases k <;> simp only [withSection, hdecls, hfacts, mapError_bind, mapError_pure]

theorem ExistBody.addSections_place (seen : List Keyword) (e : ExistBody) (bs : List Block) :
    addSections seen e (bs.map (place f)) = (addSections seen e bs).mapError (.place f) := by
  induction bs generalizing seen e with
  | nil => rfl
  | cons b bs ih =>
    simp only [List.map_cons, addSections, Sectioned.keyword_place, withSection_place, ih,
      mapError_bind]

/-! Statements. -/

theorem Block.endInProof_place (bs : List Block) :
    endInProof (bs.map (place f)) = endInProof bs := by
  rw [endInProof, endInProof, List.getLast?_map, Option.any_map]
  congr 1
  exact funext fun b => startsWith_place b .proof

theorem Fact.ofBlock_place (b : Block) :
    Fact.ofBlock (b.place f) = (Fact.ofBlock b).mapError (.place f) :=
  (Fact.placed b).1

theorem Fact.ifThen_placed (bs : List Block) :
    Fact.ifThen (bs.map (place f)) = (Fact.ifThen bs).mapError (.place f) :=
  Fact.ifThen_place (Fact.ofBlocks_place bs) fun b _ => (Fact.placed b).2

theorem FactHeader.build_placed (hd : FactHeader) (bs : List Block) :
    hd.build (bs.map (place f)) = (hd.build bs).mapError (.place f) :=
  FactHeader.build_place (Fact.ofBlocks_place bs) (fun b _ => (Fact.placed b).2) hd

def Statement.Placed (f : Position → Position) (bs : List Block) : Prop :=
  Statement.ofBlocks (bs.map (place f)) = (Statement.ofBlocks bs).mapError (.place f)

theorem Statement.ofBlocks_eq_mapM (bs : List Block) :
    Statement.ofBlocks bs = bs.mapM Statement.ofBlock := by
  induction bs with
  | nil => rfl
  | cons b bs ih => rw [Statement.ofBlocks, ih, List.mapM_cons]

theorem Statement.goalsAndProof_alone (b : Block) : goalsAndProof [b] =
    ([], ·) <$> b.readSection .proof fun _ => Statement.ofBlocks b.body := by
  obtain ⟨header, body, indent, position⟩ := b
  rw [goalsAndProof]
  rfl

theorem Statement.goalsAndProof_place {bs : List Block}
    (hbodies : ∀ b ∈ bs, Statement.Placed f b.body) :
    Statement.goalsAndProof (bs.map (place f)) =
      (Statement.goalsAndProof bs).mapError (.place f) := by
  induction bs with
  | nil => rfl
  | cons b bs ih =>
    obtain ⟨hbody, hbodies⟩ := List.forall_mem_cons.mp hbodies
    cases bs with
    | nil =>
      rw [List.map_cons, List.map_nil, goalsAndProof_alone, goalsAndProof_alone,
        readSection_place .proof hbody, mapError_map]
    | cons b' bs =>
      have ih := ih hbodies
      rw [List.map_cons] at ih
      simp only [List.map_cons, goalsAndProof, Fact.ofBlock_place, ih, mapError_bind, mapError_pure]

theorem Header.build_place {body : List Block} (hbody : Statement.Placed f body)
    (hbodies : ∀ b ∈ body, Statement.Placed f b.body) (hd : Header) :
    hd.build (body.map (place f)) = (hd.build body).mapError (.place f) := by
  have hgoals := Statement.goalsAndProof_place hbodies
  rw [Statement.Placed] at hbody
  cases hd with
  | witness existence =>
    rcases body with _ | ⟨line, _ | ⟨line', lines⟩⟩
    · rfl
    · simp only [List.map_cons, List.map_nil, build, buildWith, readLine_place, mapError_bind,
        mapError_pure]
    · simp only [List.map_cons, build, buildWith, List.length_cons, List.length_map, mapError_error,
        ParseError.place_bare]
  | _ =>
    simp only [build, buildWith, hbody, hgoals, Fact.ofBlocks_place, Fact.ifThen_placed,
      FactHeader.build_placed, ConceptBody.ofBlocks, ConceptBody.addSections_place,
      ExistBody.ofBlocks, ExistBody.addSections_place, endInProof_place, mapError_bind,
      mapError_ite, mapError_pure, mapError_ok, mapError_error, ParseError.place_bare]

/-- A statement is read of a block wherever it stands, by induction on what is nested under it. -/
theorem Statement.placed (b : Block) :
    Statement.ofBlock (b.place f) = (Statement.ofBlock b).mapError (.place f) ∧
      Statement.Placed f b.body := by
  induction b using Block.induction with
  | h b ih =>
    have hbody : Statement.Placed f b.body := by
      rw [Statement.Placed, Statement.ofBlocks_eq_mapM, Statement.ofBlocks_eq_mapM]
      exact mapM_place fun b' hb' => (ih b' hb').1
    refine ⟨?_, hbody⟩
    rw [Statement.ofBlock_eq, Statement.ofBlock_eq, body_place]
    exact b.read_place (Header.build_place hbody fun b' hb' => (ih b' hb').2)

/-! Blocks without their layout. -/

mutual

/-- The block with this skeleton that stands at the start of a text. -/
def Skeleton.block : Skeleton → Block
  | ⟨header, body⟩ => ⟨header.map fun l => ⟨l, .start, .start⟩, blocks body, 0, .start⟩

def Skeleton.blocks : List Skeleton → List Block
  | [] => []
  | k :: ks => k.block :: blocks ks

end

theorem Skeleton.blocks_eq_map (ks : List Skeleton) : blocks ks = ks.map block := by
  induction ks with
  | nil => rfl
  | cons k ks ih => rw [blocks, ih, List.map_cons]

theorem Skeleton.blocks_append (ks ks' : List Skeleton) :
    blocks (ks ++ ks') = blocks ks ++ blocks ks' := by
  simp only [blocks_eq_map, List.map_append]

@[simp] theorem Skeleton.lexemes_block (k : Skeleton) : k.block.lexemes = k.header := by
  obtain ⟨header, body⟩ := k
  rw [block, lexemes, List.map_map]
  exact List.map_id header

@[simp] theorem Skeleton.body_block (k : Skeleton) : k.block.body = blocks k.body := by
  cases k
  rfl

@[simp] theorem Skeleton.header_section (k : Keyword) (body : List Skeleton) :
    (section_ k body).header = [.keyword k, .symbol .colon] := rfl

@[simp] theorem Skeleton.body_section (k : Keyword) (body : List Skeleton) :
    (section_ k body).body = body := rfl

@[simp] theorem Skeleton.skeleton_block (k : Skeleton) : k.block.skeleton = k := by
  induction k using Skeleton.induction with
  | h header body ih =>
    have hbody : skeletons (blocks body) = body := by
      rw [blocks_eq_map, skeletons_eq_map, List.map_map]
      exact (List.map_congr_left ih).trans (List.map_id body)
    rw [block, skeleton, hbody, List.map_map]
    exact congrArg (Skeleton.mk · body) (List.map_id header)

theorem Block.place_start (b : Block) : b.place (fun _ => .start) = b.skeleton.block := by
  induction b using Block.induction with
  | h b ih =>
    have hbody : b.body.map (place fun _ => .start) = Skeleton.blocks (skeletons b.body) := by
      rw [Skeleton.blocks_eq_map, skeletons_eq_map, List.map_map]
      exact List.map_congr_left ih
    rw [place_eq, hbody]
    obtain ⟨header, body, indent, position⟩ := b
    rw [skeleton, Skeleton.block, List.map_map]
    rfl

theorem Block.map_place_start (bs : List Block) :
    bs.map (place fun _ => .start) = Skeleton.blocks (skeletons bs) := by
  rw [Skeleton.blocks_eq_map, skeletons_eq_map, List.map_map]
  exact List.map_congr_left fun b _ => place_start b

/-- Whether a fact can be read, and which, is told by the skeleton. -/
theorem Fact.ofBlock_block {b : Block} {fact : Fact} :
    Fact.ofBlock b.skeleton.block = .ok fact ↔ Fact.ofBlock b = .ok fact := by
  rw [← place_start, Fact.ofBlock_place, exceptMapError_eq_ok]

theorem Fact.ofBlocks_blocks {bs : List Block} {facts : List Fact} :
    Fact.ofBlocks (Skeleton.blocks (skeletons bs)) = .ok facts ↔ Fact.ofBlocks bs = .ok facts := by
  rw [← map_place_start, Fact.ofBlocks_place, exceptMapError_eq_ok]

theorem Statement.ofBlock_block {b : Block} {s : Statement} :
    Statement.ofBlock b.skeleton.block = .ok s ↔ Statement.ofBlock b = .ok s := by
  rw [← place_start, (Statement.placed b).1, exceptMapError_eq_ok]

/-! Statements of a program. -/

def TopStatement.place (f : Position → Position) (t : TopStatement) : TopStatement :=
  { t with position := f t.position }

theorem TopStatement.ofBlock_place (b : Block) :
    TopStatement.ofBlock (b.place f) =
      place f <$> (TopStatement.ofBlock b).mapError (.place f) := by
  have hbuild (hd : Header) : hd.build (b.place f).body =
      (hd.build b.body).mapError (.place f) := by
    rw [body_place]
    exact Header.build_place (Statement.placed b).2 (fun b' _ => (Statement.placed b').2) hd
  rw [ofBlock, ofBlock, ← mapError_map, ← read_map]
  refine b.read_place fun a => ?_
  obtain ⟨isPublic, hd⟩ := a
  simp only [hbuild, position_place]
  cases hd.build b.body <;> rfl

@[simp] theorem TopStatement.content_place (t : TopStatement) :
    (t.place f).content = t.content := rfl

theorem TopStatement.ofBlocks_place (bs : List Block) :
    (bs.map (Block.place f)).mapM TopStatement.ofBlock =
      List.map (place f) <$> (bs.mapM TopStatement.ofBlock).mapError (.place f) := by
  induction bs with
  | nil => rfl
  | cons b bs ih =>
    rw [List.map_cons, List.mapM_cons, List.mapM_cons, ofBlock_place, ih]
    cases TopStatement.ofBlock b with
    | error e => rfl
    | ok t => cases bs.mapM TopStatement.ofBlock <;> rfl

/-- Blocks that agree once placed are read with the same outcome up to the places. -/
theorem TopStatement.same_of_place {bs bs' : List Block}
    (h : bs.map (Block.place f) = bs'.map (Block.place f)) :
    (∃ ts ts', bs.mapM TopStatement.ofBlock = .ok ts ∧ bs'.mapM TopStatement.ofBlock = .ok ts' ∧
      ts.map (place f) = ts'.map (place f)) ∨
    ∃ e e', bs.mapM TopStatement.ofBlock = .error e ∧ bs'.mapM TopStatement.ofBlock = .error e' ∧
      e.place f = e'.place f := by
  have hread := ofBlocks_place (f := f) bs
  rw [h, ofBlocks_place] at hread
  cases hbs : bs.mapM TopStatement.ofBlock with
  | ok ts =>
    cases hbs' : bs'.mapM TopStatement.ofBlock with
    | ok ts' =>
      rw [hbs, hbs'] at hread
      exact .inl ⟨ts, ts', rfl, rfl, (Except.ok.inj hread).symm⟩
    | error e' =>
      rw [hbs, hbs'] at hread
      cases hread
  | error e =>
    cases hbs' : bs'.mapM TopStatement.ofBlock with
    | ok ts' =>
      rw [hbs, hbs'] at hread
      cases hread
    | error e' =>
      rw [hbs, hbs'] at hread
      exact .inr ⟨e, e', rfl, rfl, (Except.error.inj hread).symm⟩

end FactScript
