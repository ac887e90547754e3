import FactScript.Lexeme.Unicode
import FactScript.Proofs.SectionGrammar

/-!
Statements as blocks. Every block that was laid out by lines is read as a statement exactly when the
grammar derives one from it, and then it is the statement that the grammar gives.
-/
namespace FactScript

section Opening

variable {α : Type} {body : List Skeleton → α → Prop} {absent a : α} {h ts : List Lexeme}
  {bs : List Block} {parse : Except ParseError α}

/-- A body is read after a colon only, and without one there is none. -/
theorem readsOpening_iff (hcolon : .symbol .colon ∉ h)
    (hlast : bs ≠ [] → ts.getLast? = some (.symbol .colon))
    (hparse : parse = .ok a ↔ body (Block.skeletons bs) a) :
    ReadsOpening body absent h ⟨ts, Block.skeletons bs⟩ a ↔
      ∃ opens, ts = h ++ opening opens ∧ (if opens then parse else .ok absent) = .ok a := by
  constructor
  · intro hr
    generalize hks : Block.skeletons bs = ks at hr hparse
    cases hr with
    | closed => exact ⟨false, by simp [opening], rfl⟩
    | opened hb => exact ⟨true, rfl, hparse.mpr hb⟩
  · rintro ⟨opens, rfl, ha⟩
    cases opens with
    | true => exact .opened (hparse.mp ha)
    | false =>
      have hnil : bs = [] := by
        by_contra hne
        have hmem := List.mem_of_getLast? (hlast hne)
        rw [opening, List.append_nil] at hmem
        exact hcolon hmem
      cases ha
      rw [hnil, opening, List.append_nil]
      exact .closed

end Opening

theorem exceptIteBind_eq_ok {α β : Type} {b : Bool} {x y : Except ParseError α}
    {f : α → Except ParseError β} {c : β} : (if b = true then x >>= f else y >>= f) = .ok c ↔
      ∃ a, (if b = true then x else y) = .ok a ∧ f a = .ok c := by
  cases b <;> simp [exceptBind_eq_ok]

def Statement.Exact (bs : List Block) : Prop :=
  ∀ ss, Statement.ofBlocks bs = .ok ss ↔ ReadsStatements (Block.skeletons bs) ss

theorem Statement.exact_of_forall {bs : List Block}
    (h : ∀ b ∈ bs, ∀ s, Statement.ofBlock b = .ok s ↔ ReadsStatement b.skeleton s) :
    Statement.Exact bs := by
  intro ss
  induction bs generalizing ss with
  | nil =>
    rw [Statement.ofBlocks]
    constructor
    · rintro ⟨⟩
      exact .nil
    · rintro ⟨⟩
      rfl
  | cons b bs ih =>
    obtain ⟨hb, hbs⟩ := List.forall_mem_cons.mp h
    simp only [Statement.ofBlocks, exceptBind_eq_ok, exceptPure_eq_ok, hb, ih hbs]
    constructor
    · rintro ⟨s, hs, ss, hss, rfl⟩
      exact .cons hs hss
    · intro h
      cases h with
      | cons hs hss => exact ⟨_, hs, _, hss, rfl⟩

section Goals

variable {bs : List Block} {goals : List Fact} {proof : List Statement}

theorem Statement.goalsAndProof_eq_ok [Alphabet] (hbs : ∀ b ∈ bs, b.skeleton.Laid)
    (hbodies : ∀ b ∈ bs, Statement.Exact b.body) :
    Statement.goalsAndProof bs = .ok (goals, proof) ↔ ∃ ks body,
      Block.skeletons bs = ks ++ [.section_ .proof body] ∧ ReadsFacts ks goals ∧
        ReadsStatements body proof := by
  induction bs generalizing goals with
  | nil => simp [Statement.goalsAndProof, Block.skeletons]
  | cons b bs ih =>
    obtain ⟨hb, hbs⟩ := List.forall_mem_cons.mp hbs
    obtain ⟨hbody, hbodies⟩ := List.forall_mem_cons.mp hbodies
    cases bs with
    | nil =>
      obtain ⟨header, body, indent, position⟩ := b
      simp only [Statement.goalsAndProof, exceptBind_eq_ok, exceptPure_eq_ok, Prod.mk.injEq,
        Block.readSection_iff (hbody _), Block.skeletons]
      constructor
      · rintro ⟨ss, ⟨ks, hsec, hss⟩, rfl, rfl⟩
        exact ⟨[], ks, by rw [hsec]; rfl, .nil, hss⟩
      · rintro ⟨ks, body', hsec, hgoals, hss⟩
        cases ks with
        | nil =>
          cases hgoals
          exact ⟨proof, ⟨body', List.head_eq_of_cons_eq hsec, hss⟩, rfl, rfl⟩
        | cons k ks => simp at hsec
    | cons b' bs =>
      simp only [Statement.goalsAndProof, exceptBind_eq_ok, Fact.ofBlock_eq_ok hb]
      rw [Block.skeletons]
      constructor
      · rintro ⟨goal, hgoal, ⟨goals, proof⟩, hrest, h⟩
        cases h
        obtain ⟨ks, body, hks, hgoals, hss⟩ := (ih hbs hbodies).mp hrest
        exact ⟨b.skeleton :: ks, body, by rw [hks]; rfl, .cons hgoal hgoals, hss⟩
      · rintro ⟨ks, body, hks, hgoals, hss⟩
        cases hgoals with
        | nil => simp [Block.skeletons] at hks
        | @cons k ks goal goals hgoal hgoals =>
          obtain ⟨rfl, htail⟩ := List.cons.inj hks
          exact ⟨goal, hgoal, (goals, proof), (ih hbs hbodies).mpr ⟨ks, body, htail, hgoals, hss⟩,
            rfl⟩

theorem Statement.endInProof_of_goalsAndProof {a : List Fact × List Statement}
    (h : Statement.goalsAndProof bs = .ok a) : Block.endInProof bs = true := by
  induction bs generalizing a with
  | nil => cases h
  | cons b bs ih =>
    cases bs with
    | nil =>
      obtain ⟨header, body, indent, position⟩ := b
      simp only [Statement.goalsAndProof, exceptBind_eq_ok, Block.readSection_eq_ok] at h
      obtain ⟨_, ⟨hts, -⟩, -⟩ := h
      simp [Block.endInProof, Block.startsWith, hts]
    | cons b' bs =>
      simp only [Statement.goalsAndProof, exceptBind_eq_ok] at h
      obtain ⟨_, -, a', h, -⟩ := h
      simpa [Block.endInProof] using ih h

end Goals

namespace Header

variable {body : List Block} {ts : List Lexeme} {hd : Header} {s : Statement}

theorem build_sound [Alphabet] (hlast : body ≠ [] → ts.getLast? = some (.symbol .colon))
    (hlaid : ∀ b ∈ body, b.skeleton.Laid) (hbody : Statement.Exact body)
    (hbodies : ∀ b ∈ body, Statement.Exact b.body) (hh : ReadsHeader ts hd)
    (hs : hd.build body = .ok s) :
    ReadsStatement ⟨ts, Block.skeletons body⟩ s := by
  have hfact {ts' : List Lexeme} {f : FactHeader} {fact : Fact}
      (hlast : body ≠ [] → ts'.getLast? = some (.symbol .colon)) (hf : ReadsFactHeader ts' f)
      (h : f.build body = .ok fact) : ReadsFact ⟨ts', Block.skeletons body⟩ fact :=
    (FactHeader.build_eq_ok hlast fun _ _ => Fact.ifThen_eq_ok hlaid).mp ⟨f, hf, h⟩
  cases hh with
  | var b hu =>
    simp only [build, buildWith, exceptIteBind_eq_ok, exceptPure_eq_ok] at hs
    obtain ⟨fs, hfs, rfl⟩ := hs
    have hcolon := hu.colon_notMem trivial
    exact .var hu ((readsOpening_iff hcolon hlast (Fact.ofBlocks_eq_ok hlaid)).mpr ⟨b, rfl, hfs⟩)
  | concept typeVar name b =>
    simp only [build, buildWith, exceptIteBind_eq_ok, exceptPure_eq_ok] at hs
    obtain ⟨c, hc, rfl⟩ := hs
    exact .concept ((readsOpening_iff (by simp) hlast (ConceptBody.ofBlocks_eq_ok hlaid)).mpr
      ⟨b, rfl, hc⟩)
  | type name b =>
    simp only [build, buildWith, exceptIteBind_eq_ok, exceptPure_eq_ok] at hs
    obtain ⟨c, hc, rfl⟩ := hs
    exact .type ((readsOpening_iff (by simp) hlast (ConceptBody.ofBlocks_eq_ok hlaid)).mpr
      ⟨b, rfl, hc⟩)
  | property b hu =>
    simp only [build, buildWith, exceptIteBind_eq_ok] at hs
    obtain ⟨a, ha, hs⟩ := hs
    cases hs
    have hcolon := hu.colon_notMem trivial
    exact .property hu
      ((readsOpening_iff hcolon hlast (Fact.ifThen_eq_ok hlaid)).mpr ⟨b, rfl, ha⟩)
  | fn b hu =>
    simp only [build, buildWith, exceptIteBind_eq_ok] at hs
    obtain ⟨a, ha, hs⟩ := hs
    cases hs
    exact .fn hu ((readsOpening_iff (hu.colon_notMem trivial) hlast (Fact.ifThen_eq_ok hlaid)).mpr
      ⟨b, rfl, ha⟩)
  | claim =>
    simp only [build, buildWith] at hs
    split at hs
    · rw [exceptBind_eq_ok] at hs
      obtain ⟨⟨goals, proof⟩, h, hs⟩ := hs
      cases hs
      obtain ⟨ks, body', hks, hgoals, hproof⟩ := (Statement.goalsAndProof_eq_ok hlaid hbodies).mp h
      rw [hks]
      exact .claim hgoals hproof
    · cases hs
  | proof =>
    simp only [build, buildWith, exceptBind_eq_ok, exceptPure_eq_ok] at hs
    obtain ⟨ss, hss, rfl⟩ := hs
    exact .proof ((hbody _).mp hss)
  | know =>
    simp only [build, buildWith, exceptBind_eq_ok, exceptPure_eq_ok] at hs
    obtain ⟨fs, hfs, rfl⟩ := hs
    exact .know ((Fact.ofBlocks_eq_ok hlaid).mp hfs)
  | knowFact hf =>
    simp only [build, buildWith, exceptBind_eq_ok, exceptPure_eq_ok] at hs
    obtain ⟨fact, h, rfl⟩ := hs
    exact .knowFact (hfact (fun hne => (getLast?_cons_iff (by simp)).mp (hlast hne)) hf h)
  | use hu =>
    cases hs
    have hnil : body = [] := by
      by_contra hne
      have hmem := List.mem_of_getLast? (hlast hne)
      simp [hu.colon_notMem trivial] at hmem
    rw [hnil]
    exact .use hu
  | exist b hu =>
    simp only [build, buildWith, exceptIteBind_eq_ok, exceptPure_eq_ok] at hs
    obtain ⟨e, he, rfl⟩ := hs
    exact .exist hu ((readsOpening_iff (by simp [hu.colon_notMem trivial]) hlast
      (ExistBody.ofBlocks_eq_ok hlaid)).mpr ⟨b, rfl, he⟩)
  | witness hu =>
    simp only [build, buildWith] at hs
    split at hs
    · next line =>
      simp only [exceptBind_eq_ok, exceptPure_eq_ok] at hs
      obtain ⟨names, hnames, rfl⟩ := hs
      have hline := hlaid line (List.mem_singleton_self _)
      exact .witness hu ((Block.readLine_iff Parser.names_exact ⟨nofun, trivial⟩ hline).mp hnames)
    · cases hs
  | member b hv hw =>
    simp only [build, buildWith, exceptIteBind_eq_ok, exceptPure_eq_ok] at hs
    obtain ⟨fs, hfs, rfl⟩ := hs
    exact .member hv hw ((readsOpening_iff
      (by simp [hv.colon_notMem trivial, hw.colon_notMem trivial]) hlast
      (Fact.ofBlocks_eq_ok hlaid)).mpr ⟨b, rfl, hfs⟩)
  | typeMember b hw =>
    simp only [build, buildWith, exceptIteBind_eq_ok, exceptPure_eq_ok] at hs
    obtain ⟨fs, hfs, rfl⟩ := hs
    exact .typeMember hw ((readsOpening_iff (by simp [hw.colon_notMem trivial]) hlast
      (Fact.ofBlocks_eq_ok hlaid)).mpr ⟨b, rfl, hfs⟩)
  | fact hf =>
    simp only [build, buildWith, exceptBind_eq_ok, exceptPure_eq_ok] at hs
    obtain ⟨fact, h, rfl⟩ := hs
    exact .fact (hfact hlast hf h)

theorem build_complete [Alphabet] (hlast : body ≠ [] → ts.getLast? = some (.symbol .colon))
    (hlaid : ∀ b ∈ body, b.skeleton.Laid) (hbody : Statement.Exact body)
    (hbodies : ∀ b ∈ body, Statement.Exact b.body)
    (h : ReadsStatement ⟨ts, Block.skeletons body⟩ s) :
    ∃ hd, ReadsHeader ts hd ∧ hd.build body = .ok s := by
  have hfact {ts' : List Lexeme} {fact : Fact}
      (hlast : body ≠ [] → ts'.getLast? = some (.symbol .colon))
      (h : ReadsFact ⟨ts', Block.skeletons body⟩ fact) :
      ∃ f, ReadsFactHeader ts' f ∧ f.build body = .ok fact :=
    (FactHeader.build_eq_ok hlast fun _ _ => Fact.ifThen_eq_ok hlaid).mpr h
  generalize hk : (⟨ts, Block.skeletons body⟩ : Skeleton) = k at h
  cases h with
  | var hu ho =>
    subst hk
    obtain ⟨b, rfl, hfs⟩ :=
      (readsOpening_iff (hu.colon_notMem trivial) hlast (Fact.ofBlocks_eq_ok hlaid)).mp ho
    exact ⟨_, .var b hu, exceptIteBind_eq_ok.mpr ⟨_, hfs, rfl⟩⟩
  | concept ho =>
    subst hk
    obtain ⟨b, rfl, hc⟩ :=
      (readsOpening_iff (by simp) hlast (ConceptBody.ofBlocks_eq_ok hlaid)).mp ho
    exact ⟨_, .concept _ _ b, exceptIteBind_eq_ok.mpr ⟨_, hc, rfl⟩⟩
  | type ho =>
    subst hk
    obtain ⟨b, rfl, hc⟩ :=
      (readsOpening_iff (by simp) hlast (ConceptBody.ofBlocks_eq_ok hlaid)).mp ho
    exact ⟨_, .type _ b, exceptIteBind_eq_ok.mpr ⟨_, hc, rfl⟩⟩
  | property hu ho =>
    subst hk
    obtain ⟨b, rfl, ha⟩ :=
      (readsOpening_iff (hu.colon_notMem trivial) hlast (Fact.ifThen_eq_ok hlaid)).mp ho
    exact ⟨_, .property b hu, exceptIteBind_eq_ok.mpr ⟨_, ha, rfl⟩⟩
  | fn hu ho =>
    subst hk
    obtain ⟨b, rfl, ha⟩ :=
      (readsOpening_iff (hu.colon_notMem trivial) hlast (Fact.ifThen_eq_ok hlaid)).mp ho
    exact ⟨_, .fn b hu, exceptIteBind_eq_ok.mpr ⟨_, ha, rfl⟩⟩
  | claim hgoals hproof =>
    obtain ⟨rfl, hks⟩ := Skeleton.mk.inj hk
    have hok := (Statement.goalsAndProof_eq_ok hlaid hbodies).mpr ⟨_, _, hks, hgoals, hproof⟩
    refine ⟨_, .claim, ?_⟩
    simp only [build, buildWith]
    rw [if_pos (Statement.endInProof_of_goalsAndProof hok), exceptBind_eq_ok]
    exact ⟨_, hok, rfl⟩
  | proof hproof =>
    obtain ⟨rfl, rfl⟩ := Skeleton.mk.inj hk
    exact ⟨_, .proof, exceptBind_eq_ok.mpr ⟨_, (hbody _).mpr hproof, rfl⟩⟩
  | know hfs =>
    obtain ⟨rfl, rfl⟩ := Skeleton.mk.inj hk
    exact ⟨_, .know, exceptBind_eq_ok.mpr ⟨_, (Fact.ofBlocks_eq_ok hlaid).mpr hfs, rfl⟩⟩
  | knowFact hf =>
    obtain ⟨rfl, rfl⟩ := Skeleton.mk.inj hk
    obtain ⟨fh, hfh, h⟩ := hfact (fun hne => (getLast?_cons_iff (by simp)).mp (hlast hne)) hf
    exact ⟨_, .knowFact hfh, exceptBind_eq_ok.mpr ⟨_, h, rfl⟩⟩
  | use hu =>
    obtain ⟨rfl, -⟩ := Skeleton.mk.inj hk
    exact ⟨_, .use hu, rfl⟩
  | exist hu ho =>
    subst hk
    obtain ⟨b, rfl, he⟩ := (readsOpening_iff (by simp [hu.colon_notMem trivial]) hlast
      (ExistBody.ofBlocks_eq_ok hlaid)).mp ho
    exact ⟨_, .exist b hu, exceptIteBind_eq_ok.mpr ⟨_, he, rfl⟩⟩
  | witness hu hline =>
    obtain ⟨rfl, hks⟩ := Skeleton.mk.inj hk
    rw [Block.skeletons_eq_map, List.map_eq_singleton_iff] at hks
    obtain ⟨line, rfl, rfl⟩ := hks
    have hlaid := hlaid line (List.mem_singleton_self _)
    have hnames := (Block.readLine_iff Parser.names_exact ⟨nofun, trivial⟩ hlaid).mpr hline
    exact ⟨_, .witness hu, exceptBind_eq_ok.mpr ⟨_, hnames, rfl⟩⟩
  | member hv hw ho =>
    subst hk
    obtain ⟨b, rfl, hfs⟩ :=
      (readsOpening_iff (by simp [hv.colon_notMem trivial, hw.colon_notMem trivial])
      hlast (Fact.ofBlocks_eq_ok hlaid)).mp ho
    exact ⟨_, .member b hv hw, exceptIteBind_eq_ok.mpr ⟨_, hfs, rfl⟩⟩
  | typeMember hw ho =>
    subst hk
    obtain ⟨b, rfl, hfs⟩ := (readsOpening_iff (by simp [hw.colon_notMem trivial]) hlast
      (Fact.ofBlocks_eq_ok hlaid)).mp ho
    exact ⟨_, .typeMember b hw, exceptIteBind_eq_ok.mpr ⟨_, hfs, rfl⟩⟩
  | fact hf =>
    subst hk
    obtain ⟨fh, hfh, h⟩ := hfact hlast hf
    exact ⟨_, .fact hfh, exceptBind_eq_ok.mpr ⟨_, h, rfl⟩⟩

end Header

theorem Statement.ofBlock_eq (b : Block) :
    Statement.ofBlock b = b.read Parser.header (Header.build b.body) := by
  obtain ⟨header, body, indent, position⟩ := b
  rw [Statement.ofBlock]
  rfl

theorem Statement.ofBlock_eq_ok_iff {b : Block} {s : Statement} : Statement.ofBlock b = .ok s ↔
    ∃ hd, Parser.header b.lexemes = .ok hd [] ∧ hd.build b.body = .ok s := by
  rw [Statement.ofBlock_eq, Block.read_eq_ok]

theorem Statement.ofBlock_of_header {b : Block} {s : Statement} {hd : Header}
    (h : Parser.header b.lexemes = .ok hd []) :
    Statement.ofBlock b = .ok s ↔ hd.build b.body = .ok s := by
  rw [Statement.ofBlock_eq_ok_iff, h]
  constructor
  · rintro ⟨_, ⟨⟩, hs⟩
    exact hs
  · intro hs
    exact ⟨hd, rfl, hs⟩

/-- A laid out block is read as a statement exactly as the grammar says, and so is what is nested
under it. -/
theorem Statement.exact [Alphabet] (b : Block) : b.skeleton.Laid →
    (∀ s, Statement.ofBlock b = .ok s ↔ ReadsStatement b.skeleton s) ∧ Statement.Exact b.body := by
  induction b using Block.induction with
  | h b ih =>
    intro hb
    have hlaid := Block.laid_body hb
    have hbody : Statement.Exact b.body :=
      Statement.exact_of_forall fun b' hb' => (ih b' hb' (hlaid b' hb')).1
    have hbodies : ∀ b' ∈ b.body, Statement.Exact b'.body :=
      fun b' hb' => (ih b' hb' (hlaid b' hb')).2
    refine ⟨fun s => ?_, hbody⟩
    rw [Statement.ofBlock_eq, Block.read_eq_ok, b.skeleton_eq]
    simp only [Parser.header_eq_ok]
    constructor
    · rintro ⟨hd, hh, hs⟩
      exact Header.build_sound (Block.getLast?_lexemes hb) hlaid hbody hbodies hh hs
    · exact Header.build_complete (Block.getLast?_lexemes hb) hlaid hbody hbodies

theorem TopStatement.ofBlock_eq_ok [Alphabet] {b : Block} {t : TopStatement}
    (hb : b.skeleton.Laid) :
    TopStatement.ofBlock b = .ok t ↔
      t.position = b.position ∧ ReadsTop b.skeleton t.isPublic t.statement := by
  obtain ⟨s, isPublic, position⟩ := t
  have hlaid := Block.laid_body hb
  obtain ⟨-, hbody⟩ := Statement.exact b hb
  have hbodies : ∀ b' ∈ b.body, Statement.Exact b'.body := fun b' hb' =>
    (Statement.exact b' (hlaid b' hb')).2
  have hlast := Block.getLast?_lexemes hb
  rw [TopStatement.ofBlock, Block.read_eq_ok]
  constructor
  · rintro ⟨⟨isPublic', hd⟩, hh, ht⟩
    simp only [exceptBind_eq_ok, exceptPure_eq_ok, TopStatement.mk.injEq] at ht
    obtain ⟨_, hs, rfl, rfl, rfl⟩ := ht
    obtain ⟨ts, hts, hheader⟩ := Parser.markedHeader_eq_ok.mp hh
    refine ⟨rfl, ?_⟩
    rw [b.skeleton_eq]
    rw [hts] at hlast ⊢
    cases isPublic' with
    | true =>
      exact .marked (Header.build_sound (fun hne => (getLast?_cons_iff (by simp)).mp (hlast hne))
        hlaid hbody hbodies hheader hs)
    | false => exact .plain (Header.build_sound hlast hlaid hbody hbodies hheader hs)
  · rintro ⟨rfl, ht⟩
    rw [b.skeleton_eq] at ht
    generalize hk : (⟨b.lexemes, Block.skeletons b.body⟩ : Skeleton) = k at ht
    simp only [Prod.exists, Parser.markedHeader_eq_ok, exceptBind_eq_ok, exceptPure_eq_ok,
      TopStatement.mk.injEq]
    cases ht with
    | plain h =>
      subst hk
      obtain ⟨hd, hh, hs⟩ := Header.build_complete hlast hlaid hbody hbodies h
      exact ⟨false, hd, ⟨_, rfl, hh⟩, s, hs, rfl, rfl, trivial⟩
    | @marked u _ _ h =>
      obtain ⟨hts, rfl⟩ := Skeleton.mk.inj hk
      rw [hts] at hlast
      obtain ⟨hd, hh, hs⟩ := Header.build_complete
        (fun hne => (getLast?_cons_iff (by simp)).mp (hlast hne)) hlaid hbody hbodies h
      exact ⟨true, hd, ⟨u, hts, hh⟩, s, hs, rfl, rfl, trivial⟩

/-- A block of a text that passes a test, found by running the program. -/
theorem Block.exists_of_any [Alphabet] (tabWidth : Nat) (text : String) (path : List Nat)
    (test : Block → Bool)
    (h : ((ofSource tabWidth text).toOption.bind (find? · path)).any test = true) :
    ∃ bs b, ofSource tabWidth text = .ok bs ∧ find? bs path = some b ∧ test b = true := by
  obtain ⟨b, hb, htest⟩ := (Option.any_eq_true _ _).mp h
  obtain ⟨bs, hbs, hb⟩ := Option.bind_eq_some_iff.mp hb
  cases hsource : ofSource tabWidth text with
  | error e => simp [hsource, Except.toOption] at hbs
  | ok bs' =>
    rw [hsource] at hbs
    cases hbs
    exact ⟨bs, b, rfl, hb, htest⟩

theorem exists_ok_of_isOk {ε α : Type} {x : Except ε α} (h : x.isOk = true) : ∃ a, x = .ok a := by
  cases x with
  | error e => cases h
  | ok a => exact ⟨a, rfl⟩

/-- A block of a text that is read as a statement, found by running the program. -/
theorem TopStatement.exists_of_isOk [Alphabet] (tabWidth : Nat) (text : String) (path : List Nat)
    (h : ((Block.ofSource tabWidth text).toOption.bind (Block.find? · path)).any
      (fun b => (TopStatement.ofBlock b).isOk) = true) :
    ∃ bs b t, Block.ofSource tabWidth text = .ok bs ∧ Block.find? bs path = some b ∧
      TopStatement.ofBlock b = .ok t := by
  obtain ⟨bs, b, hbs, hb, hok⟩ := Block.exists_of_any tabWidth text path _ h
  obtain ⟨t, ht⟩ := exists_ok_of_isOk hok
  exact ⟨bs, b, t, hbs, hb, ht⟩

/-- Any block of a text, at whatever depth, can be read as a statement of a program if and only if
the grammar derives it. -/
theorem TopStatement.ofBlock_succeeds_iff [Alphabet] {tabWidth : Nat} {text : String}
    {bs : List Block} {path : List Nat} {b : Block} (hbs : Block.ofSource tabWidth text = .ok bs)
    (hb : Block.find? bs path = some b) :
    (∃ t, TopStatement.ofBlock b = .ok t) ↔ ∃ isPublic s, ReadsTop b.skeleton isPublic s := by
  have hlaid := Block.laid_of_find? (Block.laid_of_ofSource hbs) hb
  constructor
  · rintro ⟨t, ht⟩
    exact ⟨_, _, ((TopStatement.ofBlock_eq_ok hlaid).mp ht).2⟩
  · rintro ⟨isPublic, s, hs⟩
    exact ⟨⟨s, isPublic, b.position⟩, (TopStatement.ofBlock_eq_ok hlaid).mpr ⟨rfl, hs⟩⟩

/-- A public claim over two levels of nesting, with a proof, is derived. -/
theorem TopStatement.ofBlock_succeeds_claim : ∃ bs b,
    Block.ofSource 4 "pub claim:\n  forall x N:\n    x = x\n  proof:\n    $p(a)" = .ok bs ∧
      Block.find? bs [0] = some b ∧ ∃ isPublic s, ReadsTop b.skeleton isPublic s := by
  obtain ⟨bs, b, t, hbs, hb, ht⟩ := TopStatement.exists_of_isOk 4
    "pub claim:\n  forall x N:\n    x = x\n  proof:\n    $p(a)" [0] (by decide +kernel)
  exact ⟨bs, b, hbs, hb, (TopStatement.ofBlock_succeeds_iff hbs hb).mp ⟨t, ht⟩⟩

end FactScript
