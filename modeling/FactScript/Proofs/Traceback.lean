import FactScript.Proofs.Discipline
import FactScript.Proofs.Placement

/-!
The trace of an error. The levels of an error lead from a block down to the one that the fault lies
in, each block nested directly under the one before, and at the last offset stands what the fault
names. What is read of a block fails only with an error traced from that block; what is read of a
body fails with an error traced from one of its blocks, or with one that says how the blocks are put
together. A program fails with the first of its blocks that cannot be read, whatever follows.
-/
namespace FactScript

/-- The level stands for this block, at a place in its header. -/
structure Level.Of (l : Level) (b : Block) : Prop where
  header : l.header = b.headerText
  position : l.position = b.position
  offset : l.offset ≤ b.header.length

/-- What the fault names stands at this offset in the header of the block. -/
structure Fault.LiesAt (fault : Fault) (b : Block) (offset : ℕ) : Prop where
  found : ∀ text ∈ fault.found?, b.header[offset]?.map (·.lexeme.text) = some text
  ended : fault.isAtEnd = true → offset = b.header.length

namespace ParseError

/-- The levels of the error lead from the block down to the one that the fault lies in. -/
inductive Traced : ParseError → Block → Prop
  | here {fault : Fault} {l : Level} {b : Block} :
      l.Of b → fault.LiesAt b l.offset → Traced ⟨[l], fault⟩ b
  | inside {e : ParseError} {l : Level} {b b' : Block} : l.Of b → b' ∈ b.body → Traced e b' →
      Traced (e.within l) b

/-- The error is traced from one of the blocks, or says how they are put together. -/
def Among (bs : List Block) (e : ParseError) : Prop :=
  (e.levels = [] ∧ e.fault.isStructural = true) ∨ ∃ b ∈ bs, e.Traced b

end ParseError

def FailsIn {α : Type} (b : Block) (x : Except ParseError α) : Prop :=
  ∀ e, x = .error e → e.Traced b

def FailsAmong {α : Type} (bs : List Block) (x : Except ParseError α) : Prop :=
  ∀ e, x = .error e → e.Among bs

theorem Fault.fits_of_isStructural {fault : Fault} (h : fault.isStructural = true)
    (next : Option Lexeme) :
    fault.Fits next := by
  cases fault <;> first | exact Fault.fits_of_silent rfl rfl next | cases h

namespace Block

variable {b : Block} {u rest : List Lexeme}

theorem offset_level (h : b.lexemes = u ++ rest) : (b.level rest).offset = u.length := by
  have hlength := congrArg List.length h
  rw [lexemes, List.length_map, List.length_append] at hlength
  change b.header.length - rest.length = u.length
  omega

theorem level_of (b : Block) (rest : List Lexeme) : (b.level rest).Of b :=
  ⟨rfl, rfl, Nat.sub_le _ _⟩

/-- A fault that fits the lexemes that are left lies at the offset of the level. -/
theorem liesAt_level {fault : Fault} (h : b.lexemes = u ++ rest) (hfits : fault.Fits rest.head?) :
    fault.LiesAt b (b.level rest).offset := by
  rw [offset_level h]
  have hnext : b.header[u.length]?.map Token.lexeme = rest.head? := by
    rw [← List.getElem?_map, ← lexemes, h, List.getElem?_append_right (Nat.le_refl _), Nat.sub_self,
      List.head?_eq_getElem?]
  refine ⟨fun text htext => ?_, fun hend => ?_⟩
  · rw [← hfits.found text htext, ← hnext, Option.map_map]
    rfl
  · rw [hfits.ended hend, Option.map_eq_none_iff, List.getElem?_eq_none_iff] at hnext
    have hlength := congrArg List.length h
    rw [lexemes, List.length_map, List.length_append] at hlength
    omega

/-- A block whose header is read by a careful parser fails with errors traced from it. -/
theorem failsIn_read {η α : Type} {header : Parser η} {build : η → Except ParseError α} {k : ℕ}
    (hheader : ∀ n, header.Careful k n) (hbuild : ∀ a, FailsAmong b.body (build a)) :
    FailsIn b (b.read header build) := by
  intro e he
  obtain ⟨u, rest, hlexemes, hu⟩ := hheader (b.lexemes.length + 1) (Nat.lt_succ_self _)
  have htraced {fault : Fault} (hfits : fault.Fits rest.head?) :
      ParseError.Traced ⟨[b.level rest], fault⟩ b :=
    .here (b.level_of rest) (liesAt_level hlexemes hfits)
  cases hu with
  | error fault hfits hrun =>
    have hrun := hrun rfl
    rw [← hlexemes] at hrun
    rw [read, hrun] at he
    cases he
    exact htraced hfits
  | ok a _ hrun =>
    have hrun := hrun rfl
    rw [← hlexemes] at hrun
    rw [read, hrun] at he
    cases hbuilt : build a with
    | error e' =>
      simp only [hbuilt, Except.error.injEq] at he
      subst he
      rcases hbuild a e' hbuilt with ⟨hlevels, hstructural⟩ | ⟨b', hb', he'⟩
      · rw [ParseError.within, hlevels]
        exact htraced (Fault.fits_of_isStructural hstructural _)
      · exact .inside (b.level_of rest) hb' he'
    | ok c =>
      simp only [hbuilt] at he
      cases rest with
      | nil => cases he
      | cons t rest =>
        cases he
        exact htraced (Fault.trailingToken_fits t)

end Block

/-! What is read of several blocks. -/

section Among

variable {α β : Type} {bs bs' : List Block} {b : Block} {x : Except ParseError α}

theorem FailsIn.among (h : FailsIn b x) (hb : b ∈ bs) : FailsAmong bs x :=
  fun e he => .inr ⟨b, hb, h e he⟩

theorem FailsAmong.mono (h : FailsAmong bs x) (hbs : bs ⊆ bs') : FailsAmong bs' x := by
  intro e he
  rcases h e he with hbare | ⟨b, hb, hb'⟩
  · exact .inl hbare
  · exact .inr ⟨b, hbs hb, hb'⟩

theorem failsAmong_ok (a : α) : FailsAmong bs (.ok a) := fun e he => by cases he

theorem failsAmong_bare {fault : Fault} (h : fault.isStructural = true) :
    FailsAmong bs (.error (.bare fault) : Except ParseError α) := by
  intro e he
  cases he
  exact .inl ⟨rfl, h⟩

theorem FailsAmong.bind {f : α → Except ParseError β} (hx : FailsAmong bs x)
    (hf : ∀ a, FailsAmong bs (f a)) :
    FailsAmong bs (x >>= f) := by
  intro e he
  cases x with
  | error e' =>
    cases he
    exact hx _ rfl
  | ok a => exact hf a e he

theorem FailsAmong.map (hx : FailsAmong bs x) (f : α → β) : FailsAmong bs (f <$> x) := by
  intro e he
  cases x with
  | error e' =>
    cases he
    exact hx _ rfl
  | ok a => cases he

theorem FailsAmong.ite {c : Prop} [Decidable c] {y : Except ParseError α} (hx : FailsAmong bs x)
    (hy : FailsAmong bs y) : FailsAmong bs (if c then x else y) := by
  split
  · exact hx
  · exact hy

theorem mapM_append_error {ε α β : Type} {f : α → Except ε β} {before : List α} {a : α} {e : ε}
    (hbefore : ∀ a' ∈ before, ∃ b, f a' = .ok b) (ha : f a = .error e) (after : List α) :
    (before ++ a :: after).mapM f = .error e := by
  induction before with
  | nil =>
    rw [List.nil_append, List.mapM_cons, ha]
    rfl
  | cons a' before ih =>
    obtain ⟨⟨b, hb⟩, hbefore⟩ := List.forall_mem_cons.mp hbefore
    rw [List.cons_append, List.mapM_cons, hb, ih hbefore]
    rfl

theorem exists_of_mapM_error {ε α β : Type} {f : α → Except ε β} {as : List α} {e : ε}
    (h : as.mapM f = .error e) : ∃ before a after, as = before ++ a :: after ∧
      (∀ a' ∈ before, ∃ b, f a' = .ok b) ∧ f a = .error e := by
  induction as with
  | nil => cases h
  | cons a as ih =>
    rw [List.mapM_cons] at h
    cases ha : f a with
    | error e' =>
      rw [ha] at h
      cases h
      exact ⟨[], a, as, rfl, fun a' ha' => (by cases ha'), ha⟩
    | ok b =>
      rw [ha] at h
      cases has : as.mapM f with
      | error e' =>
        rw [has] at h
        cases h
        obtain ⟨before, a', after, rfl, hbefore, ha'⟩ := ih has
        exact ⟨a :: before, a', after, rfl, List.forall_mem_cons.mpr ⟨⟨b, ha⟩, hbefore⟩, ha'⟩
      | ok bs =>
        rw [has] at h
        cases h

theorem failsAmong_mapM {read : Block → Except ParseError α} (h : ∀ b ∈ bs, FailsIn b (read b)) :
    FailsAmong bs (bs.mapM read) := by
  intro e he
  obtain ⟨before, b, after, rfl, -, hb⟩ := exists_of_mapM_error he
  have hmem : b ∈ before ++ b :: after := List.mem_append_right before List.mem_cons_self
  exact .inr ⟨b, hmem, h b hmem e hb⟩

end Among

theorem Block.failsAmong_readSection {α : Type} {b : Block} {bs : List Block}
    {x : Except ParseError α} (k : Keyword) (hb : b ∈ bs) (h : FailsAmong b.body x) :
    FailsAmong bs (b.readSection k fun _ => x) :=
  (failsIn_read (fun _ => Parser.sectionHeader_careful k) fun _ => h).among hb

theorem Block.failsIn_readLine {α : Type} {b : Block} {header : Parser α} {k : ℕ}
    (h : ∀ n, header.Careful k n) : FailsIn b (b.readLine header) := failsIn_read h failsAmong_ok

/-! Facts. -/

theorem Fact.ifThen_failsAmong {bs : List Block} (hbs : FailsAmong bs (Fact.ofBlocks bs))
    (hbodies : ∀ b ∈ bs, FailsAmong b.body (Fact.ofBlocks b.body)) :
    FailsAmong bs (Fact.ifThen bs) := by
  have hsection {b : Block} (k : Keyword) (hb : b ∈ bs) :
      FailsAmong bs (b.readSection k fun _ => Fact.ofBlocks b.body) :=
    Block.failsAmong_readSection k hb (hbodies b hb)
  rcases bs with _ | ⟨b, rest⟩
  · exact failsAmong_ok _
  have hb : b ∈ b :: rest := List.mem_cons_self
  by_cases hi : b.startsWith .ifKw = true
  · rcases rest with _ | ⟨b', rest⟩
    · rw [Fact.ifThen_if_alone hi]
      exact (hsection .ifKw hb).bind fun _ => failsAmong_bare rfl
    have hb' : b' ∈ b :: b' :: rest := List.mem_cons_of_mem b List.mem_cons_self
    by_cases ht : b'.startsWith .thenKw = true
    · rcases rest with _ | ⟨extra, rest⟩
      · rw [Fact.ifThen_if_then hi ht]
        exact (hsection .ifKw hb).bind fun _ => (hsection .thenKw hb').bind fun _ => failsAmong_ok _
      · rw [Fact.ifThen_if_trailing hi ht]
        exact (hsection .ifKw hb).bind fun _ => (hsection .thenKw hb').bind fun _ =>
          failsAmong_bare rfl
    · rw [Fact.ifThen_if_other hi (by simpa using ht)]
      exact (hsection .ifKw hb).bind fun _ => failsAmong_bare rfl
  have hi : b.startsWith .ifKw = false := by simpa using hi
  by_cases ht : b.startsWith .thenKw = true
  · rcases rest with _ | ⟨extra, rest⟩
    · rw [Fact.ifThen_then_alone hi ht]
      exact (hsection .thenKw hb).map _
    · rw [Fact.ifThen_then_trailing hi ht]
      exact failsAmong_bare rfl
  · rw [Fact.ifThen_facts hi (by simpa using ht)]
    exact hbs.map _

/-- By induction on what is nested under the block. -/
theorem Fact.failsIn_ofBlock (b : Block) :
    FailsIn b (Fact.ofBlock b) ∧ FailsAmong b.body (Fact.ofBlocks b.body) := by
  induction b using Block.induction with
  | h b ih =>
    have hbody : FailsAmong b.body (Fact.ofBlocks b.body) := by
      rw [Fact.ofBlocks_eq_mapM]
      exact failsAmong_mapM fun b' hb' => (ih b' hb').1
    have hifThen : FailsAmong b.body (Fact.ifThen b.body) :=
      Fact.ifThen_failsAmong hbody fun b' hb' => (ih b' hb').2
    refine ⟨?_, hbody⟩
    rw [Fact.ofBlock_eq]
    refine Block.failsIn_read (fun _ => Parser.factHeader_careful) fun hd => ?_
    cases hd with
    | specific fact => exact failsAmong_ok _
    | universal generics params guards => exact hifThen.bind fun _ => failsAmong_ok _

theorem Fact.failsAmong_ofBlocks (bs : List Block) : FailsAmong bs (Fact.ofBlocks bs) := by
  rw [Fact.ofBlocks_eq_mapM]
  exact failsAmong_mapM fun b _ => (Fact.failsIn_ofBlock b).1

theorem Fact.failsAmong_ifThen (bs : List Block) : FailsAmong bs (Fact.ifThen bs) :=
  Fact.ifThen_failsAmong (Fact.failsAmong_ofBlocks bs) fun b _ => (Fact.failsIn_ofBlock b).2

theorem FactHeader.failsAmong_build (bs : List Block) (hd : FactHeader) :
    FailsAmong bs (hd.build bs) := by
  cases hd with
  | specific fact => exact failsAmong_ok _
  | universal generics params guards =>
    exact (Fact.failsAmong_ifThen bs).bind fun _ => failsAmong_ok _

/-! Declarations and sections. -/

theorem Decl.failsAmong_ofBlocks (bs : List Block) : FailsAmong bs (Decl.ofBlocks bs) :=
  failsAmong_mapM fun _ _ => Block.failsIn_readLine fun _ => Parser.decl_careful

theorem Members.failsAmong_ofBlocks (bs : List Block) : FailsAmong bs (Members.ofBlocks bs) :=
  (Decl.failsAmong_ofBlocks bs).map _

theorem Block.failsAmong_names (bs : List Block) : FailsAmong bs (Block.names bs) :=
  (failsAmong_mapM fun _ _ => failsIn_readLine fun _ => Parser.names_careful).map _

theorem Sectioned.failsAmong_keyword (host : Sectioned) (allowed seen : List Keyword) (b : Block)
    (bs : List Block) : FailsAmong bs (host.keyword allowed seen b) := by
  unfold Sectioned.keyword
  split
  · exact failsAmong_bare rfl
  · exact .ite (failsAmong_bare rfl) (failsAmong_ok _)

theorem ConceptBody.failsAmong_withSection (c : ConceptBody) (k : Keyword) {b : Block}
    {bs : List Block} (hb : b ∈ bs) : FailsAmong bs (c.withSection k b) := by
  unfold ConceptBody.withSection
  split
  · exact (Block.failsAmong_readSection _ hb (Block.failsAmong_names _)).bind fun _ =>
      failsAmong_ok _
  · exact (Block.failsAmong_readSection _ hb (Members.failsAmong_ofBlocks _)).bind fun _ =>
      failsAmong_ok _
  · exact (Block.failsAmong_readSection _ hb (Members.failsAmong_ofBlocks _)).bind fun _ =>
      failsAmong_ok _
  · exact (Block.failsAmong_readSection _ hb (Fact.failsAmong_ofBlocks _)).bind fun _ =>
      failsAmong_ok _

theorem ConceptBody.failsAmong_addSections (host : Sectioned) (seen : List Keyword)
    (c : ConceptBody) (bs : List Block) : FailsAmong bs (addSections host seen c bs) := by
  induction bs generalizing seen c with
  | nil => exact failsAmong_ok c
  | cons b bs ih =>
    exact (Sectioned.failsAmong_keyword host keywords seen b _).bind fun k =>
      (failsAmong_withSection c k List.mem_cons_self).bind fun c' =>
        (ih (k :: seen) c').mono (List.subset_cons_self b bs)

theorem ExistBody.failsAmong_withSection (e : ExistBody) (k : Keyword) {b : Block} {bs : List Block}
    (hb : b ∈ bs) : FailsAmong bs (e.withSection k b) := by
  unfold ExistBody.withSection
  split
  · exact (Block.failsAmong_readSection _ hb (Fact.failsAmong_ofBlocks _)).bind fun _ =>
      failsAmong_ok _
  · exact (Block.failsAmong_readSection _ hb (Decl.failsAmong_ofBlocks _)).bind fun _ =>
      failsAmong_ok _
  · exact (Block.failsAmong_readSection _ hb (Fact.failsAmong_ofBlocks _)).bind fun _ =>
      failsAmong_ok _

theorem ExistBody.failsAmong_addSections (seen : List Keyword) (e : ExistBody) (bs : List Block) :
    FailsAmong bs (addSections seen e bs) := by
  induction bs generalizing seen e with
  | nil => exact failsAmong_ok e
  | cons b bs ih =>
    exact (Sectioned.failsAmong_keyword .exist keywords seen b _).bind fun k =>
      (failsAmong_withSection e k List.mem_cons_self).bind fun e' =>
        (ih (k :: seen) e').mono (List.subset_cons_self b bs)

/-! Statements. -/

theorem Statement.goalsAndProof_failsAmong {bs : List Block}
    (hbodies : ∀ b ∈ bs, FailsAmong b.body (Statement.ofBlocks b.body)) :
    FailsAmong bs (Statement.goalsAndProof bs) := by
  induction bs with
  | nil => exact failsAmong_bare rfl
  | cons b bs ih =>
    obtain ⟨hbody, hbodies⟩ := List.forall_mem_cons.mp hbodies
    cases bs with
    | nil =>
      rw [Statement.goalsAndProof_alone]
      exact (Block.failsAmong_readSection .proof List.mem_cons_self hbody).map _
    | cons b' bs =>
      rw [Statement.goalsAndProof]
      exact ((Fact.failsIn_ofBlock b).1.among List.mem_cons_self).bind fun _ =>
        ((ih hbodies).mono (List.subset_cons_self b _)).bind fun _ => failsAmong_ok _

theorem Header.failsAmong_build {body : List Block}
    (hbody : FailsAmong body (Statement.ofBlocks body))
    (hgoals : FailsAmong body (Statement.goalsAndProof body)) (hd : Header) :
    FailsAmong body (hd.build body) := by
  have hfacts := Fact.failsAmong_ofBlocks body
  have hifThen := Fact.failsAmong_ifThen body
  cases hd with
  | var vars opens | member owner self decl opens | typeMember owner decl opens =>
    cases opens with
    | false => exact failsAmong_ok _
    | true => exact hfacts.bind fun _ => failsAmong_ok _
  | concept typeVar name opens =>
    cases opens with
    | false => exact failsAmong_ok _
    | true => exact (ConceptBody.failsAmong_addSections _ _ _ body).bind fun _ => failsAmong_ok _
  | type name opens =>
    cases opens with
    | false => exact failsAmong_ok _
    | true => exact (ConceptBody.failsAmong_addSections _ _ _ body).bind fun _ => failsAmong_ok _
  | property decl opens | fn decl opens =>
    cases opens with
    | false => exact failsAmong_ok _
    | true => exact hifThen.bind fun _ => failsAmong_ok _
  | claim => exact .ite (hgoals.bind fun _ => failsAmong_ok _) (failsAmong_bare rfl)
  | proof => exact hbody.bind fun _ => failsAmong_ok _
  | know => exact hfacts.bind fun _ => failsAmong_ok _
  | knowFact f | fact f => exact (f.failsAmong_build body).bind fun _ => failsAmong_ok _
  | use name value => exact failsAmong_ok _
  | exist decl opens =>
    cases opens with
    | false => exact failsAmong_ok _
    | true => exact (ExistBody.failsAmong_addSections _ _ body).bind fun _ => failsAmong_ok _
  | witness existence =>
    rcases body with _ | ⟨line, _ | ⟨line', lines⟩⟩
    · exact failsAmong_bare rfl
    · exact ((Block.failsIn_readLine fun _ => Parser.names_careful).among List.mem_cons_self).bind
        fun _ => failsAmong_ok _
    · exact failsAmong_bare rfl

theorem Statement.failsIn_ofBlock (b : Block) : FailsIn b (Statement.ofBlock b) ∧
    FailsAmong b.body (Statement.ofBlocks b.body) ∧
      FailsAmong b.body (Statement.goalsAndProof b.body) := by
  induction b using Block.induction with
  | h b ih =>
    have hbody : FailsAmong b.body (Statement.ofBlocks b.body) := by
      rw [Statement.ofBlocks_eq_mapM]
      exact failsAmong_mapM fun b' hb' => (ih b' hb').1
    have hgoals : FailsAmong b.body (Statement.goalsAndProof b.body) :=
      Statement.goalsAndProof_failsAmong fun b' hb' => (ih b' hb').2.1
    refine ⟨?_, hbody, hgoals⟩
    rw [Statement.ofBlock_eq]
    exact Block.failsIn_read (fun _ => Parser.header_careful) (Header.failsAmong_build hbody hgoals)

theorem TopStatement.failsIn_ofBlock (b : Block) : FailsIn b (TopStatement.ofBlock b) := by
  obtain ⟨-, hbody, hgoals⟩ := Statement.failsIn_ofBlock b
  exact Block.failsIn_read (fun _ => Parser.topHeader_careful) fun a =>
    (Header.failsAmong_build hbody hgoals a.2).bind fun _ => failsAmong_ok _

theorem Program.parse_eq_error [Alphabet] {tabWidth : ℕ} {source : String} {e : ParseError} :
    parse tabWidth source = .error (.parse e) ↔
      ∃ bs, Block.ofSource tabWidth source = .ok bs ∧ bs.mapM TopStatement.ofBlock = .error e := by
  rw [parse]
  cases Block.ofSource tabWidth source with
  | error e' => simp [bind, Except.bind]
  | ok bs => cases hread : bs.mapM TopStatement.ofBlock <;> simp [bind, Except.bind, hread]

/-- A program that cannot be read has a first block that cannot be read. Its error is that of the
program, whatever blocks follow, and leads from the block to the fault. -/
theorem Program.parse_error_traced [Alphabet] {tabWidth : ℕ} {source : String} {e : ParseError}
    (h : parse tabWidth source = .error (.parse e)) : ∃ before b after,
      Block.ofSource tabWidth source = .ok (before ++ b :: after) ∧
      (∀ b' ∈ before, ∃ t, TopStatement.ofBlock b' = .ok t) ∧ TopStatement.ofBlock b = .error e ∧
      e.Traced b ∧ ∀ after',
        (before ++ b :: after').mapM TopStatement.ofBlock = .error e := by
  obtain ⟨bs, hbs, hread⟩ := parse_eq_error.mp h
  obtain ⟨before, b, after, rfl, hbefore, hb⟩ := exists_of_mapM_error hread
  exact ⟨before, b, after, hbs, hbefore, hb, TopStatement.failsIn_ofBlock b e hb,
    mapM_append_error hbefore hb⟩

theorem eq_error_of_map {ε α β : Type} {x : Except ε α} {f : α → β} {e : ε}
    (h : f <$> x = .error e) :
    x = .error e := by
  cases x with
  | error e' =>
    cases h
    rfl
  | ok a => cases h

/-- A fault four blocks deep in the second statement. -/
theorem Program.parse_error_traced_deep : ∃ e : ParseError,
    e.levels.map Level.offset = [3, 4, 2, 2] ∧ e.fault = .expectedToken "expression" ")" ∧
    ∃ before b after,
      Block.ofSource 2
          "a = b\npub know:\n\tforall x N:\n\t\tif:\n\t\t\ta = )\n\t\tthen:\n\t\t\t$p(x)\nvar" =
        .ok (before ++ b :: after) ∧
      (∀ b' ∈ before, ∃ t, TopStatement.ofBlock b' = .ok t) ∧ TopStatement.ofBlock b = .error e ∧
      e.Traced b ∧ ∀ after',
        (before ++ b :: after').mapM TopStatement.ofBlock = .error e := by
  let levels : List Level := [⟨"pub know :", 3, ⟨2, 1, 6⟩⟩, ⟨"forall x N :", 4, ⟨3, 3, 18⟩⟩,
    ⟨"if :", 2, ⟨4, 5, 34⟩⟩, ⟨"a = )", 2, ⟨5, 7, 44⟩⟩]
  have hparse :
      parse 2 "a = b\npub know:\n\tforall x N:\n\t\tif:\n\t\t\ta = )\n\t\tthen:\n\t\t\t$p(x)\nvar" =
        .error (.parse ⟨levels, .expectedToken "expression" ")"⟩) :=
    eq_error_of_map (f := fun _ => ()) (by decide +kernel)
  exact ⟨_, rfl, rfl, parse_error_traced hparse⟩

end FactScript
