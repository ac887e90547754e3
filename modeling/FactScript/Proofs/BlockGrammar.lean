import FactScript.Proofs.HeaderGrammar
import FactScript.Proofs.Nesting

/-!
Facts and sections as blocks. Reading a block with its body succeeds exactly when the grammar
derives what it returns, provided that only a header with a colon at its end has something nested
under it, which is how blocks are built from lines (`Skeleton.Laid`).
-/
namespace FactScript

namespace Block

variable {b : Block}

theorem startsWith_iff {k : Keyword} :
    b.startsWith k = true ↔ b.lexemes.head? = some (.keyword k) := by
  rw [startsWith, beq_iff_eq]

theorem skeleton_eq_section {k : Keyword} {ks : List Skeleton} : b.skeleton = .section_ k ks ↔
    b.lexemes = [.keyword k, .symbol .colon] ∧ skeletons b.body = ks := by
  obtain ⟨header, body, indent, position⟩ := b
  simp [skeleton, Skeleton.section_, lexemes]

theorem readLine_iff [Alphabet] {p : Phrase} {q : Parser p.Meaning} {a : p.Meaning} (hq : q.Exact p)
    (hp : p.NoColon) (hb : b.skeleton.Laid) : b.readLine q = .ok a ↔ ReadsLine p b.skeleton a := by
  rw [readLine_eq_ok, hq.eq_ok_nil, ReadsLine, skeleton_header]
  constructor
  · intro h
    exact ⟨hb.body_eq_nil (by simpa using h.colon_notMem hp), h⟩
  · exact And.right

end Block

/-! Facts. -/

/-- A fact does not begin with a word that heads a section. -/
theorem ReadsFact.head_ne {k : Skeleton} {f : Fact} (h : ReadsFact k f) :
    k.header.head? ≠ some (.keyword .ifKw) ∧ k.header.head? ≠ some (.keyword .thenKw) ∧
      k.header.head? ≠ some (.keyword .proof) := by
  cases h with
  | specific hu =>
    have hne (l : Lexeme) (hl : Phrase.specific.begins l = false) := hu.head_ne rfl hl []
    simp only [List.append_nil] at hne
    exact ⟨hne _ rfl, hne _ rfl, hne _ rfl⟩
  | universal hu _ => cases hu; simp

section IfThen

variable {k : Skeleton} {ks : List Skeleton} {premises conclusions : List Fact}

theorem ReadsIfThen.of_if (h : ReadsIfThen (k :: ks) premises conclusions)
    (hk : k.header.head? = some (.keyword .ifKw)) :
    ∃ b b', k = .section_ .ifKw b ∧ ks = [.section_ .thenKw b'] ∧ ReadsFacts b premises ∧
      ReadsFacts b' conclusions := by
  cases h with
  | both hp hc => exact ⟨_, _, rfl, rfl, hp, hc⟩
  | conclusions _ => cases hk
  | bare h =>
    cases h with
    | cons hf _ => exact absurd hk hf.head_ne.1

theorem ReadsIfThen.of_then (h : ReadsIfThen (k :: ks) premises conclusions)
    (hk : k.header.head? = some (.keyword .thenKw)) :
    ∃ b, k = .section_ .thenKw b ∧ ks = [] ∧ premises = [] ∧ ReadsFacts b conclusions := by
  cases h with
  | both _ _ => cases hk
  | conclusions hc => exact ⟨_, rfl, rfl, rfl, hc⟩
  | bare h =>
    cases h with
    | cons hf _ => exact absurd hk hf.head_ne.2.1

theorem ReadsIfThen.of_bare (h : ReadsIfThen (k :: ks) premises conclusions)
    (hi : k.header.head? ≠ some (.keyword .ifKw)) (ht : k.header.head? ≠ some (.keyword .thenKw)) :
    premises = [] ∧ ReadsFacts (k :: ks) conclusions := by
  cases h with
  | both _ _ => exact absurd rfl hi
  | conclusions _ => exact absurd rfl ht
  | bare h => exact ⟨rfl, h⟩

end IfThen

theorem Fact.ofBlock_eq (b : Block) :
    Fact.ofBlock b = b.read Parser.factHeader (FactHeader.build b.body) := by
  obtain ⟨header, body, indent, position⟩ := b
  rw [Fact.ofBlock]
  congr

theorem Fact.ofBlock_eq_ok_iff {b : Block} {f : Fact} : Fact.ofBlock b = .ok f ↔
    ∃ hd, ReadsFactHeader b.lexemes hd ∧ hd.build b.body = .ok f := by
  rw [Fact.ofBlock_eq, Block.read_eq_ok]
  simp only [Parser.factHeader_eq_ok]

theorem FactHeader.build_eq_ok {body : List Block} {ts : List Lexeme} {f : Fact}
    (hlast : body ≠ [] → ts.getLast? = some (.symbol .colon))
    (hbody : ∀ premises conclusions, Fact.ifThen body = .ok (premises, conclusions) ↔
      ReadsIfThen (Block.skeletons body) premises conclusions) :
    (∃ hd, ReadsFactHeader ts hd ∧ hd.build body = .ok f) ↔
      ReadsFact ⟨ts, Block.skeletons body⟩ f := by
  constructor
  · rintro ⟨hd, hh, hf⟩
    cases hh with
    | specific hu =>
      cases hf
      have hnil : body = [] := by
        by_contra hne
        exact hu.colon_notMem trivial (List.mem_of_getLast? (hlast hne))
      rw [hnil]
      exact .specific hu
    | universal hu =>
      rw [FactHeader.build, exceptBind_eq_ok] at hf
      obtain ⟨⟨premises, conclusions⟩, hif, hf⟩ := hf
      cases hf
      exact .universal hu ((hbody _ _).mp hif)
  · intro h
    generalize hks : Block.skeletons body = ks at h hbody
    cases h with
    | specific hu => exact ⟨_, .specific hu, rfl⟩
    | universal hu hif =>
      refine ⟨_, .universal hu, ?_⟩
      rw [FactHeader.build, exceptBind_eq_ok]
      exact ⟨_, (hbody _ _).mpr hif, rfl⟩

section IfThenBlocks

variable {b : Block} {rest : List Block} {premises conclusions : List Fact}

theorem Fact.ifThen_of_if (hb : b.startsWith .ifKw = true) :
    Fact.ifThen (b :: rest) = .ok (premises, conclusions) ↔
      (b.lexemes = [.keyword .ifKw, .symbol .colon] ∧ Fact.ofBlocks b.body = .ok premises) ∧
      ∃ b', rest = [b'] ∧ b'.lexemes = [.keyword .thenKw, .symbol .colon] ∧
        Fact.ofBlocks b'.body = .ok conclusions := by
  obtain ⟨header, body, indent, position⟩ := b
  rw [Fact.ifThen.eq_def]
  dsimp only
  rw [if_pos hb, exceptBind_eq_ok]
  simp only [Block.readSection_eq_ok]
  match rest with
  | [] => simp
  | ⟨header', body', indent', position'⟩ :: more =>
    by_cases hb' : Block.startsWith ⟨header', body', indent', position'⟩ .thenKw = true
    · simp only [hb', if_true, exceptBind_eq_ok, Block.readSection_eq_ok]
      cases more with
      | nil => simp [exceptPure_eq_ok, and_assoc]
      | cons extra more => simp
    · simp only [hb']
      constructor
      · rintro ⟨_, _, h⟩
        cases h
      · rintro ⟨_, b', hrest, hthen, _⟩
        obtain ⟨rfl, -⟩ := List.cons.inj hrest
        exact absurd (Block.startsWith_iff.mpr (by rw [hthen]; rfl)) hb'

theorem Fact.ifThen_of_then (hb : b.startsWith .thenKw = true) :
    Fact.ifThen (b :: rest) = .ok (premises, conclusions) ↔
      rest = [] ∧ premises = [] ∧ b.lexemes = [.keyword .thenKw, .symbol .colon] ∧
        Fact.ofBlocks b.body = .ok conclusions := by
  obtain ⟨header, body, indent, position⟩ := b
  have hif : Block.startsWith ⟨header, body, indent, position⟩ .ifKw = false := by
    rw [Block.startsWith_iff] at hb
    rw [Block.startsWith, hb]
    rfl
  rw [Fact.ifThen.eq_def]
  dsimp only
  rw [if_neg (by simp [hif]), if_pos hb]
  cases rest with
  | nil =>
    simp only [exceptBind_eq_ok, exceptPure_eq_ok, Block.readSection_eq_ok, Prod.mk.injEq]
    constructor
    · rintro ⟨fs, ⟨hts, hfs⟩, rfl, rfl⟩
      exact ⟨trivial, rfl, hts, hfs⟩
    · rintro ⟨-, rfl, hts, hfs⟩
      exact ⟨_, ⟨hts, hfs⟩, rfl, rfl⟩
  | cons extra more => simp

theorem Fact.ifThen_of_bare (hi : b.startsWith .ifKw = false) (ht : b.startsWith .thenKw = false) :
    Fact.ifThen (b :: rest) = .ok (premises, conclusions) ↔
      premises = [] ∧ Fact.ofBlocks (b :: rest) = .ok conclusions := by
  obtain ⟨header, body, indent, position⟩ := b
  rw [Fact.ifThen.eq_def, Fact.ofBlocks]
  dsimp only
  rw [if_neg (by simp [hi]), if_neg (by simp [ht])]
  simp only [exceptBind_eq_ok, exceptPure_eq_ok, Prod.mk.injEq]
  constructor
  · rintro ⟨f, hf, fs, hfs, rfl, rfl⟩
    exact ⟨rfl, f, hf, fs, hfs, rfl⟩
  · rintro ⟨rfl, f, hf, fs, hfs, rfl⟩
    exact ⟨f, hf, fs, hfs, rfl, rfl⟩

end IfThenBlocks

def Fact.Exact (bs : List Block) : Prop :=
  ∀ fs, Fact.ofBlocks bs = .ok fs ↔ ReadsFacts (Block.skeletons bs) fs

theorem Fact.exact_of_forall {bs : List Block}
    (h : ∀ b ∈ bs, ∀ f, Fact.ofBlock b = .ok f ↔ ReadsFact b.skeleton f) : Fact.Exact bs := by
  intro fs
  induction bs generalizing fs with
  | nil =>
    rw [Fact.ofBlocks]
    constructor
    · rintro ⟨⟩
      exact .nil
    · rintro ⟨⟩
      rfl
  | cons b bs ih =>
    obtain ⟨hb, hbs⟩ := List.forall_mem_cons.mp h
    simp only [Fact.ofBlocks, exceptBind_eq_ok, exceptPure_eq_ok, hb, ih hbs]
    constructor
    · rintro ⟨f, hf, fs, hfs, rfl⟩
      exact .cons hf hfs
    · intro h
      cases h with
      | cons hf hfs => exact ⟨_, hf, _, hfs, rfl⟩

theorem Fact.ifThen_eq_ok_of_exact {bs : List Block} {premises conclusions : List Fact}
    (hbs : Fact.Exact bs) (hbodies : ∀ b ∈ bs, Fact.Exact b.body) :
    Fact.ifThen bs = .ok (premises, conclusions) ↔
      ReadsIfThen (Block.skeletons bs) premises conclusions := by
  cases bs with
  | nil =>
    rw [Fact.ifThen]
    constructor
    · rintro ⟨⟩
      exact .bare .nil
    · intro h
      cases h with
      | bare h => cases h; rfl
  | cons b rest =>
    have hhead (k : Keyword) : b.startsWith k = true ↔
        b.skeleton.header.head? = some (.keyword k) := by
      rw [Block.startsWith_iff, Block.skeleton_header]
    obtain ⟨hb, hrest⟩ := List.forall_mem_cons.mp hbodies
    rw [Block.skeletons]
    by_cases hi : b.startsWith .ifKw = true
    · rw [Fact.ifThen_of_if hi]
      constructor
      · rintro ⟨⟨hts, hp⟩, b', rfl, hts', hc⟩
        rw [Block.skeletons, Block.skeletons, Block.skeleton_eq_section.mpr ⟨hts, rfl⟩,
          Block.skeleton_eq_section.mpr ⟨hts', rfl⟩]
        exact .both ((hb _).mp hp) ((hrest b' (List.mem_singleton_self _) _).mp hc)
      · intro h
        obtain ⟨ks, ks', hk, hks, hp, hc⟩ := h.of_if ((hhead _).mp hi)
        obtain ⟨hts, rfl⟩ := Block.skeleton_eq_section.mp hk
        rw [Block.skeletons_eq_map, List.map_eq_singleton_iff] at hks
        obtain ⟨b', rfl, hk'⟩ := hks
        obtain ⟨hts', rfl⟩ := Block.skeleton_eq_section.mp hk'
        exact ⟨⟨hts, (hb _).mpr hp⟩, b', rfl, hts', (hrest b' (List.mem_singleton_self _) _).mpr hc⟩
    · by_cases ht : b.startsWith .thenKw = true
      · rw [Fact.ifThen_of_then ht]
        constructor
        · rintro ⟨rfl, rfl, hts, hc⟩
          rw [Block.skeletons, Block.skeleton_eq_section.mpr ⟨hts, rfl⟩]
          exact .conclusions ((hb _).mp hc)
        · intro h
          obtain ⟨ks, hk, hks, rfl, hc⟩ := h.of_then ((hhead _).mp ht)
          obtain ⟨hts, rfl⟩ := Block.skeleton_eq_section.mp hk
          exact ⟨Block.skeletons_eq_nil.mp hks, rfl, hts, (hb _).mpr hc⟩
      · rw [Fact.ifThen_of_bare (by simpa using hi) (by simpa using ht), hbs]
        constructor
        · rintro ⟨rfl, hc⟩
          exact .bare hc
        · intro h
          exact h.of_bare (fun h => hi ((hhead _).mpr h)) (fun h => ht ((hhead _).mpr h))

variable [Alphabet]

theorem Fact.ofBlock_eq_ok_of_exact {b : Block} {f : Fact} (hb : b.skeleton.Laid)
    (hbody : Fact.Exact b.body) (hbodies : ∀ b' ∈ b.body, Fact.Exact b'.body) :
    Fact.ofBlock b = .ok f ↔ ReadsFact b.skeleton f := by
  rw [Fact.ofBlock_eq_ok_iff, FactHeader.build_eq_ok (Block.getLast?_lexemes hb) fun _ _ =>
    Fact.ifThen_eq_ok_of_exact hbody hbodies]
  cases b
  rfl

/-- A laid out block is read as a fact exactly as the grammar says, and so is what is nested under
it. -/
theorem Fact.exact (b : Block) : b.skeleton.Laid →
    (∀ f, Fact.ofBlock b = .ok f ↔ ReadsFact b.skeleton f) ∧ Fact.Exact b.body := by
  induction b using Block.induction with
  | h b ih =>
    intro hb
    have hbody := Block.laid_body hb
    have hexact : Fact.Exact b.body :=
      Fact.exact_of_forall fun b' hb' => (ih b' hb' (hbody b' hb')).1
    refine ⟨fun f => Fact.ofBlock_eq_ok_of_exact hb hexact fun b' hb' => ?_, hexact⟩
    exact (ih b' hb' (hbody b' hb')).2

section LaidFacts

variable {b : Block} {bs : List Block}

theorem Fact.ofBlock_eq_ok {f : Fact} (hb : b.skeleton.Laid) :
    Fact.ofBlock b = .ok f ↔ ReadsFact b.skeleton f := (Fact.exact b hb).1 f

theorem Fact.ofBlocks_eq_ok {fs : List Fact} (hbs : ∀ b ∈ bs, b.skeleton.Laid) :
    Fact.ofBlocks bs = .ok fs ↔ ReadsFacts (Block.skeletons bs) fs :=
  Fact.exact_of_forall (fun b hb => (Fact.exact b (hbs b hb)).1) fs

theorem Fact.ifThen_eq_ok {a : List Fact × List Fact} (hbs : ∀ b ∈ bs, b.skeleton.Laid) :
    Fact.ifThen bs = .ok a ↔ ReadsIfThen (Block.skeletons bs) a.1 a.2 :=
  Fact.ifThen_eq_ok_of_exact (fun _ => Fact.ofBlocks_eq_ok hbs) fun b hb =>
    (Fact.exact b (hbs b hb)).2

end LaidFacts

end FactScript
