import FactScript.Memory.Session
import FactScript.Proofs.RoundTrip

/-!
Texts put one after the other, with a line feed between them. What is read of the second text is
read in the joined text too, only further down: the lines before it are counted, and so are the
bytes before it once tabs and carriage returns have been replaced. Block structure begins anew at
the margin, so the blocks and the statements of the joined text are those of the first and then
those of the second.
-/
namespace FactScript

structure Displacement where
  lines : Nat
  bytes : Nat
  deriving DecidableEq, Repr

/-! Moving what was read. -/

def Position.shift (d : Displacement) (p : Position) : Position :=
  ⟨p.line + d.lines, p.column, p.offset + d.bytes⟩

def Token.shift (d : Displacement) (t : Token) : Token :=
  ⟨t.lexeme, t.span.first.shift d, t.span.last.shift d⟩

def Line.shift (d : Displacement) (l : Line) : Line :=
  ⟨l.indent, l.tokens.map (Token.shift d), l.position.shift d⟩

mutual

def Block.shift (d : Displacement) : Block → Block
  | ⟨header, body, indent, position⟩ =>
    ⟨header.map (Token.shift d), shiftAll d body, indent, position.shift d⟩

def Block.shiftAll (d : Displacement) : List Block → List Block
  | [] => []
  | b :: bs => b.shift d :: shiftAll d bs

end

def TopStatement.shift (d : Displacement) (t : TopStatement) : TopStatement :=
  { t with position := t.position.shift d }

section Reading

variable {d : Displacement} {p : Position}

theorem Position.after_shift (cs : List Char) : (p.shift d).after cs = (p.after cs).shift d := by
  simp [shift, after, Nat.add_right_comm]

theorem Position.nextLine_shift (cs : List Char) :
    (p.shift d).nextLine cs = (p.nextLine cs).shift d := by
  simp only [shift, nextLine, mk.injEq, true_and]
  omega

variable [Alphabet]

theorem Token.scan_shift {cs : List Char} {ts : List Token} (h : scan p cs = .ok ts) :
    scan (p.shift d) cs = .ok (ts.map (shift d)) := by
  induction hlen : cs.length using Nat.strongRecOn generalizing p cs ts with
  | ind len ih =>
    cases cs with
    | nil =>
      rw [scan] at h ⊢
      cases h
      rfl
    | cons c cs =>
      rw [List.length_cons] at hlen
      rcases scan_cons_eq_ok.mp h with ⟨hc, hrest⟩ | ⟨hc, l, cs', ts', hl, hrest, rfl⟩
      · have htail := ih cs.length (by omega) hrest rfl
        rw [← Position.after_shift] at htail
        exact scan_cons_eq_ok.mpr (.inl ⟨hc, htail⟩)
      · have hlt := Lexeme.take?_length hl
        rw [List.length_cons] at hlt
        have htail := ih cs'.length (by omega) hrest rfl
        rw [← Position.after_shift] at htail
        refine scan_cons_eq_ok.mpr (.inr ⟨hc, l, cs', _, hl, htail, ?_⟩)
        rw [List.map_cons, shift, Position.after_shift]

theorem Line.scan_shift {cs : List Char} {l : Line} (h : scan p cs = .ok l) :
    scan (p.shift d) cs = .ok (l.shift d) := by
  simp only [scan, exceptBind_eq_ok, exceptPure_eq_ok, Position.after_shift] at h ⊢
  obtain ⟨ts, hts, rfl⟩ := h
  exact ⟨_, Token.scan_shift hts, rfl⟩

theorem Line.scanAll_shift {css : List (List Char)} {ls : List Line} (h : scanAll p css = .ok ls) :
    scanAll (p.shift d) css = .ok (ls.map (shift d)) := by
  induction css generalizing p ls with
  | nil =>
    cases h
    rfl
  | cons cs css ih =>
    rw [scanAll_cons_eq_ok] at h ⊢
    rw [Position.nextLine_shift]
    rcases h with ⟨hblank, hrest⟩ | ⟨hblank, l, hl, ls', hrest, rfl⟩
    · exact .inl ⟨hblank, ih hrest⟩
    · exact .inr ⟨hblank, l.shift d, scan_shift hl, _, ih hrest, rfl⟩

theorem Line.scanAll_append {css css' : List (List Char)} {ls ls' : List Line}
    (h : scanAll p css = .ok ls) (h' : scanAll (css.foldl Position.nextLine p) css' = .ok ls') :
    scanAll p (css ++ css') = .ok (ls ++ ls') := by
  induction css generalizing p ls with
  | nil =>
    cases h
    exact h'
  | cons cs css ih =>
    rw [List.cons_append]
    rw [scanAll_cons_eq_ok] at h ⊢
    rcases h with ⟨hblank, hrest⟩ | ⟨hblank, l, hl, ls'', hrest, rfl⟩
    · exact .inl ⟨hblank, ih hrest h'⟩
    · exact .inr ⟨hblank, l, hl, _, ih hrest h', rfl⟩

end Reading

/-! Where a text ends. -/

theorem Text.cut_append_cons (sep : Char) (cs ds : List Char) :
    cut sep (cs ++ sep :: ds) = cut sep cs ++ cut sep ds := by
  induction cs with
  | nil => simp [cut]
  | cons c cs ih =>
    by_cases hc : c = sep
    · simp [cut, hc, ih]
    · cases hcut : cut sep cs with
      | nil => exact absurd hcut (cut_ne_nil sep cs)
      | cons part parts => simp [cut, hc, ih, hcut]

/-- After the lines of a text comes the line that follows its last line feed. -/
theorem Position.foldl_nextLine (p : Position) (cs : List Char) :
    (Text.cut '\n' cs).foldl nextLine p =
      ⟨p.line + cs.count '\n' + 1, 1, p.offset + utf8Length cs + 1⟩ := by
  induction cs generalizing p with
  | nil => rfl
  | cons c cs ih =>
    by_cases hc : c = '\n'
    · have hcut : Text.cut '\n' (c :: cs) = [] :: Text.cut '\n' cs := by simp [Text.cut, hc]
      have hsize : c.utf8Size = 1 := by rw [hc]; decide
      rw [hcut, List.foldl_cons, ih, utf8Length_cons, hsize, hc, List.count_cons_self]
      simp only [nextLine, utf8Length_nil, mk.injEq, true_and]
      omega
    · cases hcut : Text.cut '\n' cs with
      | nil => exact absurd hcut (Text.cut_ne_nil '\n' cs)
      | cons part parts =>
        have hrest := ih ⟨p.line, p.column, p.offset + c.utf8Size⟩
        rw [hcut, List.foldl_cons] at hrest
        have hnext : p.nextLine (c :: part) =
            nextLine ⟨p.line, p.column, p.offset + c.utf8Size⟩ part := by
          simp [nextLine, Nat.add_assoc]
        simp only [Text.cut, hc, if_false, hcut, List.foldl_cons, hnext, hrest, utf8Length_cons,
          List.count_cons_of_ne hc, Nat.add_assoc]

namespace Source

theorem plain_append (tabWidth : Nat) (cs ds : List Char) :
    plain tabWidth (cs ++ ds) = plain tabWidth cs ++ plain tabWidth ds := List.flatMap_append

theorem count_plain (tabWidth : Nat) (cs : List Char) :
    (plain tabWidth cs).count '\n' = cs.count '\n' := by
  induction cs with
  | nil => rfl
  | cons c cs ih =>
    have hcons : plain tabWidth (c :: cs) = plain tabWidth [c] ++ plain tabWidth cs :=
      plain_append tabWidth [c] cs
    have hc : (plain tabWidth [c]).count '\n' = [c].count '\n' := by
      by_cases hr : c = '\r'
      · simp [plain, hr]
      · by_cases ht : c = '\t'
        · simp [plain, ht, List.count_replicate]
        · simp [plain, hr, ht]
    rw [hcons, List.count_append, hc, ih, ← List.count_append, List.singleton_append]

/-- How far down a text is moved when it is put after this one and a line feed. -/
def extent (tabWidth : Nat) (text : String) : Displacement :=
  ⟨text.toList.count '\n' + 1, utf8Length (plain tabWidth text.toList) + 1⟩

theorem lines_append [Alphabet] {tabWidth : Nat} {text text' : String} {ls ls' : List Line}
    (h : lines tabWidth text = .ok ls) (h' : lines tabWidth text' = .ok ls') :
    lines tabWidth (text ++ "\n" ++ text') =
      .ok (ls ++ ls'.map (Line.shift (extent tabWidth text))) := by
  have hplain : plain tabWidth (text ++ "\n" ++ text').toList =
      plain tabWidth text.toList ++ '\n' :: plain tabWidth text'.toList := by
    rw [String.toList_append, String.toList_append, plain_append, plain_append, List.append_assoc]
    rfl
  have hend : (Text.cut '\n' (plain tabWidth text.toList)).foldl Position.nextLine .start =
      Position.start.shift (extent tabWidth text) := by
    rw [Position.foldl_nextLine, count_plain]
    simp [Position.start, Position.shift, extent, Nat.add_comm]
  rw [lines, hplain, Text.cut_append_cons]
  apply Line.scanAll_append h
  rw [hend]
  exact Line.scanAll_shift h'

end Source

/-! Blocks further down. -/

namespace Block

variable {d : Displacement}

theorem shiftAll_eq_map (bs : List Block) : shiftAll d bs = bs.map (shift d) := by
  induction bs with
  | nil => rfl
  | cons b bs ih => rw [shiftAll, ih, List.map_cons]

@[simp] theorem body_shift (b : Block) : (b.shift d).body = b.body.map (shift d) := by
  rw [← shiftAll_eq_map]
  cases b
  rfl

@[simp] theorem indent_shift (b : Block) : (b.shift d).indent = b.indent := by
  cases b
  rfl

@[simp] theorem position_shift (b : Block) : (b.shift d).position = b.position.shift d := by
  cases b
  rfl

@[simp] theorem line_shift (b : Block) : (b.shift d).line = b.line.shift d := by
  cases b
  rfl

@[simp] theorem lexemes_shift (b : Block) : (b.shift d).lexemes = b.lexemes := by
  cases b
  simp [shift, lexemes, Token.shift]

theorem opensBlock_shift (b : Block) : (b.shift d).line.opensBlock = b.line.opensBlock := by
  rw [Bool.eq_iff_iff, opensBlock_iff, opensBlock_iff, lexemes_shift]

theorem linesOfAll_eq_flatMap (bs : List Block) : linesOfAll bs = bs.flatMap lines := by
  induction bs with
  | nil => rfl
  | cons b bs ih => rw [linesOfAll, ih, List.flatMap_cons]

theorem lines_shift (b : Block) : (b.shift d).lines = b.lines.map (Line.shift d) := by
  induction b using Block.induction with
  | h b ih =>
    rw [lines_eq, lines_eq, line_shift, body_shift, List.map_cons, linesOfAll_eq_flatMap,
      linesOfAll_eq_flatMap, List.flatMap_map, List.map_flatMap, List.flatMap_congr ih]

theorem skeleton_shift (b : Block) : (b.shift d).skeleton = b.skeleton := by
  induction b using Block.induction with
  | h b ih =>
    rw [skeleton_eq, skeleton_eq b, lexemes_shift, body_shift, skeletons_eq_map, skeletons_eq_map,
      List.map_map]
    exact congrArg _ (List.map_congr_left ih)

theorem Nested.shift (b : Block) : ∀ {n : Nat}, Nested n b → Nested n (b.shift d) := by
  induction b using Block.induction with
  | h b ih =>
    intro n h
    have hopens := opensBlock_shift (d := d) b
    cases h with
    | leaf hno hnil =>
      rw [← indent_shift (d := d) b]
      exact .leaf (hopens.trans hno) (by simp [hnil])
    | opening hyes hne hlt hbody =>
      rw [← indent_shift (d := d) b]
      refine .opening (hopens.trans hyes) (by simpa using hne) (by simpa using hlt) ?_
      intro b' hb'
      rw [body_shift] at hb'
      obtain ⟨b'', hb'', rfl⟩ := List.mem_map.mp hb'
      exact ih b'' hb'' (hbody b'' hb'')

/-- The blocks of a text come first, and the blocks of another after it stand further down. -/
theorem ofSource_append [Alphabet] {tabWidth : Nat} {text text' : String} {bs bs' : List Block}
    (h : ofSource tabWidth text = .ok bs) (h' : ofSource tabWidth text' = .ok bs') :
    ofSource tabWidth (text ++ "\n" ++ text') =
      .ok (bs ++ bs'.map (shift (Source.extent tabWidth text))) := by
  obtain ⟨ls, hls, hforest⟩ := exceptBind_eq_ok.mp h
  obtain ⟨ls', hls', hforest'⟩ := exceptBind_eq_ok.mp h'
  obtain ⟨hnested, rfl⟩ := forest_eq_ok.mp hforest
  obtain ⟨hnested', rfl⟩ := forest_eq_ok.mp hforest'
  rw [ofSource, Source.lines_append hls hls']
  refine forest_eq_ok.mpr ⟨?_, ?_⟩
  · have hmoved : ∀ b ∈ bs'.map (shift (Source.extent tabWidth text)), Nested 0 b := by
      intro b hb
      obtain ⟨b', hb', rfl⟩ := List.mem_map.mp hb
      exact (hnested' b' hb').shift
    exact List.forall_mem_append.mpr ⟨hnested, hmoved⟩
  · simp only [linesOfAll_eq_flatMap, List.flatMap_append, List.flatMap_map, lines_shift,
      List.map_flatMap]

end Block

/-! Programs and sessions. -/

theorem TopStatement.ofBlock_shift [Alphabet] {d : Displacement} {b : Block} {t : TopStatement}
    (hb : b.skeleton.Laid) (h : ofBlock b = .ok t) : ofBlock (b.shift d) = .ok (t.shift d) := by
  obtain ⟨hposition, hreads⟩ := (ofBlock_eq_ok hb).mp h
  refine (ofBlock_eq_ok (by rwa [Block.skeleton_shift])).mpr ⟨?_, ?_⟩
  · rw [Block.position_shift, ← hposition]
    rfl
  · rw [Block.skeleton_shift]
    exact hreads

theorem Program.parse_append [Alphabet] {tabWidth : Nat} {source source' : String}
    {ts ts' : List TopStatement} (h : parse tabWidth source = .ok ts)
    (h' : parse tabWidth source' = .ok ts') :
    parse tabWidth (source ++ "\n" ++ source') =
      .ok (ts ++ ts'.map (TopStatement.shift (Source.extent tabWidth source))) := by
  obtain ⟨bs, hbs, hts⟩ := parse_eq_ok.mp h
  obtain ⟨bs', hbs', hts'⟩ := parse_eq_ok.mp h'
  have hlaid := Block.laid_of_ofSource hbs'
  refine parse_eq_ok.mpr ⟨_, Block.ofSource_append hbs hbs', ?_⟩
  rw [mapM_eq_ok] at hts hts' ⊢
  have hmoved := List.forall₂_and_left (p := fun b => b.skeleton.Laid) bs' ts' |>.mpr ⟨hlaid, hts'⟩
  refine List.rel_append hts ?_
  rw [List.forall₂_map_left_iff, List.forall₂_map_right_iff]
  exact hmoved.imp fun _ _ h => TopStatement.ofBlock_shift h.1 h.2

namespace Session

theorem recordAll_append (s : Session) (ss ss' : List Statement) :
    (s.recordAll (ss ++ ss')).2 = ((s.recordAll ss).2.recordAll ss').2 := by
  induction ss generalizing s with
  | nil => rfl
  | cons statement ss ih => exact ih (s.record statement).2

theorem check_eq_ok [Alphabet] {s s' : Session} {tabWidth : Nat} {source : String}
    {ts : List TopStatement} :
    s.check tabWidth source = (.ok ts, s') ↔ Program.parse tabWidth source = .ok ts ∧
      s' = (s.recordAll (ts.map TopStatement.statement)).2 := by
  rw [check]
  cases Program.parse tabWidth source with
  | error e => simp
  | ok ts' =>
    constructor
    · intro h
      cases h
      exact ⟨rfl, rfl⟩
    · rintro ⟨h, rfl⟩
      cases h
      rfl

theorem statement_shift (d : Displacement) (ts : List TopStatement) :
    (ts.map (TopStatement.shift d)).map TopStatement.statement = ts.map TopStatement.statement := by
  simp [TopStatement.shift]

/-- Checking a text and then another does what checking them at once does, the second after the
first and a line feed; and a text that cannot be read leaves the session as it was. -/
theorem check_append [Alphabet] (s : Session) (tabWidth : Nat) (source source' : String) :
    (∀ ts ts' s₁ s₂, s.check tabWidth source = (.ok ts, s₁) →
      s₁.check tabWidth source' = (.ok ts', s₂) →
      s.check tabWidth (source ++ "\n" ++ source') =
        (.ok (ts ++ ts'.map (TopStatement.shift (Source.extent tabWidth source))), s₂)) ∧
      ∀ e s', s.check tabWidth source = (.error e, s') → s' = s := by
  constructor
  · intro ts ts' s₁ s₂ h h'
    obtain ⟨hparse, rfl⟩ := check_eq_ok.mp h
    obtain ⟨hparse', rfl⟩ := check_eq_ok.mp h'
    refine check_eq_ok.mpr ⟨Program.parse_append hparse hparse', ?_⟩
    rw [List.map_append, statement_shift, recordAll_append]
  · intro e s' h
    rw [check] at h
    split at h <;> cases h
    rfl

theorem exists_check_of_length [Alphabet] (s : Session) (tabWidth : Nat) (source : String) {n : Nat}
    (h : (Program.parse tabWidth source).toOption.map List.length = some n) :
    ∃ ts s', s.check tabWidth source = (.ok ts, s') ∧ ts.length = n := by
  obtain ⟨ts, hts, hlength⟩ := exists_ok_of_length h
  exact ⟨ts, _, check_eq_ok.mpr ⟨hts, rfl⟩, hlength⟩

/-- The first text ends inside a block, and the second begins with a blank line. -/
theorem check_append_open : ∃ ts ts' s₁ s₂,
    Session.check {} 2 "know:\r\n\ta = b\n\tforall é N:\n\t\t$p(é)" = (.ok ts, s₁) ∧ ts.length = 1 ∧
      s₁.check 2 "\t\nuse x é\nfn f(x N) N" = (.ok ts', s₂) ∧ ts'.length = 2 ∧
      Session.check {} 2 ("know:\r\n\ta = b\n\tforall é N:\n\t\t$p(é)" ++ "\n" ++
        "\t\nuse x é\nfn f(x N) N") = (.ok (ts ++ ts'.map (TopStatement.shift ⟨4, 40⟩)), s₂) ∧
      ∃ e s', s₂.check 2 "know:\n" = (.error e, s') ∧ s' = s₂ := by
  obtain ⟨ts, s₁, hts, hlength⟩ := exists_check_of_length {} 2
    "know:\r\n\ta = b\n\tforall é N:\n\t\t$p(é)" (n := 1) (by decide +kernel)
  obtain ⟨ts', s₂, hts', hlength'⟩ := exists_check_of_length s₁ 2 "\t\nuse x é\nfn f(x N) N"
    (n := 2) (by decide +kernel)
  obtain ⟨e, he⟩ := exists_error_of_isOk (x := Program.parse 2 "know:\n") (by decide +kernel)
  have hextent : Source.extent 2 "know:\r\n\ta = b\n\tforall é N:\n\t\t$p(é)" = ⟨4, 40⟩ := by
    decide +kernel
  have hjoined := (check_append {} 2 _ _).1 ts ts' s₁ s₂ hts hts'
  rw [hextent] at hjoined
  have hfails : s₂.check 2 "know:\n" = (.error e, s₂) := by rw [check, he]
  exact ⟨ts, ts', s₁, s₂, hts, hlength, hts', hlength', hjoined, e, s₂, hfails,
    (check_append s₂ 2 "know:\n" "").2 e s₂ hfails⟩

end Session

end FactScript
