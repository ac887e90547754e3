import FactScript.Proofs.Isomorphism
import FactScript.Proofs.Joining
import FactScript.Proofs.Munch

/-!
The width of a tab makes no difference to a text that is indented by tabs alone. Two widths give
lines in which runs of spaces differ in length (`Text.Respaced`), which divide into the same
lexemes, and in which each indentation is the same number of tabs; so the lines are nested in the
same way, and everything found in them is the same up to the columns and offsets.
-/
namespace FactScript

/-! Places known by their lines. -/

def Position.onLine (p : Position) : Position := ⟨p.line, 0, 0⟩

theorem Position.onLine_eq_iff {p p' : Position} : p.onLine = p'.onLine ↔ p.line = p'.line := by
  simp [onLine]

namespace LexError

def place (f : Position → Position) : LexError → LexError
  | unexpectedChar c p => unexpectedChar c (f p)
  | unexpectedIndent p => unexpectedIndent (f p)
  | unterminatedBlock p => unterminatedBlock (f p)

/-- Both computations succeed with values that are related, or both fail with the same error on the
same line. -/
inductive Matching {α β : Type} (R : α → β → Prop) : Except LexError α → Except LexError β → Prop
  | ok {a : α} {b : β} : R a b → Matching R (.ok a) (.ok b)
  | error {e e' : LexError} : e.place .onLine = e'.place .onLine → Matching R (.error e) (.error e')

variable {α β γ δ : Type} {R : α → β → Prop} {S : γ → δ → Prop}

theorem Matching.bind {x : Except LexError α} {y : Except LexError β} {f : α → Except LexError γ}
    {g : β → Except LexError δ} (h : Matching R x y) (hfg : ∀ a b, R a b → Matching S (f a) (g b)) :
    Matching S (x >>= f) (y >>= g) := by
  cases h with
  | ok hab => exact hfg _ _ hab
  | error he => exact .error he

theorem Matching.map {x : Except LexError α} {y : Except LexError β} {f : α → γ} {g : β → δ}
    (h : Matching R x y) (hfg : ∀ a b, R a b → S (f a) (g b)) : Matching S (f <$> x) (g <$> y) := by
  cases h with
  | ok hab => exact .ok (hfg _ _ hab)
  | error he => exact .error he

end LexError

open LexError

/-! Spaces inside a line. -/

namespace Text

/-- The texts differ at most in the lengths of runs of spaces. -/
inductive Respaced : List Char → List Char → Prop
  | nil : Respaced [] []
  | char {cs cs' : List Char} (c : Char) : Respaced cs cs' → Respaced (c :: cs) (c :: cs')
  | spaces {cs cs' : List Char} {n n' : Nat} : 0 < n → 0 < n' → Respaced cs cs' →
      Respaced (List.replicate n ' ' ++ cs) (List.replicate n' ' ' ++ cs')

namespace Respaced

variable {cs ds : List Char}

theorem symm (h : Respaced cs ds) : Respaced ds cs := by
  induction h with
  | nil => exact .nil
  | char c _ ih => exact .char c ih
  | spaces hn hn' _ ih => exact .spaces hn' hn ih

theorem head?_eq (h : Respaced cs ds) : cs.head? = ds.head? := by
  cases h with
  | nil => rfl
  | char c _ => rfl
  | spaces hn hn' _ =>
    obtain ⟨n, rfl⟩ := Nat.exists_eq_add_one.mpr hn
    obtain ⟨n', rfl⟩ := Nat.exists_eq_add_one.mpr hn'
    rfl

theorem of_cons {c : Char} (hc : c ≠ ' ') (h : Respaced (c :: cs) ds) :
    ∃ ds', ds = c :: ds' ∧ Respaced cs ds' := by
  generalize hcs : c :: cs = x at h
  cases h with
  | nil => cases hcs
  | char d h =>
    cases hcs
    exact ⟨_, rfl, h⟩
  | spaces hn _ _ =>
    obtain ⟨n, rfl⟩ := Nat.exists_eq_add_one.mpr hn
    cases hcs
    exact absurd rfl hc

theorem of_append {u : List Char} (hu : ' ' ∉ u) (h : Respaced (u ++ cs) ds) :
    ∃ ds', ds = u ++ ds' ∧ Respaced cs ds' := by
  induction u generalizing ds with
  | nil => exact ⟨ds, rfl, h⟩
  | cons c u ih =>
    have hc : c ≠ ' ' := fun heq => hu (by simp [heq])
    obtain ⟨ds', rfl, htail⟩ := of_cons hc h
    obtain ⟨rest, rfl, hrest⟩ := ih (fun hmem => hu (List.mem_cons_of_mem c hmem)) htail
    exact ⟨rest, rfl, hrest⟩

end Respaced

end Text

open Text

theorem Lexeme.space_notMem [Alphabet] {l : Lexeme} (hl : l.Spelled) : ' ' ∉ l.chars := by
  intro hmem
  have hblank := Lexeme.isBlank_of_mem_chars hl ' ' hmem
  rw [isBlank_space] at hblank
  cases hblank

theorem Piece.Stuck.respaced [Alphabet] {c : Char} {cs ds : List Char} (h : Stuck c cs)
    (hcs : Respaced cs ds) :
    Stuck c ds := by
  refine ⟨h.1, fun l hl hbegins => ?_⟩
  obtain ⟨rest, hrest⟩ := hbegins
  have hback : Respaced (l.chars ++ rest) (c :: cs) := by
    rw [hrest]
    exact .char c hcs.symm
  obtain ⟨rest', hrest', -⟩ := hback.of_append (Lexeme.space_notMem hl)
  exact h.2 l hl ⟨rest', hrest'.symm⟩

namespace Token

theorem scan_spaces [Alphabet] (p : Position) (n : Nat) (cs : List Char) :
    scan p (List.replicate n ' ' ++ cs) = scan (p.after (List.replicate n ' ')) cs := by
  induction n generalizing p with
  | zero => rfl
  | succ n ih =>
    rw [List.replicate_succ, List.cons_append, scan_space, ih, ← Position.after_append]
    rfl

/-- The same lexemes are found, or the same character on the same line, by induction on the length
of one of the texts. -/
theorem scan_respaced [Alphabet] {p p' : Position} {cs cs' : List Char} (hp : p.line = p'.line)
    (h : Respaced cs cs') :
    Matching (fun ts ts' => ts.map lexeme = ts'.map lexeme) (scan p cs) (scan p' cs') := by
  induction hlen : cs.length using Nat.strongRecOn generalizing p p' cs cs' with
  | ind len ih =>
    cases h with
    | nil =>
      rw [scan, scan]
      exact .ok rfl
    | @spaces cs cs' n n' hn hn' h =>
      rw [List.length_append, List.length_replicate] at hlen
      rw [scan_spaces, scan_spaces]
      exact ih cs.length (by omega) hp h rfl
    | @char cs cs' c h =>
      rw [List.length_cons] at hlen
      by_cases hc : c = ' '
      · rw [hc, scan_space, scan_space]
        exact ih cs.length (by omega) hp h rfl
      cases htake : Lexeme.take? (c :: cs) with
      | none =>
        have hstuck : Piece.Stuck c cs := ⟨hc, Lexeme.take?_eq_none_iff.mp htake⟩
        rw [scan_stuck hstuck, scan_stuck (hstuck.respaced h)]
        exact .error (congrArg (unexpectedChar c) (Position.onLine_eq_iff.mpr hp))
      | some a =>
        obtain ⟨l, rest⟩ := a
        obtain ⟨hl, hcs, hends⟩ := Lexeme.take?_eq_some_iff.mp htake
        have hshort := Lexeme.take?_length htake
        rw [List.length_cons] at hshort
        have hwhole : Respaced (l.chars ++ rest) (c :: cs') := hcs ▸ .char c h
        obtain ⟨rest', hcs', hrest⟩ := hwhole.of_append (Lexeme.space_notMem hl)
        have hends' : ∀ c ∈ rest'.head?, l.endsAt c = true := hrest.head?_eq ▸ hends
        have hline : (p.after l.chars).line = (p'.after l.chars).line := hp
        have htail := ih rest.length (by omega) hline hrest rfl
        rw [hcs, hcs', scan_lexeme hl hends, scan_lexeme hl hends']
        refine htail.map fun ts ts' hts => ?_
        rw [List.map_cons, List.map_cons, hts]

end Token

/-! Lines indented by tabs. -/

namespace Source

variable {w w' : Nat}

theorem plain_cons (c : Char) (cs : List Char) : plain w (c :: cs) = plain w [c] ++ plain w cs :=
  plain_append w [c] cs

theorem plain_char {c : Char} (hreturn : c ≠ '\r') (htab : c ≠ '\t') : plain w [c] = [c] := by
  simp [plain, hreturn, htab]

theorem plain_tab : plain w ['\t'] = List.replicate w ' ' := by
  simp [plain]

theorem plain_return : plain w ['\r'] = [] := by
  simp [plain]

theorem plain_tabs (k : Nat) : plain w (List.replicate k '\t') = List.replicate (k * w) ' ' := by
  induction k with
  | zero => simp [plain]
  | succ k ih =>
    rw [List.replicate_succ, plain_cons, plain_tab, ih, Nat.succ_mul, Nat.add_comm,
      List.replicate_append_replicate]

/-- The lines of a text without its carriage returns, tabs included. -/
def rawLines (text : String) : List (List Char) := cut '\n' (text.toList.filter (· != '\r'))

theorem cut_plain (cs : List Char) :
    cut '\n' (plain w cs) = (cut '\n' (cs.filter (· != '\r'))).map (plain w) := by
  induction cs with
  | nil => rfl
  | cons c cs ih =>
    rw [plain_cons]
    by_cases hreturn : c = '\r'
    · rw [hreturn, plain_return]
      exact ih
    have hkeep : (c :: cs).filter (· != '\r') = c :: cs.filter (· != '\r') := by simp [hreturn]
    rw [hkeep]
    by_cases hfeed : c = '\n'
    · have hcut (ds : List Char) : cut '\n' ('\n' :: ds) = [] :: cut '\n' ds := by simp [cut]
      rw [hfeed, plain_char (by decide) (by decide), List.singleton_append, hcut, hcut, ih]
      rfl
    · have hno : '\n' ∉ plain w [c] := by
        by_cases htab : c = '\t'
        · rw [htab, plain_tab]
          simp
        · rw [plain_char hreturn htab]
          simpa using Ne.symm hfeed
      cases hcut : cut '\n' (cs.filter (· != '\r')) with
      | nil => exact absurd hcut (cut_ne_nil _ _)
      | cons part parts =>
        rw [hcut] at ih
        have hraw : cut '\n' (c :: cs.filter (· != '\r')) = (c :: part) :: parts := by
          simp [cut, hfeed, hcut]
        rw [cut_append_of_notMem hno ih, hraw, List.map_cons, plain_cons c part]

theorem respaced_plain (hw : 1 ≤ w) (hw' : 1 ≤ w') (cs : List Char) :
    Respaced (plain w cs) (plain w' cs) := by
  induction cs with
  | nil => exact .nil
  | cons c cs ih =>
    rw [plain_cons, plain_cons (w := w')]
    by_cases hreturn : c = '\r'
    · rw [hreturn, plain_return, plain_return]
      exact ih
    by_cases htab : c = '\t'
    · rw [htab, plain_tab, plain_tab]
      exact .spaces hw hw' ih
    · rw [plain_char hreturn htab, plain_char hreturn htab]
      exact .char c ih

theorem all_isBlank_plain (cs : List Char) : (plain w cs).all isBlank = cs.all isBlank := by
  induction cs with
  | nil => rfl
  | cons c cs ih =>
    have hc : (plain w [c]).all isBlank = [c].all isBlank := by
      by_cases hreturn : c = '\r'
      · rw [hreturn, plain_return]
        decide
      by_cases htab : c = '\t'
      · have hblank : ['\t'].all isBlank = true := by decide
        rw [htab, plain_tab, hblank, List.all_replicate, isBlank_space]
        simp
      · rw [plain_char hreturn htab]
    rw [plain_cons, List.all_append, hc, ih]
    simp

def isIndent (c : Char) : Bool := c == ' ' || c == '\t'

/-- The line is blank, or the spaces and tabs that it begins with are all tabs. -/
def isTabIndented (cs : List Char) : Bool := cs.all isBlank || !(cs.takeWhile isIndent).contains ' '

def tabIndented (text : String) : Bool := (rawLines text).all isTabIndented

theorem takeWhile_isIndent {cs : List Char} (hblank : cs.all isBlank = false)
    (htabs : isTabIndented cs = true) :
    ∃ k, cs.takeWhile isIndent = List.replicate k '\t' := by
  have hspace : ' ' ∉ cs.takeWhile isIndent := by simpa [isTabIndented, hblank] using htabs
  refine ⟨_, List.eq_replicate_of_mem fun c hc => ?_⟩
  have hkind := List.all_eq_true.mp List.all_takeWhile c hc
  rw [isIndent, Bool.or_eq_true, beq_iff_eq, beq_iff_eq] at hkind
  rcases hkind with rfl | rfl
  · exact absurd hc hspace
  · rfl

theorem head?_plain_dropWhile {cs : List Char} (hreturn : '\r' ∉ cs) :
    ∀ c ∈ (plain w (cs.dropWhile isIndent)).head?, (c == ' ') = false := by
  cases hrest : cs.dropWhile isIndent with
  | nil => simp [plain]
  | cons c rest =>
    have hhead : c ∈ (cs.dropWhile isIndent).head? := by
      rw [hrest]
      rfl
    have hc : isIndent c = false := eq_false_of_head?_dropWhile hhead
    rw [isIndent, Bool.or_eq_false_iff, beq_eq_false_iff_ne, beq_eq_false_iff_ne] at hc
    have hmem : c ∈ cs := (List.dropWhile_suffix isIndent).subset (hrest ▸ List.mem_cons_self)
    have hne : c ≠ '\r' := fun heq => hreturn (heq ▸ hmem)
    rw [plain_cons, plain_char hne hc.2]
    simpa using hc.1

/-- A line that is indented by tabs has as many spaces in front as they stand for. -/
theorem exists_tabs {cs : List Char} (hreturn : '\r' ∉ cs) (hblank : cs.all isBlank = false)
    (htabs : isTabIndented cs = true) : ∃ k, ∀ w,
      (plain w cs).takeWhile (· == ' ') = List.replicate (k * w) ' ' ∧
        (plain w cs).dropWhile (· == ' ') = plain w (cs.dropWhile isIndent) := by
  obtain ⟨k, hk⟩ := takeWhile_isIndent hblank htabs
  refine ⟨k, fun w => ?_⟩
  have hsplit := List.takeWhile_append_dropWhile (p := isIndent) (l := cs)
  have hcs : plain w cs = List.replicate (k * w) ' ' ++ plain w (cs.dropWhile isIndent) := by
    rw [← plain_tabs, ← hk, ← plain_append, hsplit]
  have hspaces : ∀ c ∈ List.replicate (k * w) ' ', (c == ' ') = true := by
    intro c hc
    rw [List.eq_of_mem_replicate hc]
    rfl
  have hend := head?_plain_dropWhile (w := w) hreturn
  rw [hcs]
  exact ⟨takeWhile_append_of_head hspaces hend, dropWhile_append_of_head hspaces hend⟩

end Source

open Source

/-! Corresponding lines. -/

section Lines

variable {w w' : Nat}

def SameTabs (w w' a a' : Nat) : Prop := ∃ k, a = k * w ∧ a' = k * w'

theorem sameOrder_sameTabs (hw : 1 ≤ w) (hw' : 1 ≤ w') : Block.SameOrder (SameTabs w w') := by
  rintro a a' b b' ⟨j, rfl, rfl⟩ ⟨k, rfl, rfl⟩
  rw [Nat.mul_lt_mul_right hw, Nat.mul_lt_mul_right hw']

/-- The lines have the same lexemes, are indented by the same number of tabs, and have the same
number. -/
def Line.Alike (w w' : Nat) (l l' : Line) : Prop := Block.Alike (SameTabs w w') .onLine (l, l')

variable [Alphabet]

theorem Line.scan_alike {p p' : Position} {cs : List Char} (hw : 1 ≤ w) (hw' : 1 ≤ w')
    (hp : p.line = p'.line) (hreturn : '\r' ∉ cs) (hblank : cs.all isBlank = false)
    (htabs : isTabIndented cs = true) :
    Matching (Line.Alike w w') (scan p (plain w cs)) (scan p' (plain w' cs)) := by
  obtain ⟨k, hk⟩ := exists_tabs hreturn hblank htabs
  rw [scan_eq, scan_eq, (hk w).1, (hk w).2, (hk w').1, (hk w').2]
  have hline : (p.after (List.replicate (k * w) ' ')).line =
      (p'.after (List.replicate (k * w') ' ')).line := hp
  have htokens := Token.scan_respaced hline (respaced_plain hw hw' (cs.dropWhile isIndent))
  refine htokens.map fun ts ts' hts => ?_
  exact ⟨hts, ⟨k, List.length_replicate, List.length_replicate⟩, Position.onLine_eq_iff.mpr hp⟩

theorem Line.scanAll_alike {p p' : Position} {css : List (List Char)} (hw : 1 ≤ w) (hw' : 1 ≤ w')
    (hp : p.line = p'.line) (hreturn : ∀ cs ∈ css, '\r' ∉ cs)
    (htabs : ∀ cs ∈ css, isTabIndented cs = true) :
    Matching (List.Forall₂ (Line.Alike w w')) (scanAll p (css.map (plain w)))
      (scanAll p' (css.map (plain w'))) := by
  induction css generalizing p p' with
  | nil => exact .ok .nil
  | cons cs css ih =>
    obtain ⟨hcs, hcss⟩ := List.forall_mem_cons.mp hreturn
    obtain ⟨htab, htabs⟩ := List.forall_mem_cons.mp htabs
    have hnext : (p.nextLine (plain w cs)).line = (p'.nextLine (plain w' cs)).line :=
      congrArg (· + 1) hp
    have hrest := ih hnext hcss htabs
    rw [List.map_cons, List.map_cons, scanAll, scanAll, all_isBlank_plain, all_isBlank_plain]
    by_cases hblank : cs.all isBlank = true
    · rw [if_pos hblank, if_pos hblank]
      exact hrest
    · rw [if_neg hblank, if_neg hblank]
      have hline := scan_alike hw hw' hp hcs (by simpa using hblank) htab
      exact hline.bind fun l l' hl => hrest.bind fun ls ls' hls => .ok (.cons hl hls)

theorem Source.lines_alike {text : String} (hw : 1 ≤ w) (hw' : 1 ≤ w')
    (h : tabIndented text = true) :
    Matching (List.Forall₂ (Line.Alike w w')) (lines w text) (lines w' text) := by
  have hreturn : ∀ cs ∈ rawLines text, '\r' ∉ cs := by
    intro cs hcs hmem
    have hkept := List.mem_filter.mp (mem_of_mem_cut hcs hmem).1
    exact absurd hkept.2 (by decide)
  rw [lines, lines, cut_plain, cut_plain]
  exact Line.scanAll_alike hw hw' rfl hreturn (List.all_eq_true.mp h)

end Lines

/-! Blocks and statements. -/

def ProgramError.place (f : Position → Position) : ProgramError → ProgramError
  | lexical e => lexical (e.place f)
  | parse e => parse (e.place f)

namespace Program

def place (f : Position → Position) (x : Except ProgramError (List TopStatement)) :
    Except ProgramError (List TopStatement) :=
  (List.map (TopStatement.place f) <$> x).mapError (.place f)

theorem place_parse (f : Position → Position) (bs : List Block) :
    place f ((bs.mapM TopStatement.ofBlock).mapError .parse) =
      ((bs.map (Block.place f)).mapM TopStatement.ofBlock).mapError .parse := by
  rw [TopStatement.ofBlocks_place]
  cases bs.mapM TopStatement.ofBlock <;> rfl

/-- The statements of corresponding blocks are the same up to their columns and offsets, and so is
the fault that is found in them or the reason why there are no blocks. -/
theorem place_of_sameOutcome {ps : List (Line × Line)} {x x' : Except LexError (List Block)}
    (hps : ∀ p ∈ ps, p.1.position.onLine = p.2.position.onLine)
    (h : Block.SameOutcome .onLine ps x x') :
    place .onLine (x.mapError .lexical >>= fun bs =>
        (bs.mapM TopStatement.ofBlock).mapError .parse) =
      place .onLine (x'.mapError .lexical >>= fun bs =>
        (bs.mapM TopStatement.ofBlock).mapError .parse) := by
  cases h with
  | @ok bs bs' hplace =>
    have hread := place_parse .onLine bs
    rw [hplace, ← place_parse] at hread
    exact hread
  | @error e p he hp =>
    have herror : (e p.1.position).place .onLine = (e p.2.position).place .onLine := by
      have hline := hps p hp
      simp only [nesting, List.mem_cons, List.not_mem_nil, or_false] at he
      rcases he with rfl | rfl
      · exact congrArg unexpectedIndent hline
      · exact congrArg unterminatedBlock hline
    exact congrArg (fun e => Except.error (ProgramError.lexical e)) herror

/-- A text that is indented by tabs is read with the same outcome whatever number of spaces, at
least one, stands for a tab: as the same statements on the same lines, or with the same error on the
same line. -/
theorem parse_tabWidth [Alphabet] {w w' : Nat} {source : String} (hw : 1 ≤ w) (hw' : 1 ≤ w')
    (h : tabIndented source = true) :
    place .onLine (parse w source) = place .onLine (parse w' source) := by
  have hlines := Source.lines_alike hw hw' h
  rw [parse, parse, Block.ofSource, Block.ofSource]
  generalize Source.lines w source = x at hlines ⊢
  generalize Source.lines w' source = x' at hlines ⊢
  cases hlines with
  | error he => exact congrArg (fun e => Except.error (ProgramError.lexical e)) he
  | @ok ls ls' hls =>
    obtain ⟨hlength, hpairs⟩ := List.forall₂_iff_zip.mp hls
    have halike : ∀ p ∈ ls.zip ls', Block.Alike (SameTabs w w') .onLine p := fun p hp => hpairs hp
    have hmargin : SameTabs w w' 0 0 := ⟨0, (Nat.zero_mul w).symm, (Nat.zero_mul w').symm⟩
    have houtcome := Block.forest_pairs (sameOrder_sameTabs hw hw') hmargin halike
    rw [List.map_fst_zip (Nat.le_of_eq hlength),
      List.map_snd_zip (Nat.le_of_eq hlength.symm)] at houtcome
    exact place_of_sameOutcome (fun p hp => (halike p hp).position) houtcome

/-- Tabs at the margin, between tokens and on blank lines; and a fault three levels deep. -/
theorem parse_tabWidth_deep :
    (∃ ts, parse 1 "know:\n\ta =\tb\r\n \t\n\tforall x T:\n\t\tx\t= x\n$p(a)" = .ok ts ∧
      ts.length = 2 ∧
      place .onLine (parse 8 "know:\n\ta =\tb\r\n \t\n\tforall x T:\n\t\tx\t= x\n$p(a)") =
        .ok (ts.map (TopStatement.place .onLine))) ∧
    ∃ e, parse 1 "a = b\nforall x N:\n\tif:\n\t\ta\t=\n\tthen:\n\t\t$p(x)" = .error e ∧
      place .onLine (parse 8 "a = b\nforall x N:\n\tif:\n\t\ta\t=\n\tthen:\n\t\t$p(x)") =
        .error (e.place .onLine) := by
  constructor
  · obtain ⟨ts, hts, hlength⟩ := exists_ok_of_length (n := 2)
      (x := parse 1 "know:\n\ta =\tb\r\n \t\n\tforall x T:\n\t\tx\t= x\n$p(a)") (by decide +kernel)
    refine ⟨ts, hts, hlength, ?_⟩
    rw [← parse_tabWidth (w := 1) (by decide) (by decide) (by decide +kernel), hts]
    rfl
  · obtain ⟨e, he⟩ := exists_error_of_isOk
      (x := parse 1 "a = b\nforall x N:\n\tif:\n\t\ta\t=\n\tthen:\n\t\t$p(x)") (by decide +kernel)
    refine ⟨e, he, ?_⟩
    rw [← parse_tabWidth (w := 1) (by decide) (by decide) (by decide +kernel), he]
    rfl

end Program

end FactScript
