import FactScript.Proofs.Munch

/-!
The places of tokens. A place tells the line, the column and the offset that are reached after a
first part of the text (`Position.reached`). The tokens that are read of a text are spread over it
(`Token.Spread`): each stands at the place that its span tells, and only gaps lie between them,
which are made of spaces, line feeds and blank lines. The reader goes over the text in lines and
keeps count of lines, characters and bytes apart; the three counts belong to one place at every
step.
-/
namespace FactScript

theorem utf8Length_eq_size (cs : List Char) : utf8Length cs = cs.utf8Encode.size := by
  induction cs with
  | nil => rfl
  | cons c cs ih =>
    have hc : [c].utf8Encode.size = c.utf8Size := by
      rw [List.utf8Encode_singleton, List.size_toByteArray, String.length_utf8EncodeChar]
    rw [utf8Length_cons, List.utf8Encode_cons, ByteArray.size_append, hc, ih]

theorem utf8Length_pos {cs : List Char} (h : cs ≠ []) : 0 < utf8Length cs := by
  cases cs with
  | nil => exact absurd rfl h
  | cons c cs =>
    have hc := c.utf8Size_pos
    rw [utf8Length_cons]
    omega

namespace Text

def lastLine (cs : List Char) : List Char := (cs.reverse.takeWhile (· != '\n')).reverse

theorem lastLine_append {cs ds : List Char} (h : '\n' ∉ ds) :
    lastLine (cs ++ ds) = lastLine cs ++ ds := by
  have hds : ∀ c ∈ ds.reverse, (c != '\n') = true := by
    intro c hc
    rw [bne_iff_ne]
    rintro rfl
    exact h (List.mem_reverse.mp hc)
  rw [lastLine, List.reverse_append, List.takeWhile_append_of_pos hds, List.reverse_append,
    List.reverse_reverse, lastLine]

theorem lastLine_feed (cs : List Char) : lastLine (cs ++ ['\n']) = [] := by
  simp [lastLine]

/-- The line that the place between two parts of a text is in. -/
def lineAround (before after : List Char) : List Char :=
  lastLine before ++ after.takeWhile (· != '\n')

/-- Between two line feeds, or where the text begins or ends, the line is what stands there. -/
theorem lineAround_eq {before u v rest : List Char} (hbefore : lastLine before = []) (hu : '\n' ∉ u)
    (hv : '\n' ∉ v) (hrest : rest.head?.all (· == '\n') = true) :
    lineAround (before ++ u) (v ++ rest) = u ++ v := by
  have hv : ∀ c ∈ v, (c != '\n') = true := by
    intro c hc
    rw [bne_iff_ne]
    rintro rfl
    exact hv hc
  have hend : rest.takeWhile (· != '\n') = [] := by
    cases rest with
    | nil => rfl
    | cons c rest =>
      have hc : c = '\n' := by simpa using hrest
      simp [hc]
  rw [lineAround, lastLine_append hu, hbefore, List.nil_append, List.takeWhile_append_of_pos hv,
    hend, List.append_nil]

end Text

open Text

namespace Position

/-- The place that is reached after a first part of a text: the line feeds before it are counted,
then the characters since the last of them, and all the bytes. -/
def reached (before : List Char) : Position :=
  ⟨before.count '\n' + 1, (lastLine before).length + 1, utf8Length before⟩

theorem after_reached {before cs : List Char} (h : '\n' ∉ cs) :
    (reached before).after cs = reached (before ++ cs) := by
  have hcount : cs.count '\n' = 0 := List.count_eq_zero.mpr h
  simp only [after, reached, List.count_append, hcount, lastLine_append h, List.length_append,
    utf8Length_append, Nat.add_zero, Nat.add_right_comm]

theorem nextLine_reached {before cs : List Char} (h : '\n' ∉ cs) :
    (reached before).nextLine cs = reached (before ++ cs ++ ['\n']) := by
  have hcount : cs.count '\n' = 0 := List.count_eq_zero.mpr h
  have hfeed : utf8Length ['\n'] = 1 := by decide
  simp only [nextLine, reached, List.count_append, hcount, lastLine_feed, utf8Length_append, hfeed,
    List.count_singleton_self, List.length_nil, Nat.add_zero, Nat.zero_add]

end Position

open Position

theorem Lexeme.feed_notMem [Alphabet] {l : Lexeme} (hl : l.Spelled) : '\n' ∉ l.chars := by
  intro hmem
  have hblank := Lexeme.isBlank_of_mem_chars hl '\n' hmem
  have hfeed : isBlank '\n' = true := by decide
  rw [hfeed] at hblank
  cases hblank

namespace Token

def Gap (before : List Char) (c : Char) (after : List Char) : Prop :=
  c = ' ' ∨ c = '\n' ∨ (lineAround before (c :: after)).all isBlank = true

variable [Alphabet]

/-- The tokens are spread over the text that follows `before`, with nothing but gaps
between them. -/
inductive Spread : List Char → List Char → List Token → Prop
  | done {before : List Char} : Spread before [] []
  | gap {before : List Char} {c : Char} {after : List Char} {ts : List Token} :
      Gap before c after → Spread (before ++ [c]) after ts → Spread before (c :: after) ts
  | token {before : List Char} {l : Lexeme} {after : List Char} {ts : List Token} :
      l.Spelled → Spread (before ++ l.chars) after ts →
      Spread before (l.chars ++ after) (⟨l, reached before, reached (before ++ l.chars)⟩ :: ts)

/-- The token is this part of the text, and its span begins and ends where this part does. -/
def StandsIn (text : List Char) (t : Token) : Prop :=
  ∃ before after, text = before ++ t.lexeme.chars ++ after ∧
    t.span = ⟨reached before, reached (before ++ t.lexeme.chars)⟩

namespace Spread

variable {before after : List Char} {ts : List Token}

theorem standsIn (h : Spread before after ts) :
    ∀ t ∈ ts, t.lexeme.Spelled ∧ ∃ u v, after = u ++ t.lexeme.chars ++ v ∧
      t.span = ⟨reached (before ++ u), reached (before ++ u ++ t.lexeme.chars)⟩ := by
  induction h with
  | done => exact List.forall_mem_nil _
  | @gap before c after ts _ _ ih =>
    intro t ht
    obtain ⟨hl, u, v, hafter, hspan⟩ := ih t ht
    refine ⟨hl, c :: u, v, by rw [hafter]; rfl, ?_⟩
    rwa [List.append_assoc, List.singleton_append] at hspan
  | @token before l after ts hl _ ih =>
    refine List.forall_mem_cons.mpr ⟨⟨hl, [], after, rfl, by rw [List.append_nil]⟩, ?_⟩
    intro t ht
    obtain ⟨ht, u, v, hafter, hspan⟩ := ih t ht
    refine ⟨ht, l.chars ++ u, v,
      by rw [hafter, List.append_assoc, List.append_assoc, List.append_assoc], ?_⟩
    rwa [List.append_assoc] at hspan

theorem le_offset (h : Spread before after ts) :
    ∀ t ∈ ts, utf8Length before ≤ t.span.first.offset := by
  intro t ht
  obtain ⟨-, u, v, -, hspan⟩ := h.standsIn t ht
  have hfirst : t.span.first.offset = utf8Length before + utf8Length u := by
    rw [hspan, ← utf8Length_append]
    rfl
  omega

theorem apart (h : Spread before after ts) :
    ts.Pairwise fun t t' => t.span.last.offset ≤ t'.span.first.offset := by
  induction h with
  | done => exact .nil
  | gap _ _ ih => exact ih
  | token _ hrest ih => exact .cons hrest.le_offset ih

theorem gap_or_token (h : Spread before after ts) {u v : List Char} {c : Char}
    (hafter : after = u ++ c :: v) :
    Gap (before ++ u) c v ∨
      ∃ t ∈ ts, t.span.first.offset ≤ utf8Length (before ++ u) ∧
        utf8Length (before ++ u) < t.span.last.offset := by
  induction h generalizing u with
  | done => simp at hafter
  | @gap before c' after ts hgap _ ih =>
    cases u with
    | nil =>
      cases hafter
      rw [List.append_nil]
      exact .inl hgap
    | cons d u =>
      rw [List.cons_append, List.cons.injEq] at hafter
      have hrest := ih hafter.2
      rwa [hafter.1, List.append_assoc, List.singleton_append] at hrest
  | @token before l after ts _ _ ih =>
    rcases List.append_eq_append_iff.mp hafter with ⟨w, rfl, hw⟩ | ⟨w, hl, hw⟩
    · rcases ih hw with hgap | ⟨t, ht, hin⟩
      · rw [List.append_assoc] at hgap
        exact .inl hgap
      · rw [List.append_assoc] at hin
        exact .inr ⟨t, List.mem_cons_of_mem _ ht, hin⟩
    · cases w with
      | nil =>
        -- The lexeme ends here, so that the character is the first one after it.
        rw [List.append_nil] at hl
        rw [List.nil_append] at hw
        rcases ih (u := []) hw.symm with hgap | ⟨t, ht, hin⟩
        · rw [List.append_nil, hl] at hgap
          exact .inl hgap
        · rw [List.append_nil, hl] at hin
          exact .inr ⟨t, List.mem_cons_of_mem _ ht, hin⟩
      | cons d w =>
        have hinside : utf8Length u < utf8Length l.chars := by
          have hpos := utf8Length_pos (List.cons_ne_nil d w)
          rw [hl, utf8Length_append]
          omega
        refine .inr ⟨_, List.mem_cons_self, ?_, ?_⟩
        · simp [reached]
        · simpa [reached] using hinside

/-! Adding lines in front. -/

theorem pieces {rest : List Char} {ps : List Piece} (hps : Piece.Munched rest ps)
    (h : Spread (before ++ Piece.line ps) after ts) :
    Spread before (Piece.line ps ++ after) (Piece.tokensFrom (reached before) ps ++ ts) := by
  induction hps generalizing before with
  | nil => simpa [Piece.line, Piece.tokensFrom] using h
  | @space ps _ ih =>
    have hspace : (reached before).after [' '] = reached (before ++ [' ']) :=
      after_reached (by decide)
    rw [Piece.tokensFrom, hspace]
    refine .gap (.inl rfl) (ih ?_)
    rwa [List.append_assoc]
  | @lexeme l ps hl _ _ ih =>
    rw [Piece.line_cons, ← List.append_assoc] at h
    rw [Piece.tokensFrom, after_reached (Lexeme.feed_notMem hl), Piece.line_cons, List.append_assoc]
    exact .token hl (ih h)

theorem gaps {cs : List Char} (hcs : ∀ u c v, cs = u ++ c :: v → Gap (before ++ u) c (v ++ after))
    (h : Spread (before ++ cs) after ts) : Spread before (cs ++ after) ts := by
  induction cs generalizing before with
  | nil => simpa using h
  | cons c cs ih =>
    have hfirst := hcs [] c cs rfl
    rw [List.append_nil] at hfirst
    refine .gap hfirst (ih ?_ ?_)
    · intro u c' v hsplit
      have hrest := hcs (c :: u) c' v (by rw [hsplit]; rfl)
      rwa [List.append_assoc, List.singleton_append]
    · rwa [List.append_assoc, List.singleton_append]

theorem blankLine {cs : List Char} (hblank : cs.all isBlank = true) (hfeed : '\n' ∉ cs)
    (hbefore : lastLine before = []) (hafter : after.head?.all (· == '\n') = true)
    (h : Spread (before ++ cs) after ts) : Spread before (cs ++ after) ts := by
  refine gaps ?_ h
  rintro u c v rfl
  have hu : '\n' ∉ u := fun hmem => hfeed (List.mem_append_left _ hmem)
  have hv : '\n' ∉ c :: v := fun hmem => hfeed (List.mem_append_right _ hmem)
  have hline : lineAround (before ++ u) (c :: v ++ after) = u ++ c :: v :=
    lineAround_eq hbefore hu hv hafter
  refine .inr (.inr ?_)
  rw [← List.cons_append, hline]
  exact hblank

theorem scannedLine {cs : List Char} {l : Line} (hscan : Line.scan (reached before) cs = .ok l)
    (h : Spread (before ++ cs) after ts) : Spread before (cs ++ after) (l.tokens ++ ts) := by
  have hsplit := List.takeWhile_append_dropWhile (p := (· == ' ')) (l := cs)
  have hspaces : ∀ c ∈ cs.takeWhile (· == ' '), c = ' ' := by
    intro c hc
    have hspace := List.all_eq_true.mp List.all_takeWhile c hc
    exact eq_of_beq hspace
  have hfeed : '\n' ∉ cs.takeWhile (· == ' ') := fun hmem => absurd (hspaces _ hmem) (by decide)
  rw [Line.scan_eq, after_reached hfeed, exceptMap_eq_ok] at hscan
  obtain ⟨_, hts, rfl⟩ := hscan
  obtain ⟨ps, hps, hline, rfl⟩ := Token.scan_eq_ok_iff.mp hts
  have hrest : Spread (before ++ cs.takeWhile (· == ' ') ++ Piece.line ps) after ts := by
    rwa [hline, List.append_assoc, hsplit]
  have hpieces := pieces hps hrest
  have hcs : cs ++ after = cs.takeWhile (· == ' ') ++ (Piece.line ps ++ after) := by
    rw [hline, ← List.append_assoc, hsplit]
  rw [hcs]
  refine gaps ?_ hpieces
  intro u c v hcs
  exact .inl (hspaces c (by rw [hcs]; simp))

/-- The lines that are read come one after the other, with line feeds between them. -/
theorem scannedLines {css : List (List Char)} {ls : List Line} (hne : css ≠ [])
    (hfeed : ∀ cs ∈ css, '\n' ∉ cs) (hbefore : lastLine before = [])
    (hscan : Line.scanAll (reached before) css = .ok ls) :
    Spread before (['\n'].intercalate css) (ls.flatMap Line.tokens) := by
  induction css generalizing before ls with
  | nil => exact absurd rfl hne
  | cons cs css ih =>
    obtain ⟨hcs, hcss⟩ := List.forall_mem_cons.mp hfeed
    rw [Line.scanAll_cons_eq_ok, nextLine_reached hcs] at hscan
    -- What follows the line: nothing, or a line feed and the lines after it.
    have hrest : ∃ after, ['\n'].intercalate (cs :: css) = cs ++ after ∧
        after.head?.all (· == '\n') = true ∧
          ∀ ls', Line.scanAll (reached (before ++ cs ++ ['\n'])) css = .ok ls' →
            Spread (before ++ cs) after (ls'.flatMap Line.tokens) := by
      by_cases hnil : css = []
      · refine ⟨[], by simp [hnil, List.intercalate], rfl, fun ls' hls' => ?_⟩
        rw [hnil] at hls'
        cases hls'
        exact .done
      · have hjoin : ['\n'].intercalate (cs :: css) = cs ++ '\n' :: ['\n'].intercalate css := by
          rw [List.intercalate_cons_of_ne_nil hnil, List.append_assoc, List.singleton_append]
        refine ⟨_, hjoin, rfl, fun ls' hls' => ?_⟩
        exact .gap (.inr (.inl rfl)) (ih hnil hcss (lastLine_feed _) hls')
    obtain ⟨after, hjoin, hhead, hafter⟩ := hrest
    rw [hjoin]
    rcases hscan with ⟨hblank, hls⟩ | ⟨-, l, hl, ls', hls', rfl⟩
    · exact blankLine hblank hcs hbefore hhead (hafter ls hls)
    · rw [List.flatMap_cons]
      exact scannedLine hl (hafter ls' hls')

end Spread

end Token

namespace Line

variable [Alphabet]

theorem first_of_scan {p : Position} {cs : List Char} {l : Line} (hcs : cs.all isBlank = false)
    (h : scan p cs = .ok l) : l.tokens.head?.map (·.span.first) = some l.position := by
  have hne := tokens_ne_nil hcs h
  rw [scan_eq, exceptMap_eq_ok] at h
  obtain ⟨ts, hts, rfl⟩ := h
  obtain ⟨ps, -, hline, rfl⟩ := Token.scan_eq_ok_iff.mp hts
  cases ps with
  | nil => exact absurd rfl hne
  | cons x ps =>
    cases x with
    | lexeme l => rfl
    | space =>
      have hhead : ' ' ∈ (cs.dropWhile (· == ' ')).head? := by
        rw [← hline]
        rfl
      have hno := eq_false_of_head?_dropWhile hhead
      cases hno

theorem first_of_scanAll {p : Position} {css : List (List Char)} {ls : List Line}
    (h : scanAll p css = .ok ls) :
    ∀ l ∈ ls, l.tokens.head?.map (·.span.first) = some l.position := by
  induction css generalizing p ls with
  | nil =>
    cases h
    exact List.forall_mem_nil _
  | cons cs css ih =>
    rcases scanAll_cons_eq_ok.mp h with ⟨-, hrest⟩ | ⟨hcs, l, hl, ls', hls', rfl⟩
    · exact ih hrest
    · exact List.forall_mem_cons.mpr ⟨first_of_scan hcs hl, ih hls'⟩

/-- Whether a line can be divided into tokens does not depend on where it stands. -/
theorem exists_scan_iff {p : Position} {cs : List Char} :
    (∃ l, scan p cs = .ok l) ↔ ∃ ps, Piece.Munched [] ps ∧
      Piece.line ps = cs.dropWhile (· == ' ') := by
  simp only [scan_eq, exceptMap_eq_ok, Token.scan_eq_ok_iff]
  constructor
  · rintro ⟨_, _, ⟨ps, hps, hline, -⟩, -⟩
    exact ⟨ps, hps, hline⟩
  · rintro ⟨ps, hps, hline⟩
    exact ⟨_, _, ⟨ps, hps, hline, rfl⟩, rfl⟩

/-- The line is blank, or it can be divided into tokens. -/
def Readable (cs : List Char) : Prop := cs.all isBlank = true ∨ ∃ p l, scan p cs = .ok l

theorem not_readable {p : Position} {cs : List Char} {e : LexError} (hcs : cs.all isBlank = false)
    (h : scan p cs = .error e) : ¬Readable cs := by
  rintro (hblank | ⟨p', hp'⟩)
  · rw [hblank] at hcs
    cases hcs
  · obtain ⟨l, hl⟩ : ∃ l, scan p cs = .ok l := exists_scan_iff.mpr (exists_scan_iff.mp hp')
    rw [h] at hl
    cases hl

/-- A line that cannot be divided is left at the character that is reported. -/
theorem unexpectedChar_of_scan {before cs : List Char} {e : LexError} (hfeed : '\n' ∉ cs)
    (h : scan (reached before) cs = .error e) :
    ∃ u c v, cs = u ++ c :: v ∧ e = .unexpectedChar c (reached (before ++ u)) := by
  have hsplit := List.takeWhile_append_dropWhile (p := (· == ' ')) (l := cs)
  rw [scan_eq] at h
  cases hts : Token.scan ((reached before).after (cs.takeWhile (· == ' ')))
    (cs.dropWhile (· == ' ')) with
  | ok ts =>
    rw [hts] at h
    cases h
  | error e' =>
    rw [hts] at h
    cases h
    obtain ⟨ps, c, v, hcs, -, -, rfl⟩ := Token.scan_eq_error_iff.mp hts
    have hu : cs = cs.takeWhile (· == ' ') ++ Piece.line ps ++ c :: v := by
      rw [List.append_assoc, ← hcs, hsplit]
    refine ⟨_, c, v, hu, ?_⟩
    have hfeed' : '\n' ∉ cs.takeWhile (· == ' ') ++ Piece.line ps := by
      intro hmem
      rw [hu] at hfeed
      exact hfeed (List.mem_append_left _ hmem)
    rw [← Position.after_append, after_reached hfeed']

/-- Of the lines that follow `before`, the first that cannot be read is left at the character that
is reported. -/
def LeftAt (before : List Char) (css : List (List Char)) (e : LexError) : Prop :=
  ∃ read cs rest u c v, css = read ++ cs :: rest ∧ (∀ cs' ∈ read, Readable cs') ∧ ¬Readable cs ∧
    cs = u ++ c :: v ∧ e = .unexpectedChar c (reached (before ++ read.flatMap (· ++ ['\n']) ++ u))

theorem LeftAt.cons {before cs : List Char} {css : List (List Char)} {e : LexError}
    (hcs : Readable cs) (h : LeftAt (before ++ cs ++ ['\n']) css e) :
    LeftAt before (cs :: css) e := by
  obtain ⟨read, cs', rest, u, c, v, hcss, hreads, hnot, hcs', he⟩ := h
  refine ⟨cs :: read, cs', rest, u, c, v, by rw [hcss]; rfl, List.forall_mem_cons.mpr ⟨hcs, hreads⟩,
    hnot, hcs', ?_⟩
  simpa using he

theorem leftAt_of_scanAll {before : List Char} {css : List (List Char)} {e : LexError}
    (hfeed : ∀ cs ∈ css, '\n' ∉ cs) (h : scanAll (reached before) css = .error e) :
    LeftAt before css e := by
  induction css generalizing before with
  | nil => cases h
  | cons cs css ih =>
    obtain ⟨hcs, hcss⟩ := List.forall_mem_cons.mp hfeed
    rw [scanAll, nextLine_reached hcs] at h
    by_cases hblank : cs.all isBlank = true
    · rw [if_pos hblank] at h
      exact .cons (.inl hblank) (ih hcss h)
    · rw [if_neg hblank] at h
      cases hscan : scan (reached before) cs with
      | error e' =>
        rw [hscan] at h
        cases h
        obtain ⟨u, c, v, hu, he⟩ := unexpectedChar_of_scan hcs hscan
        have hnot := not_readable (by simpa using hblank) hscan
        exact ⟨[], cs, css, u, c, v, rfl, List.forall_mem_nil _, hnot, hu, by simpa using he⟩
      | ok l =>
        rw [hscan] at h
        cases hrest : scanAll (reached (before ++ cs ++ ['\n'])) css with
        | error e' =>
          rw [hrest] at h
          cases h
          exact .cons (.inr ⟨_, l, hscan⟩) (ih hcss hrest)
        | ok ls =>
          rw [hrest] at h
          cases h

end Line

namespace Source

/-- The lines tell where their tokens stand in the text: each token is the part of the text between
the places of its span, none is empty, they follow one another, and on a line that is not blank only
spaces are left out. A line is said to stand where its first token does. -/
structure Faithful (text : List Char) (ls : List Line) : Prop where
  standsIn : ∀ t ∈ ls.flatMap Line.tokens, t.StandsIn text
  bytes : ∀ t ∈ ls.flatMap Line.tokens,
    text.utf8Encode.extract t.span.first.offset t.span.last.offset = t.lexeme.chars.utf8Encode
  nonempty : ∀ t ∈ ls.flatMap Line.tokens, t.span.first.offset < t.span.last.offset
  apart : (ls.flatMap Line.tokens).Pairwise fun t t' => t.span.last.offset ≤ t'.span.first.offset
  spaces : ∀ before c after, text = before ++ c :: after → c ≠ '\n' →
    (lineAround before (c :: after)).all isBlank = false →
    (∀ t ∈ ls.flatMap Line.tokens, utf8Length before < t.span.first.offset ∨
      t.span.last.offset ≤ utf8Length before) → c = ' '
  position : ∀ l ∈ ls, l.tokens.head?.map (·.span.first) = some l.position

/-- The character stands at the place in the text, on the first line that cannot be read. -/
def FirstUnreadable [Alphabet] (text : List Char) (c : Char) (p : Position) : Prop :=
  ∃ read cs rest u v, cut '\n' text = read ++ cs :: rest ∧ (∀ cs' ∈ read, Line.Readable cs') ∧
    ¬Line.Readable cs ∧ cs = u ++ c :: v ∧ p = reached (read.flatMap (· ++ ['\n']) ++ u) ∧
    ∃ after, text = read.flatMap (· ++ ['\n']) ++ u ++ c :: after

theorem bytes_of_standsIn {text : List Char} {t : Token} (h : t.StandsIn text) :
    text.utf8Encode.extract t.span.first.offset t.span.last.offset = t.lexeme.chars.utf8Encode := by
  obtain ⟨before, after, rfl, hspan⟩ := h
  have hfirst : t.span.first.offset = before.utf8Encode.size := by
    rw [hspan, ← utf8Length_eq_size]
    rfl
  have hlast : t.span.last.offset = (before ++ t.lexeme.chars).utf8Encode.size := by
    rw [hspan, ← utf8Length_eq_size]
    rfl
  rw [List.utf8Encode_append, hfirst, hlast, ByteArray.extract_append_size_left]
  exact List.utf8Encode_append ▸ ByteArray.extract_append_eq_right rfl ByteArray.size_append

theorem faithful_of_spread [Alphabet] {text : List Char} {ls : List Line}
    (h : Token.Spread [] text (ls.flatMap Line.tokens))
    (hfirst : ∀ l ∈ ls, l.tokens.head?.map (·.span.first) = some l.position) :
    Faithful text ls where
  standsIn t ht := by
    obtain ⟨-, u, v, htext, hspan⟩ := h.standsIn t ht
    exact ⟨u, v, htext, hspan⟩
  bytes t ht := by
    obtain ⟨-, u, v, htext, hspan⟩ := h.standsIn t ht
    exact bytes_of_standsIn ⟨u, v, htext, hspan⟩
  nonempty t ht := by
    obtain ⟨hl, u, v, -, hspan⟩ := h.standsIn t ht
    have hpos := utf8Length_pos (Lexeme.chars_ne_nil hl)
    simp only [hspan, reached, utf8Length_append]
    omega
  apart := h.apart
  spaces before c after htext hfeed hline hout := by
    rcases h.gap_or_token htext with hgap | ⟨t, ht, hin⟩
    · rcases hgap with hspace | hfeed' | hblank
      · exact hspace
      · exact absurd hfeed' hfeed
      · rw [List.nil_append, hline] at hblank
        cases hblank
    · rw [List.nil_append] at hin
      have := hout t ht
      omega
  position := hfirst

theorem exists_intercalate (sep : Char) (read : List (List Char)) (cs : List Char)
    (rest : List (List Char)) :
    ∃ after, [sep].intercalate (read ++ cs :: rest) = read.flatMap (· ++ [sep]) ++ cs ++ after := by
  induction read with
  | nil =>
    by_cases hrest : rest = []
    · exact ⟨[], by simp [hrest, List.intercalate]⟩
    · exact ⟨_, (List.intercalate_cons_of_ne_nil hrest).trans (List.append_assoc ..)⟩
  | cons part read ih =>
    obtain ⟨after, hafter⟩ := ih
    refine ⟨after, ?_⟩
    rw [List.cons_append, List.intercalate_cons_of_ne_nil (by simp), hafter]
    simp

/-- The tokens of a text are found where their spans tell, and nothing but spaces is left out of a
line that is not blank. If the text cannot be divided into tokens, the character that is reported
stands where it is reported, on the first line that cannot be. -/
theorem lines_faithful [Alphabet] (tabWidth : Nat) (text : String) :
    (∀ ls, lines tabWidth text = .ok ls → Faithful (plain tabWidth text.toList) ls) ∧
      ∀ e, lines tabWidth text = .error e → ∃ c p, e = .unexpectedChar c p ∧
        FirstUnreadable (plain tabWidth text.toList) c p := by
  have hjoin := intercalate_cut '\n' (plain tabWidth text.toList)
  have hfeed : ∀ cs ∈ cut '\n' (plain tabWidth text.toList), '\n' ∉ cs :=
    fun _ hcs hmem => (mem_of_mem_cut hcs hmem).2 rfl
  constructor
  · intro ls hls
    have hspread : Token.Spread [] (['\n'].intercalate (cut '\n' (plain tabWidth text.toList)))
        (ls.flatMap Line.tokens) := .scannedLines (cut_ne_nil _ _) hfeed rfl hls
    rw [hjoin] at hspread
    exact faithful_of_spread hspread (Line.first_of_scanAll hls)
  · intro e he
    have hleft : Line.LeftAt [] (cut '\n' (plain tabWidth text.toList)) e :=
      Line.leftAt_of_scanAll hfeed he
    obtain ⟨read, cs, rest, u, c, v, hcut, hreads, hnot, rfl, rfl⟩ := hleft
    obtain ⟨after, hafter⟩ := exists_intercalate '\n' read (u ++ c :: v) rest
    rw [← hcut, hjoin] at hafter
    refine ⟨c, _, rfl, read, _, rest, u, v, hcut, hreads, hnot, rfl, rfl, v ++ after, ?_⟩
    rw [hafter]
    simp

/-- A line of blanks other than spaces, a tab inside a line and letters of several bytes. -/
theorem lines_faithful_wide :
    (∃ ls, lines 2 "é\t=b:\r\n\u3000\t\n\tçx = 1" = .ok ls ∧ ls.length = 2 ∧
      Faithful (plain 2 "é\t=b:\r\n\u3000\t\n\tçx = 1".toList) ls) ∧
    lines 2 "a\n\u2003\n\té ; b\n;" = .error (.unexpectedChar ';' ⟨3, 5, 11⟩) ∧
      FirstUnreadable (plain 2 "a\n\u2003\n\té ; b\n;".toList) ';' ⟨3, 5, 11⟩ := by
  constructor
  · obtain ⟨ls, hls, hlength⟩ :=
      exists_ok_of_length (x := lines 2 "é\t=b:\r\n\u3000\t\n\tçx = 1") (n := 2)
      (by decide +kernel)
    exact ⟨ls, hls, hlength, (lines_faithful 2 _).1 ls hls⟩
  · have hfails : lines 2 "a\n\u2003\n\té ; b\n;" = .error (.unexpectedChar ';' ⟨3, 5, 11⟩) := by
      decide +kernel
    obtain ⟨c, p, he, hfirst⟩ := (lines_faithful 2 _).2 _ hfails
    cases he
    exact ⟨hfails, hfirst⟩

end Source

end FactScript
