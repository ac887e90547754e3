import FactScript.Proofs.RoundTrip
import FactScript.Proofs.Spans

/-!
Where statements begin. The lines of a text that are not blank and begin without a space head the
outermost blocks, each of which is one statement. So the statements of a program stand, in order,
where these lines begin.
-/
namespace FactScript

open Text Position

namespace Source

def isUnindented (cs : List Char) : Bool := !cs.all isBlank && cs.head? != some ' '

/-- Where a line begins, told from the lines before it: its number, the first column, and the bytes
of those lines with their line feeds. -/
def startAfter (before : List (List Char)) : Position :=
  ⟨before.length + 1, 1, utf8Length (before.flatMap (· ++ ['\n']))⟩

def unindentedStarts (css : List (List Char)) : List Position :=
  (css.zipIdx.filter fun e => isUnindented e.1).map fun e => startAfter (css.take e.2)

theorem length_unindentedStarts (css : List (List Char)) :
    (unindentedStarts css).length = (css.filter isUnindented).length := by
  have hcss : css.filter isUnindented =
      (css.zipIdx.filter fun e => isUnindented e.1).map Prod.fst := by
    conv_lhs => rw [← List.zipIdx_map_fst 0 css, List.filter_map]
    rfl
  rw [unindentedStarts, hcss, List.length_map, List.length_map]

theorem pairwise_unindentedStarts (css : List (List Char)) :
    (unindentedStarts css).Pairwise fun p p' => p.line < p'.line := by
  have hall : css.zipIdx.Pairwise fun e e' => e.2 < e'.2 := by
    rw [← List.pairwise_map, List.zipIdx_map_snd]
    exact List.pairwise_lt_range'
  have hline : ∀ e ∈ css.zipIdx, (startAfter (css.take e.2)).line = e.2 + 1 := by
    intro e he
    have hlt := List.snd_lt_of_mem_zipIdx he
    simp only [startAfter, List.length_take]
    omega
  rw [unindentedStarts, List.pairwise_map]
  refine (hall.filter _).imp_of_mem fun {e e'} he he' hlt => ?_
  rw [hline e (List.mem_of_mem_filter he), hline e' (List.mem_of_mem_filter he')]
  omega

theorem startAfter_nextLine (before : List (List Char)) (cs : List Char) :
    (startAfter before).nextLine cs = startAfter (before ++ [cs]) := by
  have hfeed : utf8Length ['\n'] = 1 := by decide
  simp [startAfter, nextLine, hfeed, Nat.add_assoc]

theorem startAfter_eq_reached {before : List (List Char)} (h : ∀ cs ∈ before, '\n' ∉ cs) :
    startAfter before = reached (before.flatMap (· ++ ['\n'])) := by
  induction before using List.reverseRecOn with
  | nil => rfl
  | append_singleton before cs ih =>
    rw [List.forall_mem_append] at h
    rw [← startAfter_nextLine, ih h.1, nextLine_reached (h.2 cs List.mem_cons_self)]
    simp

/-- What stands where an unindented line begins: the text before it, then the line. -/
theorem exists_of_mem_unindentedStarts {text : List Char} {p : Position}
    (h : p ∈ unindentedStarts (cut '\n' text)) :
    ∃ before cs after, text = before ++ cs ++ after ∧ isUnindented cs = true ∧
      p = reached before := by
  rw [unindentedStarts, List.mem_map] at h
  obtain ⟨⟨cs, k⟩, hmem, rfl⟩ := h
  obtain ⟨hcs, hunindented⟩ := List.mem_filter.mp hmem
  obtain ⟨hlt, hcs⟩ : ∃ hlt : k < (cut '\n' text).length, (cut '\n' text)[k] = cs :=
    List.getElem?_eq_some_iff.mp (List.mem_zipIdx_iff_getElem?.mp hcs)
  obtain ⟨after, hafter⟩ :=
    exists_intercalate '\n' ((cut '\n' text).take k) cs ((cut '\n' text).drop (k + 1))
  rw [← hcs, List.getElem_cons_drop, List.take_append_drop, intercalate_cut, hcs] at hafter
  refine ⟨_, cs, after, hafter, hunindented, startAfter_eq_reached fun part hpart hfeed => ?_⟩
  exact (mem_of_mem_cut (List.mem_of_mem_take hpart) hfeed).2 rfl

end Source

open Source

namespace Line

variable [Alphabet]

theorem indent_of_scan {p : Position} {cs : List Char} {l : Line} (h : scan p cs = .ok l) :
    l.indent = (cs.takeWhile (· == ' ')).length ∧
      l.position = p.after (cs.takeWhile (· == ' ')) := by
  rw [scan_eq, exceptMap_eq_ok] at h
  obtain ⟨ts, -, rfl⟩ := h
  exact ⟨rfl, rfl⟩

/-- A line that is not blank is read as one without indentation exactly if it begins without a
space. -/
theorem isUnindented_of_scan {p : Position} {cs : List Char} {l : Line}
    (hcs : cs.all isBlank = false) (h : scan p cs = .ok l) :
    isUnindented cs = (l.indent == 0) ∧ (l.indent = 0 → l.position = p) := by
  obtain ⟨hindent, hposition⟩ := indent_of_scan h
  rw [isUnindented, hcs, hindent, hposition]
  cases cs with
  | nil => exact ⟨rfl, fun _ => rfl⟩
  | cons c cs =>
    by_cases hc : c = ' '
    · simp [hc]
    · have hno : (c == ' ') = false := beq_eq_false_iff_ne.mpr hc
      simp [hno, hc]

/-- The lines are gone through one after the other; those that are read without indentation stand
where they begin. -/
theorem starts_of_scanAll (before : List (List Char)) {css : List (List Char)} {ls : List Line}
    (h : scanAll (startAfter before) css = .ok ls) :
    (ls.filter (·.indent == 0)).map position =
      ((css.zipIdx before.length).filter fun e => isUnindented e.1).map fun e =>
        startAfter ((before ++ css).take e.2) := by
  induction css generalizing before ls with
  | nil =>
    cases h
    rfl
  | cons cs css ih =>
    rw [scanAll_cons_eq_ok, startAfter_nextLine] at h
    have hlater {ls' : List Line} (hls' : scanAll (startAfter (before ++ [cs])) css = .ok ls') :
        (ls'.filter (·.indent == 0)).map position =
          ((css.zipIdx (before.length + 1)).filter fun e => isUnindented e.1).map fun e =>
            startAfter ((before ++ cs :: css).take e.2) := by
      have hrest := ih _ hls'
      rwa [List.append_assoc, List.singleton_append, List.length_append] at hrest
    rw [List.zipIdx_cons]
    rcases h with ⟨hblank, hls⟩ | ⟨hcs, l, hl, ls', hls', rfl⟩
    · have hno : isUnindented cs = false := by rw [isUnindented, hblank]; rfl
      rw [List.filter_cons_of_neg (by simp [hno]), hlater hls]
    · obtain ⟨heq, hposition⟩ := isUnindented_of_scan hcs hl
      by_cases hzero : l.indent = 0
      · have hyes : isUnindented cs = true := by rw [heq, hzero]; rfl
        rw [List.filter_cons_of_pos (by simp [hzero]), List.filter_cons_of_pos (by simp [hyes]),
          List.map_cons, List.map_cons, hlater hls', hposition hzero, List.take_left]
      · have hno : isUnindented cs = false := by rw [heq]; simpa using hzero
        rw [List.filter_cons_of_neg (by simpa using hzero), List.filter_cons_of_neg (by simp [hno]),
          hlater hls']

end Line

namespace Block

/-- Of the lines of a block, only the header is not indented further. -/
theorem Nested.filter_lines {n : Nat} {b : Block} (h : Nested n b) :
    b.lines.filter (·.indent == n) = [b.line] := by
  have hdeep : (linesOfAll b.body).filter (·.indent == n) = [] := by
    rw [List.filter_eq_nil_iff]
    intro l hl
    obtain ⟨b', hb', hl⟩ := mem_linesOfAll.mp hl
    cases h with
    | leaf _ hnil => simp [hnil] at hb'
    | opening _ _ hlt hbody =>
      have hle := le_of_mem_lines b' (hbody b' hb') l hl
      simp only [beq_iff_eq]
      omega
  have hline : b.line.indent = n := h.indent_eq
  rw [lines_eq, List.filter_cons_of_pos (by simpa using hline), hdeep]

theorem filter_linesOfAll {n : Nat} {bs : List Block} (h : ∀ b ∈ bs, Nested n b) :
    (linesOfAll bs).filter (·.indent == n) = bs.map line := by
  induction bs with
  | nil => rfl
  | cons b bs ih =>
    obtain ⟨hb, hbs⟩ := List.forall_mem_cons.mp h
    rw [linesOfAll, List.filter_append, hb.filter_lines, ih hbs]
    rfl

/-- The outermost blocks stand where the unindented lines begin. -/
theorem map_position_ofSource [Alphabet] {tabWidth : Nat} {source : String} {bs : List Block}
    (h : ofSource tabWidth source = .ok bs) :
    bs.map position = unindentedStarts (cut '\n' (plain tabWidth source.toList)) := by
  rw [ofSource, exceptBind_eq_ok] at h
  obtain ⟨ls, hls, hbs⟩ := h
  obtain ⟨hnested, hlines⟩ := nested_of_forest hbs
  have hstarts := Line.starts_of_scanAll [] hls
  rw [← hlines, filter_linesOfAll hnested, List.map_map] at hstarts
  exact hstarts

end Block

theorem TopStatement.position_of_ofBlock {b : Block} {t : TopStatement} (h : ofBlock b = .ok t) :
    t.position = b.position := by
  rw [ofBlock, Block.read_eq_ok] at h
  obtain ⟨⟨isPublic, header⟩, -, hbuild⟩ := h
  rw [exceptBind_eq_ok] at hbuild
  obtain ⟨st, -, hst⟩ := hbuild
  cases hst
  rfl

theorem TopStatement.map_position_of_mapM {bs : List Block} {ts : List TopStatement}
    (h : bs.mapM ofBlock = .ok ts) : ts.map position = bs.map Block.position := by
  rw [mapM_eq_ok] at h
  induction h with
  | nil => rfl
  | cons hok _ ih => rw [List.map_cons, List.map_cons, position_of_ofBlock hok, ih]

/-- The statements of a program are as many as the unindented lines of its text, and each stands
where its line begins. -/
theorem Program.parse_positions [Alphabet] {tabWidth : Nat} {source : String}
    {ts : List TopStatement} (h : parse tabWidth source = .ok ts) :
    ts.length = ((cut '\n' (plain tabWidth source.toList)).filter isUnindented).length ∧
      ts.map TopStatement.position = unindentedStarts (cut '\n' (plain tabWidth source.toList)) ∧
      (∀ t ∈ ts, ∃ before cs after, plain tabWidth source.toList = before ++ cs ++ after ∧
        isUnindented cs = true ∧ t.position = reached before) ∧
      (ts.map fun t => t.position.line).Pairwise (· < ·) := by
  obtain ⟨bs, hbs, hts⟩ := parse_eq_ok.mp h
  have hmap : ts.map TopStatement.position =
      unindentedStarts (cut '\n' (plain tabWidth source.toList)) := by
    rw [← Block.map_position_ofSource hbs]
    exact TopStatement.map_position_of_mapM hts
  refine ⟨?_, hmap, ?_, ?_⟩
  · rw [← length_unindentedStarts, ← hmap, List.length_map]
  · intro t ht
    apply exists_of_mem_unindentedStarts
    rw [← hmap]
    exact List.mem_map_of_mem ht
  · have hlines := pairwise_unindentedStarts (cut '\n' (plain tabWidth source.toList))
    rw [← hmap, List.pairwise_map] at hlines
    exact List.pairwise_map.mpr hlines

/-- Blank lines of several kinds, tabs, a carriage return, letters of several bytes and a return
from two levels to none. -/
theorem Program.parse_positions_mixed :
    ∃ ts, parse 2
        "\n\t \nknow:\r\n\n\tforall é T:\n\t  \u3000\n\t\té = é\n \u2003\nç < 1\nproof:\n  x = y\n\n" =
        .ok ts ∧
      ts.length = 3 ∧ ts.map TopStatement.position = [⟨3, 1, 5⟩, ⟨9, 1, 52⟩, ⟨10, 1, 59⟩] ∧
      (ts.map fun t => t.position.line).Pairwise (· < ·) := by
  obtain ⟨ts, hts, hlength⟩ := exists_ok_of_length (x := parse 2
    "\n\t \nknow:\r\n\n\tforall é T:\n\t  \u3000\n\t\té = é\n \u2003\nç < 1\nproof:\n  x = y\n\n")
    (n := 3) (by decide +kernel)
  obtain ⟨-, hmap, -, hlines⟩ := parse_positions hts
  refine ⟨ts, hts, hlength, ?_, hlines⟩
  rw [hmap]
  decide +kernel

end FactScript
