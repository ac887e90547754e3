import FactScript.Proofs.Joining
import FactScript.Proofs.SessionLog

/-!
No memory is out of reach: whatever a program leaves in memory is found under some key. A fact is
filed under the spelling of a relation or under a text that begins as names do, and a universal fact
under those of its conclusions, of which there is at least one.
-/
namespace FactScript

namespace Text

variable [Alphabet]

def beginsAsName (text : String) : Bool := text.toList.head?.any isIdentifierStart

theorem beginsAsName_of_isName {name : String} (h : isName name = true) :
    beginsAsName name = true := by
  rw [isName, Bool.and_eq_true] at h
  cases hname : name.toList with
  | nil => simp [hname, isWord] at h
  | cons c cs =>
    rw [hname, isWord, Bool.and_eq_true] at h
    simpa [beginsAsName, hname] using h.1.1

theorem beginsAsName_append {text : String} (h : beginsAsName text = true) (more : String) :
    beginsAsName (text ++ more) = true := by
  cases htext : text.toList with
  | nil => simp [beginsAsName, htext] at h
  | cons c cs => simpa [beginsAsName, htext] using h

theorem ne_empty_of_beginsAsName {text : String} (h : beginsAsName text = true) : text ≠ "" := by
  rintro rfl
  cases h

end Text

namespace Symbol

theorem text_ne_empty (s : Symbol) : s.text ≠ "" := by cases s <;> decide

theorem text_injective {s s' : Symbol} (h : s.text = s'.text) : s = s' :=
  chars_injective (String.ofList_injective h)

theorem beginsAsName_text [Alphabet] (s : Symbol) : Text.beginsAsName s.text = false := by
  rw [Text.beginsAsName, text, String.toList_ofList]
  cases hchars : s.chars with
  | nil => exact absurd hchars s.chars_ne_nil
  | cons c cs =>
    have hc : c ∈ s.chars := by rw [hchars]; exact List.mem_cons_self
    rw [List.head?_cons, Option.any_some, Symbol.isIdentifierStart_of_mem hc]

end Symbol

/-! Keys of facts. -/

theorem Term.Segment.beginsAsName [Alphabet] :
    ∀ {t : Term}, t.Segment → Text.beginsAsName t.headName = true
  | _, .atom hname => Text.beginsAsName_of_isName hname
  | .call ⟨callee, _, _⟩, .call hcallee _ _ =>
    show Text.beginsAsName callee.headName = true from Term.Segment.beginsAsName hcallee

theorem Term.beginsAsName_chain [Alphabet] {parts : List Term} (hlen : 2 ≤ parts.length)
    (h : ∀ t ∈ parts, t.Segment) :
    Text.beginsAsName (Term.chain parts).headName = true := by
  cases parts with
  | nil => simp at hlen
  | cons t ts =>
    have hfirst := (h t List.mem_cons_self).beginsAsName
    have hjoin : ".".intercalate (t.headName :: headNames ts) =
        t.headName ++ ".".intercalate ("" :: headNames ts) := by
      rw [← String.intercalate_cons_append, String.append_empty]
    rw [headName, headNames, hjoin]
    exact Text.beginsAsName_append hfirst _

theorem Call.Predicate.beginsAsName [Alphabet] {c : Call} (h : c.Predicate) :
    Text.beginsAsName c.headName = true := by
  cases h with
  | plain hcallee => exact hcallee.beginsAsName
  | chain hlen hparts => exact Term.beginsAsName_chain hlen hparts

theorem Fact.exists_key_of_conclusions {fs : List Fact} (hne : fs ≠ [])
    (h : ∀ f ∈ fs, ∃ key ∈ f.keys, key ≠ "") : ∃ key ∈ Fact.keysOfAll fs, key ≠ "" := by
  cases fs with
  | nil => contradiction
  | cons f fs =>
    obtain ⟨key, hkey, hempty⟩ := h f List.mem_cons_self
    exact ⟨key, by simp [Fact.keysOfAll, hkey], hempty⟩

/-- A universal fact has the keys of its conclusions, however deep the facts in them are nested. -/
theorem Fact.WellFormed.exists_key [Alphabet] :
    ∀ {f : Fact}, f.WellFormed → ∃ key ∈ f.keys, key ≠ ""
  | .relational _ s _, _ => ⟨s.text, List.mem_cons_self, s.text_ne_empty⟩
  | .property _ c, .property hcall =>
    ⟨c.headName, List.mem_cons_self, Text.ne_empty_of_beginsAsName hcall.beginsAsName⟩
  | .universal .., .universal _ _ _ _ hne hconclusions =>
    Fact.exists_key_of_conclusions hne fun f hf => Fact.WellFormed.exists_key (hconclusions f hf)

/-- A key tells whether a fact is relational, and with which operator. -/
theorem Fact.WellFormed.of_mem_keys [Alphabet] {f : Fact} {key : String} (h : f.WellFormed)
    (hspecific : f.isSpecific = true) (hkey : key ∈ f.keys) :
    (∀ s : Symbol, s.isRelational = true → key = s.text →
        ∃ holds operands, f = .relational holds s operands) ∧
      ((∀ s : Symbol, s.isRelational = true → key ≠ s.text) →
        ∃ holds call, f = .property holds call) := by
  cases h with
  | @relational holds s operands hs =>
    have hkey : key = s.text := by simpa [Fact.keys] using hkey
    refine ⟨?_, fun hno => absurd hkey (hno s hs)⟩
    intro s' _ hs'
    rw [Symbol.text_injective (hs'.symm.trans hkey)]
    exact ⟨holds, operands, rfl⟩
  | @property holds call hcall =>
    have hkey : key = call.headName := by simpa [Fact.keys] using hkey
    refine ⟨?_, fun _ => ⟨holds, call, rfl⟩⟩
    intro s _ hs
    have hname := hcall.beginsAsName
    rw [← hkey, hs, s.beginsAsName_text] at hname
    cases hname
  | universal => cases hspecific

/-! What well-formed statements leave in memory. -/

namespace Statement.WellFormed

variable [Alphabet] {st : Statement}

theorem of_mem_known (h : st.WellFormed) : ∀ f ∈ st.known, f.WellFormed := by
  cases h with
  | know _ hfacts => exact hfacts
  | _ => exact List.forall_mem_nil _

theorem of_mem_conditionals (h : st.WellFormed) :
    ∀ c ∈ st.conditionals, c.consequence.WellFormed := by
  cases h with
  | property _ hconditions => simpa [conditionals] using hconditions.conclusions
  | fn _ hconditions => simpa [conditionals] using hconditions.conclusions
  | exist _ _ _ hconclusions => simpa [conditionals] using hconclusions
  | _ => exact List.forall_mem_nil _

theorem isName_vars (h : st.WellFormed) : ∀ p ∈ st.vars, Text.isName p.name = true := by
  cases h with
  | var _ hvars =>
    intro p hp
    cases hvars p hp with
    | mk hname => exact hname
  | _ => exact List.forall_mem_nil _

theorem isName_properties (h : st.WellFormed) : ∀ d ∈ st.properties, Text.isName d.name = true := by
  cases h with
  | property hdecl => simpa [properties] using hdecl.1
  | exist hdecl => simpa [properties] using hdecl.1
  | _ => exact List.forall_mem_nil _

theorem isName_fns (h : st.WellFormed) : ∀ d ∈ st.fns, Text.isName d.name = true := by
  cases h with
  | fn hdecl => simpa [fns] using hdecl.1
  | _ => exact List.forall_mem_nil _

theorem isName_synonyms (h : st.WellFormed) : ∀ a ∈ st.synonyms, Text.isName a.1 = true := by
  cases h with
  | use hname => simpa [synonyms] using hname
  | _ => exact List.forall_mem_nil _

theorem exists_key_of_mem_filed (h : st.WellFormed) {kind : StoreKind}
    {e : List String × kind.Content} (he : e ∈ st.filed kind) : ∃ key ∈ e.1, key ≠ "" := by
  have hname {name : String} (hname : Text.isName name = true) : ∃ key ∈ [name], key ≠ "" :=
    ⟨name, List.mem_cons_self, Text.ne_empty_of_beginsAsName (Text.beginsAsName_of_isName hname)⟩
  cases kind with
  | ground =>
    obtain ⟨f, hf, rfl⟩ := List.mem_map.mp he
    exact (h.of_mem_known f (List.mem_filter.mp hf).1).exists_key
  | conditional =>
    obtain ⟨c, hc, rfl⟩ := List.mem_map.mp he
    exact (h.of_mem_conditionals c hc).exists_key
  | universal =>
    obtain ⟨f, hf, hrule⟩ := List.mem_filterMap.mp he
    obtain ⟨rule, -, rfl⟩ := Option.map_eq_some_iff.mp hrule
    exact (h.of_mem_known f hf).exists_key
  | var =>
    obtain ⟨p, hp, rfl⟩ := List.mem_map.mp he
    exact hname (h.isName_vars p hp)
  | property =>
    obtain ⟨d, hd, rfl⟩ := List.mem_map.mp he
    exact hname (h.isName_properties d hd)
  | fn =>
    obtain ⟨d, hd, rfl⟩ := List.mem_map.mp he
    exact hname (h.isName_fns d hd)
  | synonym =>
    obtain ⟨a, ha, rfl⟩ := List.mem_map.mp he
    exact hname (h.isName_synonyms a ha)

end Statement.WellFormed

/-! Stores. -/

/-- Every entry of the store is found under some key that is not empty. -/
def Store.Reachable {α : Type} (s : Store α) : Prop :=
  ∀ id a, s.get? id = some a → ∃ key ∈ s.keys, key ≠ "" ∧ id ∈ s.handles key ∧ a ∈ s.lookup key

theorem Store.Lists.reachable {α : Type} {s : Store α} {log : List (List String × α)}
    (h : s.Lists log) (hkeys : ∀ e ∈ log, ∃ key ∈ e.1, key ≠ "") : s.Reachable := by
  intro id a ha
  rw [h.get?_eq] at ha
  obtain ⟨e, he, rfl⟩ := Option.map_eq_some_iff.mp ha
  have hmem : e ∈ log := List.mem_of_getElem? he
  obtain ⟨key, hkey, hne⟩ := hkeys e hmem
  exact ⟨key, h.mem_keys.mpr ⟨e, hmem, hkey⟩, hne, h.mem_handles.mpr ⟨e, he, hkey⟩,
    h.mem_lookup.mpr ⟨e, hmem, hkey, rfl⟩⟩

namespace Session

/-- A program that was read leaves nothing in memory that could not be found. What is found under
the spelling of a relational operator are relational facts with this operator, and under any other
key facts about properties. -/
theorem reachable_of_check [Alphabet] {tabWidth : Nat} {source : String} {ts : List TopStatement}
    {s : Session} (h : Session.check {} tabWidth source = (.ok ts, s)) :
    (∀ kind, (s.memory.store kind).Reachable) ∧
      ∀ key f, f ∈ s.memory.ground.lookup key →
        (∀ op : Symbol, op.isRelational = true → key = op.text →
            ∃ holds operands, f = .relational holds op operands) ∧
          ((∀ op : Symbol, op.isRelational = true → key ≠ op.text) →
            ∃ holds call, f = .property holds call) := by
  obtain ⟨hparse, rfl⟩ := check_eq_ok.mp h
  have hstatements : ∀ st ∈ ts.map TopStatement.statement, st.WellFormed :=
    List.forall_mem_map.mpr (Program.wellFormed_of_parse hparse)
  have hlogs := logs_empty.recordAll (ts.map TopStatement.statement)
  rw [List.nil_append] at hlogs
  refine ⟨?_, ?_⟩
  · intro kind
    refine (hlogs.stores kind).reachable ?_
    intro e he
    obtain ⟨st, hst, he⟩ := List.mem_flatMap.mp he
    exact (hstatements st hst).exists_key_of_mem_filed he
  · intro key f hf
    obtain ⟨e, he, hkey, rfl⟩ := (hlogs.stores .ground).mem_lookup.mp hf
    obtain ⟨st, hst, he⟩ := List.mem_flatMap.mp he
    obtain ⟨f, hfact, rfl⟩ := List.mem_map.mp he
    obtain ⟨hknown, hspecific⟩ := List.mem_filter.mp hfact
    exact ((hstatements st hst).of_mem_known f hknown).of_mem_keys hspecific hkey

theorem exists_check_of_recorded [Alphabet] (s : Session) (tabWidth : Nat) (source : String)
    (p : Session → Bool) (h : (Program.parse tabWidth source).toOption.any
      (fun ts => p (s.recordAll (ts.map TopStatement.statement)).2) = true) :
    ∃ ts s', s.check tabWidth source = (.ok ts, s') ∧ p s' = true := by
  cases hparse : Program.parse tabWidth source with
  | error e => simp [hparse, Except.toOption] at h
  | ok ts =>
    exact ⟨ts, _, check_eq_ok.mpr ⟨hparse, rfl⟩, by simpa [hparse, Except.toOption] using h⟩

/-- The universal fact is found under what the fact in it concludes. -/
theorem reachable_of_check_nested : ∃ ts s,
    Session.check {} 1 "know:\n\ta < b\n\t$p.q(a)\n\tforall x N:\n\t\tforall y N:\n\t\t\t$r(x)" =
        (.ok ts, s) ∧
      s.memory.ground.keys = ["<", "p.q"] ∧ s.memory.universal.keys = ["r"] ∧
      (∀ kind, (s.memory.store kind).Reachable) ∧
      (∀ f ∈ s.memory.ground.lookup "<", ∃ holds operands, f = .relational holds .lt operands) ∧
      ∀ f ∈ s.memory.ground.lookup "p.q", ∃ holds call, f = .property holds call := by
  obtain ⟨ts, s, h, hkeys⟩ := exists_check_of_recorded {} 1
    "know:\n\ta < b\n\t$p.q(a)\n\tforall x N:\n\t\tforall y N:\n\t\t\t$r(x)"
    (fun s => s.memory.ground.keys = ["<", "p.q"] ∧ s.memory.universal.keys = ["r"])
    (by decide +kernel)
  obtain ⟨hground, huniversal⟩ := of_decide_eq_true hkeys
  obtain ⟨hreachable, hfacts⟩ := reachable_of_check h
  refine ⟨ts, s, h, hground, huniversal, hreachable, ?_, ?_⟩
  · intro f hf
    exact (hfacts "<" f hf).1 .lt rfl (by decide)
  · intro f hf
    exact (hfacts "p.q" f hf).2 fun op _ => by cases op <;> decide

end Session

end FactScript
