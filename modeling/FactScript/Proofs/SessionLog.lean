import FactScript.Memory.Session
import FactScript.Proofs.StoreLog
import Mathlib.Data.List.Forall2

/-!
A session says no more and no less than the log of the statements that were recorded in it.
Statement by statement, the log tells what each store holds and under which keys, and a place that
was once returned for an entry keeps this entry whatever is recorded later.
-/
namespace FactScript

/-! The stores of a memory. -/

abbrev StoreKind.Content : StoreKind → Type
  | .ground => Fact
  | .conditional => Conditional
  | .universal => Rule
  | .var => Param
  | .property => PropertyDecl
  | .fn => FnDecl
  | .synonym => Term

def Memory.store (m : Memory) : (kind : StoreKind) → Store kind.Content
  | .ground => m.ground
  | .conditional => m.conditional
  | .universal => m.universal
  | .var => m.vars
  | .property => m.properties
  | .fn => m.fns
  | .synonym => m.aliases

def Entry.content : (e : Entry) → e.kind.Content
  | .ground fact => fact
  | .conditional entry => entry
  | .universal rule => rule
  | .var param => param
  | .property decl => decl
  | .fn decl => decl
  | .synonym _ value => value

/-- What an entry leaves in the store of a kind, with its keys. -/
def Entry.filed? (kind : StoreKind) (e : Entry) : Option (List String × kind.Content) :=
  if h : e.kind = kind then some (e.keys, h ▸ e.content) else none

@[simp] theorem Entry.filed?_kind (e : Entry) : e.filed? e.kind = some (e.keys, e.content) := by
  simp [filed?]

namespace Memory

/-- The place holds what the entry left there, and it is listed under the entry's keys and no
others. -/
def Denotes (m : Memory) (r : Recorded) (e : Entry) : Prop :=
  r.kind = e.kind ∧ (m.store e.kind).get? r.id = some e.content ∧
    ∀ key, r.id ∈ (m.store e.kind).handles key ↔ key ∈ e.keys

def Lists (m : Memory) (log : List Entry) : Prop :=
  ∀ kind, (m.store kind).Lists (log.filterMap (Entry.filed? kind))

theorem insert_fst (m : Memory) (e : Entry) :
    (m.insert e).1 = ⟨e.kind, ((m.store e.kind).insert e.keys e.content).1⟩ := by
  cases e <;> rfl

theorem store_insert (m : Memory) (e : Entry) :
    (m.insert e).2.store e.kind = ((m.store e.kind).insert e.keys e.content).2 := by
  cases e <;> rfl

theorem store_insert_of_ne (m : Memory) {e : Entry} {kind : StoreKind} (h : e.kind ≠ kind) :
    (m.insert e).2.store kind = m.store kind := by
  revert h
  cases e <;> cases kind <;> simp [Memory.insert, store, Entry.kind]

theorem lists_empty : ({} : Memory).Lists [] := by
  intro kind
  cases kind <;> exact .empty

theorem Lists.insert {m : Memory} {log : List Entry} (h : m.Lists log) (e : Entry) :
    (m.insert e).2.Lists (log ++ [e]) := by
  intro kind
  rw [List.filterMap_append]
  by_cases hkind : e.kind = kind
  · subst hkind
    rw [store_insert, List.filterMap_cons_some e.filed?_kind]
    exact (h e.kind).insert e.keys e.content
  · have hnone : e.filed? kind = none := dif_neg hkind
    rw [store_insert_of_ne m hkind, List.filterMap_cons_none hnone, List.filterMap_nil,
      List.append_nil]
    exact h kind

theorem Lists.insertAll {m : Memory} {log : List Entry} (h : m.Lists log) (es : List Entry) :
    (m.insertAll es).2.Lists (log ++ es) := by
  induction es generalizing m log with
  | nil => simpa [Memory.insertAll] using h
  | cons e es ih => simpa [Memory.insertAll] using ih (h.insert e)

/-- The place that is returned for an entry is where any longer log has this entry. -/
theorem Lists.denotes {m m' : Memory} {log more : List Entry} {e : Entry} (h : m.Lists log)
    (h' : m'.Lists (log ++ e :: more)) : m'.Denotes (m.insert e).1 e := by
  have hplace : (m.insert e).1 = ⟨e.kind, (log.filterMap (Entry.filed? e.kind)).length⟩ := by
    rw [m.insert_fst, (h e.kind).insert_fst]
  have hstore := h' e.kind
  rw [List.filterMap_append, List.filterMap_cons_some e.filed?_kind] at hstore
  have hentry : (log.filterMap (Entry.filed? e.kind) ++ (e.keys, e.content) ::
      more.filterMap (Entry.filed? e.kind))[(log.filterMap (Entry.filed? e.kind)).length]? =
        some (e.keys, e.content) := by
    rw [List.getElem?_append_right (Nat.le_refl _), Nat.sub_self]
    rfl
  rw [hplace]
  refine ⟨rfl, ?_, ?_⟩
  · rw [hstore.get?_eq, hentry]
    rfl
  · intro key
    rw [hstore.mem_handles, hentry]
    simp

/-- Every place that is returned for an entry holds this entry for good. -/
theorem Lists.denotesAll {m m' : Memory} {log more : List Entry} (es : List Entry) (h : m.Lists log)
    (h' : m'.Lists (log ++ es ++ more)) : List.Forall₂ m'.Denotes (m.insertAll es).1 es := by
  induction es generalizing m log with
  | nil => exact .nil
  | cons e es ih =>
    have hfirst : m'.Lists (log ++ e :: (es ++ more)) := by simpa using h'
    exact .cons (h.denotes hfirst) (ih (h.insert e) (by simpa using h'))

end Memory

/-! What statements leave in each store. -/

def Fact.rule? : Fact → Option Rule
  | .universal generics params premises conclusions =>
    some ⟨generics, params, premises, conclusions⟩
  | _ => none

namespace Statement

def known : Statement → List Fact
  | .know facts => facts
  | _ => []

/-- The conclusions of a definition, each under the guards of the signature and then
the premises. -/
def conditionals : Statement → List Conditional
  | .property decl premises conclusions => conclusions.map (⟨decl.signature.guards ++ premises, ·⟩)
  | .fn decl premises conclusions => conclusions.map (⟨decl.signature.guards ++ premises, ·⟩)
  | .exist decl premises _ conclusions => conclusions.map (⟨decl.signature.guards ++ premises, ·⟩)
  | _ => []

def vars : Statement → List Param
  | .var vars _ => vars
  | _ => []

def properties : Statement → List PropertyDecl
  | .property decl _ _ => [decl]
  | .exist decl _ _ _ => [decl]
  | _ => []

def fns : Statement → List FnDecl
  | .fn decl _ _ => [decl]
  | _ => []

def synonyms : Statement → List (String × Term)
  | .use name value => [(name, value)]
  | _ => []

/-- What a statement puts into memory, in order: a definition comes before what it implies. -/
def announced (st : Statement) : List Entry :=
  st.known.map .ofFact ++ st.vars.map .var ++ st.properties.map .property ++ st.fns.map .fn ++
    st.synonyms.map (fun a => .synonym a.1 a.2) ++ st.conditionals.map .conditional

theorem entries_eq (st : Statement) : st.entries = st.announced := by
  cases st <;> simp [entries, announced, known, vars, properties, fns, synonyms, conditionals,
    Signature.consequences]

end Statement

namespace Entry

theorem filed?_ground_ofFact (f : Fact) :
    (ofFact f).filed? .ground = if f.isSpecific then some (f.keys, f) else none := by
  cases f <;> rfl

theorem filed?_universal_ofFact (f : Fact) :
    (ofFact f).filed? .universal = f.rule?.map (f.keys, ·) := by
  cases f <;> rfl

theorem filed?_ofFact_of_ne (f : Fact) {kind : StoreKind} (hground : kind ≠ .ground)
    (huniversal : kind ≠ .universal) : (ofFact f).filed? kind = none := by
  cases f with
  | universal => exact dif_neg huniversal.symm
  | relational | property => exact dif_neg hground.symm

end Entry

/-- What a statement leaves in the store of each kind, with the keys: facts are filed under what
they are about, and declarations under the declared name. -/
def Statement.filed (st : Statement) : (kind : StoreKind) → List (List String × kind.Content)
  | .ground => (st.known.filter Fact.isSpecific).map fun f => (f.keys, f)
  | .conditional => st.conditionals.map fun c => (c.consequence.keys, c)
  | .universal => st.known.filterMap fun f => f.rule?.map (f.keys, ·)
  | .var => st.vars.map fun p => ([p.name], p)
  | .property => st.properties.map fun d => ([d.name], d)
  | .fn => st.fns.map fun d => ([d.name], d)
  | .synonym => st.synonyms.map fun a => ([a.1], a.2)

theorem Statement.filterMap_announced (st : Statement) (kind : StoreKind) :
    st.announced.filterMap (Entry.filed? kind) = st.filed kind := by
  simp only [announced, List.filterMap_append, List.filterMap_map, Function.comp_def]
  cases kind with
  | ground =>
    have hknown : (st.known.filter Fact.isSpecific).map (fun f => (f.keys, f)) =
        st.known.filterMap fun f => if f.isSpecific then some (f.keys, f) else none := by
      rw [← List.filterMap_eq_map, List.filterMap_filter]
      rfl
    simp only [Entry.filed?_ground_ofFact]
    simp [filed, hknown, Entry.filed?, Entry.kind]
  | universal =>
    simp only [Entry.filed?_universal_ofFact]
    simp [filed, Entry.filed?, Entry.kind]
  | conditional | var | property | fn | synonym =>
    simp only [Entry.filed?_ofFact_of_ne, ne_eq, reduceCtorEq, not_false_eq_true]
    simp [filed, Entry.filed?, Entry.kind, Entry.keys, Entry.content]

namespace Session

/-- The session has counted the statements of the log, and each of its stores lists what these leave
there. -/
structure Logs (s : Session) (log : List Statement) : Prop where
  statements : s.statements = log.length
  stores : ∀ kind, (s.memory.store kind).Lists (log.flatMap (·.filed kind))

theorem logs_iff {s : Session} {log : List Statement} :
    s.Logs log ↔ s.statements = log.length ∧ s.memory.Lists (log.flatMap Statement.entries) := by
  have hfiled (kind : StoreKind) : (log.flatMap Statement.entries).filterMap (Entry.filed? kind) =
      log.flatMap (·.filed kind) := by
    simp [List.filterMap_flatMap, Statement.entries_eq, Statement.filterMap_announced]
  constructor
  · intro h
    exact ⟨h.statements, fun kind => hfiled kind ▸ h.stores kind⟩
  · intro h
    exact ⟨h.1, fun kind => hfiled kind ▸ h.2 kind⟩

theorem logs_empty : ({} : Session).Logs [] := logs_iff.mpr ⟨rfl, Memory.lists_empty⟩

namespace Logs

variable {s : Session} {log : List Statement}

theorem record (h : s.Logs log) (st : Statement) : (s.record st).2.Logs (log ++ [st]) := by
  obtain ⟨hcount, hmemory⟩ := logs_iff.mp h
  have hafter := hmemory.insertAll st.entries
  refine logs_iff.mpr ⟨?_, ?_⟩
  · simp [Session.record, hcount]
  · simpa [Session.record] using hafter

theorem recordAll (h : s.Logs log) (sts : List Statement) :
    (s.recordAll sts).2.Logs (log ++ sts) := by
  induction sts generalizing s log with
  | nil => simpa [Session.recordAll] using h
  | cons st sts ih => simpa [Session.recordAll] using ih (h.record st)

theorem denotes_record {s' : Session} {more : List Statement} {st : Statement} (h : s.Logs log)
    (h' : s'.Logs (log ++ st :: more)) :
    List.Forall₂ s'.memory.Denotes (s.record st).1 st.announced := by
  have hmemory := (logs_iff.mp h).2
  have hafter := (logs_iff.mp h').2
  rw [List.flatMap_append, List.flatMap_cons, ← List.append_assoc] at hafter
  rw [← st.entries_eq]
  exact hmemory.denotesAll st.entries hafter

theorem denotes_recordAll {s' : Session} {more : List Statement} (sts : List Statement)
    (h : s.Logs log) (h' : s'.Logs (log ++ sts ++ more)) :
    List.Forall₂ s'.memory.Denotes (s.recordAll sts).1.flatten
      (sts.flatMap Statement.announced) := by
  induction sts generalizing s log with
  | nil => exact .nil
  | cons st sts ih =>
    have hfirst : List.Forall₂ s'.memory.Denotes (s.record st).1 st.announced :=
      h.denotes_record (by simpa using h')
    have hrest := ih (h.record st) (by simpa using h')
    simpa [Session.recordAll] using List.rel_append hfirst hrest

end Logs

/-! Runs of a session. -/

inductive Request
  | check (tabWidth : Nat) (source : String)
  | record (statement : Statement)
  | recordAll (statements : List TopStatement)

variable [Alphabet]

namespace Request

/-- The statements that a request adds: a program that cannot be read adds none. -/
def statements : Request → List Statement
  | check tabWidth source =>
    match Program.parse tabWidth source with
    | .ok statements => statements.map TopStatement.statement
    | .error _ => []
  | record statement => [statement]
  | recordAll statements => statements.map TopStatement.statement

def announced : Request → List Entry
  | check .. => []
  | record statement => statement.announced
  | recordAll statements => statements.flatMap (·.statement.announced)

end Request

def serve (s : Session) : Request → List Recorded × Session
  | .check tabWidth source => ([], (s.check tabWidth source).2)
  | .record statement => s.record statement
  | .recordAll statements =>
    let (recorded, s') := s.recordAll (statements.map TopStatement.statement)
    (recorded.flatten, s')

def run (s : Session) (requests : List Request) : Session :=
  requests.foldl (fun s request => (s.serve request).2) s

theorem Logs.serve {s : Session} {log : List Statement} (h : s.Logs log) (request : Request) :
    (s.serve request).2.Logs (log ++ request.statements) := by
  cases request with
  | check tabWidth source =>
    cases hparse : Program.parse tabWidth source with
    | error e => simpa [Session.serve, Session.check, Request.statements, hparse] using h
    | ok ts =>
      simpa [Session.serve, Session.check, Request.statements, hparse] using
        h.recordAll (ts.map TopStatement.statement)
  | record st => exact h.record st
  | recordAll ts => exact h.recordAll (ts.map TopStatement.statement)

theorem Logs.run {s : Session} {log : List Statement} (h : s.Logs log) (requests : List Request) :
    (s.run requests).Logs (log ++ requests.flatMap Request.statements) := by
  induction requests generalizing s log with
  | nil => simpa [Session.run] using h
  | cons request requests ih => simpa [Session.run] using ih (h.serve request)

theorem Logs.denotes_serve {s s' : Session} {log more : List Statement} (h : s.Logs log)
    (request : Request) (h' : s'.Logs (log ++ request.statements ++ more)) :
    List.Forall₂ s'.memory.Denotes (s.serve request).1 request.announced := by
  cases request with
  | check => exact .nil
  | record st => exact h.denotes_record (by simpa [Request.statements] using h')
  | recordAll ts =>
    have hall := h.denotes_recordAll (ts.map TopStatement.statement) h'
    rwa [List.flatMap_map] at hall

/-- After any requests, a session that was new holds what the log of their statements says. All
places that it ever returned hold, then and later, the entries for which they were returned. -/
theorem run_refines_log :
    (∀ requests, (run {} requests).Logs (requests.flatMap Request.statements)) ∧
      ∀ before request after, List.Forall₂ (run {} (before ++ request :: after)).memory.Denotes
        ((run {} before).serve request).1 request.announced := by
  have hrun (requests : List Request) :
      (run {} requests).Logs (requests.flatMap Request.statements) :=
    logs_empty.run requests
  refine ⟨hrun, ?_⟩
  intro before request after
  have hlater := hrun (before ++ request :: after)
  rw [List.flatMap_append, List.flatMap_cons, ← List.append_assoc] at hlater
  exact (hrun before).denotes_serve request hlater

end Session

end FactScript
