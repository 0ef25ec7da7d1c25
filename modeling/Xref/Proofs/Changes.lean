import Xref.Proofs.Session

/-!
# Sessions while files change

Between the requests of a session files may be written and removed. An environment knows what it
read when it was built; only a class that is a file of its own is read later, once, when it is first
asked for. So a later state of an environment differs from an earlier one in nothing but
descriptions that nobody had asked for before.
-/
open List Option Bool

namespace Xref.Environment

open ClassFile Files Java Text

variable {files files' : FileTree} {env env' env'' : Environment} {q archive entry : String}
  {bytes : List UInt8}

lemma bytes_of_class {config : Config} {libs roots : List String}
    (h : (build config files libs roots).classes.lookup q = some (.archived archive entry bytes)) :
    ∃ entries, (files.read archive).toOption.bind archiveEntries? = some entries ∧
      entries.reverse.lookup entry = some bytes := by
  rcases origin_of_class h with ⟨root, -, ⟨path, relative⟩, -, hfile⟩ | ⟨path, harchived⟩
  · unfold Libraries.classFile at hfile
    dsimp only at hfile
    split at hfile
    · cases hfile
    · simp at hfile
  · unfold Libraries.archived at harchived
    cases hentries : (files.read path).toOption.bind archiveEntries? with
    | none => simp [hentries] at harchived
    | some entries =>
      simp only [hentries, mem_flatMap, List.mem_map, Prod.mk.injEq,
        ClassPlace.archived.injEq] at harchived
      obtain ⟨⟨entry', bytes'⟩, hentry, _, _, _, rfl, rfl, rfl⟩ := harchived
      refine ⟨entries, hentries, ?_⟩
      have hsome : (entries.reverse.lookup entry').isSome := by
        rw [isSome_lookup_iff]
        exact ⟨bytes', mem_reverse.mpr hentry⟩
      obtain ⟨found, hfound⟩ := isSome_iff_exists.mp hsome
      rw [hfound]
      rfl

/-- What is kept of a class in an archive comes from its bytes. -/
def KeepsEntries (env : Environment) : Prop :=
  ∀ q known archive entry bytes, env.loaded.lookup q = some known →
    env.classes.lookup q = some (.archived archive entry bytes) →
      known = describeEntry? archive bytes

lemma KeepsEntries.of_build (config : Config) (files : FileTree) (libs roots : List String) :
    (build config files libs roots).KeepsEntries :=
  fun _ _ _ _ _ h _ => by simp [build] at h

lemma KeepsEntries.read (h : env.KeepsEntries) (files : FileTree) {name : String}
    (hname : env.isDeferred name) :
    KeepsEntries { env with loaded := (name, env.loadClass? files name) :: env.loaded } := by
  intro q known archive entry bytes hq hclass
  rw [lookup_cons] at hq
  split at hq
  · next heq =>
    obtain rfl := eq_of_beq heq
    simp only [isDeferred, and_eq_true, isNone_iff_eq_none] at hname
    have hclass : env.classes.lookup q = some (.archived archive entry bytes) := hclass
    rw [loadClass?, hname.1.2, hclass] at hq
    rw [← some.inj hq]
    exact load?_archived files archive entry bytes
  · exact h q known archive entry bytes hq hclass

lemma KeepsEntries.info?_eq (h : env.KeepsEntries) (hsource : env.sources.lookup q = none)
    (hclass : env.classes.lookup q = some (.archived archive entry bytes)) (files : FileTree) :
    env.info? files q = describeEntry? archive bytes := by
  rw [info?, hsource, loadClass?]
  cases hloaded : env.loaded.lookup q with
  | none =>
    rw [hclass]
    exact load?_archived files archive entry bytes
  | some known => exact h q known archive entry bytes hloaded hclass

/-- A later state of an environment. Only classes that had not been read before are new in it. -/
structure Becomes (env env' : Environment) : Prop where
  frame : env' = { env with loaded := env'.loaded }
  settled : ∀ q, env.isDeferred q = false → env'.loaded.lookup q = env.loaded.lookup q
  entries : env.KeepsEntries → env'.KeepsEntries

namespace Becomes

lemma refl (env : Environment) : env.Becomes env := ⟨rfl, fun _ _ => rfl, id⟩

lemma isDeferred (h : env.Becomes env') (hq : env.isDeferred q = false) :
    env'.isDeferred q = false := by
  rw [h.frame, Environment.isDeferred]
  dsimp only
  rw [h.settled q hq]
  exact hq

lemma trans (h : env.Becomes env') (h' : env'.Becomes env'') : env.Becomes env'' where
  frame := by
    have hframe := h'.frame
    rw [h.frame] at hframe
    exact hframe
  settled q hq := (h'.settled q (h.isDeferred hq)).trans (h.settled q hq)
  entries := h'.entries ∘ h.entries

lemma settle (env : Environment) (files : FileTree) (consulted : List String) :
    env.Becomes (env.settle files consulted) := by
  refine settle_induction (.refl env)
    (fun env' name hname h => h.trans ⟨rfl, fun q hq => ?_, fun h => h.read files hname⟩) consulted
  have hne : (q == name) = false := by
    rw [beq_eq_false_iff_ne]
    rintro rfl
    rw [hname] at hq
    cases hq
  rw [lookup_cons, hne]

lemma analyzeFile (env : Environment) (files : FileTree) (target : String) :
    env.Becomes (env.analyzeFile files target).2 := by
  unfold Environment.analyzeFile
  split
  · exact .refl env
  · unfold analyzeText
    split
    · exact .refl env
    · exact .settle env files _

lemma info?_eq (h : env.Becomes env') (hq : env.isDeferred q = false) (files files' : FileTree) :
    env'.info? files' q = env.info? files q := by
  rw [h.frame, info?, info?, loadClass?, loadClass?]
  dsimp only
  rw [h.settled q hq]
  cases hsource : env.sources.lookup q with
  | some info => rfl
  | none =>
    cases hloaded : env.loaded.lookup q with
    | some known => rfl
    | none =>
      have hclass : env.classes.lookup q = none := by
        simpa [Environment.isDeferred, hsource, hloaded] using hq
      rw [hclass]
      rfl

end Becomes

lemma isDeferred_settle_singleton (env : Environment) (files : FileTree) (q : String) :
    (env.settle files [q]).isDeferred q = false := by
  rw [settle, foldl_cons, foldl_nil]
  split
  · simp [isDeferred]
  · next hq => simpa using hq

lemma info?_settle_singleton (env : Environment) (files : FileTree) (q : String) :
    (env.settle files [q]).info? files q = env.info? files q := by
  rw [settle, foldl_cons, foldl_nil]
  split
  · next hq =>
    simp only [isDeferred, and_eq_true, isNone_iff_eq_none] at hq
    simp [info?, loadClass?, hq.1.1, hq.1.2]
  · rfl

/-- What was answered once is answered again in every later state, whatever the files are then. -/
lemma info?_of_asked (h : (env.settle files [q]).Becomes env') (files' : FileTree) :
    env'.info? files' q = env.info? files q := by
  rw [h.info?_eq (isDeferred_settle_singleton env files q) files files', info?_settle_singleton]

/-- Two environments that give the same answers to all questions but those for descriptions,
whatever the files are. -/
structure Alike (env env' : Environment) : Prop where
  contains : ∀ files files' q, (env'.index files').contains q = (env.index files).contains q
  packageExists : ∀ files files' p,
    (env'.index files').packageExists p = (env.index files).packageExists p
  libraryOf : ∀ q, env'.libraryOf? q = env.libraryOf? q
  stats : env'.stats = env.stats
  diagnostics : env'.diagnostics = env.diagnostics

lemma Becomes.alike (h : env.Becomes env') : env.Alike env' := by
  rw [h.frame]
  exact ⟨fun _ _ _ => rfl, fun _ _ _ => rfl, fun _ => rfl, rfl, rfl⟩

end Xref.Environment

namespace Xref.Session

open Environment Files Java

/-- What a request leaves of the environment that it is put to. -/
def Request.settled (files : FileTree) (env : Environment) : Request → Environment
  | .analyze _ _ target => (env.analyzeFile files target).2
  | .environment _ _ => env
  | .typeInfo _ _ name => env.settle files [name]

lemma Request.becomes_settled (files : FileTree) (env : Environment) (r : Request) :
    env.Becomes (r.settled files env) := by
  cases r with
  | analyze libs roots target => exact .analyzeFile env files target
  | environment libs roots => exact .refl env
  | typeInfo libs roots name => exact .settle env files [name]

lemma serve_eq (files : FileTree) (s : Session) (r : Request) : s.serve files r =
    s.store r.libs r.roots (r.settled files (s.environment files r.libs r.roots)) := by
  cases r <;> rfl

lemma lookup_store (s : Session) (libs roots : List String) (env : Environment) (k : SessionKey) :
    (s.store libs roots env).environments.lookup k =
      if k == .ofPaths libs roots then some env else s.environments.lookup k := by
  rw [← lookup_put, store, apply_ite Session.environments]

/-- What happens to a session and the files around it. -/
inductive Event where
  | ask (r : Request)
  | write (path : String) (entry : Entry)
  | remove (path : String)

/-- A session and the files around it at one time. -/
structure Moment where
  session : Session
  files : FileTree

namespace Moment

variable {env : Environment} {m : Moment} {k : SessionKey}

def kept (m : Moment) (k : SessionKey) : Option Environment := m.session.environments.lookup k

def typeInfo (m : Moment) (libs roots : List String) (q : String) : Option TypeInfo :=
  (m.session.typeInfo m.files libs roots q).1

def step (m : Moment) : Event → Moment
  | .ask r => { m with session := m.session.serve m.files r }
  | .write path entry => { m with files := m.files.place path entry }
  | .remove path => { m with files := m.files.remove path }

def used (m : Moment) (r : Request) : Environment :=
  (m.kept r.key).getD (build m.session.config m.files r.libs r.roots)

section

variable (m : Moment)

lemma kept_ask (r : Request) (k : SessionKey) : (m.step (.ask r)).kept k =
    if k == r.key then some (r.settled m.files (m.used r)) else m.kept k := by
  rw [kept, step, serve_eq, lookup_store]
  rfl

lemma kept_write (path : String) (entry : Entry) (k : SessionKey) :
    (m.step (.write path entry)).kept k = m.kept k := by
  rw [kept, step, kept]

lemma kept_remove (path : String) (k : SessionKey) : (m.step (.remove path)).kept k = m.kept k := by
  rw [kept, step, kept]

lemma kept_typeInfo (libs roots : List String) (q : String) :
    (m.step (.ask (.typeInfo libs roots q))).kept (.ofPaths libs roots) =
      some ((m.session.environment m.files libs roots).settle m.files [q]) := by
  have hkept := m.kept_ask (.typeInfo libs roots q) (.ofPaths libs roots)
  rw [Request.key, Request.libs, Request.roots, beq_self_eq_true, if_pos rfl] at hkept
  exact hkept

lemma typeInfo_eq {libs roots : List String}
    (h : m.kept (.ofPaths libs roots) = some env) (q : String) :
    m.typeInfo libs roots q = env.info? m.files q := by
  have henv : m.session.environment m.files libs roots = env := by
    rw [environment, show m.session.environments.lookup _ = _ from h, getD_some]
  rw [typeInfo, Session.typeInfo, henv]
  rfl

lemma config_step (e : Event) : (m.step e).session.config = m.session.config := by
  cases e with
  | ask r =>
    rw [step, serve_eq, store]
    dsimp only
    split <;> rfl
  | write path entry => rfl
  | remove path => rfl

end

lemma kept_step (h : m.kept k = some env) (e : Event) :
    ∃ env', (m.step e).kept k = some env' ∧ env.Becomes env' := by
  cases e with
  | ask r =>
    rw [kept_ask]
    split
    · next hk =>
      have hused : m.used r = env := by rw [used, ← eq_of_beq hk, h, getD_some]
      exact ⟨_, rfl, hused ▸ r.becomes_settled m.files (m.used r)⟩
    · exact ⟨env, h, .refl env⟩
  | write path entry => exact ⟨env, (m.kept_write path entry k).trans h, .refl env⟩
  | remove path => exact ⟨env, (m.kept_remove path k).trans h, .refl env⟩

lemma kept_foldl (h : m.kept k = some env) (events : List Event) :
    ∃ env', (events.foldl step m).kept k = some env' ∧ env.Becomes env' := by
  induction events generalizing m env with
  | nil => exact ⟨env, h, .refl env⟩
  | cons e events ih =>
    obtain ⟨env', h', hbecomes⟩ := kept_step h e
    obtain ⟨env'', h'', hbecomes'⟩ := ih h'
    exact ⟨env'', h'', hbecomes.trans hbecomes'⟩

end Moment

def after (config : Config) (files : FileTree) (events : List Event) : Moment :=
  events.foldl Moment.step ⟨{ config := config }, files⟩

section

variable {config : Config} {files : FileTree} {events before rest : List Event} {k : SessionKey}
  {env : Environment}

section

variable (config : Config) (files : FileTree)

lemma after_append (before rest : List Event) :
    after config files (before ++ rest) = rest.foldl Moment.step (after config files before) :=
  List.foldl_append ..

lemma config_after (events : List Event) : (after config files events).session.config = config := by
  induction events using List.reverseRecOn with
  | nil => rfl
  | append_singleton events e ih =>
    rw [after_append]
    exact (Moment.config_step _ e).trans ih

lemma exists_kept {r : Request} (h : .ask r ∈ events) :
    ∃ env, (after config files events).kept r.key = some env := by
  obtain ⟨before, rest, rfl⟩ := append_of_mem h
  rw [after_append, foldl_cons]
  have hkept := Moment.kept_ask (after config files before) r r.key
  rw [beq_self_eq_true, if_pos rfl] at hkept
  obtain ⟨env, henv, -⟩ := Moment.kept_foldl hkept rest
  exact ⟨env, henv⟩

end

/-- Where an environment comes from: the first request for its paths has built it from the files as
they were then. -/
structure Built (config : Config) (files : FileTree) (events : List Event) (k : SessionKey)
    (env : Environment) (before : List Event) (r : Request) : Prop where
  occurs : ∃ rest, events = before ++ .ask r :: rest
  key : r.key = k
  first : ∀ r', .ask r' ∈ before → r'.key ≠ k
  becomes : (build config (after config files before).files r.libs r.roots).Becomes env

lemma Built.append {env' : Environment} {r : Request} (h : Built config files events k env before r)
    (hbecomes : env.Becomes env') (e : Event) :
    Built config files (events ++ [e]) k env' before r where
  occurs := by
    obtain ⟨rest, rfl⟩ := h.occurs
    exact ⟨rest ++ [e], by simp⟩
  key := h.key
  first := h.first
  becomes := h.becomes.trans hbecomes

lemma built_of_kept (h : (after config files events).kept k = some env) :
    ∃ before r, Built config files events k env before r := by
  induction events using List.reverseRecOn generalizing env with
  | nil => cases h
  | append_singleton events e ih =>
    rw [after_append] at h
    cases e with
    | ask r =>
      rw [foldl_cons, foldl_nil, Moment.kept_ask] at h
      split at h
      · next hk =>
        obtain rfl := some.inj h
        cases hold : (after config files events).kept k with
        | some old =>
          have hused : (after config files events).used r = old := by
            rw [Moment.used, ← eq_of_beq hk, hold, getD_some]
          obtain ⟨before, first, hbuilt⟩ := ih hold
          rw [hused]
          exact ⟨before, first, hbuilt.append (r.becomes_settled _ old) _⟩
        | none =>
          have hused : (after config files events).used r =
              build config (after config files events).files r.libs r.roots := by
            rw [Moment.used, ← eq_of_beq hk, hold, getD_none, config_after]
          rw [hused]
          refine ⟨events, r, ⟨[], rfl⟩, (eq_of_beq hk).symm, fun r' hr' hkey => ?_,
            r.becomes_settled _ _⟩
          obtain ⟨env', henv'⟩ := exists_kept config files hr'
          rw [hkey, hold] at henv'
          cases henv'
      · obtain ⟨before, first, hbuilt⟩ := ih h
        exact ⟨before, first, hbuilt.append (.refl env) _⟩
    | write path entry =>
      rw [foldl_cons, foldl_nil, Moment.kept_write] at h
      obtain ⟨before, first, hbuilt⟩ := ih h
      exact ⟨before, first, hbuilt.append (.refl env) _⟩
    | remove path =>
      rw [foldl_cons, foldl_nil, Moment.kept_remove] at h
      obtain ⟨before, first, hbuilt⟩ := ih h
      exact ⟨before, first, hbuilt.append (.refl env) _⟩

end

/-- What the environments of a session show while files change. -/
structure Frozen (config : Config) (files : FileTree) (events : List Event) : Prop where
  /-- An environment that is kept at one time is kept at all later times, and all questions but
  those for descriptions have the same answers then. -/
  alike : ∀ before rest, events = before ++ rest → ∀ k env,
    (after config files before).kept k = some env →
      ∃ env', (after config files events).kept k = some env' ∧ env.Alike env'
  /-- A description that was given once is given again, and if there was none there is none. -/
  typeInfo : ∀ before rest libs roots q,
    events = before ++ .ask (.typeInfo libs roots q) :: rest →
      ∀ libs' roots', SessionKey.ofPaths libs' roots' = .ofPaths libs roots →
        (after config files events).typeInfo libs' roots' q =
          (after config files before).typeInfo libs roots q
  /-- An environment is like the one that its first request has built. A class that was in an
  archive then, and not in the sources, has the description of the bytes that it had in the archive.
  -/
  archived : ∀ k env, (after config files events).kept k = some env →
    ∃ before r rest, events = before ++ .ask r :: rest ∧ r.key = k ∧
      (∀ r', .ask r' ∈ before → r'.key ≠ k) ∧
      let files₀ := (after config files before).files
      let built := build config files₀ r.libs r.roots
      built.Alike env ∧ ∀ q archive entry bytes, built.sources.lookup q = none →
        built.classes.lookup q = some (.archived archive entry bytes) →
          (∃ entries, (files₀.read archive).toOption.bind archiveEntries? = some entries ∧
            entries.reverse.lookup entry = some bytes) ∧
          ∀ files', env.info? files' q = describeEntry? archive bytes

theorem frozen_of_events (config : Config) (files : FileTree) (events : List Event) :
    Frozen config files events where
  alike := by
    rintro before rest rfl k env h
    rw [after_append]
    obtain ⟨env', henv', hbecomes⟩ := Moment.kept_foldl h rest
    exact ⟨env', henv', hbecomes.alike⟩
  typeInfo := by
    rintro before rest libs roots q rfl libs' roots' hkey
    rw [after_append, List.foldl_cons]
    generalize after config files before = m
    obtain ⟨env', henv', hbecomes⟩ := Moment.kept_foldl (m.kept_typeInfo libs roots q) rest
    generalize rest.foldl Moment.step _ = now at henv' ⊢
    rw [now.typeInfo_eq (hkey ▸ henv'), info?_of_asked hbecomes]
    rfl
  archived := by
    intro k env h
    obtain ⟨before, r, hbuilt⟩ := built_of_kept h
    obtain ⟨rest, hrest⟩ := hbuilt.occurs
    refine ⟨before, r, rest, hrest, hbuilt.key, hbuilt.first, hbuilt.becomes.alike, ?_⟩
    intro q archive entry bytes hsource hclass
    have hframe := hbuilt.becomes.frame
    exact ⟨bytes_of_class hclass, (hbuilt.becomes.entries (.of_build _ _ _ _)).info?_eq
      ((congrArg (fun e => e.sources.lookup q) hframe).trans hsource)
      ((congrArg (fun e => e.classes.lookup q) hframe).trans hclass)⟩

end Xref.Session
