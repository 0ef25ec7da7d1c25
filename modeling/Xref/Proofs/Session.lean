import Mathlib.Data.List.Dedup
import Xref.Proofs.Environment.Respelling
import Xref.Session

/-!
# Sessions are transparent

A session keeps the environments that it has built, and finds them again by the segments of their
paths. Each of them knows the same as on the day it was built. So an analysis in a session has the
result that it has in a new environment, unless an earlier request spelled the paths so that they
lead elsewhere: a path with an idle end never leads to a file.
-/
open List

namespace Xref.Session

open Environment Files Java Reference Resolve Text

inductive Request where
  | analyze (libs roots : List String) (target : String)
  | environment (libs roots : List String)
  | typeInfo (libs roots : List String) (name : String)

namespace Request

def libs : Request → List String
  | analyze libs _ _ | environment libs _ | typeInfo libs _ _ => libs

def roots : Request → List String
  | analyze _ roots _ | environment _ roots | typeInfo _ roots _ => roots

def key (r : Request) : SessionKey := .ofPaths r.libs r.roots

/-- The paths of the request lead to files exactly where these paths do. -/
def LeadsAlike (files : FileTree) (r : Request) (libs roots : List String) : Prop :=
  r.libs.map files.isFile = libs.map files.isFile ∧
    r.roots.map files.isFile = roots.map files.isFile

end Request

def serve (files : FileTree) (s : Session) : Request → Session
  | .analyze libs roots target => (s.analyze files libs roots target).2
  | .environment libs roots => (s.prepare files libs roots).2
  | .typeInfo libs roots name => (s.typeInfo files libs roots name).2

def run (config : Config) (files : FileTree) (requests : List Request) : Session :=
  requests.foldl (serve files) { config := config }

/-- An environment of these paths, after it was asked about some types. -/
structure BuiltFrom (config : Config) (files : FileTree) (libs roots : List String)
    (env : Environment) : Prop where
  sources : env.sources = (build config files libs roots).sources
  classes : env.classes = (build config files libs roots).classes
  read : env.ReadFrom files

lemma BuiltFrom.of_build (config : Config) (files : FileTree) (libs roots : List String) :
    BuiltFrom config files libs roots (build config files libs roots) :=
  ⟨rfl, rfl, readFrom_build config files libs roots⟩

variable {config : Config} {files : FileTree} {libs roots : List String}

section

variable {env : Environment} (h : BuiltFrom config files libs roots env)
include h

lemma BuiltFrom.settle (consulted : List String) :
    BuiltFrom config files libs roots (env.settle files consulted) :=
  ⟨by rw [sources_settle, h.sources], by rw [classes_settle, h.classes], h.read.settle consulted⟩

lemma BuiltFrom.analyzeFile (target : String) :
    BuiltFrom config files libs roots (env.analyzeFile files target).2 := by
  unfold Environment.analyzeFile
  split
  · exact h
  · unfold analyzeText
    split
    · exact h
    · exact h.settle _

end

structure Holds (config : Config) (files : FileTree) (requests : List Request) (s : Session) :
    Prop where
  config_eq : s.config = config
  nodup : (s.environments.map Prod.fst).Nodup
  keys : ∀ k, k ∈ s.environments.map Prod.fst ↔ k ∈ requests.map Request.key
  built : ∀ k env, (k, env) ∈ s.environments →
    ∃ r ∈ requests, r.key = k ∧ BuiltFrom config files r.libs r.roots env

section

variable {requests : List Request} {s : Session}

lemma keys_store (s : Session) (libs roots : List String) (env : Environment) :
    (s.store libs roots env).environments.map Prod.fst =
      if (SessionKey.ofPaths libs roots) ∈ s.environments.map Prod.fst then
        s.environments.map Prod.fst else s.environments.map Prod.fst ++ [.ofPaths libs roots] := by
  unfold store
  simp only [isSome_lookup_iff_mem_keys]
  split
  · rw [map_map]
    refine map_congr_left fun e _ => ?_
    obtain ⟨k, env'⟩ := e
    dsimp only [Function.comp]
    split <;> rfl
  · rw [map_append]
    rfl

lemma mem_store {env env' : Environment} {k : SessionKey}
    (h : (k, env') ∈ (s.store libs roots env).environments) :
    (k, env') ∈ s.environments ∨ k = .ofPaths libs roots ∧ env' = env := by
  unfold store at h
  dsimp only at h
  split at h
  · obtain ⟨⟨k', e⟩, hmem, heq⟩ := mem_map.1 h
    dsimp only at heq
    split at heq
    · next hkey =>
      obtain ⟨rfl, rfl⟩ := Prod.mk.inj heq
      exact .inr ⟨eq_of_beq hkey, rfl⟩
    · rw [heq] at hmem
      exact .inl hmem
  · refine (mem_append.1 h).imp_right fun hlast => ?_
    exact Prod.mk.inj (mem_singleton.1 hlast)

section

variable (h : Holds config files requests s)
include h

lemma Holds.environment (libs roots : List String) :
    s.environment files libs roots = build config files libs roots ∨
      ∃ r ∈ requests, r.key = .ofPaths libs roots ∧
        BuiltFrom config files r.libs r.roots (s.environment files libs roots) := by
  unfold Session.environment
  rw [h.config_eq]
  cases henv : s.environments.lookup (.ofPaths libs roots) with
  | none => exact .inl rfl
  | some env => exact .inr (h.built _ env (mem_of_lookup henv))

lemma Holds.store (r : Request) {env : Environment}
    (henv : ∃ r' ∈ requests ++ [r], r'.key = r.key ∧ BuiltFrom config files r'.libs r'.roots env) :
    Holds config files (requests ++ [r]) (s.store r.libs r.roots env) where
  config_eq := by
    unfold Session.store
    dsimp only
    split <;> exact h.config_eq
  nodup := by
    rw [keys_store]
    split
    · exact h.nodup
    · next hnew => exact nodup_append.2 ⟨h.nodup, nodup_singleton _, by
        rintro k hk _ hlast rfl
        exact hnew (mem_singleton.1 hlast ▸ hk)⟩
  keys k := by
    rw [keys_store, map_append, mem_append]
    change _ ↔ _ ∨ k ∈ [SessionKey.ofPaths r.libs r.roots]
    split
    · next hold =>
      rw [h.keys]
      refine ⟨.inl, fun hk => hk.elim id fun hlast => ?_⟩
      rw [mem_singleton.1 hlast, ← h.keys]
      exact hold
    · rw [mem_append, h.keys]
  built k env' hmem := by
    rcases mem_store hmem with hold | ⟨rfl, rfl⟩
    · obtain ⟨r', hr', hbuilt⟩ := h.built k env' hold
      exact ⟨r', mem_append_left _ hr', hbuilt⟩
    · exact henv

lemma Holds.serve (r : Request) : Holds config files (requests ++ [r]) (s.serve files r) := by
  -- the environment that is used, before it is asked anything
  have hused : ∃ r' ∈ requests ++ [r], r'.key = r.key ∧
      BuiltFrom config files r'.libs r'.roots (s.environment files r.libs r.roots) := by
    rcases h.environment r.libs r.roots with hnew | ⟨r', hr', hkey, hbuilt⟩
    · exact ⟨r, by simp, rfl, hnew ▸ .of_build config files r.libs r.roots⟩
    · exact ⟨r', mem_append_left _ hr', hkey, hbuilt⟩
  obtain ⟨r', hr', hkey, hbuilt⟩ := hused
  cases r with
  | analyze libs roots target => exact h.store _ ⟨r', hr', hkey, hbuilt.analyzeFile target⟩
  | environment libs roots => exact h.store _ ⟨r', hr', hkey, hbuilt⟩
  | typeInfo libs roots name => exact h.store _ ⟨r', hr', hkey, hbuilt.settle [name]⟩

end

lemma holds_run (config : Config) (files : FileTree) (requests : List Request) :
    Holds config files requests (run config files requests) := by
  induction requests using List.reverseRecOn with
  | nil => exact ⟨rfl, nodup_nil, fun _ => Iff.rfl, fun _ _ h => by cases h⟩
  | append_singleton requests r ih =>
    rw [run, List.foldl_append]
    exact ih.serve r

end

lemma spells_of_map_eq {paths paths' : List String}
    (hcomponents : paths.map Path.components = paths'.map Path.components)
    (hfiles : paths.map files.isFile = paths'.map files.isFile) :
    List.Forall₂ (Spells files) paths' paths := by
  induction paths generalizing paths' with
  | nil =>
    cases paths' with
    | nil => exact .nil
    | cons => cases hfiles
  | cons p paths ih =>
    cases paths' with
    | nil => cases hfiles
    | cons p' paths' =>
      obtain ⟨hp, hrest⟩ := List.cons.inj hcomponents
      obtain ⟨hfile, hfiles⟩ := List.cons.inj hfiles
      exact .cons ⟨hp, FileTree.find_eq_of_components hp hfile⟩ (ih hrest hfiles)

/-- What a session that has served some requests shows of them. -/
structure Transparent (config : Config) (files : FileTree) (requests : List Request) : Prop where
  analyze : ∀ libs roots target,
    (∀ r ∈ requests, r.key = .ofPaths libs roots → r.LeadsAlike files libs roots) →
      ((run config files requests).analyze files libs roots target).1 =
        ((build config files libs roots).analyzeFile files target).1
  size : (run config files requests).size = (requests.map Request.key).dedup.length

theorem transparent_of_requests (config : Config) (files : FileTree) (requests : List Request) :
    Transparent config files requests := by
  have h := holds_run config files requests
  constructor
  case analyze =>
    intro libs roots target halike
    change (((run config files requests).environment files libs roots).analyzeFile files target).1 =
      _
    rcases h.environment libs roots with hnew | ⟨r, hr, hkey, hbuilt⟩
    · rw [hnew]
    · obtain ⟨hlibs, hroots⟩ := halike r hr hkey
      have hrespelled := respelled_build config
        (spells_of_map_eq (congrArg SessionKey.libraries hkey) hlibs)
        (spells_of_map_eq (congrArg SessionKey.sources hkey) hroots)
      have hsimilar := Respelled.similar
        ⟨hbuilt.sources ▸ hrespelled.sources, hbuilt.classes ▸ hrespelled.classes⟩
        (readFrom_build config files libs roots) hbuilt.read
      exact analyzeFile_of_similar fun text unit _ _ => hsimilar.overlay _
  case size =>
    have hperm : ((run config files requests).environments.map Prod.fst).Perm
        (requests.map Request.key).dedup :=
      (List.perm_ext_iff_of_nodup h.nodup (List.nodup_dedup _)).2 fun k => by
        rw [h.keys, List.mem_dedup]
    rw [size, ← List.length_map Prod.fst, hperm.length_eq]

def statusesOf : Except Failure (List Record) → List Status
  | .ok records => records.map Record.status
  | .error _ => []

/-- A slash more in the middle of a path leads to the same file, so the second request may have the
environment of the first one. -/
theorem analyze_after_doubled_slash :
    let target : List UInt8 := [99, 108, 97, 115, 115, 32, 65, 32, 123, 32, 66, 32, 98, 59, 32, 125]
    let source : List UInt8 := [99, 108, 97, 115, 115, 32, 66, 32, 123, 125]
    let files : FileTree := { entries := [(["A.java"], .file (.bytes target)), (["s"], .directory),
      (["s", "B.java"], .file (.bytes source))] }
    let first : Request := .analyze [] ["s//B.java"] "A.java"
    first.key = .ofPaths [] ["s/B.java"] ∧ first.LeadsAlike files [] ["s/B.java"] ∧
      statusesOf ((run .default files [first]).analyze files [] ["s/B.java"] "A.java").1 =
        [.resolved, .resolved] := by
  intro target source files first
  have halike : first.LeadsAlike files [] ["s/B.java"] := ⟨rfl, by decide +kernel⟩
  refine ⟨by decide +kernel, halike, ?_⟩
  have h := (transparent_of_requests .default files [first]).analyze [] ["s/B.java"] "A.java"
    fun r hr _ => List.mem_singleton.mp hr ▸ halike
  rw [h]
  decide +kernel

/-- The first request spells the path of the file with a slash at the end and finds no file, and the
second one gets its environment. -/
theorem analyze_after_idle_spelling :
    let target : List UInt8 := [99, 108, 97, 115, 115, 32, 65, 32, 123, 32, 66, 32, 98, 59, 32, 125]
    let source : List UInt8 := [99, 108, 97, 115, 115, 32, 66, 32, 123, 125]
    let files : FileTree :=
      { entries := [(["A.java"], .file (.bytes target)), (["B.java"], .file (.bytes source))] }
    let session := run .default files [.analyze [] ["B.java/"] "A.java"]
    statusesOf (session.analyze files [] ["B.java"] "A.java").1 = [.resolved, .unresolved] ∧
      statusesOf ((build .default files [] ["B.java"]).analyzeFile files "A.java").1 =
        [.resolved, .resolved] := by
  decide +kernel

end Xref.Session

