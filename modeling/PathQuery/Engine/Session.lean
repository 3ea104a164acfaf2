import PathQuery.Engine.Cache
import PathQuery.Source

/-!
# Engines and their sessions

An engine answers calls with settings of its own and a cache for the plans of
queries that are handed in as text.  A session is an engine with named
documents; pruning a document changes it for the calls that come later.  A call
that fails has a session behind it like any other.
-/

set_option autoImplicit false

namespace PathQuery

structure Engine (σ : Type := Recency) where
  settings : Settings
  cache : Cache σ

namespace Engine

variable {σ : Type} [PlanStore σ]

def make (settings : Settings) : Engine σ := ⟨settings, .empty settings.planLimit⟩

/-- The plan of a query; only text goes through the cache. -/
def plan (engine : Engine σ) : Source → Except OverlongIndex (Option Plan) × Engine σ
  | .text query =>
    let (plan, cache) := engine.cache.get query
    (plan, { engine with cache := cache })
  | .compiled plan => (.ok plan, engine)

end Engine

def documentOf (documents : List (String × Json)) (name : String) : Json :=
  (documents.lookup name).getD .null

structure Session (σ : Type := Recency) where
  engine : Engine σ
  documents : List (String × Json)

namespace Session

variable {σ : Type} [PlanStore σ]

inductive Call
  | compile (query : String)
  | find (source : Source) (name : String)
  | resolve (name : String) (path : Path)
  | prune (source : Source) (name : String)
  | pruneLines (source : Source) (text : String)
  | clear

inductive Answer
  | plan (plan : Option Plan)
  | paths (paths : List Path)
  | resolution (resolution : Resolution)
  | pruned (removed : Nat) (document : Json)
  | outcome (outcome : Outcome)
  | cleared

def Answer.ofPruned : Json × Nat → Answer
  | (document, removed) => .pruned removed document

def replaced (documents : List (String × Json)) (name : String) :
    Except CallError (Json × Nat) → List (String × Json)
  | .ok (pruned, _) => Json.setMember name pruned documents
  | .error _ => documents

def serve (session : Session σ) : Call → Except CallError Answer × Session σ
  | .compile query =>
    let (plan, engine) := session.engine.plan (.text query)
    (withPlan plan fun plan => .ok (.plan plan), { session with engine := engine })
  | .find source name =>
    let (plan, engine) := session.engine.plan source
    let result := withPlan plan fun plan => select? plan (documentOf session.documents name) []
    (result.map .paths, { session with engine := engine })
  | .resolve name path =>
    (.ok (.resolution ((documentOf session.documents name).resolve path)), session)
  | .prune source name =>
    let (plan, engine) := session.engine.plan source
    let result := withPlan plan fun plan => prune? plan (documentOf session.documents name)
    (result.map .ofPruned, ⟨engine, replaced session.documents name result⟩)
  | .pruneLines source text =>
    let (plan, engine) := session.engine.plan source
    let result := withPlan plan fun plan => pruneLines? session.engine.settings plan text
    (result.map .outcome, { session with engine := engine })
  | .clear =>
    (.ok .cleared,
      { session with engine := { session.engine with cache := session.engine.cache.clear } })

def step (session : Session σ) (call : Call) : Except CallError (Answer × Session σ) :=
  let (answer, after) := session.serve call
  answer.map fun answer => (answer, after)

def run (session : Session σ) : List Call → List (Except CallError Answer × Session σ)
  | [] => []
  | call :: rest =>
    let (answer, session) := session.serve call
    (answer, session) :: run session rest

end Session

end PathQuery
