import PathQuery.Engine.Store
import PathQuery.Prune.Settings
import PathQuery.Query.Compile

/-!
# Caching plans

A cache keeps the plans of the queries that were asked for last, and malformed
queries without a plan among them.  A query that is not held is compiled; only
then is it put into the store, so a query whose compilation fails is not.
-/

set_option autoImplicit false

namespace PathQuery

structure Cache (σ : Type := Recency) where
  store : σ

namespace Cache

variable {σ : Type} [PlanStore σ]

def empty (limit : Nat) : Cache σ := ⟨PlanStore.new limit⟩

def make (limit : Int) : Except LimitError (Cache σ) := do
  let ⟨limit, _⟩ ← positiveLimit "max_size" limit
  .ok (empty limit)

def defaultLimit : Int := 256

def limit (cache : Cache σ) : Nat := PlanStore.limit cache.store

def size (cache : Cache σ) : Nat := PlanStore.size cache.store

def holds (cache : Cache σ) (query : String) : Bool := PlanStore.holds cache.store query

def clear (cache : Cache σ) : Cache σ := ⟨PlanStore.clear cache.store⟩

def get (cache : Cache σ) (query : String) : Except OverlongIndex (Option Plan) × Cache σ :=
  if held : PlanStore.holds cache.store query = true then
    let (plan, store) := PlanStore.lookup cache.store query held
    (.ok plan, ⟨store⟩)
  else
    match compile? query with
    | .ok plan => (.ok plan, ⟨PlanStore.insert cache.store query plan⟩)
    | .error e => (.error e, cache)

inductive Request
  | get (query : String)
  | holds (query : String)
  | clear

inductive Reply
  | plan (plan : Option Plan)
  | held (value : Bool)
  | cleared

def serve (cache : Cache σ) : Request → Except OverlongIndex Reply × Cache σ
  | .get query =>
    let (plan, cache) := cache.get query
    (plan.map .plan, cache)
  | .holds query => (.ok (.held (cache.holds query)), cache)
  | .clear => (.ok .cleared, cache.clear)

def run (cache : Cache σ) : List Request → List (Except OverlongIndex Reply × Cache σ)
  | [] => []
  | request :: rest =>
    let (reply, cache) := cache.serve request
    (reply, cache) :: run cache rest

end Cache

end PathQuery
