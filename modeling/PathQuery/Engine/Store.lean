import PathQuery.Query.Plan

/-!
# Stores of plans

A cache keeps its plans in a store that is not its own work: a store has a
limit, and makes room by itself when it is full.  `PlanStore` is what a cache
asks of a store, and `LawfulPlanStore` what it relies on: a plan that is looked
up or put in is the one used last, and a full store drops the plan whose last
use is longest ago.  Asking whether a query is held is no use of it.

`Recency` is the store that keeps its plans in a list, in the order of their
last use.
-/

set_option autoImplicit false

namespace PathQuery

class PlanStore (σ : Type) where
  new : Nat → σ
  limit : σ → Nat
  size : σ → Nat
  holds : σ → String → Bool
  lookup : (store : σ) → (query : String) → holds store query = true → Option Plan × σ
  insert : σ → String → Option Plan → σ
  clear : σ → σ
  /-- The queries that are held and what is held for them, the one used last first. -/
  entries : σ → List (String × Option Plan)

open PlanStore in
class LawfulPlanStore (σ : Type) [PlanStore σ] : Prop where
  entries_new : ∀ limit : Nat, entries (new limit : σ) = []
  limit_new : ∀ count : Nat, limit (new count : σ) = count
  size_eq : ∀ store : σ, size store = (entries store).length
  holds_iff : ∀ (store : σ) (query : String),
    holds store query = true ↔ query ∈ (entries store).map Prod.fst
  mem_lookup : ∀ (store : σ) (query : String) (held : holds store query = true),
    (query, (lookup store query held).1) ∈ entries store
  entries_lookup : ∀ (store : σ) (query : String) (held : holds store query = true),
    entries (lookup store query held).2 =
      (query, (lookup store query held).1) :: (entries store).filter fun entry => entry.1 ≠ query
  limit_lookup : ∀ (store : σ) (query : String) (held : holds store query = true),
    limit (lookup store query held).2 = limit store
  entries_insert : ∀ (store : σ) (query : String) (plan : Option Plan),
    holds store query = false → size store < limit store →
    entries (insert store query plan) = (query, plan) :: entries store
  entries_insert_full : ∀ (store : σ) (query : String) (plan : Option Plan),
    holds store query = false → size store = limit store → 0 < limit store →
    entries (insert store query plan) = (query, plan) :: (entries store).dropLast
  limit_insert : ∀ (store : σ) (query : String) (plan : Option Plan),
    limit (insert store query plan) = limit store
  entries_clear : ∀ store : σ, entries (clear store) = []
  limit_clear : ∀ store : σ, limit (clear store) = limit store

structure Recency where
  limit : Nat
  entries : List (String × Option Plan)

namespace Recency

def holds (store : Recency) (query : String) : Bool := (store.entries.lookup query).isSome

def others (store : Recency) (query : String) : List (String × Option Plan) :=
  store.entries.filter fun entry => entry.1 ≠ query

def lookup (store : Recency) (query : String) (held : store.holds query = true) :
    Option Plan × Recency :=
  let plan := (store.entries.lookup query).get held
  (plan, { store with entries := (query, plan) :: store.others query })

def insert (store : Recency) (query : String) (plan : Option Plan) : Recency :=
  { store with entries := ((query, plan) :: store.others query).take store.limit }

instance : PlanStore Recency where
  new limit := ⟨limit, []⟩
  limit := limit
  size store := store.entries.length
  holds := holds
  lookup := lookup
  insert := insert
  clear store := { store with entries := [] }
  entries := entries

end Recency

end PathQuery
