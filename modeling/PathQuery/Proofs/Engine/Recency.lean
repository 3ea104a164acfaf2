import Mathlib.Data.List.Dedup
import Mathlib.Data.List.DropRight
import PathQuery.Proofs.Engine.Cache

/-!
# Which queries a cache holds

What a cache holds can be read off the requests it has served: of the queries
answered since it was last cleared, each taken where it was asked for last, it
holds the last ones, as many as its limit allows (`Cache.make_holds_recent`).
One request keeps the queries held in step with the history (`Holds.serve`), and
so does a row of them.
-/

set_option autoImplicit false

namespace PathQuery.Cache

def Request.isClear : Request → Bool
  | .clear => true
  | _ => false

def answered? : Request × Except OverlongIndex Reply → Option String
  | (.get query, .ok _) => some query
  | _ => none

/-- The queries that a history answered since it last cleared the cache, each once, and the one
asked for last first. -/
def recent (history : List (Request × Except OverlongIndex Reply)) : List String :=
  ((history.rtakeWhile fun entry => !entry.1.isClear).filterMap answered?).dedup.reverse

theorem nodup_recent (history : List (Request × Except OverlongIndex Reply)) :
    (recent history).Nodup :=
  List.nodup_reverse.mpr (List.nodup_dedup _)

theorem dedup_concat (queries : List String) (query : String) :
    (queries ++ [query]).dedup = (queries.dedup.filter fun other => other ≠ query) ++ [query] := by
  induction queries with
  | nil => rfl
  | cons first rest ih =>
    by_cases same : first = query
    · subst same
      rw [List.cons_append, List.dedup_cons_of_mem (by simp), ih]
      by_cases again : first ∈ rest
      · rw [List.dedup_cons_of_mem again]
      · rw [List.dedup_cons_of_notMem again, List.filter_cons_of_neg (by simp)]
    · rw [List.cons_append]
      by_cases again : first ∈ rest
      · rw [List.dedup_cons_of_mem (List.mem_append_left _ again), List.dedup_cons_of_mem again, ih]
      · have new : first ∉ rest ++ [query] := by simp [again, same]
        rw [List.dedup_cons_of_notMem new, List.dedup_cons_of_notMem again, ih,
          List.filter_cons_of_pos (by simpa using same), List.cons_append]

section Recent

variable {history : List (Request × Except OverlongIndex Reply)}
  {entry : Request × Except OverlongIndex Reply}

theorem recent_concat_of_answered {query : String} (keeps : entry.1.isClear = false)
    (answered : answered? entry = some query) :
    recent (history ++ [entry]) =
      query :: (recent history).filter fun other => other ≠ query := by
  rw [recent, List.rtakeWhile_concat_pos _ _ _ (by simp [keeps]), List.filterMap_append,
    List.filterMap_cons_some answered, List.filterMap_nil, dedup_concat, List.reverse_concat,
    ← List.filter_reverse, recent]

theorem recent_concat_of_unanswered (keeps : entry.1.isClear = false)
    (unanswered : answered? entry = none) : recent (history ++ [entry]) = recent history := by
  rw [recent, List.rtakeWhile_concat_pos _ _ _ (by simp [keeps]), List.filterMap_append,
    List.filterMap_cons_none unanswered, List.filterMap_nil, List.append_nil, recent]

theorem recent_concat_of_clear (clears : entry.1.isClear = true) :
    recent (history ++ [entry]) = [] := by
  rw [recent, List.rtakeWhile_concat_neg _ _ _ (by simp [clears])]
  rfl

end Recent

theorem take_filter_take {queries : List String} (distinct : queries.Nodup) (query : String)
    (limit : Nat) :
    (query :: (queries.take limit).filter fun other => other ≠ query).take limit =
      (query :: queries.filter fun other => other ≠ query).take limit := by
  cases limit with
  | zero => rfl
  | succ count =>
    rw [List.take_succ_cons, List.take_succ_cons]
    rcases Nat.le_total queries.length (count + 1) with short | long
    · rw [List.take_of_length_le short]
    · have one : count ≤ ((queries.take (count + 1)).filter fun other => other ≠ query).length := by
        have distinct' := distinct.sublist (List.take_sublist (count + 1) queries)
        have fewer : (queries.take (count + 1)).length - 1 ≤
            ((queries.take (count + 1)).erase query).length := List.le_length_erase
        rw [distinct'.erase_eq_filter, List.length_take_of_le long] at fewer
        simpa only [bne, beq_eq_decide, decide_not, ne_eq, Nat.add_sub_cancel] using fewer
      have split : queries.filter (fun other => other ≠ query) =
          (queries.take (count + 1)).filter (fun other => other ≠ query) ++
            (queries.drop (count + 1)).filter fun other => other ≠ query := by
        rw [← List.filter_append, List.take_append_drop]
      rw [split, List.take_append_of_le_length one]

section Store

variable {σ : Type} [PlanStore σ]

def queries (cache : Cache σ) : List String := (PlanStore.entries cache.store).map Prod.fst

theorem serve_get (cache : Cache σ) (query : String) :
    cache.serve (.get query) = ((cache.get query).1.map Reply.plan, (cache.get query).2) :=
  rfl

variable [LawfulPlanStore σ] {limit : Nat} {cache : Cache σ}

theorem Sound.queries_get (sound : cache.Sound limit) (positive : 0 < limit) {query : String}
    {plan : Option Plan} (answered : (cache.get query).1 = .ok plan) :
    (cache.get query).2.queries =
      (query :: cache.queries.filter fun other => other ≠ query).take limit := by
  have size : cache.queries.length ≤ limit := by
    rw [queries, List.length_map]
    exact sound.length_le
  have absent_iff := LawfulPlanStore.holds_iff cache.store query
  rcases cache.get_cases query with ⟨held, found⟩ | ⟨absent, ⟨plan, -, found⟩ | ⟨e, -, found⟩⟩
  · have listed : query ∈ cache.queries := absent_iff.mp held
    have fewer : (cache.queries.filter fun other => other ≠ query).length < cache.queries.length :=
      List.length_filter_lt_length_iff_exists.mpr ⟨query, listed, by simp⟩
    rw [List.take_of_length_le (Nat.le_trans fewer size), found, queries,
      LawfulPlanStore.entries_lookup, List.map_cons, queries, List.filter_map]
    rfl
  · have missing : query ∉ cache.queries := by
      rw [queries, ← absent_iff, absent]
      decide
    have others : (cache.queries.filter fun other => other ≠ query) = cache.queries := by
      rw [List.filter_eq_self]
      intro other listed
      simpa using fun same : other = query => missing (same ▸ listed)
    rw [others, found]
    have length := LawfulPlanStore.size_eq cache.store
    rcases Nat.lt_or_eq_of_le sound.length_le with room | full
    · have below : PlanStore.size cache.store < PlanStore.limit cache.store := by
        rwa [length, sound.limit_eq]
      rw [queries, LawfulPlanStore.entries_insert _ query plan absent below, List.map_cons,
        List.take_of_length_le (by simpa [queries] using Nat.succ_le_of_lt room), queries]
    · have equal : PlanStore.size cache.store = PlanStore.limit cache.store := by
        rw [length, full, sound.limit_eq]
      have some' : 0 < PlanStore.limit cache.store := by rwa [sound.limit_eq]
      obtain ⟨count, rfl⟩ := Nat.exists_eq_add_one_of_ne_zero (Nat.ne_of_gt positive)
      rw [queries, LawfulPlanStore.entries_insert_full _ query plan absent equal some',
        List.map_cons, List.take_succ_cons, List.dropLast_eq_take, full, queries, List.map_take]
      rfl
  · rw [found] at answered
    cases answered

structure Holds (limit : Nat) (cache : Cache σ)
    (history : List (Request × Except OverlongIndex Reply)) : Prop where
  sound : cache.Sound limit
  queries_eq : cache.queries = (recent history).take limit

theorem holds_empty (limit : Nat) : (Cache.empty limit : Cache σ).Holds limit [] := by
  refine ⟨sound_empty limit, ?_⟩
  rw [queries, Cache.empty, LawfulPlanStore.entries_new]
  simp [recent]

theorem Holds.serve {history : List (Request × Except OverlongIndex Reply)}
    (holds : cache.Holds limit history) (positive : 0 < limit) (request : Request) :
    (cache.serve request).2.Holds limit (history ++ [(request, (cache.serve request).1)]) := by
  obtain ⟨sound, queries_eq⟩ := holds
  cases request with
  | clear =>
    refine ⟨sound.clear, ?_⟩
    rw [recent_concat_of_clear rfl, List.take_nil]
    change (PlanStore.entries (PlanStore.clear cache.store)).map Prod.fst = []
    rw [LawfulPlanStore.entries_clear, List.map_nil]
  | holds query =>
    refine ⟨sound, ?_⟩
    rw [recent_concat_of_unanswered rfl rfl]
    exact queries_eq
  | get query =>
    rw [serve_get]
    refine ⟨(sound.get positive query).2, ?_⟩
    cases answered : (cache.get query).1 with
    | ok plan =>
      rw [sound.queries_get positive answered, queries_eq,
        take_filter_take (nodup_recent history) query limit, recent_concat_of_answered rfl rfl]
    | error e =>
      rw [get_of_error answered, queries_eq, recent_concat_of_unanswered rfl rfl]

def after {σ : Type} [PlanStore σ] (cache : Cache σ) : List Request → Cache σ
  | [] => cache
  | request :: rest => (cache.serve request).2.after rest

def history {σ : Type} [PlanStore σ] (cache : Cache σ) (requests : List Request) :
    List (Request × Except OverlongIndex Reply) :=
  requests.zip ((cache.run requests).map Prod.fst)

theorem Holds.after (positive : 0 < limit) {requests : List Request} :
    ∀ {cache : Cache σ} {before : List (Request × Except OverlongIndex Reply)},
      cache.Holds limit before →
      (cache.after requests).Holds limit (before ++ cache.history requests) := by
  induction requests with
  | nil =>
    intro cache before holds
    rwa [history, List.zip_nil_left, List.append_nil]
  | cons request rest ih =>
    intro cache before holds
    have whole := ih (holds.serve positive request)
    rwa [List.append_assoc] at whole

end Store

/-- However many requests a cache has served, of the queries answered since it was last cleared
it holds the ones asked for last, in the order of their last requests and as many as its limit
allows.  A query that cannot be answered changes nothing, and every answer is what the query
compiles to. -/
theorem make_holds_recent {σ : Type} [PlanStore σ] [LawfulPlanStore σ] (limit : Int)
    (positive : 0 < limit) :
    ∃ start : Cache σ, make limit = .ok start ∧ ∀ requests : List Request,
      let cache := start.after requests
      let held := (recent (start.history requests)).take limit.toNat
      cache.queries = held ∧
        (∀ query, cache.holds query = true ↔ query ∈ held) ∧
        cache.size = min limit.toNat (recent (start.history requests)).length ∧
        ∀ query, (cache.get query).1 = compile? query ∧
          ∀ e, (cache.get query).1 = .error e → (cache.get query).2 = cache := by
  have positive' : 0 < limit.toNat := by omega
  refine ⟨.empty limit.toNat, ?_, ?_⟩
  · rw [make, positiveLimit, dif_pos positive]
    rfl
  · intro requests cache held
    have holds : cache.Holds limit.toNat _ := (holds_empty limit.toNat).after positive'
    have same : cache.queries = held := holds.queries_eq
    refine ⟨same, ?_, ?_, ?_⟩
    · intro query
      rw [← same]
      exact LawfulPlanStore.holds_iff cache.store query
    · have length : cache.queries.length = held.length := congrArg List.length same
      rw [Cache.size, LawfulPlanStore.size_eq, ← List.length_take, ← length, queries,
        List.length_map]
    · intro query
      exact ⟨(holds.sound.get positive' query).1, fun e => get_of_error⟩

/-- A cache for two plans: the second request for `$.b` saves it, and `$[` makes room. -/
theorem make_holds_recent_evicting :
    let requests : List Request :=
      [.get "$.a", .clear, .get "$.b", .get "$[", .get "$.b", .holds "$[", .get "$.c"]
    (0 : Int) < 2 ∧ ∃ start : Cache Recency, make 2 = .ok start ∧
      recent (start.history requests) = ["$.c", "$.b", "$["] ∧
      (start.after requests).queries = ["$.c", "$.b"] ∧
      (start.after requests).holds "$[" = false ∧
      ((start.after requests).get "$[").1 = .ok none := by
  intro requests
  obtain ⟨start, made, served⟩ := @make_holds_recent Recency _ _ 2 (by decide)
  obtain ⟨same, held, -, further⟩ := served requests
  have whole : start = .empty 2 := Except.ok.inj (made.symm.trans rfl)
  have last : recent (start.history requests) = ["$.c", "$.b", "$["] := by
    rw [whole]
    rfl
  have answer := (further "$[").1
  rw [last] at same held
  refine ⟨by decide, start, made, last, same, ?_, answer⟩
  rw [Bool.eq_false_iff, ne_eq, held]
  decide

end PathQuery.Cache
