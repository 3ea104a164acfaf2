import Mathlib.Data.List.Basic
import PathQuery.Engine.Cache

/-!
# Caches that hold what queries compile to

Whatever a cache holds for a query is what the query compiles to, and it holds
no more than its limit (`Cache.Sound`).  Every request keeps this, also where a
query that is not held fails to compile: nothing is put into the store then.
So a request is answered as if there were no cache (`Cache.Sound.get`).
-/

set_option autoImplicit false

namespace PathQuery

namespace Recency

theorem holds_iff {store : Recency} {query : String} :
    store.holds query = true ↔ query ∈ store.entries.map Prod.fst := by
  rw [holds, List.lookup_isSome_iff, List.mem_map]
  refine exists_congr fun entry => and_congr_right fun _ => ?_
  rw [beq_iff_eq, eq_comm]

theorem mem_of_lookup {store : Recency} {query : String} {plan : Option Plan}
    (found : store.entries.lookup query = some plan) : (query, plan) ∈ store.entries := by
  obtain ⟨front, back, split, -⟩ := List.lookup_eq_some_iff.mp found
  simp [split]

theorem others_eq {store : Recency} {query : String} (absent : store.holds query = false) :
    store.others query = store.entries := by
  rw [others, List.filter_eq_self]
  rintro ⟨other, plan⟩ listed
  have missing : query ∉ store.entries.map Prod.fst := by
    rw [← holds_iff, absent]
    decide
  have different : other ≠ query := by
    rintro rfl
    exact missing (List.mem_map_of_mem listed)
  simpa using different

instance : LawfulPlanStore Recency where
  entries_new _ := rfl
  limit_new _ := rfl
  size_eq _ := rfl
  holds_iff _ _ := Recency.holds_iff
  mem_lookup _ _ _ := mem_of_lookup (Option.some_get _).symm
  entries_lookup _ _ _ := rfl
  limit_lookup _ _ _ := rfl
  entries_insert store query plan absent room := by
    have whole : ((query, plan) :: store.entries).length ≤ store.limit := room
    change ((query, plan) :: store.others query).take store.limit = _
    rw [others_eq absent, List.take_of_length_le whole]
    rfl
  entries_insert_full store query plan absent full positive := by
    have length : store.entries.length = store.limit := full
    obtain ⟨count, limit⟩ := Nat.exists_eq_add_one_of_ne_zero (Nat.ne_of_gt positive)
    have limit' : store.limit = count + 1 := limit
    change ((query, plan) :: store.others query).take store.limit =
      (query, plan) :: store.entries.dropLast
    rw [others_eq absent, limit', List.take_succ_cons, List.dropLast_eq_take, length, limit']
    rfl
  limit_insert _ _ _ := rfl
  entries_clear _ := rfl
  limit_clear _ := rfl

end Recency

section Store

variable {σ : Type} [PlanStore σ]

/-- What is held for a query is what the query compiles to, and no more is held than may be. -/
structure Cache.Sound (limit : Nat) (cache : Cache σ) : Prop where
  limit_eq : PlanStore.limit cache.store = limit
  length_le : (PlanStore.entries cache.store).length ≤ limit
  compiled : ∀ query plan, (query, plan) ∈ PlanStore.entries cache.store → compile? query = .ok plan

/-- A query is looked up, or compiled and put in, or compiled without success. -/
theorem Cache.get_cases (cache : Cache σ) (query : String) :
    (∃ held, cache.get query = (.ok (PlanStore.lookup cache.store query held).1,
        ⟨(PlanStore.lookup cache.store query held).2⟩)) ∨
      PlanStore.holds cache.store query = false ∧
        ((∃ plan, compile? query = .ok plan ∧
            cache.get query = (.ok plan, ⟨PlanStore.insert cache.store query plan⟩)) ∨
          ∃ e, compile? query = .error e ∧ cache.get query = (.error e, cache)) := by
  rw [get]
  split
  · rename_i held
    exact .inl ⟨held, rfl⟩
  · rename_i absent
    refine .inr ⟨by simpa using absent, ?_⟩
    cases made : compile? query with
    | ok plan => exact .inl ⟨plan, rfl, rfl⟩
    | error e => exact .inr ⟨e, rfl, rfl⟩

theorem Cache.get_of_error {cache : Cache σ} {query : String} {e : OverlongIndex}
    (failed : (cache.get query).1 = .error e) : (cache.get query).2 = cache := by
  rcases cache.get_cases query with ⟨held, found⟩ | ⟨-, ⟨plan, -, found⟩ | ⟨e, -, found⟩⟩
  · rw [found] at failed
    cases failed
  · rw [found] at failed
    cases failed
  · rw [found]

theorem Cache.sound_of_entries_eq_nil {limit : Nat} {cache : Cache σ}
    (limit_eq : PlanStore.limit cache.store = limit)
    (nothing : PlanStore.entries cache.store = []) : cache.Sound limit := by
  refine ⟨limit_eq, ?_, ?_⟩
  · rw [nothing]
    exact Nat.zero_le _
  · intro query plan held
    rw [nothing] at held
    cases held

variable [LawfulPlanStore σ] {limit : Nat}

theorem Cache.sound_empty (limit : Nat) : (Cache.empty limit : Cache σ).Sound limit :=
  sound_of_entries_eq_nil (LawfulPlanStore.limit_new limit) (LawfulPlanStore.entries_new limit)

variable {cache : Cache σ} {query : String} (sound : cache.Sound limit)

include sound

theorem Cache.Sound.clear : cache.clear.Sound limit :=
  sound_of_entries_eq_nil ((LawfulPlanStore.limit_clear cache.store).trans sound.limit_eq)
    (LawfulPlanStore.entries_clear cache.store)

theorem Cache.Sound.lookup (held : PlanStore.holds cache.store query = true) :
    compile? query = .ok (PlanStore.lookup cache.store query held).1 ∧
      (⟨(PlanStore.lookup cache.store query held).2⟩ : Cache σ).Sound limit := by
  have here := LawfulPlanStore.mem_lookup cache.store query held
  have made := sound.compiled _ _ here
  have entries := LawfulPlanStore.entries_lookup cache.store query held
  refine ⟨made, (LawfulPlanStore.limit_lookup cache.store query held).trans sound.limit_eq, ?_, ?_⟩
  · have fewer : ((PlanStore.entries cache.store).filter fun entry => entry.1 ≠ query).length <
        (PlanStore.entries cache.store).length :=
      List.length_filter_lt_length_iff_exists.mpr ⟨_, here, by simp⟩
    rw [entries, List.length_cons]
    exact Nat.le_trans fewer sound.length_le
  · intro other plan listed
    rw [entries, List.mem_cons] at listed
    rcases listed with same | older
    · cases same
      exact made
    · exact sound.compiled other plan (List.mem_filter.mp older).1

theorem Cache.Sound.exists_kept (positive : 0 < limit)
    (absent : PlanStore.holds cache.store query = false) (plan : Option Plan) :
    ∃ kept, kept <+: PlanStore.entries cache.store ∧ kept.length < limit ∧
      PlanStore.entries (PlanStore.insert cache.store query plan) = (query, plan) :: kept := by
  have size := LawfulPlanStore.size_eq cache.store
  rcases Nat.lt_or_eq_of_le sound.length_le with room | full
  · have below : PlanStore.size cache.store < PlanStore.limit cache.store := by
      rwa [size, sound.limit_eq]
    exact ⟨_, List.prefix_rfl, room, LawfulPlanStore.entries_insert _ query plan absent below⟩
  · have equal : PlanStore.size cache.store = PlanStore.limit cache.store := by
      rw [size, full, sound.limit_eq]
    have some' : 0 < PlanStore.limit cache.store := by rwa [sound.limit_eq]
    refine ⟨_, List.dropLast_prefix _, ?_,
      LawfulPlanStore.entries_insert_full _ query plan absent equal some'⟩
    rw [List.length_dropLast, full]
    exact Nat.sub_lt positive Nat.one_pos

theorem Cache.Sound.insert (positive : 0 < limit)
    (absent : PlanStore.holds cache.store query = false) {plan : Option Plan}
    (made : compile? query = .ok plan) :
    (⟨PlanStore.insert cache.store query plan⟩ : Cache σ).Sound limit := by
  obtain ⟨kept, older, room, entries⟩ := sound.exists_kept positive absent plan
  refine ⟨(LawfulPlanStore.limit_insert cache.store query plan).trans sound.limit_eq, ?_, ?_⟩
  · rw [entries]
    exact room
  · intro other held listed
    rw [entries, List.mem_cons] at listed
    rcases listed with same | before
    · cases same
      exact made
    · exact sound.compiled other held (older.subset before)

theorem Cache.Sound.get (positive : 0 < limit) (query : String) :
    (cache.get query).1 = compile? query ∧ (cache.get query).2.Sound limit := by
  rcases cache.get_cases query with
    ⟨held, found⟩ | ⟨absent, ⟨plan, made, found⟩ | ⟨e, failed, found⟩⟩
  · obtain ⟨made, sound'⟩ := sound.lookup held
    rw [found, made]
    exact ⟨rfl, sound'⟩
  · rw [found, made]
    exact ⟨rfl, sound.insert positive absent made⟩
  · rw [found, failed]
    exact ⟨rfl, sound⟩

end Store

end PathQuery
