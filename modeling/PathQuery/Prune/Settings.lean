/-!
# Settings

How pruned documents are written, and how many plans an engine keeps.  The
number of plans is positive; settings that ask for fewer are refused.
-/

set_option autoImplicit false

namespace PathQuery

structure Settings where
  escapeSlashes : Bool
  ascii : Bool
  planLimit : Nat
  planLimit_pos : 0 < planLimit

structure LimitError where
  name : String
  value : Int
deriving DecidableEq

def LimitError.message (e : LimitError) : String :=
  e.name ++ " must be > 0, got " ++ toString e.value

def positiveLimit (name : String) (value : Int) : Except LimitError { n : Nat // 0 < n } :=
  if h : 0 < value then .ok ⟨value.toNat, by omega⟩ else .error ⟨name, value⟩

namespace Settings

def default : Settings := ⟨true, false, 256, by decide⟩

def make (escapeSlashes ascii : Bool) (planLimit : Int) : Except LimitError Settings := do
  let ⟨limit, positive⟩ ← positiveLimit "max_plan_cache_size" planLimit
  .ok ⟨escapeSlashes, ascii, limit, positive⟩

end Settings

end PathQuery
