/-!
# Limits

The two limits of application: the largest arity a callable may have when it is applied, and the
longest over-application chain. A configuration is *valid* when its arity limit is at most the
supported maximum, 25, and its chain limit is at least one; validation checks the arity first.
-/

namespace LazyCall

/-- The largest arity that callables can have. -/
def maxSupportedArity : Nat := 25

/-- The limits of application. -/
structure Limits where
  /-- Largest callable arity accepted by application. -/
  maxArity : Nat := maxSupportedArity
  /-- Longest over-application chain before giving up. -/
  maxChainDepth : Nat := 10000
  deriving Repr, DecidableEq

/-- Why a configuration of limits was refused. -/
inductive LimitsError where
  /-- The configuration text is not a configuration; the text says why and where. -/
  | parse (text : String)
  /-- An environment variable does not hold a number. -/
  | env (var value : String)
  /-- The arity limit is above the supported maximum. -/
  | arityTooLarge (maxArity : Nat)
  /-- The chain limit is zero. -/
  | zeroChainDepth
  deriving Repr, DecidableEq

namespace Limits

/-- Checks a configuration: the arity limit first, then the chain limit. -/
def validate (l : Limits) : Except LimitsError Limits :=
  if l.maxArity > maxSupportedArity then .error (.arityTooLarge l.maxArity)
  else if l.maxChainDepth = 0 then .error .zeroChainDepth
  else .ok l

/-- The JSON text of a configuration, arity limit first. -/
def jsonText (l : Limits) : String :=
  "\x7B\"max_arity\":" ++ toString l.maxArity ++ ",\"max_chain_depth\":" ++
    toString l.maxChainDepth ++ "\x7D"

end Limits

end LazyCall
