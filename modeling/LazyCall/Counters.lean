/-!
# Counters

Ten counters of the runtime's work: lambdas, closures and functions built, invocations, partial
and over-applications, memo cells made, computations run, cache hits and cyclic forces. They are
reported as the difference across a piece of work, listing the counters that moved, and can be
printed as an indented JSON record.
-/

namespace LazyCall

/-- One of the ten counters. -/
inductive Counter where
  | lambdas
  | closures
  | functions
  | invocations
  | partialApplications
  | overApplications
  | thunks
  | computations
  | cacheHits
  | cyclicForces
  deriving Repr, DecidableEq

/-- The counters in their fixed order. -/
def Counter.all : List Counter :=
  [.lambdas, .closures, .functions, .invocations, .partialApplications, .overApplications,
    .thunks, .computations, .cacheHits, .cyclicForces]

/-- The name of a counter. -/
def Counter.name : Counter → String
  | .lambdas => "lambdas"
  | .closures => "closures"
  | .functions => "functions"
  | .invocations => "invocations"
  | .partialApplications => "partial_applications"
  | .overApplications => "over_applications"
  | .thunks => "thunks"
  | .computations => "computations"
  | .cacheHits => "cache_hits"
  | .cyclicForces => "cyclic_forces"

/-- The values of the ten counters. -/
structure Counters where
  lambdas : Nat := 0
  closures : Nat := 0
  functions : Nat := 0
  invocations : Nat := 0
  partialApplications : Nat := 0
  overApplications : Nat := 0
  thunks : Nat := 0
  computations : Nat := 0
  cacheHits : Nat := 0
  cyclicForces : Nat := 0
  deriving Repr, DecidableEq

namespace Counters

/-- The value of one counter. -/
def get (s : Counters) : Counter → Nat
  | .lambdas => s.lambdas
  | .closures => s.closures
  | .functions => s.functions
  | .invocations => s.invocations
  | .partialApplications => s.partialApplications
  | .overApplications => s.overApplications
  | .thunks => s.thunks
  | .computations => s.computations
  | .cacheHits => s.cacheHits
  | .cyclicForces => s.cyclicForces

/-- Adds one to a counter. -/
def bump (s : Counters) : Counter → Counters
  | .lambdas => { s with lambdas := s.lambdas + 1 }
  | .closures => { s with closures := s.closures + 1 }
  | .functions => { s with functions := s.functions + 1 }
  | .invocations => { s with invocations := s.invocations + 1 }
  | .partialApplications => { s with partialApplications := s.partialApplications + 1 }
  | .overApplications => { s with overApplications := s.overApplications + 1 }
  | .thunks => { s with thunks := s.thunks + 1 }
  | .computations => { s with computations := s.computations + 1 }
  | .cacheHits => { s with cacheHits := s.cacheHits + 1 }
  | .cyclicForces => { s with cyclicForces := s.cyclicForces + 1 }

/-- The counters that moved from `before` to `after`, with how far, in the fixed order. -/
def moved (before after : Counters) : List (String × Nat) :=
  Counter.all.filterMap fun c =>
    if after.get c = before.get c then none else some (c.name, after.get c - before.get c)

/-- Counters with the given values, read by name; a name not given is zero. -/
def ofNamed (value : Counter → Nat) : Counters :=
  { lambdas := value .lambdas, closures := value .closures, functions := value .functions,
    invocations := value .invocations, partialApplications := value .partialApplications,
    overApplications := value .overApplications, thunks := value .thunks,
    computations := value .computations, cacheHits := value .cacheHits,
    cyclicForces := value .cyclicForces }

/-- The indented JSON record of the counters: one member per line, indented by two spaces, in
the fixed order, without a final line feed. -/
def pretty (s : Counters) : String :=
  let lines := Counter.all.map fun c => "  \"" ++ c.name ++ "\": " ++ toString (s.get c)
  "\x7B\n" ++ ",\n".intercalate lines ++ "\n\x7D"

end Counters

end LazyCall
