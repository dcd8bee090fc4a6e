import Blueprint.Text.Layout
/-!
How a resolver is set up: how many elements of one collection may be in flight, how long one
resolution may take, and whether entities are traced by spans.
-/

namespace Blueprint

/-- The largest number that fits the 64-bit words in which limits and times are configured. -/
def wordMax : Nat := 18446744073709551615

structure Config where
  /-- elements of one collection resolved at the same time -/
  maxConcurrency : Nat
  /-- milliseconds that one resolution may take -/
  deadline : Option Nat
  /-- a span for every entity that is resolved -/
  spanPerEntity : Bool
  deriving DecidableEq, Repr

/-- A length of time in seconds and nanoseconds. -/
structure Duration where
  seconds : Nat
  nanoseconds : Nat
  deriving DecidableEq, Repr

namespace Duration

def ofMilliseconds (milliseconds : Nat) : Duration :=
  ⟨milliseconds / 1000, milliseconds % 1000 * 1000000⟩

/-- Whole milliseconds; what is left over does not count. -/
def milliseconds (duration : Duration) : Nat :=
  duration.seconds * 1000 + duration.nanoseconds / 1000000

end Duration

namespace Config

/-- What holds where nothing is configured. -/
def default : Config := ⟨64, none, true⟩

instance : Inhabited Config := ⟨default⟩

def withMaxConcurrency (config : Config) (limit : Nat) : Config :=
  { config with maxConcurrency := limit }

/-- A deadline in whole milliseconds, at most the largest word. -/
def withDeadline (config : Config) (duration : Duration) : Config :=
  { config with deadline := some (min duration.milliseconds wordMax) }

def withEntitySpans (config : Config) (enabled : Bool) : Config :=
  { config with spanPerEntity := enabled }

/-- The limit that applies: one element is always allowed. -/
def effectiveConcurrency (config : Config) : Nat :=
  max config.maxConcurrency 1

/-- The deadline as a length of time. -/
def deadlineDuration (config : Config) : Option Duration :=
  config.deadline.map Duration.ofMilliseconds

def debug (config : Config) : String :=
  Text.braced "ResolveConfig"
    [("max_concurrency", toString config.maxConcurrency),
      ("deadline_ms", Text.perhaps (config.deadline.map toString)),
      ("span_per_entity", Text.truth config.spanPerEntity)]

/-- The configuration as compact JSON. -/
def json (config : Config) : String :=
  "\x7b\"max_concurrency\":" ++ toString config.maxConcurrency ++
    ",\"deadline_ms\":" ++ (config.deadline.map toString).getD "null" ++
    ",\"span_per_entity\":" ++ Text.truth config.spanPerEntity ++ "\x7d"

end Config

end Blueprint
