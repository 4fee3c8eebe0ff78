/-!
# Settings

How generated aliases are named and whether relations get them, and how far an aggregation may be
taken apart when it is handed to a source.
-/

set_option autoImplicit false

namespace QueryPlan

/-- Settings for qualifying references and for handing aggregations to sources. -/
structure Config where
  /-- What generated aliases begin with. -/
  aliasPrefix : String := "table"
  /-- Whether table-like relations get a generated alias. -/
  aliasTables : Bool := true
  /-- Whether an aggregation may be done half by the source and half after it. -/
  allowSplit : Bool := true
  /-- Whether an aggregation stays where it is when a filter cannot be handed over in full. -/
  exactFiltersOnly : Bool := true
deriving DecidableEq

/-- The generated alias with a number. -/
def Config.generatedAlias (config : Config) (n : Nat) : String := config.aliasPrefix ++ toString n

end QueryPlan
