import AetherGuard.LogSearch
import AetherGuard.Lib.Strtod

/-!
# Which search a query gets

`/api/search` hands the whole query to `std::stod` and takes it for a frequency unless that throws:
where `strtod` finds no number at its start, or one out of the range of `double`. What that range
is, is a parameter.
-/

namespace AetherGuard

namespace LogStore

/-- `std::stod`; `none` is the exception. -/
def stod (inRange : ℚ → Bool) (s : Text) : Option Strtod.Value :=
  match Strtod.strtod (cStr s) with
  | some (.finite x) => if inRange x then some (.finite x) else none
  | some (.inf negative) => some (.inf negative)
  | some .nan => some .nan
  | none => none

inductive Branch
  | all
  | frequency (freq : Strtod.Value)
  | text
  deriving DecidableEq

def searchBranch (inRange : ℚ → Bool) (q : Text) : Branch :=
  if q.isEmpty then .all
  else
    match stod inRange q with
    | some freq => .frequency freq
    | none => .text

/-- `/api/search`; no stored frequency lies between two infinities, or between values that
are none. -/
def apiSearch (inRange : ℚ → Bool) (t : RadioLogs) (q : Text) : List RadioLog :=
  match searchBranch inRange q with
  | .all => getAllLogs t
  | .frequency (.finite freq) => filterByFrequency t freq
  | .frequency (.inf _) => []
  | .frequency .nan => []
  | .text => (filterByChannelName t q).foldl mergeLog (filterByLocation t q)

end LogStore

end AetherGuard
