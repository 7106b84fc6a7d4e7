/-
# Statistics of measured times

jemu's `percentile` and `round3`, and the mean and the deviation of `benchmark`.

Times are doubles and the list of them is sorted.  A percentile is taken by nearest rank: with `n`
times, the one at the one-based position `⌈pct / 100 · n⌉`, computed in doubles and moved into the
list.
-/

import MethodMachine.Floating.Arithmetic

namespace MethodMachine

namespace Statistics

/-- The double nearest to an integer. -/
def real (n : Int) : Double := .ofInt .double n

/-- The value at a percentile of a sorted list; zero for the empty list. -/
def percentile (sorted : Array Double) (pct : Double) : Double :=
  let rank := (pct / real 100 * real sorted.size).ceiling 0 (UInt64.size - 1)
  sorted.getD (min (rank.toNat - 1) (sorted.size - 1)) (real 0)

/-- Three places after the point, a half away from zero (`round3`). -/
def roundToThousandths (x : Double) : Double := (x * real 1000).roundHalfAway / real 1000

/-- The sum from the left. -/
def sum (times : List Double) : Double := times.foldl (· + ·) (real 0)

/-- The sum divided by the number, or by one if there are none. -/
def mean (times : List Double) : Double := sum times / real (max times.length 1)

/-- The root of the mean square distance from the mean. -/
def deviation (times : List Double) : Double :=
  let center := mean times
  (mean (times.map fun t => (t - center) * (t - center))).sqrt

/-- What is reported of a list of times. -/
structure Summary where
  mean : Double
  deviation : Double
  percentile99 : Double
  max : Double

/-- The summary of sorted times, rounded. -/
def summary (sorted : Array Double) : Summary where
  mean := roundToThousandths (mean sorted.toList)
  deviation := roundToThousandths (deviation sorted.toList)
  percentile99 := roundToThousandths (percentile sorted (real 99))
  max := roundToThousandths (sorted.back?.getD (real 0))

end Statistics

end MethodMachine
