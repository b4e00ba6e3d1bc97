import FlameProfile.HotPath

/-!
# Distribution of weight

How the weight is spread over the stacks: the mean and the median weight, and
the share of the heaviest tenth of the stacks.
-/

namespace FlameProfile

/-- How weight is spread over stacks. -/
structure Distribution (Weight : Type) where
  total : Weight
  /-- Number of stacks. -/
  count : Nat
  mean : Weight
  median : Weight
  /-- Share of the heaviest tenth, in hundredths of the total. -/
  topTenth : Weight
  /-- Number of stacks that saw an exception. -/
  failed : Nat
  deriving DecidableEq

namespace Distribution

variable {Weight : Type} [Arithmetic Weight]

/-- Distribution of the weight of stacks. -/
def ofStacks (collapsed : List (Stack Weight)) : Distribution Weight :=
  match collapsed with
  | [] => ⟨0, 0, 0, 0, 0, 0⟩
  | _ =>
      let total := Stack.totalWeight collapsed
      let count := collapsed.length
      let ascending := Sorting.sort Arithmetic.rank (collapsed.map Stack.weight)
      let tenth := Arithmetic.ceiling (Arithmetic.ofCount count * (0.1 : Weight))
      { total := total
        count := count
        mean := total / Arithmetic.ofCount count
        median := (ascending[count / 2]?).getD 0
        topTenth :=
          HotPath.percentageOf (Arithmetic.sum (ascending.reverse.take tenth)) total
        failed := collapsed.countP Stack.failed }

/-- One line on a distribution. -/
def summary
    [NumberText Weight]
    (distribution : Distribution Weight)
    (unit : String) : String :=
  let measured := fun weight : Weight => NumberText.fixed 6 weight ++ unit
  String.intercalate " | "
    [ "Total: " ++ measured distribution.total
    , s!"Stacks: {distribution.count}"
    , "Mean: " ++ measured distribution.mean
    , "Median: " ++ measured distribution.median
    , "Top 10%: " ++ NumberText.fixed 1 distribution.topTenth ++ "%"
    , s!"With exceptions: {distribution.failed}" ]

end Distribution
end FlameProfile
