import Mathlib
import FlameProfile.Proofs.Stack.Coalescing

/-!
# Stacks group resources

The stacks of resources are a grouping by path: each path of a resource has one stack,
and a stack says of the resources of its path what they amount to, one after the other,
the greatest of their numbers of calls, and whether one of them has an exception. This
holds in every arithmetic. In exact arithmetic nothing is lost or counted twice, and
the order in which the resources come does not matter.
-/

namespace FlameProfile
namespace Stack

/-- Stacks are in the order of their paths, without repetition, and have the paths of
some resources; each one holds what the resources of its path say together. -/
structure IsGrouping
    {Weight : Type}
    [Arithmetic Weight]
    (resources : List (Resource Weight))
    (grouped : List (Stack Weight)) : Prop where
  increasing : grouped.Pairwise fun first second => first.path < second.path
  exists_path_iff : ∀ path, (∃ stack ∈ grouped, stack.path = path) ↔
    ∃ resource ∈ resources, resource.path = path
  /-- The amounts are added from left to right, beginning with the first. -/
  weight : ∀ stack ∈ grouped, ∃ first rest,
    (resources.filter fun resource => resource.path = stack.path) = first :: rest ∧
      stack.weight = rest.foldl (fun total resource => total + resource.amount) first.amount
  calls : ∀ stack ∈ grouped,
    ((resources.filter fun resource => resource.path = stack.path).map Resource.calls).max? =
      some stack.calls
  failed : ∀ stack ∈ grouped, stack.failed = true ↔
    ∃ resource ∈ resources, resource.path = stack.path ∧ resource.exceptions ≠ []

/-- The stacks of resources group them. -/
theorem isGrouping_ofResources
    {Weight : Type}
    [Arithmetic Weight]
    (resources : List (Resource Weight)) :
    IsGrouping resources (ofResources resources) where
  increasing := pairwise_ofResources resources
  exists_path_iff path := exists_path_ofResources_iff (· = path)
  weight := by
    intro stack member
    obtain ⟨first, rest, ofPath, isMerged⟩ := exists_of_mem_ofResources member
    refine ⟨first, rest, ofPath, ?_⟩
    rw [isMerged, weight_foldl_merge, List.foldl_map]
    rfl
  calls := by
    intro stack member
    obtain ⟨first, rest, ofPath, isMerged⟩ := exists_of_mem_ofResources member
    rw [ofPath, List.map_cons, List.max?_cons', Option.some.injEq, isMerged, calls_foldl_merge,
      List.map_map]
    rfl
  failed stack member := failed_iff_of_mem_ofResources member

/-- In exact arithmetic the stacks weigh what the resources amount to. -/
theorem sum_weight_ofResources (resources : List (Resource Rat)) :
    ((ofResources resources).map Stack.weight).sum = (resources.map Resource.amount).sum := by
  have gathered := (gathers_coalesce (resources.map ofResource)).weight fun _ => true
  simp only [weightWhere, List.filter_true, id] at gathered
  calc ((ofResources resources).map Stack.weight).sum
    _ = (((coalesce (resources.map ofResource)).map Prod.snd).map Stack.weight).sum :=
      ((ofResources_perm_coalesce resources).map Stack.weight).sum_eq
    _ = ((resources.map ofResource).map Stack.weight).sum := gathered
    _ = (resources.map Resource.amount).sum := by rw [List.map_map]; rfl

/-- In every arithmetic the stacks of resources group them by their paths. In exact
arithmetic they are the same for rearranged resources, and weigh what the resources
amount to. -/
theorem groups_resources :
    (∀ {Weight : Type} [Arithmetic Weight] (resources : List (Resource Weight)),
      IsGrouping resources (ofResources resources)) ∧
    ∀ resources : List (Resource Rat),
      (∀ others : List (Resource Rat), others.Perm resources →
        ofResources others = ofResources resources) ∧
      ((ofResources resources).map Stack.weight).sum = (resources.map Resource.amount).sum := by
  refine ⟨fun resources => isGrouping_ofResources resources, fun resources => ⟨?_, ?_⟩⟩
  · intro others perm
    exact ofResources_eq_of_perm perm
  · exact sum_weight_ofResources resources

/-- Resources of which two have one path, though they are of different functions. -/
def scatteredResources : List (Resource Rat) :=
  [ ⟨2, ⟨"a.py", "visit", 3⟩, "1", timeKind, 2, [⟨"a.py", "main", 1⟩], []⟩
  , ⟨1, ⟨"a.py", "main", 1⟩, "1", timeKind, 1, [], []⟩
  , ⟨4, ⟨"b.py", "visit", 9⟩, "2", timeKind, 5, [⟨"b.py", "main", 8⟩], ["KeyError"]⟩ ]

theorem groups_resources_scattered :
    scatteredResources.reverse.Perm scatteredResources ∧
    ofResources scatteredResources.reverse = ofResources scatteredResources ∧
    IsGrouping scatteredResources (ofResources scatteredResources) ∧
    ofResources scatteredResources =
      [⟨["", "main"], 1, 1, false⟩, ⟨["", "main", "visit"], 6, 5, true⟩] := by
  have perm : scatteredResources.reverse.Perm scatteredResources :=
    List.reverse_perm scatteredResources
  obtain ⟨grouping, inExact⟩ := groups_resources
  exact ⟨perm, (inExact scatteredResources).1 _ perm, grouping scatteredResources, by decide +kernel⟩

end Stack
end FlameProfile
