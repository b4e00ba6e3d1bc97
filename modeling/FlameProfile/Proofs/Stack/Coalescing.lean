import Mathlib
import FlameProfile.Proofs.FirstSeen
import FlameProfile.Proofs.Sorting
import FlameProfile.Proofs.Tree.Gathering

/-!
# Coalesced stacks

The stacks of resources have one stack for each path, in the order of the paths.
What the stack of a path says depends on the resources of the path alone: their
amounts are added one after the other, their greatest number of calls is kept, and it
has failed if one of them has. In exact arithmetic the order in which they come
makes no difference to it. So the stacks of resources are those of any
rearrangement of the resources.
-/

namespace FlameProfile
namespace Stack

/-! ## Stacks of one path -/

section Merged

variable {Weight : Type} [Arithmetic Weight]

/-- Stacks of one path in one, if there are any. -/
def merged (collapsed : List (Stack Weight)) : Option (Stack Weight) :=
  collapsed.foldl (fun found stack => some (found.elim stack fun group => group.merge stack)) none

@[simp] theorem merged_cons
    (stack : Stack Weight)
    (rest : List (Stack Weight)) :
    merged (stack :: rest) = some (rest.foldl merge stack) := by
  suffices merges : ∀ group : Stack Weight,
      rest.foldl (fun found stack => some (found.elim stack fun group => group.merge stack))
        (some group) = some (rest.foldl merge group) by
    exact merges stack
  induction rest with
  | nil => exact fun group => rfl
  | cons next rest inductionHypothesis => exact fun group => inductionHypothesis (group.merge next)

/-- Coalescing puts the stacks of a path in one, and leaves those of other paths out
of it. -/
theorem find?_coalesce
    (path : List String)
    (collapsed : List (Stack Weight)) :
    FirstSeen.find? path (coalesce collapsed) =
      merged (collapsed.filter fun stack => stack.path = path) :=
  FirstSeen.find?_foldl Stack.path id (fun stack group => group.merge stack) collapsed

theorem weight_foldl_merge
    (group : Stack Weight)
    (collapsed : List (Stack Weight)) :
    (collapsed.foldl merge group).weight =
      collapsed.foldl (fun total stack => total + stack.weight) group.weight := by
  induction collapsed generalizing group with
  | nil => rfl
  | cons stack rest inductionHypothesis => exact inductionHypothesis (group.merge stack)

theorem calls_foldl_merge
    (group : Stack Weight)
    (collapsed : List (Stack Weight)) :
    (collapsed.foldl merge group).calls = (collapsed.map Stack.calls).foldl max group.calls := by
  induction collapsed generalizing group with
  | nil => rfl
  | cons stack rest inductionHypothesis => exact inductionHypothesis (group.merge stack)

theorem failed_foldl_merge
    (group : Stack Weight)
    (collapsed : List (Stack Weight)) :
    (collapsed.foldl merge group).failed = (group.failed || collapsed.any Stack.failed) := by
  induction collapsed generalizing group with
  | nil => exact (Bool.or_false _).symm
  | cons stack rest inductionHypothesis =>
      rw [List.foldl_cons, inductionHypothesis, List.any_cons, ← Bool.or_assoc]
      rfl

/-! ## Coalescing -/

/-- A coalesced stack stands at its path. -/
theorem path_of_mem_coalesce (collapsed : List (Stack Weight)) :
    ∀ entry ∈ coalesce collapsed, entry.2.path = entry.1 :=
  FirstSeen.forall_foldl Stack.path id (fun stack group => group.merge stack)
    (fun path stack => stack.path = path) (by simp) (by intros; rfl) (by intros; assumption)
    collapsed

theorem nodup_keys_coalesce (collapsed : List (Stack Weight)) :
    (FirstSeen.keys (coalesce collapsed)).Nodup :=
  FirstSeen.nodup_keys_foldl Stack.path id (fun stack group => group.merge stack) collapsed
    List.nodup_nil

/-- A stack is among the coalesced ones if it is what the stacks of its path are
merged to. -/
theorem mem_coalesce_iff
    {collapsed : List (Stack Weight)}
    {group : Stack Weight} :
    group ∈ (coalesce collapsed).map Prod.snd ↔
      merged (collapsed.filter fun stack => stack.path = group.path) = some group := by
  rw [← find?_coalesce, FirstSeen.find?_eq_some_iff (nodup_keys_coalesce collapsed)]
  constructor
  · intro member
    obtain ⟨⟨path, found⟩, entry, rfl⟩ := List.mem_map.mp member
    rwa [path_of_mem_coalesce collapsed (path, found) entry]
  · intro entry
    exact List.mem_map_of_mem entry

theorem nodup_path_coalesce (collapsed : List (Stack Weight)) :
    (((coalesce collapsed).map Prod.snd).map Stack.path).Nodup := by
  have paths : ((coalesce collapsed).map Prod.snd).map Stack.path =
      FirstSeen.keys (coalesce collapsed) := by
    rw [List.map_map]
    exact List.map_congr_left (path_of_mem_coalesce collapsed)
  rw [paths]
  exact nodup_keys_coalesce collapsed

/-! ## Stacks of resources -/

variable {resources : List (Resource Weight)}

theorem ofResources_perm_coalesce (resources : List (Resource Weight)) :
    (ofResources resources).Perm ((coalesce (resources.map ofResource)).map Prod.snd) :=
  Sorting.sort_perm _ _

/-- The paths of the stacks are those of the resources. -/
theorem exists_path_ofResources_iff
    (holds : List String -> Prop) :
    (∃ stack ∈ ofResources resources, holds stack.path) ↔
      ∃ resource ∈ resources, holds resource.path := by
  have isKey_iff : ∀ path, path ∈ FirstSeen.keys (coalesce (resources.map ofResource)) ↔
      ∃ resource ∈ resources, resource.path = path := by
    intro path
    rw [coalesce, FirstSeen.mem_keys_foldl Stack.path]
    simp [FirstSeen.keys, ofResource]
  have stackPath := path_of_mem_coalesce (resources.map ofResource)
  simp only [(ofResources_perm_coalesce resources).mem_iff, List.mem_map,
    exists_exists_and_eq_and]
  constructor
  · rintro ⟨entry, inTable, kind⟩
    obtain ⟨resource, isResource, samePath⟩ := (isKey_iff entry.1).mp (List.mem_map_of_mem inTable)
    rw [stackPath entry inTable, ← samePath] at kind
    exact ⟨resource, isResource, kind⟩
  · rintro ⟨resource, isResource, kind⟩
    obtain ⟨entry, inTable, samePath⟩ :=
      List.mem_map.mp ((isKey_iff resource.path).mpr ⟨resource, isResource, rfl⟩)
    refine ⟨entry, inTable, ?_⟩
    rwa [stackPath entry inTable, samePath]

/-- The stacks of resources come in the order of their paths, which are all
different. -/
theorem pairwise_ofResources (resources : List (Resource Weight)) :
    (ofResources resources).Pairwise fun first second => first.path < second.path := by
  have distinct : (ofResources resources).Pairwise fun first second =>
      first.path ≠ second.path := by
    rw [← List.pairwise_map (f := Stack.path) (R := (· ≠ ·))]
    exact ((ofResources_perm_coalesce resources).map Stack.path).nodup_iff.mpr
      (nodup_path_coalesce _)
  refine ((isStableOrder_sortByPath _).sorted.and distinct).imp ?_
  rintro first second ⟨notAbove, different⟩
  exact lt_of_le_of_ne (not_lt.mp notAbove) different

theorem mem_ofResources_iff
    {group : Stack Weight} :
    group ∈ ofResources resources ↔
      merged ((resources.map ofResource).filter fun stack => stack.path = group.path) =
        some group := by
  rw [(ofResources_perm_coalesce resources).mem_iff, mem_coalesce_iff]

/-- A stack of resources is what the resources of its path are merged to, one after the
other. -/
theorem exists_of_mem_ofResources
    {group : Stack Weight}
    (member : group ∈ ofResources resources) :
    ∃ first rest,
      (resources.filter fun resource => resource.path = group.path) = first :: rest ∧
        group = (rest.map ofResource).foldl merge (ofResource first) := by
  have isMerged := mem_ofResources_iff.mp member
  rw [List.filter_map] at isMerged
  change merged ((resources.filter fun resource => resource.path = group.path).map ofResource) =
    some group at isMerged
  cases ofPath : resources.filter fun resource => resource.path = group.path with
  | nil =>
      rw [ofPath] at isMerged
      exact absurd isMerged.symm (Option.some_ne_none group)
  | cons first rest =>
      rw [ofPath, List.map_cons, merged_cons, Option.some.injEq] at isMerged
      exact ⟨first, rest, rfl, isMerged.symm⟩

/-- A stack of resources has failed if a resource of its path has an exception. -/
theorem failed_iff_of_mem_ofResources
    {group : Stack Weight}
    (member : group ∈ ofResources resources) :
    group.failed = true ↔
      ∃ resource ∈ resources, resource.path = group.path ∧ resource.exceptions ≠ [] := by
  obtain ⟨first, rest, ofPath, isMerged⟩ := exists_of_mem_ofResources member
  have failed : group.failed = ((first :: rest).map ofResource).any Stack.failed := by
    rw [isMerged, failed_foldl_merge, List.map_cons, List.any_cons]
  rw [failed, ← ofPath, List.any_map, List.any_filter, List.any_eq_true]
  simp [ofResource]

/-- The stack of a path has failed if a resource of the path has an exception. -/
theorem exists_failed_ofResources_iff
    (path : List String) :
    (∃ stack ∈ ofResources resources, stack.path = path ∧ stack.failed = true) ↔
      ∃ resource ∈ resources, resource.path = path ∧ resource.exceptions ≠ [] := by
  constructor
  · rintro ⟨group, member, rfl, failed⟩
    exact (failed_iff_of_mem_ofResources member).mp failed
  · rintro ⟨resource, resourceMember, rfl, raised⟩
    obtain ⟨group, member, samePath⟩ :=
      (exists_path_ofResources_iff (· = resource.path)).mpr ⟨resource, resourceMember, rfl⟩
    refine ⟨group, member, samePath, (failed_iff_of_mem_ofResources member).mpr ?_⟩
    exact ⟨resource, resourceMember, samePath.symm, raised⟩

end Merged

/-! ## Exact arithmetic -/

/-- In exact arithmetic stacks can be merged in either order. -/
theorem merge_right_comm (group first second : Stack Rat) :
    (group.merge first).merge second = (group.merge second).merge first := by
  simp only [merge, add_right_comm group.weight, max_right_comm group.calls,
    Bool.or_right_comm group.failed]

/-- Of two stacks of one path either can be merged into the other. -/
theorem merge_comm
    {first second : Stack Rat}
    (samePath : first.path = second.path) :
    first.merge second = second.merge first := by
  simp only [merge, samePath, add_comm first.weight, max_comm first.calls,
    Bool.or_comm first.failed]

/-- In exact arithmetic stacks of one path are merged to the same stack in whatever
order they come. -/
theorem merged_perm
    {first second : List (Stack Rat)}
    {path : List String}
    (perm : first.Perm second)
    (samePath : ∀ stack ∈ first, stack.path = path) :
    merged first = merged second := by
  apply perm.foldl_eq'
  intro stack member other otherMember found
  cases found with
  | none => exact congrArg some (merge_comm
      ((samePath other otherMember).trans (samePath stack member).symm)).symm
  | some group => exact congrArg some (merge_right_comm group stack other)

/-- In exact arithmetic rearranged resources have the same stacks, in the same
order. -/
theorem ofResources_eq_of_perm
    {first second : List (Resource Rat)}
    (perm : first.Perm second) :
    ofResources first = ofResources second := by
  have sameStacks : ∀ group, group ∈ ofResources first ↔ group ∈ ofResources second := by
    intro group
    have ofPath := (perm.map ofResource).filter fun stack => stack.path = group.path
    rw [mem_ofResources_iff, mem_ofResources_iff, merged_perm ofPath]
    intro stack member
    exact of_decide_eq_true (List.mem_filter.mp member).2
  apply List.Pairwise.eq_of_mem_iff (pairwise_ofResources first) (pairwise_ofResources second)
  exact sameStacks

end Stack
end FlameProfile
