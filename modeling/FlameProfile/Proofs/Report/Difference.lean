import Mathlib
import FlameProfile.Proofs.FirstSeen
import FlameProfile.Proofs.Tree.Depth
import FlameProfile.Report.Difference

/-!
# Differences of profiles add up

Comparing two trees adds up the widths of the frames with one label at one depth,
in each tree apart. As the trees of two profiles with positive amounts add up, so
does the report of their difference: it lists a label at a depth once, if a path of
either profile has it there, with the amounts of the resources that do.
-/

namespace FlameProfile
namespace Comparison

/-! ## Comparing trees -/

/-- The widths in two trees, by label and depth. -/
def widthsOf (before after : Tree Rat) : Widths Rat :=
  after.nodes.foldl addTarget (before.nodes.foldl addBaseline [])

/-- The width of the frames of a tree with a label and a depth. -/
def widthAt
    (tree : Tree Rat)
    (place : String × Nat) : Rat :=
  ((tree.nodes.filter fun node => (node.label, node.depth) = place).map Node.width).sum

theorem nodup_keys_widthsOf (before after : Tree Rat) :
    (FirstSeen.keys (widthsOf before after)).Nodup :=
  FirstSeen.nodup_keys_foldl _ _ _ after.nodes
    (FirstSeen.nodup_keys_foldl _ _ _ before.nodes List.nodup_nil)

theorem mem_keys_widthsOf
    (before after : Tree Rat)
    (place : String × Nat) :
    place ∈ FirstSeen.keys (widthsOf before after) ↔
      (∃ node ∈ before.nodes, (node.label, node.depth) = place) ∨
        ∃ node ∈ after.nodes, (node.label, node.depth) = place := by
  have inBefore : place ∈ FirstSeen.keys (before.nodes.foldl addBaseline ([] : Widths Rat)) ↔
      ∃ node ∈ before.nodes, (node.label, node.depth) = place :=
    (FirstSeen.mem_keys_foldl _ _ _ before.nodes).trans (or_iff_right List.not_mem_nil)
  rw [← inBefore]
  exact FirstSeen.mem_keys_foldl _ _ _ after.nodes

theorem fst_find?_widthsOf
    (before after : Tree Rat)
    (place : String × Nat) :
    (FirstSeen.find? place (widthsOf before after)).elim 0 Prod.fst = widthAt before place :=
  calc (FirstSeen.find? place (widthsOf before after)).elim 0 Prod.fst
    _ = (FirstSeen.find? place (before.nodes.foldl addBaseline [])).elim 0 Prod.fst :=
      FirstSeen.measure_foldl_unchanged _ _ _ _ (by intros; rfl) (by intros; rfl) after.nodes
    _ = 0 + widthAt before place :=
      FirstSeen.measure_foldl _ _ _ _ Node.width (by intros; exact zero_add _) (by intros; rfl)
        before.nodes
    _ = widthAt before place := zero_add _

theorem snd_find?_widthsOf
    (before after : Tree Rat)
    (place : String × Nat) :
    (FirstSeen.find? place (widthsOf before after)).elim 0 Prod.snd = widthAt after place :=
  calc (FirstSeen.find? place (widthsOf before after)).elim 0 Prod.snd
    _ = (FirstSeen.find? place (before.nodes.foldl addBaseline [])).elim 0 Prod.snd +
          widthAt after place :=
      FirstSeen.measure_foldl _ _ _ _ Node.width (by intros; exact zero_add _) (by intros; rfl)
        after.nodes
    _ = 0 + widthAt after place :=
      congrArg (· + _) (FirstSeen.measure_foldl_unchanged _ _ _ _ (by intros; rfl)
        (by intros; rfl) before.nodes)
    _ = widthAt after place := zero_add _

/-- A place is listed if a frame of either tree has it, with the widths that the two
trees have there. -/
theorem mem_widthsOf_iff
    {before after : Tree Rat}
    {place : String × Nat}
    {sums : Rat × Rat} :
    (place, sums) ∈ widthsOf before after ↔
      ((∃ node ∈ before.nodes, (node.label, node.depth) = place) ∨
        ∃ node ∈ after.nodes, (node.label, node.depth) = place) ∧
      sums = (widthAt before place, widthAt after place) := by
  have distinct := nodup_keys_widthsOf before after
  have first := fst_find?_widthsOf before after place
  have second := snd_find?_widthsOf before after place
  rw [← mem_keys_widthsOf]
  constructor
  · intro member
    rw [(FirstSeen.find?_eq_some_iff distinct).mpr member] at first second
    exact ⟨List.mem_map_of_mem member, Prod.ext first second⟩
  · rintro ⟨isKey, rfl⟩
    obtain ⟨⟨key, found⟩, member, rfl⟩ := List.mem_map.mp isKey
    rw [(FirstSeen.find?_eq_some_iff distinct).mpr member] at first second
    rw [← first, ← second]
    exact member

/-- The entry of a place in the comparison of two trees. -/
def ofEntry (entry : (String × Nat) × (Rat × Rat)) : Comparison Rat :=
  ⟨entry.1.1, entry.1.2, entry.2.1, entry.2.2⟩

theorem ofTrees_perm (before after : Tree Rat) :
    (ofTrees before after).Perm ((widthsOf before after).map ofEntry) :=
  Sorting.sort_perm order _

/-- A comparison of trees lists no place twice. -/
theorem nodup_ofTrees
    {Weight : Type}
    [Arithmetic Weight]
    (before after : Tree Weight) :
    ((ofTrees before after).map fun frame => (frame.label, frame.depth)).Nodup := by
  have entries : (ofTrees before after).Perm
      ((after.nodes.foldl addTarget (before.nodes.foldl addBaseline [])).map
        fun entry => ⟨entry.1.1, entry.1.2, entry.2.1, entry.2.2⟩) :=
    Sorting.sort_perm order _
  have perm := entries.map fun frame => (frame.label, frame.depth)
  rw [List.map_map] at perm
  exact perm.nodup_iff.mpr (FirstSeen.nodup_keys_foldl _ _ _ after.nodes
    (FirstSeen.nodup_keys_foldl _ _ _ before.nodes List.nodup_nil))

/-- So the frames of a comparison have different keys of whatever kind, if their places can
be told from the keys. -/
theorem nodup_map_ofTrees
    {Weight Key : Type}
    [Arithmetic Weight]
    {key : Comparison Weight -> Key}
    (place : Key -> String × Nat)
    (isPlace : ∀ frame, place (key frame) = (frame.label, frame.depth))
    (before after : Tree Weight) :
    ((ofTrees before after).map key).Nodup := by
  have places : place ∘ key = fun frame => (frame.label, frame.depth) := by
    funext frame
    exact isPlace frame
  apply List.Nodup.of_map place
  rw [List.map_map, places]
  exact nodup_ofTrees before after

/-- The frames of a comparison are the places of the two trees, with their widths. -/
theorem mem_ofTrees_iff
    {before after : Tree Rat}
    {frame : Comparison Rat} :
    frame ∈ ofTrees before after ↔
      ((∃ node ∈ before.nodes, (node.label, node.depth) = (frame.label, frame.depth)) ∨
        ∃ node ∈ after.nodes, (node.label, node.depth) = (frame.label, frame.depth)) ∧
      frame.baseline = widthAt before (frame.label, frame.depth) ∧
      frame.target = widthAt after (frame.label, frame.depth) := by
  have entry : frame ∈ (widthsOf before after).map ofEntry ↔
      ((frame.label, frame.depth), (frame.baseline, frame.target)) ∈ widthsOf before after := by
    constructor
    · rintro member
      obtain ⟨_, entryMember, rfl⟩ := List.mem_map.mp member
      exact entryMember
    · exact fun member => List.mem_map_of_mem (f := ofEntry) member
  rw [(ofTrees_perm before after).mem_iff, entry, mem_widthsOf_iff, Prod.mk.injEq]

end Comparison

/-! ## Comparing profiles -/

namespace Resource

/-- The amount of the resources that have a label at a depth of their paths. -/
def amountAt
    (resources : List (Resource Rat))
    (label : String)
    (depth : Nat) : Rat :=
  ((resources.filter fun resource => resource.path[depth]? = some label).map Resource.amount).sum

/-- The stacks of resources weigh what the resources amount to. -/
theorem weightWhere_map_ofResource
    (resources : List (Resource Rat))
    (label : String)
    (depth : Nat) :
    Stack.weightWhere (fun path => path[depth]? = some label) (resources.map Stack.ofResource) =
      amountAt resources label depth := by
  rw [Stack.weightWhere, amountAt, List.filter_map, List.map_map]
  rfl

/-- The paths of the stacks are the paths of the resources. -/
theorem exists_map_ofResource
    (resources : List (Resource Rat))
    (label : String)
    (depth : Nat) :
    (∃ stack ∈ resources.map Stack.ofResource, stack.path[depth]? = some label) ↔
      ∃ resource ∈ resources, resource.path[depth]? = some label := by
  simp only [List.mem_map, exists_exists_and_eq_and]
  rfl

end Resource

namespace DifferenceReport

/-- The difference of two profiles with positive amounts adds up. It lists a label at
a depth below the root once, if a path of either profile has it there, with the
amounts of the resources whose paths do, and its totals are those of the profiles. -/
theorem ofProfiles_addsUp
    {baseline target : Profile Rat}
    (baselinePositive : ∀ resource ∈ baseline.resources, 0 < resource.amount)
    (targetPositive : ∀ resource ∈ target.resources, 0 < resource.amount) :
    ∃ report : DifferenceReport Rat, ofProfiles baseline target = .ok report ∧
      report.baselineTotal = (baseline.resources.map Resource.amount).sum ∧
      report.targetTotal = (target.resources.map Resource.amount).sum ∧
      (report.frames.map fun frame => (frame.label, frame.depth)).Nodup ∧
      ∀ frame, frame ∈ report.frames ↔
        1 ≤ frame.depth ∧
        (∃ resource ∈ baseline.resources ++ target.resources,
          resource.path[frame.depth]? = some frame.label) ∧
        frame.baseline = Resource.amountAt baseline.resources frame.label frame.depth ∧
        frame.target = Resource.amountAt target.resources frame.label frame.depth := by
  obtain ⟨before, mergedBefore, addsUpBefore⟩ := Tree.exists_ofResources baselinePositive
  obtain ⟨after, mergedAfter, addsUpAfter⟩ := Tree.exists_ofResources targetPositive
  refine ⟨{
      unit := target.unit
      baselineTotal := before.total
      targetTotal := after.total
      frames := (Comparison.ofTrees before after).filter fun frame => 0 < frame.depth },
    ?_, ?_, ?_, ?_, ?_⟩
  · rw [ofProfiles, mergedBefore, mergedAfter]
  · rw [addsUpBefore.total, List.map_map]
    rfl
  · rw [addsUpAfter.total, List.map_map]
    rfl
  · exact (Comparison.nodup_ofTrees before after).sublist (List.filter_sublist.map _)
  · intro frame
    have either : (∃ resource ∈ baseline.resources ++ target.resources,
        resource.path[frame.depth]? = some frame.label) ↔
          (∃ resource ∈ baseline.resources, resource.path[frame.depth]? = some frame.label) ∨
            ∃ resource ∈ target.resources, resource.path[frame.depth]? = some frame.label := by
      simp only [List.mem_append, or_and_right, exists_or]
    have widthBefore := addsUpBefore.width frame.label frame.depth
    have widthAfter := addsUpAfter.width frame.label frame.depth
    rw [Resource.weightWhere_map_ofResource] at widthBefore widthAfter
    rw [List.mem_filter, Comparison.mem_ofTrees_iff, addsUpBefore.exists_iff,
      addsUpAfter.exists_iff, Comparison.widthAt, Comparison.widthAt, widthBefore, widthAfter]
    rw [Resource.exists_map_ofResource, Resource.exists_map_ofResource, ← either,
      decide_eq_true_iff]
    exact and_comm

/-- A profile of a function that calls itself. -/
def recursiveProfile : Profile Rat :=
  Profile.ofResources
    [ ⟨2, ⟨"a.py", "visit", 3⟩, "1", timeKind, 2, [⟨"a.py", "main", 1⟩], []⟩
    , ⟨1, ⟨"a.py", "visit", 3⟩, "1", timeKind, 2,
        [⟨"a.py", "main", 1⟩, ⟨"a.py", "visit", 3⟩], []⟩ ]
    "run" "" ""

/-- A profile of the function of `recursiveProfile`, called from two others. -/
def sharedProfile : Profile Rat :=
  Profile.ofResources
    [ ⟨1, ⟨"a.py", "visit", 3⟩, "1", timeKind, 2,
        [⟨"a.py", "main", 1⟩, ⟨"a.py", "load", 9⟩], []⟩
    , ⟨4, ⟨"a.py", "visit", 3⟩, "1", timeKind, 2,
        [⟨"a.py", "main", 1⟩, ⟨"a.py", "save", 12⟩], []⟩ ]
    "run" "" ""

theorem ofProfiles_addsUp_recursiveProfile :
    (∀ resource ∈ recursiveProfile.resources, 0 < resource.amount) ∧
    (∀ resource ∈ sharedProfile.resources, 0 < resource.amount) ∧
    ∃ report : DifferenceReport Rat, ofProfiles recursiveProfile sharedProfile = .ok report ∧
      report.baselineTotal = (recursiveProfile.resources.map Resource.amount).sum ∧
      report.targetTotal = (sharedProfile.resources.map Resource.amount).sum ∧
      (report.frames.map fun frame => (frame.label, frame.depth)).Nodup ∧
      ∀ frame, frame ∈ report.frames ↔
        1 ≤ frame.depth ∧
        (∃ resource ∈ recursiveProfile.resources ++ sharedProfile.resources,
          resource.path[frame.depth]? = some frame.label) ∧
        frame.baseline = Resource.amountAt recursiveProfile.resources frame.label frame.depth ∧
        frame.target = Resource.amountAt sharedProfile.resources frame.label frame.depth := by
  have recursivePositive : ∀ resource ∈ recursiveProfile.resources, 0 < resource.amount := by
    decide
  have sharedPositive : ∀ resource ∈ sharedProfile.resources, 0 < resource.amount := by
    decide
  exact ⟨recursivePositive, sharedPositive, ofProfiles_addsUp recursivePositive sharedPositive⟩

end DifferenceReport
end FlameProfile
