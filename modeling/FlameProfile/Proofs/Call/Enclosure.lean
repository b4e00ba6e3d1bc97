import Mathlib
import FlameProfile.Proofs.Call.Nesting

/-!
# Everything inside of a bracket

The brackets inside of a bracket, at any depth, are exactly the brackets that are
directly inside of it or of one of them, each of them once. So what is summed
over direct callees, for a call and every call inside of it, is summed over every
call inside of it. Direct callees of one call follow each other.
-/

namespace FlameProfile
namespace Bracket

variable {Time : Type} {own : List (Event Time)} {outer middle inner first second : Bracket Time}

/-- The brackets inside of a bracket at any depth, in the order in which they
close. -/
def enclosed
    (own : List (Event Time))
    (outer : Bracket Time) : List (Bracket Time) :=
  (ofLog own).filter fun inner => outer.encloses inner

theorem mem_enclosed :
    inner ∈ enclosed own outer ↔ inner ∈ ofLog own ∧ outer.encloses inner = true :=
  List.mem_filter

theorem encloses_trans
    (outerAround : outer.encloses middle = true)
    (middleAround : middle.encloses inner = true) :
    outer.encloses inner = true := by
  rw [encloses_iff] at outerAround middleAround ⊢
  omega

theorem not_encloses_self (outer : Bracket Time) : ¬ outer.encloses outer = true := by
  rw [encloses_iff]
  omega

theorem placed_of_mem_ofLog
    (member : outer ∈ ofLog own) :
    outer.entry ∈ own.zipIdx ∧ outer.exit ∈ own.zipIdx := by
  obtain ⟨entry, exit, _⟩ := mem_ofLog member
  exact ⟨List.mem_of_mem_filter entry, List.mem_of_mem_filter exit⟩

/-- No bracket is listed twice. -/
theorem nodup_ofLog (own : List (Event Time)) : (ofLog own).Nodup := by
  apply (pairwise_ofLog own).imp
  rintro first second different rfl
  exact different rfl

/-! ## Direct callers -/

/-- A bracket is directly inside of at most one other. -/
theorem caller_unique
    (firstMember : first ∈ ofLog own)
    (secondMember : second ∈ ofLog own)
    (firstCaller : inner ∈ inside own first)
    (secondCaller : inner ∈ inside own second) :
    first = second := by
  have innerMember := (mem_inside.mp firstCaller).1
  rw [mem_inside_iff firstMember innerMember] at firstCaller
  rw [mem_inside_iff secondMember innerMember, firstCaller, Option.some.injEq] at secondCaller
  exact eq_of_entry_eq firstMember secondMember secondCaller

/-- What is inside of a bracket is directly inside of it or of something inside of
it. -/
theorem exists_caller
    (outerMember : outer ∈ ofLog own)
    (enclosedInner : inner ∈ enclosed own outer) :
    ∃ caller ∈ outer :: enclosed own outer, inner ∈ inside own caller := by
  obtain ⟨innerMember, around⟩ := mem_enclosed.mp enclosedInner
  have outerOpen := (entry_mem_openAt_iff outerMember innerMember).mpr around
  obtain ⟨last, isLast⟩ : ∃ last, (openAt own inner.entry.2).getLast? = some last :=
    ⟨_, List.getLast?_eq_some_getLast (List.ne_nil_of_mem outerOpen)⟩
  obtain ⟨lastEntry, lastLess⟩ := mem_openAt (List.mem_of_getLast? isLast)
  have callerOf : ∀ caller ∈ ofLog own, caller.entry = last → inner ∈ inside own caller := by
    rintro caller callerMember rfl
    rw [mem_inside_iff callerMember innerMember, isLast, Option.map_some]
  rcases (le_of_getLast?_openAt outerOpen isLast).eq_or_lt with same | above
  · have isOuter := eq_of_position_eq (mem_ofLog outerMember).1 lastEntry same
    exact ⟨outer, List.mem_cons_self, callerOf outer outerMember isOuter⟩
  · have innerLess := (mem_ofLog innerMember).2.2
    obtain ⟨_, innerEnds⟩ := encloses_iff.mp around
    obtain ⟨between, betweenMember, isLastEntry, outerAround⟩ :=
      exists_between outerMember lastEntry above (by omega)
    exact ⟨between, List.mem_cons_of_mem outer (mem_enclosed.mpr ⟨betweenMember, outerAround⟩),
      callerOf between betweenMember isLastEntry⟩

theorem mem_ofLog_of_mem_family
    (outerMember : outer ∈ ofLog own)
    (member : middle ∈ outer :: enclosed own outer) :
    middle ∈ ofLog own := by
  rcases List.mem_cons.mp member with rfl | within
  · exact outerMember
  · exact (mem_enclosed.mp within).1

theorem encloses_of_mem_family
    (member : middle ∈ outer :: enclosed own outer)
    (around : middle.encloses inner = true) :
    outer.encloses inner = true := by
  rcases List.mem_cons.mp member with rfl | within
  · exact around
  · exact encloses_trans (mem_enclosed.mp within).2 around

/-- What is directly inside of a bracket and of everything inside of it is what is
inside of it, and nothing comes twice. -/
theorem flatMap_inside_perm
    (outerMember : outer ∈ ofLog own) :
    ((outer :: enclosed own outer).flatMap (inside own)).Perm (enclosed own outer) := by
  have distinct : (outer :: enclosed own outer).Nodup := by
    refine List.nodup_cons.mpr ⟨?_, (nodup_ofLog own).filter _⟩
    intro member
    exact not_encloses_self outer (mem_enclosed.mp member).2
  have directDistinct : ((outer :: enclosed own outer).flatMap (inside own)).Nodup := by
    refine List.nodup_flatMap.mpr ⟨fun caller _ => (nodup_ofLog own).filter _, ?_⟩
    apply distinct.imp_of_mem
    intro first second firstMember secondMember different inner firstCaller secondCaller
    exact different (caller_unique (mem_ofLog_of_mem_family outerMember firstMember)
      (mem_ofLog_of_mem_family outerMember secondMember) firstCaller secondCaller)
  refine (List.perm_ext_iff_of_nodup directDistinct ((nodup_ofLog own).filter _)).mpr ?_
  intro inner
  rw [List.mem_flatMap]
  constructor
  · rintro ⟨caller, callerMember, direct⟩
    obtain ⟨innerMember, around, _⟩ := mem_inside.mp direct
    exact mem_enclosed.mpr ⟨innerMember, encloses_of_mem_family callerMember around⟩
  · exact exists_caller outerMember

/-! ## Callees of one call -/

/-- Brackets are listed by rising exits. -/
theorem pairwise_exit_ofLog (own : List (Event Time)) :
    (ofLog own).Pairwise fun first second => first.exit.2 < second.exit.2 := by
  induction own using List.reverseRecOn with
  | nil => exact List.Pairwise.nil
  | append_singleton front event inductionHypothesis =>
      by_cases isEntry : event.kind.isEntry = true
      · rwa [ofLog_append_entry isEntry]
      · rw [ofLog_append_exit isEntry, matchExit]
        split
        next entry latest =>
          refine List.pairwise_append.mpr ⟨inductionHypothesis, List.pairwise_singleton _ _, ?_⟩
          intro first member last isLast
          rw [List.mem_singleton.mp isLast]
          exact lt_length_of_mem_exits (mem_ofLog member).2.1
        next => exact inductionHypothesis

/-- Of two direct callees, the one that ends first ends before the other starts. -/
theorem exit_lt_entry_of_inside
    (firstDirect : first ∈ inside own outer)
    (secondDirect : second ∈ inside own outer)
    (ends : first.exit.2 < second.exit.2) :
    first.exit.2 < second.entry.2 := by
  obtain ⟨firstMember, _, nothingBetween⟩ := mem_inside.mp firstDirect
  obtain ⟨secondMember, secondAround, _⟩ := mem_inside.mp secondDirect
  by_contra overlap
  have apart := entry_ne_exit (mem_ofLog secondMember).1 (mem_ofLog firstMember).2.1
  rcases lt_trichotomy first.entry.2 second.entry.2 with below | same | above
  · -- A bracket that starts inside of the first one ends inside of it.
    have inside := exit_lt_exit firstMember secondMember below (by omega)
    omega
  · rw [eq_of_entry_eq firstMember secondMember same] at ends
    exact lt_irrefl _ ends
  · exact nothingBetween second secondMember secondAround (encloses_iff.mpr ⟨above, ends⟩)

theorem pairwise_inside
    (own : List (Event Time))
    (outer : Bracket Time) :
    (inside own outer).Pairwise fun first second => first.exit.2 < second.entry.2 := by
  apply ((pairwise_exit_ofLog own).filter _).imp_of_mem
  intro first second firstDirect secondDirect ends
  exact exit_lt_entry_of_inside firstDirect secondDirect ends

end Bracket
end FlameProfile
