import Mathlib
import FlameProfile.Arithmetic.Floating
import FlameProfile.Arithmetic.Rational
import FlameProfile.Event.Log
import FlameProfile.Proofs.Call.Ownership

/-!
# Parents of threads

The parent of a thread is what the rule says before the first entry of the thread. The
nearest rule names a thread with an event before that entry, but the event may be an exit
that found no open call, of a thread that enters its own first call later. Only such a
premature link can close a circle: in every circle of parents some thread is linked to one
that enters its first call after it. Where no thread leaves a call before it enters one,
the parents form a forest.
-/

namespace FlameProfile
namespace Reconstruction

variable {Time : Type}

/-- The parent of a thread, if it has one. -/
def parentOf
    (reconstruction : Reconstruction Time)
    (thread : String) : Option String :=
  (reconstruction.thread? thread).bind ThreadState.parent

/-- The thread that a number of links to parents leads to, if there are that many. -/
def ancestorOf
    (reconstruction : Reconstruction Time)
    (thread : String) : Nat -> Option String
  | 0 => some thread
  | steps + 1 => (reconstruction.ancestorOf thread steps).bind reconstruction.parentOf

/-- The links to parents never lead to a thread twice, and every chain of them ends. -/
structure IsForest (reconstruction : Reconstruction Time) : Prop where
  distinct : ∀ thread first second ancestor,
    reconstruction.ancestorOf thread first = some ancestor →
    reconstruction.ancestorOf thread second = some ancestor → first = second
  ends : ∀ thread, ∃ steps, reconstruction.ancestorOf thread steps = none

/-! ## Chains of parents -/

section Chains

variable {reconstruction : Reconstruction Time} {thread middle ancestor : String}
  {first second steps : Nat}

/-- Links lead on from where links have led. -/
theorem ancestorOf_add
    (there : reconstruction.ancestorOf thread first = some middle)
    (second : Nat) :
    reconstruction.ancestorOf thread (first + second) =
      reconstruction.ancestorOf middle second := by
  induction second with
  | zero => exact there
  | succ second inductionHypothesis =>
      rw [← Nat.add_assoc, ancestorOf, inductionHypothesis, ancestorOf]

/-- Links from a thread go on as those from its parent do. -/
theorem ancestorOf_succ_of_parentOf
    (link : reconstruction.parentOf thread = some middle)
    (steps : Nat) :
    reconstruction.ancestorOf thread (steps + 1) = reconstruction.ancestorOf middle steps := by
  have one : reconstruction.ancestorOf thread 1 = some middle := link
  rw [Nat.add_comm, ancestorOf_add one]

/-- On the way to an ancestor there is an ancestor at every step. -/
theorem exists_ancestorOf_of_le
    (there : reconstruction.ancestorOf thread steps = some ancestor)
    (fewer : first ≤ steps) :
    ∃ between, reconstruction.ancestorOf thread first = some between ∧
      reconstruction.ancestorOf between (steps - first) = some ancestor := by
  cases found : reconstruction.ancestorOf thread first with
  | some between =>
      refine ⟨between, rfl, ?_⟩
      rw [← ancestorOf_add found, Nat.add_sub_cancel' fewer, there]
  | none =>
      have ended : ∀ more, reconstruction.ancestorOf thread (first + more) = none := by
        intro more
        induction more with
        | zero => exact found
        | succ more inductionHypothesis =>
            rw [← Nat.add_assoc, ancestorOf, inductionHypothesis, Option.bind_none]
      have absent := ended (steps - first)
      rw [Nat.add_sub_cancel' fewer, there] at absent
      exact absurd absent (Option.some_ne_none ancestor)

/-- A thread with a parent has a state, which says so. -/
theorem exists_thread?_of_parentOf
    (link : reconstruction.parentOf thread = some ancestor) :
    ∃ state, reconstruction.thread? thread = some state ∧ state.parent = some ancestor :=
  Option.bind_eq_some_iff.mp link

/-- Threads with a parent are among those that are known. -/
theorem mem_keys_of_parentOf
    (link : reconstruction.parentOf thread = some ancestor) :
    thread ∈ FirstSeen.keys reconstruction.threads := by
  obtain ⟨state, known, _⟩ := exists_thread?_of_parentOf link
  exact FirstSeen.mem_keys_of_find?_eq_some known

/-- The parents form a forest if no thread is its own ancestor: a chain without an end
would visit infinitely many threads. -/
theorem isForest_iff_acyclic :
    reconstruction.IsForest ↔
      ∀ thread steps, reconstruction.ancestorOf thread (steps + 1) ≠ some thread := by
  constructor
  · intro forest thread steps back
    exact absurd (forest.distinct thread (steps + 1) 0 thread back rfl) (Nat.succ_ne_zero steps)
  · intro acyclic
    have ordered : ∀ thread first second ancestor,
        reconstruction.ancestorOf thread first = some ancestor →
        reconstruction.ancestorOf thread second = some ancestor → ¬ first < second := by
      intro thread first second ancestor early late less
      obtain ⟨more, rfl⟩ := Nat.exists_eq_add_of_lt less
      rw [Nat.add_assoc, ancestorOf_add early] at late
      exact acyclic ancestor more late
    have distinct : ∀ thread first second ancestor,
        reconstruction.ancestorOf thread first = some ancestor →
        reconstruction.ancestorOf thread second = some ancestor → first = second := by
      intro thread first second ancestor early late
      exact Nat.le_antisymm (Nat.not_lt.mp (ordered thread second first ancestor late early))
        (Nat.not_lt.mp (ordered thread first second ancestor early late))
    refine ⟨distinct, ?_⟩
    intro thread
    by_contra endless
    have visited : ∀ steps, ∃ ancestor, reconstruction.ancestorOf thread steps = some ancestor :=
      fun steps => Option.ne_none_iff_exists'.mp fun ended => endless ⟨steps, ended⟩
    choose visit isVisit using visited
    have known : ∀ steps, visit steps ∈ FirstSeen.keys reconstruction.threads := by
      intro steps
      have next := isVisit (steps + 1)
      rw [ancestorOf, isVisit steps, Option.bind_some] at next
      exact mem_keys_of_parentOf next
    have injective : Function.Injective visit := by
      intro first second same
      exact distinct thread first second (visit first) (isVisit first) (same ▸ isVisit second)
    exact Set.infinite_of_injective_forall_mem injective known
      (List.finite_toSet (FirstSeen.keys reconstruction.threads))

/-- In a circle of parents, some thread is linked to one of no smaller rank, whatever
the rank, and is an ancestor of that one. -/
theorem exists_least_on_circle
    (rank : String -> Nat)
    (circle : reconstruction.ancestorOf thread (steps + 1) = some thread) :
    ∃ child parent, reconstruction.parentOf child = some parent ∧ rank child ≤ rank parent ∧
      reconstruction.ancestorOf parent steps = some child := by
  have visited : ∀ place ≤ steps + 1, ∃ between,
      reconstruction.ancestorOf thread place = some between ∧
        reconstruction.ancestorOf between (steps + 1 - place) = some thread :=
    fun place fewer => exists_ancestorOf_of_le circle fewer
  obtain ⟨place, inside, least⟩ := Finset.exists_min_image (Finset.range (steps + 1))
    (fun place => ((reconstruction.ancestorOf thread place).map rank).getD 0)
    ⟨0, Finset.mem_range.mpr (Nat.succ_pos steps)⟩
  have fewer : place ≤ steps := Nat.lt_succ_iff.mp (Finset.mem_range.mp inside)
  obtain ⟨child, childThere, _⟩ := visited place (Nat.le_succ_of_le fewer)
  obtain ⟨parent, parentThere, back⟩ := visited (place + 1) (Nat.succ_le_succ fewer)
  refine ⟨child, parent, ?_, ?_, ?_⟩
  · rwa [ancestorOf, childThere, Option.bind_some] at parentThere
  · -- behind the last place of the circle comes its first one again
    rcases Nat.lt_or_eq_of_le fewer with less | last
    · have below := least (place + 1) (Finset.mem_range.mpr (Nat.succ_lt_succ less))
      simpa [childThere, parentThere] using below
    · have below := least 0 (Finset.mem_range.mpr (Nat.succ_pos steps))
      rw [last, circle] at parentThere
      obtain rfl := Option.some.inj parentThere
      simpa [childThere, ancestorOf] using below
  · rw [Nat.add_sub_add_right] at back
    have around := ancestorOf_add back place
    rwa [Nat.sub_add_cancel fewer, childThere] at around

end Chains

/-! ## Parents at first entries -/

/-- A thread enters a call in a log. -/
def HasEntered
    (events : List (Event Time))
    (thread : String) : Prop :=
  ∃ event ∈ events, event.kind.isEntry = true ∧ event.thread = thread

/-- Place of the first entry of a thread, behind the log if there is none. -/
def firstEntry
    (events : List (Event Time))
    (thread : String) : Nat :=
  events.findIdx fun event => event.kind.isEntry && event.thread = thread

/-- The first entry is inside of the log exactly if the thread has entered a call. -/
theorem firstEntry_lt_iff
    {events : List (Event Time)}
    {thread : String} :
    firstEntry events thread < events.length ↔ HasEntered events thread := by
  rw [firstEntry, List.findIdx_lt_length]
  simp [HasEntered]

/-- Before the first entry of a thread, it has entered nothing. -/
theorem firstEntry_eq
    {front later : List (Event Time)}
    {event : Event Time}
    (isEntry : event.kind.isEntry = true)
    (first : ¬ HasEntered front event.thread) :
    firstEntry (front ++ event :: later) event.thread = front.length := by
  have inFront : firstEntry front event.thread = front.length :=
    Nat.le_antisymm List.findIdx_le_length (Nat.not_lt.mp (mt firstEntry_lt_iff.mp first))
  rw [firstEntry, List.findIdx_append]
  rw [firstEntry] at inFront
  simp [inFront, List.findIdx_cons, isEntry]

/-- What comes later leaves the first entry of a thread where it is. -/
theorem firstEntry_append
    {front : List (Event Time)}
    {thread : String}
    (entered : HasEntered front thread)
    (later : List (Event Time)) :
    firstEntry (front ++ later) thread = firstEntry front thread := by
  have inside := firstEntry_lt_iff.mpr entered
  rw [firstEntry] at inside ⊢
  rw [List.findIdx_append, if_pos inside, firstEntry]

/-! ## The nearest rule -/

/-- The nearest rule names another thread, one with an event before. -/
theorem nearest_eq_some
    {history : List (Event Time)}
    {child parent : String}
    (named : ParentStrategy.nearest.rule child history = some parent) :
    parent ≠ child ∧ ∃ event ∈ history, event.thread = parent := by
  obtain ⟨event, found, rfl⟩ := Option.map_eq_some_iff.mp named
  have different := List.find?_some found
  exact ⟨of_decide_eq_true different, event, List.mem_of_find?_eq_some found, rfl⟩

/-- At the first entry of a thread, the nearest rule names a thread that enters its own
first call only later: so far it has exits without an open call alone. -/
def IsPremature
    (events : List (Event Time))
    (child parent : String) : Prop :=
  ∃ front event later, events = front ++ event :: later ∧
    event.kind.isEntry = true ∧ event.thread = child ∧ ¬ HasEntered front child ∧
    ParentStrategy.nearest.rule child front.reverse = some parent ∧
    ¬ HasEntered front parent ∧ HasEntered later parent

/-- The first event of every thread enters a call. -/
def EntersFirst (events : List (Event Time)) : Prop :=
  ∀ event ∈ events, (events.find? fun other => other.thread = event.thread).any
    (fun first => first.kind.isEntry) = true

instance (events : List (Event Time)) : Decidable (EntersFirst events) :=
  inferInstanceAs (Decidable (∀ event ∈ events, _))

/-- In a log whose threads enter first, no link is premature. -/
theorem EntersFirst.not_isPremature
    {events : List (Event Time)}
    (entersFirst : EntersFirst events)
    (child parent : String) :
    ¬ IsPremature events child parent := by
  rintro ⟨front, event, later, rfl, _, _, _, named, notEntered, _⟩
  obtain ⟨_, earlier, reversed, rfl⟩ := nearest_eq_some named
  have member : earlier ∈ front := List.mem_reverse.mp reversed
  obtain ⟨first, found⟩ : ∃ first,
      front.find? (fun other => other.thread = earlier.thread) = some first :=
    Option.isSome_iff_exists.mp (List.find?_isSome.mpr ⟨earlier, member, decide_eq_true rfl⟩)
  have isEntry := entersFirst earlier (List.mem_append_left _ member)
  rw [List.find?_append, found] at isEntry
  have ofThread := List.find?_some found
  exact notEntered ⟨first, List.mem_of_find?_eq_some found, isEntry, of_decide_eq_true ofThread⟩

/-! ## Links made by the rule -/

/-- What is known of the parent of a thread: nothing before its first entry, and from then
on what the rule said. -/
def linkOf
    (reconstruction : Reconstruction Time)
    (thread : String) : Option (Option String) :=
  (reconstruction.thread? thread).map ThreadState.parent

/-- A thread has the parent that it was linked to. -/
theorem parentOf_eq_some_iff
    {reconstruction : Reconstruction Time}
    {thread parent : String} :
    reconstruction.parentOf thread = some parent ↔
      reconstruction.linkOf thread = some (some parent) := by
  rw [parentOf, linkOf, Option.bind_eq_some_iff, Option.map_eq_some_iff]

/-- The rule links a thread at its first entry in a log, if there is one. -/
def LinksAs
    (rule : ParentRule Time)
    (events : List (Event Time))
    (thread : String) : Option (Option String) -> Prop
  | none => ¬ HasEntered events thread
  | some parent => ∃ front event later, events = front ++ event :: later ∧
      event.kind.isEntry = true ∧ event.thread = thread ∧ ¬ HasEntered front thread ∧
      rule thread front.reverse = parent

/-- A thread has entered a call in one of two parts of a log. -/
theorem hasEntered_append
    {front later : List (Event Time)}
    {thread : String} :
    HasEntered (front ++ later) thread ↔ HasEntered front thread ∨ HasEntered later thread := by
  simp [HasEntered, or_and_right, exists_or]

/-- One event enters a call of its own thread, if it is an entry. -/
theorem hasEntered_singleton
    {event : Event Time}
    {thread : String} :
    HasEntered [event] thread ↔ event.kind.isEntry = true ∧ event.thread = thread := by
  simp [HasEntered]

section LinksAs

variable {rule : ParentRule Time} {events : List (Event Time)} {event : Event Time}
  {thread : String} {link : Option (Option String)}

/-- An event that is no first entry of a thread leaves its link. -/
theorem LinksAs.append_singleton
    (links : LinksAs rule events thread link)
    (kept : link = none → ¬ HasEntered [event] thread) :
    LinksAs rule (events ++ [event]) thread link := by
  cases link with
  | none => exact fun entered => (hasEntered_append.mp entered).elim links (kept rfl)
  | some parent =>
      obtain ⟨front, first, later, rfl, isFirst⟩ := links
      exact ⟨front, first, later ++ [event], by rw [List.append_assoc, List.cons_append], isFirst⟩

/-- Only a thread that has entered a call is linked to a parent. -/
theorem LinksAs.hasEntered
    {parent : Option String}
    (links : LinksAs rule events thread (some parent)) :
    HasEntered events thread := by
  obtain ⟨front, first, later, rfl, isEntry, ofThread, _⟩ := links
  exact ⟨first, List.mem_append_right _ List.mem_cons_self, isEntry, ofThread⟩

end LinksAs

variable [Arithmetic Time]

section Links

variable {rule : ParentRule Time} {reconstruction : Reconstruction Time} {event : Event Time}
  {thread : String}

/-- Entries of a thread leave the links of all others. -/
theorem linkOf_enter_other
    (different : thread ≠ event.thread) :
    (reconstruction.enter rule event).linkOf thread = reconstruction.linkOf thread := by
  rw [linkOf, thread?_enter_other rule reconstruction different, linkOf]

/-- The rule is asked at the first entry of a thread and never again. -/
theorem linkOf_enter_same :
    (reconstruction.enter rule event).linkOf event.thread =
      some ((reconstruction.linkOf event.thread).getD
        (rule event.thread reconstruction.history)) := by
  cases known : reconstruction.thread? event.thread with
  | some state =>
      have entered : reconstruction.threadAtEntry rule event.thread =
          (state, reconstruction.records) := by rw [threadAtEntry, known]
      rw [linkOf, thread?, threads_enter entered, FirstSeen.find?_record_const, linkOf, known]
      rfl
  | none =>
      have entered : reconstruction.threadAtEntry rule event.thread =
          reconstruction.spawn rule event.thread := by rw [threadAtEntry, known]
      rw [linkOf, thread?, threads_enter entered, FirstSeen.find?_record_const, linkOf, known]
      rfl

/-- Exits change no link. -/
theorem linkOf_leave
    (reconstruction : Reconstruction Time)
    (event : Event Time)
    (thread : String) :
    (reconstruction.leave event).linkOf thread = reconstruction.linkOf thread := by
  unfold leave
  split
  next parent inherited ended below known =>
    by_cases same : thread = event.thread
    · rw [same, linkOf, thread?, FirstSeen.find?_record_const, linkOf, known]
      rfl
    · rw [linkOf, thread?, FirstSeen.find?_record_other same, linkOf, thread?]
  next => rfl

end Links

/-- The history has all events of the log, the last one first. -/
theorem history_ofEvents
    (rule : ParentRule Time)
    (events : List (Event Time)) :
    (ofEvents rule events).history = events.reverse := by
  induction events using List.reverseRecOn with
  | nil => rfl
  | append_singleton front event inductionHypothesis =>
      rw [ofEvents_append_singleton, List.reverse_append, ← inductionHypothesis]
      rfl

/-- After every log, each thread is linked as the rule says at its first entry. -/
theorem linksAs_ofEvents
    (rule : ParentRule Time)
    (events : List (Event Time))
    (thread : String) :
    LinksAs rule events thread ((ofEvents rule events).linkOf thread) := by
  apply ofEvents_induction fun events reconstruction =>
    LinksAs rule events thread (reconstruction.linkOf thread)
  case initial => exact fun ⟨_, member, _⟩ => absurd member List.not_mem_nil
  case unrecorded => exact fun _ _ _ links => links
  case enters =>
    intro front event isEntry links
    by_cases same : thread = event.thread
    · subst same
      rw [linkOf_enter_same, history_ofEvents]
      cases link : (ofEvents rule front).linkOf event.thread with
      | none =>
          rw [link] at links
          exact ⟨front, event, [], rfl, isEntry, rfl, links, rfl⟩
      | some parent =>
          rw [link] at links
          exact links.append_singleton fun absent => absurd absent (Option.some_ne_none parent)
    · rw [linkOf_enter_other same]
      refine links.append_singleton fun _ entered => ?_
      exact same (hasEntered_singleton.mp entered).2.symm
  case leaves =>
    intro front event isExit links
    rw [linkOf_leave]
    refine links.append_singleton fun _ entered => ?_
    rw [(hasEntered_singleton.mp entered).1] at isExit
    exact absurd isExit.symm Bool.false_ne_true

/-- A thread with a parent was linked to it by the rule, at its first entry. -/
theorem exists_firstEntry_of_parentOf
    {rule : ParentRule Time}
    {events : List (Event Time)}
    {child parent : String}
    (link : (ofEvents rule events).parentOf child = some parent) :
    ∃ front event later, events = front ++ event :: later ∧
      event.kind.isEntry = true ∧ event.thread = child ∧ ¬ HasEntered front child ∧
      rule child front.reverse = some parent := by
  have links := linksAs_ofEvents rule events child
  rwa [parentOf_eq_some_iff.mp link] at links

/-- Only threads that have entered a call have a parent. -/
theorem hasEntered_of_parentOf
    {rule : ParentRule Time}
    {events : List (Event Time)}
    {child parent : String}
    (link : (ofEvents rule events).parentOf child = some parent) :
    HasEntered events child := by
  have links := linksAs_ofEvents rule events child
  rw [parentOf_eq_some_iff.mp link] at links
  exact links.hasEntered

/-! ## Forests -/

/-- A link to a thread that does not enter before is premature. -/
theorem isPremature_of_parentOf
    {events : List (Event Time)}
    {child parent : String}
    (link : (ofEvents ParentStrategy.nearest.rule events).parentOf child = some parent)
    (entered : HasEntered events parent)
    (notBefore : firstEntry events child ≤ firstEntry events parent) :
    IsPremature events child parent := by
  obtain ⟨front, event, later, rfl, isEntry, rfl, first, named⟩ :=
    exists_firstEntry_of_parentOf link
  have different := (nearest_eq_some named).1
  rw [firstEntry_eq isEntry first] at notBefore
  have notEntered : ¬ HasEntered front parent := by
    intro early
    rw [firstEntry_append early] at notBefore
    exact absurd notBefore (Nat.not_le.mpr (firstEntry_lt_iff.mpr early))
  refine ⟨front, event, later, rfl, isEntry, rfl, first, named, notEntered, ?_⟩
  obtain early | ⟨other, member, otherEntry, ofParent⟩ := hasEntered_append.mp entered
  · exact absurd early notEntered
  · rcases List.mem_cons.mp member with rfl | behind
    · exact absurd ofParent.symm different
    · exact ⟨other, behind, otherEntry, ofParent⟩

/-- The rule is asked at the first entry of a thread alone. -/
theorem parentOf_of_isPremature
    {events : List (Event Time)}
    {child parent : String}
    (premature : IsPremature events child parent) :
    (ofEvents ParentStrategy.nearest.rule events).parentOf child = some parent := by
  obtain ⟨front, event, later, rfl, isEntry, rfl, first, named, _⟩ := premature
  have links := linksAs_ofEvents ParentStrategy.nearest.rule (front ++ event :: later) event.thread
  rw [parentOf_eq_some_iff]
  cases link : (ofEvents ParentStrategy.nearest.rule (front ++ event :: later)).linkOf
      event.thread with
  | none =>
      rw [link] at links
      exact absurd ⟨event, List.mem_append_right _ List.mem_cons_self, isEntry, rfl⟩ links
  | some asked =>
      rw [link] at links
      obtain ⟨start, other, rest, same, otherEntry, ofThread, otherFirst, answer⟩ := links
      have place : firstEntry (front ++ event :: later) event.thread = front.length :=
        firstEntry_eq isEntry first
      rw [same, ← ofThread, firstEntry_eq otherEntry (ofThread ▸ otherFirst)] at place
      obtain ⟨rfl, _⟩ := List.append_inj same place.symm
      rw [← answer, named]

/-- Under the nearest rule the parents form a forest exactly if no premature link closes a
circle, and so whenever every thread enters a call before any other event of it. -/
theorem isForest_nearest_iff (events : List (Event Time)) :
    let reconstruction := ofEvents ParentStrategy.nearest.rule events
    (reconstruction.IsForest ↔ ∀ child parent steps, IsPremature events child parent →
      reconstruction.ancestorOf parent steps ≠ some child) ∧
    (EntersFirst events → reconstruction.IsForest) := by
  intro reconstruction
  have forest_iff : reconstruction.IsForest ↔ ∀ child parent steps,
      IsPremature events child parent → reconstruction.ancestorOf parent steps ≠ some child := by
    rw [isForest_iff_acyclic]
    constructor
    · intro acyclic child parent steps premature back
      have link : reconstruction.parentOf child = some parent := parentOf_of_isPremature premature
      exact acyclic child steps ((ancestorOf_succ_of_parentOf link steps).trans back)
    · intro harmless thread steps circle
      -- the thread of the circle that enters first is linked to one that enters later
      obtain ⟨child, parent, link, notBefore, back⟩ :=
        exists_least_on_circle (firstEntry events) circle
      have different : parent ≠ child := by
        obtain ⟨_, _, _, _, _, _, _, named⟩ := exists_firstEntry_of_parentOf link
        exact (nearest_eq_some named).1
      have entered : HasEntered events parent := by
        cases steps with
        | zero => exact absurd (Option.some.inj back) different
        | succ steps =>
            obtain ⟨next, there, _⟩ := exists_ancestorOf_of_le back (Nat.succ_le_succ steps.zero_le)
            exact hasEntered_of_parentOf there
      exact harmless child parent steps (isPremature_of_parentOf link entered notBefore) back
  exact ⟨forest_iff, fun entersFirst =>
    forest_iff.mpr fun child parent _ premature _ => entersFirst.not_isPremature child parent premature⟩

/-- Three threads, each entering a call while the one before is in a call. -/
def nestedThreadsLog : List (Event Rat) :=
  [ ⟨.started, ⟨⟨"a.py", "main", 1⟩, "1"⟩, 0, none⟩,
    ⟨.started, ⟨⟨"a.py", "work", 7⟩, "2"⟩, 1, none⟩,
    ⟨.returned, ⟨⟨"a.py", "main", 1⟩, "1"⟩, 2, none⟩,
    ⟨.resumed, ⟨⟨"a.py", "work", 7⟩, "2"⟩, 3, none⟩,
    ⟨.started, ⟨⟨"a.py", "help", 9⟩, "3"⟩, 4, none⟩ ]

theorem isForest_nearest_iff_nestedThreadsLog :
    EntersFirst nestedThreadsLog ∧
    (ofEvents ParentStrategy.nearest.rule nestedThreadsLog).IsForest ∧
    (ofEvents ParentStrategy.nearest.rule nestedThreadsLog).ancestorOf "3" 2 = some "1" :=
  ⟨by decide +kernel, (isForest_nearest_iff nestedThreadsLog).2 (by decide +kernel),
    by decide +kernel⟩

/-- A log that begins within a call of the second thread, which enters its first call in the
log after the first thread has. -/
def truncatedText : String :=
  "PY_RETURN,a.py:f:1:2,0\nPY_START,a.py:f:1:1,1\nPY_START,a.py:g:2:2,2\n"

/-- The events of the truncated text. -/
def truncatedLog : List (Event Float) :=
  [ ⟨.returned, ⟨⟨"a.py", "f", 1⟩, "2"⟩, 0.0, none⟩,
    ⟨.started, ⟨⟨"a.py", "f", 1⟩, "1"⟩, 1.0, none⟩,
    ⟨.started, ⟨⟨"a.py", "g", 2⟩, "2"⟩, 2.0, none⟩ ]

/-- Of a log that can be read, two threads can be the parents of each other. -/
theorem exists_not_isForest :
    EventLog.read truncatedText = .ok truncatedLog ∧
    (ofEvents ParentStrategy.nearest.rule truncatedLog).parentOf "1" = some "2" ∧
    (ofEvents ParentStrategy.nearest.rule truncatedLog).parentOf "2" = some "1" ∧
    ¬ (ofEvents ParentStrategy.nearest.rule truncatedLog).IsForest := by
  have first : (ofEvents ParentStrategy.nearest.rule truncatedLog).parentOf "1" = some "2" := by
    decide +kernel
  have second : (ofEvents ParentStrategy.nearest.rule truncatedLog).parentOf "2" = some "1" := by
    decide +kernel
  refine ⟨by decide +kernel, first, second, fun forest => ?_⟩
  have back := (ancestorOf_succ_of_parentOf first 1).trans second
  exact isForest_iff_acyclic.mp forest "1" 1 back

end Reconstruction
end FlameProfile
