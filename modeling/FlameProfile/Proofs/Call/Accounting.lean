import Mathlib
import FlameProfile.Arithmetic.Rational
import FlameProfile.Proofs.Call.Enclosure
import FlameProfile.Proofs.Call.Matching
import FlameProfile.Proofs.FirstSeen
import FlameProfile.Resource

/-!
# Accounting for time

Where the clock of a thread never goes back, the calls directly inside of a call
follow each other within it, so they take between none and all of its time. The
part that they leave is the exclusive time of the call, but for the least time
that every completed call is charged, so that no amount is zero. Summed over a call
and everything inside of it, the parts left are the time of the call: what a callee
takes away from its caller it accounts for itself.
-/

namespace FlameProfile

/-- The time that every call is charged at least is positive. -/
theorem CallRecord.leastTime_pos : (0 : Rat) < CallRecord.leastTime := by
  rw [CallRecord.leastTime]
  norm_num

namespace Bracket

/-- Every completed call is charged at least the least time. -/
theorem leastTime_le_exclusive_record
    (own : List (Event Rat))
    (bracket : Bracket Rat) :
    CallRecord.leastTime ≤ (record own bracket).exclusive := by
  have inRange : CallRecord.leastTime ≤
      Arithmetic.larger bracket.elapsed CallRecord.leastTime := by
    rw [Arithmetic.larger, if_pos le_rfl]
    split_ifs with shorter
    · exact le_rfl
    · exact not_lt.mp shorter
  rw [record, Arithmetic.clamp]
  split_ifs with below above
  · exact le_rfl
  · exact inRange
  · exact not_lt.mp below

/-- Times never go back from one event of a log to a later one. -/
def Timely (own : List (Event Rat)) : Prop :=
  own.Pairwise fun earlier later => earlier.time ≤ later.time

/-- The clock of a thread never goes back if it does not do so between any two of
its events in the whole log. -/
theorem timely_thread
    {events : List (Event Rat)}
    (timely : events.Pairwise fun earlier later =>
      earlier.thread = later.thread → earlier.time ≤ later.time)
    (thread : String) :
    Timely (events.filter fun event => event.thread = thread) := by
  apply (timely.filter _).imp_of_mem
  intro earlier later earlierMember laterMember inOrder
  have earlierOwn := of_decide_eq_true (List.mem_filter.mp earlierMember).2
  have laterOwn := of_decide_eq_true (List.mem_filter.mp laterMember).2
  exact inOrder (earlierOwn.trans laterOwn.symm)

/-! ## Time inside of a call -/

section Timely

variable {own : List (Event Rat)} {outer bracket : Bracket Rat}

/-- Later events of a timely log have no earlier times. -/
theorem Timely.time_le
    {first second : PlacedEvent Rat}
    (timely : Timely own)
    (firstMember : first ∈ own.zipIdx)
    (secondMember : second ∈ own.zipIdx)
    (order : first.2 ≤ second.2) :
    first.1.time ≤ second.1.time := by
  rw [List.mem_zipIdx_iff_getElem?] at firstMember secondMember
  rcases order.eq_or_lt with same | less
  · rw [same, secondMember, Option.some.injEq] at firstMember
    rw [firstMember]
  · obtain ⟨firstBound, firstIs⟩ := List.getElem?_eq_some_iff.mp firstMember
    obtain ⟨secondBound, secondIs⟩ := List.getElem?_eq_some_iff.mp secondMember
    rw [← firstIs, ← secondIs]
    exact List.pairwise_iff_getElem.mp timely first.2 second.2 firstBound secondBound less

/-- The time of brackets is the sum of their times. -/
theorem sum_eq (brackets : List (Bracket Rat)) :
    sum brackets = (brackets.map elapsed).sum := by
  rw [sum, List.sum_eq_foldl, List.foldl_map]

/-- In a timely log no bracket takes less than no time. -/
theorem Timely.elapsed_nonneg
    (timely : Timely own)
    (member : bracket ∈ ofLog own) :
    0 ≤ bracket.elapsed := by
  obtain ⟨entry, exit⟩ := placed_of_mem_ofLog member
  exact sub_nonneg.mpr (timely.time_le entry exit (mem_ofLog member).2.2.le)

/-- Brackets that follow each other take no more time than passes from a moment
before all of them to one behind all of them. -/
theorem Timely.sum_le
    {stop : PlacedEvent Rat}
    (timely : Timely own)
    (stopMember : stop ∈ own.zipIdx)
    (brackets : List (Bracket Rat))
    (members : ∀ bracket ∈ brackets, bracket ∈ ofLog own)
    (successive : brackets.Pairwise fun first second => first.exit.2 < second.entry.2)
    (early : ∀ bracket ∈ brackets, bracket.exit.2 ≤ stop.2)
    {start : PlacedEvent Rat}
    (startMember : start ∈ own.zipIdx)
    (late : ∀ bracket ∈ brackets, start.2 ≤ bracket.entry.2)
    (order : start.2 ≤ stop.2) :
    sum brackets ≤ stop.1.time - start.1.time := by
  rw [sum_eq]
  induction brackets generalizing start with
  | nil => exact sub_nonneg.mpr (timely.time_le startMember stopMember order)
  | cons first rest inductionHypothesis =>
      rw [List.forall_mem_cons] at members early late
      rw [List.pairwise_cons] at successive
      obtain ⟨entry, exit⟩ := placed_of_mem_ofLog members.1
      have remaining := inductionHypothesis members.2 successive.2 early.2 exit
        (fun bracket member => (successive.1 bracket member).le) early.1
      have begins := timely.time_le startMember entry late.1
      rw [List.map_cons, List.sum_cons, elapsed]
      linarith

/-- In a timely log the calls inside of another take no less than no time. -/
theorem Timely.nested_nonneg
    (timely : Timely own)
    (outer : Bracket Rat) :
    0 ≤ sum (inside own outer) := by
  rw [sum_eq]
  apply List.sum_nonneg
  intro time member
  obtain ⟨bracket, direct, rfl⟩ := List.mem_map.mp member
  exact timely.elapsed_nonneg (mem_inside.mp direct).1

/-- The direct callees of a call take no more time than the call itself. -/
theorem Timely.nested_le_elapsed
    (timely : Timely own)
    (member : outer ∈ ofLog own) :
    sum (inside own outer) ≤ outer.elapsed := by
  obtain ⟨entry, exit⟩ := placed_of_mem_ofLog member
  have around : ∀ bracket ∈ inside own outer, outer.encloses bracket = true :=
    fun bracket direct => (mem_inside.mp direct).2.1
  exact timely.sum_le exit (inside own outer) (fun bracket direct => (mem_inside.mp direct).1)
    (pairwise_inside own outer)
    (fun bracket direct => (encloses_iff.mp (around bracket direct)).2.le) entry
    (fun bracket direct => (encloses_iff.mp (around bracket direct)).1.le)
    (mem_ofLog member).2.2.le

/-- The exclusive time is the time that no direct callee took, if need be raised
to the least time. -/
theorem Timely.exclusive_record
    (timely : Timely own)
    (outer : Bracket Rat) :
    (record own outer).exclusive =
      max (outer.elapsed - sum (inside own outer)) CallRecord.leastTime := by
  have nonneg := timely.nested_nonneg outer
  have larger : outer.elapsed - sum (inside own outer) ≤
      Arithmetic.larger outer.elapsed CallRecord.leastTime := by
    rw [Arithmetic.larger, if_pos le_rfl]
    split_ifs <;> linarith
  rw [record, Arithmetic.clamp]
  split_ifs with below above
  · exact (max_eq_right below.le).symm
  · exact absurd above (not_lt.mpr larger)
  · exact (max_eq_left (not_lt.mp below)).symm

/-! ## Time of a call and of everything inside of it -/

/-- What is left of the time of a call and of the calls inside of it, once each of
them has paid for its direct callees, is the time of the call. -/
theorem sum_own_time
    (member : outer ∈ ofLog own) :
    ((outer :: enclosed own outer).map fun bracket =>
      bracket.elapsed - sum (inside own bracket)).sum = outer.elapsed := by
  have direct : ((outer :: enclosed own outer).map fun bracket => sum (inside own bracket)).sum =
      ((enclosed own outer).map elapsed).sum := by
    rw [← ((flatMap_inside_perm member).map elapsed).sum_eq, List.map_flatMap, List.flatMap_def,
      List.sum_flatten, List.map_map]
    simp only [sum_eq, Function.comp_def]
  have parts := List.sum_map_add (l := outer :: enclosed own outer)
    (f := fun bracket => bracket.elapsed - sum (inside own bracket))
    (g := fun bracket => sum (inside own bracket))
  simp only [sub_add_cancel] at parts
  rw [direct, List.map_cons, List.sum_cons] at parts
  exact (add_right_cancel parts).symm

/-- The exclusive times of a call and of everything inside of it are its time, and
the least time at most for each of them. -/
theorem Timely.sum_exclusive
    (timely : Timely own)
    (member : outer ∈ ofLog own) :
    outer.elapsed ≤ ((outer :: enclosed own outer).map fun bracket =>
        (record own bracket).exclusive).sum ∧
      ((outer :: enclosed own outer).map fun bracket => (record own bracket).exclusive).sum ≤
        outer.elapsed + CallRecord.leastTime * (outer :: enclosed own outer).length := by
  have least := CallRecord.leastTime_pos
  rw [← sum_own_time member]
  constructor
  · apply List.sum_le_sum
    intro bracket _
    rw [timely.exclusive_record bracket]
    exact le_max_left _ _
  · rw [mul_comm, ← nsmul_eq_mul, ← List.sum_replicate, ← List.map_const', ← List.sum_map_add]
    apply List.sum_le_sum
    intro bracket within
    have lasts := timely.nested_le_elapsed (mem_ofLog_of_mem_family member within)
    rw [timely.exclusive_record bracket]
    apply max_le <;> linarith

end Timely

/-! ## Brackets of a key -/

variable {Time : Type}

/-- The brackets of the matched entries of a key, in the order of the log. -/
def matched
    (own : List (Event Time))
    (key : EventKey) : List (Bracket Time) :=
  ((entries own).filter fun entry => entry.1.key = key).filterMap fun entry => find? own entry.2

/-- The brackets matched for a key are of calls with that key. -/
theorem key_of_mem_matched
    {own : List (Event Time)}
    {key : EventKey}
    {bracket : Bracket Time}
    (member : bracket ∈ matched own key) :
    bracket.entry.1.key = key := by
  obtain ⟨entry, entryMember, found⟩ := List.mem_filterMap.mp member
  obtain ⟨isEntry, same⟩ := List.mem_filter.mp entryMember
  have isMember := mem_of_find? found
  rw [eq_of_position_eq (mem_ofLog isMember).1 isEntry (position_of_find? found)]
  exact of_decide_eq_true same

/-- The brackets matched for a key are among those of the log. -/
theorem mem_ofLog_of_mem_matched
    {own : List (Event Time)}
    {key : EventKey}
    {bracket : Bracket Time}
    (member : bracket ∈ matched own key) :
    bracket ∈ ofLog own := by
  obtain ⟨entry, _, found⟩ := List.mem_filterMap.mp member
  exact mem_of_find? found

/-- Each entry is matched once. -/
theorem nodup_matched
    (own : List (Event Time))
    (key : EventKey) :
    (matched own key).Nodup := by
  refine List.pairwise_filterMap.mpr (((pairwise_entries own).filter _).imp ?_)
  rintro first second less bracket found other otherFound rfl
  rw [← position_of_find? found, ← position_of_find? otherFound] at less
  exact lt_irrefl _ less

/-- Every bracket of the log is matched for the key of its entry. -/
theorem mem_matched
    {own : List (Event Time)}
    {bracket : Bracket Time}
    (member : bracket ∈ ofLog own) :
    bracket ∈ matched own bracket.entry.1.key := by
  have found : find? own bracket.entry.2 = some bracket := by
    cases isFound : find? own bracket.entry.2 with
    | none =>
        rw [find?, List.find?_eq_none] at isFound
        exact absurd (decide_eq_true rfl) (isFound bracket member)
    | some other =>
        rw [eq_of_entry_eq (mem_of_find? isFound) member (position_of_find? isFound)]
  exact List.mem_filterMap.mpr
    ⟨bracket.entry, List.mem_filter.mpr ⟨(mem_ofLog member).1, decide_eq_true rfl⟩, found⟩

end Bracket

/-! ## Calls of whole logs -/

/-- Values that are related to distinct others are a function of them. -/
theorem exists_map_of_forall₂
    {First Second : Type}
    {related : First → Second → Prop}
    {firsts : List First}
    {seconds : List Second}
    (fallback : Second → First)
    (pairs : List.Forall₂ related firsts seconds)
    (distinct : seconds.Nodup) :
    ∃ choice : Second → First,
      firsts = seconds.map choice ∧ ∀ second ∈ seconds, related (choice second) second := by
  classical
  induction pairs with
  | nil => exact ⟨fallback, rfl, by simp⟩
  | @cons first second firsts seconds isRelated _ inductionHypothesis =>
      obtain ⟨fresh, distinctRest⟩ := List.nodup_cons.mp distinct
      obtain ⟨choice, firstsAre, choiceRelated⟩ := inductionHypothesis distinctRest
      have unchanged : ∀ other ∈ seconds,
          Function.update choice second first other = choice other :=
        fun other member => Function.update_of_ne (ne_of_mem_of_not_mem member fresh) _ _
      refine ⟨Function.update choice second first, ?_, ?_⟩
      · rw [List.map_cons, Function.update_self, firstsAre, List.map_congr_left unchanged]
      · rw [List.forall_mem_cons, Function.update_self]
        refine ⟨isRelated, fun other member => ?_⟩
        rw [unchanged other member]
        exact choiceRelated other member

namespace Reconstruction

section Calls

variable {Time : Type} [Arithmetic Time]

/-- The calls of a key are given by the brackets of the key. -/
theorem exists_callOf_key
    (rule : ParentRule Time)
    (events : List (Event Time))
    (key : EventKey) :
    ∃ callOf : Bracket Time → CallRecord Time,
      (ofEvents rule events).callsOf key =
        (Bracket.matched (events.filter fun event => event.thread = key.thread) key).map callOf ∧
      ∀ bracket ∈ Bracket.matched (events.filter fun event => event.thread = key.thread) key,
        ∃ inherited, callOf bracket =
          (Bracket.record (events.filter fun event => event.thread = key.thread) bracket).within
            inherited := by
  obtain ⟨numbers, mirrors⟩ := exists_mirrors rule events key.thread
  have calls := mirrors.callsOf rfl
  rw [(Bracket.isLedgerOf_ofEvents _).callsOf, Bracket.callsOf, ← List.map_filterMap,
    List.forall₂_map_right_iff] at calls
  obtain ⟨callOf, callsAre, recorded⟩ := exists_map_of_forall₂ (Bracket.record events) calls
    (Bracket.nodup_matched _ key)
  refine ⟨callOf, callsAre, fun bracket member => ?_⟩
  obtain ⟨inherited, _, same⟩ := recorded bracket member
  exact ⟨inherited, same⟩

/-- The calls of a log are given by its brackets. -/
theorem exists_callOf
    (rule : ParentRule Time)
    (events : List (Event Time)) :
    ∃ callOf : Bracket Time → CallRecord Time,
      (∀ key, (ofEvents rule events).callsOf key =
        (Bracket.matched (events.filter fun event => event.thread = key.thread) key).map callOf) ∧
      ∀ thread, ∀ bracket ∈ Bracket.ofLog (events.filter fun event => event.thread = thread),
        ∃ inherited, callOf bracket =
          (Bracket.record (events.filter fun event => event.thread = thread) bracket).within
            inherited := by
  choose choice callsAre recorded using exists_callOf_key rule events
  refine ⟨fun bracket => choice bracket.entry.1.key bracket, ?_, ?_⟩
  · intro key
    rw [callsAre key]
    apply List.map_congr_left
    intro bracket member
    rw [Bracket.key_of_mem_matched member]
  · intro thread bracket member
    have placed := List.mem_of_mem_filter (Bracket.mem_ofLog member).1
    have isOwn := List.mem_filter.mp (List.fst_mem_of_mem_zipIdx placed)
    have sameThread : bracket.entry.1.key.thread = thread := of_decide_eq_true isOwn.2
    rw [← sameThread] at member ⊢
    exact recorded _ bracket (Bracket.mem_matched member)

/-- A completed call is a bracket in the log of its thread. -/
theorem exists_bracket
    {rule : ParentRule Time}
    {events : List (Event Time)}
    {key : EventKey}
    {call : CallRecord Time}
    (member : call ∈ (ofEvents rule events).callsOf key) :
    ∃ bracket ∈ Bracket.ofLog (events.filter fun event => event.thread = key.thread),
      ∃ inherited, call =
        (Bracket.record (events.filter fun event => event.thread = key.thread) bracket).within
          inherited := by
  obtain ⟨callOf, callsAre, recorded⟩ := exists_callOf rule events
  rw [callsAre key] at member
  obtain ⟨bracket, bracketMember, rfl⟩ := List.mem_map.mp member
  have inLog := Bracket.mem_ofLog_of_mem_matched bracketMember
  exact ⟨bracket, inLog, recorded key.thread bracket inLog⟩

/-- An event keeps the keys of all calls different. -/
theorem nodup_keys_step
    {reconstruction : Reconstruction Time}
    (distinct : (FirstSeen.keys reconstruction.calls).Nodup)
    (rule : ParentRule Time)
    (event : Event Time) :
    (FirstSeen.keys (reconstruction.step rule event).calls).Nodup := by
  rw [step]
  split
  next => exact FirstSeen.nodup_keys_record distinct _ _ _
  next => rwa [calls_leave]

/-- Every key is listed once. -/
theorem nodup_keys
    (rule : ParentRule Time)
    (events : List (Event Time)) :
    (FirstSeen.keys (ofEvents rule events).calls).Nodup := by
  induction events using List.reverseRecOn with
  | nil => exact List.nodup_nil
  | append_singleton front event inductionHypothesis =>
      rw [ofEvents_append_singleton]
      exact nodup_keys_step inductionHypothesis rule event

/-- The completed calls of a log are the calls of its keys. -/
theorem mem_completed_iff
    {rule : ParentRule Time}
    {events : List (Event Time)}
    {key : EventKey}
    {record : CallRecord Time} :
    (key, record) ∈ (ofEvents rule events).completed ↔
      record ∈ (ofEvents rule events).callsOf key := by
  constructor
  · intro member
    obtain ⟨⟨other, numbers⟩, entryMember, isRecord⟩ := List.mem_flatMap.mp member
    obtain ⟨found, foundMember, same⟩ := List.mem_map.mp isRecord
    obtain ⟨rfl, rfl⟩ := Prod.mk.inj same
    have isEntry := (FirstSeen.find?_eq_some_iff (nodup_keys rule events)).mpr entryMember
    rw [callsOf, isEntry]
    exact foundMember
  · intro member
    rw [callsOf] at member
    cases isEntry : FirstSeen.find? key (ofEvents rule events).calls with
    | none =>
        rw [isEntry] at member
        exact absurd member List.not_mem_nil
    | some numbers =>
        rw [isEntry] at member
        have entryMember := (FirstSeen.find?_eq_some_iff (nodup_keys rule events)).mp isEntry
        exact List.mem_flatMap.mpr ⟨(key, numbers), entryMember, List.mem_map_of_mem member⟩

end Calls

/-- In exact arithmetic every resource of a log has a positive amount. -/
theorem amount_pos_of_mem_resources
    {rule : ParentRule Rat}
    {events : List (Event Rat)}
    {resource : Resource Rat}
    (member : resource ∈ (ofEvents rule events).resources) :
    0 < resource.amount := by
  obtain ⟨⟨key, call⟩, completed, rfl⟩ := List.mem_map.mp member
  obtain ⟨bracket, _, inherited, rfl⟩ := exists_bracket (mem_completed_iff.mp completed)
  exact CallRecord.leastTime_pos.trans_le (Bracket.leastTime_le_exclusive_record _ bracket)

/-- Time is neither lost nor counted twice. Where the clock of no thread goes back,
the exclusive times of a completed call and of all calls inside of it add up to the
time from its start to its end, and to no more than the least time above it for
each of these calls. -/
theorem sum_exclusive_enclosed
    (rule : ParentRule Rat)
    (events : List (Event Rat))
    (timely : events.Pairwise fun earlier later =>
      earlier.thread = later.thread → earlier.time ≤ later.time) :
    ∃ callOf : Bracket Rat → CallRecord Rat,
      (∀ key, (ofEvents rule events).callsOf key =
        (Bracket.matched (events.filter fun event => event.thread = key.thread) key).map callOf) ∧
      ∀ thread, ∀ outer ∈ Bracket.ofLog (events.filter fun event => event.thread = thread),
        let family := outer ::
          Bracket.enclosed (events.filter fun event => event.thread = thread) outer
        ∃ finish, (callOf outer).finish = some finish ∧
          finish - (callOf outer).start ≤ (family.map fun call => (callOf call).exclusive).sum ∧
          (family.map fun call => (callOf call).exclusive).sum ≤
            finish - (callOf outer).start + CallRecord.leastTime * family.length := by
  obtain ⟨callOf, callsAre, recorded⟩ := exists_callOf rule events
  refine ⟨callOf, callsAre, ?_⟩
  intro thread outer member family
  have exclusive : (family.map fun call => (callOf call).exclusive) =
      family.map fun call =>
        (Bracket.record (events.filter fun event => event.thread = thread) call).exclusive := by
    apply List.map_congr_left
    intro call within
    obtain ⟨inherited, same⟩ := recorded thread call (Bracket.mem_ofLog_of_mem_family member within)
    rw [same]
    rfl
  obtain ⟨inherited, same⟩ := recorded thread outer member
  rw [exclusive, same]
  exact ⟨outer.exit.1.time, rfl, (Bracket.timely_thread timely thread).sum_exclusive member⟩

/-- Two threads with clocks of their own: one resumes a generator, the other starts
inside of it and fails. -/
def interleavedLog : List (Event Rat) :=
  [ ⟨.started, ⟨⟨"a.py", "main", 1⟩, "1"⟩, 0, none⟩,
    ⟨.resumed, ⟨⟨"a.py", "items", 5⟩, "1"⟩, 1, none⟩,
    ⟨.started, ⟨⟨"b.py", "work", 1⟩, "2"⟩, -7, none⟩,
    ⟨.yielded, ⟨⟨"a.py", "items", 5⟩, "1"⟩, 1, none⟩,
    ⟨.unwound, ⟨⟨"b.py", "work", 1⟩, "2"⟩, -3, some "ValueError"⟩,
    ⟨.returned, ⟨⟨"a.py", "main", 1⟩, "1"⟩, 4, none⟩ ]

theorem sum_exclusive_enclosed_interleavedLog :
    (interleavedLog.Pairwise fun earlier later =>
      earlier.thread = later.thread → earlier.time ≤ later.time) ∧
    ∃ callOf : Bracket Rat → CallRecord Rat,
      (∀ key, (ofEvents ParentStrategy.nearest.rule interleavedLog).callsOf key =
        (Bracket.matched (interleavedLog.filter fun event => event.thread = key.thread) key).map
          callOf) ∧
      ∀ thread, ∀ outer ∈
          Bracket.ofLog (interleavedLog.filter fun event => event.thread = thread),
        let family := outer ::
          Bracket.enclosed (interleavedLog.filter fun event => event.thread = thread) outer
        ∃ finish, (callOf outer).finish = some finish ∧
          finish - (callOf outer).start ≤ (family.map fun call => (callOf call).exclusive).sum ∧
          (family.map fun call => (callOf call).exclusive).sum ≤
            finish - (callOf outer).start + CallRecord.leastTime * family.length := by
  have timely : interleavedLog.Pairwise fun earlier later =>
      earlier.thread = later.thread → earlier.time ≤ later.time := by decide +kernel
  exact ⟨timely, sum_exclusive_enclosed ParentStrategy.nearest.rule interleavedLog timely⟩

end Reconstruction
end FlameProfile
