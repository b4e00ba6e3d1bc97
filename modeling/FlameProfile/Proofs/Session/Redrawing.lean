import Mathlib
import FlameProfile.Proofs.Call.Interleaving
import FlameProfile.Proofs.Drawing.Units
import FlameProfile.Proofs.Profile.Document
import FlameProfile.Proofs.Session.Storage
import FlameProfile.Proofs.Tree.Merging
import FlameProfile.Session.Rendering

/-!
# Drawing a profile again

An analysis can draw the profile that it writes. Drawn again from its file, with the same
options, the profile comes with its own unit, while an analysis takes the unit of the
options. The two pictures are the same document exactly if these units are the same or the
options leave out every frame.
-/

namespace FlameProfile

variable {session : Session}

/-- Resources weigh something together that is finite, and their finite amounts read back. -/
structure Resource.AreDrawable (resources : List (Resource Float)) : Prop where
  positive : 0 < Stack.covered (Stack.ofResources resources)
  finite : (Stack.covered (Stack.ofResources resources)).isFinite = true
  back : ∀ resource ∈ resources, resource.amount.isFinite = true → Json.ReadsBack resource.amount

namespace Analysis

/-! ## The profile of a log -/

/-- The profile that an analysis makes of events at a time. -/
def outcome
    (analysis : Analysis)
    (events : List (Event Float))
    (now : String) : Profile Float :=
  Profile.ofResources (Reconstruction.ofEvents analysis.strategy.rule events).resources
    analysis.command analysis.workload now

variable {analysis : Analysis} {events : List (Event Float)}

/-- A profile that is made of events is drawn again in seconds. -/
theorem optionsFor_outcome
    (options : Option (DrawingOptions Float))
    (now : String) :
    Rendering.optionsFor options (analysis.outcome events now) =
      { options.getD DrawingOptions.standard with unit := timeUnit } :=
  rfl

/-- A profile of drawable resources is read back from its text. -/
theorem read_outcome
    (countable : events.length < Numeral.wordLimit 64)
    (drawable : Resource.AreDrawable
      (Reconstruction.ofEvents analysis.strategy.rule events).resources)
    (now : String) :
    Profile.read (analysis.outcome events now).write.toUTF8 =
      .ok (analysis.outcome events now) := by
  have fits : ∀ resource ∈ (analysis.outcome events now).resources,
      resource.calls < Numeral.wordLimit 64 := by
    intro resource member
    obtain ⟨⟨key, record⟩, -, rfl⟩ := List.mem_map.mp member
    refine lt_of_le_of_lt ?_ countable
    exact (Reconstruction.callCount_ofEvents _ events key.function).trans_le List.countP_le_length
  have back : ∀ resource ∈ (analysis.outcome events now).resources,
      Json.ReadsBack resource.amount := fun resource member =>
    drawable.back resource member (Stack.isFinite_amount_of_covered drawable.finite resource member)
  exact Json.decode_write (Profile.readable_toJson fits back) (Profile.ofJson_toJson fits)

/-- Drawable resources are drawn in every unit, and the pictures in two units are the same
document exactly if the units are the same or no frame is shown. -/
theorem exists_draw
    (options : DrawingOptions Float)
    {profile : Profile Float}
    (drawable : Resource.AreDrawable profile.resources) :
    ∃ (tree : Tree Float) (layout : Layout Float) (document : String -> String),
      Tree.ofStacks (Stack.ofResources profile.resources) = .ok tree ∧
      Layout.ofTree options.canvas tree tree.total = .ok layout ∧
      (∀ unit, draw { options with unit := unit } profile = .ok (document unit)) ∧
      ∀ first second,
        document first = document second ↔ first = second ∨ layout.frames = [] := by
  obtain ⟨tree, merged, total, madeOf⟩ := Tree.exists_ofStacks_ofResources profile.resources
  have finite : tree.total.isFinite = true := total ▸ drawable.finite
  have notNegative : ¬ tree.total ≤ 0 := fun negative =>
    OrderedArithmetic.lt_irrefl _ (Floating.lt_of_lt_of_le (total ▸ drawable.positive) negative)
  obtain ⟨layout, document, laidOut, drawn, same⟩ :=
    Picture.exists_ofTree options notNegative finite madeOf.started
  refine ⟨tree, layout, document, merged, laidOut, fun unit => ?_, same⟩
  rw [draw, Picture.ofStacks, merged]
  simp only [drawn]
  rfl

/-! ## Tasks that draw -/

/-- An analysis that draws writes its profile, then its picture. -/
theorem ensures_run
    {path text document : String}
    {done : Profile Float -> Session -> Prop}
    {failed : TaskFault -> Prop}
    (asked : analysis.picture = some path)
    (log : session.workspace.read analysis.log = .ok text.toUTF8)
    (accepted : EventLog.read text = .ok events)
    (drawn : draw (analysis.options.getD DrawingOptions.standard)
      (analysis.outcome events session.now) = .ok document)
    (writes : (Storage.writeProfile analysis.profile
        (analysis.outcome events session.now)).Ensures session
      (fun _ kept => (Storage.writePicture path document).Ensures kept
        (fun _ after => ∀ later, later.workspace = after.workspace →
          done (analysis.outcome events session.now) later)
        fun reason => failed (.pictureWrite reason))
      fun reason => failed (.profileWrite reason)) :
    analysis.run.Ensures session done failed := by
  rw [run, Task.ensures_bind, Task.ensures_failingWith, Storage.ensures_readLog log accepted]
  simp only [Task.ensures_bind, Task.ensures_get, Task.ensures_failingWith, asked]
  refine writes.imp (fun _ kept writesPicture => ?_) fun _ refused => refused
  rw [Task.ensures_ofResult, ← outcome, drawn]
  refine writesPicture.imp (fun _ after ended => ?_) fun _ refused => refused
  -- a summary is shown on the terminal and leaves the files as they are
  split
  next =>
    rw [Task.ensures_bind, Task.ensures_get, Task.ensures_bind]
    refine Task.ensures_forM_say _ fun later same => ?_
    rw [Task.ensures_pure]
    exact ended later same
  next => exact (Task.ensures_pure _).mpr (ended after rfl)

end Analysis

/-- Drawing a profile that is read back writes its picture. -/
theorem Rendering.ensures_run
    {rendering : Rendering}
    {content : ByteArray}
    {profile : Profile Float}
    {document : String}
    {done : Unit -> Session -> Prop}
    {failed : TaskFault -> Prop}
    (stored : session.workspace.read rendering.profile = .ok content)
    (accepted : Profile.read content = .ok profile)
    (drawn : Analysis.draw (optionsFor rendering.options profile) profile = .ok document)
    (writes : ∀ warned : Session, warned.workspace = session.workspace →
      (Storage.writePicture rendering.picture document).Ensures warned done
        fun reason => failed (.pictureWrite reason)) :
    rendering.run.Ensures session done failed := by
  rw [run, Task.ensures_bind, Task.ensures_failingWith]
  refine Storage.ensures_readProfile stored accepted fun warned same => ?_
  rw [Task.ensures_bind, Task.ensures_ofResult, drawn]
  simp only [Task.ensures_failingWith]
  exact writes warned same

/-! ## Pictures that agree -/

namespace Analysis

variable {analysis : Analysis} {events : List (Event Float)}

/-- An analysis that draws fails only in writing. Otherwise its picture is in the file that was
asked for. Unless this is the file of the profile, the profile is drawn again from its file with
the same options, failing only in writing, and the two pictures are the same document exactly if
the options have the unit of the profile or leave out every frame. -/
theorem redrawn_eq_iff
    {path text : String}
    (asked : analysis.picture = some path)
    (log : session.workspace.read analysis.log = .ok text.toUTF8)
    (accepted : EventLog.read text = .ok events)
    (countable : events.length < Numeral.wordLimit 64)
    (drawable : Resource.AreDrawable
      (Reconstruction.ofEvents analysis.strategy.rule events).resources) :
    ∃ (tree : Tree Float) (layout : Layout Float) (document redrawn : String),
      Tree.ofStacks (Stack.ofResources
        (Reconstruction.ofEvents analysis.strategy.rule events).resources) = .ok tree ∧
      Layout.ofTree (analysis.options.getD DrawingOptions.standard).canvas tree tree.total =
        .ok layout ∧
      (document = redrawn ↔
        (analysis.options.getD DrawingOptions.standard).unit = timeUnit ∨ layout.frames = []) ∧
      analysis.run.Ensures session
        (fun _ after =>
          after.workspace.read path = .ok document.toUTF8 ∧
          (after.workspace.locate (Path.names path) ≠
              after.workspace.locate (Path.names analysis.profile) →
            ∀ other,
              (Rendering.run ⟨analysis.profile, other, analysis.options⟩).Ensures after
                (fun _ later => later.workspace.read other = .ok redrawn.toUTF8)
                fun fault => ∃ reason, fault = .pictureWrite reason))
        fun fault => ∃ reason, fault = .profileWrite reason ∨ fault = .pictureWrite reason := by
  have weighs : Resource.AreDrawable (analysis.outcome events session.now).resources := drawable
  obtain ⟨tree, layout, document, merged, laidOut, drawn, same⟩ :=
    exists_draw (analysis.options.getD DrawingOptions.standard) weighs
  refine ⟨tree, layout, document (analysis.options.getD DrawingOptions.standard).unit,
    document timeUnit, merged, laidOut, same _ _, ?_⟩
  refine ensures_run asked log accepted (drawn _) ?_
  refine (Storage.ensures_writePrepared analysis.profile _).imp (fun _ kept profileWrote => ?_)
    fun reason _ => ⟨reason, .inl rfl⟩
  refine (Storage.ensures_writePrepared path _).imp (fun _ after pictureWrote => ?_)
    fun reason _ => ⟨reason, .inr rfl⟩
  rintro later unaltered
  rw [unaltered]
  refine ⟨pictureWrote.read, fun apart other => ?_⟩
  have stored := pictureWrote.kept profileWrote.read apart
  rw [← unaltered] at stored
  refine Rendering.ensures_run stored (read_outcome countable drawable session.now)
    (by rw [optionsFor_outcome]; exact drawn timeUnit) fun warned _ => ?_
  exact (Storage.ensures_writePrepared other _).imp (fun _ _ wrote => wrote.read)
    fun reason _ => ⟨reason, rfl⟩

/-- A log of one call that lasts two seconds. -/
def loneCallText : String :=
  "PY_START,a.py:f:1:1,0\nPY_RETURN,a.py:f:1:1,2\n"

/-- The events of the log of one call. -/
def loneCallLog : List (Event Float) :=
  [ ⟨.started, ⟨⟨"a.py", "f", 1⟩, "1"⟩, 0, none⟩,
    ⟨.returned, ⟨⟨"a.py", "f", 1⟩, "1"⟩, 2, none⟩ ]

/-- A session in which the log of one call is the only file. -/
def loneCallSession : Session where
  workspace := ⟨[(["run.log"], .file loneCallText.toUTF8)]⟩
  coloured := false
  now := "2024-01-01T00:00:00+00:00"
  output := ""
  warnings := []

/-- An analysis of that log whose picture counts in milliseconds. -/
def millisecondAnalysis : Analysis where
  log := "run.log"
  profile := "run.json"
  picture := some "analyzed.svg"
  options := some { DrawingOptions.standard with unit := "ms" }
  strategy := .nearest
  summary := false
  limit := 20
  command := ""
  workload := ""

theorem read_loneCallSession :
    loneCallSession.workspace.read "run.log" = .ok loneCallText.toUTF8 := by
  have located : loneCallSession.workspace.locate (Path.names "run.log") = .ok ["run.log"] :=
    Workspace.locate_plain _ (by decide +kernel)
  exact Workspace.read_eq_ok_iff.mpr ⟨by decide, _, located, rfl⟩

theorem areDrawable_loneCallLog :
    Resource.AreDrawable
      (Reconstruction.ofEvents millisecondAnalysis.strategy.rule loneCallLog).resources where
  positive := by decide +kernel
  finite := by decide +kernel
  back := by decide +kernel

theorem redrawn_eq_iff_loneCallLog :
    millisecondAnalysis.picture = some "analyzed.svg" ∧
    EventLog.read loneCallText = .ok loneCallLog ∧
    ∃ (tree : Tree Float) (layout : Layout Float) (document redrawn : String),
      Tree.ofStacks (Stack.ofResources (Reconstruction.ofEvents
        millisecondAnalysis.strategy.rule loneCallLog).resources) = .ok tree ∧
      Layout.ofTree (millisecondAnalysis.options.getD DrawingOptions.standard).canvas tree
        tree.total = .ok layout ∧
      (document = redrawn ↔
        (millisecondAnalysis.options.getD DrawingOptions.standard).unit = timeUnit ∨
          layout.frames = []) ∧
      millisecondAnalysis.run.Ensures loneCallSession
        (fun _ after =>
          after.workspace.read "analyzed.svg" = .ok document.toUTF8 ∧
          (after.workspace.locate (Path.names "analyzed.svg") ≠
              after.workspace.locate (Path.names millisecondAnalysis.profile) →
            ∀ other,
              (Rendering.run ⟨millisecondAnalysis.profile, other,
                millisecondAnalysis.options⟩).Ensures after
                (fun _ later => later.workspace.read other = .ok redrawn.toUTF8)
                fun fault => ∃ reason, fault = .pictureWrite reason))
        fun fault => ∃ reason, fault = .profileWrite reason ∨ fault = .pictureWrite reason :=
  have accepted : EventLog.read loneCallText = .ok loneCallLog := by decide +kernel
  ⟨rfl, accepted, redrawn_eq_iff rfl read_loneCallSession accepted (by decide)
    areDrawable_loneCallLog⟩

/-- With plain file names that no directory has, neither an analysis that draws nor drawing its
profile again fails. -/
theorem ensures_redrawn_plain
    {path other text document redrawn : String}
    (asked : analysis.picture = some path)
    (log : session.workspace.read analysis.log = .ok text.toUTF8)
    (accepted : EventLog.read text = .ok events)
    (countable : events.length < Numeral.wordLimit 64)
    (drawable : Resource.AreDrawable
      (Reconstruction.ofEvents analysis.strategy.rule events).resources)
    (drawn : draw (analysis.options.getD DrawingOptions.standard)
      (analysis.outcome events session.now) = .ok document)
    (drawnAgain : draw (Rendering.optionsFor analysis.options (analysis.outcome events session.now))
      (analysis.outcome events session.now) = .ok redrawn)
    (plain : ∀ name ∈ [analysis.profile, path, other],
      Path.IsPlain name ∧ session.workspace.find? [name] ≠ some .directory)
    (apart : path ≠ analysis.profile) :
    analysis.run.Ensures session
      (fun _ after =>
        after.workspace.read path = .ok document.toUTF8 ∧
        (Rendering.run ⟨analysis.profile, other, analysis.options⟩).Ensures after
          (fun _ later => later.workspace.read other = .ok redrawn.toUTF8)
          fun _ => False)
      fun _ => False := by
  simp only [List.forall_mem_cons] at plain
  obtain ⟨⟨profilePlain, profileFree⟩, ⟨picturePlain, pictureFree⟩, ⟨otherPlain, otherFree⟩, -⟩ :=
    plain
  refine ensures_run asked log accepted drawn ?_
  refine (Storage.ensures_writePrepared_plain profilePlain profileFree _).imp
    (fun _ kept ⟨profileWrote, keptFree⟩ => ?_) fun _ impossible => impossible
  refine (Storage.ensures_writePrepared_plain picturePlain (keptFree _ pictureFree) _).imp
    (fun _ after ⟨pictureWrote, afterFree⟩ => ?_) fun _ impossible => impossible
  rintro later unaltered
  rw [unaltered]
  have elsewhere : after.workspace.locate (Path.names path) ≠
      after.workspace.locate (Path.names analysis.profile) := by
    rw [Workspace.locate_plain _ picturePlain, Workspace.locate_plain _ profilePlain]
    simpa using apart
  have stored := pictureWrote.kept profileWrote.read elsewhere
  have vacant := afterFree _ (keptFree _ otherFree)
  rw [← unaltered] at stored vacant
  refine ⟨pictureWrote.read, Rendering.ensures_run stored
    (read_outcome countable drawable session.now) drawnAgain fun warned same => ?_⟩
  rw [← same] at vacant
  exact (Storage.ensures_writePrepared_plain otherPlain vacant _).imp
    (fun _ _ wrote => wrote.1.read) fun _ impossible => impossible

/-- The picture of the log of one call shows frames. -/
theorem frames_ne_nil_loneCallLog
    {tree : Tree Float}
    {layout : Layout Float}
    (merged : Tree.ofStacks (Stack.ofResources (Reconstruction.ofEvents
      millisecondAnalysis.strategy.rule loneCallLog).resources) = .ok tree)
    (laidOut : Layout.ofTree (millisecondAnalysis.options.getD DrawingOptions.standard).canvas tree
      tree.total = .ok layout) :
    layout.frames ≠ [] := by
  have computed : ((Tree.ofStacks (Stack.ofResources (Reconstruction.ofEvents
      millisecondAnalysis.strategy.rule loneCallLog).resources)).toOption.bind fun tree =>
      (Layout.ofTree (millisecondAnalysis.options.getD DrawingOptions.standard).canvas tree
        tree.total).toOption.map fun layout => layout.frames.isEmpty) = some false := by
    decide +kernel
  simp only [merged, laidOut, Except.toOption, Option.bind_some, Option.map_some,
    Option.some.injEq] at computed
  exact List.isEmpty_eq_false_iff.mp computed

/-- The picture that an analysis in milliseconds writes is not the one that is drawn from its
profile with the same options, although the analysis is valid and nothing fails. -/
theorem exists_redrawn_ne :
    EventLog.read loneCallText = .ok loneCallLog ∧
    Resource.AreDrawable
      (Reconstruction.ofEvents millisecondAnalysis.strategy.rule loneCallLog).resources ∧
    millisecondAnalysis.validate loneCallSession.workspace = .ok () ∧
    ∃ document redrawn : String,
      document ≠ redrawn ∧
      millisecondAnalysis.run.Ensures loneCallSession
        (fun _ after =>
          after.workspace.read "analyzed.svg" = .ok document.toUTF8 ∧
          (Rendering.run ⟨"run.json", "redrawn.svg", millisecondAnalysis.options⟩).Ensures after
            (fun _ later => later.workspace.read "redrawn.svg" = .ok redrawn.toUTF8)
            fun _ => False)
        fun _ => False := by
  have accepted : EventLog.read loneCallText = .ok loneCallLog := by decide +kernel
  have drawable : Resource.AreDrawable
    (millisecondAnalysis.outcome loneCallLog loneCallSession.now).resources :=
      areDrawable_loneCallLog
  obtain ⟨tree, layout, document, merged, laidOut, drawn, same⟩ :=
    exists_draw (millisecondAnalysis.options.getD DrawingOptions.standard) drawable
  have shown : layout.frames ≠ [] := frames_ne_nil_loneCallLog merged laidOut
  refine ⟨accepted, areDrawable_loneCallLog, by decide +kernel, document "ms", document timeUnit,
    ?_, ?_⟩
  · rw [Ne, same]
    exact not_or.mpr ⟨by decide, shown⟩
  have plain : ∀ name ∈ ["run.json", "analyzed.svg", "redrawn.svg"], Path.IsPlain name := by
    decide +kernel
  have free : ∀ name ∈ ["run.json", "analyzed.svg", "redrawn.svg"],
      loneCallSession.workspace.find? [name] ≠ some .directory := by
    simp only [List.forall_mem_cons]
    exact ⟨nofun, nofun, nofun, nofun⟩
  exact ensures_redrawn_plain rfl read_loneCallSession accepted (by decide) areDrawable_loneCallLog
    (drawn "ms") (by rw [optionsFor_outcome]; exact drawn timeUnit)
    (fun name member => ⟨plain name member, free name member⟩) (by decide)

end Analysis

end FlameProfile
