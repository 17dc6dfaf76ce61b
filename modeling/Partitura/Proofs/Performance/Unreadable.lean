import Partitura.Proofs.Performance.Reports
import Partitura.Proofs.Performance.TimePlaces

/-!
# Times that cannot be read

Performing places the times of a score one by one, and each step reports those times that
it cannot read. The reports of a whole performance that tell of such times are then one
for each of them, in the order of the score, each at the path of its place.
-/

namespace Partitura

variable {α : Type} [Scalar α]

/-- The report on a time that cannot be read. A breakpoint is left out then, and any other
time counts as zero. -/
def TimeEntry.report (e : TimeEntry α) : Diagnostic :=
  match e.place with
  | .tempo _ => .warning e.place.path ("unparseable time expression '" ++ e.time.display
      ++ "', entry skipped")
  | _ => unreadableTime e.place.path e.time

/-- The reports on those of some times that cannot be read. -/
def unreadable (quarters : α) (entries : List (TimeEntry α)) : List Diagnostic :=
  (entries.filter fun e => (e.time.amount? quarters).isNone).map TimeEntry.report

def tellsUnreadable (d : Diagnostic) : Bool :=
  decide (Opens "unparseable time expression '" d.message)

section Unreadable

variable (quarters : α)

@[simp] theorem unreadable_nil : unreadable quarters [] = [] := rfl

@[simp] theorem unreadable_append (xs ys : List (TimeEntry α)) :
    unreadable quarters (xs ++ ys) = unreadable quarters xs ++ unreadable quarters ys := by
  simp [unreadable]

theorem unreadable_flatMap {β : Type} (items : List β) (f : β → List (TimeEntry α)) :
    unreadable quarters (items.flatMap f) = items.flatMap fun x => unreadable quarters (f x) := by
  simp [unreadable, List.filter_flatMap, List.map_flatMap]

theorem unreadable_map {β : Type} (items : List β) (f : β → TimeEntry α) :
    unreadable quarters (items.map f) = items.flatMap fun x => unreadable quarters [f x] := by
  rw [List.map_eq_flatMap]
  exact unreadable_flatMap quarters items fun x => [f x]

end Unreadable

/-! ## Reports -/

def Outcome.unread {β : Type} (o : Outcome β) : List Diagnostic :=
  o.diagnostics.filter tellsUnreadable

namespace Outcome

variable {β γ : Type}

@[simp] theorem unread_pure (v : β) : (pure v : Outcome β).unread = [] := rfl

@[simp] theorem unread_bind (o : Outcome β) (f : β → Outcome γ) :
    (o >>= f).unread = o.unread ++ (f o.value).unread := List.filter_append _ _

theorem unread_collect (items : List γ) (f : γ × Nat → Outcome β) :
    (collect (items.zipIdx.map f)).unread = items.zipIdx.flatMap fun x => (f x).unread := by
  simp [unread, List.filter_flatMap, List.flatMap_map]

theorem unread_collectSome (items : List γ) (f : γ × Nat → Outcome (Option β)) :
    (collectSome (items.zipIdx.map f)).unread = items.zipIdx.flatMap fun x => (f x).unread :=
  unread_collect items f

def OtherOpening (a : String) : Prop :=
  ¬Opens a "unparseable time expression '" ∧ ¬Opens "unparseable time expression '" a

instance (a : String) : Decidable (OtherOpening a) := inferInstanceAs (Decidable (_ ∧ _))

theorem unread_noted {level : Level} {path suggestion : Option String} {a message : String}
    (ha : OtherOpening a) (hopens : Opens a message) (v : β) :
    (do note ⟨level, message, path, suggestion⟩; pure v : Outcome β).unread = [] := by
  have hother : tellsUnreadable ⟨level, message, path, suggestion⟩ = false :=
    decide_eq_false fun htells => ne_of_openings hopens htells ha rfl
  simp [unread, hother]

theorem unread_quoted {level : Level} {path suggestion : Option String} {a : String}
    (ha : OtherOpening a) (middle rest : String) (v : β) :
    (do note ⟨level, a ++ middle ++ rest, path, suggestion⟩; pure v : Outcome β).unread = [] :=
  unread_noted ha (((opens_self a).append middle).append rest) v

end Outcome

open Outcome

section Steps

variable (line : TimeLine α)

def ReportedAt (place : TimePlace) (path : String) : Prop :=
  ∀ t : WrittenTime α, (TimeEntry.mk place t).report = unreadableTime path t

omit line in
theorem reportedAt {place : TimePlace} {path : String} (hpath : place.path = path)
    (h : 0 < place.section) : ReportedAt (α := α) place path := by
  intro t
  rw [← hpath]
  cases place with
  | tempo i => exact absurd h (Nat.lt_irrefl 0)
  | meter | key | part | automation | remark => rfl

theorem unread_amount? {place : TimePlace} {path : String} (h : ReportedAt (α := α) place path)
    (t : Option (WrittenTime α)) :
    (line.amount? path t).unread = unreadable line.quarters (timeAt place t) := by
  have htells (t : WrittenTime α) : tellsUnreadable (unreadableTime path t) = true :=
    decide_eq_true (((opens_self "unparseable time expression '").append _).append _)
  cases t with
  | none => rfl
  | some t =>
    cases ht : t.amount? line.quarters with
    | none => simp [TimeLine.amount?, ht, timeAt, unreadable, unread, htells, h t]
    | some a => simp [TimeLine.amount?, ht, timeAt, unreadable]

theorem unread_position {place : TimePlace} {path : String}
    (h : ReportedAt (α := α) place path) (t : Option (WrittenTime α)) :
    (line.position path t).unread = unreadable line.quarters (timeAt place t) := by
  rw [TimeLine.position, unread_bind, unread_amount? line h]
  cases (line.amount? path t).value <;> simp

theorem unread_span {place : TimePlace} {path : String} (h : ReportedAt (α := α) place path)
    (start : α) (t : Option (WrittenTime α)) :
    (line.span path start t).unread = unreadable line.quarters (timeAt place t) := by
  rw [TimeLine.span, unread_bind, unread_amount? line h]
  cases (line.amount? path t).value <;> simp

theorem unread_tempoBreakpoint (quarters : α) (i : Nat) (p : TempoPoint α) :
    (tempoBreakpoint quarters i p).unread = unreadable quarters [⟨.tempo i, p.time⟩] := by
  unfold tempoBreakpoint
  cases ht : p.time.amount? quarters with
  | some a =>
    have hread : unreadable quarters [⟨.tempo i, p.time⟩] = [] := by simp [unreadable, ht]
    dsimp only
    split
    · rw [hread, unread_pure]
    · rw [hread]
      exact unread_quoted (a := "invalid bpm ") (by decide) _ _ _
  | none =>
    have htells : tellsUnreadable (.warning (entryPath "tempoMap" i)
        ("unparseable time expression '" ++ p.time.display ++ "', entry skipped")) = true :=
      decide_eq_true (((opens_self "unparseable time expression '").append _).append _)
    have hpath : (TimePlace.tempo i).path = entryPath "tempoMap" i := String.append_empty
    simp [unreadable, ht, unread, htells, TimeEntry.report, hpath]

theorem unread_meterChange (i : Nat) (p : MeterPoint α) :
    (meterChange line i p).unread = unreadable line.quarters (p.times i) := by
  have hplace : ReportedAt (α := α) (.meter i) (entryPath "timeSignatureMap" i) :=
    reportedAt String.append_empty (Nat.succ_pos _)
  unfold meterChange MeterPoint.times
  cases hmeter : Meter.parse? p.meter with
  | some m =>
    simp only [unread_bind, unread_position line hplace, unread_pure, List.append_nil]
    rfl
  | none =>
    exact unread_quoted (a := "unrecognized time signature '") (by decide) _ _ _

theorem unread_keyChange (i : Nat) (p : KeyPoint α) :
    (keyChange line i p).unread = unreadable line.quarters (p.times i) := by
  have hplace : ReportedAt (α := α) (.key i) (entryPath "keySignatureMap" i) :=
    reportedAt String.append_empty (Nat.succ_pos _)
  unfold keyChange KeyPoint.times
  cases hkey : Key.parse? p.key with
  | some k =>
    simp only [unread_bind, unread_position line hplace, unread_pure, List.append_nil]
    rfl
  | none =>
    exact unread_quoted (a := "unrecognized key signature '") (by decide) _ _ _

theorem unread_playModulation (i j k : Nat) (start : α) (m : Modulation α) :
    (playModulation line (entryPath "sequences" i ++ "." ++ entryPath "notes" j ++ "."
      ++ entryPath "modulations" k) start m).unread =
        unreadable line.quarters (m.times i j k) := by
  have hplace : ReportedAt (α := α) (.part i (.note j (.modulation k)))
      (entryPath "sequences" i ++ "." ++ entryPath "notes" j ++ "." ++ entryPath "modulations" k
        ++ ".time") := by
    refine reportedAt ?_ (Nat.succ_pos _)
    simp [TimePlace.path, TimePlace.list, TimePlace.entry, TimePlace.inEntry, PartPlace.path,
      NotePlace.path, String.append_assoc]
  unfold playModulation Modulation.times
  cases m.kind with
  | unknown name =>
    exact unread_quoted (a := "unknown modulation type '") (by decide) _ _ _
  | control | pitchBend | aftertouch =>
    simp only [unread_bind, unread_span line hplace, unread_pure, List.append_nil]
    rfl

theorem unread_playNote (i j : Nat) (n : Note α) :
    (playNote line (entryPath "sequences" i) j n).unread =
      unreadable line.quarters (n.times i j) := by
  have hstart : ReportedAt (α := α) (.part i (.note j .start))
      (entryPath "sequences" i ++ "." ++ entryPath "notes" j ++ ".time") := by
    refine reportedAt ?_ (Nat.succ_pos _)
    simp [TimePlace.path, TimePlace.list, TimePlace.entry, TimePlace.inEntry, PartPlace.path,
      NotePlace.path, String.append_assoc]
  have hlength : ReportedAt (α := α) (.part i (.note j .length))
      (entryPath "sequences" i ++ "." ++ entryPath "notes" j ++ ".duration") := by
    refine reportedAt ?_ (Nat.succ_pos _)
    simp [TimePlace.path, TimePlace.list, TimePlace.entry, TimePlace.inEntry, PartPlace.path,
      NotePlace.path, String.append_assoc]
  simp only [playNote, Note.times, unread_bind, unread_position line hstart,
    unread_span line hlength, unread_collectSome, unread_playModulation, unread_pure,
    unreadable_append, unreadable_flatMap, List.append_nil, List.append_assoc]

omit [Scalar α] in
theorem unread_instrumentOf (s : Score α) (path : String) (p : Part α) :
    (instrumentOf s path p).unread = [] := by
  unfold instrumentOf
  split
  · split
    · rfl
    · exact unread_quoted (a := "synthRef '") (by decide) _ _ _
  · rfl
  · rfl

omit [Scalar α] in
theorem unread_placedEffect (s : Score α) (path : String) (e : EffectRef α) :
    (placedEffect s path e).unread = [] := by
  unfold placedEffect
  split
  · split
    · rfl
    · exact unread_quoted (a := "effect '") (by decide) _ _ _
  · rfl

omit line in
theorem unread_finiteLoop (path : String) (span period : α) :
    (finiteLoop path span period).unread = [] := by
  unfold finiteLoop
  dsimp only
  split
  · refine unread_noted (a := "loop would repeat ") (by decide) ?_ _
    exact ((opens_self "loop would repeat ").append _).append _ |>.append _ |>.append _
  · rfl

theorem unread_repetitionOf (i : Nat) (p : Part α) (stop : α) :
    (repetitionOf line (entryPath "sequences" i) p stop).unread =
      unreadable line.quarters (p.loopTimes i) := by
  have hend : ReportedAt (α := α) (.part i .loopEnd) (entryPath "sequences" i ++ ".loopEnd") :=
    reportedAt rfl (Nat.succ_pos _)
  have hspan : ReportedAt (α := α) (.part i .loopSpan) (entryPath "sequences" i ++ ".loop") :=
    reportedAt rfl (Nat.succ_pos _)
  -- Whether the loop can be played is no matter of its times.
  have hplayed (period : α) (o : Outcome (Repetition α)) (ho : o.unread = []) :
      (if isPeriod period then o else do
        note (shortLoop (entryPath "sequences" i) period)
        pure .once).unread = [] := by
    split
    · exact ho
    · exact unread_noted (a := "loop length ") (by decide)
        (opens_shortLoop (entryPath "sequences" i) period) _
  unfold repetitionOf Part.loopTimes
  cases p.looping with
  | flag on =>
    cases on with
    | false => rfl
    | true =>
      cases p.loopEnd with
      | none => exact hplayed stop _ rfl
      | some t =>
        simp only [unread_bind, unread_position line hend, hplayed _ _ (unread_pure _)]
        simp [LoopSetting.isOff]
  | span t =>
    cases p.loopEnd with
    | none =>
      exact unread_noted (by decide) (opens_self "finite loop without loopEnd, played once") _
    | some loopEnd =>
      simp only [unread_bind, unread_position line hend, unread_position line hspan,
        hplayed _ _ (unread_finiteLoop _ _ _)]
      rw [List.append_nil, ← unreadable_append]
      rfl

theorem unread_playPart (s : Score α) (i : Nat) (p : Part α) :
    (playPart s line i p).unread = unreadable line.quarters (p.times i) := by
  have heffects (path : String) : (p.effects.zipIdx.flatMap fun x =>
      (placedEffect s (path ++ "." ++ entryPath "effects" x.2) x.1).unread) = [] :=
    List.flatMap_eq_nil_iff.mpr fun x _ => unread_placedEffect s _ x.1
  simp only [playPart, Part.times, unread_bind, unread_instrumentOf, unread_collectSome, heffects,
    unread_collect, unread_playNote, unread_repetitionOf, unread_pure, unreadable_append,
    unreadable_flatMap, List.append_nil, List.nil_append]

theorem unread_playAutomation (s : Score α) (i : Nat) (a : AutomationPoint α) :
    (playAutomation s line i a).unread =
      unreadable line.quarters [⟨.automation i, a.time⟩] := by
  have hplace : ReportedAt (α := α) (.automation i) (entryPath "automation" i) :=
    reportedAt String.append_empty (Nat.succ_pos _)
  simp only [playAutomation, unread_bind, unread_position line hplace, unread_pure,
    List.append_nil]
  rfl

omit line in
theorem unread_remarkKind (path : String) (kind : Option String) :
    (remarkKind path kind).unread = [] := by
  unfold remarkKind
  split
  · rfl
  · split
    · rfl
    · exact unread_quoted (a := "unknown annotation type '") (by decide) _ _ _

theorem unread_playRemark (i : Nat) (r : Remark α) :
    (playRemark line i r).unread = unreadable line.quarters [⟨.remark i, r.time⟩] := by
  have hplace : ReportedAt (α := α) (.remark i) (entryPath "annotations" i) :=
    reportedAt String.append_empty (Nat.succ_pos _)
  simp only [playRemark, unread_bind, unread_remarkKind, unread_position line hplace, unread_pure,
    List.append_nil, List.nil_append]
  rfl

end Steps

/-! ## Scores -/

theorem unread_baseTempo (bpm : Option α) : (baseTempo bpm).unread = [] := by
  unfold baseTempo
  split
  · rfl
  · split
    · rfl
    · exact unread_noted (a := "invalid bpm ") (by decide)
        (((opens_self "invalid bpm ").append _).append _ |>.append _) _

theorem unread_baseMeter (meter : Option String) : (baseMeter meter).unread = [] := by
  unfold baseMeter
  split
  · rfl
  · split
    · rfl
    · exact unread_quoted (a := "unrecognized time signature '") (by decide) _ _ _

theorem unread_baseKey (key : Option String) : (baseKey key).unread = [] := by
  unfold baseKey
  split
  · rfl
  · split
    · rfl
    · exact unread_quoted (a := "unrecognized key signature '") (by decide) _ _ _

theorem unread_playing (s : Score α) :
    s.playing.unread = unreadable (perform s).meter.quarters s.times := by
  have hmeter : (baseMeter s.meter).value = (perform s).meter := rfl
  simp only [Score.playing, Score.times, Score.sections, List.flatten_cons, List.flatten_nil,
    unread_bind, unread_baseTempo, unread_baseMeter,
    unread_baseKey, unread_collectSome, unread_collect, unread_tempoBreakpoint,
    unread_meterChange, unread_keyChange, unread_playPart, unread_playAutomation,
    unread_playRemark, unread_pure, unreadable_append, unreadable_map, unreadable_flatMap,
    List.append_nil, List.nil_append, hmeter]

/-- Performing a score reports each of its times that cannot be read: once, as a warning, and
at the path of its own place. -/
theorem unreadable_perform (s : Score α) :
    (perform s).diagnostics.filter tellsUnreadable =
      (s.times.filter fun e => (e.time.amount? (perform s).meter.quarters).isNone).map
        TimeEntry.report ∧
    (∀ e : TimeEntry α, e.report.level = .warning ∧ e.report.path = some e.place.path) ∧
    (s.times.map fun e => e.place.path).Nodup := by
  refine ⟨unread_playing s, fun e => ?_, ?_⟩
  · unfold TimeEntry.report
    split <;> exact ⟨rfl, rfl⟩
  · have hpaths : (s.times.map fun e => e.place.path) =
        (placesOf s.times).map TimePlace.path := by
      simp [placesOf]
    rw [hpaths]
    exact (nodup_times s).map TimePlace.path_injective

end Partitura
