import Partitura.Proofs.Controllers
import Partitura.Settings.Load

/-!
# What settings that are loaded keep to

Whatever files and variables settings come from, their numbers fit the fields that hold them, and
their controllers are in order and have the usual ones among them. Variables change no
controllers, and none of them can put a number out of its bounds.
-/

namespace Partitura.Settings

variable {α : Type}

/-- Settings whose numbers a document can give. -/
structure Bounded (s : Settings α) : Prop where
  pitch : s.midi.defaultPitch ≤ 255
  reference : s.tune.reference ≤ 4294967295
  controllers : s.controllers.Tidy

/-- Settings that can be loaded. -/
structure Settled (s : Settings α) : Prop extends Bounded s where
  ticks : isTickCount s.midi.ticksPerBeat = true
  merged : ControllerMap.standard.merge s.controllers = s.controllers

theorem bounded_standard : (standard : Settings α).Bounded :=
  ⟨(by decide : MidiSection.standard.defaultPitch ≤ 255),
    (by decide : TuneSection.standard.reference ≤ 4294967295), ControllerMap.tidy_standard⟩

/-! ## Settings of a table -/

section Reading

variable [Scalar α]

open Json

theorem midi_read_ok {j : Json α} {m : MidiSection} (h : MidiSection.read j = .ok m) :
    m.defaultPitch ≤ 255 := by
  refine asRecord_ok_of_any (Q := fun m => m.defaultPitch ≤ 255)
    (fun m : MidiSection => m.defaultPitch ≤ 255) (by decide) ?_ ?_ h
  · intro d name j d' hd hput
    split at hput
    · obtain ⟨n, -, hput⟩ := bind_ok hput
      cases hput
      exact hd
    · obtain ⟨n, hn, hput⟩ := bind_ok hput
      cases hput
      exact Int.ofNat_le.mp (natural_ok hn)
    · cases hput
      exact hd
  · rintro d _ hd ⟨⟩
    exact hd

theorem tune_read_ok {j : Json α} {t : TuneSection} (h : TuneSection.read j = .ok t) :
    t.reference ≤ 4294967295 := by
  refine asRecord_ok_of_any (Q := fun t => t.reference ≤ 4294967295)
    (fun t : TuneSection => t.reference ≤ 4294967295) (by decide) ?_ ?_ h
  · intro d name j d' hd hput
    split at hput
    · obtain ⟨n, hn, hput⟩ := bind_ok hput
      cases hput
      exact Int.ofNat_le.mp (natural_ok hn)
    · obtain ⟨n, -, hput⟩ := bind_ok hput
      cases hput
      exact hd
    · obtain ⟨n, -, hput⟩ := bind_ok hput
      cases hput
      exact hd
    · cases hput
      exact hd
  · rintro d _ hd ⟨⟩
    exact hd

theorem bounded_read {j : Json α} {s : Settings α} (h : read j = .ok s) : s.Bounded := by
  refine asRecord_ok_of_any Bounded bounded_standard ?_ ?_ h
  · intro d name j d' hd hput
    split at hput
    · obtain ⟨log, -, hput⟩ := bind_ok hput
      cases hput
      exact ⟨hd.pitch, hd.reference, hd.controllers⟩
    · obtain ⟨midi, hmidi, hput⟩ := bind_ok hput
      cases hput
      exact ⟨midi_read_ok hmidi, hd.reference, hd.controllers⟩
    · obtain ⟨tune, htune, hput⟩ := bind_ok hput
      cases hput
      exact ⟨hd.pitch, tune_read_ok htune, hd.controllers⟩
    · obtain ⟨script, -, hput⟩ := bind_ok hput
      cases hput
      exact ⟨hd.pitch, hd.reference, hd.controllers⟩
    · obtain ⟨controllers, hcontrollers, hput⟩ := bind_ok hput
      cases hput
      exact ⟨hd.pitch, hd.reference, tidy_read hcontrollers⟩
    · cases hput
      exact hd
  · rintro d _ hd ⟨⟩
    exact hd

theorem settled_of_table {origin : String} {table : Sorted (Toml α)} {s : Settings α}
    (h : settingsOfTable origin table = .ok s) : s.Settled := by
  unfold settingsOfTable at h
  split at h
  · cases h
  · next found hread =>
    split at h
    · next hticks =>
      cases h
      obtain ⟨hpitch, hreference, hcontrollers⟩ := bounded_read hread
      exact ⟨⟨hpitch, hreference, ControllerMap.tidy_standard.merge hcontrollers⟩, hticks,
        ControllerMap.merge_merge ControllerMap.tidy_standard hcontrollers⟩
    · cases h

end Reading

/-! ## Variables -/

theorem Settled.apply {s s' : Settings α} (h : s.Settled) {o : Override α} (ho : o ∈ overrides)
    {v : String} (hs : o.apply v s = some s') : s'.Settled := by
  obtain ⟨⟨hpitch, hreference, hcontrollers⟩, hticks, hmerged⟩ := h
  simp only [overrides, List.mem_cons, List.not_mem_nil, or_false] at ho
  rcases ho with rfl | rfl | rfl | rfl | rfl | rfl
  · cases hs
    exact ⟨⟨hpitch, hreference, hcontrollers⟩, hticks, hmerged⟩
  · cases hs
    exact ⟨⟨hpitch, hreference, hcontrollers⟩, hticks, hmerged⟩
  · obtain ⟨n, -, hs⟩ := Option.bind_eq_some_iff.mp hs
    split at hs
    · next hn =>
      cases hs
      exact ⟨⟨hpitch, hreference, hcontrollers⟩, hn, hmerged⟩
    · cases hs
  · obtain ⟨n, -, hs⟩ := Option.bind_eq_some_iff.mp hs
    split at hs
    · next hn =>
      cases hs
      exact ⟨⟨Nat.le_trans hn (by decide), hreference, hcontrollers⟩, hticks, hmerged⟩
    · cases hs
  · obtain ⟨n, -, hs⟩ := Option.bind_eq_some_iff.mp hs
    cases hs
    exact ⟨⟨hpitch, hreference, hcontrollers⟩, hticks, hmerged⟩
  · cases hs
    exact ⟨⟨hpitch, hreference, hcontrollers⟩, hticks, hmerged⟩

theorem Settled.override {s : Settings α} (h : s.Settled) (environment : String → Option String) :
    (s.override environment).1.Settled := by
  refine List.foldlRecOn (motive := fun state : Settings α × List String => state.1.Settled)
    _ _ h fun state hstate o ho => ?_
  unfold applyOverride
  split
  · next s' hs =>
    obtain ⟨v, -, hv⟩ := Option.bind_eq_some_iff.mp hs
    exact hstate.apply ho hv
  · exact hstate

/-! ## Settings loaded -/

variable [Scalar α]

theorem settled_of_load {files : List SettingsFile} {environment : String → Option String}
    {loaded : LoadedSettings α} (h : loadSettings files environment = .ok loaded) :
    loaded.settings.Settled := by
  obtain ⟨table, -, h⟩ := Json.bind_ok h
  obtain ⟨s, hs, h⟩ := Json.bind_ok h
  cases h
  exact (settled_of_table hs).override environment

end Partitura.Settings
