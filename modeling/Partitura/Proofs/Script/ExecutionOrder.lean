import Partitura.Proofs.Script.Routes

/-!
# The order in which effects run

Effects are started in the order of the connections that route them, and those that no connection
routes come last. So every effect runs before the one that it plays into just if connections are
listed that way: none that is taken leads into an effect whose own one was taken before it.
-/

namespace Partitura.Script

/-! ## Effects in order -/

def StartedSynth.PlaysInto (s t : StartedSynth) : Prop := s.output = .bus t.input

instance (s t : StartedSynth) : Decidable (s.PlaysInto t) :=
  inferInstanceAs (Decidable (s.output = .bus t.input))

/-- No synth plays into one that was started before it. -/
def InExecutionOrder (synths : List StartedSynth) : Prop :=
  synths.Pairwise fun earlier later => ¬later.PlaysInto earlier

instance (synths : List StartedSynth) : Decidable (InExecutionOrder synths) :=
  inferInstanceAs (Decidable (List.Pairwise _ synths))

def effectStart? (nodes : List NamedNode) (d : String × Outlet) : Option StartedSynth :=
  (effectName? nodes d.1).map fun name => ⟨"~fx_" ++ name, "fx_" ++ name, name, d.2⟩

theorem output_effectStart? {nodes : List NamedNode} {d : String × Outlet} {s : StartedSynth}
    (h : effectStart? nodes d = some s) : s.output = d.2 := by
  obtain ⟨name, -, rfl⟩ := Option.map_eq_some_iff.mp h
  rfl

theorem not_playsInto_of_hardware {s t : StartedSynth} (h : s.output = .hardware) :
    ¬s.PlaysInto t := by
  rw [StartedSynth.PlaysInto, h]
  nofun

theorem synths_effectSynths {α : Type} (nodes : List NamedNode) (routed : List (String × Outlet)) :
    (effectSynths (α := α) nodes routed).filterMap Statement.synth? =
      routed.filterMap (effectStart? nodes) ++
        (nodes.filter fun n => !routed.any fun d => d.1 == n.id).filterMap fun n =>
          effectStart? nodes (n.id, .hardware) := by
  have hstart (id : String) (outlet : Outlet) :
      (effectSynth? (α := α) nodes id outlet).bind Statement.synth? =
        effectStart? nodes (id, outlet) := by
    rw [effectSynth?_eq, effectStart?]
    cases effectName? nodes id <;> rfl
  rw [effectSynths, List.filterMap_append, List.filterMap_filterMap, List.filterMap_filterMap]
  simp only [hstart]

def IsEffect (nodes : List NamedNode) (id : String) : Prop :=
  ∃ n ∈ nodes, n.id = id ∧ n.role = .effect

/-- A connection between effects, into the one that another connection comes from. -/
structure FeedsInto (nodes : List NamedNode) (r next : Route) : Prop where
  source : IsEffect nodes r.source
  target : IsEffect nodes r.target
  ordinary : r.target ≠ masterId
  meets : r.target = next.source

/-! ## Numbers in order -/

theorem pairwise_iff_of_lt {P : Nat → Nat → Prop} {ns : List Nat} (h : ns.Pairwise (· < ·)) :
    ns.Pairwise P ↔ ∀ i ∈ ns, ∀ j ∈ ns, i < j → P i j := by
  constructor
  · intro hpairs
    have hboth := hpairs.and h
    induction ns with
    | nil => exact nofun
    | cons n rest ih =>
      obtain ⟨hfirst, hrest⟩ := List.pairwise_cons.mp hboth
      intro i hi j hj hij
      rcases List.mem_cons.mp hi with rfl | hi'
      · rcases List.mem_cons.mp hj with rfl | hj'
        · omega
        · exact (hfirst j hj').1
      · rcases List.mem_cons.mp hj with rfl | hj'
        · have hlt := (hfirst i hi').2
          omega
        · exact ih h.tail hpairs.tail hrest i hi' j hj' hij
  · exact fun hall => h.imp_of_mem fun hi hj hij => hall _ hi _ hj hij

/-! ## Connections in order -/

section Order

variable {nodes : List NamedNode} (hids : (nodes.map NamedNode.id).Nodup)

def routedAt? (nodes : List NamedNode) (routes : List Route) (i : Nat) :
    Option (String × Outlet) :=
  routes[i]?.bind fun r => (inputOf? nodes r.target).map (r.source, ·)

include hids

theorem routedAt?_eq_some {routes : List Route} {i : Nat} {d : String × Outlet} :
    routedAt? nodes routes i = some d ↔
      ∃ r, routes[i]? = some r ∧ r.source = d.1 ∧ Receives nodes r.target d.2 := by
  obtain ⟨id, outlet⟩ := d
  simp only [routedAt?, Option.bind_eq_some_iff, Option.map_eq_some_iff, Prod.mk.injEq,
    inputOf?_eq_some hids]
  refine exists_congr fun r => and_congr_right fun _ => ⟨?_, ?_⟩
  · rintro ⟨_, hreceives, hsource, rfl⟩
    exact ⟨hsource, hreceives⟩
  · rintro ⟨hsource, hreceives⟩
    exact ⟨outlet, hreceives, hsource, rfl⟩

theorem exists_value_routeNodes (routes : List Route) :
    ∃ taken : List Nat, taken.Pairwise (· < ·) ∧
      (∀ i, i ∈ taken ↔ Taken nodes routes i) ∧
      (routeNodes nodes [] routes.zipIdx).value = taken.filterMap (routedAt? nodes routes) := by
  induction routes using List.reverseRecOn with
  | nil => exact ⟨[], .nil, by simp [Taken], rfl⟩
  | append_singleton routes r ih =>
    obtain ⟨taken, hsorted, hmem, hvalue⟩ := ih
    have hlast := (routed_routeNodes hids routes).taken_concat_iff hids (r := r)
    rw [List.zipIdx_append, routeNodes_append, List.zipIdx_singleton, Nat.zero_add]
    have hlt {i : Nat} (hi : i ∈ taken) : i < routes.length := by
      obtain ⟨_, hget, -⟩ := (hmem i).mp hi
      exact (List.getElem?_eq_some_iff.mp hget).1
    have hkept : taken.filterMap (routedAt? nodes (routes ++ [r])) =
        (routeNodes nodes [] routes.zipIdx).value := by
      rw [hvalue]
      refine List.filterMap_congr fun i hi => ?_
      rw [routedAt?, routedAt?, List.getElem?_append_left (hlt hi)]
    -- Only the last connection is new, and it is taken or not.
    have hall (i : Nat) : Taken nodes (routes ++ [r]) i ↔
        i ∈ taken ∨ i = routes.length ∧ Taken nodes (routes ++ [r]) routes.length := by
      rcases Nat.lt_trichotomy i routes.length with hi | rfl | hi
      · rw [taken_concat_of_lt hi, hmem]
        simp [hi.ne]
      · have hnot : routes.length ∉ taken := fun h => absurd (hlt h) (Nat.lt_irrefl _)
        simp [hnot]
      · have hnone : (routes ++ [r])[i]? = none :=
          List.getElem?_eq_none (by rw [List.length_append]; exact hi)
        have hnot : i ∉ taken := fun h => absurd (hlt h) (Nat.lt_asymm hi)
        simp [Taken, hnone, hnot, hi.ne']
    rcases routeOutlet_cases hids (routeNodes nodes [] routes.zipIdx).value r with
      ⟨outlet, hroute, hfits, hreceives, hnew⟩ | ⟨fault, hroute, -, hleft⟩
    · refine ⟨taken ++ [routes.length], ?_, fun i => ?_, ?_⟩
      · rw [List.pairwise_append]
        exact ⟨hsorted, List.pairwise_singleton _ _,
          fun i hi j hj => List.mem_singleton.mp hj ▸ hlt hi⟩
      · rw [hall, List.mem_append, List.mem_singleton]
        exact or_congr_right (and_iff_left (hlast.mpr ⟨hfits, hnew⟩)).symm
      · have hadded : routedAt? nodes (routes ++ [r]) routes.length = some (r.source, outlet) :=
          (routedAt?_eq_some hids).mpr ⟨r, List.getElem?_concat_length, rfl, hreceives⟩
        rw [List.filterMap_append, hkept, List.filterMap_cons, hadded]
        simp [routeNodes, hroute]
    · refine ⟨taken, hsorted, fun i => ?_, ?_⟩
      · rw [hall]
        exact (or_iff_left fun h => hleft (hlast.mp h.2)).symm
      · rw [hkept]
        simp [routeNodes, hroute]

theorem effectStart?_eq_some_iff {id : String} {outlet : Outlet} {s : StartedSynth} :
    effectStart? nodes (id, outlet) = some s ↔ ∃ n ∈ nodes, n.id = id ∧ n.role = .effect ∧
      s = ⟨"~fx_" ++ n.name, "fx_" ++ n.name, n.name, outlet⟩ := by
  rw [effectStart?, Option.map_eq_some_iff]
  constructor
  · rintro ⟨name, hname, rfl⟩
    obtain ⟨n, hn, hid, hrole, rfl⟩ := effectName?_eq_some hname
    exact ⟨n, hn, hid, hrole, rfl⟩
  · rintro ⟨n, hn, hid, hrole, rfl⟩
    refine ⟨n.name, ?_, rfl⟩
    rw [effectName?, (nodeNamed?_eq_some hids).mpr ⟨hn, hid⟩]
    exact if_pos hrole

omit hids in
/-- Effects that no connection routes play into none, so the order is that of the routed ones. -/
theorem inExecutionOrder_effectSynths_iff {α : Type} (routed : List (String × Outlet)) :
    InExecutionOrder ((effectSynths (α := α) nodes routed).filterMap Statement.synth?) ↔
      InExecutionOrder (routed.filterMap (effectStart? nodes)) := by
  rw [synths_effectSynths, InExecutionOrder, List.pairwise_append]
  refine and_iff_left ⟨?_, ?_⟩
  · rw [List.pairwise_filterMap]
    refine List.pairwise_of_forall fun n m => ?_
    rintro _ - t ht
    exact not_playsInto_of_hardware (output_effectStart? ht)
  · intro s _ t ht
    obtain ⟨n, -, hn⟩ := List.mem_filterMap.mp ht
    exact not_playsInto_of_hardware (output_effectStart? hn)

/-- The effect that one connection routes plays into that of another one just if the connection
feeds into the other one. -/
theorem playsInto_iff_feedsInto (hnames : (nodes.map NamedNode.name).Nodup) {r next : Route}
    {outlet outlet' : Outlet} (houtlet : Receives nodes r.target outlet) :
    (∃ s t, effectStart? nodes (r.source, outlet) = some s ∧
      effectStart? nodes (next.source, outlet') = some t ∧ s.PlaysInto t) ↔
        FeedsInto nodes r next := by
  simp only [effectStart?_eq_some_iff hids]
  constructor
  · rintro ⟨_, _, ⟨n, hn, hid, hrole, rfl⟩, ⟨m, hm, hid', hrole', rfl⟩, rfl⟩
    generalize htarget : r.target = target at houtlet
    generalize hbus : Outlet.bus m.name = outlet at houtlet
    cases houtlet with
    | master => cases hbus
    | sink => cases hbus
    | @effect k hk hkrole hordinary =>
      have hsame : k = m := List.inj_on_of_nodup_map hnames hk hm (Outlet.bus.inj hbus).symm
      rw [← htarget] at hordinary
      exact ⟨⟨n, hn, hid, hrole⟩, ⟨k, hk, htarget.symm, hkrole⟩, hordinary,
        htarget.trans (hsame ▸ hid')⟩
  · rintro ⟨⟨n, hn, hid, hrole⟩, ⟨m, hm, hid', hrole'⟩, hordinary, hmeets⟩
    refine ⟨_, _, ⟨n, hn, hid, hrole, rfl⟩, ⟨m, hm, hid'.trans hmeets, hrole', rfl⟩, ?_⟩
    have hinput := (inputOf?_eq_some hids).mpr houtlet
    rw [← hid'] at hinput hordinary
    rw [(inputOf?_eq_some hids).mpr (.effect hm hrole' hordinary)] at hinput
    exact (Option.some.inj hinput).symm

end Order

/-! ## Graphs -/

variable {α : Type} [Scalar α]

/-- The lines of a graph start effects in order just if, of two connections that are taken, one that
feeds into the other is never listed after it. -/
theorem inExecutionOrder_graphPlan_iff (server : String) (p : Performance α)
    (hids : (p.graph.map GraphNode.id).Nodup) :
    InExecutionOrder ((effectLines server p).filterMap (startedSynth? server)) ↔
      ∀ i j r next, p.routes[i]? = some r → p.routes[j]? = some next →
        Taken (graphPlan p).nodes p.routes i → Taken (graphPlan p).nodes p.routes j →
        FeedsInto (graphPlan p).nodes r next → i ≤ j := by
  have handed := handedOut p hids
  obtain ⟨taken, hsorted, hmem, hvalue⟩ := exists_value_routeNodes handed.ids p.routes
  have hdestinations : (graphPlan p).destinations =
    taken.filterMap (routedAt? (graphPlan p).nodes p.routes) := hvalue
  rw [startedSynths_graphPlan, (sound_graphPlan p).effects, inExecutionOrder_effectSynths_iff,
    InExecutionOrder, hdestinations, List.filterMap_filterMap, List.pairwise_filterMap,
    pairwise_iff_of_lt hsorted]
  simp only [hmem, Option.bind_eq_some_iff, routedAt?_eq_some handed.ids]
  constructor
  · intro h i j r next hr hnext hi hj hfeeds
    by_contra hlt
    obtain ⟨outlet, hreceives⟩ := (hi.fits hr).target.exists_receives handed.ids
    obtain ⟨outlet', hreceives'⟩ := (hj.fits hnext).target.exists_receives handed.ids
    obtain ⟨s, t, hs, (ht : effectStart? _ (_, outlet') = some t), hplays⟩ :=
      (playsInto_iff_feedsInto handed.ids handed.names hreceives).mpr hfeeds
    refine h j hj i hi (Nat.lt_of_not_le hlt) t ?_ s ?_ hplays
    · exact ⟨(next.source, outlet'), ⟨next, hnext, rfl, hreceives'⟩, ht⟩
    · exact ⟨(r.source, outlet), ⟨r, hr, rfl, hreceives⟩, hs⟩
  · rintro h j hj i hi hlt t ⟨⟨_, outlet'⟩, ⟨next, hnext, rfl, hreceives'⟩, ht⟩ s
      ⟨⟨_, outlet⟩, ⟨r, hr, rfl, hreceives⟩, hs⟩ hplays
    have hfeeds := (playsInto_iff_feedsInto handed.ids handed.names hreceives).mp
      ⟨s, t, hs, ht, hplays⟩
    exact absurd (h i j r next hr hnext hi hj hfeeds) (Nat.not_le_of_lt hlt)

/-- The connection of the first effect is listed before that of the second one. -/
theorem inExecutionOrder_graphPlan_song :
    let song : Performance Rat := ⟨formatName, formatVersion, 120, .common, none, .constant 120,
      [], [], ⟨none, none, none⟩, [⟨"lead", .synth, [], none, none⟩,
        ⟨"space", .reverb, [], none, none⟩, ⟨"echo", .delay, [], none, none⟩],
      [⟨"lead", "echo"⟩, ⟨"echo", "space"⟩, ⟨"space", "master"⟩], [], [], [], []⟩
    (song.graph.map GraphNode.id).Nodup ∧
      (effectLines "s" song).filterMap (startedSynth? "s") =
        [⟨"~fx_echo", "fx_echo", "echo", .bus "space"⟩,
          ⟨"~fx_space", "fx_space", "space", .hardware⟩] ∧
      InExecutionOrder ((effectLines "s" song).filterMap (startedSynth? "s")) ∧
      ∀ i j r next, song.routes[i]? = some r → song.routes[j]? = some next →
        Taken (graphPlan song).nodes song.routes i → Taken (graphPlan song).nodes song.routes j →
        FeedsInto (graphPlan song).nodes r next → i ≤ j := by
  intro song
  have hids : (song.graph.map GraphNode.id).Nodup := by decide
  have hsynths : (effectLines "s" song).filterMap (startedSynth? "s") =
      [⟨"~fx_echo", "fx_echo", "echo", .bus "space"⟩,
        ⟨"~fx_space", "fx_space", "space", .hardware⟩] := by decide +kernel
  have horder : InExecutionOrder ((effectLines "s" song).filterMap (startedSynth? "s")) := by
    rw [hsynths]
    decide
  exact ⟨hids, hsynths, horder, (inExecutionOrder_graphPlan_iff "s" song hids).mp horder⟩

/-- With the same connections in another order, the second effect of the chain is started first,
and what the first one plays into it comes too late. -/
theorem not_inExecutionOrder_song :
    let song : Performance Rat := ⟨formatName, formatVersion, 120, .common, none, .constant 120,
      [], [], ⟨none, none, none⟩, [⟨"lead", .synth, [], none, none⟩,
        ⟨"space", .reverb, [], none, none⟩, ⟨"echo", .delay, [], none, none⟩],
      [⟨"lead", "echo"⟩, ⟨"space", "master"⟩, ⟨"echo", "space"⟩], [], [], [], []⟩
    (song.graph.map GraphNode.id).Nodup ∧ (planGraph .empty song).diagnostics = [] ∧
      effectLines "s" song =
        [.plain "~fx_space = Synth.tail(s, \\fx_space, [\\in, ~bus_space, \\out, 0]);",
          .plain "~fx_echo = Synth.tail(s, \\fx_echo, [\\in, ~bus_echo, \\out, ~bus_space]);"] ∧
      ¬InExecutionOrder ((effectLines "s" song).filterMap (startedSynth? "s")) := by
  decide +kernel

end Partitura.Script
