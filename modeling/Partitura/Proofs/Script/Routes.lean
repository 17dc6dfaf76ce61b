import Mathlib.Data.List.Induction
import Partitura.Proofs.Performance.TimePlaces
import Partitura.Proofs.Script.Distinct
import Partitura.Proofs.Script.Signals

/-!
# Connections are accounted for

A connection fits a graph if both of its ends are known, its source sounds and its target takes
sound. Of the connections that fit, the first one of each source is taken and becomes its
destination; every other connection is reported once. An effect runs once, whether a connection
routes it or not, and what it plays to is its destination: all of this is read off the lines that
the graph comes to.
-/

namespace Partitura.Script

/-! ## Connections that fit -/

/-- What a sound that is sent to an id goes into. -/
inductive Receives (nodes : List NamedNode) : String → Outlet → Prop
  | master : Receives nodes masterId .hardware
  | sink {n : NamedNode} (mem : n ∈ nodes) (role : n.role = .sink) :
    Receives nodes n.id .hardware
  | effect {n : NamedNode} (mem : n ∈ nodes) (role : n.role = .effect)
    (ordinary : n.id ≠ masterId) : Receives nodes n.id (.bus n.name)

def IsKnown (nodes : List NamedNode) (id : String) : Prop :=
  id = masterId ∨ ∃ n ∈ nodes, n.id = id

def Sounds (nodes : List NamedNode) (id : String) : Prop :=
  ∃ n ∈ nodes, n.id = id ∧ n.role ∈ [.instrument, .effect, .unknown]

def TakesSound (nodes : List NamedNode) (id : String) : Prop :=
  id = masterId ∨ ∃ n ∈ nodes, n.id = id ∧ n.role ∈ [.sink, .effect]

/-- A connection between known ends, from a node that sounds to what takes sound. -/
structure Fits (nodes : List NamedNode) (r : Route) : Prop where
  known : ∀ id ∈ [r.source, r.target], IsKnown nodes id
  source : Sounds nodes r.source
  target : TakesSound nodes r.target

def RouteFault.Holds (nodes : List NamedNode) (r : Route) : RouteFault → Prop
  | unknownNode id => id ∈ [r.source, r.target] ∧ ¬IsKnown nodes id
  | noOutput id => id = r.source ∧ ¬Sounds nodes id
  | noInput id => id = r.target ∧ ¬TakesSound nodes id
  | routed id => id = r.source ∧ Fits nodes r

/-- A connection is taken if it is the first one of its source that fits. -/
def Taken (nodes : List NamedNode) (routes : List Route) (i : Nat) : Prop :=
  ∃ r, routes[i]? = some r ∧ Fits nodes r ∧ ∀ j < i, ∀ earlier, routes[j]? = some earlier →
    Fits nodes earlier → earlier.source ≠ r.source

theorem Taken.fits {nodes : List NamedNode} {routes : List Route} {i : Nat} {r : Route}
    (h : Taken nodes routes i) (hr : routes[i]? = some r) : Fits nodes r := by
  obtain ⟨taken, htaken, hfits, -⟩ := h
  obtain rfl := Option.some.inj (htaken.symm.trans hr)
  exact hfits

theorem exists_taken {nodes : List NamedNode} {routes : List Route} {i : Nat} {r : Route}
    (hr : routes[i]? = some r) (hfits : Fits nodes r) :
    ∃ j ≤ i, Taken nodes routes j ∧ ∃ taken, routes[j]? = some taken ∧ taken.source = r.source := by
  induction i using Nat.strong_induction_on generalizing r with
  | _ i ih =>
    by_cases hfirst : ∀ j < i, ∀ earlier, routes[j]? = some earlier →
        Fits nodes earlier → earlier.source ≠ r.source
    · exact ⟨i, le_rfl, ⟨r, hr, hfits, hfirst⟩, r, hr, rfl⟩
    · push Not at hfirst
      obtain ⟨j, hj, earlier, hearlier, hfits', hsource⟩ := hfirst
      obtain ⟨k, hk, htaken, taken, hget, hsame⟩ := ih j hj hearlier hfits'
      exact ⟨k, hk.trans hj.le, htaken, taken, hget, hsame.trans hsource⟩

/-- A connection is taken if it fits and none of its source has been taken before. -/
theorem taken_iff {nodes : List NamedNode} {routes : List Route} {i : Nat} {r : Route}
    (hr : routes[i]? = some r) :
    Taken nodes routes i ↔ Fits nodes r ∧ ∀ j < i, Taken nodes routes j →
      ∀ earlier ∈ routes[j]?, earlier.source ≠ r.source := by
  constructor
  · rintro ⟨taken, htaken, hfits, hfirst⟩
    obtain rfl := Option.some.inj (htaken.symm.trans hr)
    exact ⟨hfits, fun j hj hbefore earlier hearlier =>
      hfirst j hj earlier hearlier (hbefore.fits hearlier)⟩
  · rintro ⟨hfits, hnone⟩
    refine ⟨r, hr, hfits, fun j hj earlier hearlier hfits' hsource => ?_⟩
    obtain ⟨k, hk, htaken, taken, hget, hsame⟩ := exists_taken hearlier hfits'
    exact hnone k (hk.trans_lt hj) htaken taken hget (hsame.trans hsource)

section Concat

variable {nodes : List NamedNode} {routes : List Route} {r : Route}

theorem taken_concat_of_lt {i : Nat} (hi : i < routes.length) :
    Taken nodes (routes ++ [r]) i ↔ Taken nodes routes i := by
  have hget {j : Nat} (hj : j ≤ i) : (routes ++ [r])[j]? = routes[j]? :=
    List.getElem?_append_left (hj.trans_lt hi)
  unfold Taken
  rw [hget le_rfl]
  refine exists_congr fun taken => and_congr_right fun _ => and_congr_right fun _ => ?_
  exact forall₂_congr fun j hj => by rw [hget hj.le]

theorem taken_concat_length :
    Taken nodes (routes ++ [r]) routes.length ↔ Fits nodes r ∧ ∀ j, Taken nodes routes j →
      ∀ earlier ∈ routes[j]?, earlier.source ≠ r.source := by
  rw [taken_iff List.getElem?_concat_length]
  refine and_congr_right fun _ => ⟨fun h j hj earlier hearlier => ?_, fun h j hj htaken => ?_⟩
  · obtain ⟨hlt, -⟩ := List.getElem?_eq_some_iff.mp hearlier
    refine h j hlt ((taken_concat_of_lt hlt).mpr hj) earlier ?_
    rwa [List.getElem?_append_left hlt]
  · rw [List.getElem?_append_left hj]
    exact h j ((taken_concat_of_lt hj).mp htaken)

end Concat

/-! ## Routing -/

section Routing

variable {nodes : List NamedNode}

theorem isEndpoint_iff {id : String} : isEndpoint nodes id = true ↔ IsKnown nodes id := by
  simp [isEndpoint, IsKnown]

variable (hids : (nodes.map NamedNode.id).Nodup)

include hids

theorem nodeNamed?_eq_some {id : String} {n : NamedNode} :
    nodeNamed? nodes id = some n ↔ n ∈ nodes ∧ n.id = id := by
  refine ⟨mem_of_nodeNamed?, ?_⟩
  rintro ⟨hn, rfl⟩
  have hfound : (nodeNamed? nodes n.id).isSome := by
    rw [nodeNamed?, List.find?_isSome]
    exact ⟨n, List.mem_reverse.mpr hn, beq_self_eq_true n.id⟩
  obtain ⟨m, hm⟩ := Option.isSome_iff_exists.mp hfound
  obtain ⟨hmem, hid⟩ := mem_of_nodeNamed? hm
  rw [hm, List.inj_on_of_nodup_map hids hmem hn hid]

theorem hasOutput_iff {id : String} : hasOutput nodes id = true ↔ Sounds nodes id := by
  have hrole (role : DeviceRole) : (isPlayed role || role == .effect) = true ↔
      role ∈ [.instrument, .effect, .unknown] := by
    cases role <;> decide
  unfold hasOutput
  constructor
  · intro h
    split at h
    · next n hn =>
      obtain ⟨hmem, hid⟩ := mem_of_nodeNamed? hn
      exact ⟨n, hmem, hid, (hrole n.role).mp h⟩
    · cases h
  · rintro ⟨n, hn, hid, h⟩
    rw [(nodeNamed?_eq_some hids).mpr ⟨hn, hid⟩]
    exact (hrole n.role).mpr h

theorem inputOf?_eq_some {id : String} {outlet : Outlet} :
    inputOf? nodes id = some outlet ↔ Receives nodes id outlet := by
  unfold inputOf?
  constructor
  · intro h
    split at h
    · next hmaster =>
      cases h
      exact hmaster ▸ .master
    · next hordinary =>
      split at h
      · next n hn =>
        obtain ⟨hmem, rfl⟩ := mem_of_nodeNamed? hn
        split at h
        · next hrole =>
          cases h
          exact .sink hmem hrole
        · next hrole =>
          cases h
          exact .effect hmem hrole hordinary
        · cases h
      · cases h
  · intro h
    cases h with
    | master => rfl
    | @sink n hmem hrole =>
      split
      · rfl
      · rw [(nodeNamed?_eq_some hids).mpr ⟨hmem, rfl⟩]
        simp only [hrole]
    | @effect n hmem hrole hordinary =>
      rw [if_neg hordinary, (nodeNamed?_eq_some hids).mpr ⟨hmem, rfl⟩]
      simp only [hrole]

theorem inputOf?_eq_none {id : String} (h : inputOf? nodes id = none) : ¬TakesSound nodes id := by
  unfold inputOf? at h
  split at h
  · cases h
  · next hordinary =>
    intro htakes
    obtain ⟨n, hn, hid, hrole⟩ := htakes.resolve_left hordinary
    rw [(nodeNamed?_eq_some hids).mpr ⟨hn, hid⟩] at h
    simp only [List.mem_cons, List.not_mem_nil, or_false] at hrole
    rcases hrole with hrole | hrole <;> simp [hrole] at h

theorem TakesSound.exists_receives {id : String} (h : TakesSound nodes id) :
    ∃ outlet, Receives nodes id outlet := by
  cases hinput : inputOf? nodes id with
  | none => exact absurd h (inputOf?_eq_none hids hinput)
  | some outlet => exact ⟨outlet, (inputOf?_eq_some hids).mp hinput⟩

omit hids in
theorem Receives.takesSound {id : String} {outlet : Outlet} (h : Receives nodes id outlet) :
    TakesSound nodes id := by
  cases h with
  | master => exact .inl rfl
  | @sink n hmem hrole => exact .inr ⟨n, hmem, rfl, by simp [hrole]⟩
  | @effect n hmem hrole => exact .inr ⟨n, hmem, rfl, by simp [hrole]⟩

/-- A connection is given an outlet if it fits and its source has none yet; any other one has a
fault. -/
theorem routeOutlet_cases (routed : List (String × Outlet)) (r : Route) :
    (∃ outlet, routeOutlet nodes routed r = .ok outlet ∧ Fits nodes r ∧
      Receives nodes r.target outlet ∧ r.source ∉ routed.map Prod.fst) ∨
    ∃ fault, routeOutlet nodes routed r = .error fault ∧ fault.Holds nodes r ∧
      ¬(Fits nodes r ∧ r.source ∉ routed.map Prod.fst) := by
  unfold routeOutlet
  split
  · next id hid =>
    have hunknown : ¬IsKnown nodes id := by
      have hend := List.find?_some hid
      rw [Bool.not_eq_true'] at hend
      rw [← isEndpoint_iff, hend]
      exact Bool.false_ne_true
    have hmem := List.mem_of_find?_eq_some hid
    exact .inr ⟨_, rfl, ⟨hmem, hunknown⟩, fun h => hunknown (h.1.known id hmem)⟩
  · next hends =>
    have hknown : ∀ id ∈ [r.source, r.target], IsKnown nodes id := by
      intro id hid
      have hend := List.find?_eq_none.mp hends id hid
      rw [Bool.not_eq_true', Bool.not_eq_false] at hend
      exact isEndpoint_iff.mp hend
    split
    · next hsource =>
      have hsounds := (hasOutput_iff hids).mp hsource
      split
      · next outlet houtlet =>
        have hreceives := (inputOf?_eq_some hids).mp houtlet
        have hfits : Fits nodes r := ⟨hknown, hsounds, hreceives.takesSound⟩
        have hrouted : (routed.any fun d => d.1 == r.source) = true ↔
            r.source ∈ routed.map Prod.fst := by
          simp only [List.any_eq_true, beq_iff_eq, List.mem_map]
        split
        · next hany => exact .inr ⟨_, rfl, ⟨rfl, hfits⟩, fun h => h.2 (hrouted.mp hany)⟩
        · next hnone =>
          exact .inl ⟨outlet, rfl, hfits, hreceives, fun h => hnone (hrouted.mpr h)⟩
      · next hnone =>
        have hmute := inputOf?_eq_none hids hnone
        exact .inr ⟨_, rfl, ⟨rfl, hmute⟩, fun h => hmute h.1.target⟩
    · next hsource =>
      have hmute : ¬Sounds nodes r.source := fun h => hsource ((hasOutput_iff hids).mpr h)
      exact .inr ⟨_, rfl, ⟨rfl, hmute⟩, fun h => hmute h.1.source⟩

/-! ## Runs -/

omit hids in
theorem routeNodes_append (routed : List (String × Outlet)) (before rest : List (Route × Nat)) :
    routeNodes nodes routed (before ++ rest) =
      routeNodes nodes routed before >>= fun routed => routeNodes nodes routed rest := by
  induction before generalizing routed with
  | nil => rfl
  | cons first before ih =>
    obtain ⟨r, i⟩ := first
    rw [List.cons_append, routeNodes, routeNodes]
    split
    · exact ih _
    · rw [ih]
      rfl

/-- What connections come to: those that are taken are routed, and each other one is
reported. -/
structure Routed (nodes : List NamedNode) (routes : List Route)
    (o : Outcome (List (String × Outlet))) : Prop where
  value : ∀ id outlet, (id, outlet) ∈ o.value ↔ ∃ i r, routes[i]? = some r ∧
    Taken nodes routes i ∧ r.source = id ∧ Receives nodes r.target outlet
  reports : ∃ told : Nat → List Diagnostic,
    o.diagnostics = routes.zipIdx.flatMap (fun e => told e.2) ∧
    (∀ i, ∀ d ∈ told i, d.path = some (entryPath "connections" i)) ∧
    ∀ i r, routes[i]? = some r → (Taken nodes routes i → told i = []) ∧
      (¬Taken nodes routes i → ∃ fault : RouteFault, fault.Holds nodes r ∧
        told i = [.warning (entryPath "connections" i) fault.message])

omit hids in
theorem routed_nil : Routed nodes [] (routeNodes nodes [] []) :=
  ⟨by simp [routeNodes], fun _ => [], rfl, nofun, by simp⟩

omit hids in
theorem Routed.concat {routes : List Route} {r : Route} {o o' : Outcome (List (String × Outlet))}
    (h : Routed nodes routes o)
    (hvalue : ∀ id outlet, (id, outlet) ∈ o'.value ↔ (id, outlet) ∈ o.value ∨
      Taken nodes (routes ++ [r]) routes.length ∧ r.source = id ∧ Receives nodes r.target outlet)
    (last : List Diagnostic) (hreports : o'.diagnostics = o.diagnostics ++ last)
    (htaken : Taken nodes (routes ++ [r]) routes.length → last = [])
    (hleft : ¬Taken nodes (routes ++ [r]) routes.length → ∃ fault : RouteFault,
      fault.Holds nodes r ∧
        last = [.warning (entryPath "connections" routes.length) fault.message]) :
    Routed nodes (routes ++ [r]) o' := by
  have hplace {i : Nat} {found : Route} (hfound : (routes ++ [r])[i]? = some found) :
      (i < routes.length ∧ routes[i]? = some found) ∨ (i = routes.length ∧ r = found) := by
    rcases Nat.lt_trichotomy i routes.length with hi | rfl | hi
    · rw [List.getElem?_append_left hi] at hfound
      exact .inl ⟨hi, hfound⟩
    · exact .inr ⟨rfl, Option.some.inj (List.getElem?_concat_length.symm.trans hfound)⟩
    · rw [List.getElem?_eq_none (by rw [List.length_append]; exact hi)] at hfound
      cases hfound
  constructor
  · intro id outlet
    rw [hvalue, h.value]
    constructor
    · rintro (⟨i, before, hbefore, htaken, hends⟩ | ⟨htaken, hends⟩)
      · obtain ⟨hi, -⟩ := List.getElem?_eq_some_iff.mp hbefore
        exact ⟨i, before, by rwa [List.getElem?_append_left hi], (taken_concat_of_lt hi).mpr htaken,
          hends⟩
      · exact ⟨routes.length, r, List.getElem?_concat_length, htaken, hends⟩
    · rintro ⟨i, found, hfound, htaken, hends⟩
      rcases hplace hfound with ⟨hi, hfound⟩ | ⟨rfl, rfl⟩
      · exact .inl ⟨i, found, hfound, (taken_concat_of_lt hi).mp htaken, hends⟩
      · exact .inr ⟨htaken, hends⟩
  · obtain ⟨told, htold, hpaths, hall⟩ := h.reports
    have hkept {i : Nat} (hi : i < routes.length) :
        Function.update told routes.length last i = told i := Function.update_of_ne hi.ne last told
    refine ⟨Function.update told routes.length last, ?_, fun i d hd => ?_, fun i found hfound => ?_⟩
    · rw [hreports, htold, List.zipIdx_append, List.flatMap_append, List.zipIdx_singleton,
        List.flatMap_singleton, Nat.zero_add, Function.update_self]
      refine congrArg (· ++ last) (List.flatMap_congr fun e he => (hkept ?_).symm)
      exact List.snd_lt_of_mem_zipIdx he
    · rw [Function.update_apply] at hd
      split at hd
      · next hi =>
        by_cases hlast : Taken nodes (routes ++ [r]) routes.length
        · rw [htaken hlast] at hd
          cases hd
        · obtain ⟨fault, -, hfault⟩ := hleft hlast
          rw [hfault] at hd
          rw [List.mem_singleton.mp hd, hi]
          rfl
      · exact hpaths i d hd
    · rcases hplace hfound with ⟨hi, hfound⟩ | ⟨rfl, rfl⟩
      · rw [hkept hi, taken_concat_of_lt hi]
        exact hall i found hfound
      · rw [Function.update_self]
        exact ⟨htaken, hleft⟩

theorem Routed.taken_concat_iff {routes : List Route} {r : Route}
    {o : Outcome (List (String × Outlet))} (h : Routed nodes routes o) :
    Taken nodes (routes ++ [r]) routes.length ↔
      Fits nodes r ∧ r.source ∉ o.value.map Prod.fst := by
  rw [taken_concat_length]
  refine and_congr_right fun _ => ⟨fun hnone hmem => ?_, fun hnew j hj earlier hearlier hsource => ?_⟩
  · obtain ⟨⟨id, outlet⟩, hd, rfl⟩ := List.mem_map.mp hmem
    obtain ⟨j, earlier, hearlier, hj, hsource, -⟩ := (h.value _ _).mp hd
    exact hnone j hj earlier hearlier hsource
  · obtain ⟨outlet, hreceives⟩ := (hj.fits hearlier).target.exists_receives hids
    exact hnew (List.mem_map.mpr ⟨(r.source, outlet),
      (h.value _ _).mpr ⟨j, earlier, hearlier, hj, hsource, hreceives⟩, rfl⟩)

theorem routed_routeNodes (routes : List Route) :
    Routed nodes routes (routeNodes nodes [] routes.zipIdx) := by
  induction routes using List.reverseRecOn with
  | nil => exact routed_nil
  | append_singleton routes r ih =>
    rw [List.zipIdx_append, routeNodes_append, List.zipIdx_singleton, Nat.zero_add]
    generalize routeNodes nodes [] routes.zipIdx = o at ih
    have htaken := ih.taken_concat_iff hids (r := r)
    rcases routeOutlet_cases hids o.value r with
      ⟨outlet, hroute, hfits, hreceives, hnew⟩ | ⟨fault, hroute, hholds, hleft⟩
    · have hlast := htaken.mpr ⟨hfits, hnew⟩
      refine ih.concat (fun id outlet' => ?_) [] ?_ (fun _ => rfl) (absurd hlast)
      · simp only [routeNodes, hroute, Outcome.value_bind, Outcome.value_pure, List.mem_append,
          List.mem_singleton, Prod.mk.injEq]
        refine or_congr_right ⟨?_, ?_⟩
        · rintro ⟨rfl, rfl⟩
          exact ⟨hlast, rfl, hreceives⟩
        · rintro ⟨-, rfl, hother⟩
          refine ⟨rfl, Option.some.inj ?_⟩
          rw [← (inputOf?_eq_some hids).mpr hother, (inputOf?_eq_some hids).mpr hreceives]
      · simp [routeNodes, hroute]
    · have hlast : ¬Taken nodes (routes ++ [r]) routes.length := by rwa [htaken]
      refine ih.concat (fun id outlet' => ?_)
        [.warning (entryPath "connections" routes.length) fault.message] ?_
        (fun h => absurd h hlast) (fun _ => ⟨fault, hholds, rfl⟩)
      · simp [routeNodes, hroute, hlast]
      · simp [routeNodes, hroute]

/-! ## Destinations -/

omit hids in
theorem destinationIn_of_mem {routed : List (String × Outlet)} (h : (routed.map Prod.fst).Nodup)
    {id : String} {outlet : Outlet} (hmem : (id, outlet) ∈ routed) :
    destinationIn routed id = outlet := by
  have hfound : (routed.find? fun d => d.1 == id).isSome := by
    rw [List.find?_isSome]
    exact ⟨_, hmem, beq_self_eq_true id⟩
  obtain ⟨d, hd⟩ := Option.isSome_iff_exists.mp hfound
  have hsame := List.inj_on_of_nodup_map h (List.mem_of_find?_eq_some hd) hmem
    (beq_iff_eq.mp (List.find?_some hd :))
  rw [destinationIn, hd, hsame]
  rfl

omit hids in
theorem destinationIn_of_not_mem {routed : List (String × Outlet)} {id : String}
    (h : id ∉ routed.map Prod.fst) : destinationIn routed id = .hardware := by
  have hnone : routed.find? (fun d => d.1 == id) = none := by
    rw [List.find?_eq_none]
    intro d hd hid
    exact h (List.mem_map.mpr ⟨d, hd, beq_iff_eq.mp hid⟩)
  rw [destinationIn, hnone]
  rfl

variable {α : Type}

omit hids in
theorem effectSynths_eq {routed : List (String × Outlet)} (h : (routed.map Prod.fst).Nodup) :
    effectSynths (α := α) nodes routed =
      (runningIds nodes routed).filterMap fun id =>
        effectSynth? nodes id (destinationIn routed id) := by
  rw [effectSynths, runningIds, List.filterMap_append, List.filterMap_map, List.filterMap_map]
  congr 1
  · refine List.filterMap_congr fun d hd => ?_
    rw [Function.comp_apply, destinationIn_of_mem h hd]
  · refine List.filterMap_congr fun n hn => ?_
    have hnot := (List.mem_filter.mp hn).2
    rw [Bool.not_eq_true', List.any_eq_false] at hnot
    rw [Function.comp_apply, destinationIn_of_not_mem]
    intro hmem
    obtain ⟨d, hd, hid⟩ := List.mem_map.mp hmem
    exact hnot d hd (beq_iff_eq.mpr hid)

theorem perm_effectSynths {routed : List (String × Outlet)} (h : (routed.map Prod.fst).Nodup)
    (hrunning : (runningIds nodes routed).Nodup)
    (hnodes : ∀ d ∈ routed, d.1 ∈ nodes.map NamedNode.id) :
    (effectSynths (α := α) nodes routed).Perm
      ((nodes.filter fun n => n.role == .effect).map fun n =>
        .effect n.name (destinationIn routed n.id)) := by
  have hperm : (runningIds nodes routed).Perm (nodes.map NamedNode.id) := by
    refine (List.perm_ext_iff_of_nodup hrunning hids).mpr fun id => ?_
    rw [runningIds, List.mem_append]
    constructor
    · rintro (hid | hid)
      · obtain ⟨d, hd, rfl⟩ := List.mem_map.mp hid
        exact hnodes d hd
      · exact (List.filter_sublist.map _).subset hid
    · intro hid
      obtain ⟨n, hn, rfl⟩ := List.mem_map.mp hid
      by_cases hrouted : routed.any fun d => d.1 == n.id
      · obtain ⟨d, hd, hsource⟩ := List.any_eq_true.mp hrouted
        exact .inl (List.mem_map.mpr ⟨d, hd, beq_iff_eq.mp hsource⟩)
      · exact .inr (List.mem_map_of_mem (List.mem_filter.mpr ⟨hn, by
          rw [Bool.not_eq_true', Bool.eq_false_iff]
          exact hrouted⟩))
  have hsynths : (nodes.map NamedNode.id).filterMap
      (fun id => effectSynth? (α := α) nodes id (destinationIn routed id)) =
        (nodes.filter fun n => n.role == .effect).map fun n =>
          .effect n.name (destinationIn routed n.id) := by
    rw [List.filterMap_map, ← List.filterMap_eq_map, List.filterMap_filter]
    refine List.filterMap_congr fun n hn => ?_
    rw [Function.comp_apply, effectSynth?, (nodeNamed?_eq_some hids).mpr ⟨hn, rfl⟩]
    simp only [beq_iff_eq, Function.comp_apply]
  rw [effectSynths_eq h, ← hsynths]
  exact hperm.filterMap _

end Routing

/-! ## Graphs -/

variable {α : Type} [Scalar α]

def effectNodes (graph : GraphPlan α) : List NamedNode :=
  graph.nodes.filter fun n => n.role == .effect

def routeReports (p : Performance α) (i : Nat) : List Diagnostic :=
  (planGraph .empty p).diagnostics.filter fun d => d.path == some (entryPath "connections" i)

theorem path_nodeDefinition {i : Nat} {name : String} {n : GraphNode α} {d : Diagnostic}
    (h : d ∈ (nodeDefinition i name n).diagnostics) : d.path = some (entryPath "audioGraph" i) := by
  unfold nodeDefinition at h
  cases hrole : n.kind.role with
  | instrument | unknown =>
    simp only [hrole, playedTemplate] at h
    split at h
    · cases h
    · obtain rfl := List.mem_singleton.mp h
      rfl
  | effect | modulator | sink =>
    rw [hrole] at h
    cases h

omit [Scalar α] in
theorem path_drives {nodes : List NamedNode} {graph : List (GraphNode α)} {d : Diagnostic}
    (h : d ∈ (drives nodes graph).diagnostics) :
    ∃ i, d.path = some (entryPath "audioGraph" i ++ ".target") := by
  rw [drives, Outcome.diagnostics_collectSome, List.flatMap_map] at h
  obtain ⟨⟨⟨named, n⟩, i⟩, -, hd⟩ := List.mem_flatMap.mp h
  dsimp only at hd
  split at hd
  · cases hd
  · obtain rfl := List.mem_singleton.mp hd
    exact ⟨i, rfl⟩

theorem path_ne_connection {d : Diagnostic} {i j : Nat} {x : String}
    (h : d.path = some (entryPath "audioGraph" i ++ x)) :
    d.path ≠ some (entryPath "connections" j) := by
  intro hsame
  have hpath := Option.some.inj (h.symm.trans hsame)
  rw [← String.append_empty (s := entryPath "connections" j)] at hpath
  exact absurd (entryPath_append_inj (by decide) (by decide) hpath).1 (by decide)

/-- Of the reports of a graph, only those on connections name connections. -/
theorem routeReports_eq (p : Performance α) (i : Nat) :
    routeReports p i = (routeNodes (graphPlan p).nodes [] p.routes.zipIdx).diagnostics.filter
      fun d => d.path == some (entryPath "connections" i) := by
  have hnone (ds : List Diagnostic)
      (h : ∀ d ∈ ds, ∃ j x, d.path = some (entryPath "audioGraph" j ++ x)) :
      ds.filter (fun d => d.path == some (entryPath "connections" i)) = [] := by
    rw [List.filter_eq_nil_iff]
    intro d hd heq
    obtain ⟨j, x, hpath⟩ := h d hd
    exact path_ne_connection hpath (beq_iff_eq.mp heq)
  have hsplit : (planGraph .empty p).diagnostics =
      (Outcome.collectSome ((p.graph.zip (nodeNames p)).zipIdx.map fun e =>
        nodeDefinition e.2 e.1.2 e.1.1)).diagnostics ++
      ((routeNodes (graphPlan p).nodes [] p.routes.zipIdx).diagnostics ++
        ((drives (graphPlan p).nodes p.graph).diagnostics ++ [])) := rfl
  rw [routeReports, hsplit, List.filter_append, List.filter_append, List.append_nil]
  rw [hnone (Outcome.collectSome _).diagnostics fun d hd => ?_,
    hnone (drives _ _).diagnostics fun d hd => ?_, List.nil_append, List.append_nil]
  · obtain ⟨j, hj⟩ := path_drives hd
    exact ⟨j, ".target", hj⟩
  · rw [Outcome.diagnostics_collectSome, List.flatMap_map] at hd
    obtain ⟨⟨⟨n, name⟩, j⟩, -, hd⟩ := List.mem_flatMap.mp hd
    exact ⟨j, "", by rw [path_nodeDefinition hd, String.append_empty]⟩

theorem filter_reports {routes : List Route} {told : Nat → List Diagnostic}
    (htold : ∀ i, ∀ d ∈ told i, d.path = some (entryPath "connections" i)) {i : Nat} {r : Route}
    (hr : routes[i]? = some r) :
    (routes.zipIdx.flatMap fun e => told e.2).filter
      (fun d => d.path == some (entryPath "connections" i)) = told i := by
  have hown : (told i).filter (fun d => d.path == some (entryPath "connections" i)) = told i :=
    List.filter_eq_self.mpr fun d hd => beq_iff_eq.mpr (htold i d hd)
  have hother {j : Nat} (hne : j ≠ i) :
      (told j).filter (fun d => d.path == some (entryPath "connections" i)) = [] := by
    rw [List.filter_eq_nil_iff]
    intro d hd heq
    have hpath := Option.some.inj ((htold j d hd).symm.trans (beq_iff_eq.mp heq))
    rw [← String.append_empty (s := entryPath "connections" j),
      ← String.append_empty (s := entryPath "connections" i)] at hpath
    exact hne (entryPath_append_inj (by decide) (by decide) hpath).2.1
  rw [List.filter_flatMap, flatMap_zipIdx_one hr fun r j _ hne => hother (by omega), Nat.zero_add,
    hown]

theorem effect_nodeDefinition (i : Nat) (name : String) (n : GraphNode α) :
    (nodeDefinition i name n).value.bind
        (fun d => if d.purpose == .effect then some d.name else none) =
      if n.kind.role == .effect then some (effectSymbol name) else none := by
  unfold nodeDefinition
  cases hrole : n.kind.role with
  | instrument | unknown | modulator | sink => rfl
  | effect =>
    obtain ⟨t, ht⟩ := effectTemplate?_isSome n.options hrole
    simp [ht]

theorem definitions_effects (p : Performance α) :
    ((graphPlan p).definitions.filter fun d => d.purpose == .effect).map Definition.name =
      (effectNodes (graphPlan p)).map fun n => effectSymbol n.name := by
  rw [effectNodes, ← List.filterMap_eq_map, ← List.filterMap_eq_map, List.filterMap_filter,
    List.filterMap_filter]
  exact filterMap_definitions
    (g := fun n => if n.role == .effect then some (effectSymbol n.name) else none)
    effect_nodeDefinition .empty p

theorem read_nodeDefinition {i : Nat} {name : String} {n : GraphNode α} {d : Definition α}
    (h : (nodeDefinition i name n).value = some d) (hname : IsWord name) :
    (d.purpose = .effect → IsWord d.name) ∧ (d.purpose = .modulator →
      ∃ first later, d.template.body = first :: later ∧ first ≠ effectOpening) := by
  unfold nodeDefinition at h
  cases hrole : n.kind.role with
  | instrument | unknown =>
    simp only [hrole, Outcome.value_bind, Outcome.value_pure, Option.some.injEq] at h
    subst h
    exact ⟨nofun, nofun⟩
  | effect =>
    simp only [hrole, Outcome.value_pure, Option.map_eq_some_iff] at h
    obtain ⟨t, -, rfl⟩ := h
    exact ⟨fun _ => isWord_effectSymbol_iff.mpr hname, nofun⟩
  | modulator =>
    simp only [hrole, Outcome.value_pure, Option.some.injEq] at h
    subst h
    refine ⟨nofun, fun _ => ⟨_, [], rfl, ?_⟩⟩
    simp [effectOpening, ← String.toList_inj]
  | sink =>
    simp only [hrole, Outcome.value_pure, reduceCtorEq] at h

theorem definedEffects_graphPlan (p : Performance α) :
    definedEffects ((graphPlan p).definitions.flatMap Definition.lines) =
      (effectNodes (graphPlan p)).map fun n => "fx_" ++ n.name := by
  rw [definedEffects_flatMap, definitions_effects]
  · rfl
  · intro d hd
    rw [graphPlan, definitions_planGraph] at hd
    obtain ⟨e, he, hvalue⟩ := List.mem_filterMap.mp hd
    have hname := (List.of_mem_zip (List.fst_mem_of_mem_zipIdx he)).2
    exact read_nodeDefinition hvalue (isWord_getAll [] _ e.1.2 hname)

def effectLines (server : String) (p : Performance α) : List Line :=
  (graphPlan p).effects.flatMap (Statement.lines server)

theorem startedSynths_graphPlan (server : String) (p : Performance α) :
    (effectLines server p).filterMap (startedSynth? server) =
      (graphPlan p).effects.filterMap Statement.synth? := by
  refine startedSynths_lines server fun st hst => .inr ?_
  have hsound := sound_graphPlan p
  rw [hsound.effects] at hst
  obtain ⟨name, outlet, ⟨n, hn, -, rfl⟩, hreaches, rfl⟩ := mem_effectSynths hsound.destinations hst
  have hnodes := isWord_nodes_planGraph [] p
  exact ⟨n.name, outlet, rfl, hnodes n hn, hreaches.isWord hnodes⟩

/-- What a graph does with its connections and effects. -/
structure Accounted (p : Performance α) : Prop where
  nodes : (graphPlan p).nodes.map (fun n => (n.id, n.role)) =
    p.graph.map fun n => (n.id, n.kind.role)
  taken : ∀ i r, p.routes[i]? = some r →
    (Taken (graphPlan p).nodes p.routes i ↔ Fits (graphPlan p).nodes r ∧
      ∀ j < i, Taken (graphPlan p).nodes p.routes j →
        ∀ earlier ∈ p.routes[j]?, earlier.source ≠ r.source)
  leads : ∀ i r, p.routes[i]? = some r → Taken (graphPlan p).nodes p.routes i →
    Receives (graphPlan p).nodes r.target ((graphPlan p).destination r.source) ∧
      routeReports p i = []
  reported : ∀ i r, p.routes[i]? = some r → ¬Taken (graphPlan p).nodes p.routes i →
    ∃ fault : RouteFault, fault.Holds (graphPlan p).nodes r ∧
      routeReports p i = [.warning (entryPath "connections" i) fault.message]
  unrouted : ∀ id, (∀ i r, p.routes[i]? = some r → Taken (graphPlan p).nodes p.routes i →
    r.source ≠ id) → (graphPlan p).destination id = .hardware
  names : ((effectNodes (graphPlan p)).map NamedNode.name).Nodup
  buses : ∀ server, ((graphPlan p).buses.flatMap (Statement.lines server)).filterMap
    (allocatedBus? server) = (effectNodes (graphPlan p)).map NamedNode.name
  definitions : definedEffects ((graphPlan p).definitions.flatMap Definition.lines) =
    (effectNodes (graphPlan p)).map fun n => "fx_" ++ n.name
  synths : ∀ server, ((effectLines server p).filterMap (startedSynth? server)).Perm
    ((effectNodes (graphPlan p)).map fun n => ⟨"~fx_" ++ n.name, "fx_" ++ n.name, n.name,
      (graphPlan p).destination n.id⟩)

/-- Where ids are distinct, a graph accounts for every connection and starts every effect. -/
theorem accounted_planGraph (p : Performance α) (hids : (p.graph.map GraphNode.id).Nodup) :
    Accounted p := by
  have handed := handedOut p hids
  have hlength : (nodeNames p).length = p.graph.length := by
    rw [nodeNames, Names.length_getAll, List.length_map]
  have hrouted := routed_routeNodes handed.ids p.routes
  have hdestinations : (graphPlan p).destinations =
    (routeNodes (graphPlan p).nodes [] p.routes.zipIdx).value := rfl
  obtain ⟨told, htold, hpaths, hall⟩ := hrouted.reports
  have hreports {i : Nat} {r : Route} (hr : p.routes[i]? = some r) : routeReports p i = told i := by
    rw [routeReports_eq, htold, filter_reports hpaths hr]
  constructor
  case nodes =>
    rw [nodes_graphPlan, nameNodes, List.map_zipWith, ← List.map_uncurry_zip_eq_zipWith]
    conv_rhs => rw [← List.map_fst_zip (Nat.le_of_eq hlength.symm), List.map_map]
    rfl
  case taken => exact fun i r hr => taken_iff hr
  case leads =>
    intro i r hr htaken
    obtain ⟨outlet, hreceives⟩ := (htaken.fits hr).target.exists_receives handed.ids
    have hmem : (r.source, outlet) ∈ (graphPlan p).destinations :=
      (hrouted.value _ _).mpr ⟨i, r, hr, htaken, rfl, hreceives⟩
    rw [GraphPlan.destination, destinationIn_of_mem handed.routed hmem, hreports hr]
    exact ⟨hreceives, (hall i r hr).1 htaken⟩
  case reported =>
    intro i r hr hleft
    rw [hreports hr]
    exact (hall i r hr).2 hleft
  case unrouted =>
    intro id hnone
    refine destinationIn_of_not_mem fun hmem => ?_
    obtain ⟨⟨_, outlet⟩, hd, rfl⟩ := List.mem_map.mp hmem
    obtain ⟨i, r, hr, htaken, hsource, -⟩ := (hrouted.value _ _).mp hd
    exact hnone i r hr htaken hsource
  case names => exact handed.names.sublist (List.filter_sublist.map _)
  case buses =>
    intro server
    have hbuses : (graphPlan p).buses =
        ((effectNodes (graphPlan p)).map NamedNode.name).map .audioBus := by
      rw [(sound_graphPlan p).buses, List.map_map]
      rfl
    rw [hbuses]
    refine allocatedBuses_lines server (List.forall_mem_map.mpr fun n hn => ?_)
    exact isWord_nodes_planGraph [] p n (List.mem_filter.mp hn).1
  case definitions => exact definedEffects_graphPlan p
  case synths =>
    intro server
    have hnodes : ∀ d ∈ (graphPlan p).destinations,
        d.1 ∈ (graphPlan p).nodes.map NamedNode.id := by
      intro d hd
      obtain ⟨i, r, hr, htaken, hsource, -⟩ := (hrouted.value d.1 d.2).mp hd
      obtain ⟨n, hn, hid, -⟩ := (htaken.fits hr).source
      exact List.mem_map.mpr ⟨n, hn, hid.trans hsource⟩
    have hperm := (perm_effectSynths (α := α) handed.ids handed.routed handed.nodup_runningIds
      hnodes).filterMap Statement.synth?
    rw [List.filterMap_map] at hperm
    rw [startedSynths_graphPlan, (sound_graphPlan p).effects]
    exact hperm.trans (.of_eq (congrFun List.filterMap_eq_map _))

/-- Of the connections from a part only the first one counts, one into a modulator and one from an
unknown node are reported, and of two effects one plays into the other, which plays to the hardware
without being routed. -/
theorem accounted_planGraph_song :
    let song : Performance Rat := ⟨formatName, formatVersion, 120, .common, none, .constant 120,
      [], [], ⟨none, none, none⟩,
      [⟨"lead", .synth, [], none, none⟩, ⟨"room", .reverb, [], none, none⟩,
        ⟨"wave", .lfo, [], some "room.wet", none⟩, ⟨"echo", .delay, [], none, none⟩],
      [⟨"lead", "wave"⟩, ⟨"lead", "room"⟩, ⟨"lead", "master"⟩, ⟨"hall", "room"⟩,
        ⟨"echo", "room"⟩], [], [], [], []⟩
    (song.graph.map GraphNode.id).Nodup ∧ Accounted song ∧
      (graphPlan song).destination "lead" = .bus "room" ∧
      effectLines "s" song =
        [.plain "~fx_echo = Synth.tail(s, \\fx_echo, [\\in, ~bus_echo, \\out, ~bus_room]);",
          .plain "~fx_room = Synth.tail(s, \\fx_room, [\\in, ~bus_room, \\out, 0]);"] ∧
      (effectLines "s" song).filterMap (startedSynth? "s") =
        [⟨"~fx_echo", "fx_echo", "echo", .bus "room"⟩, ⟨"~fx_room", "fx_room", "room", .hardware⟩] ∧
      (planGraph .empty song).diagnostics =
        [.warning "connections[0]" "cannot route audio into 'wave', skipped",
          .warning "connections[2]"
            "'lead' is already routed, only its first connection is used",
          .warning "connections[3]" "connection names unknown node 'hall', skipped"] := by
  intro song
  have hids : (song.graph.map GraphNode.id).Nodup := by decide
  exact ⟨hids, accounted_planGraph song hids, by decide +kernel, by decide +kernel,
    by decide +kernel, by decide +kernel⟩

end Partitura.Script
