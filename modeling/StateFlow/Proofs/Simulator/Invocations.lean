import StateFlow.Proofs.Execution.Invocations
import StateFlow.Proofs.Simulator.Session

/-!
# What the events of Map items tell apart

The events of states carry the name of the state and the index of the item, and in Maps inside Maps
it is the index in the innermost one.  A log of a session keeps beside each event the address from
which it was told, the indices on the whole way (`Simulator.log`).  Addresses tell all running
invocations apart, names and indices do not: two invocations have them in common exactly when they
are in one state, have the same innermost index and lie under different items further out
(`Simulator.toldApart_iff`).  With Maps of one level that never happens
(`Simulator.toldApart_of_length`).

## Main definitions

* `Simulator.log`: what the execution at a place tells of states in a session, with the addresses

## Main results

* `Simulator.recounts_session`: the log recounts the execution after every session
* `Simulator.toldApart_iff`: when names and indices tell the running invocations apart
-/

namespace StateFlow

namespace Simulator

/-- What a request makes the execution at a place tell of states. -/
def told (place : Nat) (sim sim' : Simulator) (r : Request) : List Telling :=
  match sim.engine.executions[place]?, sim'.engine.executions[place]? with
  | some e, some e' => e.tellings (r.leafAt? place) e'
  | _, _ => []

/-- What the execution at a place tells of states in a session. -/
def log (place : Nat) (sim : Simulator) : List Request → List Telling
  | [] => []
  | r :: rs =>
    match sim.serve? r with
    | some sim' => told place sim sim' r ++ log place sim' rs
    | none => []

theorem log_concat {sim s s' : Simulator} {place : Nat} {rs : List Request} {r : Request}
    (hs : sim.after? rs = some s) (hr : s.serve? r = some s') :
    log place sim (rs ++ [r]) = log place sim rs ++ told place s s' r := by
  induction rs generalizing sim with
  | nil =>
    obtain rfl : sim = s := Option.some.inj hs
    simp [log, hr]
  | cons r₁ rs ih =>
    obtain ⟨sim₁, hr₁, hs⟩ := Option.bind_eq_some_iff.mp hs
    rw [List.cons_append, log, log, hr₁]
    dsimp only
    rw [ih hs, List.append_assoc]

variable {services : Services} {origin : Timestamp} {rs : List Request} {sim : Simulator}
  {place : Nat} {e : Execution}

/-- What is told after every session is recounted by its log. -/
theorem recounts_session (h : (initial services origin).after? rs = some sim) :
    (∀ e, sim.engine.executions[place]? = some e →
      e.Recounts (log place (initial services origin) rs)) ∧
    (sim.engine.executions[place]? = none → log place (initial services origin) rs = []) := by
  refine session_induction (P := fun rs sim => (∀ e, sim.engine.executions[place]? = some e →
      e.Recounts (log place (initial services origin) rs)) ∧
      (sim.engine.executions[place]? = none → log place (initial services origin) rs = []))
    ⟨by simp [initial, Engine.initial], fun _ => rfl⟩ ?_ rs h
  intro rs s r s' hs hlog hr
  rw [log_concat hs hr]
  constructor
  · intro e' he'
    rcases serve?_execution hr he' with ⟨e, he, hchange⟩ | ⟨_, _, _, _, _, rfl, rfl⟩
    · have htold : told place s s' r = e.tellings (r.leafAt? place) e' := by
        simp only [told, he, he']
      rw [htold]
      exact (hlog.1 e he).change hchange
    · have hnone : s.engine.executions[s.engine.executions.length]? = none := by simp
      have htold : told s.engine.executions.length s s' r = [] := by
        simp only [told, hnone]
      rw [htold, hlog.2 hnone]
      exact Execution.recounts_create _ _
  · intro hnone'
    have hnone : s.engine.executions[place]? = none := by
      rw [Option.eq_none_iff_forall_ne_some]
      intro e he
      obtain ⟨e', he', -⟩ := serve?_execution_of hr he
      rw [hnone'] at he'
      cases he'
    have htold : told place s s' r = [] := by
      simp only [told, hnone]
    rw [htold, hlog.2 hnone, List.append_nil]

end Simulator

namespace Execution

variable {e : Execution} {log : List Telling}

/-- An open event carries the index at the end of its address. -/
theorem Recounts.item?_eq (h : e.Recounts log) {position : Nat} {address : List Nat}
    {state : String} {item? : Option Nat} (hopen : e.Opens log position address state item?) :
    item? = address.getLast? := by
  obtain ⟨t, ht, rfl, hentered⟩ := hopen.entered
  have hitem := h.items t (List.mem_of_getElem? ht)
  cases hevent : t.event with
  | stateEntered state' kind input item?' =>
    rw [hevent] at hitem hentered
    obtain ⟨-, rfl⟩ := Prod.mk.inj (Option.some.inj hentered)
    exact hitem
  | _ =>
    rw [hevent] at hentered
    cases hentered

/-- Invocations of one state of an execution stand at addresses of one length. -/
theorem Recounts.length_eq (h : e.Recounts log) (hvalid : e.machine.violations = [])
    {address address' : List Nat} {state : String} (hinside : e.inside? address = some state)
    (hinside' : e.inside? address' = some state) : address.length = address'.length := by
  obtain ⟨root, hroot, hinside⟩ := Option.bind_eq_some_iff.mp hinside
  obtain ⟨root', hroot', hinside'⟩ := Option.bind_eq_some_iff.mp hinside'
  obtain rfl : root = root' := Option.some.inj (hroot.symm.trans hroot')
  have hsound := h.sound
  unfold Sound at hsound
  unfold frame? at hroot
  split at hroot
  · next run deadline? hphase =>
    rw [hphase] at hsound
    obtain rfl := Option.some.inj hroot
    exact Frame.length_eq_of_inside hsound (Machine.nodup_stateNames hvalid) hinside hinside'
  · cases hroot

/-- Names and indices tell the running invocations apart exactly when no two of one state have the
same innermost index under different items further out. -/
theorem Recounts.apart_iff (h : e.Recounts log) (hvalid : e.machine.violations = []) :
    e.ToldApart log ↔ ∀ outer outer' index state, e.inside? (outer ++ [index]) = some state →
      e.inside? (outer' ++ [index]) = some state → outer = outer' := by
  constructor
  · intro hapart outer outer' index state hinside hinside'
    obtain ⟨i, hi⟩ := h.opens _ state hinside
    obtain ⟨j, hj⟩ := h.opens _ state hinside'
    rw [List.getLast?_concat] at hi hj
    obtain rfl := hapart i j _ _ state (some index) hi hj
    obtain ⟨t, ht, haddress, -⟩ := hi.entered
    obtain ⟨t', ht', haddress', -⟩ := hj.entered
    obtain rfl := Option.some.inj (ht.symm.trans ht')
    exact List.append_cancel_right (haddress.symm.trans haddress')
  · intro hunique i j address address' state item? hi hj
    have hlength := h.length_eq hvalid hi.running hj.running
    have hlast : address.getLast? = address'.getLast? :=
      (h.item?_eq hi).symm.trans (h.item?_eq hj)
    have haddress : address = address' := by
      rcases List.eq_nil_or_concat address with rfl | ⟨outer, index, rfl⟩
      · exact (List.length_eq_zero_iff.mp hlength.symm).symm
      · rcases List.eq_nil_or_concat address' with rfl | ⟨outer', index', rfl⟩
        · simp at hlength
        · rw [List.concat_eq_append, List.concat_eq_append] at *
          rw [List.getLast?_concat, List.getLast?_concat] at hlast
          obtain rfl := Option.some.inj hlast
          rw [hunique outer outer' index state hi.running hj.running]
    subst haddress
    exact hi.unique hj

end Execution

namespace Simulator

variable {services : Services} {origin : Timestamp} {rs : List Request} {sim : Simulator}
  {place : Nat} {e : Execution}

/-- With items of one level at most, names and indices tell the running invocations apart. -/
theorem toldApart_of_length (h : (initial services origin).after? rs = some sim)
    (he : sim.engine.executions[place]? = some e)
    (hlength : ∀ address state, e.inside? address = some state → address.length ≤ 1) :
    e.ToldApart (log place (initial services origin) rs) := by
  have hvalid := (accepts_session h).executions place e he
  rw [((recounts_session h).1 e he).apart_iff hvalid]
  intro outer outer' index state hinside hinside'
  have hle := hlength _ state hinside
  have hle' := hlength _ state hinside'
  rw [List.length_append, List.length_singleton] at hle hle'
  rw [List.length_eq_zero_iff.mp (by omega : outer.length = 0),
    List.length_eq_zero_iff.mp (by omega : outer'.length = 0)]

/-- **The events of an execution tell its running invocations apart by their addresses, and by state
and item only where no two items further out are in one state with the same innermost index.**  Each
event of a state carries the last index of the address from which it was told.  Each running
invocation has told exactly one event that is still open, with its state and that index. -/
theorem toldApart_iff (h : (initial services origin).after? rs = some sim)
    (he : sim.engine.executions[place]? = some e) :
    (log place (initial services origin) rs).map (·.event) = e.events.filter Event.isOfState ∧
    (∀ t ∈ log place (initial services origin) rs, t.event.IsOf t.address.getLast?) ∧
    (∀ address state, e.inside? address = some state →
      ∃! i, e.Opens (log place (initial services origin) rs) i address state address.getLast?) ∧
    (∀ address address' state, e.inside? address = some state → e.inside? address' = some state →
      address.length = address'.length) ∧
    (e.ToldApart (log place (initial services origin) rs) ↔
      ∀ outer outer' index state, e.inside? (outer ++ [index]) = some state →
        e.inside? (outer' ++ [index]) = some state → outer = outer') := by
  have hvalid := (accepts_session h).executions place e he
  have hlog := (recounts_session h).1 e he
  refine ⟨hlog.events, hlog.items, fun address state hinside => ?_, ?_, hlog.apart_iff hvalid⟩
  · obtain ⟨i, hi⟩ := hlog.opens address state hinside
    exact ⟨i, hi, fun j hj => hj.unique hi⟩
  · intro address address' state hinside hinside'
    exact hlog.length_eq hvalid hinside hinside'

/-! ### A Map inside a Map -/

/-- Services without functions. -/
def bare : Services := .standard Bindings.none fun _ => none

/-- A Map state whose items are lists, each of which a Map state inside it goes through, waiting a
second at each item. -/
def nested : Machine where
  comment? := none
  startAt := "Outer"
  states := [("Outer",
    .map ⟨none, none, none, none, 0, .absent, .absent, .absent, ⟨none, true⟩⟩
      (some ⟨none, "Inner", [("Inner",
        .map ⟨none, none, none, none, 0, .absent, .absent, .absent, ⟨none, true⟩⟩
          (some ⟨none, "Wait", [("Wait",
            .wait ⟨none, some 1, none, none, none, .absent, .absent, ⟨none, true⟩⟩)], none⟩)
          none)], none⟩) none)]
  timeout? := none

/-- Two lists of one item each, and the steps up to the moment at which both items wait. -/
def bothWaiting : List Request :=
  [.register "m" nested, .start "m" (.array [.array [.null], .array [.null]]), .move (.start 0),
    .move (.leaf 0 .step []), .move (.leaf 0 .step [0]), .move (.leaf 0 .step [1]),
    .move (.leaf 0 .step [0, 0]), .move (.leaf 0 .step [1, 0])]

/-- At that moment both items wait, and their entries as told differ in the address only. -/
theorem run_bothWaiting :
    ∃ sim e, (initial bare default).after? bothWaiting = some sim ∧
      sim.engine.executions[0]? = some e ∧
      (log 0 (initial bare default) bothWaiting).map (fun t => (t.address, t.event.entry?)) =
        [([], some ("Outer", none)), ([0], some ("Inner", some 0)), ([1], some ("Inner", some 1)),
          ([0, 0], some ("Wait", some 0)), ([1, 0], some ("Wait", some 0))] ∧
      e.inside? [0, 0] = some "Wait" ∧ e.inside? [1, 0] = some "Wait" := by
  have hlog : (log 0 (initial bare default) bothWaiting).map
      (fun t => (t.address, t.event.entry?)) =
        [([], some ("Outer", none)), ([0], some ("Inner", some 0)), ([1], some ("Inner", some 1)),
          ([0, 0], some ("Wait", some 0)), ([1, 0], some ("Wait", some 0))] := by decide +kernel
  have hcheck : ((initial bare default).after? bothWaiting).bind (fun sim =>
      (sim.engine.executions[0]?).map fun e => (e.inside? [0, 0], e.inside? [1, 0])) =
        some (some "Wait", some "Wait") := by decide +kernel
  obtain ⟨sim, hsim, hcheck⟩ := Option.bind_eq_some_iff.mp hcheck
  obtain ⟨e, he, hcheck⟩ := Option.map_eq_some_iff.mp hcheck
  exact ⟨sim, e, hsim, he, hlog, Prod.mk.inj hcheck⟩

/-- Each of the two is open with one event, but what their events say of state and item is the
same. -/
theorem toldApart_iff_nested :
    ∃ sim e, (initial bare default).after? bothWaiting = some sim ∧
      sim.engine.executions[0]? = some e ∧
      (∃! i, e.Opens (log 0 (initial bare default) bothWaiting) i [1, 0] "Wait" (some 0)) ∧
      ¬ e.ToldApart (log 0 (initial bare default) bothWaiting) := by
  obtain ⟨sim, e, hsim, he, -, hfirst, hsecond⟩ := run_bothWaiting
  obtain ⟨-, -, hopens, -, hiff⟩ := toldApart_iff hsim he
  refine ⟨sim, e, hsim, he, hopens [1, 0] "Wait" hsecond, fun hapart => ?_⟩
  have hsame := hiff.mp hapart [0] [1] 0 "Wait" hfirst hsecond
  cases hsame

/-- **Two events of entries that are both open, of running invocations, can have one state and one
item**: here those at the fourth and the fifth position of the log. -/
theorem open_same_state_item :
    ∃ sim e i j address address', i ≠ j ∧ (initial bare default).after? bothWaiting = some sim ∧
      sim.engine.executions[0]? = some e ∧
      e.Opens (log 0 (initial bare default) bothWaiting) i address "Wait" (some 0) ∧
      e.Opens (log 0 (initial bare default) bothWaiting) j address' "Wait" (some 0) := by
  obtain ⟨sim, e, hsim, he, hlog, hfirst, hsecond⟩ := run_bothWaiting
  -- what is open can be read off the addresses and the entries
  have hopens : ∀ i address, e.inside? address = some "Wait" →
      ((log 0 (initial bare default) bothWaiting).map
        (fun t => (t.address, t.event.entry?)))[i]? = some (address, some ("Wait", some 0)) →
      (∀ p ∈ ((log 0 (initial bare default) bothWaiting).map
        (fun t => (t.address, t.event.entry?))).drop (i + 1), p.1 ≠ address) →
      e.Opens (log 0 (initial bare default) bothWaiting) i address "Wait" (some 0) := by
    intro i address hinside hentry hlast
    rw [List.getElem?_map] at hentry
    obtain ⟨t, ht, heq⟩ := Option.map_eq_some_iff.mp hentry
    refine ⟨⟨t, ht, Prod.mk.inj heq⟩, hinside, fun t' ht' => ?_⟩
    rw [← List.map_drop] at hlast
    exact hlast _ (List.mem_map_of_mem ht')
  rw [hlog] at hopens
  exact ⟨sim, e, 3, 4, [0, 0], [1, 0], by decide, hsim, he,
    hopens 3 [0, 0] hfirst rfl (by decide), hopens 4 [1, 0] hsecond rfl (by decide)⟩

end Simulator

end StateFlow
