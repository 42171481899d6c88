import StateFlow.Proofs.Execution.Provenance
import StateFlow.Proofs.Simulator.Aborting

/-!
# Where the faults of executions come from

Whatever is asked of a simulator, the run of a frame, of an execution or of an item at any depth,
ends with its output, with the cancellation, or with a fault that was raised in the frame itself or
in a frame inside it; and in the last case it is wrapped once for each Map state in between
(`Simulator.comesFrom_of_ended`).  So the cancellation is never hidden in a wrapper, the depth at
which a fault was raised can be read off it, and it is reported under the name of what was raised.

## Main definitions

* `Simulator.RaisedAt`: in a session, the frame at the end of a path ended with a fault of its own
* `Execution.Accounted`: an execution whose frames are accounted for

## Main results

* `Simulator.accounted_of_start`, `Simulator.accounted_session`: executions are accounted for by
  what was raised in the session
* `Simulator.comesFrom_of_ended`: where the faults of runs and of executions come from
-/

namespace StateFlow

namespace Execution

variable {e e' : Execution} {R R' : List (String × Nat) → Fault → Prop} {services : Services}
  {w : World} {leaf? : Option (Run.LeafMove × List Nat)}

/-- An execution whose frames `R` accounts for.  The time-out of the whole execution and what aborts
it are no faults of its run. -/
def Accounted (R : List (String × Nat) → Fault → Prop) (e : Execution) : Prop :=
  match e.phase with
  | .created | .finished (.ok _) => True
  | .running run _ => Frame.Accounted R ⟨e.machine, none, run⟩
  | .finished (.error fault) => (∃ seconds, fault = .executionTimedOut seconds) ∨
    (∃ report, fault = .executionAborted report) ∨ fault.ComesFrom R

theorem Accounted.mono (h : e.Accounted R) (hR : ∀ path leaf, R path leaf → R' path leaf) :
    e.Accounted R' := by
  unfold Accounted at h ⊢
  split at h
  · trivial
  · trivial
  · exact Frame.Accounted.mono h hR
  · exact h.imp_right fun h => h.imp_right fun h => h.mono hR

theorem Accounted.root (h : e.Accounted R) {root : Frame} (hroot : e.frame? = some root) :
    root.Accounted R := by
  obtain ⟨run, deadline?, hphase, rfl⟩ := frame?_eq_some hroot
  simpa only [Accounted, hphase] using h

/-- **An execution stays accounted for** by what the leaf that moves raises. -/
theorem Accounted.change (he : e.Accounted R) (hsound : e.Sound fun _ _ => True)
    (h : e.Change services w leaf? e')
    (hR : ∀ move address root path fault, leaf? = some (move, address) → e.frame? = some root →
      Run.RaisesAt ⟨services, e.identity⟩ move (e.situation w) root address path fault →
      R path fault) : e'.Accounted R := by
  cases h with
  | same => exact he
  | started h =>
    obtain ⟨-, started, rfl⟩ := start?_eq_some h
    exact .leaf rfl
  | moved h =>
    obtain ⟨run, deadline?, s, run', hphase, hmove, -, rfl⟩ := moveAt?_eq_some h
    have hrun : Frame.Accounted R ⟨e.machine, none, run⟩ := by
      simpa only [Accounted, hphase] using he
    have hframes : Frame.Everywhere (Frame.Sound e.machine fun _ _ => True)
        ⟨e.machine, none, run⟩ := by
      simpa only [Sound, hphase] using hsound
    have hrun' : Frame.Accounted R ⟨e.machine, none, run'⟩ :=
      hrun.moveAt hframes hmove fun path fault =>
        hR _ _ _ path fault rfl (by simp [frame?, hphase])
    rcases withRun_cases (e.inSituation s) deadline? run' with ⟨result, rfl, heq⟩ | ⟨-, heq⟩
    · rw [heq]
      cases result with
      | ok output => trivial
      | error fault => exact .inr (.inr hrun'.comesFrom)
    · rw [heq]
      exact hrun'
  | aborted h =>
    obtain ⟨run, deadline?, report, -, -, -, rfl⟩ := abort?_eq_some h
    exact .inr (.inl ⟨report, rfl⟩)
  | expired h =>
    obtain ⟨run, deadline, -, -, rfl⟩ := expire?_eq_some h
    exact .inl ⟨_, rfl⟩
  | cancelled => exact he

end Execution

namespace Simulator

/-- In some move of a session the frame at the end of a path, in the execution at a place, ended
with a fault of its own. -/
def RaisedAt (origin : Simulator) (rs : List Request) (place : Nat) (path : List (String × Nat))
    (fault : Fault) : Prop :=
  ∃ before move address sim e root,
    before ++ [.move (.leaf place move address)] <+: rs ∧ origin.after? before = some sim ∧
    sim.engine.executions[place]? = some e ∧ e.frame? = some root ∧
    Run.RaisesAt ⟨sim.engine.services, e.identity⟩ move (e.situation sim.engine.world) root address
      path fault

variable {sim sim₁ sim₂ origin s s' : Simulator} {r : Request} {rs rs' : List Request}
  {name : String} {input : Json} {place : Nat} {path : List (String × Nat)} {fault : Fault}

theorem RaisedAt.mono (h : RaisedAt sim rs place path fault) (hrs : rs <+: rs') :
    RaisedAt sim rs' place path fault := by
  obtain ⟨before, move, address, sim', e, root, hbefore, h⟩ := h
  exact ⟨before, move, address, sim', e, root, hbefore.trans hrs, h⟩

/-- A request adds to what was raised in the session, and an execution stays accounted for. -/
theorem accounted_serve? {e e' : Execution} (hs : origin.after? rs = some s)
    (he : s.engine.executions[place]? = some e) (hsound : e.Sound fun _ _ => True)
    (haccounted : e.Accounted (RaisedAt origin rs place))
    (hchange : e.Change s.engine.services s.engine.world (r.leafAt? place) e') :
    e'.Accounted (RaisedAt origin (rs ++ [r]) place) := by
  refine (haccounted.mono fun _ _ hraised => hraised.mono (List.prefix_append rs [r])).change
    hsound hchange fun move address root path fault hleaf hroot hraises => ?_
  obtain rfl := Request.leafAt?_eq_some_iff.mp hleaf
  exact ⟨rs, move, address, s, e, root, List.prefix_refl _, hs, he, hroot, hraises⟩

/-- After every session the frames of an execution that was started keep to its machine, and are
accounted for by what was raised in the session. -/
theorem accounted_of_start (hstart : sim.start name input = .ok (sim₁, place))
    (hrs : sim₁.after? rs = some sim₂) :
    ∃ e, sim₂.engine.executions[place]? = some e ∧ (e.Sound fun _ _ => True) ∧
      e.Accounted (RaisedAt sim₁ rs place) := by
  obtain ⟨machine, -, executionName, he⟩ := start_eq_ok hstart
  refine session_induction (P := fun rs s => ∃ e, s.engine.executions[place]? = some e ∧
    (e.Sound fun _ _ => True) ∧ e.Accounted (RaisedAt sim₁ rs place))
    ⟨_, he, trivial, trivial⟩ ?_ rs hrs
  rintro rs s r s' hs ⟨e, he, hsound, haccounted⟩ hr
  obtain ⟨e', he', hchange⟩ := serve?_execution_of hr he
  exact ⟨e', he', hchange.sound hsound, accounted_serve? hs he hsound haccounted hchange⟩

/-- After every session all frames keep to the machines of their executions, and are accounted for
by what was raised in the session. -/
theorem accounted_session {services : Services} {start : Timestamp}
    (h : (initial services start).after? rs = some sim) :
    ∀ (place : Nat) (e : Execution), sim.engine.executions[place]? = some e →
      (e.Sound fun _ _ => True) ∧ e.Accounted (RaisedAt (initial services start) rs place) := by
  refine session_induction (P := fun rs sim => ∀ (place : Nat) (e : Execution),
    sim.engine.executions[place]? = some e →
      (e.Sound fun _ _ => True) ∧ e.Accounted (RaisedAt (initial services start) rs place))
    (by simp [initial, Engine.initial]) (fun rs s r s' hs ih hr place e' he' => ?_) rs h
  rcases serve?_execution hr he' with ⟨e, he, hchange⟩ | ⟨_, _, _, _, _, _, rfl⟩
  · obtain ⟨hsound, haccounted⟩ := ih place e he
    exact ⟨hchange.sound hsound, accounted_serve? hs he hsound haccounted hchange⟩
  · exact ⟨trivial, trivial⟩

/-- **Where a fault comes from.**  After every session, at whatever path from the root of an
execution a run ends with a fault, this is the cancellation, or it was raised at the end of a path
that goes on from there and is wrapped once for each step of that path, the Map state and the index
of the item; it bears the name of what was raised.  The same holds of the result of the execution,
unless the whole of it has timed out, or was aborted because a function panicked. -/
theorem comesFrom_of_ended (hstart : sim.start name input = .ok (sim₁, place))
    (hrs : sim₁.after? rs = some sim₂) :
    ∃ e, sim₂.engine.executions[place]? = some e ∧
      (∀ root path g move address s' fault, e.frame? = some root → root.LeadsTo path g →
        Run.moveAt ⟨sim₂.engine.services, e.identity⟩ move g.machine g.item?
          (e.situation sim₂.engine.world) address g.run = some (s', .ended (.error fault)) →
        fault.ComesFrom fun inner leaf => RaisedAt sim₁
          (rs ++ [.move (.leaf place move (addressOf path ++ address))]) place (path ++ inner)
          leaf) ∧
      ∀ fault, e.result? = some (.error fault) →
        (∃ seconds, fault = .executionTimedOut seconds) ∨
          (∃ report, Panics sim₁ rs place report ∧ fault = .executionAborted report) ∨
          fault.ComesFrom (RaisedAt sim₁ rs place) := by
  obtain ⟨e, he, hsound, haccounted⟩ := accounted_of_start hstart hrs
  refine ⟨e, he, fun root path g move address s' fault hroot hpath hmove => ?_,
    fun fault hresult => ?_⟩
  · have hframe := haccounted.root hroot
    -- the move of the inner run is one of the whole execution, at a longer address
    have hinner := ((hframe.of_leadsTo hpath).mono fun inner leaf hraised =>
      hraised.mono (List.prefix_append rs
        [.move (.leaf place move (addressOf path ++ address))])).moveAt
      ((hsound.root hroot).of_at? hpath.at?) hmove fun inner leaf hraises =>
        ⟨rs, move, _, sim₂, e, root, List.prefix_refl _, hrs, he, hroot,
          hframe.raisesAt hpath hraises⟩
    exact hinner.comesFrom
  · have hcauses : (∃ seconds, fault = .executionTimedOut seconds) ∨
        (∃ report, fault = .executionAborted report) ∨
          fault.ComesFrom (RaisedAt sim₁ rs place) := by
      simpa only [Execution.Accounted, Execution.result?_eq_some_iff.mp hresult] using haccounted
    refine hcauses.imp_right fun hcauses => hcauses.imp_left ?_
    rintro ⟨report, rfl⟩
    exact ⟨report, panics_of_start hstart hrs he hresult, rfl⟩

/-! ### A fault two Map states down -/

/-- A Choice state that wants a string and has no default. -/
def choosing : Machine where
  comment? := none
  startAt := "Choose"
  states := [("Choose", .choice ⟨none,
    [.test ⟨some "$", some "Choose"⟩ (.type .isString true)], none, .absent, .absent⟩)]
  timeout? := none

/-- A Map state that runs `choosing` for each item. -/
def mapping : Machine where
  comment? := none
  startAt := "Each"
  states := [("Each", .map ⟨none, none, none, none, 0, .absent, .absent, .absent, ⟨none, true⟩⟩
    (some choosing) none)]
  timeout? := none

/-- A Map state that runs `mapping` for each item. -/
def mappingTwice : Machine where
  comment? := none
  startAt := "Rows"
  states := [("Rows", .map ⟨none, none, none, none, 0, .absent, .absent, .absent, ⟨none, true⟩⟩
    (some mapping) none)]
  timeout? := none

/-- A simulator that knows `mappingTwice`, and no functions. -/
def knowingRows : Simulator :=
  ⟨[("m", mappingTwice)], Engine.initial (.standard .none fun _ => none) default⟩

/-- Two rows, the first of them empty, and the one item of the second no string. -/
def twoRows : Json := .array [.array [], .array [.null]]

/-- A simulator in which an execution was started with the rows. -/
def startedRows : Simulator :=
  { knowingRows with engine := (knowingRows.engine.launch "m" mappingTwice twoRows).1 }

/-- A session in which both rows and the item are looked at. -/
def rowsSession : List Request :=
  [.move (.start 0), .move (.leaf 0 .step []), .move (.leaf 0 .step [0]), .move (.leaf 0 .step [0]),
    .move (.leaf 0 .step [1]), .move (.leaf 0 .step [1, 0])]

/-- What failed is the first item of the second row, and so says the fault of the execution. -/
theorem comesFrom_of_ended_rows :
    knowingRows.start "m" twoRows = .ok (startedRows, 0) ∧
    ∃ sim e, startedRows.after? rowsSession = some sim ∧ sim.engine.executions[0]? = some e ∧
      e.result? = some (.error
        (.itemFailed "Rows" 1 (.itemFailed "Each" 0 (.noMatchingChoice "Choose")))) ∧
      RaisedAt startedRows rowsSession 0 [("Rows", 1), ("Each", 0)]
        (.noMatchingChoice "Choose") := by
  have hstart : knowingRows.start "m" twoRows = .ok (startedRows, 0) := rfl
  have hfault : (startedRows.after? rowsSession).bind (·.engine.fault? 0) =
      some ((Fault.noMatchingChoice "Choose").wrapped [("Rows", 1), ("Each", 0)]) := by
    decide +kernel
  obtain ⟨sim, hsim, hfault⟩ := Option.bind_eq_some_iff.mp hfault
  obtain ⟨e₁, he₁, hresult⟩ := Option.bind_eq_some_iff.mp (Engine.fault?_eq_some_iff.mp hfault)
  obtain ⟨e, he, -, hexecution⟩ := comesFrom_of_ended hstart hsim
  obtain rfl : e = e₁ := Option.some.inj (he.symm.trans he₁)
  refine ⟨hstart, sim, e, hsim, he, hresult, ?_⟩
  rcases hexecution _ hresult with
    ⟨seconds, htimeout⟩ | ⟨report, -, haborted⟩ | hcancelled | ⟨path, leaf, hown, heq, -, hraised⟩
  · cases htimeout
  · cases haborted
  · cases hcancelled
  · -- a fault tells where it was raised
    obtain ⟨rfl, rfl⟩ := Fault.wrapped_inj rfl hown heq
    exact hraised

end Simulator

end StateFlow
