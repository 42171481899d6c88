import StateFlow.Proofs.Execution.Ownership
import StateFlow.Proofs.Simulator.Session

/-!
# The reports for a token

Reports for a token come from outside, from the functions of tasks, and from what those have left
for later.  A session makes them one after the other, in whatever order its requests are served, and
for as long as a task holds the token they are all that happens to it
(`Simulator.reported_session`).

## Main definitions

* `Simulator.reports token sim rs`: the reports for a token that a session makes, in order
* `Simulator.Reported`: the registry knows the reports for the tokens that are held, and nothing
  else

## Main results

* `Simulator.serve?_books`: every request accounts for the tokens
* `Simulator.reports_append`: reports are added at the end
* `Simulator.reported_session`: what has become of the tokens that are held
-/

namespace StateFlow

namespace Simulator

variable {sim sim' : Simulator} {r : Request} {rs : List Request} {token : String}

/-! ## Requests -/

/-- The reports that a request makes. -/
def Request.batch? (sim : Simulator) : Request → Option Batch
  | .move m => sim.engine.batch? m
  | .register _ _ | .start _ _ => none

/-- Starting an execution gives out its name, and no token. -/
theorem launch_books (engine : Engine) (name : String) (machine : Machine) (input : Json) :
    engine.world.Books none (engine.launch name machine input).1.world engine.tokens
      (engine.launch name machine input).1.tokens := by
  rw [Engine.tokens_launch]
  exact .of_eq (Nat.le_succ _) rfl

/-- **Every request accounts for the tokens.** -/
theorem serve?_books (h : sim.serve? r = some sim') :
    sim.engine.world.Books (r.batch? sim) sim'.engine.world sim.engine.tokens
      sim'.engine.tokens := by
  cases r with
  | register name machine =>
    rcases serve?_cases h with ⟨rfl, -⟩ | ⟨_, _, -, -, rfl⟩ | ⟨_, _, _, heq, -⟩ | ⟨_, _, heq, -⟩
    · exact .of_eq (Nat.le_refl _) rfl
    · exact .of_eq (Nat.le_refl _) rfl
    · cases heq
    · cases heq
  | start name input =>
    rcases serve?_cases h with ⟨rfl, -⟩ | ⟨_, _, heq, -⟩ | ⟨name, input, machine, -, -, rfl⟩ |
      ⟨_, _, heq, -⟩
    · exact .of_eq (Nat.le_refl _) rfl
    · cases heq
    · exact launch_books sim.engine name machine input
    · cases heq
  | move move =>
    obtain ⟨engine, hmove, rfl⟩ := Option.map_eq_some_iff.mp h
    exact Engine.move_books hmove

/-! ## Sessions -/

/-- The reports for a token that a request makes.  What is reported for a text that was not issued
is no report for a token. -/
def reportsOf (token : String) (sim : Simulator) (r : Request) : List Settlement :=
  if (sim.engine.world.tokens.ticket? token).isSome then Batch.on token (r.batch? sim) else []

/-- The reports for a token that a session makes, in order. -/
def reports (token : String) (sim : Simulator) : List Request → List Settlement
  | [] => []
  | r :: rs => reportsOf token sim r ++
    match sim.serve? r with
    | some sim' => sim'.reports token rs
    | none => []

/-- The reports of a session are followed by those that come later. -/
theorem reports_append (h : sim.after? rs = some sim') (rs' : List Request) :
    sim.reports token (rs ++ rs') = sim.reports token rs ++ sim'.reports token rs' := by
  induction rs generalizing sim with
  | nil =>
    obtain rfl : sim = sim' := Option.some.inj h
    rfl
  | cons r rs ih =>
    obtain ⟨sim₁, hr, hrs⟩ := Option.bind_eq_some_iff.mp h
    simp only [List.cons_append, reports, hr, ih hrs, List.append_assoc]

/-- The registry knows of the tokens that are held what was reported for them, and nothing else. -/
structure Reported (origin : Simulator) (rs : List Request) (sim : Simulator) : Prop where
  owns : sim.engine.world.Owns sim.engine.tokens
  held : ∀ token ∈ sim.engine.tokens, sim.engine.world.tokens.ticket? token =
    some (Ticket.fresh.settledAll (origin.reports token rs))
  unknown : ∀ token, sim.engine.world.tokens.ticket? token = none →
    origin.reports token rs = []

/-- A request keeps the registry in agreement with the reports. -/
theorem Reported.serve? {origin : Simulator} (hrs : origin.after? rs = some sim)
    (h : Reported origin rs sim) (hr : sim.serve? r = some sim')
    (hnames : sim'.engine.world.NamesDistinct) : Reported origin (rs ++ [r]) sim' := by
  have hbooks := serve?_books hr
  have hreports : ∀ token, origin.reports token (rs ++ [r]) =
      origin.reports token rs ++ sim.reportsOf token r := by
    intro token
    rw [reports_append hrs]
    simp only [reports, hr, List.append_nil]
  refine ⟨hbooks.owns h.owns hnames, ?_, ?_⟩
  · intro token htoken
    rw [hreports]
    rcases hbooks.ticket? h.owns hnames htoken with
      ⟨hnone, -, hfresh⟩ | ⟨hheld, ticket, hticket, -, hsettled⟩
    · -- nothing was reported for a token before it was issued
      rw [hfresh, h.unknown token hnone, reportsOf, hnone]
      rfl
    · rw [h.held token hheld] at hticket
      obtain rfl := Option.some.inj hticket
      rw [hsettled, Ticket.settledAll_append, reportsOf, h.held token hheld]
      rfl
  · intro token hnone
    have hbefore := hbooks.ticket?_eq_none hnone
    rw [hreports, h.unknown token hbefore, reportsOf, hbefore]
    rfl

/-- **After every session** with distinct names, reports are all that has happened to a token that
is held. -/
theorem reported_session {services : Services} {start : Timestamp}
    (h : (initial services start).after? rs = some sim)
    (hnames : sim.engine.world.NamesDistinct) :
    Reported (initial services start) rs sim := by
  have hinit : Reported (initial services start) [] (initial services start) := by
    refine ⟨⟨List.nodup_nil, ?_, ?_⟩, ?_, fun _ _ => rfl⟩
    · intro token htoken
      cases htoken
    · intro token ticket hticket
      cases hticket
    · intro token htoken
      cases htoken
  refine session_induction (P := fun rs sim => sim.engine.world.NamesDistinct →
    Reported (initial services start) rs sim) (fun _ => hinit) ?_ rs h hnames
  intro rs s r s' hrs ih hr hnames'
  have hnames : s.engine.world.NamesDistinct := hnames'.mono (serve?_books hr).named_le
  exact (ih hnames).serve? hrs hr hnames'

end Simulator

end StateFlow
