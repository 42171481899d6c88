import StateFlow.Proofs.Simulator.Reports
import StateFlow.Proofs.Token.Closing

/-!
# No token outlives its task

A callback task stops waiting in many ways: its function fails or its parameters are refused, a
report decides it, it times out, it heeds a cancellation, its execution times out, or the Map state
that it is an item of fails by another item.  Whatever the way, its token is closed in that very
step and never opens again, and the tickets of all other tokens stay as they are, the reports of the
step aside.  So an execution that has ended leaves no token behind that could be completed
(`Simulator.closed_of_session`).

## Main definitions

* `Simulator.Issues`, `Simulator.Issued`: the tokens that an execution issues by a request, and in a
  session
* `Simulator.Guarded`: the tokens that can be completed are held by the executions that issued them

## Main results

* `Simulator.Issued.unique`: a token is issued by one execution
* `Simulator.guarded_session`: every session keeps the tokens guarded
* `Simulator.closed_of_session`: what becomes of the tokens of tasks that wait no more
-/

namespace StateFlow

namespace Simulator

variable {origin sim sim' : Simulator} {r : Request} {rs : List Request} {place other : Nat}
  {token : String}

/-! ## Who issues a token -/

/-- A move of a leaf of the execution at a place issues a token: the registry knows it afterwards
and did not know it before. -/
def Issues (place : Nat) (sim : Simulator) (r : Request) (token : String) : Prop :=
  (r.leafAt? place).isSome ∧ sim.engine.world.tokens.ticket? token = none ∧
    ∃ sim', sim.serve? r = some sim' ∧ (sim'.engine.world.tokens.ticket? token).isSome

/-- The execution at a place has issued a token in a session. -/
def Issued (place : Nat) (origin : Simulator) (rs : List Request) (token : String) : Prop :=
  ∃ earlier r later sim, rs = earlier ++ r :: later ∧ origin.after? earlier = some sim ∧
    sim.Issues place r token

/-- What is issued in a session was issued by its last request or before. -/
theorem issued_concat (h : origin.after? rs = some sim) :
    Issued place origin (rs ++ [r]) token ↔
      Issued place origin rs token ∨ sim.Issues place r token := by
  constructor
  · rintro ⟨earlier, r', later, sim₁, heq, hearlier, hissues⟩
    rcases List.eq_nil_or_concat later with rfl | ⟨later', last, rfl⟩
    · obtain ⟨rfl, hlast⟩ := List.append_inj' heq rfl
      obtain rfl : r = r' := List.singleton_inj.mp hlast
      obtain rfl : sim = sim₁ := Option.some.inj (h.symm.trans hearlier)
      exact .inr hissues
    · have hsplit : rs ++ [r] = (earlier ++ r' :: later') ++ [last] := by
        rw [heq, List.append_assoc, List.cons_append, List.concat_eq_append]
      obtain ⟨rfl, -⟩ := List.append_inj' hsplit rfl
      exact .inl ⟨earlier, r', later', sim₁, rfl, hearlier, hissues⟩
  · rintro (⟨earlier, r', later, sim₁, rfl, hearlier, hissues⟩ | hissues)
    · exact ⟨earlier, r', later ++ [r], sim₁, by simp, hearlier, hissues⟩
    · exact ⟨rs, r, [], sim, rfl, h, hissues⟩

/-- A request forgets no token. -/
theorem isSome_ticket?_serve? (h : sim.serve? r = some sim')
    (htoken : (sim.engine.world.tokens.ticket? token).isSome) :
    (sim'.engine.world.tokens.ticket? token).isSome := by
  rw [Option.isSome_iff_ne_none] at htoken ⊢
  exact fun hnone => htoken ((serve?_books h).ticket?_eq_none hnone)

/-- What was issued is known. -/
theorem Issued.isSome_ticket? (h : origin.after? rs = some sim)
    (hissued : Issued place origin rs token) :
    (sim.engine.world.tokens.ticket? token).isSome := by
  refine session_induction (P := fun rs sim => Issued place origin rs token →
    (sim.engine.world.tokens.ticket? token).isSome) ?_ ?_ rs h hissued
  · rintro ⟨earlier, r, later, -, heq, -⟩
    cases earlier <;> cases heq
  · intro rs s r s' hs ih hr hissued
    rcases (issued_concat hs).mp hissued with hissued | ⟨-, -, s₁, hs₁, htoken⟩
    · exact isSome_ticket?_serve? hr (ih hissued)
    · obtain rfl := Option.some.inj (hs₁.symm.trans hr)
      exact htoken

/-- **A token is issued by one execution.** -/
theorem Issued.unique (h : origin.after? rs = some sim) (hplace : Issued place origin rs token)
    (hother : Issued other origin rs token) : place = other := by
  refine session_induction (P := fun rs _ => Issued place origin rs token →
    Issued other origin rs token → place = other) ?_ ?_ rs h hplace hother
  · rintro ⟨earlier, r, later, -, heq, -⟩ _
    cases earlier <;> cases heq
  · intro rs s r s' hs ih _ hplace hother
    have hnew : ∀ place, Issued place origin rs token → ∀ other, ¬ s.Issues other r token := by
      rintro place hissued other ⟨-, hnone, -⟩
      have hsome := hissued.isSome_ticket? hs
      rw [hnone] at hsome
      cases hsome
    rcases (issued_concat hs).mp hplace with hplace | hplace <;>
      rcases (issued_concat hs).mp hother with hother | hother
    · exact ih hplace hother
    · exact absurd hother (hnew place hplace other)
    · exact absurd hplace (hnew other hother place)
    · obtain ⟨leaf, hleaf⟩ := Option.isSome_iff_exists.mp hplace.1
      obtain ⟨leaf', hleaf'⟩ := Option.isSome_iff_exists.mp hother.1
      have heq := (Request.leafAt?_eq_some_iff.mp hleaf).symm.trans
        (Request.leafAt?_eq_some_iff.mp hleaf')
      rw [Request.move.injEq, Move.leaf.injEq] at heq
      exact heq.1

/-! ## Who holds a token -/

/-- Nothing but a move of its leaves gives an execution a token. -/
theorem mem_tokens_of_change {e e' : Execution} {services : Services} {w : World}
    (hchange : e.Change services w none e') (htoken : token ∈ e'.tokens) : token ∈ e.tokens := by
  cases hchange with
  | same => exact htoken
  | started hstart =>
    obtain ⟨-, started, rfl⟩ := Execution.start?_eq_some hstart
    simp [Execution.tokens, Run.start, Run.tokens] at htoken
  | aborted habort =>
    obtain ⟨run, deadline?, report, -, -, -, rfl⟩ := Execution.abort?_eq_some habort
    simp [Execution.tokens] at htoken
  | expired hexpire =>
    obtain ⟨run, deadline, -, -, rfl⟩ := Execution.expire?_eq_some hexpire
    simp [Execution.finish, Execution.tokens] at htoken
  | cancelled => exact htoken

/-- A token that an execution holds after a request was held by it before, or the execution has
issued it by the request. -/
theorem mem_tokens_or_issues (h : sim.serve? r = some sim')
    (howns : sim.engine.world.Owns sim.engine.tokens)
    (hnames : sim'.engine.world.NamesDistinct) {e' : Execution}
    (he' : sim'.engine.executions[place]? = some e') (htoken : token ∈ e'.tokens) :
    (∃ e, sim.engine.executions[place]? = some e ∧ token ∈ e.tokens) ∨
      sim.Issues place r token := by
  cases hleaf : r.leafAt? place with
  | none =>
    rcases serve?_execution h he' with ⟨e, he, hchange⟩ | ⟨_, _, _, _, _, _, rfl⟩
    · rw [hleaf] at hchange
      exact .inl ⟨e, he, mem_tokens_of_change hchange htoken⟩
    · simp [Execution.create, Execution.tokens] at htoken
  | some leaf =>
    obtain ⟨ticket, hticket, -⟩ :=
      ((serve?_books h).owns howns hnames).listening token (Engine.mem_tokens he' htoken)
    obtain rfl := Request.leafAt?_eq_some_iff.mp hleaf
    obtain ⟨engine, hmove, rfl⟩ := Option.map_eq_some_iff.mp h
    obtain ⟨e, w, e₁, he, hmoved, rfl⟩ := Engine.update?_eq_some hmove
    have hlt : place < sim.engine.executions.length := (List.getElem?_eq_some_iff.mp he).1
    obtain rfl : e₁ = e' := by simpa [List.getElem?_set, hlt] using he'
    obtain ⟨issued, dropped, hissues, hperm, -⟩ := Execution.moveAt?_books hmoved
    rcases List.mem_append.mp (hperm.subset (List.mem_append_left dropped htoken)) with hmem | hmem
    · exact .inl ⟨e, he, hmem⟩
    · have hnone := World.Books.ticket?_issued hissues howns hnames token hmem
      exact .inr ⟨by simp [hleaf], hnone, _, h, by simp [hticket]⟩

/-- The tokens that can be completed are held by the executions that issued them. -/
structure Guarded (origin : Simulator) (rs : List Request) (sim : Simulator) : Prop where
  owns : sim.engine.world.Owns sim.engine.tokens
  closed : sim.engine.world.ClosedBut sim.engine.tokens
  distinct : sim.engine.world.tokens.Distinct
  issued : ∀ (place : Nat) (e : Execution), sim.engine.executions[place]? = some e →
    ∀ token ∈ e.tokens, Issued place origin rs token

namespace Guarded

/-- A request keeps the tokens guarded. -/
theorem serve? (hrs : origin.after? rs = some sim) (h : Guarded origin rs sim)
    (hr : sim.serve? r = some sim') (hnames : sim'.engine.world.NamesDistinct) :
    Guarded origin (rs ++ [r]) sim' := by
  have hbooks := serve?_books hr
  refine ⟨hbooks.owns h.owns hnames, hbooks.closedBut h.owns hnames h.closed,
    hbooks.distinct h.distinct, fun place e' he' token htoken => ?_⟩
  rw [issued_concat hrs]
  exact (mem_tokens_or_issues hr h.owns hnames he' htoken).imp
    (fun ⟨e, he, hmem⟩ => h.issued place e he token hmem) id

/-- A token can be completed only while a task waits on it. -/
theorem mem_tokens_of_pending (h : Guarded origin rs sim)
    (hpending : token ∈ sim.engine.world.tokens.pending) : token ∈ sim.engine.tokens := by
  obtain ⟨ticket, hticket, hopen⟩ := (Tokens.mem_pending_iff h.distinct).mp hpending
  refine Decidable.byContradiction fun hheld => ?_
  rw [h.closed token ticket hticket hheld] at hopen
  cases hopen

/-- A token that can be completed is held by the execution that issued it. -/
theorem mem_tokens_of_issued (hrs : origin.after? rs = some sim) (h : Guarded origin rs sim)
    (hpending : token ∈ sim.engine.world.tokens.pending)
    (hissued : Issued place origin rs token) :
    ∃ e, sim.engine.executions[place]? = some e ∧ token ∈ e.tokens := by
  obtain ⟨e, he, htoken⟩ := List.mem_flatMap.mp (h.mem_tokens_of_pending hpending)
  obtain ⟨holder, hholder⟩ := List.mem_iff_getElem?.mp he
  obtain rfl := hissued.unique hrs (h.issued holder e hholder token htoken)
  exact ⟨e, hholder, htoken⟩

end Guarded

/-- **Every session** with distinct names keeps the tokens guarded. -/
theorem guarded_session {services : Services} {start : Timestamp}
    (h : (initial services start).after? rs = some sim)
    (hnames : sim.engine.world.NamesDistinct) : Guarded (initial services start) rs sim := by
  have hinit : Guarded (initial services start) [] (initial services start) := by
    have hnothing : (initial services start).after? [] = some (initial services start) := rfl
    have howns := (reported_session hnothing fun _ _ hn => absurd hn (Nat.not_lt_zero _)).owns
    exact ⟨howns, nofun, Tokens.distinct_none, nofun⟩
  refine session_induction (P := fun rs sim => sim.engine.world.NamesDistinct →
    Guarded (initial services start) rs sim) (fun _ => hinit) ?_ rs h hnames
  intro rs s r s' hrs ih hr hnames'
  exact (ih (hnames'.mono (serve?_books hr).named_le)).serve? hrs hr hnames'

/-- A token that nobody waits on, but that is known, is waited on no more. -/
theorem not_mem_tokens_of_after? (h : sim.after? rs = some sim')
    (howns : sim.engine.world.Owns sim.engine.tokens)
    (hnames : sim'.engine.world.NamesDistinct)
    (hknown : (sim.engine.world.tokens.ticket? token).isSome)
    (hfree : token ∉ sim.engine.tokens) : token ∉ sim'.engine.tokens := by
  refine (session_induction (P := fun _ s => s.engine.world.NamesDistinct →
    s.engine.world.Owns s.engine.tokens ∧ (s.engine.world.tokens.ticket? token).isSome ∧
      token ∉ s.engine.tokens) (fun _ => ⟨howns, hknown, hfree⟩) ?_ rs h hnames).2.2
  intro rs s r s' _ ih hr hnames'
  have hbooks := serve?_books hr
  obtain ⟨howns, hknown, hfree⟩ := ih (hnames'.mono hbooks.named_le)
  refine ⟨hbooks.owns howns hnames', isSome_ticket?_serve? hr hknown, fun hmem => ?_⟩
  rcases hbooks.ticket? howns hnames' hmem with ⟨hnone, -, -⟩ | ⟨hheld, -⟩
  · rw [hnone] at hknown
    cases hknown
  · exact hfree hheld

/-- **No token outlives its task.**  In every session with distinct names:

* a token that can be completed is waited on by the execution that issued it, so an execution that
  has ended has left no such token;
* when a task stops waiting by a request, its token is closed and nobody listens; and once nobody
  waits on a token that was issued, it can never be completed again;
* a request leaves the tickets of all other tokens as they are, the reports that it makes aside. -/
theorem closed_of_session {services : Services} {start : Timestamp}
    (h : (initial services start).after? rs = some sim)
    (hnames : sim.engine.world.NamesDistinct) :
    (∀ token ∈ sim.engine.world.tokens.pending, token ∈ sim.engine.tokens ∧
      ∀ place, Issued place (initial services start) rs token →
        ∃ e, sim.engine.executions[place]? = some e ∧ token ∈ e.tokens) ∧
    (∀ (place : Nat) (e : Execution) result, sim.engine.executions[place]? = some e →
      e.result? = some result → ∀ token, Issued place (initial services start) rs token →
        token ∉ sim.engine.world.tokens.pending) ∧
    (∀ rs' sim', sim.after? rs' = some sim' → sim'.engine.world.NamesDistinct →
      ∀ token, (sim.engine.world.tokens.ticket? token).isSome → token ∉ sim.engine.tokens →
        token ∉ sim'.engine.world.tokens.pending) ∧
    ∀ r sim', sim.serve? r = some sim' → sim'.engine.world.NamesDistinct →
      ∀ token ticket, sim.engine.world.tokens.ticket? token = some ticket →
        (token ∈ sim.engine.tokens → token ∉ sim'.engine.tokens →
          token ∉ sim'.engine.world.tokens.pending) ∧
        ((token ∈ sim.engine.tokens → token ∈ sim'.engine.tokens) →
          sim'.engine.world.tokens.ticket? token =
            some (ticket.settledAll (Batch.on token (r.batch? sim)))) := by
  have hguarded := guarded_session h hnames
  refine ⟨fun token hpending => ⟨hguarded.mem_tokens_of_pending hpending, fun place hissued =>
    hguarded.mem_tokens_of_issued h hpending hissued⟩, ?_, ?_, ?_⟩
  · intro place e result he hresult token hissued hpending
    obtain ⟨e', he', htoken⟩ := hguarded.mem_tokens_of_issued h hpending hissued
    obtain rfl : e = e' := Option.some.inj (he.symm.trans he')
    simp [Execution.tokens, Execution.result?_eq_some_iff.mp hresult] at htoken
  · intro rs' sim' hrs' hnames' token hknown hfree hpending
    have hsession : (initial services start).after? (rs ++ rs') = some sim' := by
      rw [after?_append, h]
      exact hrs'
    exact not_mem_tokens_of_after? hrs' hguarded.owns hnames' hknown hfree
      ((guarded_session hsession hnames').mem_tokens_of_pending hpending)
  · intro r sim' hr hnames' token ticket hticket
    refine ⟨fun _ hfree hpending => ?_, fun hkept => ?_⟩
    · exact hfree ((hguarded.serve? h hr hnames').mem_tokens_of_pending hpending)
    · exact (serve?_books hr).untouched hguarded.owns hnames' hguarded.closed hticket hkept

/-! ### A task that is dropped because its sibling fails -/

/-- A machine whose items are callback tasks. -/
def callbackItems : Machine where
  comment? := none
  startAt := "M"
  states := [("M", .map ⟨none, none, none, none, 0, .absent, .absent, .absent, ⟨none, true⟩⟩
    (some ⟨none, "A", [("A", .task ⟨none, "f.waitForTaskToken", .absent,
      some (.object [("FunctionName", .string "f")]), .absent, .absent, none, ⟨none, true⟩⟩)],
      none⟩) none)]
  timeout? := none

/-- Services whose one function fails by its first call only. -/
def failingOnce : Services :=
  .standard (Bindings.none.insert "m" "A" ⟨"f", "main"⟩) fun _ =>
    some fun earlier _ _ => .answer (if earlier = 0 then .error "busy" else .ok .null)

/-- Two items are entered, and the function of the second one returns. -/
def bothEntered : List Request :=
  [.register "m" callbackItems, .start "m" (.array [.null, .null]), .move (.start 0),
    .move (.leaf 0 .step []), .move (.leaf 0 .step [0])]

/-- The second item waits on its token when the first one fails. -/
def siblingFails : List Request :=
  bothEntered ++ .move (.leaf 0 .step [1]) ::
    [.move (.leaf 0 .step [1]), .move (.leaf 0 .step [0])]

/-- The token of the second item is closed with the execution. -/
theorem closed_of_session_sibling : ∃ sim e,
    (initial failingOnce default).after? siblingFails = some sim ∧
    sim.engine.executions[0]? = some e ∧
    e.result? = some (.error (.itemFailed "M" 0 (.taskFailed "A" "busy"))) ∧
    Issued 0 (initial failingOnce default) siblingFails (freshName 2) ∧
    freshName 2 ∉ sim.engine.world.tokens.pending := by
  have hcheck : ((initial failingOnce default).after? siblingFails).bind (fun sim =>
      (sim.engine.fault? 0).map fun fault => (fault, sim.engine.world.named)) =
      some (.itemFailed "M" 0 (.taskFailed "A" "busy"), 3) := by decide +kernel
  have hissued : ((initial failingOnce default).after? bothEntered).bind (fun sim =>
      (sim.serve? (.move (.leaf 0 .step [1]))).map fun sim' =>
        ((sim.engine.world.tokens.ticket? (freshName 2)).isNone,
          (sim'.engine.world.tokens.ticket? (freshName 2)).isSome)) = some (true, true) := by
    decide +kernel
  obtain ⟨sim, hsim, hcheck⟩ := Option.bind_eq_some_iff.mp hcheck
  obtain ⟨fault, hfault, hcheck⟩ := Option.map_eq_some_iff.mp hcheck
  obtain ⟨rfl, hnamed⟩ := Prod.mk.inj hcheck
  obtain ⟨e, he, hresult⟩ := Option.bind_eq_some_iff.mp (Engine.fault?_eq_some_iff.mp hfault)
  obtain ⟨sim₁, hsim₁, hissued⟩ := Option.bind_eq_some_iff.mp hissued
  obtain ⟨sim₂, hsim₂, hissued⟩ := Option.map_eq_some_iff.mp hissued
  obtain ⟨hnone, hsome⟩ := Prod.mk.inj hissued
  have hnames : sim.engine.world.NamesDistinct := by
    refine World.namesDistinct_of_le ?_
    rw [hnamed]
    decide
  have htoken : Issued 0 (initial failingOnce default) siblingFails (freshName 2) :=
    ⟨bothEntered, _, _, sim₁, rfl, hsim₁, rfl, Option.isNone_iff_eq_none.mp hnone, sim₂, hsim₂,
      hsome⟩
  obtain ⟨-, hended, -⟩ := closed_of_session hsim hnames
  exact ⟨sim, e, hsim, he, hresult, htoken, hended 0 e _ he hresult _ htoken⟩

end Simulator

end StateFlow
