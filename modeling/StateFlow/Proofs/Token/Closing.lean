import StateFlow.Proofs.Token.Books

/-!
# Tokens that nobody holds

A token can be completed for as long as a task holds it.  The account of a move says which tokens
are given up on the way, and those are closed; a token that nobody held before is closed already,
and neither reports nor other tasks open it again.  So at any time all tokens that can be completed
are held (`World.ClosedBut`), and a move leaves every ticket alone but those of the tokens that it
gives up, its reports aside (`World.Books.untouched`).

## Main definitions

* `World.ClosedBut held`: all tokens are closed but those that are held

## Main results

* `World.Books.closedBut`: every account keeps the tokens closed that nobody holds
* `World.Books.untouched`: what becomes of a token that is not given up
* `World.Books.distinct`: every account keeps one ticket for each token
-/

namespace StateFlow

namespace Tokens

variable {t : Tokens} {token other : String} {ticket : Ticket}

/-- A ticket of a token that was given up. -/
theorem ticket?_releaseAll_of_mem {tokens : List String} (h : token ∈ tokens) :
    (t.releaseAll tokens).ticket? token =
      (t.ticket? token).map ({ · with pending := false, listening := false }) := by
  induction tokens generalizing t with
  | nil => cases h
  | cons first tokens ih =>
    have hrelease := t.ticket?_release token first
    rw [releaseAll, List.foldl_cons]
    by_cases hmem : token ∈ tokens
    · refine (ih (t := t.release first) hmem).trans ?_
      rw [hrelease]
      split
      · rw [Option.map_map]
        rfl
      · rfl
    · obtain rfl : token = first := (List.mem_cons.mp h).resolve_right hmem
      refine (ticket?_releaseAll_of_not_mem (t.release token) hmem).trans ?_
      rw [hrelease, if_pos rfl]

/-- Reports do nothing to a token that is closed. -/
theorem ticket?_settleAll_of_closed (h : t.ticket? token = some ticket)
    (hclosed : ticket.pending = false) (other : String) (settlements : List Settlement) :
    (t.settleAll other settlements).1.ticket? token = some ticket := by
  induction settlements generalizing t with
  | nil => exact h
  | cons settlement settlements ih =>
    have hsettle : (t.settle other settlement).1.ticket? token = some ticket := by
      rw [ticket?_settle, h, Option.map_some, Ticket.settled_of_closed hclosed, ite_self]
    rw [settleAll]
    split
    · next t' heq =>
      rw [heq] at hsettle
      exact ih hsettle
    · exact hsettle

theorem ticket?_reported_of_closed (h : t.ticket? token = some ticket)
    (hclosed : ticket.pending = false) (batch? : Option Batch) :
    (t.reported batch?).ticket? token = some ticket := by
  cases batch? with
  | none => exact h
  | some batch => exact ticket?_settleAll_of_closed h hclosed batch.token batch.settlements

theorem ticket?_issueAll_of_not_mem {tokens : List String} (h : token ∉ tokens) :
    (t.issueAll tokens).ticket? token = t.ticket? token := by
  induction tokens generalizing t with
  | nil => rfl
  | cons first tokens ih =>
    obtain ⟨hne, htokens⟩ := not_or.mp (mt List.mem_cons.mpr h)
    have hissue := t.ticket?_issue token first
    rw [if_neg (Ne.symm hne)] at hissue
    rw [issueAll, List.foldl_cons, ← hissue]
    exact ih (t := t.issue first) htokens

/-! ## One ticket for each token -/

theorem Distinct.settle (h : t.Distinct) (token : String) (settlement : Settlement) :
    (t.settle token settlement).1.Distinct := by
  cases settlement with
  | success output => exact h.complete token (.success output)
  | failure error cause? => exact h.complete token (.failure error cause?)
  | revoke => exact h.revoke token

theorem Distinct.settleAll (h : t.Distinct) (token : String) (settlements : List Settlement) :
    (t.settleAll token settlements).1.Distinct := by
  induction settlements generalizing t with
  | nil => exact h
  | cons settlement settlements ih =>
    have hsettle := h.settle token settlement
    rw [Tokens.settleAll]
    split
    · next t' heq =>
      rw [heq] at hsettle
      exact ih hsettle
    · exact hsettle

theorem Distinct.reported (h : t.Distinct) (batch? : Option Batch) :
    (t.reported batch?).Distinct := by
  cases batch? with
  | none => exact h
  | some batch => exact h.settleAll batch.token batch.settlements

theorem Distinct.issueAll (h : t.Distinct) (tokens : List String) :
    (t.issueAll tokens).Distinct := by
  induction tokens generalizing t with
  | nil => exact h
  | cons first tokens ih => exact ih (h.set first .fresh)

theorem Distinct.releaseAll (h : t.Distinct) (tokens : List String) :
    (t.releaseAll tokens).Distinct := by
  induction tokens generalizing t with
  | nil => exact h
  | cons first tokens ih => exact ih ((h.revoke first).deafen first)

end Tokens

/-- All tokens are closed but those that are held. -/
def World.ClosedBut (w : World) (held : List String) : Prop :=
  ∀ token ticket, w.tokens.ticket? token = some ticket → token ∉ held → ticket.pending = false

namespace World.Books

variable {batch? : Option Batch} {w w' : World} {held held' : List String} {token : String}
  {ticket : Ticket}

theorem distinct (h : w.Books batch? w' held held') (hdistinct : w.tokens.Distinct) :
    w'.tokens.Distinct := by
  obtain ⟨issued, dropped, -, -, htokens⟩ := h
  rw [htokens]
  exact ((hdistinct.issueAll issued).reported batch?).releaseAll dropped

/-- A ticket that is closed stays as it is, unless its token is given up. -/
theorem ticket?_of_closed {issued dropped : List String} (hissues : w.Issues w' batch? issued)
    (htokens : w'.tokens = ((w.tokens.issueAll issued).reported batch?).releaseAll dropped)
    (howns : w.Owns held) (hnames : w'.NamesDistinct)
    (hticket : w.tokens.ticket? token = some ticket) (hclosed : ticket.pending = false)
    (hdropped : token ∉ dropped) : w'.tokens.ticket? token = some ticket := by
  have hissued : token ∉ issued := by
    intro hmem
    rw [ticket?_issued hissues howns hnames token hmem] at hticket
    cases hticket
  rw [htokens, Tokens.ticket?_releaseAll_of_not_mem _ hdropped]
  refine Tokens.ticket?_reported_of_closed ?_ hclosed batch?
  rw [Tokens.ticket?_issueAll_of_not_mem hissued, hticket]

/-- **A move leaves the tickets alone** of all tokens but those that it gives up, its reports
aside. -/
theorem untouched (h : w.Books batch? w' held held') (howns : w.Owns held)
    (hnames : w'.NamesDistinct) (hclosed : w.ClosedBut held)
    (hticket : w.tokens.ticket? token = some ticket) (hkept : token ∈ held → token ∈ held') :
    w'.tokens.ticket? token = some (ticket.settledAll (Batch.on token batch?)) := by
  by_cases hheld' : token ∈ held'
  · rcases h.ticket? howns hnames hheld' with ⟨hnone, -, -⟩ | ⟨-, ticket', hticket', -, hsettled⟩
    · rw [hnone] at hticket
      cases hticket
    · rw [hticket] at hticket'
      obtain rfl := Option.some.inj hticket'
      exact hsettled
  · have hheld : token ∉ held := fun hmem => hheld' (hkept hmem)
    have hpending := hclosed token ticket hticket hheld
    obtain ⟨issued, dropped, hissues, hperm, htokens⟩ := h
    have hdropped : token ∉ dropped := by
      intro hmem
      rcases List.mem_append.mp (hperm.subset (List.mem_append_right held' hmem)) with hmem | hmem
      · exact hheld hmem
      · rw [ticket?_issued hissues howns hnames token hmem] at hticket
        cases hticket
    rw [Ticket.settledAll_of_closed hpending]
    exact ticket?_of_closed hissues htokens howns hnames hticket hpending hdropped

/-- **Every account keeps the tokens closed that nobody holds**, and closes those that are given
up. -/
theorem closedBut (h : w.Books batch? w' held held') (howns : w.Owns held)
    (hnames : w'.NamesDistinct) (hclosed : w.ClosedBut held) : w'.ClosedBut held' := by
  obtain ⟨issued, dropped, hissues, hperm, htokens⟩ := h
  intro token ticket hticket hheld'
  by_cases hdropped : token ∈ dropped
  · rw [htokens, Tokens.ticket?_releaseAll_of_mem hdropped] at hticket
    obtain ⟨ticket', -, rfl⟩ := Option.map_eq_some_iff.mp hticket
    rfl
  · have hbefore : token ∉ held ++ issued := fun hmem =>
      (List.mem_append.mp (hperm.symm.subset hmem)).elim hheld' hdropped
    obtain ⟨hheld, hissued⟩ := not_or.mp (mt List.mem_append.mpr hbefore)
    cases hknown : w.tokens.ticket? token with
    | none =>
      rw [(ticket?_eq_none_iff hissues htokens).mpr ⟨hissued, hknown⟩] at hticket
      cases hticket
    | some ticket' =>
      have hpending := hclosed token ticket' hknown hheld
      rw [ticket?_of_closed hissues htokens howns hnames hknown hpending hdropped] at hticket
      exact Option.some.inj hticket ▸ hpending

end World.Books

end StateFlow
