import Mathlib.Data.List.Induction
import StateFlow.Proofs.Token.Registry

/-!
# What becomes of a token

Tokens are issued, completed and revoked, and their listeners receive and go away, in any order and
many tokens at once.  What has become of one token depends on what was done to it since it was
issued and on nothing else: the first attempt to complete or revoke it closes it, and only an
attempt that finds the listener there is accepted and delivered, once
(`Tokens.deliversOnce_of_nodup`).

## Main definitions

* `Tokens.Action`, `Tokens.act`, `Tokens.after`: what is done with a token, and what it leads to
* `Tokens.accepted`, `Tokens.obtained`: the completions of a token that were accepted, and those
  that its listener obtained
* `Tokens.sinceIssue?`: what was done to a token since it was issued
* `Ticket.Accounts`: a ticket agrees with what was done to it, accepted and obtained
* `Tokens.DeliversOnce`: what a history makes of a token

## Main results

* `Tokens.exists_accounts_act`: a ticket stays in agreement with what is done to its token
* `Tokens.agrees_after`: so do all tickets of a registry
* `Tokens.deliversOnce_of_nodup`: exactly-once delivery, for each token of any history
-/

namespace StateFlow

/-- What a listener obtains from what it finds. -/
def Reception.completions : Reception → List Completion
  | .completion obtained => [obtained]
  | .empty | .closed | .none => []

namespace Tokens

/-- What is done with a token. -/
inductive Action where
  | issue
  | send (completion : Completion)
  | revoke
  /-- The listener goes away. -/
  | drop
  /-- The listener takes out what was delivered. -/
  | receive
deriving Repr, Inhabited

namespace Action

/-- True of the actions that close a token. -/
def closes : Action → Bool
  | send _ | revoke => true
  | issue | drop | receive => false

/-- True when the listener goes away. -/
def isDrop : Action → Bool
  | drop => true
  | _ => false

/-- True when the token is issued. -/
def isIssue : Action → Bool
  | issue => true
  | _ => false

end Action

/-- The registry after something was done with a token. -/
def act (t : Tokens) (token : String) : Action → Tokens
  | .issue => t.issue token
  | .send completion => (t.complete token completion).1
  | .revoke => t.revoke token
  | .drop => t.deafen token
  | .receive => (t.receive token).1

/-- What is accepted for a token when something is done with it. -/
def accepts (t : Tokens) (token : String) : Action → List Completion
  | .send completion =>
    match (t.complete token completion).2 with
    | .ok () => [completion]
    | .error _ => []
  | _ => []

/-- What the listener of a token obtains when something is done with it. -/
def obtains (t : Tokens) (token : String) : Action → List Completion
  | .receive => (t.receive token).2.completions
  | _ => []

/-- The registry after a history, from the one without tokens. -/
def after (history : List (String × Action)) : Tokens :=
  history.foldl (fun t step => t.act step.1 step.2) none

/-- What the steps of a history on one token yield, each looked at in the registry before it. -/
def gather (f : Tokens → String → Action → List Completion) (token : String) :
    Tokens → List (String × Action) → List Completion
  | _, [] => []
  | t, (other, action) :: history =>
    (if other = token then f t token action else []) ++
      gather f token (t.act other action) history

/-- The completions of a token that were accepted in a history. -/
def accepted (token : String) (history : List (String × Action)) : List Completion :=
  gather accepts token none history

/-- The completions that the listener of a token obtained in a history. -/
def obtained (token : String) (history : List (String × Action)) : List Completion :=
  gather obtains token none history

/-- The tokens that a history issues, in order. -/
def issued (history : List (String × Action)) : List String :=
  (history.filter (·.2.isIssue)).map (·.1)

/-- What was done to a token since it was issued, if it was. -/
def sinceIssue? (token : String) (history : List (String × Action)) : Option (List Action) :=
  history.foldl (fun since? step =>
    if step.1 = token then
      if step.2.isIssue then some [] else since?.map (· ++ [step.2])
    else since?) Option.none

/-- A token was issued, and there has been no attempt since to complete or to revoke it. -/
def Outstanding (token : String) (history : List (String × Action)) : Prop :=
  ∃ since, sinceIssue? token history = some since ∧ ∀ action ∈ since, action.closes = false

/-- The listener of a token has gone away since the token was issued. -/
def Abandoned (token : String) (history : List (String × Action)) : Prop :=
  ∃ since, sinceIssue? token history = some since ∧ ∃ action ∈ since, action.isDrop = true

/-! ## Histories that grow at the end -/

section

variable (history : List (String × Action)) (token other : String) (action : Action)

theorem after_concat : after (history ++ [(other, action)]) = (after history).act other action := by
  simp [after]

theorem gather_concat (f : Tokens → String → Action → List Completion) (t : Tokens) :
    gather f token t (history ++ [(other, action)]) = gather f token t history ++
      if other = token then
        f (history.foldl (fun t step => t.act step.1 step.2) t) token action
      else [] := by
  induction history generalizing t with
  | nil => simp [gather]
  | cons step history ih => simp [gather, ih]

theorem accepted_concat : accepted token (history ++ [(other, action)]) =
    accepted token history ++ if other = token then (after history).accepts token action else [] :=
  gather_concat history token other action accepts none

theorem obtained_concat : obtained token (history ++ [(other, action)]) =
    obtained token history ++ if other = token then (after history).obtains token action else [] :=
  gather_concat history token other action obtains none

theorem issued_concat : issued (history ++ [(other, action)]) =
    issued history ++ if action.isIssue then [other] else [] := by
  cases h : action.isIssue <;> simp [issued, h]

theorem sinceIssue?_concat : sinceIssue? token (history ++ [(other, action)]) =
    if other = token then
      if action.isIssue then some [] else (sinceIssue? token history).map (· ++ [action])
    else sinceIssue? token history := by
  simp [sinceIssue?]

end

/-- A token that was not issued has nothing done to it since. -/
theorem sinceIssue?_eq_none {history : List (String × Action)} {token : String}
    (h : token ∉ issued history) : sinceIssue? token history = Option.none := by
  induction history using List.reverseRecOn with
  | nil => rfl
  | append_singleton history step ih =>
    obtain ⟨other, action⟩ := step
    rw [issued_concat, List.mem_append, not_or] at h
    rw [sinceIssue?_concat, ih h.1]
    by_cases hother : other = token
    · cases hissue : action.isIssue with
      | false => simp [hother]
      | true => simp [hissue, hother] at h
    · rw [if_neg hother]

/-! ## One token -/

/-- A step on another token leaves the ticket of a token as it is. -/
theorem ticket?_act_of_ne {token other : String} (h : other ≠ token) (t : Tokens)
    (action : Action) : (t.act other action).ticket? token = t.ticket? token := by
  cases action with
  | issue => simp [act, ticket?_issue, h]
  | send completion => simp [act, ticket?_complete, h]
  | revoke => simp [act, ticket?_revoke, h]
  | drop => simp [act, ticket?_deafen, h]
  | receive => simp [act, ticket?_receive, h]

theorem Distinct.act {t : Tokens} (h : t.Distinct) (token : String) (action : Action) :
    (t.act token action).Distinct := by
  cases action with
  | issue => exact h.set token _
  | send completion => exact h.complete token completion
  | revoke => exact h.revoke token
  | drop => exact h.deafen token
  | receive => exact h.receive token

theorem distinct_after (history : List (String × Action)) : (after history).Distinct := by
  induction history using List.reverseRecOn with
  | nil => exact distinct_none
  | append_singleton history step ih =>
    rw [after_concat]
    exact ih.act step.1 step.2

end Tokens

/-- A ticket agrees with what was done to its token since it was issued, with what was accepted and
with what was obtained. -/
structure Ticket.Accounts (ticket : Ticket) (since : List Tokens.Action)
    (accepted obtained : List Completion) : Prop where
  pending : ticket.pending = true ↔ ∀ action ∈ since, action.closes = false
  listening : ticket.listening = true ↔ ∀ action ∈ since, action.isDrop = false
  inbox : match ticket.inbox with
    | .empty => accepted = [] ∧ obtained = []
    | .delivered completion =>
      ticket.pending = false ∧ accepted = [completion] ∧ obtained = []
    | .taken => ticket.pending = false ∧ ∃ completion, accepted = [completion] ∧
      obtained = [completion]

namespace Ticket.Accounts

open Tokens

variable {ticket : Ticket} {since : List Action} {accepted obtained : List Completion}

theorem fresh : Ticket.fresh.Accounts [] [] [] :=
  ⟨by simp [Ticket.fresh], by simp [Ticket.fresh], rfl, rfl⟩

/-- What was obtained was accepted before, and a token is accepted once. -/
theorem obtained_prefix (h : ticket.Accounts since accepted obtained) :
    accepted.length ≤ 1 ∧ obtained <+: accepted := by
  have hinbox := h.inbox
  cases hcase : ticket.inbox with
  | empty =>
    rw [hcase] at hinbox
    obtain ⟨rfl, rfl⟩ := hinbox
    simp
  | delivered completion =>
    rw [hcase] at hinbox
    obtain ⟨-, rfl, rfl⟩ := hinbox
    simp
  | taken =>
    rw [hcase] at hinbox
    obtain ⟨-, completion, rfl, rfl⟩ := hinbox
    simp

/-- What a listener would obtain now is all that was accepted and not obtained before. -/
theorem reception (h : ticket.Accounts since accepted obtained)
    (hlistening : ticket.listening = true) :
    obtained ++ ticket.reception.completions = accepted := by
  have hinbox := h.inbox
  obtain ⟨pending, listening, inbox⟩ := ticket
  obtain rfl : listening = true := hlistening
  cases inbox with
  | empty =>
    obtain ⟨rfl, rfl⟩ := hinbox
    cases pending <;> rfl
  | delivered completion =>
    obtain ⟨-, rfl, rfl⟩ := hinbox
    rfl
  | taken =>
    obtain ⟨-, completion, rfl, rfl⟩ := hinbox
    rfl

/-- An attempt to complete a token is accepted if the token is pending and its listener there. -/
theorem send (h : ticket.Accounts since accepted obtained) (completion : Completion) :
    (ticket.completed completion).Accounts (since ++ [.send completion])
      (accepted ++ if ticket.pending && ticket.listening then [completion] else []) obtained := by
  obtain ⟨hpending, hlistening, hinbox⟩ := h
  obtain ⟨pending, listening, inbox⟩ := ticket
  have hclosed : ¬ ∀ action ∈ since ++ [.send completion], action.closes = false := by
    simp [Action.closes]
  have hsince : listening = true ↔
      ∀ action ∈ since ++ [.send completion], action.isDrop = false := by
    simpa [Action.isDrop, or_imp, forall_and] using hlistening
  cases pending with
  | false =>
    have heq : (Ticket.mk false listening inbox).completed completion =
        ⟨false, listening, inbox⟩ := by
      cases listening <;> rfl
    rw [heq]
    refine ⟨⟨nofun, fun h => absurd h hclosed⟩, hsince, ?_⟩
    simpa using hinbox
  | true =>
    -- a token that is pending has nothing in its inbox
    obtain ⟨rfl, rfl, rfl⟩ : inbox = .empty ∧ accepted = [] ∧ obtained = [] := by
      cases inbox with
      | empty => exact ⟨rfl, hinbox⟩
      | delivered completion => cases hinbox.1
      | taken => cases hinbox.1
    cases listening with
    | true => exact ⟨⟨nofun, fun h => absurd h hclosed⟩, hsince, rfl, rfl, rfl⟩
    | false => exact ⟨⟨nofun, fun h => absurd h hclosed⟩, hsince, rfl, rfl⟩

theorem revoke (h : ticket.Accounts since accepted obtained) :
    Ticket.Accounts { ticket with pending := false } (since ++ [.revoke]) accepted obtained := by
  obtain ⟨-, hlistening, hinbox⟩ := h
  refine ⟨⟨nofun, ?_⟩, ?_, ?_⟩
  · intro hopen
    have hrevoke := hopen .revoke (by simp)
    cases hrevoke
  · simpa [Action.isDrop, or_imp, forall_and] using hlistening
  · cases hcase : ticket.inbox with
    | empty => simpa [hcase] using hinbox
    | delivered completion => simpa [hcase] using (by simpa [hcase] using hinbox : _ ∧ _).2
    | taken => simpa [hcase] using (by simpa [hcase] using hinbox : _ ∧ _).2

theorem drop (h : ticket.Accounts since accepted obtained) :
    Ticket.Accounts { ticket with listening := false } (since ++ [.drop]) accepted obtained := by
  obtain ⟨hpending, -, hinbox⟩ := h
  refine ⟨?_, ⟨nofun, ?_⟩, hinbox⟩
  · simpa [Action.closes, or_imp, forall_and] using hpending
  · intro hthere
    have hdrop := hthere .drop (by simp)
    cases hdrop

theorem receive (h : ticket.Accounts since accepted obtained) :
    ticket.taken.Accounts (since ++ [.receive]) accepted
      (obtained ++ ticket.reception.completions) := by
  obtain ⟨hpending, hlistening, hinbox⟩ := h
  have hpending' : ticket.pending = true ↔
      ∀ action ∈ since ++ [.receive], action.closes = false := by
    simpa [Action.closes, or_imp, forall_and] using hpending
  have hlistening' : ticket.listening = true ↔
      ∀ action ∈ since ++ [.receive], action.isDrop = false := by
    simpa [Action.isDrop, or_imp, forall_and] using hlistening
  obtain ⟨pending, listening, inbox⟩ := ticket
  cases listening with
  | false =>
    refine ⟨hpending', hlistening', ?_⟩
    simpa [Ticket.taken, Ticket.reception, Reception.completions] using hinbox
  | true =>
    cases inbox with
    | empty =>
      obtain ⟨rfl, rfl⟩ := hinbox
      cases pending with
      | true => exact ⟨hpending', hlistening', rfl, rfl⟩
      | false => exact ⟨hpending', hlistening', rfl, rfl⟩
    | delivered completion =>
      obtain ⟨hclosed, rfl, rfl⟩ := hinbox
      exact ⟨hpending', hlistening', hclosed, completion, rfl, rfl⟩
    | taken =>
      obtain ⟨hclosed, completion, rfl, rfl⟩ := hinbox
      exact ⟨hpending', hlistening', hclosed, completion, rfl, rfl⟩

end Ticket.Accounts

/-! ## Histories -/

namespace Tokens

variable {history : List (String × Action)} {token : String}

/-- The registry after a history agrees with it on a token. -/
def Agrees (token : String) (history : List (String × Action)) : Prop :=
  match sinceIssue? token history with
  | .none => (after history).ticket? token = .none ∧ accepted token history = [] ∧
      obtained token history = []
  | some since => ∃ ticket, (after history).ticket? token = some ticket ∧
      ticket.Accounts since (accepted token history) (obtained token history)

theorem accepts_eq {t : Tokens} {ticket : Ticket} (h : t.ticket? token = some ticket)
    (completion : Completion) : t.accepts token (.send completion) =
      if ticket.pending && ticket.listening then [completion] else [] := by
  unfold accepts
  dsimp only
  rw [complete_answer, h, Option.any_some]
  cases ticket.pending && ticket.listening <;> rfl

theorem obtains_eq {t : Tokens} {ticket : Ticket} (h : t.ticket? token = some ticket) :
    t.obtains token .receive = ticket.reception.completions := by
  unfold obtains
  dsimp only
  rw [receive_answer, peek_eq, h]
  rfl

/-- A ticket agrees with what is done to its token next. -/
theorem exists_accounts_act {t : Tokens} {ticket : Ticket} {since : List Action}
    {accepted obtained : List Completion} (hticket : t.ticket? token = some ticket)
    (h : ticket.Accounts since accepted obtained) {action : Action}
    (hissue : action.isIssue = false) :
    ∃ ticket', (t.act token action).ticket? token = some ticket' ∧
      ticket'.Accounts (since ++ [action]) (accepted ++ t.accepts token action)
        (obtained ++ t.obtains token action) := by
  cases action with
  | issue => cases hissue
  | send completion =>
    refine ⟨ticket.completed completion, by simp [act, ticket?_complete, hticket], ?_⟩
    simpa only [accepts_eq hticket, obtains, List.append_nil] using h.send completion
  | revoke =>
    refine ⟨{ ticket with pending := false }, by simp [act, ticket?_revoke, hticket], ?_⟩
    simpa only [accepts, obtains, List.append_nil] using h.revoke
  | drop =>
    refine ⟨{ ticket with listening := false }, by simp [act, ticket?_deafen, hticket], ?_⟩
    simpa only [accepts, obtains, List.append_nil] using h.drop
  | receive =>
    refine ⟨ticket.taken, by simp [act, ticket?_receive, hticket], ?_⟩
    simpa only [obtains_eq hticket, accepts, List.append_nil] using h.receive

/-- What is done to a token that was never issued has no effect on it. -/
theorem act_unknown {t : Tokens} (h : t.ticket? token = .none) {action : Action}
    (hissue : action.isIssue = false) : (t.act token action).ticket? token = .none ∧
      t.accepts token action = [] ∧ t.obtains token action = [] := by
  cases action with
  | issue => cases hissue
  | send completion => simp [act, ticket?_complete, accepts, complete_answer, obtains, h]
  | revoke => simp [act, ticket?_revoke, accepts, obtains, h]
  | drop => simp [act, ticket?_deafen, accepts, obtains, h]
  | receive =>
    simp [act, ticket?_receive, accepts, obtains, receive_answer, peek_eq, Reception.completions, h]

/-- **After every history that issues distinct tokens, all tickets agree with it.** -/
theorem agrees_after (hissued : (issued history).Nodup) (token : String) :
    Agrees token history := by
  induction history using List.reverseRecOn with
  | nil => exact ⟨rfl, rfl, rfl⟩
  | append_singleton history step ih =>
    obtain ⟨other, action⟩ := step
    rw [issued_concat, List.nodup_append] at hissued
    obtain ⟨hissued, -, hnew⟩ := hissued
    have ih := ih hissued
    unfold Agrees at ih ⊢
    rw [sinceIssue?_concat, after_concat, accepted_concat, obtained_concat]
    by_cases hother : other = token
    swap
    · simpa only [if_neg hother, List.append_nil, ticket?_act_of_ne hother] using ih
    subst hother
    rw [if_pos rfl, if_pos rfl, if_pos rfl]
    cases hissue : action.isIssue with
    | true =>
      obtain rfl : action = .issue := by
        cases action with
        | issue => rfl
        | _ => cases hissue
      have hfirst : other ∉ issued history := by
        intro hmem
        exact hnew other hmem other (by simp [Action.isIssue]) rfl
      rw [sinceIssue?_eq_none hfirst] at ih
      obtain ⟨-, haccepted, hobtained⟩ := ih
      refine ⟨.fresh, by simp [act, ticket?_issue], ?_⟩
      rw [haccepted, hobtained]
      exact .fresh
    | false =>
      cases hsince : sinceIssue? other history with
      | none =>
        rw [hsince] at ih
        obtain ⟨hticket, haccepted, hobtained⟩ := ih
        obtain ⟨hticket', haccepts, hobtains⟩ := act_unknown hticket hissue
        exact ⟨hticket', by rw [haccepted, haccepts]; rfl, by rw [hobtained, hobtains]; rfl⟩
      | some since =>
        rw [hsince] at ih
        obtain ⟨ticket, hticket, haccounts⟩ := ih
        exact exists_accounts_act hticket haccounts hissue

/-- What a history makes of a token. -/
structure DeliversOnce (token : String) (history : List (String × Action)) : Prop where
  /-- At most one attempt to complete it is accepted. -/
  once : (accepted token history).length ≤ 1
  /-- Its listener obtains what was accepted, and nothing else. -/
  only : obtained token history <+: accepted token history
  /-- A listener that has not gone away will obtain what was accepted. -/
  kept : ¬ Abandoned token history →
    obtained token history ++ ((after history).receive token).2.completions =
      accepted token history
  /-- The next attempt is accepted if it is the first since the issue and finds the listener. -/
  heard : Outstanding token history → ¬ Abandoned token history → ∀ completion,
    ((after history).complete token completion).2 = .ok ()
  /-- Every other attempt is refused. -/
  refused : ¬ (Outstanding token history ∧ ¬ Abandoned token history) → ∀ completion,
    ((after history).complete token completion).2 = .error (.unknownToken token)
  /-- It is pending until somebody attempts to complete it or revokes it. -/
  pending : token ∈ (after history).pending ↔ Outstanding token history
  /-- What is done with another token next has no effect on it. -/
  isolated : ∀ other action, other ≠ token →
    (token ∈ ((after history).act other action).pending ↔ token ∈ (after history).pending) ∧
    (((after history).act other action).receive token).2 = ((after history).receive token).2 ∧
    ∀ completion, (((after history).act other action).complete token completion).2 =
      ((after history).complete token completion).2

/-- What is done with another token changes neither whether a token is pending nor what comes of
it. -/
theorem isolated_after {other : String} (hne : other ≠ token) (action : Action) :
    (token ∈ ((after history).act other action).pending ↔ token ∈ (after history).pending) ∧
    (((after history).act other action).receive token).2 = ((after history).receive token).2 ∧
    ∀ completion, (((after history).act other action).complete token completion).2 =
      ((after history).complete token completion).2 := by
  have hdistinct := distinct_after history
  have hticket := ticket?_act_of_ne hne (after history) action
  refine ⟨?_, ?_, fun completion => ?_⟩
  · rw [mem_pending_iff (hdistinct.act other action), mem_pending_iff hdistinct, hticket]
  · rw [receive_answer, receive_answer, peek_eq, peek_eq, hticket]
  · rw [complete_answer, complete_answer, hticket]

/-- **Exactly-once delivery**, for each token of every history that issues distinct tokens. -/
theorem deliversOnce_of_nodup (hissued : (issued history).Nodup) (token : String) :
    DeliversOnce token history := by
  have hagrees := agrees_after hissued token
  have hdistinct := distinct_after history
  unfold Agrees at hagrees
  cases hsince : sinceIssue? token history with
  | none =>
    rw [hsince] at hagrees
    obtain ⟨hticket, haccepted, hobtained⟩ := hagrees
    have hnot : ¬ Outstanding token history := by
      rintro ⟨since, hsince', -⟩
      rw [hsince] at hsince'
      cases hsince'
    refine ⟨by simp [haccepted], by simp [hobtained], fun _ => ?_, fun h => absurd h hnot,
      fun _ completion => ?_, ?_, fun other action hne => isolated_after hne action⟩
    · simp [receive_answer, peek_eq, hticket, hobtained, haccepted, Reception.completions]
    · simp [complete_answer, hticket]
    · rw [mem_pending_iff hdistinct, hticket]
      exact ⟨nofun, fun h => absurd h hnot⟩
  | some since =>
    rw [hsince] at hagrees
    obtain ⟨ticket, hticket, haccounts⟩ := hagrees
    have hpending : ticket.pending = true ↔ Outstanding token history := by
      rw [haccounts.pending]
      simp [Outstanding, hsince]
    have hlistening : ticket.listening = true ↔ ¬ Abandoned token history := by
      rw [haccounts.listening]
      simp [Abandoned, hsince]
    obtain ⟨honce, hprefix⟩ := haccounts.obtained_prefix
    refine ⟨honce, hprefix, fun hthere => ?_, fun hopen hthere completion => ?_,
      fun hclosed completion => ?_, ?_, fun other action hne => isolated_after hne action⟩
    · rw [receive_answer, peek_eq, hticket]
      exact haccounts.reception (hlistening.mpr hthere)
    · simp [complete_answer, hticket, hpending.mpr hopen, hlistening.mpr hthere]
    · rw [complete_answer, hticket, if_neg]
      intro hboth
      obtain ⟨hp, hl⟩ := Bool.and_eq_true_iff.mp hboth
      exact hclosed ⟨hpending.mp hp, hlistening.mp hl⟩
    · rw [mem_pending_iff hdistinct, hticket, ← hpending]
      simp

/-- Two tokens at once: one is completed, received and completed again, the other loses its
listener before it is completed. -/
def crossing : List (String × Action) :=
  [("a", .issue), ("b", .issue), ("b", .drop), ("a", .send (.failure "busy" .none)),
    ("b", .send (.success .null)), ("a", .receive), ("a", .send (.success .null)), ("b", .revoke)]

theorem deliversOnce_crossing :
    (issued crossing).Nodup ∧ accepted "a" crossing = [.failure "busy" .none] ∧
      obtained "a" crossing = [.failure "busy" .none] ∧ accepted "b" crossing = [] ∧
      DeliversOnce "a" crossing ∧ DeliversOnce "b" crossing := by
  have hissued : (issued crossing).Nodup := by decide
  exact ⟨hissued, rfl, rfl, rfl, deliversOnce_of_nodup hissued "a",
    deliversOnce_of_nodup hissued "b"⟩

end Tokens

end StateFlow
