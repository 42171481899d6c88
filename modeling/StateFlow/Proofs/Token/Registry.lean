import StateFlow.Token.Registry
import StateFlow.Entries

/-!
# What is done to a ticket

Whatever is done with a token is done to its ticket and to no other.  Each operation of the registry
is an operation on the one ticket (`Ticket.completed`, `Ticket.taken` and updates of its fields), so
what is said of a token never needs the rest of the registry.

## Main definitions

* `Ticket.completed`, `Ticket.taken`: a ticket after an attempt to complete it, and after what was
  delivered has been taken out
* `Tokens.Distinct`: each token has one ticket

## Main results

* `Tokens.ticket?_complete`, `Tokens.ticket?_revoke`, `Tokens.ticket?_deafen`,
  `Tokens.ticket?_release`, `Tokens.ticket?_receive`, `Tokens.ticket?_issue`: the ticket of any
  token after an operation
* `Tokens.complete_answer`, `Tokens.receive_answer`: what the operations answer
* `Tokens.mem_pending_iff`: a token is listed as pending exactly if its ticket says so
-/

namespace StateFlow

namespace Ticket

/-- A ticket of a token that has just been issued. -/
def fresh : Ticket := ⟨true, true, .empty⟩

/-- A ticket after an attempt to complete it. -/
def completed (completion : Completion) : Ticket → Ticket
  | ⟨true, true, _⟩ => ⟨false, true, .delivered completion⟩
  | ticket => { ticket with pending := false }

/-- A ticket after what was delivered has been taken out. -/
def taken : Ticket → Ticket
  | ⟨pending, true, .delivered _⟩ => ⟨pending, true, .taken⟩
  | ticket => ticket

/-- A ticket after a report. -/
def settled : Settlement → Ticket → Ticket
  | .success output => completed (.success output)
  | .failure error cause => completed (.failure error cause)
  | .revoke => fun ticket => { ticket with pending := false }

/-- What the listener of a token with a ticket finds. -/
def reception (ticket : Ticket) : Reception :=
  if ticket.listening then
    match ticket.inbox with
    | .delivered completion => .completion completion
    | .taken => .closed
    | .empty => if ticket.pending then .empty else .closed
  else .none

@[simp] theorem listening_settled (settlement : Settlement) (ticket : Ticket) :
    (ticket.settled settlement).listening = ticket.listening := by
  obtain ⟨pending, listening, inbox⟩ := ticket
  cases settlement <;> cases pending <;> cases listening <;> rfl

/-- A ticket that was closed is not changed by reports. -/
theorem settled_of_closed {ticket : Ticket} (h : ticket.pending = false)
    (settlement : Settlement) : ticket.settled settlement = ticket := by
  obtain ⟨pending, listening, inbox⟩ := ticket
  obtain rfl : pending = false := h
  cases settlement <;> cases listening <;> rfl

@[simp] theorem pending_settled (settlement : Settlement) (ticket : Ticket) :
    (ticket.settled settlement).pending = false := by
  obtain ⟨pending, listening, inbox⟩ := ticket
  cases settlement <;> cases pending <;> cases listening <;> rfl

/-- A ticket after reports in order. -/
def settledAll (ticket : Ticket) (settlements : List Settlement) : Ticket :=
  settlements.foldl (fun ticket settlement => ticket.settled settlement) ticket

@[simp] theorem settledAll_nil (ticket : Ticket) : ticket.settledAll [] = ticket := rfl

theorem settledAll_append (ticket : Ticket) (earlier later : List Settlement) :
    ticket.settledAll (earlier ++ later) = (ticket.settledAll earlier).settledAll later :=
  List.foldl_append

theorem settledAll_of_closed {ticket : Ticket} (h : ticket.pending = false)
    (settlements : List Settlement) : ticket.settledAll settlements = ticket := by
  induction settlements with
  | nil => rfl
  | cons settlement settlements ih =>
    rw [settledAll, List.foldl_cons, settled_of_closed h]
    exact ih

/-- The first of several reports decides. -/
theorem settledAll_cons (ticket : Ticket) (first : Settlement) (later : List Settlement) :
    ticket.settledAll (first :: later) = ticket.settled first := by
  rw [settledAll, List.foldl_cons]
  exact settledAll_of_closed (pending_settled first ticket) later

@[simp] theorem listening_settledAll (settlements : List Settlement) (ticket : Ticket) :
    (ticket.settledAll settlements).listening = ticket.listening := by
  cases settlements with
  | nil => rfl
  | cons first later => rw [settledAll_cons, listening_settled]

end Ticket

namespace Tokens

variable (t : Tokens) (token other : String)

/-! ## The ticket after an operation -/

@[simp] theorem ticket?_set_self (ticket : Ticket) :
    (t.set token ticket).ticket? token = some ticket :=
  Entries.get?_insert_self t.tickets token ticket

theorem ticket?_set_of_ne {token other : String} (h : other ≠ token) (ticket : Ticket) :
    (t.set other ticket).ticket? token = t.ticket? token :=
  Entries.get?_insert_of_ne t.tickets ticket h

/-- A ticket that is set is the one of its token. -/
theorem ticket?_set (ticket : Ticket) : (t.set other ticket).ticket? token =
    if other = token then some ticket else t.ticket? token := by
  by_cases h : other = token
  · subst h
    simp
  · rw [ticket?_set_of_ne t h, if_neg h]

theorem ticket?_issue : (t.issue other).ticket? token =
    if other = token then some .fresh else t.ticket? token :=
  ticket?_set t token other .fresh

section

variable {t token other} {f : Ticket → Ticket}

/-- To set what a function makes of a ticket is to apply the function to it. -/
theorem ticket?_set_map {ticket ticket' : Ticket} (h : t.ticket? other = some ticket)
    (hf : f ticket = ticket') : (t.set other ticket').ticket? token =
      if other = token then (t.ticket? token).map f else t.ticket? token := by
  rw [ticket?_set]
  by_cases hother : other = token
  · subst hother
    simp [h, hf]
  · simp [hother]

/-- A function that leaves the ticket of a token as it is need not be applied. -/
theorem ticket?_keep_map (h : ∀ ticket, t.ticket? other = some ticket → f ticket = ticket) :
    t.ticket? token = if other = token then (t.ticket? token).map f else t.ticket? token := by
  by_cases hother : other = token
  · subst hother
    rw [if_pos rfl]
    cases hticket : t.ticket? other with
    | none => rfl
    | some ticket => simp [h ticket hticket]
  · rw [if_neg hother]

end

theorem ticket?_complete (completion : Completion) :
    (t.complete other completion).1.ticket? token =
      if other = token then (t.ticket? token).map (·.completed completion)
      else t.ticket? token := by
  unfold complete
  split
  · next inbox h => exact ticket?_set_map h rfl
  · next inbox h => exact ticket?_set_map h rfl
  · next hlive hdeaf =>
    refine ticket?_keep_map ?_
    rintro ⟨pending, listening, inbox⟩ h
    cases pending with
    | false => rfl
    | true =>
      cases listening with
      | true => exact absurd h (hlive inbox)
      | false => exact absurd h (hdeaf inbox)

theorem ticket?_revoke : (t.revoke other).ticket? token =
    if other = token then (t.ticket? token).map ({ · with pending := false })
    else t.ticket? token := by
  unfold revoke
  split
  · next listening inbox h => exact ticket?_set_map h rfl
  · next hpending =>
    refine ticket?_keep_map ?_
    rintro ⟨pending, listening, inbox⟩ h
    cases pending with
    | false => rfl
    | true => exact absurd h (hpending listening inbox)

theorem ticket?_deafen : (t.deafen other).ticket? token =
    if other = token then (t.ticket? token).map ({ · with listening := false })
    else t.ticket? token := by
  unfold deafen
  split
  · next ticket h => exact ticket?_set_map h rfl
  · next h =>
    refine ticket?_keep_map ?_
    intro ticket hticket
    rw [h] at hticket
    cases hticket

theorem ticket?_release : (t.release other).ticket? token =
    if other = token then (t.ticket? token).map ({ · with pending := false, listening := false })
    else t.ticket? token := by
  rw [release, ticket?_deafen, ticket?_revoke]
  by_cases hother : other = token
  · simp only [hother, if_true, Option.map_map]
    rfl
  · simp [hother]

theorem ticket?_receive : (t.receive other).1.ticket? token =
    if other = token then (t.ticket? token).map (·.taken) else t.ticket? token := by
  unfold receive
  split
  · next pending completion h => exact ticket?_set_map h rfl
  · next hdelivered =>
    refine ticket?_keep_map ?_
    rintro ⟨pending, listening, inbox⟩ h
    cases listening with
    | false => rfl
    | true =>
      cases inbox with
      | delivered completion => exact absurd h (hdelivered pending completion)
      | empty => rfl
      | taken => rfl

/-! ## Answers -/

theorem peek_eq : t.peek token = ((t.ticket? token).map (·.reception)).getD .none := by
  unfold peek
  split
  · next h => simp [h]
  · next pending listening inbox h =>
    rw [h]
    rfl

/-- A token is completed exactly if it is pending and its task listens. -/
theorem complete_answer (completion : Completion) : (t.complete token completion).2 =
    if (t.ticket? token).any (fun ticket => ticket.pending && ticket.listening) then .ok ()
    else .error (.unknownToken token) := by
  unfold complete
  split
  · next inbox h => simp [h]
  · next inbox h => simp [h]
  · next hlive hdeaf =>
    rw [if_neg]
    intro hany
    obtain ⟨⟨pending, listening, inbox⟩, h, hboth⟩ := Option.any_eq_true _ _ |>.mp hany
    obtain ⟨rfl, rfl⟩ : pending = true ∧ listening = true := by simpa using hboth
    exact hlive inbox h

/-- To receive is to find, and to take out. -/
theorem receive_answer : (t.receive token).2 = t.peek token := by
  unfold receive
  split
  · next pending completion h => simp [peek_eq, h, Ticket.reception]
  · rfl

/-! ## Reports -/

theorem ticket?_settle (settlement : Settlement) : (t.settle other settlement).1.ticket? token =
    if other = token then (t.ticket? token).map (·.settled settlement) else t.ticket? token := by
  cases settlement with
  | success output => exact t.ticket?_complete token other (.success output)
  | failure error cause => exact t.ticket?_complete token other (.failure error cause)
  | revoke => exact t.ticket?_revoke token other

/-- A report for a token is refused only if it was closed, or nobody listens. -/
theorem settle_refused {ticket : Ticket} (h : t.ticket? token = some ticket)
    (hlistening : ticket.listening = true) {settlement : Settlement} {fault : Fault}
    (hrefused : (t.settle token settlement).2 = .error fault) : ticket.pending = false := by
  have hcomplete : ∀ completion, (t.complete token completion).2 = .error fault →
      ticket.pending = false := by
    intro completion hrefused
    rw [complete_answer, h, Option.any_some, hlistening, Bool.and_true] at hrefused
    split at hrefused
    · cases hrefused
    · next hclosed => exact Bool.eq_false_iff.mpr hclosed
  cases settlement with
  | success output => exact hcomplete _ hrefused
  | failure error cause => exact hcomplete _ hrefused
  | revoke => cases hrefused

/-- One report in a batch is one report. -/
theorem settleAll_singleton (settlement : Settlement) :
    (t.settleAll token [settlement]).1 = (t.settle token settlement).1 := by
  rw [settleAll]
  split
  · next t' heq =>
    rw [heq]
    rfl
  · rfl

theorem ticket?_settleAll_of_ne {token other : String} (h : other ≠ token)
    (settlements : List Settlement) :
    (t.settleAll other settlements).1.ticket? token = t.ticket? token := by
  induction settlements generalizing t with
  | nil => rfl
  | cons settlement settlements ih =>
    have hsettle := t.ticket?_settle token other settlement
    rw [if_neg h] at hsettle
    rw [settleAll]
    split
    · next t' heq =>
      rw [heq] at hsettle
      rw [ih, hsettle]
    · exact hsettle

/-- Several reports are made as if none of them could be refused: what follows a refused one would
have had no effect. -/
theorem ticket?_settleAll {ticket : Ticket} (h : t.ticket? token = some ticket)
    (hlistening : ticket.listening = true) (settlements : List Settlement) :
    (t.settleAll token settlements).1.ticket? token = some (ticket.settledAll settlements) := by
  induction settlements generalizing t ticket with
  | nil => exact h
  | cons settlement settlements ih =>
    have hsettle := t.ticket?_settle token token settlement
    rw [if_pos rfl, h, Option.map_some] at hsettle
    rw [settleAll]
    split
    · next t' heq =>
      rw [heq] at hsettle
      rw [ih t' hsettle (by simpa using hlistening)]
      rfl
    · next hrefused =>
      have hclosed : ticket.pending = false := by
        cases hanswer : (t.settle token settlement).2 with
        | ok answer => exact (hrefused _ (Prod.ext rfl hanswer)).elim
        | error fault => exact t.settle_refused token h hlistening hanswer
      rw [hsettle, Ticket.settledAll_cons]

/-- Reports neither issue a token nor forget one. -/
theorem ticket?_settleAll_eq_none (settlements : List Settlement) :
    (t.settleAll other settlements).1.ticket? token = .none ↔ t.ticket? token = .none := by
  induction settlements generalizing t with
  | nil => exact Iff.rfl
  | cons settlement settlements ih =>
    have hsettle : (t.settle other settlement).1.ticket? token = .none ↔
        t.ticket? token = .none := by
      rw [ticket?_settle]
      split <;> simp
    rw [settleAll]
    split
    · next t' heq =>
      rw [heq] at hsettle
      exact (ih t').trans hsettle
    · exact hsettle

/-! ## Tokens that are given up -/

theorem releaseAll_append (earlier later : List String) :
    t.releaseAll (earlier ++ later) = (t.releaseAll earlier).releaseAll later := by
  simp [releaseAll, List.foldl_append]

/-- To give tokens up neither issues a token nor forgets one. -/
theorem ticket?_releaseAll_eq_none (tokens : List String) :
    (t.releaseAll tokens).ticket? token = .none ↔ t.ticket? token = .none := by
  induction tokens generalizing t with
  | nil => exact Iff.rfl
  | cons other tokens ih =>
    have hrelease : (t.release other).ticket? token = .none ↔ t.ticket? token = .none := by
      rw [ticket?_release]
      split <;> simp
    exact (ih (t.release other)).trans hrelease

theorem ticket?_releaseAll_of_not_mem {token : String} {tokens : List String}
    (h : token ∉ tokens) : (t.releaseAll tokens).ticket? token = t.ticket? token := by
  induction tokens generalizing t with
  | nil => rfl
  | cons other tokens ih =>
    obtain ⟨hne, htokens⟩ := not_or.mp (mt List.mem_cons.mpr h)
    have hrelease := t.ticket?_release token other
    rw [if_neg (Ne.symm hne)] at hrelease
    rw [releaseAll, List.foldl_cons, ← hrelease]
    exact ih (t := t.release other) htokens

/-! ## The tokens that are pending -/

/-- Each token has one ticket. -/
def Distinct : Prop := (Entries.keys t.tickets).Nodup

variable {t} {token other}

theorem distinct_none : none.Distinct := List.nodup_nil

theorem Distinct.set (h : t.Distinct) (token : String) (ticket : Ticket) :
    (t.set token ticket).Distinct := Entries.nodup_keys_insert h token ticket

theorem Distinct.complete (h : t.Distinct) (token : String) (completion : Completion) :
    (t.complete token completion).1.Distinct := by
  unfold Tokens.complete
  split
  · exact h.set token _
  · exact h.set token _
  · exact h

theorem Distinct.revoke (h : t.Distinct) (token : String) : (t.revoke token).Distinct := by
  unfold Tokens.revoke
  split
  · exact h.set token _
  · exact h

theorem Distinct.deafen (h : t.Distinct) (token : String) : (t.deafen token).Distinct := by
  unfold Tokens.deafen
  split
  · exact h.set token _
  · exact h

theorem Distinct.receive (h : t.Distinct) (token : String) :
    (t.receive token).1.Distinct := by
  unfold Tokens.receive
  split
  · exact h.set token _
  · exact h

/-- A token is listed exactly if its ticket is pending. -/
theorem mem_pending_iff (h : t.Distinct) :
    token ∈ t.pending ↔ ∃ ticket, t.ticket? token = some ticket ∧ ticket.pending = true := by
  unfold pending
  simp only [List.mem_map, List.mem_filter, Prod.exists, exists_and_right, exists_eq_right]
  constructor
  · rintro ⟨ticket, hmem, hpending⟩
    exact ⟨ticket, Entries.get?_of_mem h hmem, hpending⟩
  · rintro ⟨ticket, hticket, hpending⟩
    exact ⟨ticket, Entries.mem_of_get? hticket, hpending⟩

end Tokens

end StateFlow
