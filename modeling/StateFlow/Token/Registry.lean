import StateFlow.Fault

/-!
# Task tokens

A callback task waits on a token until somebody completes it.  The registry keeps a ticket for every
token that was issued: whether it can still be completed, whether its task still listens, and what
has been delivered.  A token is completed at most once, because completing it and revoking it both
close it.
-/

namespace StateFlow

/-- What is reported for a token. -/
inductive Completion where
  | success (output : Json)
  | failure (error : String) (cause : Option String)
deriving Repr, Inhabited

/-- What has come in for the task that waits on a token. -/
inductive Inbox where
  | empty
  | delivered (completion : Completion)
  /-- Delivered and taken out. -/
  | taken
deriving Repr, Inhabited

/-- The state of an issued token. -/
structure Ticket where
  /-- It can still be completed. -/
  pending : Bool
  /-- Its task still listens. -/
  listening : Bool
  inbox : Inbox
deriving Repr, Inhabited

/-- The tickets of all issued tokens. -/
structure Tokens where
  /-- In the order of issue. -/
  tickets : List (String × Ticket)
  /-- The tokens that were closed, in that order. -/
  closed : List String
deriving Repr, Inhabited

/-- What the listener of a token finds. -/
inductive Reception where
  | completion (completion : Completion)
  /-- Nothing yet. -/
  | empty
  /-- Nothing any more: it was taken before, or the token was revoked. -/
  | closed
  /-- There is no listener. -/
  | none
deriving Repr, Inhabited

namespace Tokens

/-- No token. -/
def none : Tokens := ⟨[], []⟩

/-- The ticket of a token. -/
def ticket? (t : Tokens) (token : String) : Option Ticket := Entries.get? t.tickets token

/-- The registry with a ticket replaced. -/
def set (t : Tokens) (token : String) (ticket : Ticket) : Tokens :=
  { t with tickets := Entries.insert t.tickets token ticket }

/-- The registry with a token noted as closed. -/
def close (t : Tokens) (token : String) : Tokens := { t with closed := t.closed ++ [token] }

/-- A new token. -/
def issue (t : Tokens) (token : String) : Tokens := t.set token ⟨true, true, .empty⟩

/-- True when a token can still be completed. -/
def isPending (t : Tokens) (token : String) : Bool :=
  ((t.ticket? token).map (·.pending)).getD false

/-- The tokens that can still be completed, in the order of issue. -/
def pending (t : Tokens) : List String := (t.tickets.filter (·.2.pending)).map (·.1)

/-- Completes a token.  The attempt closes it even when nobody listens any more. -/
def complete (t : Tokens) (token : String) (completion : Completion) :
    Tokens × Except Fault Unit :=
  match t.ticket? token with
  | some ⟨true, true, _⟩ =>
    ((t.set token ⟨false, true, .delivered completion⟩).close token, .ok ())
  | some ⟨true, false, inbox⟩ =>
    ((t.set token ⟨false, false, inbox⟩).close token, .error (.unknownToken token))
  | _ => (t, .error (.unknownToken token))

/-- Closes a token without completing it. -/
def revoke (t : Tokens) (token : String) : Tokens :=
  match t.ticket? token with
  | some ⟨true, listening, inbox⟩ => (t.set token ⟨false, listening, inbox⟩).close token
  | _ => t

/-- The task of a token stops listening. -/
def deafen (t : Tokens) (token : String) : Tokens :=
  match t.ticket? token with
  | some ticket => t.set token { ticket with listening := false }
  | .none => t

/-- Revokes a token whose task stops waiting. -/
def release (t : Tokens) (token : String) : Tokens := (t.revoke token).deafen token

/-- Revokes the tokens of tasks that stop waiting. -/
def releaseAll (t : Tokens) (tokens : List String) : Tokens := tokens.foldl release t

/-- What the listener of a token would find now. -/
def peek (t : Tokens) (token : String) : Reception :=
  match t.ticket? token with
  | .none => .none
  | some ⟨pending, listening, inbox⟩ =>
    if listening then
      match inbox with
      | .delivered completion => .completion completion
      | .taken => .closed
      | .empty => if pending then .empty else .closed
    else .none

/-- Takes out what has been delivered for a token. -/
def receive (t : Tokens) (token : String) : Tokens × Reception :=
  match t.ticket? token with
  | some ⟨pending, true, .delivered completion⟩ =>
    (t.set token ⟨pending, true, .taken⟩, .completion completion)
  | _ => (t, t.peek token)

end Tokens

/-- One of the reports that complete or close a token. -/
inductive Settlement where
  | success (output : Json)
  | failure (error : String) (cause : Option String)
  | revoke
deriving Repr, Inhabited

namespace Tokens

/-- Makes one report for a token; closing it never fails. -/
def settle (t : Tokens) (token : String) : Settlement → Tokens × Except Fault Unit
  | .success output => t.complete token (.success output)
  | .failure error cause => t.complete token (.failure error cause)
  | .revoke => (t.revoke token, .ok ())

/-- Makes reports for a token in order, up to the first that is refused. -/
def settleAll (t : Tokens) (token : String) : List Settlement → Tokens × Except Fault Unit
  | [] => (t, .ok ())
  | s :: rest =>
    match t.settle token s with
    | (t, .ok ()) => t.settleAll token rest
    | refused => refused

end Tokens

end StateFlow
