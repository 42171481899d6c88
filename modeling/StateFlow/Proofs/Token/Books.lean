import StateFlow.Proofs.Execution.FreshNames
import StateFlow.Proofs.Token.Registry

/-!
# Accounts of tokens

Tasks hold tokens: a token that is held was issued, and is given up when its task stops waiting.
Whatever moves, the tokens are accounted for: a token that is held afterwards was held before or has
just been issued, and one that is held no more has been given up.  Beside that only reports change
the registry, and a move makes the reports of one batch at most (`World.Books`).

It follows that a token has one holder (`World.Owns`), and that reports are all that happens to it
for as long as it is held (`World.Books.ticket?`).

## Main definitions

* `Batch`, `Tokens.reported`: reports for a token that are made in one go
* `World.Books batch? w w' held held'`: the account of a move
* `World.Owns w held`: no token is held twice, and what is held can be heard of

## Main results

* `World.Books.frame`, `World.Books.drop`: accounts of a part, and of tokens given up on the way
* `World.Books.ticket?`: what becomes of a token that is held after a move
* `World.Books.owns`: every account keeps ownership
-/

namespace StateFlow

/-! ## Reports -/

/-- Reports for one token that are made in one go, up to the first that is refused. -/
structure Batch where
  token : String
  settlements : List Settlement
deriving Repr, Inhabited

/-- The reports of a batch that concern a token. -/
def Batch.on (token : String) : Option Batch → List Settlement
  | none => []
  | some batch => if batch.token = token then batch.settlements else []

namespace Tokens

/-- The registry after a batch of reports. -/
def reported (t : Tokens) : Option Batch → Tokens
  | .none => t
  | some batch => (t.settleAll batch.token batch.settlements).1

/-- The registry after tokens were issued. -/
def issueAll (t : Tokens) (tokens : List String) : Tokens := tokens.foldl issue t

variable {t : Tokens} {token : String} {ticket : Ticket}

theorem ticket?_reported (h : t.ticket? token = some ticket) (hlistening : ticket.listening = true)
    (batch? : Option Batch) :
    (t.reported batch?).ticket? token = some (ticket.settledAll (Batch.on token batch?)) := by
  cases batch? with
  | none => exact h
  | some batch =>
    by_cases hother : batch.token = token
    · subst hother
      rw [Batch.on, if_pos rfl]
      exact t.ticket?_settleAll batch.token h hlistening batch.settlements
    · rw [Batch.on, if_neg hother, reported, t.ticket?_settleAll_of_ne hother]
      exact h

theorem ticket?_reported_eq_none (t : Tokens) (token : String) (batch? : Option Batch) :
    (t.reported batch?).ticket? token = .none ↔ t.ticket? token = .none := by
  cases batch? with
  | none => exact Iff.rfl
  | some batch => exact t.ticket?_settleAll_eq_none token batch.token batch.settlements

end Tokens

/-! ## Accounts -/

/-- The tokens that a move issues: one at most, which is named freshly and not reported for at
once. -/
inductive World.Issues (w w' : World) : Option Batch → List String → Prop
  | nothing {batch? : Option Batch} (h : w.named ≤ w'.named) : Issues w w' batch? []
  | token (h : w.named < w'.named) : Issues w w' none [freshName w.named]

/-- What was held or issued is held afterwards or was given up, and the registry knows. -/
inductive World.Books (batch? : Option Batch) (w w' : World) (held held' : List String) : Prop
  | intro (issued dropped : List String) (issues : w.Issues w' batch? issued)
      (held : (held' ++ dropped).Perm (held ++ issued))
      (tokens : w'.tokens = ((w.tokens.issueAll issued).reported batch?).releaseAll dropped)

namespace World.Books

variable {batch? : Option Batch} {w w' : World} {held held' : List String}

/-- Nothing was issued and nothing given up. -/
theorem of_reported (hnamed : w.named ≤ w'.named)
    (htokens : w'.tokens = w.tokens.reported batch?) : w.Books batch? w' held held :=
  .intro [] [] (.nothing hnamed) (.refl _) htokens

theorem named_le (h : w.Books batch? w' held held') : w.named ≤ w'.named := by
  obtain ⟨issued, dropped, hissues, -, -⟩ := h
  cases hissues with
  | nothing h => exact h
  | token h => exact Nat.le_of_lt h

theorem of_eq (hnamed : w.named ≤ w'.named) (htokens : w'.tokens = w.tokens) :
    w.Books none w' held held :=
  .intro [] [] (.nothing hnamed) (.refl _) htokens

/-- The accounts of a part are accounts of the whole. -/
theorem frame (h : w.Books batch? w' held held') (before after : List String) :
    w.Books batch? w' (before ++ held ++ after) (before ++ held' ++ after) := by
  obtain ⟨issued, dropped, hissues, hheld, htokens⟩ := h
  refine .intro issued dropped hissues ?_ htokens
  -- what is issued and what is dropped changes places with what comes after
  have hmove : ∀ part more : List String,
      (before ++ part ++ after ++ more).Perm (before ++ (part ++ more) ++ after) := by
    intro part more
    simp only [List.append_assoc]
    exact (List.perm_append_comm.append_left part).append_left before
  exact (hmove held' dropped).trans
    (((hheld.append_left before).append_right after).trans (hmove held issued).symm)

/-- Tokens that were held may be given up afterwards. -/
theorem drop {mid : List String} (h : w.Books batch? w' held mid) {more : List String}
    (hmid : mid.Perm (held' ++ more)) :
    w.Books batch? { w' with tokens := w'.tokens.releaseAll more } held held' := by
  obtain ⟨issued, dropped, hissues, hheld, htokens⟩ := h
  refine .intro issued (dropped ++ more) ?_ ?_ ?_
  · cases hissues with
    | nothing h => exact .nothing h
    | token h => exact .token h
  · have hswap : (held' ++ (dropped ++ more)).Perm ((held' ++ more) ++ dropped) := by
      rw [List.append_assoc]
      exact List.perm_append_comm.append_left held'
    exact hswap.trans ((hmid.symm.append_right dropped).trans hheld)
  · show w'.tokens.releaseAll more = _
    rw [Tokens.releaseAll_append, htokens]

end World.Books

/-! ## Ownership -/

/-- No token is held twice, and what is held can be heard of; all tokens that were ever issued bear
names that the world has given out. -/
structure World.Owns (w : World) (held : List String) : Prop where
  nodup : held.Nodup
  listening : ∀ token ∈ held, ∃ ticket, w.tokens.ticket? token = some ticket ∧
    ticket.listening = true
  named : ∀ token ticket, w.tokens.ticket? token = some ticket →
    ∃ n < w.named, token = freshName n

/-- What is held bears a name that the world has given out. -/
theorem World.Owns.named_of_mem {w : World} {held : List String} {token : String}
    (h : w.Owns held) (htoken : token ∈ held) : ∃ n < w.named, token = freshName n := by
  obtain ⟨ticket, hticket, -⟩ := h.listening token htoken
  exact h.named token ticket hticket

namespace World.Books

variable {batch? : Option Batch} {w w' : World} {held held' : List String} {token : String}

/-- What is issued has not been issued before. -/
theorem ticket?_issued {issued : List String} (hissues : w.Issues w' batch? issued)
    (howns : w.Owns held) (hnames : w'.NamesDistinct) :
    ∀ token ∈ issued, w.tokens.ticket? token = none := by
  cases hissues with
  | nothing _ => simp
  | token hlt =>
    intro token htoken
    rw [List.mem_singleton.mp htoken]
    cases hticket : w.tokens.ticket? (freshName w.named) with
    | none => rfl
    | some ticket =>
      obtain ⟨n, hn, heq⟩ := howns.named _ ticket hticket
      exact (hnames.freshName_ne hlt hn heq.symm).elim

/-- No token is held or issued twice. -/
theorem nodup_append_issued {issued : List String} (hissues : w.Issues w' batch? issued)
    (howns : w.Owns held) (hnames : w'.NamesDistinct) : (held ++ issued).Nodup := by
  have hnew := ticket?_issued hissues howns hnames
  have hissued : issued.Nodup := by
    cases hissues with
    | nothing _ => exact List.nodup_nil
    | token _ => simp
  refine List.nodup_append.mpr ⟨howns.nodup, hissued, ?_⟩
  rintro token hheld _ hmem rfl
  obtain ⟨ticket, hticket, -⟩ := howns.listening token hheld
  rw [hnew token hmem] at hticket
  cases hticket

/-- **What becomes of a token that is held after a move.**  Either it was issued just now, or it was
held before and the reports of the move are all that has happened to it. -/
theorem ticket? (h : w.Books batch? w' held held') (howns : w.Owns held)
    (hnames : w'.NamesDistinct) (htoken : token ∈ held') :
    (w.tokens.ticket? token = none ∧ batch? = none ∧ w'.tokens.ticket? token = some .fresh) ∨
    (token ∈ held ∧ ∃ ticket, w.tokens.ticket? token = some ticket ∧ ticket.listening = true ∧
      w'.tokens.ticket? token = some (ticket.settledAll (Batch.on token batch?))) := by
  obtain ⟨issued, dropped, hissues, hheld, htokens⟩ := h
  have hnew := ticket?_issued hissues howns hnames
  have hnodup := hheld.nodup_iff.mpr (nodup_append_issued hissues howns hnames)
  have hkept : token ∉ dropped := by
    intro hdropped
    exact (List.nodup_append.mp hnodup).2.2 token htoken token hdropped rfl
  rw [htokens, Tokens.ticket?_releaseAll_of_not_mem _ hkept]
  rcases List.mem_append.mp (hheld.subset (List.mem_append_left dropped htoken)) with hmem | hmem
  · obtain ⟨ticket, hticket, hlistening⟩ := howns.listening token hmem
    refine .inr ⟨hmem, ticket, hticket, hlistening, ?_⟩
    have hissueAll : (w.tokens.issueAll issued).ticket? token = some ticket := by
      cases hissues with
      | nothing _ => exact hticket
      | token _ =>
        have hne : freshName w.named ≠ token := by
          rintro rfl
          rw [hnew _ List.mem_cons_self] at hticket
          cases hticket
        rw [Tokens.issueAll, List.foldl_cons, List.foldl_nil, Tokens.ticket?_issue, if_neg hne]
        exact hticket
    exact Tokens.ticket?_reported hissueAll hlistening batch?
  · refine .inl ⟨hnew token hmem, ?_⟩
    cases hissues with
    | nothing _ => cases hmem
    | token _ =>
      rw [List.mem_singleton.mp hmem]
      exact ⟨rfl, Tokens.ticket?_set_self _ _ _⟩

/-- The tokens that are known after a move were known before or have been issued. -/
theorem ticket?_eq_none_iff {issued dropped : List String} (hissues : w.Issues w' batch? issued)
    (htokens : w'.tokens = ((w.tokens.issueAll issued).reported batch?).releaseAll dropped) :
    w'.tokens.ticket? token = none ↔ token ∉ issued ∧ w.tokens.ticket? token = none := by
  rw [htokens, Tokens.ticket?_releaseAll_eq_none, Tokens.ticket?_reported_eq_none]
  cases hissues with
  | nothing _ => simp [Tokens.issueAll]
  | token _ =>
    rw [Tokens.issueAll, List.foldl_cons, List.foldl_nil, Tokens.ticket?_issue]
    by_cases heq : freshName w.named = token
    · simp [heq]
    · simp [heq, Ne.symm heq]

/-- A token that is unknown after a move was unknown before. -/
theorem ticket?_eq_none (h : w.Books batch? w' held held')
    (hnone : w'.tokens.ticket? token = none) : w.tokens.ticket? token = none := by
  obtain ⟨issued, dropped, hissues, -, htokens⟩ := h
  exact ((ticket?_eq_none_iff hissues htokens).mp hnone).2

/-- **Every account keeps ownership.** -/
theorem owns (h : w.Books batch? w' held held') (howns : w.Owns held)
    (hnames : w'.NamesDistinct) : w'.Owns held' := by
  have hticket : ∀ token ∈ held', _ := fun token htoken => h.ticket? howns hnames htoken
  have hle := h.named_le
  obtain ⟨issued, dropped, hissues, hheld, htokens⟩ := h
  have hnodup := hheld.nodup_iff.mpr (nodup_append_issued hissues howns hnames)
  refine ⟨(List.nodup_append.mp hnodup).1, ?_, ?_⟩
  · intro token htoken
    rcases hticket token htoken with ⟨-, -, hfresh⟩ | ⟨-, ticket, -, hlistening, hsettled⟩
    · exact ⟨.fresh, hfresh, rfl⟩
    · exact ⟨_, hsettled, by simpa using hlistening⟩
  · intro token ticket hknown
    by_cases hmem : token ∈ issued
    · cases hissues with
      | nothing _ => cases hmem
      | token hlt => exact ⟨w.named, hlt, List.mem_singleton.mp hmem⟩
    · cases hbefore : w.tokens.ticket? token with
      | none =>
        rw [(ticket?_eq_none_iff hissues htokens).mpr ⟨hmem, hbefore⟩] at hknown
        cases hknown
      | some ticket =>
        obtain ⟨n, hn, heq⟩ := howns.named token ticket hbefore
        exact ⟨n, Nat.lt_of_lt_of_le hn hle, heq⟩

end World.Books

end StateFlow
