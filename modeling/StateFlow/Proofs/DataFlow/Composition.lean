import StateFlow.Execution.Departure
import StateFlow.Proofs.DataFlow.ResultPath
import StateFlow.Proofs.Outcome
import StateFlow.Proofs.Path.Grammar

/-!
# Paths one after another

What one path has found can be searched by a second, whose marker then stands for that value.  A
state does this that selects its input by the one and its output by the other.  The same place is
named by one expression, the first with the names of the second behind its own (`Path.joined`), and
finding it at once is finding it in two parts.

Nothing is asked of the document.  A field that is missing and a scalar or an array that stands in
the way end the search wherever the expression is parted, also before its first name and after its
last, where one of the two paths is a marker alone.  What depends on the parting is only which
expression the fault names: that of the part that found nothing.

## Main definitions

* `Path.joined`: two expressions as one

## Main results

* `Path.read_joined`: the joined expression is read as the names of both
* `resolvePayload_joined`: following it is following the two, up to what a fault names
* `SucceedState.outcome_joined`: a Succeed state may select in two parts or at once
* `resolution_composes`: what both come to, value by value and fault by fault
-/

namespace StateFlow

/-! ## Joined expressions -/

namespace Path

/-- The first expression with the names of the second behind its own; the marker of the second is
left out. -/
def joined (p q : String) : String := String.ofList (p.toList ++ q.toList.tail)

/-- A path of all the names of two paths writes what the two write, joined. -/
theorem text_append (root : Root) (names names' : List String) :
    text ⟨root, names ++ names'⟩ = joined (text ⟨root, names⟩) (text ⟨.payload, names'⟩) := by
  unfold joined text
  rw [String.toList_ofList, String.toList_ofList]
  apply congrArg String.ofList
  show marker root ++ (names ++ names').flatMap _ = (marker root ++ names.flatMap _) ++
    names'.flatMap _
  rw [List.flatMap_append, List.append_assoc]

/-- **A joined expression is read as the names of both.**  Only the second has to read the payload,
as its marker is the one that is left out. -/
theorem read_joined {p q : String} {path : Path} {names : List String} (hp : read p = .ok path)
    (hq : read q = .ok ⟨.payload, names⟩) :
    read (joined p q) = .ok ⟨path.root, path.names ++ names⟩ := by
  obtain ⟨hproper, rfl⟩ := read_eq_ok_iff.mp hp
  obtain ⟨hproper', rfl⟩ := read_eq_ok_iff.mp hq
  apply read_eq_ok_iff.mpr
  constructor
  · intro s hs
    rcases List.mem_append.mp hs with hs | hs
    · exact hproper s hs
    · exact hproper' s hs
  · exact text_append path.root path.names names

end Path

section

variable {p q : String} {names names' : List String}

theorem PayloadPath.joined (hp : PayloadPath p names) (hq : PayloadPath q names') :
    PayloadPath (Path.joined p q) (names ++ names') := Path.read_joined hp hq

/-! ## Following joined expressions -/

/-- A path into the payload fails only where it finds nothing. -/
theorem resolvePayload_failsOnly_pathNotFound (h : PayloadPath p names) (document : Json) :
    FailsOnly (fun fault => ∃ e, fault = .pathNotFound e) (resolvePayload document p) := by
  rw [resolvePayload_payloadPath h, follow]
  cases document.walk? names with
  | none => exact .error ⟨p, rfl⟩
  | some value => exact .ok value

/-- **Following a joined expression is following the one and then the other.**  A fault names the
whole expression, and not the part of it that has found nothing. -/
theorem resolvePayload_joined (hp : PayloadPath p names) (hq : PayloadPath q names')
    (document : Json) :
    resolvePayload document (Path.joined p q) =
      (resolvePayload document p >>= (resolvePayload · q)).mapError
        fun _ => .pathNotFound (Path.joined p q) := by
  rw [resolvePayload_payloadPath (hp.joined hq), resolvePayload_payloadPath hp, follow, follow,
    Json.walk?_append]
  cases document.walk? names with
  | none => rfl
  | some inner =>
    show _ = (resolvePayload inner q).mapError _
    rw [resolvePayload_payloadPath hq, follow, Option.bind_some]
    cases inner.walk? names' with
    | none => rfl
    | some value => rfl

/-! ## Succeed states -/

namespace SucceedState

/-- What a Succeed state hands on has gone through both of its selections. -/
theorem outcome_eq (state : SucceedState) (input : Json) :
    state.outcome input = Departure.mk none true <$>
      (state.input.project input >>= fun effective => state.output.project effective) := by
  unfold outcome
  rw [map_bind]
  apply bind_congr
  intro effective
  exact bind_pure_comp _ _

variable (comment? comment?' : Option String)

/-- **A Succeed state that selects at once hands on what one does that selects in two parts**, and
fails where that one fails.  A fault names the whole expression. -/
theorem outcome_joined (hp : PayloadPath p names) (hq : PayloadPath q names') (document : Json) :
    outcome ⟨comment?', .path (Path.joined p q), .absent⟩ document =
      (outcome ⟨comment?, .path p, .path q⟩ document).mapError
        fun _ => .pathNotFound (Path.joined p q) := by
  rw [outcome_eq, outcome_eq]
  show _ <$> (resolvePayload document (Path.joined p q) >>= pure) =
    (_ <$> (resolvePayload document p >>= (resolvePayload · q))).mapError _
  rw [bind_pure, resolvePayload_joined hp hq]
  cases resolvePayload document p >>= (resolvePayload · q) with
  | error fault => rfl
  | ok value => rfl

/-- A Succeed state whose expressions are paths into the payload hands on a value and ends the run,
or one of the two finds nothing. -/
theorem outcome_cases (hp : PayloadPath p names) (hq : PayloadPath q names') (document : Json) :
    (∃ v, outcome ⟨comment?, .path p, .path q⟩ document = .ok ⟨none, true, v⟩) ∨
      ∃ e, outcome ⟨comment?, .path p, .path q⟩ document = .error (.pathNotFound e) := by
  have hfails : FailsOnly (fun fault => ∃ e, fault = .pathNotFound e)
      (outcome ⟨comment?, .path p, .path q⟩ document) :=
    .bind (resolvePayload_failsOnly_pathNotFound hp document) fun inner =>
      .bind (resolvePayload_failsOnly_pathNotFound hq inner) fun value => .ok _
  cases houtcome : outcome ⟨comment?, .path p, .path q⟩ document with
  | error fault =>
    right
    obtain ⟨e, rfl⟩ := hfails fault houtcome
    exact ⟨e, rfl⟩
  | ok departure =>
    left
    rw [outcome_eq, map_eq_ok_iff] at houtcome
    obtain ⟨v, -, rfl⟩ := houtcome
    exact ⟨v, rfl⟩

end SucceedState

/-! ## Composition -/

/-- **Resolving composes.**  What a joined expression leads to is what the second leads to in what
the first leads to.  So a Succeed state that selects its input by the first and its output by the
second hands on the same as one that selects its input by both joined and has no selection of its
output.  The one finds nothing exactly where the other does, and neither fails in another way. -/
theorem resolution_composes (hp : PayloadPath p names) (hq : PayloadPath q names')
    (document : Json) :
    PayloadPath (Path.joined p q) (names ++ names') ∧
    (∀ v, resolvePayload document (Path.joined p q) = .ok v ↔
      ∃ u, resolvePayload document p = .ok u ∧ resolvePayload u q = .ok v) ∧
    ∀ comment? comment?' : Option String,
      let parted : SucceedState := ⟨comment?, .path p, .path q⟩
      let whole : SucceedState := ⟨comment?', .path (Path.joined p q), .absent⟩
      (∀ v, parted.outcome document = .ok ⟨none, true, v⟩ ↔
        whole.outcome document = .ok ⟨none, true, v⟩) ∧
      ((∃ e, parted.outcome document = .error (.pathNotFound e)) ↔
        ∃ e, whole.outcome document = .error (.pathNotFound e)) ∧
      ((∃ v, parted.outcome document = .ok ⟨none, true, v⟩) ∨
        ∃ e, parted.outcome document = .error (.pathNotFound e)) := by
  refine ⟨hp.joined hq, ?_, ?_⟩
  · intro v
    rw [resolvePayload_joined hp hq, mapError_eq_ok_iff, bind_eq_ok_iff]
  · intro comment? comment?' parted whole
    have hwhole : whole.outcome document =
        (parted.outcome document).mapError fun _ => .pathNotFound (Path.joined p q) :=
      SucceedState.outcome_joined comment? comment?' hp hq document
    have hcases := SucceedState.outcome_cases comment? hp hq document
    refine ⟨?_, ?_, hcases⟩
    · intro v
      rw [hwhole, mapError_eq_ok_iff]
    · constructor
      · rintro ⟨e, hparted⟩
        rw [hwhole, hparted]
        exact ⟨Path.joined p q, rfl⟩
      · rintro ⟨e, hmissing⟩
        -- a value would have been handed on by the other state too
        rcases hcases with ⟨v, hv⟩ | hparted
        · rw [hwhole, hv] at hmissing
          cases hmissing
        · exact hparted

/-- A document with an object in an object, and an array in that. -/
def receipt : Json :=
  .object [("order", .object [("total", .ofNat 7), ("lines", .array [.object []])])]

/-- What one way of selecting hands on the other hands on, and neither goes into an array. -/
theorem resolution_composes_receipt :
    PayloadPath "$.order" ["order"] ∧ PayloadPath "$.total" ["total"] ∧
    PayloadPath "$.lines.first" ["lines", "first"] ∧
    resolvePayload receipt "$.order.total" = .ok (.ofNat 7) ∧
    SucceedState.outcome ⟨none, .path "$.order.total", .absent⟩ receipt =
      .ok ⟨none, true, .ofNat 7⟩ ∧
    ∃ e, SucceedState.outcome ⟨none, .path "$.order.lines.first", .absent⟩ receipt =
      .error (.pathNotFound e) := by
  have horder : PayloadPath "$.order" ["order"] := rfl
  have htotal : PayloadPath "$.total" ["total"] := rfl
  have hfirst : PayloadPath "$.lines.first" ["lines", "first"] := rfl
  obtain ⟨-, hvalues, hstates⟩ := resolution_composes horder htotal receipt
  obtain ⟨-, -, hstates'⟩ := resolution_composes horder hfirst receipt
  obtain ⟨hpasses, -, -⟩ := hstates none none
  obtain ⟨-, hmisses, -⟩ := hstates' none none
  refine ⟨horder, htotal, hfirst, ?_, ?_, ?_⟩
  · exact (hvalues (.ofNat 7)).mpr ⟨_, rfl, rfl⟩
  · exact (hpasses (.ofNat 7)).mp rfl
  · exact hmisses.mp ⟨"$.lines.first", rfl⟩

end

end StateFlow
