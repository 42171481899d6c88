import StateFlow.Choice.Evaluate
import StateFlow.Proofs.Number.Order
import StateFlow.Proofs.Outcome

/-!
# What comparisons decide

A comparison orders two values of its kind and asks a relation of the order that they come in.
Strings, booleans and timestamps are in a total order of their kind.  Numbers are almost: integers
compare exactly and doubles compare exactly, but a double beside an integer of more than 53 bits
compares with the nearest double of it, and so can be equal to two different integers.

## Main definitions

* `Relation.Asks`: the relation between two elements of an order
* `ValueKind.relates`: what a comparison decides on two values
* `ValueKind.Orders`: the values that a kind orders
* `ValueKind.Blurs`: three values over which equality is not passed on

## Main results

* `Rule.holds_compare`: the outcome of a comparison
* `Rule.integer_comparisons`: integers of 64 bits compare exactly
* `Rule.comparison_laws`: the laws of an order, and exactly where one of them fails
-/

namespace StateFlow

/-- Instants are in a total order: by second, and by nanosecond within a second. -/
instance : Std.TransCmp Timestamp.compare :=
  inferInstanceAs (Std.TransCmp
    (compareLex (compareOn Timestamp.seconds) (compareOn Timestamp.nanoseconds)))

namespace Relation

/-- The relation between two elements of an order. -/
def Asks {α : Type} [LinearOrder α] : Relation → α → α → Prop
  | equals, a, b => a = b
  | lessThan, a, b => a < b
  | greaterThan, a, b => b < a
  | lessThanEquals, a, b => a ≤ b
  | greaterThanEquals, a, b => b ≤ a

instance {α : Type} [LinearOrder α] (relation : Relation) (a b : α) :
    Decidable (relation.Asks a b) :=
  match relation with
  | equals => inferInstanceAs (Decidable (a = b))
  | lessThan => inferInstanceAs (Decidable (a < b))
  | greaterThan => inferInstanceAs (Decidable (b < a))
  | lessThanEquals => inferInstanceAs (Decidable (a ≤ b))
  | greaterThanEquals => inferInstanceAs (Decidable (b ≤ a))

/-- The order that two elements come in satisfies the relations between them. -/
theorem holds_compare {α : Type} [LinearOrder α] (relation : Relation) (a b : α) :
    relation.holds (Ord.compare a b) = decide (relation.Asks a b) := by
  rcases lt_trichotomy a b with h | h | h
  · rw [compare_lt_iff_lt.mpr h]
    cases relation <;> simp [holds, Asks, h, h.le, h.ne, h.not_ge, h.not_gt]
  · rw [compare_eq_iff_eq.mpr h]
    cases relation <;> simp [holds, Asks, h]
  · rw [compare_gt_iff_gt.mpr h]
    cases relation <;> simp [holds, Asks, h, h.le, h.ne', h.not_ge, h.not_gt]

end Relation

/-- The value of an operand. -/
def Operand.value (payload context : Json) : Operand → Except Fault Json
  | .literal value => .ok value
  | .path expression => resolve payload context expression

namespace ValueKind

/-- What a comparison decides on two values: values that the kind does not order are in no
relation. -/
def relates (kind : ValueKind) (relation : Relation) (a b : Json) : Bool :=
  ((kind.compare? a b).map relation.holds).getD false

/-- The values that a kind orders. -/
inductive Orders : ValueKind → Json → Prop
  | string (text : String) : Orders string (.string text)
  | numeric {x : Number} (kept : x.Kept) : Orders numeric (.number x)
  | boolean (b : Bool) : Orders boolean (.boolean b)
  | timestamp {text : String} {instant : Timestamp} (read : Timestamp.read? text = some instant) :
    Orders timestamp (.string text)

/-- Three values over which equality is not passed on: a double between two integers. -/
inductive Blurs : ValueKind → Json → Json → Json → Prop
  | numeric {a b c : Number} (h : Number.Blurred a b c) :
    Blurs numeric (.number a) (.number b) (.number c)

variable {kind : ValueKind} {a b c : Json}

theorem compare?_numeric {x y : Number} :
    numeric.compare? (.number x) (.number y) = some (x.compare y) := rfl

theorem compare?_timestamp {left right : String} {s t : Timestamp}
    (hleft : Timestamp.read? left = some s) (hright : Timestamp.read? right = some t) :
    timestamp.compare? (.string left) (.string right) = some (s.compare t) := by
  simp only [compare?, hleft, hright, Option.bind_eq_bind, Option.bind_some, Option.pure_def]

theorem compare?_self (ha : kind.Orders a) : kind.compare? a a = some .eq := by
  cases ha with
  | string text => exact congrArg some Std.ReflCmp.compare_self
  | numeric kept => exact congrArg some (Number.compare_self _ kept)
  | boolean b => exact congrArg some Std.ReflCmp.compare_self
  | @timestamp text instant read =>
    have hself : instant.compare instant = .eq := Std.ReflCmp.compare_self
    rw [compare?_timestamp read read, hself]

/-- Two values of a kind come in an order, and in the opposite order the other way round. -/
theorem exists_compare? (ha : kind.Orders a) (hb : kind.Orders b) :
    ∃ order, kind.compare? a b = some order ∧ kind.compare? b a = some order.swap := by
  cases ha with
  | string text =>
    cases hb
    exact ⟨_, rfl, congrArg some Std.OrientedCmp.eq_swap⟩
  | numeric kept =>
    cases hb with
    | numeric kept' => exact ⟨_, rfl, congrArg some (Number.compare_swap kept kept')⟩
  | boolean b =>
    cases hb
    exact ⟨_, rfl, congrArg some Std.OrientedCmp.eq_swap⟩
  | timestamp read =>
    cases hb with
    | timestamp read' =>
      refine ⟨_, compare?_timestamp read read', ?_⟩
      rw [compare?_timestamp read' read]
      exact congrArg some Std.OrientedCmp.eq_swap

theorem relates_of_compare? {order : Ordering} (h : kind.compare? a b = some order)
    (relation : Relation) : kind.relates relation a b = relation.holds order := by
  rw [relates, h, Option.map_some, Option.getD_some]

theorem isLE_of_relates {order : Ordering} (h : kind.compare? a b = some order)
    (hrelates : kind.relates .lessThanEquals a b) : order.isLE := by
  rw [relates_of_compare? h] at hrelates
  cases order with
  | gt => exact absurd hrelates (by decide)
  | lt | eq => rfl

theorem relates_of_isLE {order : Ordering} (h : kind.compare? a b = some order)
    (hle : order.isLE) : kind.relates .lessThanEquals a b := by
  rw [relates_of_compare? h]
  cases order with
  | gt => exact absurd hle (by decide)
  | lt | eq => rfl

/-- The order is passed on, unless it is passed on by a double between two integers. -/
theorem relates_trans_or_blurs (ha : kind.Orders a) (hb : kind.Orders b) (hc : kind.Orders c)
    (hab : kind.relates .lessThanEquals a b) (hbc : kind.relates .lessThanEquals b c) :
    kind.relates .lessThanEquals a c ∨ kind.Blurs a b c := by
  cases ha with
  | string text =>
    cases hb
    cases hc
    exact .inl (relates_of_isLE rfl
      (Std.TransCmp.isLE_trans (isLE_of_relates rfl hab) (isLE_of_relates rfl hbc)))
  | boolean b =>
    cases hb
    cases hc
    exact .inl (relates_of_isLE rfl
      (Std.TransCmp.isLE_trans (isLE_of_relates rfl hab) (isLE_of_relates rfl hbc)))
  | timestamp read =>
    cases hb with
    | timestamp read' =>
      cases hc with
      | timestamp read'' =>
        exact .inl (relates_of_isLE (compare?_timestamp read read'')
          (Std.TransCmp.isLE_trans (isLE_of_relates (compare?_timestamp read read') hab)
            (isLE_of_relates (compare?_timestamp read' read'') hbc)))
  | numeric kept =>
    cases hb with
    | numeric kept' =>
      cases hc with
      | numeric kept'' =>
        have hleft := Ordering.isLE_iff_ne_gt.mp (isLE_of_relates rfl hab)
        have hright := Ordering.isLE_iff_ne_gt.mp (isLE_of_relates rfl hbc)
        rcases Number.compare_trans_or_blurred kept kept' kept'' hleft hright with h | h
        · exact .inl (relates_of_isLE rfl (Ordering.isLE_iff_ne_gt.mpr h))
        · exact .inr (.numeric h)

theorem Blurs.symm (h : kind.Blurs a b c) : kind.Blurs c b a := by
  cases h with
  | numeric h =>
    obtain ⟨apart, left, right⟩ := h
    exact .numeric (.intro apart.symm right left)

/-- A double between two integers is equal to both of them, and they are not equal. -/
theorem Blurs.relates_equals (h : kind.Blurs a b c) (ha : kind.Orders a) (hc : kind.Orders c) :
    kind.relates .equals a b ∧ kind.relates .equals b c ∧ ¬ kind.relates .equals a c := by
  cases h with
  | numeric h =>
    cases ha with
    | numeric kept =>
      cases hc with
      | numeric kept' =>
        obtain ⟨hleft, hright, happart⟩ := h.compare kept kept'
        refine ⟨?_, ?_, ?_⟩
        · rw [relates_of_compare? (compare?_numeric.trans (congrArg some hleft))]
          rfl
        · rw [relates_of_compare? (compare?_numeric.trans (congrArg some hright))]
          rfl
        · rw [relates_of_compare? rfl]
          intro hequal
          exact happart (eq_of_beq hequal)

/-! ## The laws -/

/-- Two values are equal where each is at most the other. -/
theorem relates_equals_iff (ha : kind.Orders a) (hb : kind.Orders b) :
    kind.relates .equals a b ↔
      kind.relates .lessThanEquals a b ∧ kind.relates .lessThanEquals b a := by
  obtain ⟨order, hab, hba⟩ := exists_compare? ha hb
  rw [relates_of_compare? hab, relates_of_compare? hab, relates_of_compare? hba]
  cases order <;> decide

theorem relates_lessThan_iff (ha : kind.Orders a) (hb : kind.Orders b) :
    kind.relates .lessThan a b ↔ ¬ kind.relates .lessThanEquals b a := by
  obtain ⟨order, hab, hba⟩ := exists_compare? ha hb
  rw [relates_of_compare? hab, relates_of_compare? hba]
  cases order <;> decide

theorem relates_lessThanEquals_trans_iff (ha : kind.Orders a) (hb : kind.Orders b)
    (hc : kind.Orders c) :
    (kind.relates .lessThanEquals a b → kind.relates .lessThanEquals b c →
      kind.relates .lessThanEquals a c) ↔ ¬ (kind.Blurs a b c ∧ kind.relates .lessThan c a) := by
  rw [relates_lessThan_iff hc ha]
  constructor
  · rintro htrans ⟨hblurs, hnot⟩
    obtain ⟨hleft, hright, -⟩ := hblurs.relates_equals ha hc
    exact hnot (htrans ((relates_equals_iff ha hb).mp hleft).1
      ((relates_equals_iff hb hc).mp hright).1)
  · intro hnot hab hbc
    by_contra hac
    have hblurs := (relates_trans_or_blurs ha hb hc hab hbc).resolve_left hac
    exact hnot ⟨hblurs, hac⟩

theorem relates_equals_trans_iff (ha : kind.Orders a) (hb : kind.Orders b) (hc : kind.Orders c) :
    (kind.relates .equals a b → kind.relates .equals b c → kind.relates .equals a c) ↔
      ¬ kind.Blurs a b c := by
  constructor
  · intro htrans hblurs
    obtain ⟨hleft, hright, hnot⟩ := hblurs.relates_equals ha hc
    exact hnot (htrans hleft hright)
  · intro hnot hab hbc
    rw [relates_equals_iff ha hb] at hab
    rw [relates_equals_iff hb hc] at hbc
    rw [relates_equals_iff ha hc]
    exact ⟨(relates_trans_or_blurs ha hb hc hab.1 hbc.1).resolve_right hnot,
      (relates_trans_or_blurs hc hb ha hbc.2 hab.2).resolve_right fun h => hnot h.symm⟩

end ValueKind

namespace Rule

variable {payload context a b : Json} {kind : ValueKind} {relation : Relation} {operand : Operand}
  {frame : RuleFrame} {expression : String}

/-- The outcome of a comparison is what it decides on the values of its two sides. -/
theorem holds_compare (hframe : frame.subject? = some expression)
    (hleft : resolve payload context expression = .ok a)
    (hright : operand.value payload context = .ok b) :
    (Rule.test frame (.compare kind relation operand)).holds payload context =
      .ok (kind.relates relation a b) := by
  have hvalue : (Test.compare kind relation operand).subject payload context expression =
      .ok (some a) := by
    simp only [Test.subject, hleft]
    rfl
  have houtcome : (Test.compare kind relation operand).outcome payload context (some a) =
      .ok (kind.relates relation a b) := by
    cases operand with
    | literal value =>
      cases hright
      rfl
    | path expression' =>
      rw [Operand.value] at hright
      rw [Test.outcome, hright]
      rfl
  calc (Rule.test frame (.compare kind relation operand)).holds payload context
      = (Test.compare kind relation operand).holds payload context (some expression) := by
        rw [holds, hframe]
    _ = (Test.compare kind relation operand).outcome payload context (some a) := by
        rw [Test.holds, hvalue]
        rfl
    _ = .ok (kind.relates relation a b) := houtcome

/-- **Integers of 64 bits compare exactly.**  The text of such an integer is read as a number that
denotes it, and of two numbers that denote integers every comparison, with a literal or a path
beside its variable, decides its relation between the two integers. -/
theorem integer_comparisons :
    (∀ (characters : List Char) (n : Int), Number.Writes characters n →
      Number.leastInteger ≤ n → n ≤ Number.greatestInteger →
      ∃ x, Number.read? characters = some x ∧ x.Denotes n) ∧
    ∀ (payload context : Json) (frame : RuleFrame) (expression : String) (relation : Relation)
      (operand : Operand) (x y : Number) (m n : Int), x.Denotes m → y.Denotes n →
      frame.subject? = some expression → resolve payload context expression = .ok (.number x) →
      operand.value payload context = .ok (.number y) →
      (Rule.test frame (.compare .numeric relation operand)).holds payload context =
        .ok (decide (relation.Asks m n)) := by
  refine ⟨fun _ _ => Number.exists_read?_of_writes, ?_⟩
  intro payload context frame expression relation operand x y m n hx hy hframe hleft hright
  rw [holds_compare hframe hleft hright, ValueKind.relates_of_compare? ValueKind.compare?_numeric,
    Number.compare_of_denotes hx hy, Relation.holds_compare]

/-- An integer below zero against the greatest one of all, with a path on the right: only the
doubles order them, and they order them rightly. -/
theorem integer_comparisons_of_paths :
    (Rule.test ⟨some "$.low", none⟩ (.compare .numeric .lessThan (.path "$.high"))).holds
      (.object [("low", .number (.integer (-1))),
        ("high", .number (.integer Number.greatestInteger))]) .null = .ok true :=
  integer_comparisons.2 _ _ _ "$.low" .lessThan _ (.integer (-1))
    (.integer Number.greatestInteger) (-1) Number.greatestInteger
    (.integer (by decide) (by decide)) (.integer (by decide) (by decide)) rfl rfl rfl

/-- **The laws of comparisons.**  What a comparison decides depends on its two values only, and all
numbers that are read from their texts are among those that are ordered.  Over the values of one
kind `LessThanEquals` is reflexive and total, `Equals` is the symmetric part of it, and
`LessThan` is `GreaterThan` from the other side and the negation of `GreaterThanEquals`.
`LessThanEquals` and `Equals` are transitive except over a double that is the nearest one of two
different integers: there each of the two integers is equal to it, and they are not equal to each
other.  Such integers have more than 53 bits. -/
theorem comparison_laws (kind : ValueKind) :
    (∀ (payload context : Json) (frame : RuleFrame) (expression : String) (relation : Relation)
      (operand : Operand) (a b : Json), frame.subject? = some expression →
      resolve payload context expression = .ok a → operand.value payload context = .ok b →
      (Rule.test frame (.compare kind relation operand)).holds payload context =
        .ok (kind.relates relation a b)) ∧
    (∀ (characters : List Char) (x : Number), Number.read? characters = some x →
      ValueKind.numeric.Orders (.number x)) ∧
    (∀ a, kind.Orders a → kind.relates .lessThanEquals a a) ∧
    (∀ a b, kind.Orders a → kind.Orders b →
      (kind.relates .lessThanEquals a b ∨ kind.relates .lessThanEquals b a) ∧
      (kind.relates .equals a b ↔
        kind.relates .lessThanEquals a b ∧ kind.relates .lessThanEquals b a) ∧
      (kind.relates .lessThan a b ↔ kind.relates .greaterThan b a) ∧
      (kind.relates .lessThan a b ↔ ¬ kind.relates .greaterThanEquals a b)) ∧
    (∀ a b c, kind.Orders a → kind.Orders b → kind.Orders c →
      ((kind.relates .lessThanEquals a b → kind.relates .lessThanEquals b c →
        kind.relates .lessThanEquals a c) ↔
          ¬ (kind.Blurs a b c ∧ kind.relates .lessThan c a)) ∧
      ((kind.relates .equals a b → kind.relates .equals b c → kind.relates .equals a c) ↔
        ¬ kind.Blurs a b c)) ∧
    ∀ a b c, kind.Blurs a b c →
      ∃ m n : Int, a = .number (.integer m) ∧ c = .number (.integer n) ∧
        2 ^ 53 ≤ m.natAbs ∧ 2 ^ 53 ≤ n.natAbs := by
  refine ⟨?outcome, ?numbers, ?reflexive, ?pairs, ?triples, ?wide⟩
  case outcome =>
    intro payload context frame expression relation operand a b hframe hleft hright
    exact holds_compare hframe hleft hright
  case numbers =>
    intro characters x hread
    exact .numeric (Number.kept_of_read? hread)
  case reflexive =>
    intro a ha
    rw [ValueKind.relates_of_compare? (ValueKind.compare?_self ha)]
    rfl
  case pairs =>
    intro a b ha hb
    refine ⟨?_, ValueKind.relates_equals_iff ha hb, ?_, ?_⟩
    all_goals
      obtain ⟨order, hab, hba⟩ := ValueKind.exists_compare? ha hb
      simp only [ValueKind.relates_of_compare? hab, ValueKind.relates_of_compare? hba]
      cases order <;> decide
  case triples =>
    intro a b c ha hb hc
    exact ⟨ValueKind.relates_lessThanEquals_trans_iff ha hb hc,
      ValueKind.relates_equals_trans_iff ha hb hc⟩
  case wide =>
    intro a b c h
    cases h with
    | numeric h =>
      obtain ⟨m, n, rfl, rfl, hm, hn⟩ := h.exists_integer
      exact ⟨m, n, rfl, rfl, hm, hn⟩

/-- A double that is equal to the integer 2^53 + 1 on both of its sides passes the equality on. -/
theorem comparison_laws_beside_double :
    ValueKind.numeric.relates .equals (.number (.integer 9007199254740993))
      (.number (.real ⟨false, 4503599627370496, 1⟩)) ∧
    ValueKind.numeric.relates .equals (.number (.integer 9007199254740993))
      (.number (.integer 9007199254740993)) := by
  refine ⟨by decide +kernel, ?_⟩
  have hkept : (Number.integer 9007199254740993).Kept := ⟨by decide, by decide⟩
  refine ((comparison_laws .numeric).2.2.2.2.1 _ (.number (.real ⟨false, 4503599627370496, 1⟩)) _
    (.numeric hkept) (.numeric trivial) (.numeric hkept)).2.mpr ?_ (by decide +kernel)
    (by decide +kernel)
  rintro ⟨⟨apart, -, -⟩⟩
  exact apart rfl

/-- The double 2^53 is equal to the integer 2^53 + 1 and to the integer 2^53, which are not equal:
a rule that asks for just this holds. -/
theorem equality_not_transitive :
    Number.read? "9007199254740993".toList = some (.integer 9007199254740993) ∧
    Number.read? "9007199254740992.0".toList = some (.real ⟨false, 4503599627370496, 1⟩) ∧
    Number.read? "9007199254740992".toList = some (.integer 9007199254740992) ∧
    (Rule.and ⟨none, some "X"⟩
      [test ⟨some "$.a", none⟩ (.compare .numeric .equals (.path "$.b")),
        test ⟨some "$.b", none⟩ (.compare .numeric .equals (.path "$.c")),
        not ⟨none, none⟩
          (test ⟨some "$.a", none⟩ (.compare .numeric .equals (.path "$.c")))]).holds
      (.object [("a", .number (.integer 9007199254740993)),
        ("b", .number (.real ⟨false, 4503599627370496, 1⟩)),
        ("c", .number (.integer 9007199254740992))]) .null = .ok true :=
  ⟨by decide +kernel, by decide +kernel, by decide +kernel, rfl⟩

end Rule

end StateFlow
