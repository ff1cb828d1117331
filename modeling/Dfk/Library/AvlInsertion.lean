import Dfk.Library.AvlShape

/-!
# Contexts and textbook insertion

`Context` is a tree with one hole, its innermost frame first.  The textbook
insertion rebalances on the way back up; `insert_plug` relates it to the
one-pass formulation that remembers only the lowest node on the search path
with a non-zero balance.
-/

namespace AvlShape

open Shape

variable {ι : Type}

/-- One step of a downward path: the hole is the left or the right subtree. -/
inductive Frame (ι : Type) where
  | inLeft : ι → Int → Shape ι → Frame ι
  | inRight : Shape ι → ι → Int → Frame ι
  deriving Repr, DecidableEq

namespace Frame

/-- Fill the hole of one frame. -/
def plug : Frame ι → Shape ι → Shape ι
  | inLeft label balance right, hole => node hole label balance right
  | inRight left label balance, hole => node left label balance hole

/-- The label at the node of the frame. -/
def label : Frame ι → ι
  | inLeft label _ _ => label
  | inRight _ label _ => label

/-- Labels that precede the hole in symmetric order. -/
def before : Frame ι → List ι
  | inLeft _ _ _ => []
  | inRight left label _ => left.inorder ++ [label]

/-- Labels that follow the hole in symmetric order. -/
def after : Frame ι → List ι
  | inLeft label _ right => label :: right.inorder
  | inRight _ _ _ => []

/-- The hole is on the side chosen by `turn`. -/
def Follows (turn : ι → Int) : Frame ι → Prop
  | inLeft label _ _ => turn label < 0
  | inRight _ label _ => 0 < turn label

end Frame

/-- A tree with one hole, as the path from the hole up to the root. -/
abbrev Context (ι : Type) := List (Frame ι)

namespace Context

/-- Fill the hole of a context. -/
def plug : Context ι → Shape ι → Shape ι
  | [], hole => hole
  | frame :: outer, hole => plug outer (frame.plug hole)

/-- Labels that precede the hole in symmetric order. -/
def before : Context ι → List ι
  | [] => []
  | frame :: outer => before outer ++ frame.before

/-- Labels that follow the hole in symmetric order. -/
def after : Context ι → List ι
  | [] => []
  | frame :: outer => frame.after ++ after outer

/-- Every frame has its hole on the side chosen by `turn`. -/
def Follows (turn : ι → Int) (context : Context ι) : Prop :=
  ∀ frame ∈ context, frame.Follows turn

/--
The stored balances of a context are right for a hole of the given height.
-/
def Balanced : Context ι → Nat → Prop
  | [], _ => True
  | .inLeft _ balance right :: outer, height =>
      balance = (right.height : Int) - height ∧
        -1 ≤ balance ∧ balance ≤ 1 ∧ right.Balanced ∧
        Balanced outer (max height right.height + 1)
  | .inRight left _ balance :: outer, height =>
      balance = (height : Int) - left.height ∧
        -1 ≤ balance ∧ balance ≤ 1 ∧ left.Balanced ∧
        Balanced outer (max left.height height + 1)

@[simp] theorem plug_nil (hole : Shape ι) :
    plug ([] : Context ι) hole = hole :=
  rfl

@[simp] theorem plug_cons
    (frame : Frame ι) (outer : Context ι) (hole : Shape ι) :
    plug (frame :: outer) hole = plug outer (frame.plug hole) :=
  rfl

/-- Filling a composed context fills the inner part first. -/
theorem plug_append
    (inner outer : Context ι) (hole : Shape ι) :
    plug (inner ++ outer) hole = plug outer (plug inner hole) := by
  induction inner generalizing hole with
  | nil =>
      rfl
  | cons frame rest inductionHypothesis =>
      exact inductionHypothesis (frame.plug hole)

/-- The labels of a filled context surround those of the filling. -/
theorem inorder_plug (context : Context ι) (hole : Shape ι) :
    (context.plug hole).inorder =
      context.before ++ hole.inorder ++ context.after := by
  induction context generalizing hole with
  | nil =>
      simp [plug, before, after]
  | cons frame outer inductionHypothesis =>
      rw [plug_cons, inductionHypothesis]
      cases frame <;>
        simp [Frame.plug, Frame.before, Frame.after, before, after]

/-- Every frame of a context adds a level to the filling. -/
theorem length_add_height_le (context : Context ι) (hole : Shape ι) :
    context.length + hole.height ≤ (context.plug hole).height := by
  induction context generalizing hole with
  | nil =>
      simp
  | cons frame outer inductionHypothesis =>
      refine Nat.le_trans ?_ (inductionHypothesis (frame.plug hole))
      cases frame <;>
        simp only [List.length_cons, Frame.plug, height_node] <;> omega

/-- The height of a filled context only depends on that of the filling. -/
theorem height_plug_congr
    (context : Context ι) {hole other : Shape ι}
    (sameHeight : hole.height = other.height) :
    (context.plug hole).height = (context.plug other).height := by
  induction context generalizing hole other with
  | nil =>
      exact sameHeight
  | cons frame outer inductionHypothesis =>
      refine inductionHypothesis ?_
      cases frame <;> simp [Frame.plug, sameHeight]

/-- A filled context is balanced when both of its parts are. -/
theorem balanced_plug (context : Context ι) (hole : Shape ι) :
    (context.plug hole).Balanced ↔
      hole.Balanced ∧ context.Balanced hole.height := by
  induction context generalizing hole with
  | nil =>
      simp [plug, Balanced]
  | cons frame outer inductionHypothesis =>
      rw [plug_cons, inductionHypothesis]
      cases frame with
      | inLeft label balance right =>
          simp only [Frame.plug, balanced_node, height_node, Balanced]
          tauto
      | inRight left label balance =>
          simp only [Frame.plug, balanced_node, height_node, Balanced]
          tauto

end Context

/-!
## Textbook insertion
-/

/-- Follow `turn` down to a label at which it says stop. -/
def find (turn : ι → Int) : Shape ι → Option ι
  | leaf => none
  | node left label _ right =>
      if turn label < 0 then find turn left
      else if 0 < turn label then find turn right
      else some label

/--
Insert a fresh label where `turn` leads, rebalancing on the way back.  The
flag says whether the tree grew higher; nothing is returned when `turn` stops
at a label already present.
-/
def insert (turn : ι → Int) (fresh : ι) :
    Shape ι → Option (Shape ι × Bool)
  | leaf => some (node leaf fresh 0 leaf, true)
  | node left label balance right =>
      if turn label < 0 then
        match insert turn fresh left with
        | none => none
        | some (newLeft, true) =>
            some (settle (node newLeft label (balance - 1) right),
              decide (balance = 0))
        | some (newLeft, false) =>
            some (node newLeft label balance right, false)
      else if 0 < turn label then
        match insert turn fresh right with
        | none => none
        | some (newRight, true) =>
            some (settle (node left label (balance + 1) newRight),
              decide (balance = 0))
        | some (newRight, false) =>
            some (node left label balance newRight, false)
      else none

/-- Insertion is refused exactly where the search would succeed. -/
theorem insert_eq_none_iff
    {turn : ι → Int} {fresh : ι} {shape : Shape ι} :
    insert turn fresh shape = none ↔ (find turn shape).isSome := by
  induction shape with
  | leaf =>
      simp [insert, find]
  | node left label balance right leftHypothesis rightHypothesis =>
      simp only [insert, find]
      split_ifs with toLeft toRight
      · rw [← leftHypothesis]
        cases insert turn fresh left with
        | none =>
            simp
        | some result =>
            obtain ⟨newLeft, grew⟩ := result
            cases grew <;> simp
      · rw [← rightHypothesis]
        cases insert turn fresh right with
        | none =>
            simp
        | some result =>
            obtain ⟨newRight, grew⟩ := result
            cases grew <;> simp
      · simp

/-- Inversion of a successful insertion into a node. -/
theorem insert_node_cases
    {turn : ι → Int} {fresh label : ι} {balance : Int}
    {left right inserted : Shape ι} {grew : Bool}
    (succeeds :
      insert turn fresh (node left label balance right) =
        some (inserted, grew)) :
    (∃ newLeft childGrew,
        turn label < 0 ∧
        insert turn fresh left = some (newLeft, childGrew) ∧
        (childGrew = true →
          inserted = settle (node newLeft label (balance - 1) right) ∧
          grew = decide (balance = 0)) ∧
        (childGrew = false →
          inserted = node newLeft label balance right ∧ grew = false)) ∨
    (∃ newRight childGrew,
        0 < turn label ∧
        insert turn fresh right = some (newRight, childGrew) ∧
        (childGrew = true →
          inserted = settle (node left label (balance + 1) newRight) ∧
          grew = decide (balance = 0)) ∧
        (childGrew = false →
          inserted = node left label balance newRight ∧ grew = false)) := by
  simp only [insert] at succeeds
  split_ifs at succeeds with toLeft toRight
  · left
    cases child : insert turn fresh left with
    | none =>
        simp [child] at succeeds
    | some result =>
        obtain ⟨newLeft, childGrew⟩ := result
        refine ⟨newLeft, childGrew, toLeft, rfl, ?_⟩
        cases childGrew <;> simp_all
  · right
    cases child : insert turn fresh right with
    | none =>
        simp [child] at succeeds
    | some result =>
        obtain ⟨newRight, childGrew⟩ := result
        refine ⟨newRight, childGrew, toRight, rfl, ?_⟩
        cases childGrew <;> simp_all

/-- Insertion adds the fresh label at one place of the in-order sequence. -/
theorem inorder_insert
    {turn : ι → Int} {fresh : ι}
    {shape inserted : Shape ι} {grew : Bool}
    (succeeds : insert turn fresh shape = some (inserted, grew)) :
    ∃ before after,
      shape.inorder = before ++ after ∧
        inserted.inorder = before ++ fresh :: after := by
  induction shape generalizing inserted grew with
  | leaf =>
      simp only [insert, Option.some.injEq, Prod.mk.injEq] at succeeds
      obtain ⟨rfl, _⟩ := succeeds
      exact ⟨[], [], by simp, by simp⟩
  | node left label balance right leftHypothesis rightHypothesis =>
      obtain ⟨newLeft, childGrew, -, child, whenGrown, whenStill⟩ |
          ⟨newRight, childGrew, -, child, whenGrown, whenStill⟩ :=
        insert_node_cases succeeds
      · obtain ⟨before, after, leftShape, newShape⟩ :=
          leftHypothesis child
        refine ⟨before, after ++ label :: right.inorder,
          by simp [leftShape], ?_⟩
        cases childGrew with
        | true =>
            rw [(whenGrown rfl).1]
            simp [newShape]
        | false =>
            rw [(whenStill rfl).1]
            simp [newShape]
      · obtain ⟨before, after, rightShape, newShape⟩ :=
          rightHypothesis child
        refine ⟨left.inorder ++ label :: before, after,
          by simp [rightShape], ?_⟩
        cases childGrew with
        | true =>
            rw [(whenGrown rfl).1]
            simp [newShape]
        | false =>
            rw [(whenStill rfl).1]
            simp [newShape]

/--
Insertion keeps the tree balanced, reports growth truthfully, and only an
empty tree grows into one with a zero balance.
-/
theorem balanced_insert
    {turn : ι → Int} {fresh : ι}
    {shape inserted : Shape ι} {grew : Bool}
    (balanced : shape.Balanced)
    (succeeds : insert turn fresh shape = some (inserted, grew)) :
    inserted.Balanced ∧
      (grew = true → inserted.height = shape.height + 1) ∧
      (grew = false → inserted.height = shape.height) ∧
      (grew = true → inserted.balance = 0 → shape.height = 0) := by
  induction shape generalizing inserted grew with
  | leaf =>
      simp only [insert, Option.some.injEq, Prod.mk.injEq] at succeeds
      obtain ⟨rfl, rfl⟩ := succeeds
      simp
  | node left label balance right leftHypothesis rightHypothesis =>
      obtain ⟨balanceEq, low, high, leftBalanced, rightBalanced⟩ :=
        balanced
      obtain ⟨newLeft, childGrew, -, child, whenGrown, whenStill⟩ |
          ⟨newRight, childGrew, -, child, whenGrown, whenStill⟩ :=
        insert_node_cases succeeds
      · obtain ⟨newBalanced, grown, still, leans⟩ :=
          leftHypothesis leftBalanced child
        cases childGrew with
        | false =>
            obtain ⟨rfl, rfl⟩ := whenStill rfl
            have sameHeight := still rfl
            simp [newBalanced, rightBalanced, sameHeight]
            omega
        | true =>
            obtain ⟨rfl, rfl⟩ := whenGrown rfl
            have newHeight := grown rfl
            have leans := leans rfl
            by_cases tooLow : balance = -1
            · subst tooLow
              obtain ⟨settled, -, settledHeight⟩ :=
                balanced_settle_low label newBalanced rightBalanced
                  (by omega)
              have leansAway : newLeft.balance ≠ 0 := by
                intro even
                have := leans even
                omega
              have settledHeight := settledHeight leansAway
              simp only [Int.reduceSub, Int.reduceNeg] at *
              refine ⟨settled, by simp, fun _ => ?_, by simp⟩
              rw [settledHeight, height_node]
              omega
            · rw [settle_of_within (by omega) (by omega)]
              simp [newBalanced, rightBalanced]
              omega
      · obtain ⟨newBalanced, grown, still, leans⟩ :=
          rightHypothesis rightBalanced child
        cases childGrew with
        | false =>
            obtain ⟨rfl, rfl⟩ := whenStill rfl
            have sameHeight := still rfl
            simp [newBalanced, leftBalanced, sameHeight]
            omega
        | true =>
            obtain ⟨rfl, rfl⟩ := whenGrown rfl
            have newHeight := grown rfl
            have leans := leans rfl
            by_cases tooHigh : balance = 1
            · subst tooHigh
              obtain ⟨settled, -, settledHeight⟩ :=
                balanced_settle_high label leftBalanced newBalanced
                  (by omega)
              have leansAway : newRight.balance ≠ 0 := by
                intro even
                have := leans even
                omega
              have settledHeight := settledHeight leansAway
              simp only [Int.reduceAdd] at *
              refine ⟨settled, by simp, fun _ => ?_, by simp⟩
              rw [settledHeight, height_node]
              omega
            · rw [settle_of_within (by omega) (by omega)]
              simp [newBalanced, leftBalanced]
              omega

/-!
## One-pass insertion
-/

/-- Hang the fresh label where `turn` leads, leaving every balance alone. -/
def attach (turn : ι → Int) (fresh : ι) : Shape ι → Shape ι
  | leaf => node leaf fresh 0 leaf
  | node left label balance right =>
      if turn label < 0 then
        node (attach turn fresh left) label balance right
      else
        node left label balance (attach turn fresh right)

/-- As `attach`, with every balance on the search path adjusted. -/
def grow (turn : ι → Int) (fresh : ι) : Shape ι → Shape ι
  | leaf => node leaf fresh 0 leaf
  | node left label balance right =>
      if turn label < 0 then
        node (grow turn fresh left) label (balance - 1) right
      else
        node left label (balance + 1) (grow turn fresh right)

/-- Every node strictly below the root on the search path has balance zero. -/
def QuietBelow (turn : ι → Int) : Shape ι → Prop
  | leaf => True
  | node left label _ right =>
      if turn label < 0 then
        left.balance = 0 ∧ QuietBelow turn left
      else
        right.balance = 0 ∧ QuietBelow turn right

/--
`prime` is the subtree at the lowest node of the search path whose balance is
not zero, or the whole tree when there is none.
-/
structure PrimeSplit
    (turn : ι → Int)
    (shape : Shape ι)
    (context : Context ι)
    (prime : Shape ι) : Prop where
  plugged : shape = context.plug prime
  follows : context.Follows turn
  quiet : QuietBelow turn prime
  lowest : context = [] ∨ prime.balance ≠ 0

/-- Attaching inside a context that follows the search path. -/
theorem attach_plug
    {turn : ι → Int} (fresh : ι)
    {context : Context ι}
    (follows : context.Follows turn)
    (hole : Shape ι) :
    attach turn fresh (context.plug hole) =
      context.plug (attach turn fresh hole) := by
  induction context generalizing hole with
  | nil =>
      rfl
  | cons frame outer inductionHypothesis =>
      have outerFollows : Context.Follows turn outer :=
        fun other member => follows other (by simp [member])
      have frameFollows := follows frame (by simp)
      rw [Context.plug_cons, inductionHypothesis outerFollows,
        Context.plug_cons]
      cases frame with
      | inLeft label balance right =>
          simp only [Frame.Follows] at frameFollows
          simp [Frame.plug, attach, frameFollows]
      | inRight left label balance =>
          simp only [Frame.Follows] at frameFollows
          simp [Frame.plug, attach, Int.lt_asymm frameFollows]

/-- A context is untouched by an insertion that does not grow its hole. -/
theorem insert_plug_still
    {turn : ι → Int} {fresh : ι}
    {context : Context ι}
    (follows : context.Follows turn)
    {hole inserted : Shape ι}
    (succeeds : insert turn fresh hole = some (inserted, false)) :
    insert turn fresh (context.plug hole) =
      some (context.plug inserted, false) := by
  induction context generalizing hole inserted with
  | nil =>
      exact succeeds
  | cons frame outer inductionHypothesis =>
      have outerFollows : Context.Follows turn outer :=
        fun other member => follows other (by simp [member])
      have frameFollows := follows frame (by simp)
      refine inductionHypothesis outerFollows ?_
      cases frame with
      | inLeft label balance right =>
          simp only [Frame.Follows] at frameFollows
          simp [Frame.plug, insert, frameFollows, succeeds]
      | inRight left label balance =>
          simp only [Frame.Follows] at frameFollows
          simp [Frame.plug, insert, frameFollows, succeeds,
            Int.lt_asymm frameFollows]

/-- A refused insertion is refused at the root as well. -/
theorem insert_isSome_of_plug
    {turn : ι → Int} {fresh : ι}
    {context : Context ι}
    (follows : context.Follows turn)
    {hole : Shape ι}
    (accepted : (insert turn fresh (context.plug hole)).isSome) :
    (insert turn fresh hole).isSome := by
  induction context generalizing hole with
  | nil =>
      exact accepted
  | cons frame outer inductionHypothesis =>
      have outerFollows : Context.Follows turn outer :=
        fun other member => follows other (by simp [member])
      have frameFollows := follows frame (by simp)
      have atFrame := inductionHypothesis outerFollows accepted
      cases frame with
      | inLeft label balance right =>
          simp only [Frame.Follows] at frameFollows
          simp only [Frame.plug, insert, frameFollows, if_true] at atFrame
          cases child : insert turn fresh hole with
          | none =>
              simp [child] at atFrame
          | some result =>
              rfl
      | inRight left label balance =>
          simp only [Frame.Follows] at frameFollows
          simp only [Frame.plug, insert, frameFollows, if_true,
            Int.lt_asymm frameFollows, if_false] at atFrame
          cases child : insert turn fresh hole with
          | none =>
              simp [child] at atFrame
          | some result =>
              rfl

/-- On a path of zero balances every node grows. -/
theorem insert_of_quiet
    {turn : ι → Int} {fresh : ι}
    {shape inserted : Shape ι} {grew : Bool}
    (even : shape.balance = 0)
    (quiet : QuietBelow turn shape)
    (succeeds : insert turn fresh shape = some (inserted, grew)) :
    inserted = grow turn fresh shape ∧ grew = true := by
  induction shape generalizing inserted grew with
  | leaf =>
      simp only [insert, Option.some.injEq, Prod.mk.injEq] at succeeds
      exact ⟨succeeds.1.symm, succeeds.2.symm⟩
  | node left label balance right leftHypothesis rightHypothesis =>
      simp only [balance_node] at even
      subst even
      obtain ⟨newLeft, childGrew, toLeft, child, whenGrown, -⟩ |
          ⟨newRight, childGrew, toRight, child, whenGrown, -⟩ :=
        insert_node_cases succeeds
      · simp only [QuietBelow, toLeft, if_true] at quiet
        obtain ⟨rfl, rfl⟩ := leftHypothesis quiet.1 quiet.2 child
        obtain ⟨rfl, rfl⟩ := whenGrown rfl
        simp [grow, toLeft, settle_of_within]
      · simp only [QuietBelow, Int.lt_asymm toRight, if_false] at quiet
        obtain ⟨rfl, rfl⟩ := rightHypothesis quiet.1 quiet.2 child
        obtain ⟨rfl, rfl⟩ := whenGrown rfl
        simp [grow, Int.lt_asymm toRight, settle_of_within]

/--
What adjusting the balances leaves at the prime node: a subtree that is two
levels too high is itself balanced and leans to one side.
-/
theorem grow_node_cases
    {turn : ι → Int} {fresh label : ι} {balance : Int} {left right : Shape ι}
    (balanced : (node left label balance right).Balanced)
    (quiet : QuietBelow turn (node left label balance right))
    (accepted :
      (insert turn fresh (node left label balance right)).isSome) :
    ∃ newLeft newBalance newRight,
      grow turn fresh (node left label balance right) =
        node newLeft label newBalance newRight ∧
      (newBalance = 2 → newRight.Balanced ∧ newRight.balance ≠ 0) ∧
      (newBalance = -2 → newLeft.Balanced ∧ newLeft.balance ≠ 0) := by
  obtain ⟨⟨inserted, grew⟩, succeeds⟩ :=
    Option.isSome_iff_exists.mp accepted
  obtain ⟨balanceEq, low, high, leftBalanced, rightBalanced⟩ := balanced
  obtain ⟨newLeft, childGrew, toLeft, child, -⟩ |
      ⟨newRight, childGrew, toRight, child, -⟩ :=
    insert_node_cases succeeds
  · simp only [QuietBelow, toLeft, if_true] at quiet
    obtain ⟨rfl, rfl⟩ := insert_of_quiet quiet.1 quiet.2 child
    obtain ⟨newBalanced, -, -, leans⟩ :=
      balanced_insert leftBalanced child
    refine ⟨grow turn fresh left, balance - 1, right,
      by simp [grow, toLeft], by omega, fun tooLow => ⟨newBalanced, ?_⟩⟩
    intro even
    have := leans rfl even
    omega
  · simp only [QuietBelow, Int.lt_asymm toRight, if_false] at quiet
    obtain ⟨rfl, rfl⟩ := insert_of_quiet quiet.1 quiet.2 child
    obtain ⟨newBalanced, -, -, leans⟩ :=
      balanced_insert rightBalanced child
    refine ⟨left, balance + 1, grow turn fresh right,
      by simp [grow, Int.lt_asymm toRight],
      fun tooHigh => ⟨newBalanced, ?_⟩, by omega⟩
    intro even
    have := leans rfl even
    omega

/--
Textbook insertion equals the one-pass formulation: adjust the balances below
the prime node and settle there.
-/
theorem insert_of_primeSplit
    {turn : ι → Int} {fresh : ι}
    {shape prime : Shape ι} {context : Context ι}
    (split : PrimeSplit turn shape context prime)
    (accepted : (insert turn fresh shape).isSome) :
    ∃ grew,
      insert turn fresh shape =
        some (context.plug (settle (grow turn fresh prime)), grew) := by
  obtain ⟨rfl, follows, quiet, lowest⟩ := split
  obtain ⟨⟨inserted, grew⟩, atPrime⟩ :=
    Option.isSome_iff_exists.mp
      (insert_isSome_of_plug follows accepted)
  by_cases even : prime.balance = 0
  · -- only the root can be both prime and even
    obtain rfl : context = [] := by tauto
    obtain ⟨rfl, rfl⟩ := insert_of_quiet even quiet atPrime
    refine ⟨true, ?_⟩
    rw [Context.plug_nil, Context.plug_nil, atPrime]
    cases prime with
    | leaf =>
        rw [grow, settle_of_within (by decide) (by decide)]
    | node left label balance right =>
        simp only [balance_node] at even
        simp only [grow]
        split_ifs
        · rw [settle_of_within (by omega) (by omega)]
        · rw [settle_of_within (by omega) (by omega)]
  · refine ⟨false, insert_plug_still follows ?_⟩
    cases prime with
    | leaf =>
        simp [balance] at even
    | node left label balance right =>
        simp only [balance_node] at even
        obtain ⟨newLeft, childGrew, toLeft, child, whenGrown, -⟩ |
            ⟨newRight, childGrew, toRight, child, whenGrown, -⟩ :=
          insert_node_cases atPrime
        · simp only [QuietBelow, toLeft, if_true] at quiet
          obtain ⟨rfl, rfl⟩ := insert_of_quiet quiet.1 quiet.2 child
          obtain ⟨rfl, rfl⟩ := whenGrown rfl
          rw [atPrime]
          simp [grow, toLeft, even]
        · simp only [QuietBelow, Int.lt_asymm toRight, if_false]
            at quiet
          obtain ⟨rfl, rfl⟩ := insert_of_quiet quiet.1 quiet.2 child
          obtain ⟨rfl, rfl⟩ := whenGrown rfl
          rw [atPrime]
          simp [grow, Int.lt_asymm toRight, even]

/-!
## Relabelling
-/

section Relabelling

variable {κ : Type}

/-- Rotations commute with relabelling. -/
theorem settle_map (relabel : ι → κ) (shape : Shape ι) :
    settle (shape.map relabel) = (settle shape).map relabel := by
  cases shape with
  | leaf =>
      rfl
  | node left label balance right =>
      by_cases high : balance = 2
      · subst high
        cases right with
        | leaf =>
            rfl
        | node inner y yBalance outer =>
            by_cases leansLeft : yBalance = -1
            · subst leansLeft
              cases inner <;> simp [settle, Shape.map]
            · simp [Shape.map, settle_high_single leansLeft]
      · by_cases low : balance = -2
        · subst low
          cases left with
          | leaf =>
              rfl
          | node outer y yBalance inner =>
              by_cases leansRight : yBalance = 1
              · subst leansRight
                cases inner <;> simp [settle, Shape.map]
              · simp [Shape.map, settle_low_single leansRight]
        · simp [Shape.map, settle_of_within high low]

/-- Searching commutes with relabelling. -/
theorem find_map
    (relabel : ι → κ) (turn : κ → Int) (shape : Shape ι) :
    find turn (shape.map relabel) =
      (find (fun label => turn (relabel label)) shape).map relabel := by
  induction shape with
  | leaf =>
      rfl
  | node left label balance right leftHypothesis rightHypothesis =>
      simp only [Shape.map, find]
      split_ifs
      · exact leftHypothesis
      · exact rightHypothesis
      · rfl

/-- Insertion commutes with relabelling. -/
theorem insert_map
    (relabel : ι → κ) (turn : κ → Int) (fresh : ι) (shape : Shape ι) :
    insert turn (relabel fresh) (shape.map relabel) =
      (insert (fun label => turn (relabel label)) fresh shape).map
        fun result => (result.1.map relabel, result.2) := by
  induction shape with
  | leaf =>
      rfl
  | node left label balance right leftHypothesis rightHypothesis =>
      simp only [Shape.map, insert, leftHypothesis, rightHypothesis]
      split_ifs
      · cases insert (fun label => turn (relabel label)) fresh left with
        | none =>
            rfl
        | some result =>
            obtain ⟨inserted, grew⟩ := result
            cases grew <;> simp [Shape.map, ← settle_map]
      · cases insert (fun label => turn (relabel label)) fresh right with
        | none =>
            rfl
        | some result =>
            obtain ⟨inserted, grew⟩ := result
            cases grew <;> simp [Shape.map, ← settle_map]
      · rfl

end Relabelling

end AvlShape
