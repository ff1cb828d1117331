import Dfk.AvlTree.WellFormed

/-!
# Insertion

The two loops of `dfk_avltree_insert` are followed over the represented shape:
the descent attaches the new hook and remembers the prime node, the second
loop adjusts the balances below it, and the rotation settles it.  Together
they compute the textbook insertion, whatever the comparison is.
-/

namespace Dfk.AvlTree

open AvlShape AvlShape.Shape

variable {ι : Type}

/-- The variables of the descent describe this split of the tree. -/
structure Locates
    (lowest : Prime ι)
    (context : Context ι)
    (prime : Shape ι) : Prop where
  root : prime.root = some lowest.prime
  parent : lowest.primeParent = context.head?.map Frame.label
  side : lowest.primeParentDir = contextDirection context

/-- A hook as `dfk_avltree_hook_init` leaves it, apart from its back-pointer. -/
structure Fresh (memory : Memory ι) (e : ι) : Prop where
  left : (memory e).left = none
  right : (memory e).right = none
  parent : (memory e).parent = none
  bal : (memory e).bal = 0

/-- Hooks after attaching are the old ones and the new one. -/
theorem mem_attach_iff
    {turn : ι → Int} {e hook : ι} {shape : Shape ι} :
    hook ∈ (attach turn e shape).inorder ↔
      hook = e ∨ hook ∈ shape.inorder := by
  induction shape with
  | leaf =>
      simp [attach]
  | node left label balance right leftHypothesis rightHypothesis =>
      simp only [attach]
      split_ifs
      · simp only [inorder_node, List.mem_append, List.mem_cons,
          leftHypothesis]
        exact or_assoc
      · simp only [inorder_node, List.mem_append, List.mem_cons,
          rightHypothesis]
        rw [or_left_comm (a := hook = label)]
        exact or_left_comm

/-- Adjusting balances does not touch the in-order sequence. -/
theorem inorder_grow
    {turn : ι → Int} {e : ι} {shape : Shape ι} :
    (grow turn e shape).inorder = (attach turn e shape).inorder := by
  induction shape with
  | leaf =>
      rfl
  | node left label balance right leftHypothesis rightHypothesis =>
      simp only [attach, grow]
      split_ifs <;> simp [leftHypothesis, rightHypothesis]

/-- Attaching a new hook keeps hooks distinct. -/
theorem nodup_attach
    {turn : ι → Int} {e : ι} {shape : Shape ι}
    (noDuplicates : shape.inorder.Nodup)
    (outside : e ∉ shape.inorder) :
    (attach turn e shape).inorder.Nodup := by
  induction shape with
  | leaf =>
      simp [attach]
  | node left label balance right leftHypothesis rightHypothesis =>
      simp only [inorder_node, List.nodup_append, List.nodup_cons,
        List.mem_append, List.mem_cons] at noDuplicates outside
      simp only [attach]
      split_ifs
      · simp only [inorder_node, List.nodup_append, List.nodup_cons,
          List.mem_cons, mem_attach_iff]
        grind
      · simp only [inorder_node, List.nodup_append, List.nodup_cons,
          List.mem_cons, mem_attach_iff]
        grind

/-- Locating the prime node from one level higher up. -/
theorem Locates.append
    {lowest : Prime ι} {context : Context ι} {prime : Shape ι}
    (locates : Locates lowest context prime)
    (notRoot : context ≠ [])
    (frame : Frame ι) :
    Locates lowest (context ++ [frame]) prime := by
  cases context with
  | nil =>
      exact (notRoot rfl).elim
  | cons head rest =>
      refine ⟨locates.root, locates.parent, ?_⟩
      cases head <;> exact locates.side

/-- A split below a frame is a split of the whole node. -/
theorem primeSplit_append
    {turn : ι → Int} {shape prime : Shape ι}
    {context : Context ι} {frame : Frame ι}
    (split : PrimeSplit turn shape context prime)
    (follows : frame.Follows turn)
    (uneven : prime.balance ≠ 0) :
    PrimeSplit turn (frame.plug shape) (context ++ [frame]) prime where
  plugged := by
    rw [Context.plug_append, ← split.plugged]
    rfl
  follows := by
    intro other member
    rcases List.mem_append.mp member with inner | last
    · exact split.follows other inner
    · rw [List.mem_singleton.mp last]
      exact follows
  quiet := split.quiet
  lowest := Or.inr uneven

/--
One level of the descent: what was located in the child chosen by the
comparison carries over to the node.
-/
theorem located_of_child
    {turn : ι → Int} {child : Shape ι}
    (frame : Frame ι)
    {lowest after : Prime ι} (side : Int) {childHook : ι}
    (childRoot : child.root = some childHook)
    (follows : frame.Follows turn)
    (sideEq : side = contextDirection [frame])
    (quietUp : child.balance = 0 → QuietBelow turn child →
      QuietBelow turn (frame.plug child))
    (located :
      (QuietBelow turn child ∧
        after = if child.balance ≠ 0 then ⟨childHook, some frame.label, side⟩
          else lowest) ∨
      ∃ context prime,
        PrimeSplit turn child context prime ∧
          context ≠ [] ∧ Locates after context prime) :
    (QuietBelow turn (frame.plug child) ∧ after = lowest) ∨
      ∃ context prime,
        PrimeSplit turn (frame.plug child) context prime ∧
          context ≠ [] ∧ Locates after context prime := by
  rcases located with ⟨quiet, afterEq⟩ | ⟨context, prime, split, notRoot,
    locates⟩
  · by_cases even : child.balance = 0
    · left
      exact ⟨quietUp even quiet, by simpa [even] using afterEq⟩
    · right
      rw [if_pos even] at afterEq
      refine ⟨[frame], child, ⟨rfl, ?_, quiet, Or.inr even⟩, by simp, ?_⟩
      · intro other member
        rw [List.mem_singleton.mp member]
        exact follows
      · rw [afterEq]
        exact ⟨childRoot, rfl, sideEq⟩
  · right
    have uneven : prime.balance ≠ 0 :=
      split.lowest.resolve_left notRoot
    exact ⟨context ++ [frame], prime,
      primeSplit_append split follows uneven, by simp,
      locates.append notRoot frame⟩

/-- Acceptance at a node is acceptance in the child the search turns to. -/
theorem accepted_of_frame
    {cmp : ι → ι → Int} {e : ι} (frame : Frame ι) {child : Shape ι}
    (follows : frame.Follows fun hook => cmp hook e)
    (accepted :
      (AvlShape.insert (fun hook => cmp hook e) e
        (frame.plug child)).isSome) :
    (AvlShape.insert (fun hook => cmp hook e) e child).isSome := by
  refine insert_isSome_of_plug ?_
    (show (AvlShape.insert _ e (Context.plug [frame] child)).isSome from
      accepted)
  intro other member
  rw [List.mem_singleton.mp member]
  exact follows

variable [DecidableEq ι]

/-- The descent gives up exactly where the textbook insertion does. -/
theorem insertDescend_refused
    {cmp : ι → ι → Int} {memory : Memory ι} {i e : ι}
    {parent : Option ι} {shape : Shape ι} {fuel : Nat}
    (lowest : Prime ι)
    (represents : Represents memory (some i) parent shape)
    (enough : shape.height ≤ fuel)
    (refused : AvlShape.insert (fun hook => cmp hook e) e shape = none) :
    insertDescend cmp e fuel memory i lowest = .ok none := by
  rw [insert_eq_none_iff] at refused
  induction fuel generalizing i parent shape lowest with
  | zero =>
      obtain ⟨left, right, rfl, -⟩ := represents.of_some
      simp at enough
  | succ fuel inductionHypothesis =>
      obtain ⟨left, right, rfl, -, leftRep, rightRep⟩ :=
        represents.of_some
      simp only [height_node] at enough
      simp only [AvlShape.find] at refused
      simp only [insertDescend]
      split_ifs at refused ⊢ with toLeft toRight
      · cases leftPointer : (memory i).left with
        | none =>
            rw [leftPointer] at leftRep
            simp [leftRep.of_none, AvlShape.find] at refused
        | some child =>
            rw [leftPointer] at leftRep
            exact inductionHypothesis _ leftRep (by omega) refused
      · cases rightPointer : (memory i).right with
        | none =>
            rw [rightPointer] at rightRep
            simp [rightRep.of_none, AvlShape.find] at refused
        | some child =>
            rw [rightPointer] at rightRep
            exact inductionHypothesis _ rightRep (by omega) refused
      · rfl

/--
Outcome of a descent that attaches the new hook: the tree is represented with
the hook in place, other hooks are unchanged, and the variables locate the
prime node, which may still be the one remembered before.
-/
structure Descended
    (cmp : ι → ι → Int) (e : ι)
    (memory : Memory ι) (pointer parent : Option ι) (shape : Shape ι)
    (before after : Prime ι) (changed : Memory ι) : Prop where
  represents :
    Represents changed pointer parent
      (attach (fun hook => cmp hook e) e shape)
  elsewhere :
    ∀ hook, hook ∉ shape.inorder → hook ≠ e → changed hook = memory hook
  located :
    (QuietBelow (fun hook => cmp hook e) shape ∧ after = before) ∨
      ∃ context prime,
        PrimeSplit (fun hook => cmp hook e) shape context prime ∧
          context ≠ [] ∧ Locates after context prime

/-- The descent attaches the new hook wherever the comparison leads. -/
theorem insertDescend_accepted
    {cmp : ι → ι → Int} {memory : Memory ι} {i e : ι}
    {parent : Option ι} {shape : Shape ι} {fuel : Nat}
    (lowest : Prime ι)
    (represents : Represents memory (some i) parent shape)
    (noDuplicates : shape.inorder.Nodup)
    (outside : e ∉ shape.inorder)
    (fresh : Fresh memory e)
    (enough : shape.height ≤ fuel)
    (accepted :
      (AvlShape.insert (fun hook => cmp hook e) e shape).isSome) :
    ∃ after changed,
      insertDescend cmp e fuel memory i lowest =
        .ok (some (after, changed)) ∧
      Descended cmp e memory (some i) parent shape lowest after
        changed := by
  induction fuel generalizing i parent shape lowest with
  | zero =>
      obtain ⟨left, right, rfl, -⟩ := represents.of_some
      simp at enough
  | succ fuel inductionHypothesis =>
      obtain ⟨left, right, rfl, parentEq, leftRep, rightRep⟩ :=
        represents.of_some
      simp only [height_node] at enough
      simp only [inorder_node, List.nodup_append, List.nodup_cons,
        List.mem_append, List.mem_cons, not_or] at noDuplicates outside
      have iNeE : i ≠ e := fun same => outside.2.1 same.symm
      by_cases toLeft : cmp i e < 0
      · have leftAccepted :
            (AvlShape.insert (fun hook => cmp hook e) e left).isSome :=
          accepted_of_frame (.inLeft i (memory i).bal right) toLeft
            accepted
        simp only [insertDescend, toLeft, if_true]
        cases leftPointer : (memory i).left with
        | none =>
            rw [leftPointer] at leftRep
            obtain rfl := leftRep.of_none
            refine ⟨lowest, _, rfl, ⟨?_, ?_, ?_⟩⟩
            · simp only [attach, toLeft, if_true]
              refine ⟨rfl, by simp [iNeE, parentEq],
                by simp [iNeE], ?_, ?_⟩
              · simp [Represents, iNeE, iNeE.symm, fresh.left,
                  fresh.right, fresh.bal]
              · simp only [Memory.setParent_apply,
                  Memory.setLeft_apply, iNeE, if_false, if_true]
                refine rightRep.frame fun hook member => ?_
                have hookNeI : hook ≠ i := by grind
                have hookNeE : hook ≠ e := by grind
                simp [hookNeI, hookNeE]
            · intro hook notMember notE
              have hookNeI : hook ≠ i := by
                simp only [inorder_node, List.mem_append,
                  List.mem_cons, not_or] at notMember
                exact notMember.2.1
              simp [hookNeI, notE]
            · left
              simp [QuietBelow, toLeft, balance]
        | some child =>
            rw [leftPointer] at leftRep
            obtain ⟨after, changed, run, descended⟩ :=
              inductionHypothesis
                (if (memory child).bal ≠ 0 then ⟨child, some i, -1⟩
                  else lowest)
                leftRep (by grind) (by grind) (by omega) leftAccepted
            have atI : changed i = memory i :=
              descended.elsewhere i (by grind) iNeE
            refine ⟨after, changed, run, ⟨?_, ?_, ?_⟩⟩
            · simp only [attach, toLeft, if_true]
              refine ⟨rfl, by rw [atI, parentEq], by rw [atI], ?_, ?_⟩
              · rw [atI, leftPointer]
                exact descended.represents
              · rw [atI]
                exact rightRep.frame fun hook member =>
                  descended.elsewhere hook (by grind) (by grind)
            · intro hook notMember notE
              refine descended.elsewhere hook (fun member => ?_) notE
              exact notMember (by simp [member])
            · refine located_of_child (.inLeft i (memory i).bal right) (-1)
                leftRep.pointer_eq.symm toLeft rfl
                (fun even quiet => ?_) ?_
              · simp [Frame.plug, QuietBelow, toLeft, even, quiet]
              · rw [← leftRep.bal_eq]
                exact descended.located
      · have toRight : 0 < cmp i e := by
          by_contra notRight
          simp [AvlShape.insert, toLeft, notRight] at accepted
        have rightAccepted :
            (AvlShape.insert (fun hook => cmp hook e) e right).isSome :=
          accepted_of_frame (.inRight left i (memory i).bal) toRight
            accepted
        simp only [insertDescend, toLeft, if_false, toRight, if_true]
        cases rightPointer : (memory i).right with
        | none =>
            rw [rightPointer] at rightRep
            obtain rfl := rightRep.of_none
            refine ⟨lowest, _, rfl, ⟨?_, ?_, ?_⟩⟩
            · simp only [attach, toLeft, if_false]
              refine ⟨rfl, by simp [iNeE, parentEq],
                by simp [iNeE], ?_, ?_⟩
              · simp only [Memory.setParent_apply,
                  Memory.setRight_apply, iNeE, if_false, if_true]
                refine leftRep.frame fun hook member => ?_
                have hookNeI : hook ≠ i := by grind
                have hookNeE : hook ≠ e := by grind
                simp [hookNeI, hookNeE]
              · simp [Represents, iNeE, iNeE.symm, fresh.left,
                  fresh.right, fresh.bal]
            · intro hook notMember notE
              have hookNeI : hook ≠ i := by
                simp only [inorder_node, List.mem_append,
                  List.mem_cons, not_or] at notMember
                exact notMember.2.1
              simp [hookNeI, notE]
            · left
              simp [QuietBelow, toLeft, balance]
        | some child =>
            rw [rightPointer] at rightRep
            obtain ⟨after, changed, run, descended⟩ :=
              inductionHypothesis
                (if (memory child).bal ≠ 0 then ⟨child, some i, 1⟩
                  else lowest)
                rightRep (by grind) (by grind) (by omega) rightAccepted
            have atI : changed i = memory i :=
              descended.elsewhere i (by grind) iNeE
            refine ⟨after, changed, run, ⟨?_, ?_, ?_⟩⟩
            · simp only [attach, toLeft, if_false]
              refine ⟨rfl, by rw [atI, parentEq], by rw [atI], ?_, ?_⟩
              · rw [atI]
                exact leftRep.frame fun hook member =>
                  descended.elsewhere hook (by grind) (by grind)
              · rw [atI, rightPointer]
                exact descended.represents
            · intro hook notMember notE
              refine descended.elsewhere hook (fun member => ?_) notE
              exact notMember (by simp [member])
            · refine located_of_child (.inRight left i (memory i).bal) 1
                rightRep.pointer_eq.symm toRight rfl
                (fun even quiet => ?_) ?_
              · simp [Frame.plug, QuietBelow, toLeft, even, quiet]
              · rw [← rightRep.bal_eq]
                exact descended.located

/-- The second loop adjusts the balances on the search path. -/
theorem insertAdjust_eq
    {cmp : ι → ι → Int} {memory : Memory ι} {e : ι}
    {pointer parent : Option ι} {shape : Shape ι} {fuel : Nat}
    (represents : Represents memory pointer parent
      (attach (fun hook => cmp hook e) e shape))
    (noDuplicates : shape.inorder.Nodup)
    (outside : e ∉ shape.inorder)
    (enough : shape.height < fuel)
    (accepted :
      (AvlShape.insert (fun hook => cmp hook e) e shape).isSome) :
    ∃ changed,
      insertAdjust cmp e fuel memory pointer = .ok changed ∧
        Represents changed pointer parent
          (grow (fun hook => cmp hook e) e shape) ∧
        ∀ hook, hook ∉ shape.inorder → changed hook = memory hook := by
  induction shape generalizing memory pointer parent fuel with
  | leaf =>
      obtain ⟨fuel, rfl⟩ := Nat.exists_eq_add_of_lt enough
      refine ⟨memory, ?_, represents, fun _ _ => rfl⟩
      simp [insertAdjust, represents.pointer_eq, attach, root]
  | node left i balance right leftHypothesis rightHypothesis =>
      obtain ⟨fuel, rfl⟩ : ∃ rest, fuel = rest + 1 :=
        ⟨fuel - 1, by omega⟩
      simp only [height_node] at enough
      simp only [inorder_node, List.nodup_append, List.nodup_cons,
        List.mem_append, List.mem_cons, not_or] at noDuplicates outside
      have iNeE : i ≠ e := fun same => outside.2.1 same.symm
      by_cases toLeft : cmp i e < 0
      · have leftAccepted :=
          accepted_of_frame (.inLeft i balance right) toLeft accepted
        simp only [attach, toLeft, if_true] at represents
        obtain ⟨rfl, parentEq, balanceEq, leftRep, rightRep⟩ :=
          represents
        have leftRep :
            Represents (memory.setBal i ((memory i).bal - 1))
              (memory i).left (some i)
              (attach (fun hook => cmp hook e) e left) :=
          leftRep.frame fun hook member => by
            have : hook ≠ i := by grind [mem_attach_iff]
            simp [this]
        obtain ⟨changed, run, grown, elsewhere⟩ :=
          leftHypothesis leftRep (by grind) (by grind)
            (show _ < fuel by omega) leftAccepted
        have atI := elsewhere i (by grind)
        refine ⟨changed, ?_, ?_, ?_⟩
        · simpa [insertAdjust, iNeE, toLeft] using run
        · simp only [grow, toLeft, if_true]
          refine ⟨rfl, by simp [atI, parentEq], by simp [atI, balanceEq],
            ?_, ?_⟩
          · simpa [atI] using grown
          · simp only [atI, Memory.setBal_apply, if_true]
            refine rightRep.frame fun hook member => ?_
            have : hook ≠ i := by grind
            rw [elsewhere hook (by grind)]
            simp [this]
        · intro hook notMember
          simp only [inorder_node, List.mem_append, List.mem_cons,
            not_or] at notMember
          rw [elsewhere hook notMember.1]
          simp [notMember.2.1]
      · have toRight : 0 < cmp i e := by
          by_contra notRight
          simp [AvlShape.insert, toLeft, notRight] at accepted
        have rightAccepted :=
          accepted_of_frame (.inRight left i balance) toRight accepted
        simp only [attach, toLeft, if_false] at represents
        obtain ⟨rfl, parentEq, balanceEq, leftRep, rightRep⟩ :=
          represents
        have rightRep :
            Represents (memory.setBal i ((memory i).bal + 1))
              (memory i).right (some i)
              (attach (fun hook => cmp hook e) e right) :=
          rightRep.frame fun hook member => by
            have : hook ≠ i := by grind [mem_attach_iff]
            simp [this]
        obtain ⟨changed, run, grown, elsewhere⟩ :=
          rightHypothesis rightRep (by grind) (by grind)
            (show _ < fuel by omega) rightAccepted
        have atI := elsewhere i (by grind)
        refine ⟨changed, ?_, ?_, ?_⟩
        · simpa [insertAdjust, iNeE, toLeft, toRight] using run
        · simp only [grow, toLeft, if_false]
          refine ⟨rfl, by simp [atI, parentEq], by simp [atI, balanceEq],
            ?_, ?_⟩
          · simp only [atI, Memory.setBal_apply, if_true]
            refine leftRep.frame fun hook member => ?_
            have : hook ≠ i := by grind
            rw [elsewhere hook (by grind)]
            simp [this]
          · simpa [atI] using grown
        · intro hook notMember
          simp only [inorder_node, List.mem_append, List.mem_cons,
            not_or] at notMember
          rw [elsewhere hook notMember.2.2]
          simp [notMember.2.1]

/-- The rotation at the end of the insertion settles the prime node. -/
theorem insertRotate_eq
    {memory : Memory ι} {prime : ι} {parent : Option ι}
    {left right : Shape ι} {balance : Int}
    (represents : Represents memory (some prime) parent
      (node left prime balance right))
    (noDuplicates : (node left prime balance right).inorder.Nodup)
    (high : balance = 2 → right.Balanced ∧ right.balance ≠ 0)
    (low : balance = -2 → left.Balanced ∧ left.balance ≠ 0) :
    (insertRotate memory prime = .ok none ∧
      settle (node left prime balance right) =
        node left prime balance right) ∨
    ∃ x rotated newParent,
      insertRotate memory prime = .ok (some (x, rotated)) ∧
        Represents rotated (some x) newParent
          (settle (node left prime balance right)) ∧
        ∀ hook, hook ∉ (node left prime balance right).inorder →
          rotated hook = memory hook := by
  obtain ⟨-, -, balanceEq, leftRep, rightRep⟩ := id represents
  by_cases tooHigh : balance = 2
  · right
    subst tooHigh
    obtain ⟨rightBalanced, uneven⟩ := high rfl
    cases rightPointer : (memory prime).right with
    | none =>
        rw [rightPointer] at rightRep
        simp [rightRep.of_none, Shape.balance] at uneven
    | some y =>
        rw [rightPointer] at rightRep
        obtain ⟨x, rotated, newParent, run, -, settled, elsewhere⟩ :=
          rotate_high represents noDuplicates rightPointer rightBalanced
        refine ⟨x, rotated, newParent, ?_, settled, elsewhere⟩
        have within : right.balance = -1 ∨ right.balance = 1 := by
          cases right with
          | leaf =>
              simp [Shape.balance] at uneven
          | node inner other yBalance outer =>
              obtain ⟨-, yLow, yHigh, -⟩ := rightBalanced
              simp only [balance_node] at uneven ⊢
              omega
        simp only [insertRotate, balanceEq, if_true, rightPointer,
          deref_some, ok_bind, rightRep.bal_eq]
        split_ifs at run ⊢ with leansLeft
        · simp [run]
        · simp [check_pos (within.resolve_left leansLeft), run]
  · by_cases tooLow : balance = -2
    · right
      subst tooLow
      obtain ⟨leftBalanced, uneven⟩ := low rfl
      cases leftPointer : (memory prime).left with
      | none =>
          rw [leftPointer] at leftRep
          simp [leftRep.of_none, Shape.balance] at uneven
      | some y =>
          rw [leftPointer] at leftRep
          obtain ⟨x, rotated, newParent, run, -, settled, elsewhere⟩ :=
            rotate_low represents noDuplicates leftPointer leftBalanced
          refine ⟨x, rotated, newParent, ?_, settled, elsewhere⟩
          have within : left.balance = 1 ∨ left.balance = -1 := by
            cases left with
            | leaf =>
                simp [Shape.balance] at uneven
            | node outer other yBalance inner =>
                obtain ⟨-, yLow, yHigh, -⟩ := leftBalanced
                simp only [balance_node] at uneven ⊢
                omega
          simp only [insertRotate, balanceEq, Int.reduceNeg,
            Int.reduceEq, if_true, if_false, leftPointer, deref_some,
            ok_bind, leftRep.bal_eq]
          split_ifs at run ⊢ with leansRight
          · simp [run]
          · simp [check_pos (within.resolve_left leansRight), run]
    · left
      exact ⟨by simp [insertRotate, balanceEq, tooHigh, tooLow],
        settle_of_within tooHigh tooLow⟩

/-- Rotating the prime node and hanging the result settles the whole tree. -/
theorem insertPromote_eq
    {memory : Memory ι} {tree : Tree ι} {lowest : Prime ι}
    {context : Context ι} {left right : Shape ι} {balance : Int}
    (contextRep : RepresentsContext memory tree.root (some lowest.prime)
      lowest.primeParent context)
    (side : lowest.primeParentDir = contextDirection context)
    (represents : Represents memory (some lowest.prime)
      lowest.primeParent (node left lowest.prime balance right))
    (noDuplicates :
      (context.plug
        (node left lowest.prime balance right)).inorder.Nodup)
    (high : balance = 2 → right.Balanced ∧ right.balance ≠ 0)
    (low : balance = -2 → left.Balanced ∧ left.balance ≠ 0) :
    ∃ choice root changed,
      insertRotate memory lowest.prime = .ok choice ∧
      insertPromote lowest tree memory choice =
        .ok ({ tree with root := root }, changed) ∧
      Represents changed root none
        (context.plug
          (settle (node left lowest.prime balance right))) ∧
      ∀ hook,
        hook ∉ (context.plug
          (node left lowest.prime balance right)).inorder →
        changed hook = memory hook := by
  obtain ⟨contextNodup, primeNodup, apart⟩ :=
    nodup_plug_iff.mp noDuplicates
  obtain ⟨run, settled⟩ | ⟨x, rotated, newParent, run, settled,
      elsewhere⟩ :=
    insertRotate_eq represents primeNodup high low
  · refine ⟨none, tree.root, memory, run, rfl, ?_, fun _ _ => rfl⟩
    rw [settled]
    exact RepresentsContext.plug_iff.mpr
      ⟨_, _, contextRep, represents⟩
  · obtain ⟨root, changed, promote, represents, untouched⟩ :=
      promotePrime_represents contextRep noDuplicates
        (inorder_settle _) settled elsewhere
    refine ⟨some (x, rotated), root, changed, run, ?_, represents,
      untouched⟩
    rw [insertPromote, side, promote]

/-- An insertion that finds an equal element changes nothing. -/
theorem insert_of_refused
    {memory : Memory ι} {tree : Tree ι} {shape : Shape ι} {e : ι}
    {fuel : Nat}
    (represents : Represents memory tree.root none shape)
    (balanced : shape.Balanced)
    (fresh : Fresh memory e)
    (enough : shape.height < fuel)
    (refused :
      AvlShape.insert (fun hook => tree.cmp hook e) e shape = none) :
    insert fuel memory tree e = .ok (none, tree, memory) := by
  cases atRoot : tree.root with
  | none =>
      rw [atRoot] at represents
      simp [represents.of_none, AvlShape.insert] at refused
  | some root =>
      rw [insert,
        checkInvariants_eq represents balanced (Nat.le_of_lt enough)]
      rw [atRoot] at represents
      simp [fresh.left, fresh.right, fresh.parent, fresh.bal, atRoot,
        insertDescend_refused ⟨root, none, 0⟩ represents
          (Nat.le_of_lt enough) refused]

/-- An insertion without an equal element is the textbook insertion. -/
theorem insert_of_accepted
    {memory : Memory ι} {tree : Tree ι} {shape inserted : Shape ι}
    {e : ι} {grew : Bool} {fuel : Nat}
    (represents : Represents memory tree.root none shape)
    (balanced : shape.Balanced)
    (counted : ∀ {size},
      tree.size = some size → size = shape.inorder.length)
    (noDuplicates : shape.inorder.Nodup)
    (outside : e ∉ shape.inorder)
    (fresh : Fresh memory e)
    (enough : shape.height < fuel)
    (succeeds :
      AvlShape.insert (fun hook => tree.cmp hook e) e shape =
        some (inserted, grew)) :
    ∃ root changed,
      insert fuel memory tree e =
        .ok (some e,
          { tree with root := root, size := tree.size.map (· + 1) },
          changed) ∧
      Represents changed root none inserted ∧
      ∀ hook, hook ∉ shape.inorder → hook ≠ e →
        changed hook = memory hook := by
  have accepted :
      (AvlShape.insert (fun hook => tree.cmp hook e) e shape).isSome := by
    rw [succeeds]
    rfl
  obtain ⟨insertedBalanced, grown, still, -⟩ :=
    balanced_insert balanced succeeds
  have insertedEnough : inserted.height ≤ fuel := by
    cases grew with
    | true => exact (grown rfl).trans_le enough
    | false => exact (still rfl).trans_le (Nat.le_of_lt enough)
  have entry := checkInvariants_eq represents balanced
    (Nat.le_of_lt enough)
  cases atRoot : tree.root with
  | none =>
      rw [atRoot] at represents
      obtain rfl := represents.of_none
      simp only [AvlShape.insert, Option.some.injEq, Prod.mk.injEq]
        at succeeds
      obtain ⟨rfl, -⟩ := succeeds
      refine ⟨some e, memory, ?_, ?_, fun _ _ _ => rfl⟩
      · rw [insert, entry]
        cases kept : tree.size with
        | none =>
            simp [fresh.left, fresh.right, fresh.parent, fresh.bal,
              atRoot]
        | some size =>
            simp [fresh.left, fresh.right, fresh.parent, fresh.bal,
              atRoot, counted kept]
      · simp [Represents, fresh.left, fresh.right, fresh.parent,
          fresh.bal]
  | some root =>
      rw [atRoot] at represents
      obtain ⟨lowest, attached, descend, descended⟩ :=
        insertDescend_accepted ⟨root, none, 0⟩ represents noDuplicates
          outside fresh (Nat.le_of_lt enough) accepted
      obtain ⟨context, prime, split, locates⟩ :
          ∃ context prime,
            PrimeSplit (fun hook => tree.cmp hook e) shape context prime ∧
              Locates lowest context prime := by
        rcases descended.located with ⟨quiet, rfl⟩ |
          ⟨context, prime, split, -, locates⟩
        · exact ⟨[], shape,
            ⟨rfl, by simp [Context.Follows], quiet, Or.inl rfl⟩,
            represents.pointer_eq.symm, rfl, rfl⟩
        · exact ⟨context, prime, split, locates⟩
      obtain ⟨_, settledTree⟩ := insert_of_primeSplit split accepted
      rw [succeeds, Option.some.injEq, Prod.mk.injEq] at settledTree
      obtain ⟨rfl, -⟩ := settledTree
      obtain ⟨rfl, follows, quiet, -⟩ := split
      obtain ⟨contextNodup, primeNodup, apart⟩ :=
        nodup_plug_iff.mp noDuplicates
      rw [mem_plug_iff, not_or] at outside
      have primeAccepted := insert_isSome_of_plug follows accepted
      obtain ⟨primeBalanced, -⟩ :=
        (Context.balanced_plug context prime).mp balanced
      have attachedRep := descended.represents
      rw [attach_plug e follows] at attachedRep
      obtain ⟨pointer, parent, contextRep, primeRep⟩ :=
        RepresentsContext.plug_iff.mp attachedRep
      obtain rfl : lowest.primeParent = parent :=
        locates.parent.trans contextRep.parent_eq.symm
      have primeEnough : prime.height < fuel := by
        have := Context.length_add_height_le context prime
        omega
      obtain ⟨adjusted, adjust, grownRep, elsewhere⟩ :=
        insertAdjust_eq primeRep primeNodup outside.2
          primeEnough
          primeAccepted
      obtain ⟨left, right, balance, rfl⟩ :
          ∃ left right balance,
            prime = node left lowest.prime balance right := by
        cases prime with
        | leaf =>
            have := locates.root
            simp [Shape.root] at this
        | node left label balance right =>
            obtain rfl : label = lowest.prime := by
              simpa [Shape.root] using locates.root
            exact ⟨left, right, balance, rfl⟩
      obtain ⟨newLeft, newBalance, newRight, grownEq, high, low⟩ :=
        grow_node_cases primeBalanced quiet primeAccepted
      have grownNodup :
          (context.plug
            (node newLeft lowest.prime newBalance newRight)).inorder.Nodup := by
        rw [← grownEq, Context.inorder_plug, inorder_grow,
          ← Context.inorder_plug, ← attach_plug e follows]
        exact nodup_attach noDuplicates
          (by rw [mem_plug_iff, not_or]; exact outside)
      rw [grownEq] at grownRep
      obtain rfl : pointer = some lowest.prime := grownRep.1
      have adjustedContext : RepresentsContext adjusted (some root)
          (some lowest.prime) lowest.primeParent context :=
        contextRep.frame fun hook member =>
          elsewhere hook fun inPrime => apart hook inPrime member
      obtain ⟨choice, newRoot, changed, rotate, promote, settled,
          untouched⟩ :=
        insertPromote_eq (atRoot ▸ adjustedContext) locates.side grownRep
          grownNodup high low
      rw [← grownEq] at settled
      refine ⟨newRoot, changed, ?_, settled, ?_⟩
      · have exit : checkInvariants fuel changed
            { tree with
              root := newRoot, size := tree.size.map (· + 1) } =
            .ok () :=
          checkInvariants_eq settled insertedBalanced insertedEnough
        rw [insert, entry]
        simp [fresh.left, fresh.right, fresh.parent, fresh.bal, atRoot,
          descend, adjust, rotate, promote, exit]
      · intro hook notMember notE
        rw [mem_plug_iff, not_or] at notMember
        have notGrown : hook ∉ (context.plug
            (node newLeft lowest.prime newBalance newRight)).inorder := by
          rw [← grownEq, mem_plug_iff, inorder_grow, mem_attach_iff]
          rintro (inContext | isNew | inside)
          · exact notMember.1 inContext
          · exact notE isNew
          · exact notMember.2 inside
        rw [untouched hook notGrown, elsewhere hook notMember.2,
          descended.elsewhere hook
            (by rw [mem_plug_iff, not_or]; exact notMember) notE]

/-- `dfk_avltree_hook_init` makes a hook fresh. -/
theorem fresh_hookInit
    (debug : Bool) (memory : Memory ι) (e : ι) :
    Fresh (hookInit debug memory e) e := by
  constructor <;> simp [hookInit, Memory.modify, freshHook]

/-- The result of an insertion that stores the new hook. -/
structure Inserted
    (memory : Memory ι) (tree : Tree ι) (shape : Shape ι) (e : ι)
    (changed : Memory ι) (newTree : Tree ι) (inserted : Shape ι) :
    Prop where
  wellFormed : WellFormed changed newTree inserted
  placed :
    ∃ before after,
      shape.inorder = before ++ after ∧
        inserted.inorder = before ++ e :: after ∧
        (∀ stored ∈ before, 0 < tree.cmp stored e) ∧
        ∀ stored ∈ after, tree.cmp stored e < 0
  sameCmp : newTree.cmp = tree.cmp
  size : newTree.size = tree.size.map (· + 1)
  elsewhere :
    ∀ hook, hook ∉ shape.inorder → hook ≠ e → changed hook = memory hook

section Ordered

variable {κ : Type} [LinearOrder κ]
variable {memory : Memory ι} {tree : Tree ι} {shape : Shape ι} {e : ι}
variable {key : ι → κ} {domain : ι → Prop} {fuel : Nat}

/-- An insertion is refused when an equal element is stored. -/
theorem insert_of_stored
    (threeWay : ThreeWayOn tree.cmp key domain)
    (included : ∀ hook ∈ shape.inorder, domain hook)
    (eIn : domain e)
    (wellFormed : WellFormed memory tree shape)
    (fresh : Fresh memory e)
    (enough : shape.height < fuel)
    (stored : ∃ hook ∈ shape.inorder, tree.cmp hook e = 0) :
    insert fuel memory tree e = .ok (none, tree, memory) := by
  obtain ⟨hook, member, equal⟩ := stored
  have steered := threeWay.steered_of_sorted included
    ((threeWay.ordered_iff_sorted included).mp wellFormed.ordered) eIn
  refine insert_of_refused wellFormed.represents wellFormed.balanced
    fresh enough ?_
  rw [insert_eq_none_iff]
  exact find_complete steered member equal

/-- An insertion succeeds when no equal element is stored. -/
theorem insert_of_absent
    (threeWay : ThreeWayOn tree.cmp key domain)
    (included : ∀ hook ∈ shape.inorder, domain hook)
    (eIn : domain e)
    (wellFormed : WellFormed memory tree shape)
    (fresh : Fresh memory e)
    (enough : shape.height < fuel)
    (absent : ∀ hook ∈ shape.inorder, tree.cmp hook e ≠ 0) :
    ∃ newTree changed inserted,
      insert fuel memory tree e = .ok (some e, newTree, changed) ∧
        Inserted memory tree shape e changed newTree inserted := by
  have sorted :=
    (threeWay.ordered_iff_sorted included).mp wellFormed.ordered
  have steered := threeWay.steered_of_sorted included sorted eIn
  have outside : e ∉ shape.inorder := fun member =>
    absent e member ((threeWay.eq_zero_iff eIn eIn).mpr rfl)
  cases succeeds :
      AvlShape.insert (fun hook => tree.cmp hook e) e shape with
  | none =>
      rw [insert_eq_none_iff] at succeeds
      obtain ⟨hook, found⟩ := Option.isSome_iff_exists.mp succeeds
      obtain ⟨member, equal⟩ := find_sound found
      exact (absent hook member equal).elim
  | some result =>
      obtain ⟨inserted, grew⟩ := result
      obtain ⟨before, after, oldSequence, newSequence, smaller, greater⟩ :=
        inorder_insert_of_steered steered succeeds
      obtain ⟨root, changed, run, represents, elsewhere⟩ :=
        insert_of_accepted wellFormed.represents wellFormed.balanced
          wellFormed.counted (wellFormed.noDuplicates threeWay included)
          outside fresh enough succeeds
      have insertedIn : ∀ hook ∈ inserted.inorder, domain hook := by
        intro hook member
        rw [newSequence] at member
        rcases List.mem_append.mp member with early | late
        · exact included hook (by simp [oldSequence, early])
        · rcases List.mem_cons.mp late with rfl | late
          · exact eIn
          · exact included hook (by simp [oldSequence, late])
      refine ⟨_, changed, inserted, run, ?_⟩
      refine ⟨⟨represents, ?_, (balanced_insert wellFormed.balanced
        succeeds).1, ?_⟩, ⟨before, after, oldSequence, newSequence,
          smaller, greater⟩, rfl, rfl, elsewhere⟩
      · rw [threeWay.ordered_iff_sorted insertedIn, newSequence]
        rw [oldSequence] at sorted
        have storedIn : ∀ hook ∈ before ++ after, domain hook := by
          rw [← oldSequence]
          exact included
        obtain ⟨beforeSorted, afterSorted, across⟩ :=
          List.pairwise_append.mp sorted
        have below : ∀ hook ∈ before, key hook < key e :=
          fun hook member =>
            (threeWay.pos_iff (storedIn hook (by simp [member])) eIn).mp
              (smaller hook member)
        have above : ∀ hook ∈ after, key e < key hook :=
          fun hook member =>
            (threeWay.neg_iff (storedIn hook (by simp [member])) eIn).mp
              (greater hook member)
        refine List.pairwise_append.mpr ⟨beforeSorted,
          List.pairwise_cons.mpr ⟨above, afterSorted⟩, ?_⟩
        intro earlier earlierMember later laterMember
        rcases List.mem_cons.mp laterMember with rfl | laterMember
        · exact below earlier earlierMember
        · exact across earlier earlierMember later laterMember
      · intro size kept
        obtain ⟨oldSize, oldKept, rfl⟩ := Option.map_eq_some_iff.mp kept
        rw [wellFormed.counted oldKept, newSequence, oldSequence]
        simp [Nat.add_assoc]

/--
`dfk_avltree_insert` returns; it changes nothing when an equal element is
stored, and otherwise stores the new hook at its ordered position and keeps
the tree well formed.
-/
theorem insertion_correct
    (threeWay : ThreeWayOn tree.cmp key fun _ => True)
    (wellFormed : WellFormed memory tree shape)
    (fresh : Fresh memory e)
    (enough : shape.height < fuel) :
    ((∃ stored ∈ shape.inorder, tree.cmp stored e = 0) ∧
      insert fuel memory tree e = .ok (none, tree, memory)) ∨
    ((∀ stored ∈ shape.inorder, tree.cmp stored e ≠ 0) ∧
      ∃ newTree changed inserted,
        insert fuel memory tree e = .ok (some e, newTree, changed) ∧
          Inserted memory tree shape e changed newTree inserted) := by
  by_cases stored : ∃ hook ∈ shape.inorder, tree.cmp hook e = 0
  · left
    exact ⟨stored, insert_of_stored threeWay (fun _ _ => trivial) trivial
      wellFormed fresh enough stored⟩
  · right
    have absent : ∀ hook ∈ shape.inorder, tree.cmp hook e ≠ 0 :=
      fun hook member equal => stored ⟨hook, member, equal⟩
    exact ⟨absent, insert_of_absent threeWay (fun _ _ => trivial) trivial
      wellFormed fresh enough absent⟩

end Ordered

/-- Inserting a fifth hook below the heavier side of a leaning tree. -/
theorem insertion_correct_leaning :
    ((∃ stored ∈ leaningShape.inorder, leaningTree.cmp stored 5 = 0) ∧
      insert 4 leaningMemory leaningTree 5 =
        .ok (none, leaningTree, leaningMemory)) ∨
    ((∀ stored ∈ leaningShape.inorder, leaningTree.cmp stored 5 ≠ 0) ∧
      ∃ newTree changed inserted,
        insert 4 leaningMemory leaningTree 5 =
          .ok (some 5, newTree, changed) ∧
        Inserted leaningMemory leaningTree leaningShape 5
          changed newTree inserted) :=
  insertion_correct leaning_threeWay leaning_wellFormed
    (by constructor <;> rfl) (by decide)

end Dfk.AvlTree
