import Dfk.StrMap.FiniteMap

/-!
# Header maps

The header maps of requests and responses are string maps whose items are
never erased.  Here they are the shapes of their trees, names and values taken
for the bytes they point to; `Shows` connects them to the hooks in memory.
-/

namespace Dfk.Http

open AvlShape AvlShape.Shape

/-- A header, or a query argument. -/
structure Header where
  name : Bytes
  value : Bytes
  deriving Repr, DecidableEq

/-- A string map as the shape of its tree. -/
abbrev Headers := Shape Header

namespace Headers

/-- Where `dfk__strmap_lookup_cmp` sends a search for `name`. -/
def turn (name : Bytes) (stored : Header) : Int :=
  StrMap.lookupCmp stored.name name

/-- `dfk_strmap_insert` -/
def insert (headers : Headers) (header : Header) : Headers :=
  match AvlShape.insert (turn header.name) header headers with
  | some (inserted, _) => inserted
  | none => headers

/-- `dfk_strmap_get`; `none` is the answer `{NULL, 0}`. -/
def get (headers : Headers) (name : Bytes) : Option Bytes :=
  (AvlShape.find (turn name) headers).map Header.value

/-- Headers in the order of iteration. -/
def list (headers : Headers) : List Header :=
  headers.inorder

/-- Nothing changes when the name is found. -/
theorem insert_of_found
    {headers : Headers} {header : Header}
    (found : (AvlShape.find (turn header.name) headers).isSome) :
    insert headers header = headers := by
  have refused :
      AvlShape.insert (turn header.name) header headers = none :=
    insert_eq_none_iff.mpr found
  rw [insert, refused]

/-- A header is added to the list when its name is not found. -/
theorem list_insert_of_absent
    {headers : Headers} {header : Header}
    (absent : AvlShape.find (turn header.name) headers = none) :
    ∃ before after,
      headers.list = before ++ after ∧
        (insert headers header).list = before ++ header :: after := by
  cases accepted :
      AvlShape.insert (turn header.name) header headers with
  | none =>
      have found := insert_eq_none_iff.mp accepted
      simp [absent] at found
  | some result =>
      obtain ⟨inserted, grew⟩ := result
      have placed := inorder_insert accepted
      simpa only [list, insert, accepted] using placed

/-- Only the inserted header is new in the list. -/
theorem mem_list_insert
    {headers : Headers} {header other : Header}
    (member : other ∈ (insert headers header).list) :
    other = header ∨ other ∈ headers.list := by
  cases found : AvlShape.find (turn header.name) headers with
  | some stored =>
      rw [insert_of_found (by rw [found]; rfl)] at member
      exact Or.inr member
  | none =>
      obtain ⟨before, after, old, new⟩ := list_insert_of_absent found
      rw [new] at member
      rw [old]
      simpa [or_left_comm] using member

/-- Headers in a map are among those that were inserted. -/
theorem mem_of_mem_foldl_insert
    {header : Header} (inserted : List Header) :
    ∀ {headers : Headers},
      header ∈ (inserted.foldl insert headers).list →
        header ∈ inserted ∨ header ∈ headers.list := by
  induction inserted with
  | nil =>
      intro headers member
      exact Or.inr member
  | cons first inserted inductionHypothesis =>
      intro headers member
      rcases inductionHypothesis member with later | earlier
      · exact Or.inl (List.mem_cons_of_mem _ later)
      · rcases mem_list_insert earlier with same | before
        · exact Or.inl (by simp [same])
        · exact Or.inr before

/-- Inserting keeps the tree balanced. -/
theorem balanced_insert
    {headers : Headers}
    (balanced : headers.Balanced)
    (header : Header) :
    (insert headers header).Balanced := by
  rw [insert]
  split
  · next inserted grew accepted =>
      exact (AvlShape.balanced_insert balanced accepted).1
  · exact balanced

/-!
## Names that are not confused
-/

/-- Headers come in the order of descending names. -/
def order (header : Header) : OrderDual (List Nat) :=
  OrderDual.toDual (characters header.name)

/-- On names that are not confused a search follows that order. -/
theorem threeWay_of_apart
    {names : Bytes → Prop}
    (apart : StrMap.Apart names) :
    ThreeWayOn (fun stored other => turn other.name stored) order
      fun header => names header.name where
  neg_iff := fun storedIn otherIn =>
    StrMap.lookupCmp_neg_iff apart storedIn otherIn
  pos_iff := fun storedIn otherIn =>
    StrMap.lookupCmp_pos_iff apart storedIn otherIn

/-- A row of headers with one more, unless its name is there already. -/
def keep (kept : List Header) (header : Header) : List Header :=
  if ∃ other ∈ kept, other.name = header.name then kept
  else kept ++ [header]

/-- A header map that keeps exactly the given headers. -/
structure Keeps
    (names : Bytes → Prop)
    (headers : Headers)
    (kept : List Header) : Prop where
  sorted :
    headers.list.Pairwise fun earlier later => order earlier < order later
  contents : headers.list.Perm kept
  namesIn : ∀ header ∈ kept, names header.name

/-- An empty map keeps nothing. -/
theorem keeps_leaf (names : Bytes → Prop) : Keeps names leaf [] where
  sorted := List.Pairwise.nil
  contents := List.Perm.refl []
  namesIn := by simp

namespace Keeps

variable {names : Bytes → Prop} {headers : Headers} {kept : List Header}

/-- Names in the tree. -/
theorem listIn (keeps : Keeps names headers kept) :
    ∀ header ∈ headers.inorder, names header.name :=
  fun header member =>
    keeps.namesIn header (keeps.contents.mem_iff.mp member)

/-- A search goes along the order. -/
theorem steered
    (keeps : Keeps names headers kept)
    (apart : StrMap.Apart names)
    {name : Bytes}
    (nameIn : names name) :
    Steered (turn name) headers.inorder :=
  (threeWay_of_apart apart).steered_of_sorted keeps.listIn keeps.sorted
    (show names (Header.mk name []).name from nameIn)

/-- What a search finds is kept and has the name. -/
theorem of_find
    (keeps : Keeps names headers kept)
    (apart : StrMap.Apart names)
    {name : Bytes}
    (nameIn : names name)
    {header : Header}
    (found : AvlShape.find (turn name) headers = some header) :
    header ∈ kept ∧ header.name = name := by
  obtain ⟨member, stops⟩ := find_sound found
  refine ⟨keeps.contents.mem_iff.mp member, ?_⟩
  by_contra different
  exact (StrMap.lookupCmp_of_apart apart (keeps.listIn header member)
    nameIn different).2 stops

/-- A search finds a name exactly if it is kept. -/
theorem find_isSome_iff
    (keeps : Keeps names headers kept)
    (apart : StrMap.Apart names)
    {name : Bytes}
    (nameIn : names name) :
    (AvlShape.find (turn name) headers).isSome ↔
      ∃ header ∈ kept, header.name = name := by
  constructor
  · intro found
    obtain ⟨header, isFound⟩ := Option.isSome_iff_exists.mp found
    obtain ⟨member, same⟩ := keeps.of_find apart nameIn isFound
    exact ⟨header, member, same⟩
  · rintro ⟨header, member, rfl⟩
    exact find_complete (keeps.steered apart nameIn)
      (keeps.contents.mem_iff.mpr member)
      (StrMap.lookupCmp_self header.name)

/-- No value is found exactly under the names that are not kept. -/
theorem get_eq_none_iff
    (keeps : Keeps names headers kept)
    (apart : StrMap.Apart names)
    {name : Bytes}
    (nameIn : names name) :
    headers.get name = none ↔ ¬ ∃ header ∈ kept, header.name = name := by
  rw [← keeps.find_isSome_iff apart nameIn, Headers.get,
    Option.map_eq_none_iff, Option.not_isSome_iff_eq_none]

/-- No name is kept twice. -/
theorem distinct (keeps : Keeps names headers kept) :
    kept.Pairwise fun first second => first.name ≠ second.name := by
  have inTree :
      headers.list.Pairwise fun first second =>
        first.name ≠ second.name := by
    apply keeps.sorted.imp
    intro first second less same
    simp [order, same] at less
  exact keeps.contents.pairwise inTree fun differs => differs.symm

/-- Inserting keeps one more header. -/
theorem insert
    (keeps : Keeps names headers kept)
    (apart : StrMap.Apart names)
    {header : Header}
    (nameIn : names header.name) :
    Keeps names (headers.insert header) (keep kept header) := by
  by_cases found : (AvlShape.find (turn header.name) headers).isSome
  · have there := (keeps.find_isSome_iff apart nameIn).mp found
    rw [insert_of_found found, keep, if_pos there]
    exact keeps
  · have absent :=
      mt (keeps.find_isSome_iff apart nameIn).mpr found
    rw [keep, if_neg absent]
    cases succeeds :
        AvlShape.insert (turn header.name) header headers with
    | none =>
        exact absurd (insert_eq_none_iff.mp succeeds) found
    | some result =>
        obtain ⟨inserted, grew⟩ := result
        obtain ⟨before, after, oldList, newList, smaller, greater⟩ :=
          inorder_insert_of_steered (keeps.steered apart nameIn) succeeds
        have isInserted : headers.insert header = inserted := by
          simp only [Headers.insert, succeeds]
        have contents := keeps.contents
        have sorted := keeps.sorted
        have listIn := keeps.listIn
        rw [Headers.list, oldList] at contents sorted
        rw [oldList] at listIn
        rw [isInserted]
        refine ⟨?_, ?_, ?_⟩
        · rw [Headers.list, newList]
          obtain ⟨beforeSorted, afterSorted, across⟩ :=
            List.pairwise_append.mp sorted
          have below : ∀ other ∈ before, order other < order header :=
            fun other member =>
              ((threeWay_of_apart apart).pos_iff
                (listIn other (List.mem_append_left _ member)) nameIn).mp
                (smaller other member)
          have above : ∀ other ∈ after, order header < order other :=
            fun other member =>
              ((threeWay_of_apart apart).neg_iff
                (listIn other (List.mem_append_right _ member)) nameIn).mp
                (greater other member)
          rw [List.pairwise_append, List.pairwise_cons]
          refine ⟨beforeSorted, ⟨above, afterSorted⟩, ?_⟩
          intro first inBefore second inRest
          rcases List.mem_cons.mp inRest with rfl | inAfter
          · exact below first inBefore
          · exact across first inBefore second inAfter
        · rw [Headers.list, newList]
          exact List.perm_middle.trans
            ((contents.cons header).trans
              (List.perm_append_singleton header kept).symm)
        · intro other member
          rcases List.mem_append.mp member with inKept | isHeader
          · exact keeps.namesIn other inKept
          · rw [List.mem_singleton.mp isHeader]
            exact nameIn

end Keeps

end Headers

/-!
## Header maps in memory
-/

open AvlTree StrMap

/--
The hooks of a string map show the given headers, `read` telling the bytes an
item points to.
-/
structure Shows
    (read : Item → Header)
    (state : State)
    (headers : Headers)
    (shape : Shape Item) : Prop where
  represents : Represents state.memory state.map.root none shape
  balanced : shape.Balanced
  counted :
    ∀ {size}, state.map.size = some size → size = shape.inorder.length
  noDuplicates : shape.inorder.Nodup
  comparison : state.map.cmp = cmp
  relabelled : shape.map read = headers
  names : ∀ item, (read item).name = item.key

/-- An initialised map shows no headers. -/
theorem shows_init
    {read : Item → Header}
    (names : ∀ item, (read item).name = item.key)
    (memory : Memory Item) (self : Nat) (constantTimeSize : Bool) :
    Shows read (init memory self constantTimeSize) leaf leaf where
  represents := rfl
  balanced := trivial
  counted := (wellFormed_init memory self constantTimeSize cmp).counted
  noDuplicates := List.nodup_nil
  comparison := rfl
  relabelled := rfl
  names := names

namespace Shows

variable {read : Item → Header} {state : State} {headers : Headers}
variable {shape : Shape Item} {fuel : Nat}

/-- Turning at an item is turning at the header it shows. -/
theorem turn_read (shows : Shows read state headers shape) (name : Bytes) :
    (fun stored : Item => Headers.turn name (read stored)) =
      fun stored => lookupCmp stored.key name := by
  funext stored
  rw [Headers.turn, shows.names]

/-- `dfk_strmap_get` finds what the header map finds. -/
theorem get_eq
    (shows : Shows read state headers shape)
    {name : Bytes}
    (notEmpty : name ≠ [])
    (enough : shape.height < fuel) :
    ∃ found,
      AvlTree.find fuel state.memory state.map
          (fun stored => lookupCmp stored.key name) = .ok found ∧
        StrMap.get fuel state name =
          .ok (match found with
            | some item => item.value
            | none => { data := none, size := 0 }) ∧
        headers.get name = found.map fun item => (read item).value := by
  have search :=
    find_eq (fun stored : Item => lookupCmp stored.key name)
      shows.represents shows.balanced enough
  refine ⟨_, search, ?_, ?_⟩
  · rw [StrMap.get, check_pos notEmpty, ok_bind, search, ok_bind]
    cases AvlShape.find (fun stored : Item => lookupCmp stored.key name)
      shape <;> rfl
  · rw [Headers.get, ← shows.relabelled, find_map, shows.turn_read,
      Option.map_map]
    rfl

/-- `dfk_strmap_insert` of a fresh item inserts the header it shows. -/
theorem insert_eq
    (shows : Shows read state headers shape)
    {item : Item}
    (outside : item ∉ shape.inorder)
    (fresh : Fresh state.memory item)
    (enough : shape.height < fuel) :
    ∃ newState newShape,
      StrMap.insert fuel state item = .ok newState ∧
        Shows read newState (headers.insert (read item)) newShape := by
  have turns :
      (fun stored : Item => Headers.turn (read item).name (read stored)) =
        fun stored => state.map.cmp stored item := by
    rw [shows.turn_read, shows.comparison, shows.names]
    rfl
  have relabelled :=
    insert_map read (Headers.turn (read item).name) item shape
  rw [shows.relabelled, turns] at relabelled
  cases succeeds :
      AvlShape.insert (fun stored => state.map.cmp stored item) item
        shape with
  | none =>
      have run := insert_of_refused shows.represents shows.balanced fresh
        enough succeeds
      refine ⟨state, shape, by simp [StrMap.insert, run], ?_⟩
      rw [succeeds] at relabelled
      rw [Headers.insert, relabelled]
      exact shows
  | some result =>
      obtain ⟨inserted, grew⟩ := result
      obtain ⟨root, changed, run, represents, -⟩ :=
        insert_of_accepted shows.represents shows.balanced shows.counted
          shows.noDuplicates outside fresh enough succeeds
      obtain ⟨before, after, oldSequence, newSequence⟩ :=
        inorder_insert succeeds
      rw [succeeds] at relabelled
      have ran :
          StrMap.insert fuel state item =
            .ok
              { memory := changed
                map :=
                  { state.map with
                    root := root
                    size := state.map.size.map (· + 1) } } := by
        rw [StrMap.insert, run]
        rfl
      refine ⟨_, inserted, ran, represents,
        (AvlShape.balanced_insert shows.balanced succeeds).1, ?_, ?_,
        shows.comparison, ?_, shows.names⟩
      · intro size kept
        obtain ⟨oldSize, oldKept, rfl⟩ := Option.map_eq_some_iff.mp kept
        rw [shows.counted oldKept, newSequence, oldSequence]
        simp [Nat.add_assoc]
      · have noDuplicates := shows.noDuplicates
        rw [oldSequence] at outside noDuplicates
        rw [newSequence]
        exact List.nodup_middle.mpr
          (List.nodup_cons.mpr ⟨outside, noDuplicates⟩)
      · rw [Headers.insert, relabelled]
        rfl

/-- `dfk_strmap_size` counts the headers. -/
theorem size_eq
    (shows : Shows read state headers shape)
    (enough : shape.height + shape.inorder.length < fuel) :
    StrMap.size fuel state = .ok headers.list.length := by
  rw [StrMap.size, AvlTree.size_eq shows.represents shows.balanced
    shows.counted shows.noDuplicates enough, ← shows.relabelled,
    Headers.list, inorder_map, List.length_map]

end Shows

end Dfk.Http
