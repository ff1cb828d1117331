import Dfk.Http.Request

/-!
# Query arguments

A query is decoded first and split afterwards, by a machine that takes the
first character of a key or a value as it comes.  The arguments are those that
were encoded exactly if no key has a `=` and no value a `&` behind its first
character, no value is empty, and the string map keeps them apart.
-/

namespace Dfk.Http

variable {σ : Type}

/-- An argument, encoded. -/
def encodeArgument (argument : Header) : Bytes :=
  urlencode argument.name ++ 61 :: urlencode argument.value

/-- Arguments in a query, encoded, each but the first one behind a `&`. -/
def encodeQuery : List Header → Bytes
  | [] => []
  | argument :: arguments =>
      encodeArgument argument ++
        arguments.flatMap fun argument => 38 :: encodeArgument argument

/-- An argument as it stands in a decoded query. -/
def plainArgument (argument : Header) : Bytes :=
  argument.name ++ 61 :: argument.value

/-- Arguments in a decoded query. -/
def plainQuery : List Header → Bytes
  | [] => []
  | argument :: arguments =>
      plainArgument argument ++
        arguments.flatMap fun argument => 38 :: plainArgument argument

/-- An argument that can be told from the delimiters around it. -/
def Unambiguous (argument : Header) : Prop :=
  argument.name ≠ [] ∧ 61 ∉ argument.name.tail ∧
    argument.value ≠ [] ∧ 38 ∉ argument.value.tail

instance (argument : Header) : Decidable (Unambiguous argument) :=
  inferInstanceAs (Decidable (_ ∧ _))

/-- A map that holds exactly these arguments, each under its key. -/
def HoldsExactly (map : Headers) (arguments : List Header) : Prop :=
  map.list.Perm arguments ∧
    ∀ argument ∈ arguments, map.get argument.name = some argument.value

instance (map : Headers) (arguments : List Header) :
    Decidable (HoldsExactly map arguments) :=
  inferInstanceAs (Decidable (_ ∧ _))

/-- The next so many allocations succeed. -/
def Answers (count : Nat) (allocations : List Bool) : Prop :=
  ∀ answer ∈ allocations.take count, answer = true

instance (count : Nat) (allocations : List Bool) :
    Decidable (Answers count allocations) :=
  inferInstanceAs (Decidable (∀ answer ∈ _, _))

/-- One allocation, and the others behind it. -/
theorem answers_succ (count : Nat) (allocations : List Bool) :
    Answers (count + 1) allocations ↔
      (World.next allocations).1 = true ∧
        Answers count (World.next allocations).2 := by
  cases allocations with
  | nil =>
      simp [Answers, World.next]
  | cons answer allocations =>
      simp [Answers, World.next]

/-!
## Decoding
-/

/-- A hexadecimal digit is read as its value. -/
theorem hexToByte_toHex
    {digit : UInt8}
    (small : digit < 16) :
    hexToByte (toHex digit) = some digit := by
  have all : ∀ n : Fin 16,
      hexToByte (toHex (UInt8.ofNat n)) = some (UInt8.ofNat n) := by
    decide
  have bound : digit.toNat < 16 := small
  have same := all ⟨digit.toNat, bound⟩
  simpa using same

/-- Both digits together are the byte. -/
theorem join_digits (b : UInt8) : b >>> 4 <<< 4 ||| b &&& 15 = b := by
  revert b
  apply forall_byte
  decide +kernel

/-- The digits are digits. -/
theorem digits_small (b : UInt8) : b >>> 4 < 16 ∧ b &&& 15 < 16 := by
  revert b
  apply forall_byte
  decide +kernel

/-- What is not a percent sign is decoded as itself. -/
theorem urldecode_cons
    {byte : UInt8}
    (plain : byte ≠ 37) (buf : Bytes) :
    urldecode (byte :: buf) = (urldecode buf).map (byte :: ·) := by
  rw [urldecode]
  · rw [if_neg plain]
  · intro hi lo rest isPercent
    exact absurd isPercent plain

/-- Encoded bytes are decoded as they were. -/
theorem urldecode_urlencode (bytes rest : Bytes) :
    urldecode (urlencode bytes ++ rest) =
      (urldecode rest).map (bytes ++ ·) := by
  induction bytes with
  | nil =>
      simp [urlencode]
  | cons b bytes inductionHypothesis =>
      rw [urlencode]
      split
      · next unreserved =>
          have plain : b ≠ 37 := by
            rintro rfl
            revert unreserved
            decide
          rw [List.cons_append, urldecode_cons plain, inductionHypothesis,
            Option.map_map]
          rfl
      · obtain ⟨hi, lo⟩ := digits_small b
        rw [List.cons_append, List.cons_append, List.cons_append, urldecode,
          hexToByte_toHex hi, hexToByte_toHex lo]
        dsimp only
        rw [join_digits, inductionHypothesis, Option.map_map]
        rfl

/-- So is an encoded argument. -/
theorem urldecode_encodeArgument (argument : Header) (rest : Bytes) :
    urldecode (encodeArgument argument ++ rest) =
      (urldecode rest).map (plainArgument argument ++ ·) := by
  rw [encodeArgument, List.append_assoc, urldecode_urlencode,
    List.cons_append, urldecode_cons (by decide), urldecode_urlencode,
    Option.map_map, Option.map_map]
  simp [Function.comp_def, plainArgument]

/-- And a whole query. -/
theorem urldecode_encodeQuery (arguments : List Header) :
    urldecode (encodeQuery arguments) = some (plainQuery arguments) := by
  have tail (arguments : List Header) :
      urldecode
          (arguments.flatMap fun argument => 38 :: encodeArgument argument) =
        some
          (arguments.flatMap fun argument =>
            38 :: plainArgument argument) := by
    induction arguments with
    | nil =>
        rfl
    | cons argument arguments inductionHypothesis =>
        rw [List.flatMap_cons, List.cons_append,
          urldecode_cons (by decide), urldecode_encodeArgument,
          inductionHypothesis]
        rfl
  cases arguments with
  | nil =>
      rfl
  | cons argument arguments =>
      rw [encodeQuery, urldecode_encodeArgument, tail]
      rfl

/-!
## Splitting
-/

section Splitting

variable {arguments : Headers} {allocations : List Bool}

/-- A key goes up to the first `=` behind its first character. -/
theorem parseQuery_key
    {rest : Bytes} (key query : Bytes)
    (noSign : 61 ∉ rest) :
    parseQuery (.readingKey key) arguments allocations
        (rest ++ 61 :: query) =
      parseQuery (.observingSign (key ++ rest)) arguments allocations
        query := by
  induction rest generalizing key with
  | nil =>
      simp [parseQuery, queryStep]
  | cons character rest inductionHypothesis =>
      rw [List.mem_cons, not_or] at noSign
      have step :
          queryStep (.readingKey key) character =
            (.readingKey (key ++ [character]), none) :=
        if_neg (Ne.symm noSign.1)
      rw [List.cons_append, parseQuery, step]
      dsimp only
      rw [inductionHypothesis _ noSign.2, List.append_assoc]
      rfl

/-- A value goes on where there is no `&`. -/
theorem parseQuery_value
    {rest : Bytes} (key value query : Bytes)
    (noDelimiter : 38 ∉ rest) :
    parseQuery (.readingValue key value) arguments allocations
        (rest ++ query) =
      parseQuery (.readingValue key (value ++ rest)) arguments allocations
        query := by
  induction rest generalizing value with
  | nil =>
      simp
  | cons character rest inductionHypothesis =>
      rw [List.mem_cons, not_or] at noDelimiter
      have step :
          queryStep (.readingValue key value) character =
            (.readingValue key (value ++ [character]), none) :=
        if_neg (Ne.symm noDelimiter.1)
      rw [List.cons_append, parseQuery, step]
      dsimp only
      rw [inductionHypothesis _ noDelimiter.2, List.append_assoc]
      rfl

/-- An unambiguous argument is read as it is. -/
theorem parseQuery_argument
    {argument : Header}
    (unambiguous : Unambiguous argument) (query : Bytes) :
    parseQuery .initial arguments allocations
        (plainArgument argument ++ query) =
      parseQuery (.readingValue argument.name argument.value) arguments
        allocations query := by
  rcases argument with ⟨_ | ⟨keyFirst, key⟩, _ | ⟨valueFirst, value⟩⟩
  · exact absurd rfl unambiguous.1
  · exact absurd rfl unambiguous.1
  · exact absurd rfl unambiguous.2.2.1
  · obtain ⟨-, noSign, -, noDelimiter⟩ := unambiguous
    rw [List.tail_cons] at noSign noDelimiter
    rw [plainArgument]
    simp only [List.cons_append, List.append_assoc]
    rw [parseQuery, queryStep]
    dsimp only
    rw [parseQuery_key _ _ noSign, parseQuery, queryStep]
    dsimp only
    rw [parseQuery_value _ _ _ noDelimiter]
    rfl

/-- Arguments are stored one after another. -/
def addAll : List Header → Headers → List Bool → Err × Headers × List Bool
  | [], arguments, allocations => (.ok, arguments, allocations)
  | argument :: others, arguments, allocations =>
      match addArgument arguments allocations argument with
      | (some arguments, allocations) => addAll others arguments allocations
      | (none, allocations) => (.nomem, arguments, allocations)

/-- Storing succeeds exactly if the allocations for it do. -/
theorem addAll_eq_ok_iff
    (others : List Header) :
    ∀ {arguments after : Headers} {allocations rest : List Bool},
      addAll others arguments allocations = (.ok, after, rest) ↔
        Answers others.length allocations ∧
          after = others.foldl Headers.insert arguments ∧
          rest = allocations.drop others.length := by
  induction others with
  | nil =>
      intro arguments after allocations rest
      simp [addAll, Answers, eq_comm]
  | cons argument others inductionHypothesis =>
      intro arguments after allocations rest
      rcases allocations with _ | ⟨_ | _, allocations⟩
      · simp only [addAll, addArgument, World.next, inductionHypothesis]
        simp [Answers]
      · simp [addAll, addArgument, World.next, Answers]
      · simp only [addAll, addArgument, World.next, inductionHypothesis]
        simp [Answers]

/-- The arguments of a query are stored. -/
theorem parseQuery_arguments
    (others : List Header) :
    ∀ {arguments : Headers} {allocations : List Bool} {argument : Header},
      (∀ other ∈ others, Unambiguous other) →
        parseQuery (.readingValue argument.name argument.value) arguments
            allocations
            (others.flatMap fun argument => 38 :: plainArgument argument) =
          addAll (argument :: others) arguments allocations := by
  induction others with
  | nil =>
      intro arguments allocations argument _
      rw [List.flatMap_nil, parseQuery, addAll]
      rfl
  | cons other others inductionHypothesis =>
      intro arguments allocations argument unambiguous
      have first := unambiguous other (List.mem_cons_self ..)
      have rest : ∀ later ∈ others, Unambiguous later :=
        fun later member => unambiguous later (List.mem_cons_of_mem _ member)
      have step :
          queryStep (.readingValue argument.name argument.value) 38 =
            (.initial, some argument) :=
        rfl
      rw [List.flatMap_cons, List.cons_append, parseQuery, step, addAll]
      dsimp only
      rcases addArgument arguments allocations argument with
        ⟨_ | stored, remaining⟩
      · rfl
      · dsimp only
        rw [parseQuery_argument first, inductionHypothesis rest]

/-- What the machine has read of an argument is unambiguous so far. -/
def Partly : QueryState → Prop
  | .initial => True
  | .readingKey key => key ≠ [] ∧ 61 ∉ key.tail
  | .observingSign key => key ≠ [] ∧ 61 ∉ key.tail
  | .readingValue key value =>
      Unambiguous { name := key, value := value }

/-- A step of the machine leaves it so, and so is an argument it ends. -/
theorem partly_queryStep
    {state : QueryState}
    (partly : Partly state) (character : UInt8) :
    Partly (queryStep state character).1 ∧
      ∀ argument ∈ (queryStep state character).2, Unambiguous argument := by
  have more {read : Bytes} {delimiter : UInt8}
      (nonempty : read ≠ []) (absent : delimiter ∉ read.tail)
      (other : character ≠ delimiter) :
      read ++ [character] ≠ [] ∧
        delimiter ∉ (read ++ [character]).tail := by
    refine ⟨by simp, ?_⟩
    rw [List.tail_append_of_ne_nil nonempty, List.mem_append, not_or,
      List.mem_singleton]
    exact ⟨absent, Ne.symm other⟩
  cases state with
  | initial =>
      exact ⟨⟨by simp, by simp⟩, by simp [queryStep]⟩
  | readingKey key =>
      rw [queryStep]
      split
      · exact ⟨partly, by simp⟩
      · next other =>
          exact ⟨more partly.1 partly.2 other, by simp⟩
  | observingSign key =>
      exact ⟨⟨partly.1, partly.2, by simp, by simp⟩, by simp [queryStep]⟩
  | readingValue key value =>
      rw [queryStep]
      split
      · refine ⟨trivial, fun argument member => ?_⟩
        cases member
        exact partly
      · next other =>
          obtain ⟨named, noSign, valued, noDelimiter⟩ := partly
          exact ⟨⟨named, noSign, more valued noDelimiter other⟩, by simp⟩

/-- Only unambiguous arguments come out of a query. -/
theorem unambiguous_of_parseQuery
    (query : Bytes) :
    ∀ {state : QueryState} {arguments after : Headers}
      {allocations rest : List Bool},
      Partly state →
        (∀ argument ∈ arguments.list, Unambiguous argument) →
        parseQuery state arguments allocations query = (.ok, after, rest) →
          ∀ argument ∈ after.list, Unambiguous argument := by
  have added
      {arguments stored : Headers} {allocations rest : List Bool}
      {argument : Header}
      (unambiguous : Unambiguous argument)
      (all : ∀ argument ∈ arguments.list, Unambiguous argument)
      (adds :
        addArgument arguments allocations argument =
          (some stored, rest)) :
      ∀ argument ∈ stored.list, Unambiguous argument := by
    rw [addArgument] at adds
    split at adds
    · cases adds
    · cases adds
      intro other member
      rcases Headers.mem_list_insert member with same | before
      · rw [same]
        exact unambiguous
      · exact all other before
  induction query with
  | nil =>
      intro state arguments after allocations rest partly all parsed
      cases state with
      | initial =>
          cases parsed
          exact all
      | readingKey key | observingSign key =>
          cases parsed
      | readingValue key value =>
          rw [parseQuery] at parsed
          rcases adds :
              addArgument arguments allocations
                { name := key, value := value } with
            ⟨_ | stored, remaining⟩
          · rw [adds] at parsed
            cases parsed
          · rw [adds] at parsed
            cases parsed
            exact added partly all adds
  | cons character query inductionHypothesis =>
      intro state arguments after allocations rest partly all parsed
      obtain ⟨stillPartly, ended⟩ := partly_queryStep partly character
      rw [parseQuery] at parsed
      rcases step : queryStep state character with ⟨next, _ | argument⟩
      · rw [step] at parsed stillPartly
        exact inductionHypothesis stillPartly all parsed
      · rw [step] at parsed stillPartly ended
        dsimp only at parsed
        rcases adds : addArgument arguments allocations argument with
          ⟨_ | stored, remaining⟩
        · rw [adds] at parsed
          cases parsed
        · rw [adds] at parsed
          exact
            inductionHypothesis stillPartly
              (added (ended argument rfl) all adds) parsed

end Splitting

/-!
## Round trip
-/

/-- A query is empty exactly if there are no arguments. -/
theorem encodeQuery_eq_nil_iff (arguments : List Header) :
    encodeQuery arguments = [] ↔ arguments = [] := by
  cases arguments with
  | nil =>
      simp [encodeQuery]
  | cons argument arguments =>
      simp [encodeQuery, encodeArgument]

/-- The arguments of a query come back exactly if they are unambiguous. -/
theorem readQuery_encodeQuery_iff
    (arguments : List Header) (allocations : List Bool) :
    (∃ map rest,
        readQuery (encodeQuery arguments) allocations = (.ok, map, rest) ∧
          HoldsExactly map arguments) ↔
      (∀ argument ∈ arguments, Unambiguous argument) ∧
        HoldsExactly (arguments.foldl Headers.insert .leaf) arguments ∧
        (arguments ≠ [] → Answers (arguments.length + 1) allocations) := by
  cases arguments with
  | nil =>
      simp [readQuery, encodeQuery, HoldsExactly, Headers.list]
  | cons argument others =>
      have nonempty : encodeQuery (argument :: others) ≠ [] := by
        rw [ne_eq, encodeQuery_eq_nil_iff]
        exact List.cons_ne_nil _ _
      have plainAll (unambiguous :
          ∀ other ∈ argument :: others, Unambiguous other)
          (remaining : List Bool) :
          parseQuery .initial .leaf remaining
              (plainQuery (argument :: others)) =
            addAll (argument :: others) .leaf remaining := by
        rw [plainQuery,
          parseQuery_argument (unambiguous _ (List.mem_cons_self ..)),
          parseQuery_arguments others fun other member =>
            unambiguous other (List.mem_cons_of_mem _ member)]
      rw [readQuery, if_neg nonempty, answers_succ]
      rcases World.next allocations with ⟨_ | _, remaining⟩
      · simp
      · dsimp only
        rw [urldecode_encodeQuery]
        dsimp only
        constructor
        · rintro ⟨map, rest, parsed, holds⟩
          have parts :=
            unambiguous_of_parseQuery _ (show Partly .initial from trivial)
              (show ∀ argument ∈ Headers.list .leaf, Unambiguous argument
                from by simp [Headers.list])
              parsed
          have unambiguous :
              ∀ other ∈ argument :: others, Unambiguous other :=
            fun other member => parts other (holds.1.mem_iff.mpr member)
          rw [plainAll unambiguous, addAll_eq_ok_iff] at parsed
          obtain ⟨answers, rfl, -⟩ := parsed
          exact ⟨unambiguous, holds, fun _ => ⟨rfl, answers⟩⟩
        · rintro ⟨unambiguous, holds, answers⟩
          obtain ⟨-, answers⟩ := answers (List.cons_ne_nil _ _)
          rw [plainAll unambiguous]
          exact ⟨_, _, (addAll_eq_ok_iff _).mpr ⟨answers, rfl, rfl⟩, holds⟩

/-- A string map holds arguments whose keys are distinct and not confused. -/
theorem holdsExactly_of_apart
    {names : Bytes → Prop} {arguments : List Header}
    (apart : StrMap.Apart names)
    (keysIn : ∀ argument ∈ arguments, names argument.name)
    (distinct :
      arguments.Pairwise fun first second => first.name ≠ second.name) :
    HoldsExactly (arguments.foldl Headers.insert .leaf) arguments := by
  have keeps (rest : List Header) :
      ∀ {map : Headers} {kept : List Header},
        Headers.Keeps names map kept →
          (∀ argument ∈ rest, names argument.name) →
          (kept ++ rest).Pairwise
              (fun first second => first.name ≠ second.name) →
            Headers.Keeps names (rest.foldl Headers.insert map)
              (kept ++ rest) := by
    induction rest with
    | nil =>
        intro map kept keeps _ _
        rw [List.append_nil]
        exact keeps
    | cons argument rest inductionHypothesis =>
        intro map kept keeps keysIn distinct
        have keyIn := keysIn argument (List.mem_cons_self ..)
        have absent : ¬ ∃ other ∈ kept, other.name = argument.name := by
          rintro ⟨other, member, same⟩
          exact
            (List.pairwise_append.mp distinct).2.2 other member argument
              (List.mem_cons_self ..) same
        have next := keeps.insert apart keyIn
        rw [Headers.keep, if_neg absent] at next
        have all := inductionHypothesis next
          (fun later member => keysIn later (List.mem_cons_of_mem _ member))
          (by simpa using distinct)
        simpa using all
  have all := keeps arguments (Headers.keeps_leaf names) keysIn distinct
  rw [List.nil_append] at all
  refine ⟨all.contents, fun argument member => ?_⟩
  have keyIn := keysIn argument member
  obtain ⟨found, isFound⟩ :=
    Option.isSome_iff_exists.mp
      ((all.find_isSome_iff apart keyIn).mpr ⟨argument, member, rfl⟩)
  obtain ⟨foundIn, sameName⟩ := all.of_find apart keyIn isFound
  have same : found = argument := by
    by_contra different
    have : Std.Symm fun first second : Header =>
        first.name ≠ second.name :=
      ⟨fun _ _ differs => Ne.symm differs⟩
    exact distinct.forall foundIn member different sameName
  rw [Headers.get, isFound, same]
  rfl

/-- A parser of URLs that begin with `/?` and have a query only. -/
def queryParser : HttpParser HeadState :=
  { oneHead [] [] 0 with
    parseUrl := fun url =>
      some
        { path := some ⟨0, 1⟩
          query := some ⟨2, url.length - 2⟩
          fragment := none } }

/-- A request for `/` with arguments. -/
def asking (arguments : List Header) : Request HeadState :=
  { Request.init queryParser with
    url := ascii "/?" ++ encodeQuery arguments }

end Dfk.Http
