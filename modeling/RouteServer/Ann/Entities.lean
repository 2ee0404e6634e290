import RouteServer.Ann.Parser

/-!
# Entities one after the other

The entities of an announcement are pads and length-prefixed parts. What is parsed of
them is a list of segments: data is accepted exactly when it splits into segments that
parse, and then the entities are those of the segments in order. The parser therefore
runs over a concatenation part by part, and pads and parts of unknown types can be put
between any two segments.

Only a part with an encoding scheme can panic, and only where reading its scheme does.
-/

namespace RouteServer.Ann

open Rust SchemeCodec

/-- `parse_entities`. -/
def parseEntities (entitiesData : List UInt8) : Outcome ParserError (List Entity) :=
  (parseEntitiesImpl [] entitiesData).mapErr .cannotParseEntity

/-- A pad, or a type with as much data as a length byte can count. -/
inductive Segment where
  | pad
  | part (entityType : UInt8) (parsingData : List UInt8) (short : parsingData.length ≤ 253)

/-- The bytes of a segment. The length counts itself and the type. -/
def Segment.bytes : Segment → List UInt8
  | pad => [1]
  | part entityType parsingData _ =>
    UInt8.ofNat (parsingData.length + 2) :: entityType :: parsingData

/-- The types that `parse_entity` knows. -/
def isKnownType (entityType : UInt8) : Bool := entityType < 4

/-- A segment that is passed over. -/
def Segment.PassedOver : Segment → Prop
  | pad => True
  | part entityType _ _ => isKnownType entityType = false

/-- What a segment is parsed as. -/
def Segment.parse : Segment → Outcome EntityParserError (List Entity)
  | pad => .ok []
  | part entityType parsingData _ => do
    let entity ← parseEntity (entityType :: parsingData)
    return entity.toList

/-- The bytes of segments in a row. -/
def segmentBytes (segments : List Segment) : List UInt8 := segments.flatMap Segment.bytes

/-- The entities of segments in a row. -/
def parseSegments : List Segment → Outcome EntityParserError (List Entity)
  | [] => .ok []
  | segment :: segments => do
    let first ← segment.parse
    let others ← parseSegments segments
    return first ++ others

/-- A segment that is passed over adds no entity. -/
theorem Segment.PassedOver.parse_eq {segment : Segment} (passed : segment.PassedOver) :
    segment.parse = .ok [] := by
  cases segment with
  | pad => rfl
  | part entityType parsingData short =>
    have unknown : ¬entityType < 4 := by simpa [PassedOver, isKnownType] using passed
    have ignored : parseEntity (entityType :: parsingData) = .ok none := by
      rw [parseEntity, if_neg, if_neg, if_neg, if_neg]
      all_goals
        rintro rfl
        exact unknown (by decide)
    rw [Segment.parse, ignored]
    rfl

/-- One segment is read, and then the parser goes on with what it has collected. -/
theorem parseEntitiesImpl_segment (parsed : List Entity) (segment : Segment)
    (rest : List UInt8) :
    parseEntitiesImpl parsed (segment.bytes ++ rest) =
      (segment.parse >>= fun first => parseEntitiesImpl (parsed ++ first) rest) := by
  cases segment with
  | pad =>
    rw [Segment.bytes, List.singleton_append, parseEntitiesImpl]
    simp [Segment.parse]
  | part entityType parsingData short =>
    have size : (UInt8.ofNat (parsingData.length + 2)).toNat = parsingData.length + 2 := by
      rw [UInt8.toNat_ofNat', Nat.mod_eq_of_lt (by omega)]
    have notZero : UInt8.ofNat (parsingData.length + 2) ≠ 0 := by
      intro zero
      rw [zero] at size
      simp at size
    have notOne : UInt8.ofNat (parsingData.length + 2) ≠ 1 := by
      intro one
      rw [one] at size
      simp at size
    rw [Segment.bytes, List.cons_append, parseEntitiesImpl, if_neg notZero, if_neg notOne, size]
    have inside : parsingData.length + 2 - 1 ≤ (entityType :: parsingData ++ rest).length := by
      simp only [List.length_append, List.length_cons]
      omega
    have cut : parsingData.length + 2 - 1 = (entityType :: parsingData).length := rfl
    rw [if_pos inside, cut, List.take_left, List.drop_left, Segment.parse]
    cases parseEntity (entityType :: parsingData) <;> rfl

/-- Segments are read one after the other. -/
theorem parseEntitiesImpl_segments (parsed : List Entity) (segments : List Segment)
    (rest : List UInt8) :
    parseEntitiesImpl parsed (segmentBytes segments ++ rest) =
      (parseSegments segments >>= fun others => parseEntitiesImpl (parsed ++ others) rest) := by
  induction segments generalizing parsed with
  | nil => simp [segmentBytes, parseSegments]
  | cons segment segments inductionHypothesis =>
    rw [segmentBytes, List.flatMap_cons, List.append_assoc, parseEntitiesImpl_segment,
      parseSegments]
    cases segment.parse with
    | ok first =>
      have others := inductionHypothesis (parsed ++ first)
      rw [segmentBytes] at others
      simp only [Outcome.ok_bind, others]
      cases parseSegments segments <;> simp
    | err fault => rfl
    | panicked => rfl

/-- A length that counts itself and a type is at least two. -/
theorem two_le_entityLength {entityLength : UInt8} (notZero : entityLength ≠ 0)
    (notOne : entityLength ≠ 1) : 2 ≤ entityLength.toNat := by
  have nonzero : entityLength.toNat ≠ 0 := fun zero => notZero (UInt8.toNat_inj.mp zero)
  have notSingle : entityLength.toNat ≠ 1 := fun one => notOne (UInt8.toNat_inj.mp one)
  omega

/-- A length byte of two or more and the bytes it counts are a segment. -/
theorem exists_segment {entityLength : UInt8} {rest : List UInt8} (notZero : entityLength ≠ 0)
    (notOne : entityLength ≠ 1) (inside : entityLength.toNat - 1 ≤ rest.length) :
    ∃ segment : Segment,
      segment.bytes = entityLength :: rest.take (entityLength.toNat - 1) ∧
        segment.parse = (parseEntity (rest.take (entityLength.toNat - 1)) >>= fun entity =>
          .ok entity.toList) := by
  have small : entityLength.toNat < 256 := entityLength.toNat_lt
  have large := two_le_entityLength notZero notOne
  cases taken : rest.take (entityLength.toNat - 1) with
  | nil =>
    have empty := congrArg List.length taken
    rw [List.length_take, List.length_nil] at empty
    omega
  | cons entityType parsingData =>
    have length := congrArg List.length taken
    rw [List.length_take, List.length_cons] at length
    refine ⟨.part entityType parsingData (by omega), ?_, rfl⟩
    have counted : parsingData.length + 2 = entityLength.toNat := by omega
    rw [Segment.bytes, counted, UInt8.ofNat_toNat]

/-- Data that is accepted splits into segments that parse.

Proof: forwards by the recursion of the parser, where each turn takes one segment off the front;
backwards the parser is run over the segments one by one. -/
theorem parseEntitiesImpl_ok_iff (parsed result : List Entity) (data : List UInt8) :
    parseEntitiesImpl parsed data = .ok result ↔
      ∃ segments entities, data = segmentBytes segments ∧
        parseSegments segments = .ok entities ∧ result = parsed ++ entities := by
  constructor
  · intro accepted
    fun_induction parseEntitiesImpl parsed data with
    | case1 parsed =>
      cases accepted
      exact ⟨[], [], rfl, rfl, (List.append_nil _).symm⟩
    | case2 => cases accepted
    | case3 parsed rest notZero inductionHypothesis =>
      obtain ⟨segments, entities, rfl, parse, same⟩ := inductionHypothesis accepted
      refine ⟨.pad :: segments, entities, rfl, ?_, same⟩
      simp [parseSegments, Segment.parse, parse]
    | case4 parsed entityLength rest notZero notOne inside inductionHypothesis =>
      obtain ⟨entity, first, others⟩ := (Outcome.bind_ok_iff _ _ _).mp accepted
      obtain ⟨segments, entities, after, parse, same⟩ := inductionHypothesis entity others
      obtain ⟨segment, bytes, parsesAs⟩ := exists_segment notZero notOne inside
      refine ⟨segment :: segments, entity.toList ++ entities, ?_, ?_, ?_⟩
      · rw [segmentBytes, List.flatMap_cons, ← segmentBytes, ← after, bytes, List.cons_append,
          List.take_append_drop]
      · rw [parseSegments, parsesAs, first, parse]
        rfl
      · rw [same, List.append_assoc]
    | case5 => cases accepted
  · rintro ⟨segments, entities, rfl, parse, rfl⟩
    have read := parseEntitiesImpl_segments parsed segments []
    rw [List.append_nil, parse] at read
    rw [read, Outcome.ok_bind, parseEntitiesImpl]

/-- What was parsed before is put in front. -/
theorem parseEntitiesImpl_parsed (parsed : List Entity) (data : List UInt8) :
    parseEntitiesImpl parsed data =
      (parseEntitiesImpl [] data >>= fun entities => .ok (parsed ++ entities)) := by
  suffices general : ∀ start, parseEntitiesImpl (parsed ++ start) data =
      (parseEntitiesImpl start data >>= fun entities => .ok (parsed ++ entities)) by
    simpa using general []
  intro start
  fun_induction parseEntitiesImpl start data with
  | case1 start => rw [parseEntitiesImpl, Outcome.ok_bind]
  | case2 => rw [parseEntitiesImpl, if_pos rfl, Outcome.err_bind]
  | case3 start rest notZero inductionHypothesis =>
    rw [parseEntitiesImpl, if_neg notZero, if_pos rfl, inductionHypothesis]
  | case4 start entityLength rest notZero notOne inside inductionHypothesis =>
    rw [parseEntitiesImpl, if_neg notZero, if_neg notOne, if_pos inside]
    cases parseEntity (rest.take (entityLength.toNat - 1)) with
    | ok entity =>
      rw [Outcome.ok_bind, Outcome.ok_bind, List.append_assoc, inductionHypothesis]
    | err fault => rfl
    | panicked => rfl
  | case5 start entityLength rest notZero notOne outside =>
    rw [parseEntitiesImpl, if_neg notZero, if_neg notOne, if_neg outside, Outcome.err_bind]

/-- The reader of a number is total. -/
theorem readSample_returns (width : Nat) (reason : String) (reader : List UInt8) :
    readSample width reason reader ≠ .panicked := by
  rw [readSample]
  split <;> simp

/-- One slot takes two numbers in turn, each read by a total reader. -/
theorem readSlot_returns (slots : Slots) (i : Nat) (reader : List UInt8) :
    readSlot slots i reader ≠ .panicked := by
  intro panics
  simp only [readSlot, Outcome.bind_panicked_iff, readSample_returns, false_or, Outcome.pure_def,
    reduceCtorEq, and_false, exists_false] at panics

/-- The loop over the slots is total, by induction on the slots that are left. -/
theorem readSlots_returns (slots : Slots) (i : Nat) (reader : List UInt8) :
    readSlots slots i reader ≠ .panicked := by
  fun_induction readSlots slots i reader with
  | case1 => nofun
  | case2 slots i reader some_left next rest read inductionHypothesis =>
    exact inductionHypothesis
  | case3 => nofun
  | case4 slots i reader some_left read => exact absurd read (readSlot_returns slots i reader)

/-- A version is read or refused. -/
theorem parseVersion_returns (data : List UInt8) : parseVersion data ≠ .panicked := by
  rw [parseVersion]
  split <;> nofun

/-- A peer is read or refused, field by field. -/
theorem parsePeer_returns (data : List UInt8) : parsePeer data ≠ .panicked := by
  rw [parsePeer]
  split
  · split <;> nofun
  · nofun

/-- Link state is read or refused: after the head come only slots. -/
theorem parseLinkState_returns (data : List UInt8) : parseLinkState data ≠ .panicked := by
  intro panics
  rw [parseLinkState.eq_def] at panics
  split at panics
  · cases panics
  · split at panics
    · cases panics
    · split at panics
      · cases panics
      · simp only [Outcome.bind_panicked_iff, readSample_returns, false_or] at panics
        obtain ⟨_, _, _, _, rest⟩ := panics
        split at rest
        · cases rest
        · split at rest
          · cases rest
          · simp [Outcome.bind_panicked_iff, readSlots_returns] at rest

/-- Only reading an encoding scheme panics. -/
theorem parseEntity_panicked {entityType : UInt8} {parsingData : List UInt8}
    (panics : parseEntity (entityType :: parsingData) = .panicked) :
    entityType = 0 ∧ 2 ≤ parsingData.length ∧ deserializeScheme parsingData = .panicked := by
  simp only [parseEntity, Outcome.map_def] at panics
  split_ifs at panics with scheme peer version linkState
  · rw [parseEncodingScheme] at panics
    split at panics
    · cases panics
    · next long =>
      refine ⟨scheme, Nat.le_of_not_lt long, ?_⟩
      simpa [Outcome.bind_panicked_iff, Outcome.mapErr_panicked_iff] using panics
  · simp [Outcome.bind_panicked_iff, parsePeer_returns] at panics
  · simp [Outcome.bind_panicked_iff, parseVersion_returns] at panics
  · simp [Outcome.bind_panicked_iff, parseLinkState_returns] at panics

/-- The parser comes to a scheme: in front of it there are only segments that parse, and it is
long enough to be read. -/
def ReadsScheme (data schemeBytes : List UInt8) : Prop :=
  ∃ before entities short rest,
    data = segmentBytes before ++ ((Segment.part 0 schemeBytes short).bytes ++ rest) ∧
      parseSegments before = .ok entities ∧ 2 ≤ schemeBytes.length

/-- Reading each scheme that the parser comes to returns. -/
def SchemesReturn (data : List UInt8) : Prop :=
  ∀ schemeBytes, ReadsScheme data schemeBytes → deserializeScheme schemeBytes ≠ .panicked

/-- A scheme behind one more segment that parses. -/
theorem ReadsScheme.behind {segment : Segment} {data schemeBytes : List UInt8}
    {first : List Entity} (parses : segment.parse = .ok first)
    (reads : ReadsScheme data schemeBytes) : ReadsScheme (segment.bytes ++ data) schemeBytes := by
  obtain ⟨before, entities, short, rest, rfl, parse, long⟩ := reads
  refine ⟨segment :: before, first ++ entities, short, rest, ?_, ?_, long⟩
  · simp only [segmentBytes, List.flatMap_cons, List.append_assoc]
  · rw [parseSegments, parses, parse]
    rfl

/-- The parser panics only at a scheme that it comes to.

Proof: by the recursion of the parser. A turn that panics itself is an entity that panics, which
only a scheme does; otherwise the segment in front has been parsed and the panic comes from
behind it. -/
theorem readsScheme_of_panicked (parsed : List Entity) {data : List UInt8}
    (panics : parseEntitiesImpl parsed data = .panicked) :
    ∃ schemeBytes, ReadsScheme data schemeBytes ∧ deserializeScheme schemeBytes = .panicked := by
  fun_induction parseEntitiesImpl parsed data with
  | case1 => cases panics
  | case2 => cases panics
  | case3 parsed rest notZero inductionHypothesis =>
    obtain ⟨schemeBytes, reads, stops⟩ := inductionHypothesis panics
    have behindPad : ReadsScheme (Segment.pad.bytes ++ rest) schemeBytes :=
      ReadsScheme.behind rfl reads
    exact ⟨schemeBytes, behindPad, stops⟩
  | case4 parsed entityLength rest notZero notOne inside inductionHypothesis =>
    obtain ⟨segment, bytes, parsesAs⟩ := exists_segment notZero notOne inside
    have whole : entityLength :: rest =
        segment.bytes ++ rest.drop (entityLength.toNat - 1) := by
      rw [bytes, List.cons_append, List.take_append_drop]
    rcases (Outcome.bind_panicked_iff _ _).mp panics with first | ⟨entity, read, others⟩
    · rw [first] at parsesAs
      cases segment with
      | pad => cases parsesAs
      | part entityType parsingData short =>
        have stops : parseEntity (entityType :: parsingData) = .panicked := by
          rw [Segment.parse, Outcome.panicked_bind, Outcome.bind_panicked_iff] at parsesAs
          rcases parsesAs with stops | ⟨_, -, returned⟩
          · exact stops
          · cases returned
        obtain ⟨rfl, long, schemeStops⟩ := parseEntity_panicked stops
        exact ⟨parsingData, ⟨[], [], short, _, whole, rfl, long⟩, schemeStops⟩
    · rw [read, Outcome.ok_bind] at parsesAs
      obtain ⟨schemeBytes, reads, stops⟩ := inductionHypothesis entity others
      rw [whole]
      exact ⟨schemeBytes, reads.behind parsesAs, stops⟩
  | case5 => cases panics

/-- The parser returns exactly when reading each scheme that it comes to does. -/
theorem parseEntities_returns_iff (data : List UInt8) :
    parseEntities data ≠ .panicked ↔ SchemesReturn data := by
  rw [parseEntities, ne_eq, Outcome.mapErr_panicked_iff]
  constructor
  · rintro returns schemeBytes ⟨before, entities, short, rest, rfl, parse, long⟩ stops
    apply returns
    have scheme : (Segment.part 0 schemeBytes short).parse = .panicked := by
      rw [Segment.parse, parseEntity, if_pos rfl, parseEncodingScheme, if_neg (by omega), stops]
      rfl
    rw [parseEntitiesImpl_segments, parse, Outcome.ok_bind, parseEntitiesImpl_segment, scheme,
      Outcome.panicked_bind]
  · intro total panics
    obtain ⟨schemeBytes, reads, stops⟩ := readsScheme_of_panicked [] panics
    exact total schemeBytes reads stops

/-- Data is accepted exactly when it splits into segments that parse. -/
theorem parseEntities_ok_iff (data : List UInt8) (entities : List Entity) :
    parseEntities data = .ok entities ↔
      ∃ segments, data = segmentBytes segments ∧ parseSegments segments = .ok entities := by
  rw [parseEntities, Outcome.mapErr_ok_iff, parseEntitiesImpl_ok_iff]
  constructor
  · rintro ⟨segments, parsed, same, parse, rfl⟩
    exact ⟨segments, same, parse⟩
  · rintro ⟨segments, same, parse⟩
    exact ⟨segments, entities, same, parse, rfl⟩

/-- After data that is accepted the parser goes on with the rest on its own. -/
theorem parseEntities_append {first : List UInt8} {entities : List Entity}
    (accepted : parseEntities first = .ok entities) (second : List UInt8) :
    parseEntities (first ++ second) =
      (parseEntities second >>= fun others => .ok (entities ++ others)) := by
  obtain ⟨segments, rfl, parse⟩ := (parseEntities_ok_iff _ _).mp accepted
  rw [parseEntities, parseEntitiesImpl_segments, parse, Outcome.ok_bind, List.nil_append,
    parseEntitiesImpl_parsed, parseEntities]
  cases parseEntitiesImpl [] second <;> rfl

/-- The parser is compositional and passes over what it does not know.

Proof: the parser is a loop over segments, so accepted bytes can be split off in front. A segment
that is passed over adds no entity to those behind it. -/
theorem parseEntities_compositional :
    (∀ (first second : List UInt8) (entities : List Entity),
        parseEntities first = .ok entities →
        (∀ others, parseEntities second = .ok others →
          parseEntities (first ++ second) = .ok (entities ++ others)) ∧
        (SchemesReturn second → (∀ others, parseEntities second ≠ .ok others) →
          ∃ fault, parseEntities (first ++ second) = .err fault)) ∧
      (∀ (segments : List Segment) (inserted : Segment) (rest : List UInt8),
        inserted.PassedOver →
        parseEntities (segmentBytes segments ++ (inserted.bytes ++ rest)) =
          parseEntities (segmentBytes segments ++ rest)) ∧
      ∀ (data : List UInt8) (entities : List Entity),
        parseEntities data = .ok entities ↔
          ∃ segments, data = segmentBytes segments ∧
            parseSegments segments = .ok entities := by
  refine ⟨?_, ?_, parseEntities_ok_iff⟩
  · intro first second entities accepted
    have append := parseEntities_append accepted second
    constructor
    · intro others parsed
      rw [append, parsed, Outcome.ok_bind]
    · intro total refused
      cases parsed : parseEntities second with
      | ok others => exact absurd parsed (refused others)
      | err fault =>
        rw [parsed] at append
        exact ⟨fault, append⟩
      | panicked => exact absurd parsed ((parseEntities_returns_iff second).mpr total)
  · intro segments inserted rest passed
    simp only [parseEntities, parseEntitiesImpl_segments]
    congr 2
    funext others
    rw [parseEntitiesImpl_segment, passed.parse_eq, Outcome.ok_bind, List.append_nil]

example : parseEntities [1, 4, 2, 0, 20, 3, 9, 7, 1] =
    .ok [.nodeProtocolVersion 20] := by decide +kernel

end RouteServer.Ann
