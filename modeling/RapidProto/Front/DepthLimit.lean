import RapidProto.Front.Nesting

/-!
# The depth limit of the schema parser

Every production is compared with itself under a larger limit.  A success uses the levels of the
tree it builds; a declaration that does not match uses none, and a value that does not match uses
one, since the aggregates are tried before anything is known of the input.  A file that is accepted
under some limit is therefore accepted under the limit of the source exactly when its levels stay
within, and these are more than its nesting when a value without braces stands in the deepest
construct.
-/

namespace RapidProto
namespace Front
namespace Parse

/-! ## Token productions -/

/-- A production of the schema grammar under two limits. -/
abbrev Counts {α : Type} (left : Nat) (near far : Parser Token α) (cost : α → Nat)
    (soft : List Token → Nat → Prop) : Prop :=
  Costs depthExceeded left near far 1 cost soft

/-- A production that counts nothing. -/
abbrev Flat {α : Type} (parser : Parser Token α) : Prop := Plain depthExceeded parser 1 Idle

/-- The input starts with a token of one of some kinds. -/
def Opens (kinds : List TokenKind) (items : List Token) : Prop :=
  ∃ t, items.head? = some t ∧ t.kind ∈ kinds

theorem opens_cons {kinds : List TokenKind} {t : Token} {items : List Token} :
    Opens kinds (t :: items) ↔ t.kind ∈ kinds := by
  simp [Opens]

theorem Opens.disjoint {kinds kinds' : List TokenKind} {items : List Token}
    (opens : Opens kinds items) (apart : ∀ k ∈ kinds, k ∉ kinds') : ¬ Opens kinds' items := by
  obtain ⟨t, first, isKind⟩ := opens
  rintro ⟨t', first', isKind'⟩
  cases first.symm.trans first'
  exact apart _ isKind isKind'

theorem Opens.mono {kinds kinds' : List TokenKind} {items : List Token}
    (opens : Opens kinds items) (more : ∀ k ∈ kinds, k ∈ kinds') : Opens kinds' items := by
  obtain ⟨t, first, isKind⟩ := opens
  exact ⟨t, first, more _ isKind⟩

/-- A production that starts with one of some tokens refuses an input that does not. -/
theorem refuses_kind {k : TokenKind} {input : Range Token} (other : ¬ Opens [k] input.items) :
    Refuses (kind k) input := by
  refine refuses_one fun t first => ?_
  rw [beq_eq_false_iff_ne]
  rintro rfl
  exact other ⟨t, first, List.mem_singleton_self _⟩

theorem refuses_one_of_opens {pred : Token → Bool} {kinds : List TokenKind} {input : Range Token}
    (opens : Opens kinds input.items) (excluded : ∀ t : Token, t.kind ∈ kinds → pred t = false) :
    Refuses (one pred) input := by
  obtain ⟨t, first, isKind⟩ := opens
  refine refuses_one fun t' first' => ?_
  cases first.symm.trans first'
  exact excluded t isKind

/-- Braces and brackets are no names. -/
theorem isNameToken_bracket {t : Token}
    (bracket : t.kind ∈ [TokenKind.lBrace, .rBrace, .lAngle, .rAngle, .lBracket, .rBracket]) :
    isNameToken t = false := by
  rw [isNameToken]
  generalize t.kind = k at bracket
  revert k
  decide

theorem flat_kind (k : TokenKind) : Flat (kind k) := plain_one _

theorem flat_nameToken : Flat nameToken := plain_one _

theorem flat_signToken : Flat signToken := plain_one _

theorem flat_numberToken : Flat numberToken := plain_one _

theorem flat_qualifiedIdent : Flat qualifiedIdent :=
  (flat_nameToken.seq ((flat_kind .dot).preceded flat_nameToken).many.idle).map _

theorem flat_fieldName : Flat fieldName :=
  (flat_nameToken.map _).alt (((flat_kind .lBracket).seq (flat_qualifiedIdent.seq
    (((flat_kind .slash).preceded flat_qualifiedIdent).opt.idle.seq
      (flat_kind .rBracket)))).map _ |>.atLeast (by decide))

theorem flat_optionNameComponent : Flat optionNameComponent :=
  (flat_nameToken.map _).alt (((flat_kind .lParen).seq ((flat_kind .dot).opt.idle.seq
    (flat_qualifiedIdent.seq (flat_kind .rParen)))).map _ |>.atLeast (by decide))

theorem flat_parseOptionName : Flat parseOptionName :=
  (flat_optionNameComponent.seq
    (((flat_kind .dot).preceded flat_optionNameComponent).many.idle)).map _

theorem flat_signedInt : Flat signedInt :=
  ((flat_kind .minus).opt.idle.seq (flat_kind .intLiteral)).map _

theorem flat_reservedRange (maxSentinel : BitVec 32) : Flat (reservedRange maxSentinel) :=
  (flat_signedInt.seq ((flat_kind .kwTo).preceded
    (((flat_kind .kwMax).map _).alt flat_signedInt)).opt.idle).map _

theorem flat_reservedName : Flat reservedName :=
  ((flat_kind .stringLiteral).map _).alt (flat_nameToken.map _)

theorem flat_commaList {α : Type} {item : Parser Token α} (flat : Flat item) :
    Flat (commaList item) :=
  (flat.seq ((flat_kind .comma).preceded flat).many.idle).map _

theorem flat_parseReserved (maxSentinel : BitVec 32) : Flat (parseReserved maxSentinel) :=
  ((flat_kind .kwReserved).delimited
    (((flat_commaList (flat_reservedRange _)).map _).alt ((flat_commaList flat_reservedName).map _))
    (flat_kind .semicolon).cut.idle).atLeast (by decide)

theorem flat_visibilityModifier : Plain depthExceeded visibilityModifier 0 Never :=
  (((flat_kind .kwExport).map _).alt ((flat_kind .kwLocal).map _)).opt

theorem flat_typeName : Flat typeName :=
  ((flat_kind .dot).opt.idle.seq flat_qualifiedIdent).map _

theorem flat_fieldNumber : Flat fieldNumber := (flat_kind .intLiteral).map _

theorem flat_cardinality : Flat cardinality :=
  ((flat_kind .kwRequired).map _).alt
    (((flat_kind .kwOptional).map _).alt ((flat_kind .kwRepeated).map _))

/-! ## Values -/

/-- The contract of the parser of message literals. -/
abbrev PacedMessage (left : Nat) (near far : Parser Token MessageLiteral) : Prop :=
  Paced depthExceeded left near far
    (fun taken fields rest used => Opens [.lBrace, .lAngle] (taken ++ rest) ∧ 1 ≤ taken.length ∧
      used = levels (OptionValue.message fields).spots)
    (fun items used => ¬ Opens [.lBrace, .lAngle] items → used = 1)

/-- The contract of the parser of list literals. -/
abbrev PacedList (left : Nat) (near far : Parser Token ListLiteral) : Prop :=
  Paced depthExceeded left near far
    (fun taken elements rest used => Opens [.lBracket] (taken ++ rest) ∧ 1 ≤ taken.length ∧
      used = levels (OptionValue.list elements).spots)
    (fun items used => ¬ Opens [.lBracket] items → used = 1)

theorem levels_scalar (sign : Option Token) (num : Token) :
    levels (interpretNumber sign num).spots = 1 := by
  rw [interpretNumber]
  split_ifs
  · rw [makeInt]
    dsimp only
    split_ifs <;> rfl
  · rfl

/-- A production whose values are no aggregates. -/
theorem paced_scalar {α : Type} {parser : Parser Token α} {least : Nat} (left : Nat)
    (plain : Plain depthExceeded parser (least + 1) Idle) (change : α → OptionValue)
    (scalar : ∀ value, levels (change value).spots = 1) :
    Paced depthExceeded left (map parser change) (map parser change)
      (fun taken value _ used => 1 ≤ taken.length ∧ used = 0 ∧ levels value.spots = 1) Idle := by
  refine (Paced.map (plain left) change).mono ?_ fun _ _ => id
  rintro taken _ rest used ⟨inner, rfl, long, idle⟩
  exact ⟨by omega, idle, scalar inner⟩

theorem refuses_parseScalar {input : Range Token}
    (opens : Opens [.lBrace, .lAngle, .lBracket] input.items) : Refuses parseScalar input := by
  have tokens : ∀ pred : TokenKind → Bool, (∀ k ∈ [TokenKind.lBrace, .lAngle, .lBracket],
      pred k = false) → Refuses (one fun t => pred t.kind) input :=
    fun pred excluded => refuses_one_of_opens opens fun t => excluded t.kind
  have number : Refuses (seq (opt signToken) numberToken) input :=
    (tokens (fun k => k == .minus || k == .plus) (by decide)).optional
      (tokens (fun k => k == .intLiteral || k == .floatLiteral || k == .kwInf || k == .kwNan)
        (by decide))
  have string : Refuses (kind .stringLiteral) input := tokens (· == .stringLiteral) (by decide)
  have name : Refuses nameToken input :=
    tokens (fun k => k == .identifier || isKeyword k) (by decide)
  exact (number.map _).alt ((string.map _).alt (name.map _))

theorem paced_parseScalar (left : Nat) :
    Paced depthExceeded left parseScalar parseScalar
      (fun taken value rest used => ¬ Opens [.lBrace, .lAngle, .lBracket] (taken ++ rest) ∧
        1 ≤ taken.length ∧ used = 0 ∧ levels value.spots = 1) Idle := by
  have number := paced_scalar left (flat_signToken.opt.idle.seq flat_numberToken) _
    fun parts => levels_scalar parts.1 parts.2
  have string := paced_scalar left (flat_kind .stringLiteral) (fun t => .string t.strValue)
    fun _ => rfl
  have name := paced_scalar left flat_nameToken (fun t => .identifier t.text) fun _ => rfl
  refine ((number.orElse (string.orElse name)).early _ (fun _ => refuses_parseScalar)
    (fun _ => refuses_parseScalar)).mono (fun _ _ _ _ => id) ?_
  rintro items used ⟨closed, goesOn⟩
  by_cases opens : Opens [.lBrace, .lAngle, .lBracket] items
  · exact closed opens
  · exact goesOn opens

section Values

variable {left : Nat} {message message' : Parser Token MessageLiteral}
variable {list list' : Parser Token ListLiteral}

theorem counts_valueOf (pacedMessage : PacedMessage left message message')
    (pacedList : PacedList left list list') :
    Counts left (valueOf message list) (valueOf message' list') (fun value => levels value.spots)
      (fun items used => Opens [.rBracket] items → used = 1) := by
  refine ((pacedMessage.map _).alt ((pacedList.map _).alt (paced_parseScalar left))).mono ?_ ?_
  · rintro taken value rest used (⟨fields, rfl, -, long, isCost⟩ | ⟨first, later, refused, good, rfl⟩)
    · exact ⟨long, isCost⟩
    · rcases good with ⟨elements, rfl, opens, long, isCost⟩ |
        ⟨second, third, refused', ⟨plain, long, rfl, isCost⟩, rfl⟩
      · refine ⟨long, ?_⟩
        change max first later = levels (OptionValue.list elements).spots
        have idle := refused (opens.disjoint (by decide))
        have deep := levels_list_pos elements
        omega
      · refine ⟨long, ?_⟩
        change _ = levels value.spots
        have idle := refused fun opens => plain (opens.mono (by decide))
        have idle' := refused' fun opens => plain (opens.mono (by decide))
        omega
  · rintro items used ⟨first, later, refused, ⟨second, third, refused', idle, rfl⟩, rfl⟩ opens
    have message := refused (opens.disjoint (by decide))
    have list := refused' (opens.disjoint (by decide))
    rw [message, list, show third = 0 from idle]
    rfl

/-- What follows the colon of a field, or stands in its place. -/
theorem counts_fieldValueOf (pacedMessage : PacedMessage left message message')
    (pacedList : PacedList left list list') :
    Counts left (fieldValueOf message list) (fieldValueOf message' list')
      (fun value => levels value.spots) (fun _ _ => True) := by
  have colon : Costs depthExceeded left (preceded (kind .colon) (valueOf message list))
      (preceded (kind .colon) (valueOf message' list')) 2 (fun value => levels value.spots)
      fun _ _ => True :=
    ((flat_kind .colon left).seq (counts_valueOf pacedMessage pacedList)).map _ fun value =>
      (Nat.zero_max _).symm
  have skips := colon.early (fun items => ¬ Opens [.colon] items)
    (fun _ other => (refuses_kind other).preceded _) fun _ other => (refuses_kind other).preceded _
  refine (skips.alt ((pacedMessage.map _).alt (pacedList.map _))).mono ?_ fun _ _ _ => trivial
  rintro taken value rest used (⟨-, long, isCost⟩ | ⟨first, later, ⟨skipped, -⟩, good, rfl⟩)
  · exact ⟨by omega, isCost⟩
  · rcases good with ⟨fields, rfl, opens, long, rfl⟩ |
      ⟨second, third, refused, ⟨elements, rfl, opens, long, rfl⟩, rfl⟩
    · rw [skipped (opens.disjoint (by decide)), Nat.zero_max]
      exact ⟨long, rfl⟩
    · refine ⟨long, ?_⟩
      change _ = levels (OptionValue.list elements).spots
      have deep := levels_list_pos elements
      rw [skipped (opens.disjoint (by decide)), refused (opens.disjoint (by decide))]
      omega

/-- A field is refused where the literal around it ends. -/
theorem refuses_messageFieldOf {input : Range Token} (opens : Opens [.rBrace, .rAngle] input.items)
    (message : Parser Token MessageLiteral) (list : Parser Token ListLiteral) :
    Refuses (messageFieldOf message list) input := by
  have name : Refuses nameToken input :=
    refuses_one_of_opens (opens.mono (by decide)) fun _ => isNameToken_bracket
  have bracket : Refuses (kind .lBracket) input := refuses_kind (opens.disjoint (by decide))
  exact (((name.map _).alt ((bracket.seq _).map _)).seq _).map _

theorem counts_messageFieldOf (pacedMessage : PacedMessage left message message')
    (pacedList : PacedList left list list') :
    Counts left (messageFieldOf message list) (messageFieldOf message' list')
      (fun field => levels field.spots)
      (fun items used => Opens [.rBrace, .rAngle] items → used = 0) := by
  have field : Costs depthExceeded left (messageFieldOf message list) (messageFieldOf message' list')
      2 (fun field => levels field.spots) fun _ _ => True := by
    refine ((flat_fieldName left).seq (counts_fieldValueOf pacedMessage pacedList)).map _ ?_
    rintro ⟨⟨nameKind, name, anyType, value⟩, value'⟩
    exact (Nat.zero_max _).symm
  refine (field.early _ (fun _ opens => refuses_messageFieldOf opens _ _)
    (fun _ opens => refuses_messageFieldOf opens _ _)).mono ?_ fun _ _ => And.left
  rintro taken value rest used ⟨-, long, isCost⟩
  exact ⟨by omega, isCost⟩

/-- The fields up to the token that closes the literal. -/
theorem paced_literalBodyOf (pacedMessage : PacedMessage left message message')
    (pacedList : PacedList left list list') :
    Paced depthExceeded left (literalBodyOf message list) (literalBodyOf message' list')
      (fun _ fields rest used => Opens [.rBrace, .rAngle] rest →
        used = highest (fun field => levels field.spots) fields) Never := by
  have separator : Plain depthExceeded (opt (alt (kind .comma) (kind .semicolon))) 0 Never :=
    ((flat_kind .comma).alt (flat_kind .semicolon)).opt
  have item := (counts_messageFieldOf pacedMessage pacedList).before separator
  refine (item.many.map _).mono ?_ fun _ _ => id
  rintro taken _ rest used ⟨items, rfl, last, refused, rfl⟩ opens
  rw [refused opens, Nat.max_zero, highest_map]

/-- A message literal in braces of one kind. -/
theorem paced_braces (pacedMessage : PacedMessage left message message')
    (pacedList : PacedList left list list') (opening closing : TokenKind)
    (opens : opening ∈ [TokenKind.lBrace, .lAngle]) (closes : closing ∈ [TokenKind.rBrace, .rAngle]) :
    Paced depthExceeded left
      (delimited (kind opening) (literalBodyOf message list) (cut (kind closing)))
      (delimited (kind opening) (literalBodyOf message' list') (cut (kind closing)))
      (fun taken fields rest used => Opens [.lBrace, .lAngle] (taken ++ rest) ∧ 1 ≤ taken.length ∧
        used = highest (fun field => levels field.spots) fields)
      Idle := by
  refine (((paced_one _).seq ((paced_literalBodyOf pacedMessage pacedList).seq
    (paced_one _).cut)).map _).mono ?_ ?_
  · rintro taken _ rest used ⟨⟨first, fields, last⟩, rfl, front, back, idle, inside, rfl,
      ⟨rfl, isOpening, rfl⟩, ⟨body, close, used', idle', rfl, body', ⟨rfl, isClosing, rfl⟩, rfl⟩, rfl⟩
    rw [beq_iff_eq] at isOpening isClosing
    refine ⟨?_, by simp, ?_⟩
    · rw [List.append_assoc, List.singleton_append, opens_cons, isOpening]
      exact opens
    · rw [Nat.zero_max, Nat.max_zero]
      refine body' ?_
      rw [List.singleton_append, opens_cons, isClosing]
      exact closes
  · rintro items used (idle | ⟨front, back, value, first, second, rfl, ⟨-, -, rfl⟩, fails, rfl⟩)
    · exact idle
    · rcases fails with never | ⟨_, _, _, _, _, _, _, never, _⟩
      · exact never.elim
      · exact never.elim

theorem paced_messageLiteralOf (pacedMessage : PacedMessage left message message')
    (pacedList : PacedList left list list') :
    Paced depthExceeded left (messageLiteralOf message list) (messageLiteralOf message' list')
      (fun taken fields rest used => Opens [.lBrace, .lAngle] (taken ++ rest) ∧ 1 ≤ taken.length ∧
        used = highest (fun field => levels field.spots) fields)
      Idle :=
  (paced_braces pacedMessage pacedList .lBrace .rBrace (by decide) (by decide)).orElse
    (paced_braces pacedMessage pacedList .lAngle .rAngle (by decide) (by decide))

/-- The elements of a list; the attempt at an element of an empty list is one level down. -/
theorem paced_listLiteralOf (pacedMessage : PacedMessage left message message')
    (pacedList : PacedList left list list') :
    Paced depthExceeded left (listLiteralOf message list) (listLiteralOf message' list')
      (fun taken elements rest used => Opens [.lBracket] (taken ++ rest) ∧ 1 ≤ taken.length ∧
        used + 1 = levels (OptionValue.list elements).spots)
      (fun items used => ¬ Opens [.lBracket] items → used = 0) := by
  have elements := (counts_valueOf pacedMessage pacedList).separatedList (flat_kind .comma)
  have literal := ((paced_one (fun t : Token => t.kind == .lBracket)).seq (elements.seq
    (paced_one (fun t : Token => t.kind == .rBracket)).cut)).map fun values => values.2.1
  refine (literal.early (fun items => ¬ Opens [.lBracket] items)
    (fun _ other => (refuses_kind other).delimited _ _)
    (fun _ other => (refuses_kind other).delimited _ _)).mono ?_ fun _ _ => And.left
  rintro taken _ rest used ⟨opens, ⟨first, values, last⟩, rfl, front, back, idle, inside, rfl,
    ⟨rfl, -, rfl⟩, ⟨body, close, used', idle', rfl, body', ⟨rfl, isClosing, rfl⟩, rfl⟩, rfl⟩
  refine ⟨not_not.mp opens, by simp, ?_⟩
  rw [Nat.zero_max, Nat.max_zero]
  rw [beq_iff_eq] at isClosing
  rcases body' with ⟨rfl, -, refused⟩ | ⟨nonempty, rfl⟩
  · rw [refused (opens_cons.mpr (by rw [isClosing]; decide))]
    rfl
  · exact (levels_list nonempty).symm

end Values

/-! ## The limit on values -/

/-- The guard of message literals. -/
theorem PacedMessage.ofBody {left : Nat} {near far : Parser Token MessageLiteral}
    (paced : Paced depthExceeded left near far
      (fun taken fields rest used => ∃ inside, (Opens [.lBrace, .lAngle] (taken ++ rest) ∧
        1 ≤ taken.length ∧ inside = highest (fun field => levels field.spots) fields) ∧
        used = inside + 1)
      (fun items used => ∃ inside, Idle items inside ∧ used = inside + 1)) :
    PacedMessage left near far := by
  refine paced.mono ?_ ?_
  · rintro taken fields rest used ⟨inside, ⟨opens, long, rfl⟩, rfl⟩
    exact ⟨opens, long, (levels_message fields).symm⟩
  · rintro items used ⟨inside, rfl, rfl⟩ _
    rfl

/-- The guard of list literals. -/
theorem PacedList.ofBody {left : Nat} {near far : Parser Token ListLiteral}
    (paced : Paced depthExceeded left near far
      (fun taken elements rest used => ∃ inside, (Opens [.lBracket] (taken ++ rest) ∧
        1 ≤ taken.length ∧ inside + 1 = levels (OptionValue.list elements).spots) ∧
        used = inside + 1)
      (fun items used => ∃ inside, (¬ Opens [.lBracket] items → inside = 0) ∧
        used = inside + 1)) : PacedList left near far := by
  refine paced.mono ?_ ?_
  · rintro taken elements rest used ⟨inside, ⟨opens, long, isCost⟩, rfl⟩
    exact ⟨opens, long, isCost⟩
  · rintro items used ⟨inside, idle, rfl⟩ other
    rw [idle other]

theorem paced_tooDeep {α : Type} (good : List Token → α → List Token → Nat → Prop)
    (soft : List Token → Nat → Prop) :
    Paced depthExceeded 0 (fun _ => .fail tooDeep) (fun _ => .fail tooDeep) good soft :=
  paced_shut rfl rfl good soft

/-- The aggregates under two limits, by induction on the larger one. -/
theorem paced_aggregates {left big : Nat} (within : left ≤ big) :
    PacedMessage left (parseMessageLiteral left) (parseMessageLiteral big) ∧
      PacedList left (parseListLiteral left) (parseListLiteral big) := by
  induction big generalizing left with
  | zero =>
      obtain rfl : left = 0 := by omega
      rw [parseMessageLiteral, parseListLiteral]
      exact ⟨paced_tooDeep _ _, paced_tooDeep _ _⟩
  | succ big ih =>
      rw [parseMessageLiteral, parseListLiteral]
      cases left with
      | zero =>
          obtain ⟨message, list⟩ := ih (Nat.le_refl big)
          rw [parseMessageLiteral, parseListLiteral]
          exact ⟨.ofBody ((paced_messageLiteralOf message list).shut rfl rfl),
            .ofBody ((paced_listLiteralOf message list).shut rfl rfl)⟩
      | succ left =>
          obtain ⟨message, list⟩ := ih (Nat.le_of_succ_le_succ within)
          rw [parseMessageLiteral, parseListLiteral]
          exact ⟨.ofBody (paced_messageLiteralOf message list).deeper,
            .ofBody (paced_listLiteralOf message list).deeper⟩

/-! ## Options -/

section Declarations

variable {left big : Nat} (within : left ≤ big)

include within

theorem counts_parseValue :
    Counts left (parseValue left) (parseValue big) (fun value => levels value.spots)
      (fun items used => Opens [.rBracket] items → used = 1) :=
  counts_valueOf (paced_aggregates within).1 (paced_aggregates within).2

theorem counts_compactOption :
    Counts left (compactOption left) (compactOption big) (fun option => levels option.value.spots)
      Idle := by
  refine Costs.atLeast ?_ (show 1 ≤ 1 + (1 + 1) by decide)
  refine (Costs.after flat_parseOptionName (Costs.after (flat_kind .equals).cut.idle
    (counts_parseValue within).cut.idle)).map _ ?_
  exact fun _ => rfl

theorem counts_parseOptionDecl :
    Counts left (parseOptionDecl left) (parseOptionDecl big)
      (fun option => levels option.value.spots) Idle := by
  refine Costs.atLeast ?_ (show 1 ≤ 1 + (1 + (1 + (1 + 1))) by decide)
  refine (Costs.after (flat_kind .kwOption) (Costs.after flat_parseOptionName.cut.idle
    (Costs.after (flat_kind .equals).cut.idle
      ((counts_parseValue within).cut.idle.before (flat_kind .semicolon).cut)))).map _ ?_
  exact fun _ => rfl

/-- Compact options, which use no level where there are none. -/
theorem counts_parseCompactOptions :
    Costs depthExceeded left (parseCompactOptions left) (parseCompactOptions big) 1
      (fun options => levels (optionSpots options))
      (fun items used => ¬ Opens [.lBracket] items → used = 0) := by
  have options : Costs depthExceeded left
      (separatedList (compactOption left) (kind .comma))
      (separatedList (compactOption big) (kind .comma)) 0
      (fun options => levels (optionSpots options)) fun _ _ => True := by
    refine Paced.mono ((counts_compactOption within).separatedList (flat_kind .comma)) ?_
      fun _ _ => id
    rintro taken values rest used (⟨rfl, -, idle⟩ | ⟨-, isCost⟩)
    · exact ⟨Nat.zero_le _, idle⟩
    · exact ⟨Nat.zero_le _, isCost.trans (levels_flatMap _ _).symm⟩
  have bracketed : Costs depthExceeded left (parseCompactOptions left) (parseCompactOptions big)
      (1 + (0 + 1)) (fun options => levels (optionSpots options)) fun _ _ => True := by
    refine ((flat_kind .lBracket left).seq (options.before (flat_kind .rBracket).cut)).map
      (fun values => values.2.1) ?_
    exact fun _ => (Nat.zero_max _).symm
  refine (bracketed.early (fun items => ¬ Opens [.lBracket] items)
    (fun _ other => (refuses_kind other).delimited _ _)
    (fun _ other => (refuses_kind other).delimited _ _)).mono ?_ fun _ _ => And.left
  rintro taken options rest used ⟨-, long, isCost⟩
  exact ⟨by omega, isCost⟩

/-- Compact options, or none, and the semicolon after them. -/
theorem counts_options :
    Counts left (seq (opt (parseCompactOptions left)) (cut (kind .semicolon)))
      (seq (opt (parseCompactOptions big)) (cut (kind .semicolon)))
      (fun parts => levels (optionSpots (parts.1.getD []))) Never := by
  have semicolon : Paced depthExceeded left (cut (kind .semicolon)) (cut (kind .semicolon))
      (fun taken _ rest used => ¬ Opens [.lBracket] (taken ++ rest) ∧ 1 ≤ taken.length ∧ used = 0)
      Never := by
    refine (paced_one _).cut.mono ?_ fun _ _ => id
    rintro taken value rest used ⟨rfl, isKind, idle⟩
    refine ⟨?_, Nat.le_refl _, idle⟩
    rw [beq_iff_eq] at isKind
    rw [List.singleton_append, opens_cons, isKind]
    decide
  refine Paced.mono ((counts_parseCompactOptions within).optThen semicolon) ?_ fun _ _ => id
  rintro taken ⟨options, last⟩ rest used ⟨long, isCost⟩
  refine ⟨long, isCost.trans ?_⟩
  cases options with
  | none => rfl
  | some options => exact Nat.max_zero _

/-! ## Declarations -/

theorem counts_enumValueDecl :
    Counts left (enumValueDecl left) (enumValueDecl big)
      (fun value => levels (optionSpots value.options)) Idle := by
  refine Costs.atLeast ?_ (show 1 ≤ 1 + (1 + (1 + 1)) by decide)
  refine (Costs.after flat_nameToken (Costs.after (flat_kind .equals).cut.idle
    (Costs.after flat_signedInt.cut.idle (counts_options within).idle))).map _ ?_
  exact fun _ => rfl

theorem counts_enumElement :
    Counts left (enumElement left) (enumElement big) EnumElement.levels Idle := by
  refine Costs.alt (Costs.map (counts_parseOptionDecl within) _ ?_)
    (Costs.alt (Costs.map (flat_parseReserved _ left) _ ?_)
      (Costs.alt (Costs.map (counts_enumValueDecl within) _ ?_)
        (Costs.map (flat_kind .semicolon left) _ ?_))) <;> exact fun _ => rfl

theorem counts_parseEnum (level : SyntaxLevel) :
    Counts left (parseEnum left level) (parseEnum big level) (fun node => levels node.spots)
      Idle := by
  refine Costs.atLeast ?_ (show 1 ≤ 0 + (1 + (1 + (1 + (0 + 1)))) by decide)
  refine (Costs.after flat_visibilityModifier.idle (Costs.after (flat_kind .kwEnum)
    (Costs.after flat_nameToken.cut.idle (Costs.after (flat_kind .lBrace).cut.idle
      ((counts_enumElement within).many_idle.idle.before (flat_kind .rBrace).cut))))).map _ ?_
  exact fun parts => levels_assembleEnum _ _ _

omit within in
theorem buildField_options (card : Option Cardinality) (type name : Text) (number : BitVec 32)
    (options : Option (List OptionNode)) (level : SyntaxLevel) :
    (buildField card type name number options level).options = options.getD [] := by
  rw [buildField]
  dsimp only
  split_ifs <;> rfl

theorem counts_oneofField :
    Counts left (oneofField left) (oneofField big) (fun field => levels (optionSpots field.options))
      Idle := by
  refine Costs.atLeast ?_ (show 1 ≤ 1 + (1 + (1 + (1 + 1))) by decide)
  refine (Costs.after flat_typeName (Costs.after flat_nameToken
    (Costs.after (flat_kind .equals).cut.idle (Costs.after flat_fieldNumber.cut.idle
      (counts_options within).idle)))).map _ ?_
  exact fun _ => rfl

theorem counts_parseField (level : SyntaxLevel) :
    Counts left (parseField left level) (parseField big level)
      (fun field => levels (optionSpots field.options)) Idle := by
  refine Costs.atLeast ?_ (show 1 ≤ 0 + (1 + (1 + ((1 + 1) + 1))) by decide)
  refine (Costs.after flat_cardinality.opt.idle (Costs.after flat_typeName
    (Costs.after flat_nameToken (Costs.after
      ((flat_kind .equals).cut.idle.preceded flat_fieldNumber.cut.idle)
      (counts_options within).idle)))).map _ ?_
  exact fun parts => congrArg (fun options => levels (optionSpots options))
    (buildField_options _ _ _ _ _ _)

theorem counts_parseMapField :
    Counts left (parseMapField left) (parseMapField big)
      (fun field => levels (optionSpots field.options)) Idle := by
  refine Costs.atLeast ?_
    (show 1 ≤ ((1 + 1) + 1) + ((1 + 1) + ((1 + 1) + ((1 + 1) + 1))) by decide)
  refine (Costs.after (((flat_kind .kwMap).seq (flat_kind .lAngle).cut.idle).preceded
      flat_typeName.cut.idle)
    (Costs.after ((flat_kind .comma).cut.idle.preceded flat_typeName.cut.idle)
      (Costs.after ((flat_kind .rAngle).cut.idle.preceded flat_nameToken.cut.idle)
        (Costs.after ((flat_kind .equals).cut.idle.preceded flat_fieldNumber.cut.idle)
          (counts_options within).idle)))).map _ ?_
  exact fun _ => rfl

theorem counts_extensionRange :
    Counts left (extensionRange left) (extensionRange big)
      (fun node => levels (optionSpots node.options)) Idle := by
  refine Costs.atLeast ?_ (show 1 ≤ (1 + 1) + 1 by decide)
  refine (Costs.after ((flat_kind .kwExtensions).preceded (flat_commaList (flat_reservedRange _)))
    (counts_options within).idle).map _ ?_
  exact fun _ => rfl

section Bodies

variable (level : SyntaxLevel) {body body' : Parser Token (List MessageElement)}
variable (costs : Costs depthExceeded left body body' 0
  (fun elements => highest MessageElement.levels elements + 1) Never)

include costs

omit within in
/-- A message body in its braces. -/
theorem paced_braced :
    Paced depthExceeded left (delimited (cut (kind .lBrace)) body (cut (kind .rBrace)))
      (delimited (cut (kind .lBrace)) body' (cut (kind .rBrace)))
      (fun taken elements rest used => ¬ Opens [.lBracket] (taken ++ rest) ∧ 1 ≤ taken.length ∧
        used = highest MessageElement.levels elements + 1) Never := by
  refine (((paced_one _).cut.seq (costs.before (flat_kind .rBrace).cut)).map _).mono ?_ ?_
  · rintro taken _ rest used ⟨⟨first, parts⟩, rfl, front, back, idle, inside, rfl,
      ⟨rfl, isKind, rfl⟩, ⟨-, rfl⟩, rfl⟩
    rw [beq_iff_eq] at isKind
    refine ⟨?_, by simp, Nat.zero_max _⟩
    rw [List.append_assoc, List.singleton_append, opens_cons, isKind]
    decide
  · rintro items used (never | ⟨_, _, _, _, _, _, _, never, _⟩)
    · exact never
    · exact never.elim

omit within in
theorem counts_braced :
    Counts left (delimited (cut (kind .lBrace)) body (cut (kind .rBrace)))
      (delimited (cut (kind .lBrace)) body' (cut (kind .rBrace)))
      (fun elements => highest MessageElement.levels elements + 1) Never :=
  (paced_braced costs).mono (fun _ _ _ _ => And.right) fun _ _ => id

omit within in
theorem counts_parseMessage :
    Counts left (parseMessage body) (parseMessage body') (fun node => levels node.spots) Idle := by
  refine Costs.atLeast ?_ (show 1 ≤ 0 + (1 + (1 + 1)) by decide)
  refine (Costs.after flat_visibilityModifier.idle (Costs.after (flat_kind .kwMessage)
    (Costs.after flat_nameToken.cut.idle (counts_braced costs).idle))).map _ ?_
  rintro ⟨visibility, keyword, name, elements⟩
  exact (congrArg levels (MessageNode.spots_visibility _ _)).trans (levels_assembleMessage _ _)

theorem counts_parseGroup :
    Counts left (parseGroup left level body) (parseGroup big level body') GroupDecl.levels Idle := by
  refine Costs.atLeast ?_ (show 1 ≤ 0 + ((1 + 1) + ((1 + 1) + 1)) by decide)
  refine (Costs.after flat_cardinality.opt.idle (Costs.after
    ((flat_kind .kwGroup).preceded flat_nameToken.cut.idle) (Costs.after
      ((flat_kind .equals).cut.idle.preceded flat_fieldNumber.cut.idle)
      ((counts_parseCompactOptions within).optThen (paced_braced costs)).idle))).map _ ?_
  rintro ⟨card, name, number, options, elements⟩
  rw [GroupDecl.levels, levels_assembleMessage]
  dsimp only
  rw [buildField_options]
  cases options <;> rfl

theorem counts_oneofElement :
    Counts left (oneofElement left level body) (oneofElement big level body') OneofElement.levels
      Idle := by
  have unlabelled : Counts left
      (alt (map (parseOptionDecl left) .option)
        (alt (map (parseGroup left level body) .group) (map (oneofField left) .field)))
      (alt (map (parseOptionDecl big) .option)
        (alt (map (parseGroup big level body') .group) (map (oneofField big) .field)))
      OneofElement.levels Idle := by
    refine Costs.alt (Costs.map (counts_parseOptionDecl within) _ ?_)
      (Costs.alt (Costs.map (counts_parseGroup within level costs) _ ?_)
        (Costs.map (counts_oneofField within) _ ?_)) <;> exact fun _ => rfl
  intro input
  simp only [oneofElement]
  by_cases labelled : input.items.head?.any isLabel = true
  · simp only [labelled, if_true]
    exact ⟨0, needs_same _, nofun⟩
  · simp only [labelled, Bool.false_eq_true, if_false]
    exact unlabelled input

theorem counts_parseOneof :
    Counts left (parseOneof left level body) (parseOneof big level body') OneofBundle.levels
      Idle := by
  refine Costs.atLeast ?_ (show 1 ≤ 1 + (1 + (1 + (0 + 1))) by decide)
  refine (Costs.after (flat_kind .kwOneof) (Costs.after flat_nameToken.cut.idle
    (Costs.after (flat_kind .lBrace).cut.idle
      ((counts_oneofElement within level costs).many_idle.idle.before
        (flat_kind .rBrace).cut)))).map _ ?_
  exact fun parts => levels_assembleOneof _ _

theorem counts_extendElement :
    Counts left (extendElement left level body) (extendElement big level body') ExtendElement.levels
      Idle := by
  refine Costs.alt (Costs.map (counts_parseGroup within level costs) _ ?_)
    (Costs.map (counts_parseField within level) _ ?_) <;> exact fun _ => rfl

theorem counts_extendAt (offset : Nat) :
    Counts left (extendAt left level body offset) (extendAt big level body' offset)
      ExtendBundle.levels Idle := by
  have block : Costs depthExceeded left
      (delimited (cut (kind .lBrace)) (many (extendElement left level body)) (cut (kind .rBrace)))
      (delimited (cut (kind .lBrace)) (many (extendElement big level body')) (cut (kind .rBrace)))
      (1 + (0 + 1)) (highest ExtendElement.levels) Idle := by
    refine (Costs.after (flat_kind .lBrace).cut.idle
      ((counts_extendElement within level costs).many_idle.idle.before
        (flat_kind .rBrace).cut)).map _ ?_
    exact fun _ => rfl
  refine Costs.atLeast ?_ (show 1 ≤ (1 + 1) + (1 + (0 + 1)) by decide)
  refine (Costs.after ((flat_kind .kwExtend).preceded flat_typeName.cut.idle) block).map _ ?_
  exact fun parts =>
    (foldl_levels ExtendBundle.levels levels_pushExtend parts.2 _).trans (Nat.zero_max _)

theorem counts_parseExtend :
    Counts left (parseExtend left level body) (parseExtend big level body') ExtendBundle.levels
      Idle :=
  fun input => counts_extendAt within level costs _ input

theorem counts_messageElement :
    Counts left (messageElement left level body) (messageElement big level body')
      MessageElement.levels Idle := by
  refine Costs.alt (Costs.map (counts_parseOptionDecl within) _ ?_)
    (Costs.alt (Costs.map (counts_parseMapField within) _ ?_)
      (Costs.alt (Costs.map (counts_parseOneof within level costs) _ ?_)
        (Costs.alt (Costs.map (flat_parseReserved _ left) _ ?_)
          (Costs.alt (Costs.map (counts_extensionRange within) _ ?_)
            (Costs.alt (Costs.map (counts_parseExtend within level costs) _ ?_)
              (Costs.alt (Costs.map (counts_parseMessage costs) _ ?_)
                (Costs.alt (Costs.map (counts_parseEnum within level) _ ?_)
                  (Costs.alt (Costs.map (counts_parseGroup within level costs) _ ?_)
                    (Costs.alt (Costs.map (counts_parseField within level) _ ?_)
                      (Costs.map (flat_kind .semicolon left) _ ?_)))))))))) <;> exact fun _ => rfl

end Bodies

omit within in
/-- The guard of message bodies. -/
theorem costs_ofBody {near far : Parser Token (List MessageElement)}
    (paced : Paced depthExceeded left near far
      (fun taken elements _ used => ∃ inside, (0 ≤ taken.length ∧
        inside = highest MessageElement.levels elements) ∧ used = inside + 1)
      (fun items used => ∃ inside, Never items inside ∧ used = inside + 1)) :
    Costs depthExceeded left near far 0
      (fun elements => highest MessageElement.levels elements + 1) Never := by
  refine paced.mono ?_ ?_
  · rintro taken elements rest used ⟨inside, ⟨long, rfl⟩, rfl⟩
    exact ⟨long, rfl⟩
  · rintro items used ⟨inside, never, -⟩
    exact never

/-- Message bodies under two limits, by induction on the larger one. -/
theorem costs_messageBody (level : SyntaxLevel) :
    Costs depthExceeded left (messageBody level left) (messageBody level big) 0
      (fun elements => highest MessageElement.levels elements + 1) Never := by
  induction big generalizing left with
  | zero =>
      obtain rfl : left = 0 := by omega
      rw [messageBody]
      exact paced_tooDeep _ _
  | succ big ih =>
      rw [messageBody]
      cases left with
      | zero =>
          have same := Nat.le_refl big
          rw [messageBody]
          exact costs_ofBody ((counts_messageElement same level (ih same)).many_idle.shut rfl rfl)
      | succ left =>
          have lower := Nat.le_of_succ_le_succ within
          rw [messageBody]
          exact costs_ofBody (counts_messageElement lower level (ih lower)).many_idle.deeper

/-! ## Files -/

omit within in
theorem flat_importDecl : Flat importDecl :=
  ((((flat_kind .kwImport).preceded ((flat_kind .kwWeak).alt
    ((flat_kind .kwPublic).alt (flat_kind .kwOption))).opt.idle).seq
      ((flat_kind .stringLiteral).cut.idle.seq (flat_kind .semicolon).cut.idle)).map _).atLeast
    (by decide)

omit within in
theorem flat_packageDecl : Flat packageDecl :=
  ((((flat_kind .kwPackage).preceded flat_qualifiedIdent.cut.idle).seq
    (flat_kind .semicolon).cut.idle).map _).atLeast (by decide)

omit within in
theorem flat_syntaxDecl : Flat syntaxDecl := by
  have declared : ∀ k : TokenKind, Plain depthExceeded
      (seq (preceded (kind k) (cut (kind .equals)))
        (seq (cut (kind .stringLiteral)) (cut (kind .semicolon)))) ((1 + 1) + (1 + 1)) Idle :=
    fun k => ((flat_kind k).preceded (flat_kind .equals).cut.idle).seq
      ((flat_kind .stringLiteral).cut.idle.seq (flat_kind .semicolon).cut.idle)
  exact (((declared .kwSyntax).map _).alt ((declared .kwEdition).map _)).atLeast (by decide)

omit within in
/-- A block of braces is some of the tokens. -/
theorem bracesLoop_le {depth n : Nat} {items : List Token} (found : bracesLoop depth items = some n) :
    1 ≤ n ∧ n ≤ items.length := by
  induction items generalizing depth n with
  | nil => cases found
  | cons t rest ih =>
      have later : ∀ depth', (bracesLoop depth' rest).map (· + 1) = some n →
          1 ≤ n ∧ n ≤ (t :: rest).length := by
        intro depth' found'
        obtain ⟨m, inner, rfl⟩ := Option.map_eq_some_iff.mp found'
        have bounds := ih inner
        rw [List.length_cons]
        omega
      rw [bracesLoop] at found
      split_ifs at found
      · exact later _ found
      · cases found
        exact ⟨Nat.le_refl _, by simp⟩
      · exact later _ found
      · exact later _ found

omit within in
theorem flat_balancedBraces : Flat balancedBraces := by
  intro left input
  refine ⟨0, needs_same _, ?_⟩
  rw [balancedBraces]
  split_ifs
  · cases found : bracesLoop 0 input.items with
    | none => exact fun _ => rfl
    | some n =>
        obtain ⟨positive, small⟩ := bracesLoop_le found
        have length : (input.items.take n).length = n := by
          rw [List.length_take]
          omega
        refine ⟨input.items.take n, (List.take_append_drop n _).symm, ?_, ?_, rfl⟩
        · rw [length]
          rfl
        · rwa [length]
  · exact fun _ => rfl

omit within in
theorem flat_serviceDecl : Flat serviceDecl :=
  (((flat_kind .kwService).seq (flat_nameToken.cut.idle.seq
    flat_balancedBraces.cut.idle)).map _).atLeast (by decide)

theorem counts_fileElement (level : SyntaxLevel) :
    Counts left (fileElement left level) (fileElement big level) FileElement.levels Idle := by
  have body := costs_messageBody within level
  refine Costs.alt (Costs.map (counts_parseOptionDecl within) _ ?_)
    (Costs.alt (Costs.map (flat_importDecl left) _ ?_)
      (Costs.alt (Costs.map (flat_packageDecl left) _ ?_)
        (Costs.alt (Costs.map (flat_serviceDecl left) _ ?_)
          (Costs.alt (Costs.map (counts_parseExtend within level body) _ ?_)
            (Costs.alt (Costs.map (counts_parseMessage body) _ ?_)
              (Costs.alt (Costs.map (counts_parseEnum within level) _ ?_)
                (Costs.map (flat_kind .semicolon left) _ ?_))))))) <;> exact fun _ => rfl

theorem costs_fileBody (info : SyntaxInfo) :
    Costs depthExceeded left (fileBody left info) (fileBody big info) 0
      (fun file => levels file.spots) Never := by
  refine (counts_fileElement within info.level).many_idle.map _ fun elements => ?_
  refine (foldl_levels (fun file : FileNode => levels file.spots) levels_applyFileElement elements
    _).trans ?_
  exact Nat.zero_max _

/-- A file uses the levels of its tree. -/
theorem costs_parseFileWithin :
    Costs depthExceeded left (parseFileWithin left) (parseFileWithin big) 0
      (fun file => levels file.spots) Never := by
  intro input
  obtain ⟨_, -, declares⟩ := flat_syntaxDecl.opt left input
  rw [parseFileWithin, parseFileWithin]
  cases outcome : opt syntaxDecl input with
  | outside => exact (outcome ▸ declares).elim
  | spin => exact (outcome ▸ declares).elim
  | fail error =>
      rw [outcome] at declares
      rw [Outcome.fail_bind, Outcome.fail_bind]
      exact ⟨0, needs_same _, declares⟩
  | ok declared =>
      rw [outcome] at declares
      obtain ⟨front, split, start, -, -⟩ := declares
      obtain ⟨used, needs, ends⟩ := costs_fileBody within (declared.value.getD {}) declared.remaining
      rw [Outcome.ok_bind, Outcome.ok_bind]
      refine ⟨used, needs.through _ fun _ gaveUp => gaveUp.lift _, ?_⟩
      refine Outcome.Ends.mapError (ends.mono ?_ fun _ fails => fails) _ fun error fails => fails
      rintro parsed ⟨back, split', start', -, isCost⟩
      refine ⟨front ++ back, ?_, ?_, Nat.zero_le _, isCost⟩
      · rw [split, split', List.append_assoc]
      · rw [start', start, List.length_append]
        omega

end Declarations

/-! ## The limit on sources -/

/-- The tokens are a file, whatever its depth: under some limit all of them are parsed. -/
def Valid (tokens : Range Token) (file : FileNode) : Prop :=
  ∃ limit parsed, parseFileWithin limit tokens = .ok parsed ∧ parsed.remaining.items = [] ∧
    parsed.value = file

/-- The tokens are rejected for their depth. -/
def RejectedForDepth (tokens : Range Token) : Prop :=
  ∃ error, parseFile tokens = .fail error ∧ error.message = depthExceeded

/-- A valid source is rejected for its depth exactly when the levels of its tree are too many. -/
theorem rejectedForDepth_iff {tokens : Range Token} {file : FileNode} (valid : Valid tokens file) :
    RejectedForDepth tokens ↔ kMaxParseDepth < levels file.spots := by
  obtain ⟨limit, parsed, accepts, -, rfl⟩ := valid
  obtain ⟨used, needs, -⟩ :=
    costs_parseFileWithin (Nat.le_max_left limit kMaxParseDepth) tokens
  have enough : used ≤ limit := by
    refine Nat.le_of_not_lt fun deep => ?_
    obtain ⟨error, fails, -, -⟩ := needs.2 deep
    rw [accepts] at fails
    cases fails
  have large : parseFileWithin (max limit kMaxParseDepth) tokens = .ok parsed :=
    (needs.1 enough).symm.trans accepts
  obtain ⟨used', needs', ends⟩ :=
    costs_parseFileWithin (Nat.le_max_right limit kMaxParseDepth) tokens
  rw [large] at needs' ends
  obtain ⟨-, -, -, -, rfl⟩ := ends
  constructor
  · rintro ⟨error, fails, -⟩
    refine Nat.lt_of_not_le fun room => ?_
    rw [show parseFile tokens = _ from needs'.1 room] at fails
    cases fails
  · intro deep
    obtain ⟨error, fails, message, -⟩ := needs'.2 deep
    exact ⟨error, fails, message⟩

/-- On valid sources rejection for depth means that constructs nest too deep, except for those whose
constructs stay within the limit and which have a value without braces inside that many. -/
theorem rejectedForDepth_right_iff (tokens : Range Token) (file : FileNode)
    (valid : Valid tokens file) :
    (RejectedForDepth tokens ↔ kMaxParseDepth < file.nesting) ↔
      ¬ (file.nesting ≤ kMaxParseDepth ∧ ⟨false, kMaxParseDepth⟩ ∈ file.spots) := by
  rw [rejectedForDepth_iff valid, lt_levels]
  constructor
  · rintro right ⟨within, here⟩
    exact absurd (right.mp (.inr here)) (Nat.not_lt_of_le within)
  · intro apart
    refine ⟨?_, Or.inl⟩
    rintro (nests | here)
    · exact nests
    · exact Nat.lt_of_not_le fun within => apart ⟨within, here⟩

/-- Tokens of given kinds and texts, with a blank after each. -/
def layOut : Nat → List (TokenKind × Text) → List Token
  | _, [] => []
  | offset, (kind, text) :: rest =>
    { kind, text, byteOffset := offset } :: layOut (offset + text.length + 1) rest

/-- Messages around a body. -/
def nestMessages (body : List (TokenKind × Text)) : Nat → List (TokenKind × Text)
  | 0 => body
  | n + 1 => (.kwMessage, text "message") :: (.identifier, text "M") :: (.lBrace, text "\x7b") ::
      nestMessages body n ++ [(.rBrace, text "\x7d")]

/-- As many messages as the limit allows, the innermost with `option x = 1;`. -/
def deepOption : Range Token :=
  ⟨0, layOut 0 (nestMessages [(.kwOption, text "option"), (.identifier, text "x"),
    (.equals, text "="), (.intLiteral, text "1"), (.semicolon, text ";")] kMaxParseDepth)⟩

/-- It is valid, and its value stands inside as many constructs as the limit allows. -/
theorem valid_deepOption : ∃ file : FileNode, Valid deepOption file ∧
    file.nesting = kMaxParseDepth ∧ ⟨false, kMaxParseDepth⟩ ∈ file.spots := by
  have accepts : (parseFileWithin 51 deepOption).bimap
      (fun parsed => (parsed.remaining.items.isEmpty, parsed.value.nesting,
        decide (⟨false, kMaxParseDepth⟩ ∈ parsed.value.spots))) Error.message =
      .ok (true, kMaxParseDepth, true) := by decide +kernel
  obtain ⟨parsed, outcome, reads⟩ := Outcome.bimap_eq_ok.mp accepts
  obtain ⟨whole, reads⟩ := Prod.mk.inj reads
  obtain ⟨nests, here⟩ := Prod.mk.inj reads
  exact ⟨parsed.value, ⟨51, parsed, outcome, List.isEmpty_iff.mp whole, rfl⟩, nests,
    of_decide_eq_true here⟩

theorem rejectedForDepth_right_iff_deepOption : ∃ file : FileNode, Valid deepOption file ∧
    ¬ (RejectedForDepth deepOption ↔ kMaxParseDepth < file.nesting) := by
  obtain ⟨file, valid, nests, here⟩ := valid_deepOption
  refine ⟨file, valid, fun right => ?_⟩
  exact (rejectedForDepth_right_iff deepOption file valid).mp right ⟨Nat.le_of_eq nests, here⟩

theorem rejectedForDepth_deepOption : ¬ ∀ tokens file, Valid tokens file →
    (RejectedForDepth tokens ↔ kMaxParseDepth < file.nesting) := by
  intro right
  have rejects : (parseFile deepOption).bimap (fun _ => ()) Error.message = .fail depthExceeded := by
    decide +kernel
  obtain ⟨file, valid, nests, -⟩ := valid_deepOption
  have deep := (right deepOption file valid).mp (Outcome.bimap_eq_fail.mp rejects)
  rw [nests] at deep
  exact lt_irrefl _ deep

end Parse
end Front
end RapidProto
