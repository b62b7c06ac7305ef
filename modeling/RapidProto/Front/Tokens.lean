import RapidProto.Front.Strings

/-!
# The token stream

What the raw tokens of a source are, and what the later passes make of them: tokens that lie one
after the other in the source, with nothing but whitespace and complete comments between them.
-/

namespace RapidProto
namespace Front

/-! ## Raw tokens -/

/-- A complete comment in front of a text: up to the end of its line, or up to the first `*/`. -/
def IsComment (comment rest : Text) : Prop :=
  (∃ body, comment = text "//" ++ body ∧ (∀ c ∈ body, isEolOrNul c = false) ∧
    ∀ c, rest.head? = some c → isEolOrNul c = true) ∨
  ∃ body, comment = text "/*" ++ body ++ text "*/" ∧
    ∀ n < body.length, ¬ text "*/" <+: (body ++ text "*/").drop n

/-- The span is of its class, in front of a text. -/
def RawToken.Fits (token : RawToken) (rest : Text) : Prop :=
  match token.cat with
  | .whitespace => ∀ c ∈ token.span.items, isWhitespace c = true
  | .comment => IsComment token.span.items rest
  | .stringLit => ∃ elements, Spells token.span.items elements
  | .symbol => ∃ c, token.span.items = [c] ∧ isSymbolChar c = true
  | .numeric | .ident => True

theorem meets_lineComment :
    lineComment.Meets (fun start taken value rest => value = ⟨start, taken⟩ ∧ IsComment taken rest)
      (fun _ _ => True) := by
  refine ((meets_tag _).seq (meets_takeWhile _)).recognize.mono ?_ fun _ _ _ => trivial
  rintro start taken value rest ⟨rfl, inner, front, body, rfl, ⟨-, rfl⟩, -, all, stops⟩
  refine ⟨rfl, .inl ⟨body, rfl, fun c met => ?_, fun c first => ?_⟩⟩
  · simpa using all c met
  · simpa using stops c first

theorem meets_blockComment :
    blockComment.Meets (fun start taken value rest => value = ⟨start, taken⟩ ∧ IsComment taken rest)
      (fun _ _ => True) := by
  refine ((meets_tag _).seq ((meets_takeUntil _).seq (meets_tag _)).cut).recognize.mono ?_
    fun _ _ _ => trivial
  rintro start taken value rest ⟨rfl, inner, front, back, rfl, ⟨-, rfl⟩, body, close, rfl,
    ⟨-, -, first⟩, -, rfl⟩
  refine ⟨rfl, .inr ⟨body, (List.append_assoc _ _ _).symm, fun n less found => ?_⟩⟩
  have inside : n ≤ (body ++ text "*/").length := by
    rw [List.length_append]
    omega
  refine first n less (found.trans ?_)
  rw [← List.append_assoc, List.drop_append_of_le_length inside]
  exact List.prefix_append _ _

theorem meets_comment :
    comment.Meets (fun start taken value rest => value = ⟨start, taken⟩ ∧ IsComment taken rest)
      (fun _ _ => True) := by
  refine (meets_lineComment.alt meets_blockComment).mono ?_ fun _ _ _ => trivial
  rintro start taken value rest (line | ⟨block, -⟩)
  · exact line
  · exact block

/-- A parser that only counts as inside its input. -/
theorem Parser.Meets.span {α : Type} {parser : Parser Byte α}
    {good : Nat → Text → α → Text → Prop} {bad : Text → Error → Prop}
    (meets : parser.Meets good bad) :
    (Front.recognize parser).Meets (fun start taken value _ => value = ⟨start, taken⟩)
      (fun _ _ => True) :=
  meets.recognize.mono (fun _ _ _ _ holds => holds.1) fun _ _ _ => trivial

theorem meets_digitPointOrExp :
    digitPointOrExp.Meets (fun start taken value _ => value = ⟨start, taken⟩)
      (fun _ _ => True) := by
  refine ((meets_one _).span.alt ((meets_one _).span.alt
    (((meets_one _).seq (meets_one _).opt).span.alt (meets_one _).span))).mono ?_
    fun _ _ _ => trivial
  rintro start taken value rest (is | ⟨is | ⟨is | ⟨is, -⟩, -⟩, -⟩) <;> exact is

theorem meets_numericLiteral :
    numericLiteral.Meets (fun start taken value _ => value = ⟨start, taken⟩) (fun _ _ => True) :=
  ((meets_tag _).opt.seq ((meets_one _).seq meets_digitPointOrExp.many)).span

theorem meets_identifier :
    identifier.Meets (fun start taken value _ => value = ⟨start, taken⟩) (fun _ _ => True) :=
  ((meets_one _).seq (meets_takeWhile _)).span

/-- One raw token. -/
theorem meets_rawToken :
    Parser.Meets
      (alt (raw .whitespace (takeWhile1 isWhitespace)) (alt (raw .comment comment)
        (alt (raw .stringLit stringLiteral) (alt (raw .numeric numericLiteral)
          (alt (raw .ident identifier) (raw .symbol (recognize (one isSymbolChar))))))))
      (fun start taken value rest => value.span = ⟨start, taken⟩ ∧ value.Fits rest)
      (fun _ _ => True) := by
  refine (((meets_takeWhile1 _).map _).alt ((meets_comment.map _).alt
    ((meets_stringLiteral.map _).alt ((meets_numericLiteral.map _).alt
      ((meets_identifier.map _).alt ((meets_one _).recognize.map _)))))).mono ?_
    fun _ _ _ => trivial
  rintro start taken value rest (⟨span, rfl, rfl, -, all, -⟩ | ⟨⟨span, rfl, rfl, isComment⟩ |
    ⟨⟨span, rfl, rfl, spelled⟩ | ⟨⟨span, rfl, rfl⟩ | ⟨⟨span, rfl, rfl⟩ |
      ⟨⟨span, rfl, rfl, c, rfl, isSymbol⟩, -⟩, -⟩, -⟩, -⟩, -⟩)
  · exact ⟨rfl, all⟩
  · exact ⟨rfl, isComment⟩
  · exact ⟨rfl, spelled⟩
  · exact ⟨rfl, trivial⟩
  · exact ⟨rfl, trivial⟩
  · exact ⟨rfl, c, rfl, isSymbol⟩

theorem meets_tokenStream :
    tokenStream.Meets
      (fun start taken values rest => Pieces (fun start taken (value : RawToken) rest =>
        value.span = ⟨start, taken⟩ ∧ value.Fits rest) start taken values rest)
      (fun _ _ => True) :=
  meets_rawToken.many.mono (fun _ _ _ _ holds => holds.1) fun _ _ _ => trivial

/-- The raw tokens lie one after the other in the source. -/
def Laid (source : Text) : (start : Nat) → List RawToken → (stop : Nat) → Prop
  | start, [], stop => start = stop
  | start, token :: raws, stop =>
    token.span.data = start ∧ token.span.items ≠ [] ∧
      source.drop start = token.span.items ++ source.drop (start + token.span.items.length) ∧
      token.Fits (source.drop (start + token.span.items.length)) ∧
      Laid source (start + token.span.items.length) raws stop

theorem laid_of_pieces {source : Text} {start : Nat} {taken : Text} {raws : List RawToken}
    {rest : Text}
    (pieces : Pieces (fun start taken (value : RawToken) rest =>
      value.span = ⟨start, taken⟩ ∧ value.Fits rest) start taken raws rest)
    (here : source.drop start = taken ++ rest) :
    Laid source start raws (start + taken.length) ∧
      raws.flatMap (fun token => token.span.items) = taken := by
  induction pieces with
  | nil => exact ⟨rfl, rfl⟩
  | @cons start front back token raws rest first nonempty _ ih =>
      obtain ⟨spanIs, fits⟩ := first
      have after : source.drop (start + front.length) = back ++ rest := by
        rw [← List.drop_drop, here, List.append_assoc, List.drop_left]
      obtain ⟨laid, joined⟩ := ih after
      rw [List.flatMap_cons, joined, List.length_append, ← Nat.add_assoc]
      simp only [Laid, spanIs]
      refine ⟨⟨trivial, nonempty, ?_, ?_, laid⟩, trivial⟩
      · rw [after, here, List.append_assoc]
      · rw [after]
        exact fits

/-! ## Gaps -/

/-- Whitespace and complete comments from one offset to another. -/
inductive Gap (source : Text) : Nat → Nat → Prop
  | nil (start : Nat) : Gap source start start
  | space {start stop : Nat} {c : Byte} (here : source[start]? = some c)
      (isSpace : isWhitespace c = true) (later : Gap source (start + 1) stop) :
      Gap source start stop
  | comment {start stop : Nat} {comment rest : Text} (here : source.drop start = comment ++ rest)
      (complete : IsComment comment rest) (later : Gap source (start + comment.length) stop) :
      Gap source start stop

namespace Gap

variable {source : Text} {first second third : Nat}

theorem le (gap : Gap source first second) : first ≤ second := by
  induction gap with
  | nil => exact Nat.le_refl _
  | space _ _ _ ih => omega
  | comment _ _ _ ih => omega

theorem trans (gap : Gap source first second) (gap' : Gap source second third) :
    Gap source first third := by
  induction gap with
  | nil => exact gap'
  | space here isSpace _ ih => exact .space here isSpace (ih gap')
  | comment here complete _ ih => exact .comment here complete (ih gap')

/-- A run of whitespace. -/
theorem spaces {spaces rest : Text} (all : ∀ c ∈ spaces, isWhitespace c = true)
    (here : source.drop first = spaces ++ rest) : Gap source first (first + spaces.length) := by
  induction spaces generalizing first with
  | nil => exact .nil first
  | cons c spaces ih =>
      have next : source.drop (first + 1) = spaces ++ rest := by
        rw [← List.drop_drop, here]
        rfl
      have char : source[first]? = some c := by
        rw [← List.head?_drop, here]
        rfl
      have later := ih (fun other met => all other (List.mem_cons_of_mem _ met)) next
      rw [Nat.add_assoc, Nat.add_comm 1] at later
      exact .space char (all c List.mem_cons_self) later

end Gap

/-! ## Tokens -/

/-- A run of string literals with gaps between them, and its decoded value. -/
inductive Merged (source : Text) : (start stop : Nat) → (value : Text) → Prop
  | last {start : Nat} {literal : Text} {elements : List Element}
      (here : literal <+: source.drop start) (spells : Spells literal elements)
      (accepted : elements.any Element.isRejected = false) :
      Merged source start (start + literal.length) (elements.flatMap Element.bytes)
  | more {start next stop : Nat} {literal value : Text} {elements : List Element}
      (here : literal <+: source.drop start) (spells : Spells literal elements)
      (accepted : elements.any Element.isRejected = false)
      (gap : Gap source (start + literal.length) next) (later : Merged source next stop value) :
      Merged source start stop (elements.flatMap Element.bytes ++ value)

/-- The tokens lie one after the other in the source with gaps between them.  A string token is a
whole run of literals: no string token follows it. -/
def Tiles (source : Text) : (start : Nat) → List Token → (stop : Nat) → Prop
  | start, [], stop => Gap source start stop
  | start, token :: tokens, stop =>
    Gap source start token.byteOffset ∧ token.text ≠ [] ∧
      token.text <+: source.drop token.byteOffset ∧
      (token.kind = .stringLiteral →
        Merged source token.byteOffset (token.byteOffset + token.text.length) token.strValue ∧
          ∀ next, tokens.head? = some next → next.kind ≠ .stringLiteral) ∧
      Tiles source (token.byteOffset + token.text.length) tokens stop

theorem Tiles.skip {source : Text} {first second stop : Nat} {tokens : List Token}
    (gap : Gap source first second) (tiles : Tiles source second tokens stop) :
    Tiles source first tokens stop := by
  cases tokens with
  | nil => exact gap.trans tiles
  | cons token tokens => exact ⟨gap.trans tiles.1, tiles.2⟩

/-- Tokens that tile a source come at strictly increasing offsets. -/
theorem Tiles.increasing {source : Text} {start stop : Nat} {tokens : List Token}
    (tiles : Tiles source start tokens stop) :
    tokens.Pairwise (fun token later => token.byteOffset < later.byteOffset) ∧
      ∀ token ∈ tokens, start ≤ token.byteOffset := by
  induction tokens generalizing start with
  | nil => exact ⟨List.Pairwise.nil, nofun⟩
  | cons token tokens ih =>
      obtain ⟨gap, nonempty, -, -, rest⟩ := tiles
      obtain ⟨increasing, above⟩ := ih rest
      have length := List.length_pos_of_ne_nil nonempty
      have here := gap.le
      refine ⟨List.pairwise_cons.mpr ⟨fun later met => ?_, increasing⟩, fun later met => ?_⟩
      · have := above later met
        omega
      · rcases List.mem_cons.mp met with rfl | met
        · exact here
        · have := above later met
          omega

/-! ## The later passes -/

section Passes

variable {source : Text}

/-- A span of the source ends inside it. -/
theorem span_le {start : Nat} {span rest : Text} (nonempty : span ≠ [])
    (here : source.drop start = span ++ rest) : start + span.length ≤ source.length := by
  have length := congrArg List.length here
  rw [List.length_drop, List.length_append] at length
  have := List.length_pos_of_ne_nil nonempty
  omega

theorem validateComment_ends (span : Text) (off : Nat) :
    (validateComment span off).Ends (fun _ => True)
      fun error => error.byteOffset < off + span.length := by
  rw [validateComment]
  cases found : span.findIdx? (· == 0) with
  | none => trivial
  | some nul =>
      obtain ⟨inside, -⟩ := List.findIdx?_eq_some_iff_getElem.mp found
      exact Nat.add_lt_add_left inside off

/-- The token becomes a token of its own, and not a string. -/
def RawToken.IsPlain (token : RawToken) : Prop :=
  token.cat ≠ .whitespace ∧ token.cat ≠ .comment ∧ token.cat ≠ .stringLit

/-- What is left after whitespace and comments. -/
theorem skipTrivia_ends {start stop : Nat} (raws : List RawToken)
    (laid : Laid source start raws stop) :
    (skipTrivia raws).Ends
      (fun raws' => ∃ next, Gap source start next ∧ Laid source next raws' stop ∧
        raws'.length ≤ raws.length ∧ ∀ token, raws'.head? = some token →
          token.cat ≠ .whitespace ∧ token.cat ≠ .comment)
      fun error => error.byteOffset ≤ source.length := by
  have stays : ∀ {start : Nat} {token : RawToken} {raws : List RawToken},
      Laid source start (token :: raws) stop →
      token.cat ≠ .whitespace ∧ token.cat ≠ .comment →
      ∃ next, Gap source start next ∧ Laid source next (token :: raws) stop ∧
        (token :: raws).length ≤ (token :: raws).length ∧
        ∀ other, (token :: raws).head? = some other →
          other.cat ≠ .whitespace ∧ other.cat ≠ .comment := by
    intro start token raws laid other
    refine ⟨start, .nil start, laid, Nat.le_refl _, ?_⟩
    rintro _ ⟨⟩
    exact other
  induction raws generalizing start with
  | nil => exact ⟨start, .nil start, laid, Nat.le_refl _, nofun⟩
  | cons token raws ih =>
      obtain ⟨dataIs, nonempty, here, fits, later⟩ := id laid
      have inside := span_le nonempty here
      rw [skipTrivia]
      rw [RawToken.Fits] at fits
      cases cat : token.cat with
      | whitespace =>
          rw [cat] at fits
          refine (ih later).mono ?_ fun _ => id
          rintro raws' ⟨next, gap, laid', shorter, other⟩
          exact ⟨next, (Gap.spaces fits here).trans gap, laid', Nat.le_succ_of_le shorter, other⟩
      | comment =>
          rw [cat] at fits
          refine Outcome.Ends.bind ((validateComment_ends _ _).mono (fun _ => id) ?_) fun _ _ => ?_
          · intro error less
            rw [dataIs] at less
            omega
          · refine (ih later).mono ?_ fun _ => id
            rintro raws' ⟨next, gap, laid', shorter, other⟩
            exact ⟨next, .comment here fits gap, laid', Nat.le_succ_of_le shorter, other⟩
      | stringLit => exact stays laid (by rw [cat]; decide)
      | numeric => exact stays laid (by rw [cat]; decide)
      | ident => exact stays laid (by rw [cat]; decide)
      | symbol => exact stays laid (by rw [cat]; decide)

/-- A string literal in its place is decoded, or an error is reported inside it. -/
theorem decodeString_ends {start : Nat} {token : RawToken} {rest : Text}
    (dataIs : token.span.data = start) (nonempty : token.span.items ≠ [])
    (here : source.drop start = token.span.items ++ rest) (cat : token.cat = .stringLit)
    (fits : token.Fits rest) (value : Text) :
    (decodeString token.span.items token.span.data value).Ends
      (fun value' => ∃ elements, Spells token.span.items elements ∧
        elements.any Element.isRejected = false ∧
          value' = value ++ elements.flatMap Element.bytes)
      fun error => error.byteOffset ≤ source.length := by
  have inside := span_le nonempty here
  rw [RawToken.Fits, cat] at fits
  obtain ⟨elements, spells⟩ := fits
  have decodes := spells.decodes token.span.data value
  cases rejected : elements.any Element.isRejected with
  | true =>
      simp only [rejected, if_true] at decodes
      obtain ⟨offset, message, -, upper, fails⟩ := decodes
      rw [fails]
      show offset ≤ source.length
      rw [dataIs] at upper
      omega
  | false =>
      simp only [rejected, Bool.false_eq_true, if_false] at decodes
      rw [decodes.2]
      exact ⟨elements, spells, rejected, rfl⟩

/-- The literals that follow a literal are merged with it. -/
theorem mergeStrings_ends (turns : Nat) (raws : List RawToken) {start stop : Nat} (value : Text)
    (laid : Laid source start raws stop) (enough : raws.length < turns) :
    (mergeStrings turns raws value start).Ends
      (fun result => ∃ next, Gap source result.2.1 next ∧ Laid source next result.2.2 stop ∧
        result.2.2.length ≤ raws.length ∧
        (∀ token, result.2.2.head? = some token → token.IsPlain) ∧
        (result.1 = value ∧ result.2.1 = start ∨
          ∃ first suffix, Gap source start first ∧ Merged source first result.2.1 suffix ∧
            result.1 = value ++ suffix))
      fun error => error.byteOffset ≤ source.length := by
  induction turns generalizing raws start value with
  | zero => omega
  | succ turns ih =>
      rw [mergeStrings]
      refine (skipTrivia_ends raws laid).bind ?_
      rintro raws' ⟨next, gap, laid', shorter, other⟩
      cases raws' with
      | nil => exact ⟨next, gap, laid', shorter, nofun, .inl ⟨rfl, rfl⟩⟩
      | cons token raws' =>
          dsimp only
          split_ifs with cat
          · obtain ⟨dataIs, nonempty, here, fits, later⟩ := laid'
            rw [List.length_cons] at shorter
            refine (decodeString_ends dataIs nonempty here cat fits value).bind ?_
            rintro value' ⟨elements, spells, accepted, rfl⟩
            rw [dataIs]
            refine (ih raws' (value ++ elements.flatMap Element.bytes) later (by omega)).mono ?_
              fun _ => id
            rintro ⟨value', stop', raws''⟩ ⟨next', gap', laid'', shorter', other', run⟩
            have isFront : token.span.items <+: source.drop next := ⟨_, here.symm⟩
            refine ⟨next', gap', laid'', by omega, other', .inr ⟨next, ?_⟩⟩
            rcases run with ⟨valueIs, stopIs⟩ | ⟨first, suffix, gap'', merged, valueIs⟩
            · refine ⟨elements.flatMap Element.bytes, gap, ?_, valueIs⟩
              dsimp only at stopIs
              rw [stopIs]
              exact .last isFront spells accepted
            · refine ⟨elements.flatMap Element.bytes ++ suffix, gap, ?_, ?_⟩
              · exact .more isFront spells accepted gap'' merged
              · rw [valueIs, List.append_assoc]
          · refine ⟨next, gap, laid', shorter, ?_, .inl ⟨rfl, rfl⟩⟩
            rintro _ ⟨⟩
            exact ⟨(other token rfl).1, (other token rfl).2, cat⟩

end Passes

/-! ## The whole lexer -/

theorem mem_of_lookup {κ ν : Type} [BEq κ] [LawfulBEq κ] {entries : List (κ × ν)} {key : κ}
    {value : ν} (found : entries.lookup key = some value) : (key, value) ∈ entries := by
  obtain ⟨before, after, rfl, -⟩ := List.lookup_eq_some_iff.mp found
  exact List.mem_append_right _ List.mem_cons_self

theorem keywordOrIdentifier_ne (name : Text) : keywordOrIdentifier name ≠ .stringLiteral := by
  have others : ∀ entry ∈ kKeywords, entry.2 ≠ .stringLiteral := by decide
  rw [keywordOrIdentifier]
  cases found : kKeywords.lookup name with
  | none => nofun
  | some kind => exact others (name, kind) (mem_of_lookup found)

theorem symbolKind_ne (c : Byte) : symbolKind c ≠ some .stringLiteral := by
  rw [symbolKind]
  intro found
  have listed := mem_of_lookup found
  simp at listed

theorem classifyNumeric_ne (number : Text) : classifyNumeric number ≠ some .stringLiteral := by
  rw [classifyNumeric]
  split_ifs <;> nofun

section Build

variable {source : Text}

theorem Merged.bounds {start stop : Nat} {value : Text} (merged : Merged source start stop value) :
    start < stop ∧ stop ≤ source.length := by
  have one : ∀ {start : Nat} {literal : Text} {elements : List Element},
      literal <+: source.drop start → Spells literal elements →
      start < start + literal.length ∧ start + literal.length ≤ source.length := by
    rintro start literal elements ⟨rest, here⟩ ⟨quote, body, -, rfl, -⟩
    have inside := span_le (List.cons_ne_nil quote body) here.symm
    rw [List.length_cons] at inside ⊢
    omega
  induction merged with
  | last here spells _ => exact one here spells
  | more here spells _ gap _ ih =>
      have first := one here spells
      have := gap.le
      omega

/-- A run of string literals becomes one token. -/
theorem appendStringToken_ends {start stop : Nat} {token : RawToken} {raws : List RawToken}
    (tokens : List Token) (laid : Laid source start (token :: raws) stop)
    (cat : token.cat = .stringLit) :
    (appendStringToken source token raws tokens).Ends
      (fun result => ∃ string next, result.2 = tokens ++ [string] ∧
        string.kind = .stringLiteral ∧ string.byteOffset = start ∧ string.text ≠ [] ∧
        string.text <+: source.drop start ∧
        Merged source start (start + string.text.length) string.strValue ∧
        Gap source (start + string.text.length) next ∧ Laid source next result.1 stop ∧
        result.1.length ≤ raws.length ∧
        ∀ token, result.1.head? = some token → token.IsPlain)
      fun error => error.byteOffset ≤ source.length := by
  obtain ⟨dataIs, nonempty, here, fits, later⟩ := laid
  have inside := span_le nonempty here
  rw [appendStringToken]
  refine (decodeString_ends dataIs nonempty here cat fits []).bind ?_
  rintro value ⟨elements, spells, accepted, rfl⟩
  dsimp only
  rw [dataIs]
  refine (mergeStrings_ends (raws.length + 1) raws _ later (Nat.lt_succ_self _)).bind ?_
  rintro ⟨value, stop', raws'⟩ ⟨next, gap, laid', shorter, other, run⟩
  have isFront : token.span.items <+: source.drop start := ⟨_, here.symm⟩
  have merged : Merged source start stop' value := by
    rcases run with ⟨valueIs, stopIs⟩ | ⟨first, suffix, gap', merged, valueIs⟩
    · dsimp only at valueIs stopIs
      rw [valueIs, stopIs]
      exact .last isFront spells accepted
    · dsimp only at valueIs
      rw [valueIs]
      exact .more isFront spells accepted gap' merged
  have bounds := merged.bounds
  have length : ((source.drop start).take (stop' - start)).length = stop' - start := by
    rw [List.length_take, List.length_drop]
    omega
  refine ⟨_, next, rfl, rfl, rfl, ?_, List.take_prefix _ _, ?_, ?_, laid', shorter, other⟩
  · apply List.ne_nil_of_length_pos
    dsimp only
    omega
  · dsimp only
    rw [length, Nat.add_sub_cancel' (Nat.le_of_lt bounds.1)]
    exact merged
  · dsimp only
    rw [length, Nat.add_sub_cancel' (Nat.le_of_lt bounds.1)]
    exact gap

/-- What `build_tokens` makes of raw tokens: tokens that tile the same part of the source.  A raw
token becomes a token of its own, only widens the gap, or begins a run of string literals. -/
theorem buildLoop_ends (turns : Nat) (raws : List RawToken) {start stop : Nat} (tokens : List Token)
    (laid : Laid source start raws stop) (enough : raws.length < turns) :
    (buildLoop source turns raws tokens).Ends
      (fun result => ∃ more, result = tokens ++ more ∧ Tiles source start more stop ∧
        ((∀ token, raws.head? = some token → token.IsPlain) →
          ∀ token, more.head? = some token → token.kind ≠ .stringLiteral))
      fun error => error.byteOffset ≤ source.length := by
  induction turns generalizing raws start tokens with
  | zero => omega
  | succ turns ih =>
      cases raws with
      | nil => exact ⟨[], (List.append_nil _).symm, laid ▸ .nil start, nofun⟩
      | cons token raws =>
          have few : raws.length < turns := Nat.lt_of_succ_lt_succ enough
          obtain ⟨dataIs, nonempty, here, fits, later⟩ := id laid
          have inside := span_le nonempty here
          have single : ∀ kind, kind ≠ TokenKind.stringLiteral →
              (buildLoop source turns raws (tokens ++
                [{ kind, text := token.span.items, byteOffset := token.span.data }])).Ends
                (fun result => ∃ more, result = tokens ++ more ∧ Tiles source start more stop ∧
                  ((∀ other, (token :: raws).head? = some other → other.IsPlain) →
                    ∀ next, more.head? = some next → next.kind ≠ .stringLiteral))
                fun error => error.byteOffset ≤ source.length := by
            intro kind notString
            refine (ih raws _ later few).mono ?_ fun _ => id
            rintro result ⟨more, rfl, tiles, -⟩
            refine ⟨{ kind, text := token.span.items, byteOffset := token.span.data } :: more,
              List.append_assoc _ _ _, ?_, ?_⟩
            · rw [Tiles, dataIs]
              exact ⟨.nil start, nonempty, ⟨_, here.symm⟩, fun same => absurd same notString, tiles⟩
            · rintro - next ⟨⟩
              exact notString
          have skipped : ∀ {next : Nat}, Gap source start next → ¬ token.IsPlain →
              Laid source next raws stop →
              (buildLoop source turns raws tokens).Ends
                (fun result => ∃ more, result = tokens ++ more ∧ Tiles source start more stop ∧
                  ((∀ other, (token :: raws).head? = some other → other.IsPlain) →
                    ∀ next, more.head? = some next → next.kind ≠ .stringLiteral))
                fun error => error.byteOffset ≤ source.length := by
            intro next gap trivia laid'
            refine (ih raws tokens laid' few).mono ?_ fun _ => id
            rintro result ⟨more, resultIs, tiles, -⟩
            exact ⟨more, resultIs, tiles.skip gap, fun plain => absurd (plain token rfl) trivia⟩
          rw [buildLoop]
          rw [RawToken.Fits] at fits
          cases cat : token.cat with
          | whitespace =>
              rw [cat] at fits
              exact skipped (Gap.spaces fits here) (fun plain => plain.1 cat) later
          | comment =>
              rw [cat] at fits
              refine Outcome.Ends.bind ((validateComment_ends _ _).mono (fun _ => id) ?_) fun _ _ => ?_
              · intro error less
                rw [dataIs] at less
                omega
              · exact skipped (.comment here fits (.nil _)) (fun plain => plain.2.1 cat) later
          | ident => exact single _ (keywordOrIdentifier_ne _)
          | symbol =>
              rw [cat] at fits
              obtain ⟨c, spanIs, isSymbol⟩ := fits
              have read : readAt token.span.items 0 = .ok c := by
                rw [spanIs]
                rfl
              dsimp only
              rw [read, Outcome.ok_bind]
              cases found : symbolKind c with
              | none =>
                  rw [isSymbolChar, found] at isSymbol
                  cases isSymbol
              | some kind =>
                  exact single kind fun same => symbolKind_ne c (by rw [found, same])
          | numeric =>
              dsimp only
              cases found : classifyNumeric token.span.items with
              | none =>
                  show token.span.data ≤ source.length
                  omega
              | some kind =>
                  exact single kind fun same => classifyNumeric_ne _ (by rw [found, same])
          | stringLit =>
              refine (appendStringToken_ends tokens laid cat).bind ?_
              rintro ⟨raws', tokens'⟩ ⟨string, next, tokensIs, kind, offset, nonempty', isFront,
                merged, gap, laid', shorter, plain⟩
              dsimp only at tokensIs shorter plain laid' ⊢
              rw [tokensIs]
              refine (ih raws' _ laid' (by omega)).mono ?_ fun _ => id
              rintro result ⟨more, rfl, tiles, first⟩
              refine ⟨string :: more, List.append_assoc _ _ _, ?_, ?_⟩
              · rw [Tiles, offset]
                exact ⟨.nil start, nonempty', isFront, fun _ => ⟨merged, first plain⟩,
                  tiles.skip gap⟩
              · intro allPlain
                exact absurd cat (allPlain token rfl).2.2

end Build

theorem lexInput_spec (source : Text) :
    (lexInput source).data ≤ source.length ∧
      (lexInput source).items = source.drop (lexInput source).data := by
  refine ⟨?_, rfl⟩
  rw [lexInput]
  cases bom : hasBom source with
  | false => exact Nat.zero_le _
  | true =>
      have start : source.take 3 = [0xEF, 0xBB, 0xBF] := by simpa [hasBom] using bom
      have length := congrArg List.length start
      rw [List.length_take] at length
      simp only [List.length_cons, List.length_nil] at length
      simp only [if_true]
      omega

/-- If lexing succeeds, the raw tokens join to the source without its byte-order mark, and the
tokens tile it: at strictly increasing offsets, each the slice at its offset, with whitespace and
complete comments between them and every run of string literals merged.  If it fails, the offset is
inside the source. -/
theorem lex_spec (source : Text) :
    (lex source).Ends
      (fun tokens =>
        (∃ raws, tokenStream (lexInput source) = .ok ⟨⟨source.length, []⟩, raws⟩ ∧
          raws.flatMap (fun token => token.span.items) = (lexInput source).items) ∧
        tokens.Pairwise (fun token later => token.byteOffset < later.byteOffset) ∧
        Tiles source (lexInput source).data tokens source.length)
      fun error => error.byteOffset ≤ source.length := by
  obtain ⟨startInside, itemsIs⟩ := lexInput_spec source
  have length := congrArg List.length itemsIs
  rw [List.length_drop] at length
  have stream := meets_tokenStream (lexInput source)
  rw [lex]
  cases outcome : tokenStream (lexInput source) with
  | outside => exact (outcome ▸ stream).elim
  | spin => exact (outcome ▸ stream).elim
  | fail error =>
      rw [outcome] at stream
      have inside := stream.1
      show error.byteOffset + (lexInput source).data ≤ source.length
      omega
  | ok parsed =>
      rw [outcome] at stream
      obtain ⟨taken, split, start, pieces⟩ := stream
      obtain ⟨laid, joined⟩ := laid_of_pieces pieces (itemsIs.symm.trans split)
      rw [Outcome.mapError_ok, Outcome.ok_bind]
      refine (buildLoop_ends (parsed.value.length + 1) parsed.value [] laid
        (Nat.lt_succ_self _)).bind ?_
      rintro tokens ⟨more, rfl, tiles, -⟩
      have total := congrArg List.length split
      rw [List.length_append] at total
      cases rest : parsed.remaining.items with
      | nil =>
          rw [rest, List.length_nil] at total
          have reached : (lexInput source).data + taken.length = source.length := by omega
          rw [reached] at tiles
          rw [reached] at start
          rw [rest, List.append_nil] at split
          refine ⟨⟨parsed.value, ?_, joined.trans split.symm⟩, tiles.increasing.1, tiles⟩
          obtain ⟨⟨data, items⟩, raws⟩ := parsed
          dsimp only at rest start
          rw [rest, start]
      | cons c rest =>
          show parsed.remaining.data ≤ source.length
          omega

end Front
end RapidProto
