import Mathlib.Data.List.TakeWhile
import RapidProto.Front.Ast
import RapidProto.Outcome

/-!
# Parser combinators

The combinators of `combinators.hpp` over ranges of any element type.  A range knows where it
starts, so what was consumed is a difference of positions as in the source.  `seq` and `alt` take
two parsers; nested to the right they are the variadic ones.  A contract says what a parser takes
off its input when it succeeds and what its input is like when it fails, and every combinator has a
rule for it.
-/

namespace RapidProto
namespace Front

/-! ## Ranges and parsers -/

/-- A view of a contiguous sequence. -/
structure Range (ι : Type) where
  /-- Position of the first element in the buffer. -/
  data : Nat
  /-- The elements. -/
  items : List ι

/-- A value and the input that is left. -/
structure Parsed (ο ι : Type) where
  remaining : Range ι
  value : ο

/-- A parser. -/
abbrev Parser (ι ο : Type) := Range ι → Outcome Error (Parsed ο ι)

section Ranges

variable {ι : Type}

/-- `subspan(n)`. -/
def Range.subspan (range : Range ι) (n : Nat) : Range ι := ⟨range.data + n, range.items.drop n⟩

/-- `subspan(0, n)`. -/
def Range.front (range : Range ι) (n : Nat) : Range ι := ⟨range.data, range.items.take n⟩

/-- `consumed`. -/
def consumed (before after : Range ι) : Nat := after.data - before.data

end Ranges

/-- An error of this parser at a position. -/
def errorAt {α : Type} (byteOffset : Nat) (message : Text) : Outcome Error α :=
  .fail { byteOffset, message }

/-- Make an offset relative to a range that starts earlier. -/
def Error.lift (base : Nat) (error : Error) : Error :=
  { error with byteOffset := error.byteOffset + base }

/-! ## Primitives -/

section Primitives

variable {ι : Type}

/-- `one`. -/
def one (pred : ι → Bool) : Parser ι ι := fun input =>
  match input.items with
  | item :: _ =>
    if pred item then .ok ⟨input.subspan 1, item⟩ else errorAt 0 (text "unexpected input")
  | [] => errorAt 0 (text "unexpected input")

/-- Length of the longest front that satisfies a predicate. -/
def run (pred : ι → Bool) (items : List ι) : Nat := (items.takeWhile pred).length

/-- `take_while`. -/
def takeWhile (pred : ι → Bool) : Parser ι (Range ι) := fun input =>
  let n := run pred input.items
  .ok ⟨input.subspan n, input.front n⟩

/-- `take_while1`. -/
def takeWhile1 (pred : ι → Bool) : Parser ι (Range ι) := fun input =>
  let n := run pred input.items
  if n = 0 then errorAt 0 (text "expected at least one matching element")
  else .ok ⟨input.subspan n, input.front n⟩

/-- `take_till`. -/
def takeTill (pred : ι → Bool) : Parser ι (Range ι) := takeWhile fun item => !pred item

/-- `tag`. -/
def tag (expected : Text) : Parser Byte (Range Byte) := fun input =>
  if input.items.take expected.length = expected then
    .ok ⟨input.subspan expected.length, input.front expected.length⟩
  else errorAt 0 (text "expected \"" ++ expected ++ text "\"")

/-- `find`: position of the first occurrence. -/
def findText (needle : Text) : Text → Option Nat
  | [] => if needle = [] then some 0 else none
  | head :: rest =>
    if (head :: rest).take needle.length = needle then some 0
    else (findText needle rest).map (· + 1)

/-- `take_until`. -/
def takeUntil (needle : Text) : Parser Byte (Range Byte) := fun input =>
  match findText needle input.items with
  | none => errorAt input.items.length (text "expected \"" ++ needle ++ text "\"")
  | some n => .ok ⟨input.subspan n, input.front n⟩

end Primitives

/-! ## Combinators -/

section Combinators

variable {ι α β γ : Type}

/-- `seq` of two parsers. -/
def seq (first : Parser ι α) (second : Parser ι β) : Parser ι (α × β) := fun input => do
  let left ← first input
  let right ← (second left.remaining).mapError (Error.lift (consumed input left.remaining))
  .ok ⟨right.remaining, left.value, right.value⟩

/-- `alt` of two parsers. -/
def alt (first second : Parser ι α) : Parser ι α := fun input =>
  match first input with
  | .fail error =>
    if error.fatal then .fail error
    else
      match second input with
      | .fail other =>
        if other.fatal then .fail other
        else if other.byteOffset ≤ error.byteOffset then .fail error
        else .fail other
      | outcome => outcome
  | outcome => outcome

/-- `cut`. -/
def cut (parser : Parser ι α) : Parser ι α := fun input =>
  (parser input).mapError fun error => { error with fatal := true }

/-- `opt`. -/
def opt (parser : Parser ι α) : Parser ι (Option α) := fun input =>
  match parser input with
  | .ok parsed => .ok ⟨parsed.remaining, some parsed.value⟩
  | .fail error => if error.fatal then .fail error else .ok ⟨input, none⟩
  | .outside => .outside
  | .spin => .spin

/-- The loop of `many`. -/
def manyLoop (parser : Parser ι α) : (turns : Nat) → (rest : Range ι) → (base : Nat) →
    (out : List α) → Outcome Error (Parsed (List α) ι)
  | 0, _, _, _ => .spin
  | turns + 1, rest, base, out =>
    match parser rest with
    | .ok parsed =>
      let advance := consumed rest parsed.remaining
      if advance = 0 then errorAt base (text "many: sub-parser consumed no input")
      else manyLoop parser turns parsed.remaining (base + advance) (out ++ [parsed.value])
    | .fail error => if error.fatal then .fail (error.lift base) else .ok ⟨rest, out⟩
    | .outside => .outside
    | .spin => .spin

/-- `many`. -/
def many (parser : Parser ι α) : Parser ι (List α) := fun input =>
  manyLoop parser (input.items.length + 1) input 0 []

/-- `map`. -/
def map (parser : Parser ι α) (change : α → β) : Parser ι β := fun input => do
  let parsed ← parser input
  .ok ⟨parsed.remaining, change parsed.value⟩

/-- `recognize`. -/
def recognize (parser : Parser ι α) : Parser ι (Range ι) := fun input => do
  let parsed ← parser input
  .ok ⟨parsed.remaining, input.front (consumed input parsed.remaining)⟩

/-- `all_consuming`. -/
def allConsuming (parser : Parser ι α) : Parser ι α := fun input => do
  let parsed ← parser input
  if parsed.remaining.items.isEmpty then .ok parsed
  else errorAt (consumed input parsed.remaining) (text "unexpected trailing input")

/-- `preceded`. -/
def preceded (before : Parser ι α) (body : Parser ι β) : Parser ι β :=
  map (seq before body) Prod.snd

/-- `delimited`. -/
def delimited (before : Parser ι α) (middle : Parser ι β) (after : Parser ι γ) : Parser ι β :=
  map (seq before (seq middle after)) fun values => values.2.1

/-- The loop of `separated_list`.  A separator of no width separates nothing. -/
def separatedLoop (item : Parser ι α) (separator : Parser ι β) : (turns : Nat) →
    (rest : Range ι) → (base : Nat) → (out : List α) → Outcome Error (Parsed (List α) ι)
  | 0, _, _, _ => .spin
  | turns + 1, rest, base, out =>
    match separator rest with
    | .ok separated =>
      let gap := consumed rest separated.remaining
      match item separated.remaining with
      | .ok parsed =>
        let advance := gap + consumed separated.remaining parsed.remaining
        if advance = 0 then .ok ⟨rest, out⟩
        else separatedLoop item separator turns parsed.remaining (base + advance)
          (out ++ [parsed.value])
      | .fail error =>
        if !error.fatal && gap == 0 then .ok ⟨rest, out⟩ else .fail (error.lift (base + gap))
      | .outside => .outside
      | .spin => .spin
    | .fail error => if error.fatal then .fail (error.lift base) else .ok ⟨rest, out⟩
    | .outside => .outside
    | .spin => .spin

/-- `separated_list`. -/
def separatedList (item : Parser ι α) (separator : Parser ι β) : Parser ι (List α) := fun input =>
  match item input with
  | .ok parsed =>
    separatedLoop item separator (input.items.length + 1) parsed.remaining
      (consumed input parsed.remaining) [parsed.value]
  | .fail error => if error.fatal then .fail error else .ok ⟨input, []⟩
  | .outside => .outside
  | .spin => .spin

end Combinators

/-! ## Contracts -/

section Contract

variable {ι α β γ : Type}

/-- A parser takes a front off its input and leaves the rest where it is, or it fails inside its
input.  `good` is about the start, the front, the value and the rest; `bad` about the input. -/
def Parser.Meets (parser : Parser ι α) (good : Nat → List ι → α → List ι → Prop)
    (bad : List ι → Error → Prop) : Prop :=
  ∀ input, (parser input).Ends
    (fun parsed => ∃ taken, input.items = taken ++ parsed.remaining.items ∧
      parsed.remaining.data = input.data + taken.length ∧
      good input.data taken parsed.value parsed.remaining.items)
    (fun error => error.byteOffset ≤ input.items.length ∧ bad input.items error)

variable {good good' : Nat → List ι → α → List ι → Prop} {bad bad' : List ι → Error → Prop}

theorem Parser.Meets.mono {parser : Parser ι α} (meets : parser.Meets good bad)
    (onOk : ∀ start taken value rest, good start taken value rest → good' start taken value rest)
    (onFail : ∀ items error, bad items error → bad' items error) : parser.Meets good' bad' := by
  intro input
  refine (meets input).mono ?_ fun error fails => ⟨fails.1, onFail _ _ fails.2⟩
  rintro parsed ⟨taken, split, start, holds⟩
  exact ⟨taken, split, start, onOk _ _ _ _ holds⟩

theorem consumed_eq {input rest : Range ι} {taken : List ι}
    (start : rest.data = input.data + taken.length) : consumed input rest = taken.length := by
  rw [consumed, start]
  omega

theorem meets_one (pred : ι → Bool) :
    (one pred).Meets (fun _ taken value _ => taken = [value] ∧ pred value = true)
      (fun items error => error.fatal = false ∧
        ∀ item, items.head? = some item → pred item = false) := by
  intro input
  rw [one]
  cases items : input.items with
  | nil => exact ⟨Nat.zero_le _, rfl, nofun⟩
  | cons item rest =>
      cases found : pred item with
      | true =>
          simp only [found, if_true]
          exact ⟨[item], by simp [Range.subspan, items], rfl, rfl, found⟩
      | false =>
          simp only [found, Bool.false_eq_true, if_false]
          refine ⟨Nat.zero_le _, rfl, ?_⟩
          rintro other ⟨⟩
          exact found

/-- The longest front that satisfies a predicate. -/
theorem take_run (pred : ι → Bool) (items : List ι) :
    items.take (run pred items) = items.takeWhile pred ∧
      items.drop (run pred items) = items.dropWhile pred := by
  have split := List.takeWhile_append_dropWhile (l := items) (p := pred)
  rw [run]
  constructor
  · calc items.take (items.takeWhile pred).length
        = (items.takeWhile pred ++ items.dropWhile pred).take (items.takeWhile pred).length := by
          rw [split]
      _ = items.takeWhile pred := List.take_left
  · calc items.drop (items.takeWhile pred).length
        = (items.takeWhile pred ++ items.dropWhile pred).drop (items.takeWhile pred).length := by
          rw [split]
      _ = items.dropWhile pred := List.drop_left

theorem head?_dropWhile (pred : ι → Bool) (items : List ι) (item : ι)
    (first : (items.dropWhile pred).head? = some item) : pred item = false := by
  have stops := List.head?_dropWhile_not pred items
  rw [first] at stops
  simpa using stops

theorem meets_takeWhile (pred : ι → Bool) :
    (takeWhile pred).Meets
      (fun start taken value rest => value = ⟨start, taken⟩ ∧ (∀ item ∈ taken, pred item = true) ∧
        ∀ item, rest.head? = some item → pred item = false)
      (fun _ _ => False) := by
  intro input
  obtain ⟨front, rest⟩ := take_run pred input.items
  refine ⟨input.items.takeWhile pred, ?_, rfl, ?_, fun item met => List.mem_takeWhile_imp met, ?_⟩
  · simp only [Range.subspan, rest, List.takeWhile_append_dropWhile]
  · simp only [Range.front, front]
  · simp only [Range.subspan, rest]
    exact head?_dropWhile pred input.items

theorem meets_takeWhile1 (pred : ι → Bool) :
    (takeWhile1 pred).Meets
      (fun start taken value rest => value = ⟨start, taken⟩ ∧ taken ≠ [] ∧
        (∀ item ∈ taken, pred item = true) ∧ ∀ item, rest.head? = some item → pred item = false)
      (fun items error => error.fatal = false ∧
        ∀ item, items.head? = some item → pred item = false) := by
  intro input
  rw [takeWhile1]
  by_cases stuck : run pred input.items = 0
  · simp only [stuck, if_true]
    refine ⟨Nat.zero_le _, rfl, fun item first => ?_⟩
    obtain ⟨-, rest⟩ := take_run pred input.items
    rw [stuck, List.drop_zero] at rest
    rw [rest] at first
    exact head?_dropWhile pred input.items item first
  · simp only [stuck, if_false]
    have longest := meets_takeWhile pred input
    refine longest.mono ?_ fun _ impossible => impossible.2.elim
    rintro parsed ⟨taken, split, start, value, all, stops⟩
    refine ⟨taken, split, start, value, ?_, all, stops⟩
    rintro rfl
    apply stuck
    rw [List.nil_append] at split
    cases items : input.items with
    | nil => rfl
    | cons item rest =>
        rw [run, List.takeWhile_cons, stops item (by rw [← split, items]; rfl)]
        rfl

theorem meets_tag (expected : Text) :
    (tag expected).Meets
      (fun start taken value _ => value = ⟨start, taken⟩ ∧ taken = expected)
      (fun items error => error.fatal = false ∧ ¬ expected <+: items) := by
  intro input
  rw [tag]
  split_ifs with found
  · refine ⟨expected, ?_, rfl, ?_, rfl⟩
    · simp only [Range.subspan]
      conv_lhs => rw [← List.take_append_drop expected.length input.items, found]
    · simp only [Range.front, found]
  · refine ⟨Nat.zero_le _, rfl, fun isFront => found ?_⟩
    obtain ⟨rest, items⟩ := isFront
    rw [← items, List.take_left]

/-- The first occurrence of a text. -/
theorem findText_spec (needle items : Text) :
    match findText needle items with
    | some n => needle <+: items.drop n ∧ n ≤ items.length ∧
        ∀ earlier < n, ¬ needle <+: items.drop earlier
    | none => ∀ n, ¬ needle <+: items.drop n := by
  induction items with
  | nil =>
      rw [findText]
      split_ifs with empty
      · exact ⟨by simp [empty], Nat.le_refl _, nofun⟩
      · intro n found
        rw [List.drop_nil, List.prefix_nil] at found
        exact empty found
  | cons head rest ih =>
      rw [findText]
      split_ifs with here
      · refine ⟨⟨(head :: rest).drop needle.length, ?_⟩, Nat.zero_le _, nofun⟩
        rw [List.drop_zero]
        conv_rhs => rw [← List.take_append_drop needle.length (head :: rest), here]
      · have notHere : ¬ needle <+: head :: rest := by
          rintro ⟨tail, items⟩
          exact here (by rw [← items, List.take_left])
        cases found : findText needle rest with
        | none =>
            rw [found] at ih
            intro n
            cases n with
            | zero => exact notHere
            | succ n => exact ih n
        | some n =>
            rw [found] at ih
            refine ⟨ih.1, Nat.succ_le_succ ih.2.1, fun earlier less => ?_⟩
            cases earlier with
            | zero => exact notHere
            | succ earlier => exact ih.2.2 earlier (Nat.lt_of_succ_lt_succ less)

theorem meets_takeUntil (needle : Text) :
    (takeUntil needle).Meets
      (fun start taken value rest => value = ⟨start, taken⟩ ∧ needle <+: rest ∧
        ∀ earlier < taken.length, ¬ needle <+: (taken ++ rest).drop earlier)
      (fun items error => error.fatal = false ∧ ∀ n, ¬ needle <+: items.drop n) := by
  intro input
  have spec := findText_spec needle input.items
  rw [takeUntil]
  cases found : findText needle input.items with
  | none =>
      rw [found] at spec
      exact ⟨Nat.le_refl _, rfl, spec⟩
  | some n =>
      rw [found] at spec
      obtain ⟨isFront, small, first⟩ := spec
      have length : (input.items.take n).length = n := by
        rw [List.length_take]
        omega
      refine ⟨input.items.take n, (List.take_append_drop n input.items).symm, ?_, rfl, isFront, ?_⟩
      · rw [length]
        rfl
      · intro earlier less
        rw [length] at less
        simp only [Range.subspan, List.take_append_drop]
        exact first earlier less

theorem Parser.Meets.seq {first : Parser ι α} {second : Parser ι β}
    {good : Nat → List ι → α → List ι → Prop} {good' : Nat → List ι → β → List ι → Prop}
    {bad bad' : List ι → Error → Prop} (meets : first.Meets good bad)
    (meets' : second.Meets good' bad') :
    (Front.seq first second).Meets
      (fun start taken value rest => ∃ front back, taken = front ++ back ∧
        good start front value.1 (back ++ rest) ∧ good' (start + front.length) back value.2 rest)
      (fun items error => bad items error ∨ ∃ front back value inner,
        items = front ++ back ∧ (∃ start, good start front value back) ∧ bad' back inner ∧
          error.fatal = inner.fatal) := by
  intro input
  rw [Front.seq]
  refine Outcome.Ends.bind
    ((meets input).mono (fun _ => id) fun error fails => ⟨fails.1, .inl fails.2⟩) ?_
  · rintro left ⟨front, split, start, holds⟩
    have ends := meets' left.remaining
    cases outcome : second left.remaining with
    | ok right =>
        rw [outcome] at ends
        obtain ⟨back, split', start', holds'⟩ := ends
        refine ⟨front ++ back, ?_, ?_, front, back, rfl, ?_, ?_⟩
        · rw [split, split', List.append_assoc]
        · rw [start', start, List.length_append]
          omega
        · rw [← split']
          exact holds
        · rw [← start]
          exact holds'
    | fail error =>
        rw [outcome] at ends
        refine ⟨?_, .inr ⟨front, left.remaining.items, left.value, error, split, ⟨_, holds⟩, ends.2,
          rfl⟩⟩
        have inside := ends.1
        simp only [Error.lift, consumed_eq start, split, List.length_append]
        omega
    | outside => exact (outcome ▸ ends).elim
    | spin => exact (outcome ▸ ends).elim

theorem Parser.Meets.alt {first second : Parser ι α}
    {good' : Nat → List ι → α → List ι → Prop} {bad' : List ι → Error → Prop}
    (meets : first.Meets good bad) (meets' : second.Meets good' bad') :
    (Front.alt first second).Meets
      (fun start taken value rest => good start taken value rest ∨
        good' start taken value rest ∧ ∃ error, error.fatal = false ∧ bad (taken ++ rest) error)
      (fun items error => (error.fatal = true ∧ bad items error) ∨
        (error.fatal = true ∧ bad' items error) ∨
        error.fatal = false ∧ (∃ inner, bad items inner ∧ inner.fatal = false) ∧
          ∃ inner, bad' items inner ∧ inner.fatal = false) := by
  intro input
  have ends := meets input
  rw [Front.alt]
  cases outcome : first input with
  | ok parsed =>
      rw [outcome] at ends
      obtain ⟨taken, split, start, holds⟩ := ends
      exact ⟨taken, split, start, .inl holds⟩
  | outside => exact (outcome ▸ ends).elim
  | spin => exact (outcome ▸ ends).elim
  | fail error =>
      rw [outcome] at ends
      cases committed : error.fatal with
      | true =>
          simp only [committed, if_true]
          exact ⟨ends.1, .inl ⟨committed, ends.2⟩⟩
      | false =>
          simp only [committed, Bool.false_eq_true, if_false]
          have ends' := meets' input
          cases outcome' : second input with
          | ok parsed =>
              rw [outcome'] at ends'
              obtain ⟨taken, split, start, holds⟩ := ends'
              exact ⟨taken, split, start, .inr ⟨holds, error, committed, split ▸ ends.2⟩⟩
          | outside => exact (outcome' ▸ ends').elim
          | spin => exact (outcome' ▸ ends').elim
          | fail other =>
              rw [outcome'] at ends'
              cases committed' : other.fatal with
              | true =>
                  simp only [committed', if_true]
                  exact ⟨ends'.1, .inr (.inl ⟨committed', ends'.2⟩)⟩
              | false =>
                  have both := (⟨error, ends.2, committed⟩ :
                    ∃ inner, bad input.items inner ∧ inner.fatal = false)
                  have both' := (⟨other, ends'.2, committed'⟩ :
                    ∃ inner, bad' input.items inner ∧ inner.fatal = false)
                  simp only [committed', Bool.false_eq_true, if_false]
                  split_ifs
                  · exact ⟨ends.1, .inr (.inr ⟨committed, both, both'⟩)⟩
                  · exact ⟨ends'.1, .inr (.inr ⟨committed', both, both'⟩)⟩

theorem Parser.Meets.cut {parser : Parser ι α} (meets : parser.Meets good bad) :
    (Front.cut parser).Meets good
      (fun items error => error.fatal = true ∧ ∃ inner, bad items inner) := by
  intro input
  have ends := meets input
  rw [Front.cut]
  cases outcome : parser input with
  | ok parsed =>
      rw [outcome] at ends
      exact ends
  | fail error =>
      rw [outcome] at ends
      exact ⟨ends.1, rfl, error, ends.2⟩
  | outside => exact (outcome ▸ ends).elim
  | spin => exact (outcome ▸ ends).elim

theorem Parser.Meets.opt {parser : Parser ι α} (meets : parser.Meets good bad) :
    (Front.opt parser).Meets
      (fun start taken value rest =>
        match value with
        | some value => good start taken value rest
        | none => taken = [] ∧ ∃ error, error.fatal = false ∧ bad rest error)
      (fun items error => error.fatal = true ∧ bad items error) := by
  intro input
  have ends := meets input
  rw [Front.opt]
  cases outcome : parser input with
  | ok parsed =>
      rw [outcome] at ends
      exact ends
  | fail error =>
      rw [outcome] at ends
      cases committed : error.fatal with
      | true =>
          simp only [committed, if_true]
          exact ⟨ends.1, committed, ends.2⟩
      | false =>
          simp only [committed, Bool.false_eq_true, if_false]
          exact ⟨[], rfl, rfl, rfl, error, committed, ends.2⟩
  | outside => exact (outcome ▸ ends).elim
  | spin => exact (outcome ▸ ends).elim

theorem Parser.Meets.map {parser : Parser ι α} (meets : parser.Meets good bad) (change : α → β) :
    (Front.map parser change).Meets
      (fun start taken value rest => ∃ inner, value = change inner ∧ good start taken inner rest)
      bad := by
  intro input
  rw [Front.map]
  refine (meets input).bind ?_
  rintro parsed ⟨taken, split, start, holds⟩
  exact ⟨taken, split, start, parsed.value, rfl, holds⟩

theorem Parser.Meets.recognize {parser : Parser ι α} (meets : parser.Meets good bad) :
    (Front.recognize parser).Meets
      (fun start taken value rest => value = ⟨start, taken⟩ ∧
        ∃ inner, good start taken inner rest)
      bad := by
  intro input
  rw [Front.recognize]
  refine (meets input).bind ?_
  rintro parsed ⟨taken, split, start, holds⟩
  refine ⟨taken, split, start, ?_, parsed.value, holds⟩
  simp only [consumed_eq start, Range.front, split, List.take_left]

/-- The pieces that `many` has taken one after the other, up to the given rest. -/
inductive Pieces (good : Nat → List ι → α → List ι → Prop) :
    Nat → List ι → List α → List ι → Prop
  | nil (start : Nat) (rest : List ι) : Pieces good start [] [] rest
  | cons {start : Nat} {front back : List ι} {value : α} {values : List α} {rest : List ι}
      (first : good start front value (back ++ rest)) (nonempty : front ≠ [])
      (later : Pieces good (start + front.length) back values rest) :
      Pieces good start (front ++ back) (value :: values) rest

theorem Parser.Meets.manyLoop {parser : Parser ι α} (meets : parser.Meets good bad) (turns : Nat)
    (rest : Range ι) (base : Nat) (out : List α) (enough : rest.items.length < turns) :
    (Front.manyLoop parser turns rest base out).Ends
      (fun parsed => ∃ taken values, rest.items = taken ++ parsed.remaining.items ∧
        parsed.remaining.data = rest.data + taken.length ∧ parsed.value = out ++ values ∧
        Pieces good rest.data taken values parsed.remaining.items ∧
        ∃ error, error.fatal = false ∧ bad parsed.remaining.items error)
      (fun error => error.byteOffset ≤ base + rest.items.length ∧
        (error.fatal = true → ∃ front values back inner, rest.items = front ++ back ∧
          Pieces good rest.data front values back ∧ bad back inner ∧ inner.fatal = true)) := by
  induction turns generalizing rest base out with
  | zero => omega
  | succ turns ih =>
      rw [Front.manyLoop]
      have ends := meets rest
      cases outcome : parser rest with
      | outside => exact (outcome ▸ ends).elim
      | spin => exact (outcome ▸ ends).elim
      | fail error =>
          rw [outcome] at ends
          cases committed : error.fatal with
          | true =>
              simp only [committed, if_true]
              refine ⟨?_, fun _ => ⟨[], [], rest.items, error, rfl, .nil _ _, ends.2, committed⟩⟩
              have inside := ends.1
              simp only [Error.lift]
              omega
          | false =>
              simp only [committed, Bool.false_eq_true, if_false]
              exact ⟨[], [], rfl, rfl, (List.append_nil _).symm, .nil _ _, error, committed, ends.2⟩
      | ok parsed =>
          rw [outcome] at ends
          obtain ⟨front, split, start, holds⟩ := ends
          simp only [consumed_eq start]
          have length := congrArg List.length split
          rw [List.length_append] at length
          split_ifs with idle
          · refine ⟨Nat.le_add_right _ _, fun committed => ?_⟩
            cases committed
          · have moved : front ≠ [] := fun empty => idle (by rw [empty]; rfl)
            refine (ih parsed.remaining (base + front.length) (out ++ [parsed.value])
              (by omega)).mono ?_ ?_
            · rintro final ⟨taken, values, split', start', valueIs, pieces, stops⟩
              refine ⟨front ++ taken, parsed.value :: values, ?_, ?_, ?_, ?_, stops⟩
              · rw [split, split', List.append_assoc]
              · rw [start', start, List.length_append]
                omega
              · rw [valueIs, List.append_assoc, List.singleton_append]
              · rw [split'] at holds
                exact .cons holds moved (start ▸ pieces)
            · rintro error ⟨inside, cause⟩
              refine ⟨by omega, fun committed => ?_⟩
              obtain ⟨front', values, back, inner, split', pieces, fails, committed'⟩ :=
                cause committed
              refine ⟨front ++ front', parsed.value :: values, back, inner, ?_, ?_, fails,
                committed'⟩
              · rw [split, split', List.append_assoc]
              · rw [split'] at holds
                exact .cons holds moved (start ▸ pieces)

/-- `many` takes pieces until its parser fails without being committed. -/
theorem Parser.Meets.many {parser : Parser ι α} (meets : parser.Meets good bad) :
    (Front.many parser).Meets
      (fun start taken values rest => Pieces good start taken values rest ∧
        ∃ error, error.fatal = false ∧ bad rest error)
      (fun items error => error.fatal = true → ∃ start front values back inner,
        items = front ++ back ∧ Pieces good start front values back ∧ bad back inner ∧
          inner.fatal = true) := by
  intro input
  rw [Front.many]
  refine (meets.manyLoop (input.items.length + 1) input 0 [] (by omega)).mono ?_ ?_
  · rintro parsed ⟨taken, values, split, start, valueIs, pieces, stops⟩
    refine ⟨taken, split, start, ?_, stops⟩
    rw [valueIs, List.nil_append]
    exact pieces
  · rintro error ⟨inside, cause⟩
    refine ⟨by omega, fun committed => ?_⟩
    obtain ⟨front, values, back, inner, split, pieces, fails, committed'⟩ := cause committed
    exact ⟨input.data, front, values, back, inner, split, pieces, fails, committed'⟩

end Contract

end Front
end RapidProto
