import RapidProto.Front.Combinators

/-!
# Parsers under a depth bound

Two parsers are compared, one that may still go `left` levels down and one that may go further.  On
every input there is a number of levels that the parse uses: when they are left the two end alike,
and when they are not the bounded one gives up.  The contract also says what the number is after a
success and after a failure that is not committed, and every combinator has a rule for it.
-/

namespace RapidProto
namespace Front

variable {ι α β γ : Type}

/-! ## The contract -/

/-- The parse ended with a committed error of a given text. -/
def GaveUp (reason : Text) (outcome : Outcome Error α) : Prop :=
  ∃ error, outcome = .fail error ∧ error.message = reason ∧ error.fatal = true

/-- A parse that uses so many levels, bounded and not. -/
def Needs (reason : Text) (left used : Nat) (near far : Outcome Error α) : Prop :=
  (used ≤ left → near = far) ∧ (left < used → GaveUp reason near)

/-- A parser under a bound agrees with a parser without, or gives up.  `good` is about what was
taken, the value, the rest and the levels used; `soft` about the input and the levels used when the
failure is not committed. -/
def Paced (reason : Text) (left : Nat) (near far : Parser ι α)
    (good : List ι → α → List ι → Nat → Prop) (soft : List ι → Nat → Prop) : Prop :=
  ∀ input, ∃ used, Needs reason left used (near input) (far input) ∧
    (far input).Ends
      (fun parsed => ∃ taken, input.items = taken ++ parsed.remaining.items ∧
        parsed.remaining.data = input.data + taken.length ∧
        good taken parsed.value parsed.remaining.items used)
      (fun error => error.fatal = false → soft input.items used)

/-- No level is used. -/
def Idle (_items : List ι) (used : Nat) : Prop := used = 0

/-- Every failure is committed. -/
def Never (_items : List ι) (_used : Nat) : Prop := False

/-- The levels used by a success depend on the value only, and some elements are taken. -/
def Costs (reason : Text) (left : Nat) (near far : Parser ι α) (least : Nat) (cost : α → Nat)
    (soft : List ι → Nat → Prop) : Prop :=
  Paced reason left near far (fun taken value _ used => least ≤ taken.length ∧ used = cost value)
    soft

/-- A parser that never goes down. -/
def Plain (reason : Text) (parser : Parser ι α) (least : Nat) (soft : List ι → Nat → Prop) : Prop :=
  ∀ left, Costs reason left parser parser least (fun _ => 0) soft

/-- The largest cost in a list. -/
def highest (cost : α → Nat) (values : List α) : Nat :=
  values.foldr (fun value most => max (cost value) most) 0

@[simp] theorem highest_nil (cost : α → Nat) : highest cost [] = 0 := rfl

@[simp] theorem highest_cons (cost : α → Nat) (value : α) (values : List α) :
    highest cost (value :: values) = max (cost value) (highest cost values) := rfl

@[simp] theorem highest_append (cost : α → Nat) (front back : List α) :
    highest cost (front ++ back) = max (highest cost front) (highest cost back) := by
  induction front with
  | nil => simp
  | cons value front ih =>
      rw [List.cons_append, highest_cons, ih, highest_cons]
      omega

@[simp] theorem highest_map (cost : β → Nat) (change : α → β) (values : List α) :
    highest cost (values.map change) = highest (fun value => cost (change value)) values := by
  induction values with
  | nil => rfl
  | cons value values ih => rw [List.map_cons, highest_cons, ih, highest_cons]

theorem lt_highest {cost : α → Nat} {values : List α} {n : Nat} :
    n < highest cost values ↔ ∃ value ∈ values, n < cost value := by
  induction values with
  | nil => simp
  | cons value values ih =>
      have either : n < max (cost value) (highest cost values) ↔
          n < cost value ∨ n < highest cost values := by omega
      simp only [highest_cons, either, ih, List.mem_cons, exists_eq_or_imp]

@[simp] theorem highest_zero (values : List α) : highest (fun _ => 0) values = 0 := by
  induction values with
  | nil => rfl
  | cons value values ih => rw [highest_cons, ih, Nat.max_zero]

/-! ## Needs -/

variable {reason : Text} {left used used' : Nat}

theorem GaveUp.mapError {outcome : Outcome Error α} (gaveUp : GaveUp reason outcome)
    (report : Error → Error) (text : ∀ error, (report error).message = error.message)
    (fatal : ∀ error, error.fatal = true → (report error).fatal = true) :
    GaveUp reason (outcome.mapError report) := by
  obtain ⟨error, rfl, message, committed⟩ := gaveUp
  exact ⟨report error, rfl, (text error).trans message, fatal error committed⟩

theorem GaveUp.lift {outcome : Outcome Error α} (gaveUp : GaveUp reason outcome) (base : Nat) :
    GaveUp reason (outcome.mapError (Error.lift base)) :=
  gaveUp.mapError _ (fun _ => rfl) fun _ => id

theorem GaveUp.bind {outcome : Outcome Error α} (gaveUp : GaveUp reason outcome)
    (next : α → Outcome Error β) : GaveUp reason (outcome >>= next) := by
  obtain ⟨error, rfl, facts⟩ := gaveUp
  exact ⟨error, rfl, facts⟩

theorem needs_same (outcome : Outcome Error α) : Needs reason left 0 outcome outcome :=
  ⟨fun _ => rfl, fun deep => absurd deep (Nat.not_lt_zero _)⟩

/-- Neither parse goes on after this step. -/
theorem Needs.through {near far : Outcome Error α} (needs : Needs reason left used near far)
    (next : Outcome Error α → Outcome Error β)
    (stuck : ∀ outcome, GaveUp reason outcome → GaveUp reason (next outcome)) :
    Needs reason left used (next near) (next far) :=
  ⟨fun room => congrArg next (needs.1 room), fun deep => stuck near (needs.2 deep)⟩

/-- Two steps one after the other. -/
theorem Needs.follow {near far : Outcome Error α} {near' far' : Outcome Error β}
    (needs : Needs reason left used near far) (gaveUp : GaveUp reason near → GaveUp reason near')
    {middle : Outcome Error β} (step : near = far → near' = middle)
    (needs' : Needs reason left used' middle far') :
    Needs reason left (max used used') near' far' := by
  constructor
  · intro room
    rw [step (needs.1 (by omega)), needs'.1 (by omega)]
  · intro deep
    rcases Nat.lt_or_ge left used with first | first
    · exact gaveUp (needs.2 first)
    · rw [step (needs.1 first)]
      exact needs'.2 (by omega)

/-! ## Refusals -/

/-- The parser fails on the first element of its input. -/
def Refuses (parser : Parser ι α) (input : Range ι) : Prop :=
  parser input = errorAt 0 (text "unexpected input")

section Refusals

variable {input : Range ι}

theorem refuses_one {pred : ι → Bool}
    (stops : ∀ item, input.items.head? = some item → pred item = false) :
    Refuses (one pred) input := by
  rw [Refuses, one]
  cases items : input.items with
  | nil => rfl
  | cons item rest =>
      rw [items] at stops
      simp only [stops item rfl, Bool.false_eq_true, if_false]

theorem Refuses.map {parser : Parser ι α} (refuses : Refuses parser input) (change : α → β) :
    Refuses (Front.map parser change) input := by
  rw [Refuses, Front.map, show parser input = _ from refuses]
  rfl

theorem Refuses.seq {first : Parser ι α} (refuses : Refuses first input) (second : Parser ι β) :
    Refuses (Front.seq first second) input := by
  rw [Refuses, Front.seq, show first input = _ from refuses]
  rfl

theorem Refuses.alt {first second : Parser ι α} (refuses : Refuses first input)
    (refuses' : Refuses second input) : Refuses (Front.alt first second) input := by
  rw [Refuses, Front.alt, show first input = _ from refuses, show second input = _ from refuses']
  rfl

theorem Refuses.optional {first : Parser ι α} {second : Parser ι β} (refuses : Refuses first input)
    (refuses' : Refuses second input) : Refuses (Front.seq (Front.opt first) second) input := by
  have skips : Front.opt first input = .ok ⟨input, none⟩ := by
    rw [Front.opt, show first input = _ from refuses]
    rfl
  rw [Refuses, Front.seq, skips]
  change (second input).mapError (Error.lift (consumed input input)) >>= _ = _
  rw [show second input = _ from refuses', consumed, Nat.sub_self]
  rfl

theorem Refuses.preceded {before : Parser ι α} (refuses : Refuses before input)
    (body : Parser ι β) : Refuses (Front.preceded before body) input :=
  (refuses.seq body).map _

theorem Refuses.delimited {before : Parser ι α} (refuses : Refuses before input)
    (middle : Parser ι β) (after : Parser ι γ) :
    Refuses (Front.delimited before middle after) input :=
  (refuses.seq _).map _

end Refusals

/-! ## Rules -/

section Rules

variable {near far : Parser ι α} {near' far' : Parser ι β}
variable {good good' : List ι → α → List ι → Nat → Prop} {soft soft' : List ι → Nat → Prop}

theorem Paced.mono (paced : Paced reason left near far good soft)
    (onOk : ∀ taken value rest used, good taken value rest used → good' taken value rest used)
    (onFail : ∀ items used, soft items used → soft' items used) :
    Paced reason left near far good' soft' := by
  intro input
  obtain ⟨used, needs, ends⟩ := paced input
  refine ⟨used, needs, ends.mono ?_ fun error fails committed => onFail _ _ (fails committed)⟩
  rintro parsed ⟨taken, split, start, holds⟩
  exact ⟨taken, split, start, onOk _ _ _ _ holds⟩

/-- Inputs that both parsers refuse. -/
theorem Paced.early (paced : Paced reason left near far good soft) (closed : List ι → Prop)
    (nearStops : ∀ input : Range ι, closed input.items → Refuses near input)
    (farStops : ∀ input : Range ι, closed input.items → Refuses far input) :
    Paced reason left near far
      (fun taken value rest used => ¬ closed (taken ++ rest) ∧ good taken value rest used)
      (fun items used => (closed items → used = 0) ∧ (¬ closed items → soft items used)) := by
  classical
  intro input
  by_cases ends : closed input.items
  · refine ⟨0, ?_, ?_⟩
    · rw [nearStops input ends, farStops input ends]
      exact needs_same _
    · rw [farStops input ends]
      exact fun _ => And.intro (fun _ => rfl) fun goesOn => absurd ends goesOn
  · obtain ⟨used, needs, outcome⟩ := paced input
    refine ⟨used, needs, outcome.mono ?_ fun _ fails committed =>
      ⟨fun closes => absurd closes ends, fun _ => fails committed⟩⟩
    rintro parsed ⟨taken, split, start, holds⟩
    exact ⟨taken, split, start, split ▸ ends, holds⟩

theorem paced_one (pred : ι → Bool) :
    Paced reason left (one pred) (one pred)
      (fun taken value _ used => taken = [value] ∧ pred value = true ∧ used = 0) Idle := by
  intro input
  refine ⟨0, needs_same _, (meets_one pred input).mono ?_ fun _ _ _ => rfl⟩
  rintro parsed ⟨taken, split, start, single, holds⟩
  exact ⟨taken, split, start, single, holds, rfl⟩

theorem Paced.map (paced : Paced reason left near far good soft) (change : α → γ) :
    Paced reason left (Front.map near change) (Front.map far change)
      (fun taken value rest used => ∃ inner, value = change inner ∧ good taken inner rest used)
      soft := by
  intro input
  obtain ⟨used, needs, ends⟩ := paced input
  refine ⟨used, needs.through _ fun _ gaveUp => gaveUp.bind _, ?_⟩
  refine Outcome.Ends.bind ends ?_
  rintro parsed ⟨taken, split, start, holds⟩
  exact ⟨taken, split, start, parsed.value, rfl, holds⟩

theorem Paced.cut (paced : Paced reason left near far good soft) :
    Paced reason left (Front.cut near) (Front.cut far) good Never := by
  intro input
  obtain ⟨used, needs, ends⟩ := paced input
  refine ⟨used, needs.through _ fun _ gaveUp => gaveUp.mapError _ (fun _ => rfl) fun _ _ => rfl, ?_⟩
  refine Outcome.Ends.mapError ends _ fun error fails committed => ?_
  cases committed

theorem Paced.opt (paced : Paced reason left near far good soft) :
    Paced reason left (Front.opt near) (Front.opt far)
      (fun taken value rest used =>
        match value with
        | some value => good taken value rest used
        | none => taken = [] ∧ soft rest used)
      Never := by
  intro input
  obtain ⟨used, needs, ends⟩ := paced input
  refine ⟨used, ?_, ?_⟩
  · constructor
    · intro room
      rw [Front.opt, Front.opt, needs.1 room]
    · intro deep
      obtain ⟨error, fails, message, committed⟩ := needs.2 deep
      refine ⟨error, ?_, message, committed⟩
      simp only [Front.opt, fails, committed, if_true]
  · rw [Front.opt]
    cases outcome : far input with
    | ok parsed =>
        rw [outcome] at ends
        exact ends
    | fail error =>
        rw [outcome] at ends
        cases committed : error.fatal with
        | true =>
            simp only [committed, if_true]
            exact fun impossible => absurd (committed.symm.trans impossible) (by simp)
        | false =>
            simp only [committed, Bool.false_eq_true, if_false]
            exact ⟨[], rfl, rfl, rfl, ends committed⟩
    | outside => exact (outcome ▸ ends).elim
    | spin => exact (outcome ▸ ends).elim

theorem Paced.seq {good' : List ι → β → List ι → Nat → Prop}
    (paced : Paced reason left near far good soft)
    (paced' : Paced reason left near' far' good' soft') :
    Paced reason left (Front.seq near near') (Front.seq far far')
      (fun taken value rest used => ∃ front back first second, taken = front ++ back ∧
        good front value.1 (back ++ rest) first ∧ good' back value.2 rest second ∧
        used = max first second)
      (fun items used => soft items used ∨ ∃ front back value first second,
        items = front ++ back ∧ good front value back first ∧ soft' back second ∧
          used = max first second) := by
  intro input
  obtain ⟨used, needs, ends⟩ := paced input
  simp only [Front.seq]
  cases outcome : far input with
  | outside => exact (outcome ▸ ends).elim
  | spin => exact (outcome ▸ ends).elim
  | fail error =>
      rw [outcome] at ends needs
      exact ⟨used, needs.through (fun outcome => outcome >>= _) fun _ gaveUp =>
        gaveUp.bind _, fun fails => .inl (ends fails)⟩
  | ok parsed =>
      rw [outcome] at ends needs
      obtain ⟨front, split, start, holds⟩ := ends
      obtain ⟨used', needs', ends'⟩ := paced' parsed.remaining
      refine ⟨max used used', ?_, ?_⟩
      · refine needs.follow (fun gaveUp => gaveUp.bind _) (fun same => by rw [same]) ?_
        exact needs'.through (fun outcome =>
          outcome.mapError (Error.lift (consumed input parsed.remaining)) >>= _) fun _ gaveUp =>
            (gaveUp.lift _).bind _
      · simp only [Outcome.ok_bind]
        cases outcome' : far' parsed.remaining with
        | outside => exact (outcome' ▸ ends').elim
        | spin => exact (outcome' ▸ ends').elim
        | fail error =>
            rw [outcome'] at ends'
            exact fun fails =>
              .inr ⟨front, _, parsed.value, used, used', split, holds, ends' fails, rfl⟩
        | ok last =>
            rw [outcome'] at ends'
            obtain ⟨back, split', start', holds'⟩ := ends'
            refine ⟨front ++ back, ?_, ?_, front, back, used, used', rfl, ?_, holds', rfl⟩
            · rw [split, split', List.append_assoc]
            · rw [start', start, List.length_append]
              omega
            · rw [← split']
              exact holds

/-- What `alt` makes of its second parse when the first one failed. -/
def secondChoice (error : Error) : Outcome Error (Parsed α ι) → Outcome Error (Parsed α ι)
  | .fail other =>
    if other.fatal then .fail other
    else if other.byteOffset ≤ error.byteOffset then .fail error
    else .fail other
  | outcome => outcome

theorem alt_of_fail {first : Parser ι α} {input : Range ι} {error : Error}
    (fails : first input = .fail error) (uncommitted : error.fatal = false)
    (second : Parser ι α) : Front.alt first second input = secondChoice error (second input) := by
  simp only [Front.alt, fails, uncommitted, Bool.false_eq_true, if_false]
  cases second input <;> rfl

theorem Paced.alt {second second' : Parser ι α} {good' : List ι → α → List ι → Nat → Prop}
    (paced : Paced reason left near far good soft)
    (paced' : Paced reason left second second' good' soft') :
    Paced reason left (Front.alt near second) (Front.alt far second')
      (fun taken value rest used => good taken value rest used ∨ ∃ first later,
        soft (taken ++ rest) first ∧ good' taken value rest later ∧ used = max first later)
      (fun items used => ∃ first later, soft items first ∧ soft' items later ∧
        used = max first later) := by
  intro input
  obtain ⟨used, needs, ends⟩ := paced input
  have gives : GaveUp reason (near input) → GaveUp reason (Front.alt near second input) := by
    rintro ⟨error, fails, message, committed⟩
    refine ⟨error, ?_, message, committed⟩
    simp only [Front.alt, fails, committed, if_true]
  cases outcome : far input with
  | outside => exact (outcome ▸ ends).elim
  | spin => exact (outcome ▸ ends).elim
  | ok parsed =>
      rw [outcome] at ends needs
      obtain ⟨taken, split, start, holds⟩ := ends
      refine ⟨used, ⟨fun room => ?_, fun deep => gives (needs.2 deep)⟩, ?_⟩
      · simp only [Front.alt, outcome, needs.1 room]
      · simp only [Front.alt, outcome]
        exact ⟨taken, split, start, .inl holds⟩
  | fail error =>
      rw [outcome] at ends needs
      cases committed : error.fatal with
      | true =>
          refine ⟨used, ⟨fun room => ?_, fun deep => gives (needs.2 deep)⟩, ?_⟩
          · simp only [Front.alt, outcome, needs.1 room, committed, if_true]
          · simp only [Front.alt, outcome, committed, if_true]
            exact fun impossible => absurd (committed.symm.trans impossible) (by simp)
      | false =>
          have skipped := ends committed
          obtain ⟨used', needs', ends'⟩ := paced' input
          refine ⟨max used used', ?_, ?_⟩
          · refine needs.follow gives (fun same => alt_of_fail same committed second) ?_
            rw [alt_of_fail outcome committed]
            refine needs'.through _ ?_
            rintro _ ⟨inner, rfl, message, fatal⟩
            refine ⟨inner, ?_, message, fatal⟩
            simp only [secondChoice, fatal, if_true]
          · rw [alt_of_fail outcome committed]
            cases outcome' : second' input with
            | outside => exact (outcome' ▸ ends').elim
            | spin => exact (outcome' ▸ ends').elim
            | ok parsed =>
                rw [outcome'] at ends'
                obtain ⟨taken, split, start, holds⟩ := ends'
                exact ⟨taken, split, start, .inr ⟨used, used', split ▸ skipped, holds, rfl⟩⟩
            | fail other =>
                rw [outcome'] at ends'
                cases committed' : other.fatal with
                | true =>
                    simp only [secondChoice, committed', if_true]
                    exact fun impossible => absurd (committed'.symm.trans impossible) (by simp)
                | false =>
                    have both := (⟨used, used', skipped, ends' committed', rfl⟩ :
                      ∃ first later, soft input.items first ∧ soft' input.items later ∧
                        max used used' = max first later)
                    simp only [secondChoice, committed', Bool.false_eq_true, if_false]
                    split_ifs
                    · exact fun _ => both
                    · exact fun _ => both

/-- Alternatives that use no level when they do not match. -/
theorem Paced.orElse {second second' : Parser ι α} (paced : Paced reason left near far good Idle)
    (paced' : Paced reason left second second' good Idle) :
    Paced reason left (Front.alt near second) (Front.alt far second') good Idle := by
  refine (paced.alt paced').mono ?_ ?_
  · rintro taken value rest used (holds | ⟨first, later, idle, holds, rfl⟩)
    · exact holds
    · rwa [show first = 0 from idle, Nat.zero_max]
  · rintro items used ⟨first, later, idle, idle', rfl⟩
    rw [show first = 0 from idle, show later = 0 from idle']
    rfl

end Rules

/-! ## Repetition -/

section Repetition

variable {near far : Parser ι α} {near' far' : Parser ι β} {least : Nat}
variable {cost : α → Nat} {soft : List ι → Nat → Prop}

theorem Costs.manyLoop (costs : Costs reason left near far (least + 1) cost soft) (turns : Nat)
    (rest : Range ι) (base : Nat) (out : List α) (enough : rest.items.length < turns) :
    ∃ used, Needs reason left used (Front.manyLoop near turns rest base out)
        (Front.manyLoop far turns rest base out) ∧
      (Front.manyLoop far turns rest base out).Ends
        (fun parsed => ∃ taken values last, rest.items = taken ++ parsed.remaining.items ∧
          parsed.remaining.data = rest.data + taken.length ∧ parsed.value = out ++ values ∧
          soft parsed.remaining.items last ∧ used = max (highest cost values) last)
        (fun error => error.fatal = true) := by
  induction turns generalizing rest base out with
  | zero => omega
  | succ turns ih =>
      obtain ⟨used, needs, ends⟩ := costs rest
      have gives : GaveUp reason (near rest) →
          GaveUp reason (Front.manyLoop near (turns + 1) rest base out) := by
        rintro ⟨error, fails, message, committed⟩
        refine ⟨error.lift base, ?_, message, committed⟩
        simp only [Front.manyLoop, fails, committed, if_true]
      cases outcome : far rest with
      | outside => exact (outcome ▸ ends).elim
      | spin => exact (outcome ▸ ends).elim
      | fail error =>
          rw [outcome] at ends needs
          refine ⟨used, ⟨fun room => ?_, fun deep => gives (needs.2 deep)⟩, ?_⟩
          · simp only [Front.manyLoop, needs.1 room, outcome]
          · cases committed : error.fatal with
            | true =>
                simp only [Front.manyLoop, outcome, committed, if_true]
                exact committed
            | false =>
                simp only [Front.manyLoop, outcome, committed, Bool.false_eq_true, if_false]
                exact ⟨[], [], used, rfl, rfl, (List.append_nil out).symm, ends committed,
                  (Nat.zero_max used).symm⟩
      | ok parsed =>
          rw [outcome] at ends needs
          obtain ⟨front, split, start, long, isCost⟩ := ends
          have length := congrArg List.length split
          rw [List.length_append] at length
          have step : ∀ parser : Parser ι α, parser rest = .ok parsed →
              Front.manyLoop parser (turns + 1) rest base out =
                Front.manyLoop parser turns parsed.remaining (base + front.length)
                  (out ++ [parsed.value]) := by
            intro parser same
            rw [Front.manyLoop, same]
            simp only [consumed_eq start]
            exact if_neg (by omega)
          obtain ⟨used', needs', ends'⟩ := ih parsed.remaining (base + front.length)
            (out ++ [parsed.value]) (by omega)
          refine ⟨max used used', ?_, ?_⟩
          · rw [step far outcome]
            exact needs.follow gives (fun same => step near same) needs'
          · rw [step far outcome]
            refine ends'.mono ?_ fun _ => id
            rintro final ⟨taken, values, last, split', start', valueIs, stops, total⟩
            refine ⟨front ++ taken, parsed.value :: values, last, ?_, ?_, ?_, stops, ?_⟩
            · rw [split, split', List.append_assoc]
            · rw [start', start, List.length_append]
              omega
            · rw [valueIs, List.append_assoc, List.singleton_append]
            · rw [highest_cons, total, isCost]
              omega

/-- `many` uses what its dearest piece uses, and what the attempt uses that ends it. -/
theorem Costs.many (costs : Costs reason left near far (least + 1) cost soft) :
    Paced reason left (Front.many near) (Front.many far)
      (fun _ values rest used => ∃ last, soft rest last ∧ used = max (highest cost values) last)
      Never := by
  intro input
  obtain ⟨used, needs, ends⟩ := costs.manyLoop (input.items.length + 1) input 0 [] (by omega)
  refine ⟨used, needs, ends.mono ?_ fun error committed impossible => ?_⟩
  · rintro parsed ⟨taken, values, last, split, start, valueIs, stops, total⟩
    exact ⟨taken, split, start, last, stops, by rwa [valueIs]⟩
  · exact absurd (committed.symm.trans impossible) (by simp)

/-- One more piece of a separated list. -/
def separatedStep (item : Parser ι α) (separator : Parser ι β) (turns : Nat) (rest : Range ι)
    (base : Nat) (out : List α) (gap : Nat) (middle : Range ι) :
    Outcome Error (Parsed α ι) → Outcome Error (Parsed (List α) ι)
  | .ok parsed =>
    if gap + consumed middle parsed.remaining = 0 then .ok ⟨rest, out⟩
    else separatedLoop item separator turns parsed.remaining
      (base + (gap + consumed middle parsed.remaining)) (out ++ [parsed.value])
  | .fail error =>
    if !error.fatal && gap == 0 then .ok ⟨rest, out⟩ else .fail (error.lift (base + gap))
  | .outside => .outside
  | .spin => .spin

theorem separatedLoop_succ (item : Parser ι α) (separator : Parser ι β) (turns : Nat)
    (rest : Range ι) (base : Nat) (out : List α) :
    separatedLoop item separator (turns + 1) rest base out =
      match separator rest with
      | .ok separated =>
        separatedStep item separator turns rest base out (consumed rest separated.remaining)
          separated.remaining (item separated.remaining)
      | .fail error => if error.fatal then .fail (error.lift base) else .ok ⟨rest, out⟩
      | .outside => .outside
      | .spin => .spin := by
  rw [separatedLoop]
  cases separator rest with
  | ok separated =>
      dsimp only
      cases item separated.remaining <;> rfl
  | fail error => rfl
  | outside => rfl
  | spin => rfl

theorem Costs.separatedLoop {separator : Parser ι β}
    (costs : Costs reason left near far least cost soft) (plain : Plain reason separator 1 Idle)
    (turns : Nat) (rest : Range ι) (base : Nat) (out : List α)
    (enough : rest.items.length < turns) :
    ∃ used, Needs reason left used (Front.separatedLoop near separator turns rest base out)
        (Front.separatedLoop far separator turns rest base out) ∧
      (Front.separatedLoop far separator turns rest base out).Ends
        (fun parsed => ∃ taken values, rest.items = taken ++ parsed.remaining.items ∧
          parsed.remaining.data = rest.data + taken.length ∧ parsed.value = out ++ values ∧
          used = highest cost values)
        (fun _ => True) := by
  induction turns generalizing rest base out with
  | zero => omega
  | succ turns ih =>
      obtain ⟨_, -, gapEnds⟩ := plain left rest
      simp only [separatedLoop_succ]
      cases gapOutcome : separator rest with
      | outside => exact (gapOutcome ▸ gapEnds).elim
      | spin => exact (gapOutcome ▸ gapEnds).elim
      | fail error =>
          refine ⟨0, needs_same _, ?_⟩
          dsimp only
          split_ifs
          · trivial
          · exact ⟨[], [], rfl, rfl, (List.append_nil out).symm, rfl⟩
      | ok separated =>
          rw [gapOutcome] at gapEnds
          obtain ⟨gap, gapSplit, gapStart, gapLong, -⟩ := gapEnds
          obtain ⟨used, needs, ends⟩ := costs separated.remaining
          simp only [consumed_eq gapStart]
          have gives : GaveUp reason (near separated.remaining) →
              GaveUp reason (separatedStep near separator turns rest base out gap.length
                separated.remaining (near separated.remaining)) := by
            rintro ⟨error, fails, message, committed⟩
            refine ⟨error.lift (base + gap.length), ?_, message, committed⟩
            rw [fails, separatedStep, committed]
            rfl
          have gapLength := congrArg List.length gapSplit
          rw [List.length_append] at gapLength
          cases outcome : far separated.remaining with
          | outside => exact (outcome ▸ ends).elim
          | spin => exact (outcome ▸ ends).elim
          | fail error =>
              rw [outcome] at needs
              refine ⟨used, ⟨fun room => ?_, fun deep => gives (needs.2 deep)⟩, ?_⟩
              · rw [needs.1 room]
                rfl
              · rw [separatedStep, if_neg]
                · trivial
                · rw [Bool.and_eq_true, beq_iff_eq]
                  omega
          | ok parsed =>
              rw [outcome] at ends needs
              obtain ⟨front, split, start, long, isCost⟩ := ends
              have length := congrArg List.length split
              rw [List.length_append] at length
              have step : ∀ parser : Parser ι α,
                  separatedStep parser separator turns rest base out gap.length
                      separated.remaining (.ok parsed) =
                    Front.separatedLoop parser separator turns parsed.remaining
                      (base + (gap.length + front.length)) (out ++ [parsed.value]) := by
                intro parser
                rw [separatedStep, consumed_eq start]
                exact if_neg (by omega)
              obtain ⟨used', needs', ends'⟩ := ih parsed.remaining
                (base + (gap.length + front.length)) (out ++ [parsed.value]) (by omega)
              refine ⟨max used used', ?_, ?_⟩
              · rw [step far]
                exact needs.follow gives (fun same => by rw [same, step near]) needs'
              · rw [step far]
                refine ends'.mono ?_ fun _ => id
                rintro final ⟨taken, values, split', start', valueIs, total⟩
                refine ⟨gap ++ (front ++ taken), parsed.value :: values, ?_, ?_, ?_, ?_⟩
                · rw [gapSplit, split, split', List.append_assoc, List.append_assoc]
                · rw [start', start, gapStart, List.length_append, List.length_append]
                  omega
                · rw [valueIs, List.append_assoc, List.singleton_append]
                · rw [highest_cons, total, isCost]

/-- A separated list uses what its dearest item uses; an empty one what the attempt at a first item
uses. -/
theorem Costs.separatedList {separator : Parser ι β}
    (costs : Costs reason left near far least cost soft) (plain : Plain reason separator 1 Idle) :
    Paced reason left (Front.separatedList near separator) (Front.separatedList far separator)
      (fun taken values rest used => values = [] ∧ taken = [] ∧ soft rest used ∨
        values ≠ [] ∧ used = highest cost values)
      (fun _ _ => True) := by
  intro input
  obtain ⟨used, needs, ends⟩ := costs input
  have gives : GaveUp reason (near input) →
      GaveUp reason (Front.separatedList near separator input) := by
    rintro ⟨error, fails, message, committed⟩
    refine ⟨error, ?_, message, committed⟩
    simp only [Front.separatedList, fails, committed, if_true]
  cases outcome : far input with
  | outside => exact (outcome ▸ ends).elim
  | spin => exact (outcome ▸ ends).elim
  | fail error =>
      rw [outcome] at ends needs
      refine ⟨used, ⟨fun room => ?_, fun deep => gives (needs.2 deep)⟩, ?_⟩
      · simp only [Front.separatedList, needs.1 room, outcome]
      · cases committed : error.fatal with
        | true =>
            simp only [Front.separatedList, outcome, committed, if_true]
            exact fun _ => trivial
        | false =>
            simp only [Front.separatedList, outcome, committed, Bool.false_eq_true, if_false]
            exact ⟨[], rfl, rfl, .inl ⟨rfl, rfl, ends committed⟩⟩
  | ok parsed =>
      rw [outcome] at ends needs
      obtain ⟨front, split, start, long, isCost⟩ := ends
      have length := congrArg List.length split
      rw [List.length_append] at length
      have step : ∀ parser : Parser ι α, parser input = .ok parsed →
          Front.separatedList parser separator input =
            Front.separatedLoop parser separator (input.items.length + 1) parsed.remaining
              (consumed input parsed.remaining) [parsed.value] := by
        intro parser same
        rw [Front.separatedList, same]
      obtain ⟨used', needs', ends'⟩ := costs.separatedLoop plain (input.items.length + 1)
        parsed.remaining (consumed input parsed.remaining) [parsed.value] (by omega)
      refine ⟨max used used', ?_, ?_⟩
      · rw [step far outcome]
        exact needs.follow gives (fun same => step near same) needs'
      · rw [step far outcome]
        refine ends'.mono ?_ fun _ _ _ => trivial
        rintro final ⟨taken, values, split', start', valueIs, total⟩
        refine ⟨front ++ taken, ?_, ?_, .inr ⟨?_, ?_⟩⟩
        · rw [split, split', List.append_assoc]
        · rw [start', start, List.length_append]
          omega
        · rw [valueIs]
          exact List.cons_ne_nil _ _
        · rw [valueIs, List.singleton_append, highest_cons, total, isCost]

end Repetition

/-! ## The guard -/

/-- One more level on both sides. -/
theorem Paced.deeper {near far : Parser ι α} {good : List ι → α → List ι → Nat → Prop}
    {soft : List ι → Nat → Prop} (paced : Paced reason left near far good soft) :
    Paced reason (left + 1) near far
      (fun taken value rest used => ∃ inside, good taken value rest inside ∧ used = inside + 1)
      (fun items used => ∃ inside, soft items inside ∧ used = inside + 1) := by
  intro input
  obtain ⟨used, needs, ends⟩ := paced input
  refine ⟨used + 1, ⟨fun room => needs.1 (by omega), fun deep => needs.2 (by omega)⟩, ?_⟩
  refine ends.mono ?_ fun error fails committed => ⟨used, fails committed, rfl⟩
  rintro parsed ⟨taken, split, start, holds⟩
  exact ⟨taken, split, start, used, holds, rfl⟩

/-- No level is left. -/
theorem Paced.shut {far : Parser ι α} {good : List ι → α → List ι → Nat → Prop}
    {soft : List ι → Nat → Prop} (paced : Paced reason left far far good soft) {error : Error}
    (message : error.message = reason) (committed : error.fatal = true) :
    Paced reason 0 (fun _ => .fail error) far
      (fun taken value rest used => ∃ inside, good taken value rest inside ∧ used = inside + 1)
      (fun items used => ∃ inside, soft items inside ∧ used = inside + 1) := by
  intro input
  obtain ⟨used, -, ends⟩ := paced.deeper input
  cases used with
  | zero =>
      refine ⟨1, ⟨nofun, fun _ => ⟨error, rfl, message, committed⟩⟩, ends.mono ?_ ?_⟩
      · rintro parsed ⟨taken, -, -, inside, -, impossible⟩
        cases impossible
      · intro inner fails soft
        obtain ⟨inside, -, impossible⟩ := fails soft
        cases impossible
  | succ used => exact ⟨used + 1, ⟨nofun, fun _ => ⟨error, rfl, message, committed⟩⟩, ends⟩

/-- No level is left on either side. -/
theorem paced_shut {error : Error} (message : error.message = reason)
    (committed : error.fatal = true) (good : List ι → α → List ι → Nat → Prop)
    (soft : List ι → Nat → Prop) :
    Paced reason 0 (fun _ => .fail error) (fun _ => .fail error) good soft :=
  fun _ => ⟨1, ⟨nofun, fun _ => ⟨error, rfl, message, committed⟩⟩,
    fun impossible => absurd (committed.symm.trans impossible) (by simp)⟩

/-! ## Costs -/

section Costs

variable {near far : Parser ι α} {near' far' : Parser ι β} {least least' : Nat}
variable {cost : α → Nat} {cost' : β → Nat} {soft soft' : List ι → Nat → Prop}

/-- Give up what is known of failures. -/
theorem Costs.soften (costs : Costs reason left near far least cost soft)
    (implies : ∀ items used, soft items used → soft' items used) :
    Costs reason left near far least cost soft' :=
  Paced.mono costs (fun _ _ _ _ => id) implies

theorem Costs.idle (costs : Costs reason left near far least cost Never) :
    Costs reason left near far least cost Idle :=
  costs.soften fun _ _ => False.elim

theorem Costs.atLeast (costs : Costs reason left near far least cost soft)
    (fewer : least' ≤ least) : Costs reason left near far least' cost soft :=
  Paced.mono costs (fun _ _ _ _ good => ⟨fewer.trans good.1, good.2⟩) fun _ _ => id

theorem Costs.map (costs : Costs reason left near far least cost soft) (change : α → β)
    (same : ∀ value, cost' (change value) = cost value) :
    Costs reason left (Front.map near change) (Front.map far change) least cost' soft := by
  refine (Paced.map costs change).mono ?_ fun _ _ => id
  rintro taken _ rest used ⟨inner, rfl, long, isCost⟩
  exact ⟨long, isCost.trans (same inner).symm⟩

theorem Costs.cut (costs : Costs reason left near far least cost soft) :
    Costs reason left (Front.cut near) (Front.cut far) least cost Never :=
  Paced.cut costs

theorem Costs.alt {near' far' : Parser ι α} (costs : Costs reason left near far least cost Idle)
    (costs' : Costs reason left near' far' least cost Idle) :
    Costs reason left (Front.alt near near') (Front.alt far far') least cost Idle :=
  Paced.orElse costs costs'

theorem Costs.opt (costs : Costs reason left near far least cost Idle) :
    Costs reason left (Front.opt near) (Front.opt far) 0 (fun value => value.elim 0 cost) Never := by
  refine (Paced.opt costs).mono ?_ fun _ _ => id
  intro taken value rest used good
  cases value with
  | none => exact ⟨Nat.zero_le _, good.2⟩
  | some value => exact ⟨Nat.zero_le _, good.2⟩

theorem Costs.many_idle (costs : Costs reason left near far (least + 1) cost Idle) :
    Costs reason left (Front.many near) (Front.many far) 0 (highest cost) Never := by
  refine costs.many.mono ?_ fun _ _ => id
  rintro taken values rest used ⟨last, idle, total⟩
  refine ⟨Nat.zero_le _, ?_⟩
  rw [total, show last = 0 from idle, Nat.max_zero]

/-- Both parts go down. -/
theorem Costs.seq (costs : Costs reason left near far least cost soft)
    (costs' : Costs reason left near' far' least' cost' soft') :
    Costs reason left (Front.seq near near') (Front.seq far far') (least + least')
      (fun value => max (cost value.1) (cost' value.2)) (fun _ _ => True) := by
  refine (Paced.seq costs costs').mono ?_ fun _ _ _ => trivial
  rintro _ value rest used ⟨front, back, first, second, rfl, ⟨long, isCost⟩, ⟨long', isCost'⟩, total⟩
  rw [List.length_append]
  exact ⟨by omega, by rw [total, isCost, isCost']⟩

/-- Only the second part goes down. -/
theorem Costs.after {before : Parser ι α} (plain : Plain reason before least Idle)
    (costs : Costs reason left near' far' least' cost' Idle) :
    Costs reason left (Front.seq before near') (Front.seq before far') (least + least')
      (fun value => cost' value.2) Idle := by
  refine (Paced.seq (plain left) costs).mono ?_ ?_
  · rintro _ value rest used ⟨front, back, first, second, rfl, ⟨long, rfl⟩, ⟨long', isCost⟩, total⟩
    rw [List.length_append]
    exact ⟨by omega, by rw [total, isCost, Nat.zero_max]⟩
  · rintro items used (idle | ⟨front, back, value, first, second, -, ⟨-, rfl⟩, idle, total⟩)
    · exact idle
    · rw [total, show second = 0 from idle]
      rfl

/-- Only the first part goes down, and nothing after it fails without being committed. -/
theorem Costs.before {after : Parser ι β} (costs : Costs reason left near far least cost soft)
    (plain : Plain reason after least' Never) :
    Costs reason left (Front.seq near after) (Front.seq far after) (least + least')
      (fun value => cost value.1) soft := by
  refine (Paced.seq costs (plain left)).mono ?_ ?_
  · rintro _ value rest used ⟨front, back, first, second, rfl, ⟨long, isCost⟩, ⟨long', rfl⟩, total⟩
    rw [List.length_append]
    exact ⟨by omega, by rw [total, isCost, Nat.max_zero]⟩
  · rintro items used (idle | ⟨_, _, _, _, _, _, _, impossible, _⟩)
    · exact idle
    · exact impossible.elim

/-- An optional part in front of one that starts where the optional part cannot. -/
theorem Costs.optThen {closed : List ι → Prop}
    (costs : Costs reason left near far least cost fun items used => closed items → used = 0)
    (paced : Paced reason left near' far'
      (fun taken value rest used => closed (taken ++ rest) ∧ least' ≤ taken.length ∧
        used = cost' value) Never) :
    Costs reason left (Front.seq (Front.opt near) near') (Front.seq (Front.opt far) far') least'
      (fun value => max (value.1.elim 0 cost) (cost' value.2)) Never := by
  refine (Paced.seq (Paced.opt costs) paced).mono ?_ ?_
  · rintro _ ⟨value, later⟩ rest used
      ⟨front, back, first, second, rfl, good, ⟨closes, long, isCost⟩, total⟩
    rw [List.length_append]
    refine ⟨by omega, ?_⟩
    cases value with
    | none => rw [total, good.2 closes, isCost]; rfl
    | some value => rw [total, good.2, isCost]; rfl
  · rintro items used (impossible | ⟨_, _, _, _, _, _, _, impossible, _⟩)
    · exact impossible.elim
    · exact impossible.elim

end Costs

/-! ## Parsers that never go down -/

section Plain

variable {parser : Parser ι α} {parser' : Parser ι β} {least least' : Nat}
variable {soft : List ι → Nat → Prop}

theorem plain_one (pred : ι → Bool) : Plain reason (one pred) 1 Idle := by
  intro left
  refine (paced_one pred).mono ?_ fun _ _ => id
  rintro taken value rest used ⟨rfl, -, idle⟩
  exact ⟨Nat.le_refl _, idle⟩

theorem Plain.idle (plain : Plain reason parser least Never) : Plain reason parser least Idle :=
  fun left => (plain left).idle

theorem Plain.atLeast (plain : Plain reason parser least soft) (fewer : least' ≤ least) :
    Plain reason parser least' soft :=
  fun left => (plain left).atLeast fewer

theorem Plain.map (plain : Plain reason parser least soft) (change : α → β) :
    Plain reason (Front.map parser change) least soft :=
  fun left => (plain left).map change fun _ => rfl

theorem Plain.cut (plain : Plain reason parser least soft) :
    Plain reason (Front.cut parser) least Never :=
  fun left => (plain left).cut

theorem Plain.alt {second : Parser ι α} (plain : Plain reason parser least Idle)
    (plain' : Plain reason second least Idle) : Plain reason (Front.alt parser second) least Idle :=
  fun left => (plain left).alt (plain' left)

theorem Plain.seq (plain : Plain reason parser least Idle)
    (plain' : Plain reason parser' least' Idle) :
    Plain reason (Front.seq parser parser') (least + least') Idle :=
  fun left => (plain' left).after plain

theorem Plain.opt (plain : Plain reason parser least Idle) :
    Plain reason (Front.opt parser) 0 Never := by
  intro left
  refine Paced.mono (plain left).opt ?_ fun _ _ => id
  rintro taken value rest used ⟨long, isCost⟩
  cases value <;> exact ⟨long, isCost⟩

theorem Plain.many (plain : Plain reason parser (least + 1) Idle) :
    Plain reason (Front.many parser) 0 Never := by
  intro left
  refine Paced.mono (plain left).many_idle ?_ fun _ _ => id
  rintro taken values rest used ⟨long, isCost⟩
  exact ⟨long, isCost.trans (highest_zero values)⟩

theorem Plain.preceded (plain : Plain reason parser least Idle)
    (plain' : Plain reason parser' least' Idle) :
    Plain reason (Front.preceded parser parser') (least + least') Idle :=
  (plain.seq plain').map _

theorem Plain.delimited {after : Parser ι γ} {least'' : Nat}
    (plain : Plain reason parser least Idle) (plain' : Plain reason parser' least' Idle)
    (plain'' : Plain reason after least'' Idle) :
    Plain reason (Front.delimited parser parser' after) (least + (least' + least'')) Idle :=
  (plain.seq (plain'.seq plain'')).map _

end Plain

end Front
end RapidProto
