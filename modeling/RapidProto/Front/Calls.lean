import RapidProto.Front.Composition

/-!
# Calls between the parts of a composition

Which parts a composition runs, and on which suffixes of its input.  An error of the composition was
raised by a part it runs, and it still names the position at which that part raised it.  A committed
error of a part is the error of the composition.
-/

namespace RapidProto
namespace Front

open Relation

/-! ## Turns of the loops -/

section Turns

variable {ι α β : Type}

/-- A turn of `many` that goes on. -/
def ManyTurn (parser : Parser ι α) (rest rest' : Range ι) : Prop :=
  ∃ parsed, parser rest = .ok parsed ∧ consumed rest parsed.remaining ≠ 0 ∧ parsed.remaining = rest'

/-- A turn of `separated_list` that goes on. -/
def SeparatedTurn (item : Parser ι α) (separator : Parser ι β) (rest rest' : Range ι) : Prop :=
  ∃ separated parsed, separator rest = .ok separated ∧ item separated.remaining = .ok parsed ∧
    consumed rest separated.remaining + consumed separated.remaining parsed.remaining ≠ 0 ∧
    parsed.remaining = rest'

variable {parser item : Parser ι α} {separator : Parser ι β}

theorem ManyTurn.suffix (lawful : parser.Lawful) {rest rest' : Range ι}
    (turn : ManyTurn parser rest rest') : rest'.IsSuffix rest := by
  obtain ⟨parsed, taken, -, rfl⟩ := turn
  exact lawful.suffix taken

theorem SeparatedTurn.suffix (lawful : item.Lawful) (between : separator.Lawful)
    {rest rest' : Range ι} (turn : SeparatedTurn item separator rest rest') :
    rest'.IsSuffix rest := by
  obtain ⟨separated, parsed, separates, taken, -, rfl⟩ := turn
  exact (lawful.suffix taken).trans (between.suffix separates)

/-- What the turns keep, all of them keep. -/
theorem suffix_of_turns {turn : Range ι → Range ι → Prop}
    (each : ∀ rest rest', turn rest rest' → rest'.IsSuffix rest) {rest stop : Range ι}
    (turns : ReflTransGen turn rest stop) : stop.IsSuffix rest := by
  induction turns with
  | refl => exact .refl rest
  | tail _ last ih => exact (each _ _ last).trans ih

/-- Where the loop of `many` fails at a place it comes to, it fails there. -/
theorem manyLoop_reaches (lawful : parser.Lawful) {rest stop : Range ι}
    (reached : ReflTransGen (ManyTurn parser) rest stop) (error : Error)
    (here : ∀ turns base out, manyLoop parser (turns + 1) stop base out = .fail (error.lift base))
    (turns base : Nat) (out : List α) (enough : rest.items.length < turns) :
    manyLoop parser turns rest base out = .fail (error.lift (base + consumed rest stop)) := by
  induction reached using ReflTransGen.head_induction_on generalizing turns base out with
  | refl =>
      obtain ⟨turns, rfl⟩ : ∃ left, turns = left + 1 := ⟨turns - 1, by omega⟩
      rw [here, consumed_self, Nat.add_zero]
  | head first later ih =>
      have behind := suffix_of_turns (fun _ _ => ManyTurn.suffix lawful) later
      have suffix := first.suffix lawful
      obtain ⟨parsed, taken, moved, rfl⟩ := first
      obtain ⟨turns, rfl⟩ : ∃ left, turns = left + 1 := ⟨turns - 1, by omega⟩
      have shorter := suffix.consumed.2
      rw [manyLoop, taken]
      simp only [if_neg moved]
      rw [ih _ _ _ (by omega), consumed_trans behind suffix, Nat.add_assoc]

/-- Why the loop of `many` fails. -/
theorem manyLoop_fails (lawful : parser.Lawful) {turns : Nat} {rest : Range ι} {base : Nat}
    {out : List α} {error : Error} (failed : manyLoop parser turns rest base out = .fail error) :
    ∃ stop, ReflTransGen (ManyTurn parser) rest stop ∧
      ((∃ inner, parser stop = .fail inner ∧
          error = inner.lift (base + consumed rest stop)) ∨
        ∃ parsed, parser stop = .ok parsed ∧ consumed stop parsed.remaining = 0 ∧
          error = { byteOffset := base + consumed rest stop
                    message := text "many: sub-parser consumed no input" }) := by
  induction turns generalizing rest base out with
  | zero => cases failed
  | succ turns ih =>
      rw [manyLoop] at failed
      cases outcome : parser rest with
      | outside =>
          rw [outcome] at failed
          cases failed
      | spin =>
          rw [outcome] at failed
          cases failed
      | fail inner =>
          simp only [outcome] at failed
          split_ifs at failed
          cases failed
          exact ⟨rest, .refl, .inl ⟨inner, outcome, by rw [consumed_self, Nat.add_zero]⟩⟩
      | ok parsed =>
          simp only [outcome] at failed
          split_ifs at failed with idle
          · cases failed
            exact ⟨rest, .refl, .inr ⟨parsed, outcome, idle, by rw [consumed_self, Nat.add_zero]⟩⟩
          · obtain ⟨stop, later, why⟩ := ih failed
            have suffix := lawful.suffix outcome
            have behind := suffix_of_turns (fun _ _ => ManyTurn.suffix lawful) later
            rw [Nat.add_assoc, ← consumed_trans behind suffix] at why
            exact ⟨stop, .head ⟨parsed, outcome, idle, rfl⟩ later, why⟩

/-- Where the loop of `separated_list` fails at a place it comes to, it fails there. -/
theorem separatedLoop_reaches (lawful : item.Lawful) (between : separator.Lawful)
    {rest stop : Range ι} (reached : ReflTransGen (SeparatedTurn item separator) rest stop)
    (error : Error) (ahead : Nat)
    (here : ∀ turns base out,
      separatedLoop item separator (turns + 1) stop base out = .fail (error.lift (base + ahead)))
    (turns base : Nat) (out : List α) (enough : rest.items.length < turns) :
    separatedLoop item separator turns rest base out =
      .fail (error.lift (base + (consumed rest stop + ahead))) := by
  induction reached using ReflTransGen.head_induction_on generalizing turns base out with
  | refl =>
      obtain ⟨turns, rfl⟩ : ∃ left, turns = left + 1 := ⟨turns - 1, by omega⟩
      rw [here, consumed_self, Nat.zero_add]
  | head first later ih =>
      have behind := suffix_of_turns (fun _ _ => SeparatedTurn.suffix lawful between) later
      have suffix := first.suffix lawful between
      obtain ⟨separated, parsed, separates, taken, moved, rfl⟩ := first
      obtain ⟨turns, rfl⟩ : ∃ left, turns = left + 1 := ⟨turns - 1, by omega⟩
      have gap := between.suffix separates
      have whole := consumed_trans (lawful.suffix taken) gap
      have shorter := suffix.consumed.2
      rw [separatedLoop, separates]
      simp only [taken, if_neg moved]
      rw [ih _ _ _ (by omega), consumed_trans behind suffix, whole]
      congr 2
      omega

/-- Why the loop of `separated_list` fails. -/
theorem separatedLoop_fails (lawful : item.Lawful) (between : separator.Lawful) {turns : Nat}
    {rest : Range ι} {base : Nat} {out : List α} {error : Error}
    (failed : separatedLoop item separator turns rest base out = .fail error) :
    ∃ stop, ReflTransGen (SeparatedTurn item separator) rest stop ∧
      ((∃ inner, separator stop = .fail inner ∧ error = inner.lift (base + consumed rest stop)) ∨
        ∃ separated inner, separator stop = .ok separated ∧
          item separated.remaining = .fail inner ∧
          error = inner.lift (base + consumed rest separated.remaining)) := by
  induction turns generalizing rest base out with
  | zero => cases failed
  | succ turns ih =>
      rw [separatedLoop] at failed
      cases separates : separator rest with
      | outside =>
          rw [separates] at failed
          cases failed
      | spin =>
          rw [separates] at failed
          cases failed
      | fail inner =>
          simp only [separates] at failed
          split_ifs at failed
          cases failed
          exact ⟨rest, .refl, .inl ⟨inner, separates, by rw [consumed_self, Nat.add_zero]⟩⟩
      | ok separated =>
          simp only [separates] at failed
          cases outcome : item separated.remaining with
          | outside =>
              rw [outcome] at failed
              cases failed
          | spin =>
              rw [outcome] at failed
              cases failed
          | fail inner =>
              simp only [outcome] at failed
              split_ifs at failed
              cases failed
              exact ⟨rest, .refl, .inr ⟨separated, inner, separates, outcome, rfl⟩⟩
          | ok parsed =>
              simp only [outcome] at failed
              split_ifs at failed with idle
              have gap := between.suffix separates
              have suffix := (lawful.suffix outcome).trans gap
              have whole := consumed_trans (lawful.suffix outcome) gap
              obtain ⟨stop, later, why⟩ := ih failed
              have behind := suffix_of_turns (fun _ _ => SeparatedTurn.suffix lawful between) later
              refine ⟨stop, .head ⟨separated, parsed, separates, outcome, idle, rfl⟩ later, ?_⟩
              rw [← whole] at why
              rcases why with ⟨inner, fails, is⟩ | ⟨separated', inner, separates', fails, is⟩
              · rw [Nat.add_assoc, ← consumed_trans behind suffix] at is
                exact .inl ⟨inner, fails, is⟩
              · rw [Nat.add_assoc, ← consumed_trans ((between.suffix separates').trans behind)
                  suffix] at is
                exact .inr ⟨separated', inner, separates', fails, is⟩

end Turns

/-! ## Why a combinator fails -/

section Failures

variable {ι α β : Type} {input : Range ι} {error : Error}

theorem alt_fails {first second : Parser ι α} (failed : alt first second input = .fail error) :
    (first input = .fail error ∧ error.fatal = true) ∨
      ∃ left, first input = .fail left ∧ left.fatal = false ∧
        ((second input = .fail error ∧ error.fatal = true) ∨
          ∃ right, second input = .fail right ∧ right.fatal = false ∧
            error = if right.byteOffset ≤ left.byteOffset then left else right) := by
  rw [alt] at failed
  cases outcome : first input with
  | fail left =>
      rw [outcome] at failed
      dsimp only at failed
      cases committed : left.fatal with
      | true =>
          rw [if_pos committed] at failed
          cases failed
          exact .inl ⟨rfl, committed⟩
      | false =>
          rw [if_neg (by simp [committed])] at failed
          refine .inr ⟨left, rfl, committed, ?_⟩
          cases outcome' : second input with
          | fail right =>
              rw [outcome'] at failed
              dsimp only at failed
              cases committed' : right.fatal with
              | true =>
                  rw [if_pos committed'] at failed
                  cases failed
                  exact .inl ⟨rfl, committed'⟩
              | false =>
                  rw [if_neg (by simp [committed']), ← apply_ite] at failed
                  exact .inr ⟨right, rfl, committed', (Outcome.fail.inj failed).symm⟩
          | _ =>
              rw [outcome'] at failed
              cases failed
  | _ =>
      rw [outcome] at failed
      cases failed

theorem opt_fails {parser : Parser ι α} (failed : opt parser input = .fail error) :
    parser input = .fail error := by
  rw [opt] at failed
  cases outcome : parser input with
  | fail inner =>
      rw [outcome] at failed
      dsimp only at failed
      split_ifs at failed
      cases failed
      rfl
  | _ =>
      rw [outcome] at failed
      cases failed

theorem separatedList_fails {item : Parser ι α} {separator : Parser ι β}
    (failed : separatedList item separator input = .fail error) :
    item input = .fail error ∨
      ∃ first, item input = .ok first ∧
        separatedLoop item separator (input.items.length + 1) first.remaining
          (consumed input first.remaining) [first.value] = .fail error := by
  rw [separatedList] at failed
  cases outcome : item input with
  | ok first =>
      rw [outcome] at failed
      exact .inr ⟨first, rfl, failed⟩
  | fail inner =>
      rw [outcome] at failed
      dsimp only at failed
      split_ifs at failed
      cases failed
      exact .inl rfl
  | outside =>
      rw [outcome] at failed
      cases failed
  | spin =>
      rw [outcome] at failed
      cases failed

end Failures

/-! ## Calls -/

/-- A part of a composition and the input that it runs on. -/
structure Call (ι : Type) where
  {output : Type}
  part : Composition ι output
  input : Range ι

/-- The call fails with an error. -/
def Call.Fails {ι : Type} (call : Call ι) (error : Error) : Prop :=
  call.part.parser call.input = .fail error

/-- What a run of a composition runs directly. -/
inductive Calls {ι : Type} : Call ι → Call ι → Prop
  | altFirst {α : Type} (first second : Composition ι α) (input : Range ι) :
      Calls ⟨.alt first second, input⟩ ⟨first, input⟩
  | altSecond {α : Type} {first : Composition ι α} (second : Composition ι α) {input : Range ι}
      {error : Error} (failed : first.parser input = .fail error) (mild : error.fatal = false) :
      Calls ⟨.alt first second, input⟩ ⟨second, input⟩
  | seqFirst {α β : Type} (first : Composition ι α) (second : Composition ι β) (input : Range ι) :
      Calls ⟨.seq first second, input⟩ ⟨first, input⟩
  | seqSecond {α β : Type} {first : Composition ι α} (second : Composition ι β) {input : Range ι}
      {left : Parsed α ι} (taken : first.parser input = .ok left) :
      Calls ⟨.seq first second, input⟩ ⟨second, left.remaining⟩
  | cut {α : Type} (body : Composition ι α) (input : Range ι) :
      Calls ⟨.cut body, input⟩ ⟨body, input⟩
  | opt {α : Type} (body : Composition ι α) (input : Range ι) :
      Calls ⟨.opt body, input⟩ ⟨body, input⟩
  | many {α : Type} (body : Composition ι α) {input stop : Range ι}
      (reached : ReflTransGen (ManyTurn body.parser) input stop) :
      Calls ⟨.many body, input⟩ ⟨body, stop⟩
  | map {α β : Type} (body : Composition ι α) (change : α → β) (input : Range ι) :
      Calls ⟨.map body change, input⟩ ⟨body, input⟩
  | recognize {α : Type} (body : Composition ι α) (input : Range ι) :
      Calls ⟨.recognize body, input⟩ ⟨body, input⟩
  | allConsuming {α : Type} (body : Composition ι α) (input : Range ι) :
      Calls ⟨.allConsuming body, input⟩ ⟨body, input⟩
  | delimitedBefore {α β γ : Type} (before : Composition ι α) (middle : Composition ι β)
      (after : Composition ι γ) (input : Range ι) :
      Calls ⟨.delimited before middle after, input⟩ ⟨before, input⟩
  | delimitedMiddle {α β γ : Type} {before : Composition ι α} (middle : Composition ι β)
      (after : Composition ι γ) {input : Range ι} {r1 : Parsed α ι}
      (taken : before.parser input = .ok r1) :
      Calls ⟨.delimited before middle after, input⟩ ⟨middle, r1.remaining⟩
  | delimitedAfter {α β γ : Type} {before : Composition ι α} {middle : Composition ι β}
      (after : Composition ι γ) {input : Range ι} {r1 : Parsed α ι} {r2 : Parsed β ι}
      (taken : before.parser input = .ok r1) (taken' : middle.parser r1.remaining = .ok r2) :
      Calls ⟨.delimited before middle after, input⟩ ⟨after, r2.remaining⟩
  | precededBefore {α β : Type} (before : Composition ι α) (body : Composition ι β)
      (input : Range ι) : Calls ⟨.preceded before body, input⟩ ⟨before, input⟩
  | precededBody {α β : Type} {before : Composition ι α} (body : Composition ι β)
      {input : Range ι} {r1 : Parsed α ι} (taken : before.parser input = .ok r1) :
      Calls ⟨.preceded before body, input⟩ ⟨body, r1.remaining⟩
  | separatedFirst {α β : Type} (item : Composition ι α) (separator : Composition ι β)
      (input : Range ι) : Calls ⟨.separatedList item separator, input⟩ ⟨item, input⟩
  | separatedGap {α β : Type} {item : Composition ι α} {separator : Composition ι β}
      {input stop : Range ι} {first : Parsed α ι} (taken : item.parser input = .ok first)
      (reached : ReflTransGen (SeparatedTurn item.parser separator.parser) first.remaining stop) :
      Calls ⟨.separatedList item separator, input⟩ ⟨separator, stop⟩
  | separatedItem {α β : Type} {item : Composition ι α} {separator : Composition ι β}
      {input stop : Range ι} {first : Parsed α ι} {separated : Parsed β ι}
      (taken : item.parser input = .ok first)
      (reached : ReflTransGen (SeparatedTurn item.parser separator.parser) first.remaining stop)
      (separates : separator.parser stop = .ok separated) :
      Calls ⟨.separatedList item separator, input⟩ ⟨item, separated.remaining⟩

section Calls

variable {ι : Type} {call call' : Call ι}

/-- A part runs on a suffix of the input. -/
theorem Calls.suffix (calls : Calls call call') : call'.input.IsSuffix call.input := by
  cases calls with
  | seqSecond _ taken => exact (Composition.lawful _).suffix taken
  | many body reached => exact suffix_of_turns (fun _ _ => ManyTurn.suffix body.lawful) reached
  | delimitedMiddle _ _ taken => exact (Composition.lawful _).suffix taken
  | delimitedAfter _ taken taken' =>
      exact ((Composition.lawful _).suffix taken').trans ((Composition.lawful _).suffix taken)
  | precededBody _ taken => exact (Composition.lawful _).suffix taken
  | @separatedGap _ _ item separator _ _ _ taken reached =>
      exact (suffix_of_turns (fun _ _ => SeparatedTurn.suffix item.lawful separator.lawful)
        reached).trans (item.lawful.suffix taken)
  | @separatedItem _ _ item separator _ _ _ _ taken reached separates =>
      exact (separator.lawful.suffix separates).trans ((suffix_of_turns
        (fun _ _ => SeparatedTurn.suffix item.lawful separator.lawful) reached).trans
          (item.lawful.suffix taken))
  | _ => exact .refl _

theorem Error.lift_zero (error : Error) : error.lift 0 = error := rfl

theorem consumed_lift {input : Range ι} (error : Error) :
    error.lift (consumed input input) = error := by
  rw [consumed_self, Error.lift_zero]

/-- A committed error of a part is that of the whole, moved by what is in front of the part. -/
theorem Calls.committed (calls : Calls call call') {error : Error} (failed : call'.Fails error)
    (committed : error.fatal = true) :
    call.Fails (error.lift (consumed call.input call'.input)) := by
  rw [Call.Fails] at failed ⊢
  cases calls with
  | altFirst => simp [Composition.parser, Front.alt, failed, committed, consumed_lift]
  | altSecond _ failed' mild =>
      simp [Composition.parser, Front.alt, failed', mild, failed, committed, consumed_lift]
  | seqFirst => simp [Composition.parser, Front.seq, failed, consumed_lift]
  | seqSecond _ taken => simp [Composition.parser, Front.seq, taken, failed]
  | cut =>
      rw [consumed_lift, Composition.parser, Front.cut, failed, Outcome.mapError_fail]
      simp [← committed]
  | opt => simp [Composition.parser, Front.opt, failed, committed, consumed_lift]
  | @many _ body input stop reached =>
      have whole := manyLoop_reaches body.lawful reached error
        (fun turns base out => by rw [manyLoop, failed]; simp [committed])
        (input.items.length + 1) 0 [] (Nat.lt_succ_self _)
      rw [Nat.zero_add] at whole
      exact whole
  | map => simp [Composition.parser, Front.map, failed, consumed_lift]
  | recognize => simp [Composition.parser, Front.recognize, failed, consumed_lift]
  | allConsuming => simp [Composition.parser, Front.allConsuming, failed, consumed_lift]
  | delimitedBefore => simp [Composition.parser, delimited_eq, failed, consumed_lift]
  | delimitedMiddle _ _ taken => simp [Composition.parser, delimited_eq, taken, failed]
  | @delimitedAfter _ _ _ before middle _ _ _ _ taken taken' =>
      have suffix := before.lawful.suffix taken
      have suffix' := middle.lawful.suffix taken'
      simp [Composition.parser, delimited_eq, taken, taken', failed,
        consumed_trans suffix' suffix]
  | precededBefore => simp [Composition.parser, preceded_eq, failed, consumed_lift]
  | precededBody _ taken => simp [Composition.parser, preceded_eq, taken, failed]
  | separatedFirst =>
      simp [Composition.parser, Front.separatedList, failed, committed, consumed_lift]
  | @separatedGap _ _ item separator input stop first taken reached =>
      have suffix := item.lawful.suffix taken
      have shorter := suffix.consumed.2
      have behind := suffix_of_turns
        (fun _ _ => SeparatedTurn.suffix item.lawful separator.lawful) reached
      have whole := separatedLoop_reaches item.lawful separator.lawful reached error 0
        (fun turns base out => by rw [separatedLoop, failed]; simp [committed])
        (input.items.length + 1) (consumed input first.remaining) [first.value] (by omega)
      simp only [Composition.parser, Front.separatedList, taken, whole]
      rw [Nat.add_zero, ← consumed_trans behind suffix]
  | @separatedItem _ _ item separator input stop first separated taken reached separates =>
      have suffix := item.lawful.suffix taken
      have shorter := suffix.consumed.2
      have behind := suffix_of_turns
        (fun _ _ => SeparatedTurn.suffix item.lawful separator.lawful) reached
      have gap := separator.lawful.suffix separates
      have whole := separatedLoop_reaches item.lawful separator.lawful reached error
        (consumed stop separated.remaining)
        (fun turns base out => by rw [separatedLoop, separates]; simp [failed, committed])
        (input.items.length + 1) (consumed input first.remaining) [first.value] (by omega)
      simp only [Composition.parser, Front.separatedList, taken, whole]
      rw [← consumed_trans gap behind, ← consumed_trans (gap.trans behind) suffix]

end Calls

/-! ## Where an error comes from -/

/-- The part reports an error of its own.  A parser that is given does with every error; of the
combinators only `many` and `all_consuming` have one. -/
def Composition.Raises : {ι α : Type} → Composition ι α → Range ι → Error → Prop
  | _, _, given parser _, input, error => parser input = .fail error
  | _, _, one pred, input, error => Front.one pred input = .fail error
  | _, _, tag expected, input, error => Front.tag expected input = .fail error
  | _, _, takeWhile pred, input, error => Front.takeWhile pred input = .fail error
  | _, _, takeWhile1 pred, input, error => Front.takeWhile1 pred input = .fail error
  | _, _, takeTill pred, input, error => Front.takeTill pred input = .fail error
  | _, _, takeUntil needle, input, error => Front.takeUntil needle input = .fail error
  | _, _, many body, input, error =>
      ∃ stop parsed, ReflTransGen (ManyTurn body.parser) input stop ∧
        body.parser stop = .ok parsed ∧ consumed stop parsed.remaining = 0 ∧
        error = { byteOffset := consumed input stop
                  message := text "many: sub-parser consumed no input" }
  | _, _, allConsuming body, input, error =>
      ∃ parsed, body.parser input = .ok parsed ∧ parsed.remaining.items ≠ [] ∧
        error = { byteOffset := consumed input parsed.remaining
                  message := text "unexpected trailing input" }
  | _, _, _, _, _ => False

/-- The error was raised by a part, and names the position at which that part raised it. -/
def Call.Traces {ι : Type} (call : Call ι) (error : Error) : Prop :=
  ∃ (source : Call ι) (inner : Error), ReflTransGen Calls call source ∧
    source.part.Raises source.input inner ∧
    call.input.data + error.byteOffset = source.input.data + inner.byteOffset ∧
    error.message = inner.message

section Traces

variable {ι α β γ : Type} {call call' : Call ι} {error inner : Error}

theorem Call.traces_of_raises {part : Composition ι α} {input : Range ι}
    (raises : part.Raises input error) : Call.Traces ⟨part, input⟩ error :=
  ⟨⟨part, input⟩, error, .refl, raises, rfl, rfl⟩

/-- An error of a part that is handed on, moved by what is in front of the part. -/
theorem Call.Traces.through (calls : Calls call call') (traces : call'.Traces inner)
    (moved : error.byteOffset = inner.byteOffset + consumed call.input call'.input)
    (message : error.message = inner.message) : call.Traces error := by
  obtain ⟨source, raised, reached, raises, position, same⟩ := traces
  have start := calls.suffix.consumed.1
  exact ⟨source, raised, .head calls reached, raises, by omega, message.trans same⟩

/-- An error of a part that runs on the whole input. -/
theorem Call.Traces.here {whole : Composition ι α} {part : Composition ι β} {input : Range ι}
    (calls : Calls ⟨whole, input⟩ ⟨part, input⟩) (traces : Call.Traces ⟨part, input⟩ error) :
    Call.Traces ⟨whole, input⟩ error :=
  traces.through calls (by rw [consumed_self, Nat.add_zero]) rfl

/-- Every error of a composition comes from a part. -/
theorem Composition.traces (composition : Composition ι α) (input : Range ι) (error : Error)
    (failed : composition.parser input = .fail error) : Call.Traces ⟨composition, input⟩ error := by
  induction composition generalizing error with
  | given parser lawful => exact Call.traces_of_raises failed
  | one pred => exact Call.traces_of_raises failed
  | tag expected => exact Call.traces_of_raises failed
  | takeWhile pred => exact Call.traces_of_raises failed
  | takeWhile1 pred => exact Call.traces_of_raises failed
  | takeTill pred => exact Call.traces_of_raises failed
  | takeUntil needle => exact Call.traces_of_raises failed
  | alt first second ih ih' =>
      rcases alt_fails failed with ⟨fails, -⟩ | ⟨left, fails, mild, why⟩
      · exact (ih input error fails).here (.altFirst first second input)
      rcases why with ⟨fails', -⟩ | ⟨right, fails', -, is⟩
      · exact (ih' input error fails').here (.altSecond second fails mild)
      · rw [is]
        split_ifs
        · exact (ih input left fails).here (.altFirst first second input)
        · exact (ih' input right fails').here (.altSecond second fails mild)
  | seq first second ih ih' =>
      rcases Outcome.bind_eq_fail.mp failed with fails | ⟨left, taken, fails⟩
      · exact (ih input error fails).here (.seqFirst first second input)
      · rcases Outcome.bind_eq_fail.mp fails with fails' | ⟨right, -, impossible⟩
        · obtain ⟨inner, failure, rfl⟩ := Outcome.mapError_eq_fail.mp fails'
          exact (ih' _ inner failure).through (.seqSecond second taken) rfl rfl
        · cases impossible
  | cut body ih =>
      obtain ⟨inner, fails, rfl⟩ := Outcome.mapError_eq_fail.mp failed
      exact (ih input inner fails).through (.cut body input)
        (by rw [consumed_self, Nat.add_zero]) rfl
  | opt body ih => exact (ih input error (opt_fails failed)).here (.opt body input)
  | many body ih =>
      obtain ⟨stop, reached, ⟨inner, fails, rfl⟩ | ⟨parsed, taken, idle, rfl⟩⟩ :=
        manyLoop_fails body.lawful failed
      · exact (ih stop inner fails).through (.many body reached)
          (by rw [Nat.zero_add]; rfl) rfl
      · exact Call.traces_of_raises ⟨stop, parsed, reached, taken, idle, by rw [Nat.zero_add]⟩
  | map body change ih =>
      rcases Outcome.bind_eq_fail.mp failed with fails | ⟨_, -, impossible⟩
      · exact (ih input error fails).here (.map body change input)
      · cases impossible
  | recognize body ih =>
      rcases Outcome.bind_eq_fail.mp failed with fails | ⟨_, -, impossible⟩
      · exact (ih input error fails).here (.recognize body input)
      · cases impossible
  | allConsuming body ih =>
      rcases Outcome.bind_eq_fail.mp failed with fails | ⟨parsed, taken, fails⟩
      · exact (ih input error fails).here (.allConsuming body input)
      · split_ifs at fails with finished
        cases fails
        exact Call.traces_of_raises ⟨parsed, taken,
          fun empty => finished (List.isEmpty_iff.mpr empty), rfl⟩
  | delimited before middle after ih ih' ih'' =>
      rw [parser, delimited_eq] at failed
      rcases Outcome.bind_eq_fail.mp failed with fails | ⟨r1, taken, fails⟩
      · exact (ih input error fails).here (.delimitedBefore before middle after input)
      rcases Outcome.bind_eq_fail.mp fails with fails' | ⟨r2, taken', fails'⟩
      · obtain ⟨inner, failure, rfl⟩ := Outcome.mapError_eq_fail.mp fails'
        exact (ih' _ inner failure).through (.delimitedMiddle middle after taken) rfl rfl
      rcases Outcome.bind_eq_fail.mp fails' with fails'' | ⟨r3, -, impossible⟩
      · have taken' := Outcome.mapError_eq_ok.mp taken'
        obtain ⟨inner, failure, rfl⟩ := Outcome.mapError_eq_fail.mp fails''
        have moved := consumed_trans (middle.lawful.suffix taken') (before.lawful.suffix taken)
        exact (ih'' _ inner failure).through (.delimitedAfter after taken taken')
          (by rw [moved]; rfl) rfl
      · cases impossible
  | preceded before body ih ih' =>
      rw [parser, preceded_eq] at failed
      rcases Outcome.bind_eq_fail.mp failed with fails | ⟨r1, taken, fails⟩
      · exact (ih input error fails).here (.precededBefore before body input)
      · rcases Outcome.bind_eq_fail.mp fails with fails' | ⟨_, -, impossible⟩
        · obtain ⟨inner, failure, rfl⟩ := Outcome.mapError_eq_fail.mp fails'
          exact (ih' _ inner failure).through (.precededBody body taken) rfl rfl
        · cases impossible
  | separatedList item separator ih ih' =>
      rcases separatedList_fails failed with fails | ⟨first, taken, fails⟩
      · exact (ih input error fails).here (.separatedFirst item separator input)
      have suffix := item.lawful.suffix taken
      obtain ⟨stop, reached, why⟩ := separatedLoop_fails item.lawful separator.lawful fails
      have behind := suffix_of_turns
        (fun _ _ => SeparatedTurn.suffix item.lawful separator.lawful) reached
      rcases why with ⟨inner, failure, rfl⟩ | ⟨separated, inner, separates, failure, rfl⟩
      · rw [← consumed_trans behind suffix]
        exact (ih' stop inner failure).through (.separatedGap taken reached) rfl rfl
      · have gap := separator.lawful.suffix separates
        rw [← consumed_trans (gap.trans behind) suffix]
        exact (ih _ inner failure).through (.separatedItem taken reached separates) rfl rfl

end Traces

/-! ## Alternatives -/

section Alternatives

variable {ι α : Type}

/-- `alt` of any number of parsers. -/
def Composition.altAll (first : Composition ι α) : List (Composition ι α) → Composition ι α
  | [] => first
  | second :: others => .alt first (altAll second others)

/-- The alternative fails uncommitted, and no farther than up to a bound. -/
def Composition.Yields (branch : Composition ι α) (input : Range ι) (bound : Nat) : Prop :=
  ∃ error, branch.parser input = .fail error ∧ error.fatal = false ∧ error.byteOffset ≤ bound

/-- Where all alternatives fail uncommitted, the error is that of the first that gets farthest. -/
theorem Composition.altAll_farthest (first : Composition ι α) (others : List (Composition ι α))
    (input : Range ι) (error : Error)
    (failed : (altAll first others).parser input = .fail error) (mild : error.fatal = false) :
    ∃ earlier branch later, first :: others = earlier ++ branch :: later ∧
      branch.parser input = .fail error ∧
      (∀ other ∈ earlier, ∃ bound < error.byteOffset, other.Yields input bound) ∧
      ∀ other ∈ later, other.Yields input error.byteOffset := by
  induction others generalizing first error with
  | nil => exact ⟨[], first, [], rfl, failed, nofun, nofun⟩
  | cons second others ih =>
      obtain ⟨-, committed⟩ | ⟨left, fails, mildLeft, ⟨-, committed⟩ | why⟩ := alt_fails failed
      · exact absurd committed (by simp [mild])
      · exact absurd committed (by simp [mild])
      obtain ⟨right, fails', mildRight, is⟩ := why
      obtain ⟨earlier, branch, later, split, found, before, behind⟩ :=
        ih second right fails' mildRight
      split_ifs at is with farther
      · subst is
        refine ⟨[], first, second :: others, rfl, fails, nofun, ?_⟩
        intro other listed
        rw [split] at listed
        rcases List.mem_append.mp listed with inEarlier | (_ | ⟨_, inLater⟩)
        · obtain ⟨bound, less, other, failed', mild', inside⟩ := before other inEarlier
          exact ⟨other, failed', mild', by omega⟩
        · exact ⟨right, found, mildRight, farther⟩
        · obtain ⟨other, failed', mild', inside⟩ := behind other inLater
          exact ⟨other, failed', mild', by omega⟩
      · subst is
        refine ⟨first :: earlier, branch, later, by rw [split]; rfl, found, ?_, behind⟩
        rintro other (_ | ⟨_, inEarlier⟩)
        · exact ⟨left.byteOffset, by omega, left, fails, mildLeft, Nat.le_refl _⟩
        · exact before other inEarlier

end Alternatives

/-! ## The contract of the library -/

/-- Whatever a run calls, directly or through other parts, runs on a suffix of its input. -/
theorem reaches_suffix {ι : Type} {call part : Call ι} (reached : ReflTransGen Calls call part) :
    part.input.IsSuffix call.input := by
  induction reached with
  | refl => exact .refl _
  | tail _ last ih => exact last.suffix.trans ih

/-- A committed error of any part of a run is the error of the run. -/
theorem committed_of_reaches {ι : Type} {call part : Call ι}
    (reached : ReflTransGen Calls call part) {error : Error} (failed : part.Fails error)
    (committed : error.fatal = true) :
    call.Fails (error.lift (consumed call.input part.input)) := by
  induction reached using ReflTransGen.head_induction_on with
  | refl =>
      rw [consumed_lift]
      exact failed
  | head first later ih =>
      have whole := first.committed ih committed
      rwa [Error.lift_lift, ← consumed_trans (reaches_suffix later) first.suffix] at whole

/-- The contract of every parser that is put together from the library.  It comes to an end.  What
remains is a suffix; an error lies inside the input, and at the position at which a part raised it.
A committed error of a part is never swallowed, and of several alternatives that fail the farthest
one is reported. -/
theorem composition_contract {ι α : Type} (composition : Composition ι α) (input : Range ι) :
    (composition.parser input).Ends (fun parsed => parsed.remaining.IsSuffix input)
        (fun error => error.byteOffset ≤ input.items.length ∧
          ∃ (source : Call ι) (inner : Error), ReflTransGen Calls ⟨composition, input⟩ source ∧
            source.input.IsSuffix input ∧ source.part.Raises source.input inner ∧
            error.byteOffset = consumed input source.input + inner.byteOffset ∧
            error.message = inner.message) ∧
      (∀ (part : Call ι) (error : Error), ReflTransGen Calls ⟨composition, input⟩ part →
        part.Fails error → error.fatal = true →
        composition.parser input = .fail (error.lift (consumed input part.input))) ∧
      ∀ (first : Composition ι α) (others : List (Composition ι α)) (error : Error),
        (Composition.altAll first others).parser input = .fail error → error.fatal = false →
        ∃ earlier branch later, first :: others = earlier ++ branch :: later ∧
          branch.parser input = .fail error ∧
          (∀ other ∈ earlier, ∃ bound < error.byteOffset, other.Yields input bound) ∧
          ∀ other ∈ later, other.Yields input error.byteOffset := by
  refine ⟨?_, fun part error reached failed committed => ?_, fun first others error failed mild =>
    Composition.altAll_farthest first others input error failed mild⟩
  · have ends := composition.lawful input
    cases outcome : composition.parser input with
    | ok parsed =>
        rw [outcome] at ends
        exact ends
    | fail error =>
        rw [outcome] at ends
        obtain ⟨source, inner, reached, raises, position, message⟩ :=
          composition.traces input error outcome
        have suffix := reaches_suffix reached
        have start := suffix.consumed.1
        exact ⟨ends, source, inner, reached, suffix, raises, by simp only at position start; omega,
          message⟩
    | outside => exact (outcome ▸ ends).elim
    | spin => exact (outcome ▸ ends).elim
  · exact committed_of_reaches reached failed committed

end Front
end RapidProto
