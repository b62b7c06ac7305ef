import Mathlib.Logic.Relation
import RapidProto.Front.Combinators

/-!
# Compositions of parsers

The contract of the combinator library, and what keeps it: every parser that is put together from
the combinators and from parsers that keep it.  Each combinator moves the offsets of its parts by
what it has consumed itself.
-/

namespace RapidProto
namespace Front

/-! ## Suffixes -/

section Suffixes

variable {ι : Type}

/-- The range is what is left of an input behind a front. -/
def Range.IsSuffix (rest input : Range ι) : Prop :=
  ∃ taken, input.items = taken ++ rest.items ∧ rest.data = input.data + taken.length

theorem Range.IsSuffix.refl (input : Range ι) : input.IsSuffix input := ⟨[], rfl, rfl⟩

theorem Range.IsSuffix.trans {rest middle input : Range ι} (later : rest.IsSuffix middle)
    (first : middle.IsSuffix input) : rest.IsSuffix input := by
  obtain ⟨front, split, start⟩ := first
  obtain ⟨back, split', start'⟩ := later
  refine ⟨front ++ back, ?_, ?_⟩
  · rw [split, split', List.append_assoc]
  · rw [start', start, List.length_append, Nat.add_assoc]

/-- What was consumed is the difference of the positions and of the lengths. -/
theorem Range.IsSuffix.consumed {rest input : Range ι} (suffix : rest.IsSuffix input) :
    rest.data = input.data + Front.consumed input rest ∧
      input.items.length = Front.consumed input rest + rest.items.length := by
  obtain ⟨taken, split, start⟩ := suffix
  rw [consumed_eq start, split, List.length_append]
  exact ⟨start, rfl⟩

theorem consumed_self (input : Range ι) : consumed input input = 0 := Nat.sub_self _

theorem consumed_trans {rest middle input : Range ι} (later : rest.IsSuffix middle)
    (first : middle.IsSuffix input) :
    consumed input rest = consumed input middle + consumed middle rest := by
  have whole := (later.trans first).consumed.1
  have front := first.consumed.1
  have back := later.consumed.1
  omega

end Suffixes

/-! ## The contract -/

section Contract

variable {ι α β γ : Type}

/-- The contract of a parser: it comes to an end, what remains is a suffix of its input, and an
error lies inside its input. -/
def Parser.Lawful (parser : Parser ι α) : Prop :=
  ∀ input, (parser input).Ends (fun parsed => parsed.remaining.IsSuffix input)
    (fun error => error.byteOffset ≤ input.items.length)

theorem Parser.Meets.lawful {parser : Parser ι α} {good : Nat → List ι → α → List ι → Prop}
    {bad : List ι → Error → Prop} (meets : parser.Meets good bad) : parser.Lawful := by
  intro input
  refine (meets input).mono ?_ fun error fails => fails.1
  rintro parsed ⟨taken, split, start, -⟩
  exact ⟨taken, split, start⟩

namespace Parser.Lawful

variable {parser : Parser ι α} {other : Parser ι β}

theorem meets (lawful : parser.Lawful) :
    parser.Meets (fun _ _ _ _ => True) (fun _ _ => True) := by
  intro input
  refine (lawful input).mono ?_ fun error inside => ⟨inside, trivial⟩
  rintro parsed ⟨taken, split, start⟩
  exact ⟨taken, split, start, trivial⟩

theorem suffix (lawful : parser.Lawful) {input : Range ι} {parsed : Parsed α ι}
    (taken : parser input = .ok parsed) : parsed.remaining.IsSuffix input := by
  have ends := lawful input
  rw [taken] at ends
  exact ends

theorem inside (lawful : parser.Lawful) {input : Range ι} {error : Error}
    (failed : parser input = .fail error) : error.byteOffset ≤ input.items.length := by
  have ends := lawful input
  rw [failed] at ends
  exact ends

/-- An error of a parser that runs on a suffix, moved by what is in front of it. -/
theorem lift_inside (lawful : parser.Lawful) {rest input : Range ι} (suffix : rest.IsSuffix input)
    {error : Error} (failed : parser rest = .fail error) :
    (error.lift (consumed input rest)).byteOffset ≤ input.items.length := by
  have bound := lawful.inside failed
  have split := suffix.consumed.2
  simp only [Error.lift]
  omega

theorem allConsuming (lawful : parser.Lawful) : (allConsuming parser).Lawful := by
  intro input
  rw [Front.allConsuming]
  refine (lawful input).bind fun parsed suffix => ?_
  split_ifs
  · exact suffix
  · have split := suffix.consumed.2
    exact Nat.le.intro split.symm

theorem separatedLoop {item : Parser ι α} (lawful : item.Lawful) (between : other.Lawful)
    (turns : Nat) (input rest : Range ι) (out : List α) (suffix : rest.IsSuffix input)
    (enough : rest.items.length < turns) :
    (Front.separatedLoop item other turns rest (consumed input rest) out).Ends
      (fun parsed => parsed.remaining.IsSuffix input)
      (fun error => error.byteOffset ≤ input.items.length) := by
  induction turns generalizing rest out with
  | zero => omega
  | succ turns ih =>
      have ends := between rest
      rw [Front.separatedLoop]
      cases separates : other rest with
      | outside => exact (separates ▸ ends).elim
      | spin => exact (separates ▸ ends).elim
      | fail error =>
          dsimp only
          split_ifs
          · exact between.lift_inside suffix separates
          · exact suffix
      | ok separated =>
          have gap := between.suffix separates
          have ends' := lawful separated.remaining
          simp only
          cases outcome : item separated.remaining with
          | outside => exact (outcome ▸ ends').elim
          | spin => exact (outcome ▸ ends').elim
          | fail error =>
              dsimp only
              split_ifs
              · exact suffix
              · rw [← consumed_trans gap suffix]
                exact lawful.lift_inside (gap.trans suffix) outcome
          | ok parsed =>
              have behind := lawful.suffix outcome
              have moved := (behind.trans gap).consumed.2
              dsimp only
              rw [← consumed_trans behind gap]
              split_ifs with idle
              · exact suffix
              · rw [← consumed_trans (behind.trans gap) suffix]
                exact ih parsed.remaining _ ((behind.trans gap).trans suffix) (by omega)

theorem separatedList {item : Parser ι α} (lawful : item.Lawful) (between : other.Lawful) :
    (separatedList item other).Lawful := by
  intro input
  have ends := lawful input
  rw [Front.separatedList]
  cases outcome : item input with
  | outside => exact (outcome ▸ ends).elim
  | spin => exact (outcome ▸ ends).elim
  | fail error =>
      dsimp only
      split_ifs
      · exact lawful.inside outcome
      · exact .refl input
  | ok parsed =>
      have suffix := lawful.suffix outcome
      have split := suffix.consumed.2
      exact lawful.separatedLoop between _ input _ _ suffix (by omega)

end Parser.Lawful

end Contract

/-! ## The bookkeeping of the source -/

section Bookkeeping

variable {ι α β γ : Type}

/-- `preceded` as the source writes it. -/
theorem preceded_eq (before : Parser ι α) (body : Parser ι β) (input : Range ι) :
    preceded before body input = (do
      let r1 ← before input
      let b1 := consumed input r1.remaining
      let r2 ← (body r1.remaining).mapError (Error.lift b1)
      .ok ⟨r2.remaining, r2.value⟩) := by
  rw [preceded, map, seq]
  cases before input with
  | ok r1 =>
      simp only [Outcome.ok_bind]
      cases body r1.remaining <;> rfl
  | _ => rfl

theorem Error.lift_lift (near far : Nat) (error : Error) :
    (error.lift near).lift far = error.lift (far + near) := by
  simp only [Error.lift, Error.mk.injEq, and_true, true_and]
  omega

/-- `delimited` as the source writes it, with the second offset measured from the start. -/
theorem delimited_eq (before : Parser ι α) (middle : Parser ι β) (after : Parser ι γ)
    (input : Range ι) :
    delimited before middle after input = (do
      let r1 ← before input
      let b1 := consumed input r1.remaining
      let r2 ← (middle r1.remaining).mapError (Error.lift b1)
      let b2 := b1 + consumed r1.remaining r2.remaining
      let r3 ← (after r2.remaining).mapError (Error.lift b2)
      .ok ⟨r3.remaining, r2.value⟩) := by
  rw [delimited, map, seq]
  cases before input with
  | ok r1 =>
      simp only [Outcome.ok_bind, seq]
      cases middle r1.remaining with
      | ok r2 =>
          simp only [Outcome.ok_bind, Outcome.mapError_ok]
          cases after r2.remaining with
          | fail error => simp [Error.lift_lift]
          | _ => rfl
      | _ => rfl
  | _ => rfl

/-- The arguments of a `seq`. -/
inductive Sequence (ι : Type) : Type → Type 1
  | last {α : Type} (p0 : Parser ι α) : Sequence ι α
  | next {α β : Type} (p0 : Parser ι α) (ps : Sequence ι β) : Sequence ι (α × β)

/-- `seq_run`; `acc` puts the values so far in front of the others. -/
def Sequence.run {ι γ : Type} : {β : Type} → Sequence ι β → (rest : Range ι) → (base : Nat) →
    (acc : β → γ) → Outcome Error (Parsed γ ι)
  | _, .last p0, rest, base, acc => do
    let r ← (p0 rest).mapError (Error.lift base)
    .ok ⟨r.remaining, acc r.value⟩
  | _, .next p0 ps, rest, base, acc => do
    let r ← (p0 rest).mapError (Error.lift base)
    ps.run r.remaining (base + consumed rest r.remaining) fun values => acc (r.value, values)

/-- The arguments of a `seq` nested to the right. -/
def Sequence.nested {ι : Type} : {β : Type} → Sequence ι β → Parser ι β
  | _, .last p0 => p0
  | _, .next p0 ps => seq p0 ps.nested

/-- One running offset does what the nested parsers do with theirs. -/
theorem Sequence.run_eq {ι β γ : Type} (sequence : Sequence ι β) (rest : Range ι) (base : Nat)
    (acc : β → γ) :
    sequence.run rest base acc =
      (map sequence.nested acc rest).mapError (Error.lift base) := by
  induction sequence generalizing rest base with
  | last p0 =>
      rw [run, map, nested, Outcome.mapError_bind]
      rfl
  | next p0 ps ih =>
      rw [run, map, nested, seq]
      cases p0 rest with
      | ok r =>
          simp only [Outcome.ok_bind, Outcome.mapError_ok, ih, map]
          cases ps.nested r.remaining with
          | fail error => simp [Error.lift_lift]
          | _ => rfl
      | _ => rfl

end Bookkeeping

/-! ## Compositions -/

/-- A parser that is put together from the combinators and from parsers that keep the contract. -/
inductive Composition : Type → Type → Type 1
  | given {ι α : Type} (parser : Parser ι α) (lawful : parser.Lawful) : Composition ι α
  | one {ι : Type} (pred : ι → Bool) : Composition ι ι
  | tag (expected : Text) : Composition Byte (Range Byte)
  | takeWhile {ι : Type} (pred : ι → Bool) : Composition ι (Range ι)
  | takeWhile1 {ι : Type} (pred : ι → Bool) : Composition ι (Range ι)
  | takeTill {ι : Type} (pred : ι → Bool) : Composition ι (Range ι)
  | takeUntil (needle : Text) : Composition Byte (Range Byte)
  | alt {ι α : Type} (first second : Composition ι α) : Composition ι α
  | seq {ι α β : Type} (first : Composition ι α) (second : Composition ι β) :
      Composition ι (α × β)
  | cut {ι α : Type} (body : Composition ι α) : Composition ι α
  | opt {ι α : Type} (body : Composition ι α) : Composition ι (Option α)
  | many {ι α : Type} (body : Composition ι α) : Composition ι (List α)
  | map {ι α β : Type} (body : Composition ι α) (change : α → β) : Composition ι β
  | recognize {ι α : Type} (body : Composition ι α) : Composition ι (Range ι)
  | allConsuming {ι α : Type} (body : Composition ι α) : Composition ι α
  | delimited {ι α β γ : Type} (before : Composition ι α) (middle : Composition ι β)
      (after : Composition ι γ) : Composition ι β
  | preceded {ι α β : Type} (before : Composition ι α) (body : Composition ι β) : Composition ι β
  | separatedList {ι α β : Type} (item : Composition ι α) (separator : Composition ι β) :
      Composition ι (List α)

namespace Composition

/-- The parser that is put together. -/
def parser : {ι α : Type} → Composition ι α → Parser ι α
  | _, _, given parser _ => parser
  | _, _, one pred => Front.one pred
  | _, _, tag expected => Front.tag expected
  | _, _, takeWhile pred => Front.takeWhile pred
  | _, _, takeWhile1 pred => Front.takeWhile1 pred
  | _, _, takeTill pred => Front.takeTill pred
  | _, _, takeUntil needle => Front.takeUntil needle
  | _, _, alt first second => Front.alt first.parser second.parser
  | _, _, seq first second => Front.seq first.parser second.parser
  | _, _, cut body => Front.cut body.parser
  | _, _, opt body => Front.opt body.parser
  | _, _, many body => Front.many body.parser
  | _, _, map body change => Front.map body.parser change
  | _, _, recognize body => Front.recognize body.parser
  | _, _, allConsuming body => Front.allConsuming body.parser
  | _, _, delimited before middle after =>
      Front.delimited before.parser middle.parser after.parser
  | _, _, preceded before body => Front.preceded before.parser body.parser
  | _, _, separatedList item separator => Front.separatedList item.parser separator.parser

/-- Every combinator keeps the contract. -/
theorem lawful {ι α : Type} (composition : Composition ι α) : composition.parser.Lawful := by
  induction composition with
  | given parser lawful => exact lawful
  | one pred => exact (meets_one pred).lawful
  | tag expected => exact (meets_tag expected).lawful
  | takeWhile pred => exact (meets_takeWhile pred).lawful
  | takeWhile1 pred => exact (meets_takeWhile1 pred).lawful
  | takeTill pred => exact (meets_takeWhile _).lawful
  | takeUntil needle => exact (meets_takeUntil needle).lawful
  | alt _ _ first second => exact (first.meets.alt second.meets).lawful
  | seq _ _ first second => exact (first.meets.seq second.meets).lawful
  | cut _ body => exact body.meets.cut.lawful
  | opt _ body => exact body.meets.opt.lawful
  | many _ body => exact body.meets.many.lawful
  | map _ change body => exact (body.meets.map change).lawful
  | recognize _ body => exact body.meets.recognize.lawful
  | allConsuming _ body => exact body.allConsuming
  | delimited _ _ _ before middle after =>
      exact ((before.meets.seq (middle.meets.seq after.meets)).map fun values => values.2.1).lawful
  | preceded _ _ before body => exact ((before.meets.seq body.meets).map Prod.snd).lawful
  | separatedList _ _ item separator => exact item.separatedList separator

end Composition

end Front
end RapidProto
