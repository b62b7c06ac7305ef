import Mathlib.Computability.Language
import RapidProto.Front.Combinators

/-!
# Recognition of languages

A parser takes the first alternative that succeeds and as much as it can, and does not come back for
less.  It recognises a language where this costs it nothing: it takes words of the language only,
and it takes a word in front of every rest at which it stops.  A rest matters to the parts that are
not last, whose rest is what the parts behind them take.
-/

namespace RapidProto
namespace Front

open scoped Computability

section Recognition

variable {ι α β : Type}

/-- The words of one element out of a class. -/
def letter (pred : ι → Bool) : Language ι := {word | ∃ item, word = [item] ∧ pred item = true}

/-- The rest does not go on with an element of a class. -/
def StopsAt (pred : ι → Bool) (rest : List ι) : Prop :=
  ∀ item, rest.head? = some item → pred item = false

/-- The parser takes words of the language only, and every word in front of a rest at which it
stops.  It does not commit. -/
structure Recognises (parser : Parser ι α) (language : Language ι) (stops : List ι → Prop) :
    Prop where
  sound : parser.Meets (fun _ taken _ _ => taken ∈ language) (fun _ error => error.fatal = false)
  complete : ∀ start word rest, word ∈ language → stops rest →
    ∃ value, parser ⟨start, word ++ rest⟩ = .ok ⟨⟨start + word.length, rest⟩, value⟩

variable {parser : Parser ι α} {language : Language ι} {stops : List ι → Prop}

theorem mem_letter_mul {pred : ι → Bool} {word : List ι} :
    word ∈ letter pred * language ↔
      ∃ item rest, word = item :: rest ∧ pred item = true ∧ rest ∈ language := by
  rw [Language.mem_mul]
  constructor
  · rintro ⟨_, ⟨item, rfl, is⟩, rest, member, rfl⟩
    exact ⟨item, rest, rfl, is, member⟩
  · rintro ⟨item, rest, rfl, is, member⟩
    exact ⟨[item], ⟨item, rfl, is⟩, rest, member, rfl⟩

theorem mem_singleton_mul {front word : List ι} :
    word ∈ ({front} : Language ι) * language ↔ ∃ rest, word = front ++ rest ∧ rest ∈ language := by
  rw [Language.mem_mul]
  constructor
  · rintro ⟨_, rfl, rest, member, rfl⟩
    exact ⟨rest, rfl, member⟩
  · rintro ⟨rest, rfl, member⟩
    exact ⟨front, rfl, rest, member, rfl⟩

/-- How a word begins that goes on behind its first element with one out of a class. -/
theorem begins_with_letter {first : ι} {pred : ι → Bool} {word : List ι}
    (member : word ∈ ({[first]} : Language ι) * (letter pred * language)) :
    ∃ item rest, word = first :: item :: rest ∧ pred item = true := by
  obtain ⟨others, rfl, behind⟩ := mem_singleton_mul.mp member
  obtain ⟨item, rest, rfl, is, -⟩ := mem_letter_mul.mp behind
  exact ⟨item, rest, rfl, is⟩

/-- The words over a class. -/
theorem mem_letter_kstar {pred : ι → Bool} {word : List ι} :
    word ∈ (letter pred)∗ ↔ ∀ item ∈ word, pred item = true := by
  rw [Language.mem_kstar]
  constructor
  · rintro ⟨words, rfl, all⟩ item met
    obtain ⟨single, listed, inside⟩ := List.mem_flatten.mp met
    obtain ⟨other, rfl, is⟩ := all single listed
    rw [List.mem_singleton.mp inside]
    exact is
  · intro all
    refine ⟨word.map fun item => [item], by simp [← List.flatMap_def], fun single listed => ?_⟩
    obtain ⟨item, met, rfl⟩ := List.mem_map.mp listed
    exact ⟨item, rfl, all item met⟩

/-- A front over a class is the longest one where the rest does not go on with the class. -/
theorem takeWhile_front {pred : ι → Bool} {front rest : List ι}
    (all : ∀ item ∈ front, pred item = true) (ends : StopsAt pred rest) :
    (front ++ rest).takeWhile pred = front := by
  rw [List.takeWhile_append_of_pos all]
  cases rest with
  | nil => exact List.append_nil front
  | cons item rest =>
      rw [List.takeWhile_cons_of_neg (by simp [ends item rfl]), List.append_nil]

/-- Two ways to go on behind the longest front over a class are the same way. -/
theorem front_unique {pred : ι → Bool} {front front' rest rest' : List ι}
    (all : ∀ item ∈ front, pred item = true) (all' : ∀ item ∈ front', pred item = true)
    (ends : StopsAt pred rest) (ends' : StopsAt pred rest')
    (same : front ++ rest = front' ++ rest') : front = front' ∧ rest = rest' := by
  have fronts : front = front' := by
    rw [← takeWhile_front all ends, same, takeWhile_front all' ends']
  subst fronts
  exact ⟨rfl, List.append_cancel_left same⟩

namespace Recognises

theorem mono {stops' : List ι → Prop} (recognises : Recognises parser language stops)
    (stronger : ∀ rest, stops' rest → stops rest) : Recognises parser language stops' where
  sound := recognises.sound
  complete start word rest member ends :=
    recognises.complete start word rest member (stronger rest ends)

/-- It fails, uncommitted, where no word stands in front. -/
theorem fails (recognises : Recognises parser language stops) (input : Range ι)
    (excluded : ∀ front ∈ language, ¬ front <+: input.items) :
    ∃ error, parser input = .fail error ∧ error.fatal = false := by
  have ends := recognises.sound input
  cases outcome : parser input with
  | ok parsed =>
      rw [outcome] at ends
      obtain ⟨taken, split, -, member⟩ := ends
      exact absurd ⟨_, split.symm⟩ (excluded taken member)
  | fail error =>
      rw [outcome] at ends
      exact ⟨error, rfl, ends.2⟩
  | outside => exact (outcome ▸ ends).elim
  | spin => exact (outcome ▸ ends).elim

theorem one (pred : ι → Bool) : Recognises (one pred) (letter pred) (fun _ => True) where
  sound := (meets_one pred).mono (fun _ _ value _ holds => ⟨value, holds.1, holds.2⟩)
    fun _ _ fails => fails.1
  complete := by
    rintro start _ rest ⟨item, rfl, is⟩ -
    exact ⟨item, by simp [Front.one, is, Range.subspan]⟩

theorem tag (expected : Text) : Recognises (tag expected) {expected} (fun _ => True) where
  sound := (meets_tag expected).mono (fun _ _ _ _ holds => holds.2) fun _ _ fails => fails.1
  complete := by
    rintro start _ rest rfl -
    exact ⟨_, by rw [Front.tag, if_pos List.take_left, Range.subspan, List.drop_left]⟩

theorem takeWhile (pred : ι → Bool) :
    Recognises (takeWhile pred) (letter pred)∗ (StopsAt pred) where
  sound := (meets_takeWhile pred).mono (fun _ _ _ _ holds => mem_letter_kstar.mpr holds.2.1)
    fun _ _ fails => fails.elim
  complete := by
    intro start word rest member ends
    have longest := takeWhile_front (mem_letter_kstar.mp member) ends
    exact ⟨_, by simp only [Front.takeWhile, run, longest, Range.subspan, List.drop_left]; rfl⟩

theorem takeWhile1 (pred : ι → Bool) :
    Recognises (takeWhile1 pred) (letter pred * (letter pred)∗) (StopsAt pred) where
  sound := by
    refine (meets_takeWhile1 pred).mono ?_ fun _ _ fails => fails.1
    rintro _ taken _ _ ⟨-, nonempty, all, -⟩
    cases taken with
    | nil => exact absurd rfl nonempty
    | cons item taken =>
        exact mem_letter_mul.mpr ⟨item, taken, rfl, all item List.mem_cons_self,
          mem_letter_kstar.mpr fun other met => all other (List.mem_cons_of_mem _ met)⟩
  complete := by
    intro start word rest member ends
    obtain ⟨item, word, rfl, is, more⟩ := mem_letter_mul.mp member
    have all : ∀ other ∈ item :: word, pred other = true := by
      rintro other (_ | ⟨_, met⟩)
      · exact is
      · exact mem_letter_kstar.mp more other met
    have longest := takeWhile_front all ends
    have nonempty : ¬ (item :: word).length = 0 := by simp
    exact ⟨_, by
      simp only [Front.takeWhile1, run, longest, if_neg nonempty, Range.subspan, List.drop_left]
      rfl⟩

theorem recognize (recognises : Recognises parser language stops) :
    Recognises (recognize parser) language stops where
  sound := recognises.sound.recognize.mono (fun _ _ _ _ ⟨_, _, member⟩ => member) fun _ _ => id
  complete := by
    intro start word rest member ends
    obtain ⟨value, taken⟩ := recognises.complete start word rest member ends
    exact ⟨_, by rw [Front.recognize, taken]; rfl⟩

/-- The second part takes its words behind the first, which has to stop there. -/
theorem seq {second : Parser ι β} {language' : Language ι} {stops' : List ι → Prop}
    (first : Recognises parser language stops) (next : Recognises second language' stops')
    (hands : ∀ word ∈ language', ∀ rest, stops' rest → stops (word ++ rest)) :
    Recognises (Front.seq parser second) (language * language') stops' where
  sound := by
    apply (first.sound.seq next.sound).mono
    · rintro start _ value rest ⟨front, back, rfl, member, member'⟩
      exact Language.append_mem_mul member member'
    · rintro items error (mild | ⟨-, -, -, inner, -, -, mild, same⟩)
      · exact mild
      · rw [same, mild]
  complete := by
    intro start word rest member ends
    obtain ⟨front, inFront, back, behind, rfl⟩ := Language.mem_mul.mp member
    obtain ⟨left, taken⟩ := first.complete start front (back ++ rest) inFront
      (hands back behind rest ends)
    obtain ⟨right, taken'⟩ := next.complete (start + front.length) back rest behind ends
    refine ⟨(left, right), ?_⟩
    rw [Front.seq, List.append_assoc, taken, Outcome.ok_bind]
    simp only [taken', Outcome.mapError_ok, Outcome.ok_bind, List.length_append, Nat.add_assoc]

/-- The rest must not begin with a word, which would be taken. -/
theorem opt (recognises : Recognises parser language stops) :
    Recognises (Front.opt parser) (1 + language)
      (fun rest => stops rest ∧ ∀ front ∈ language, ¬ front <+: rest) where
  sound := by
    apply recognises.sound.opt.mono
    · intro start taken value rest holds
      cases value with
      | none => exact .inl holds.1
      | some value => exact .inr holds
    · rintro items error ⟨committed, mild⟩
      exact absurd (committed.symm.trans mild) (by decide)
  complete := by
    rintro start word rest (rfl | member) ⟨ends, excluded⟩
    · obtain ⟨error, failed, mild⟩ := recognises.fails ⟨start, rest⟩ excluded
      exact ⟨Option.none, by simp [Front.opt, failed, mild]⟩
    · obtain ⟨value, taken⟩ := recognises.complete start word rest member ends
      exact ⟨some value, by simp [Front.opt, taken]⟩

/-- In front of a word of the second alternative the first one takes nothing else than that word. -/
theorem alt {second : Parser ι α} {language' : Language ι}
    (first : Recognises parser language stops) (other : Recognises second language' stops)
    (unhidden : ∀ word ∈ language', ∀ rest, stops rest → ∀ front ∈ language,
      front <+: word ++ rest → front = word) :
    Recognises (Front.alt parser second) (language + language') stops where
  sound := by
    apply (first.sound.alt other.sound).mono
    · rintro start taken value rest (member | ⟨member, -⟩)
      · exact .inl member
      · exact .inr member
    · rintro items error (⟨committed, mild⟩ | ⟨committed, mild⟩ | ⟨mild, -⟩)
      · exact mild
      · exact mild
      · exact mild
  complete := by
    rintro start word rest (member | member) ends
    · obtain ⟨value, taken⟩ := first.complete start word rest member ends
      exact ⟨value, by simp [Front.alt, taken]⟩
    · by_cases hidden : ∃ front ∈ language, front <+: word ++ rest
      · obtain ⟨front, member', isFront⟩ := hidden
        have same := unhidden word member rest ends front member' isFront
        obtain ⟨value, taken⟩ := first.complete start word rest (same ▸ member') ends
        exact ⟨value, by simp [Front.alt, taken]⟩
      · obtain ⟨error, failed, mild⟩ := first.fails ⟨start, word ++ rest⟩
          fun front member' isFront => hidden ⟨front, member', isFront⟩
        obtain ⟨value, taken⟩ := other.complete start word rest member ends
        exact ⟨value, by simp [Front.alt, failed, mild, taken]⟩

/-- Wrapped in `all_consuming`, the parser decides its language. -/
theorem allConsuming_iff (recognises : Recognises parser language stops) (ends : stops [])
    (input : Range ι) :
    (∃ parsed, Front.allConsuming parser input = .ok parsed) ↔ input.items ∈ language := by
  constructor
  · rintro ⟨parsed, all⟩
    obtain ⟨inner, taken, finished⟩ := Outcome.bind_eq_ok.mp all
    have sound := recognises.sound input
    rw [taken] at sound
    obtain ⟨front, split, -, member⟩ := sound
    split_ifs at finished with empty
    · rw [List.isEmpty_iff.mp empty, List.append_nil] at split
      rw [split]
      exact member
    · cases finished
  · intro member
    obtain ⟨value, taken⟩ := recognises.complete input.data input.items [] member ends
    rw [List.append_nil] at taken
    exact ⟨_, by rw [Front.allConsuming, show parser input = _ from taken]; rfl⟩

end Recognises

end Recognition

end Front
end RapidProto
