import Mathlib.Data.List.Basic

/-!
# Keys that are taken once

Entries are registered one after the other, each under a key that no entry before it has.  Either
all of them are registered, or one of them repeats a key.
-/

namespace RapidProto

section Registry

variable {α κ : Type} (keyed : α → κ → Prop)

/-- The entries are registered behind the keys that are taken, each under a key of its own. -/
inductive Registers : List κ → List α → List κ → Prop where
  /-- Nothing is registered. -/
  | nil (taken : List κ) : Registers taken [] taken
  /-- The first entry is registered, and the others behind it. -/
  | cons {taken taken' : List κ} {entry : α} {entries : List α} {key : κ} (has : keyed entry key)
      (fresh : key ∉ taken) (rest : Registers (taken ++ [key]) entries taken') :
      Registers taken (entry :: entries) taken'

/-- An entry has a key that is taken before its turn. -/
def Repeats (taken : List κ) (entries : List α) (entry : α) (key : κ) : Prop :=
  ∃ before after, entries = before ++ entry :: after ∧ keyed entry key ∧
    (key ∈ taken ∨ ∃ first ∈ before, keyed first key)

end Registry

section Rules

variable {α κ : Type} {keyed : α → κ → Prop} {taken taken' taken'' : List κ}
  {entries more : List α} {entry : α} {key : κ}

theorem Registers.single (has : keyed entry key) (fresh : key ∉ taken) :
    Registers keyed taken [entry] (taken ++ [key]) :=
  .cons has fresh (.nil _)

theorem Registers.append (first : Registers keyed taken entries taken')
    (second : Registers keyed taken' more taken'') :
    Registers keyed taken (entries ++ more) taken'' := by
  induction first with
  | nil => exact second
  | cons has fresh _ ih => exact .cons has fresh (ih second)

/-- A taken key was taken before, or by one of the entries. -/
theorem Registers.source (registers : Registers keyed taken entries taken')
    (listed : key ∈ taken') :
    key ∈ taken ∨ ∃ entry ∈ entries, keyed entry key := by
  induction registers with
  | nil => exact .inl listed
  | cons has _ _ ih =>
      rcases ih listed with listed' | ⟨entry, inRest, has'⟩
      · rcases List.mem_append.mp listed' with listed' | isLast
        · exact .inl listed'
        · rw [List.mem_singleton.mp isLast]
          exact .inr ⟨_, List.mem_cons_self, has⟩
      · exact .inr ⟨entry, List.mem_cons_of_mem _ inRest, has'⟩

theorem Registers.mono {keyed' : α → κ → Prop} (registers : Registers keyed taken entries taken')
    (same : ∀ entry ∈ entries, ∀ key, keyed entry key → keyed' entry key) :
    Registers keyed' taken entries taken' := by
  induction registers with
  | nil => exact .nil _
  | cons has fresh _ ih =>
      exact .cons (same _ List.mem_cons_self _ has) fresh
        (ih fun entry inRest => same entry (List.mem_cons_of_mem _ inRest))

/-- Entries that are registered repeat no key. -/
theorem Registers.not_repeats (registers : Registers keyed taken entries taken')
    (unique : ∀ entry key key', keyed entry key → keyed entry key' → key = key') :
    ¬ Repeats keyed taken entries entry key := by
  induction registers with
  | nil =>
      rintro ⟨before, after, split, -⟩
      exact List.append_ne_nil_of_right_ne_nil before (List.cons_ne_nil entry after) split.symm
  | cons has fresh _ ih =>
      rintro ⟨before, after, split, has', before'⟩
      cases before with
      | nil =>
          obtain ⟨rfl, rfl⟩ := List.cons.inj split
          obtain rfl := unique _ _ _ has has'
          rcases before' with listed | ⟨first, inNil, -⟩
          · exact fresh listed
          · cases inNil
      | cons head before =>
          obtain ⟨rfl, rfl⟩ := List.cons.inj split
          refine ih ⟨before, after, rfl, has', ?_⟩
          rcases before' with listed | ⟨first, inBefore, has''⟩
          · exact .inl (List.mem_append_left _ listed)
          · rcases List.mem_cons.mp inBefore with rfl | inBefore
            · rw [unique _ _ _ has'' has]
              exact .inl (List.mem_append_right _ List.mem_cons_self)
            · exact .inr ⟨first, inBefore, has''⟩

theorem Repeats.single (has : keyed entry key) (listed : key ∈ taken) :
    Repeats keyed taken [entry] entry key :=
  ⟨[], [], rfl, has, .inl listed⟩

theorem Repeats.left (repeats : Repeats keyed taken entries entry key) (more : List α) :
    Repeats keyed taken (entries ++ more) entry key := by
  obtain ⟨before, after, rfl, has, earlier⟩ := repeats
  exact ⟨before, after ++ more, by simp, has, earlier⟩

/-- A repetition behind entries whose keys are the ones taken since. -/
theorem Repeats.right (source : ∀ key ∈ taken', key ∈ taken ∨ ∃ first ∈ entries, keyed first key)
    (repeats : Repeats keyed taken' more entry key) :
    Repeats keyed taken (entries ++ more) entry key := by
  obtain ⟨before, after, rfl, has, earlier⟩ := repeats
  refine ⟨entries ++ before, after, by rw [List.append_assoc], has, ?_⟩
  rcases earlier with listed | ⟨first, inBefore, has'⟩
  · rcases source key listed with listed | ⟨first, inEntries, has'⟩
    · exact .inl listed
    · exact .inr ⟨first, List.mem_append_left _ inEntries, has'⟩
  · exact .inr ⟨first, List.mem_append_right _ inBefore, has'⟩

theorem Repeats.mono {keyed' : α → κ → Prop} (repeats : Repeats keyed taken entries entry key)
    (same : ∀ entry ∈ entries, ∀ key, keyed entry key → keyed' entry key) :
    Repeats keyed' taken entries entry key := by
  obtain ⟨before, after, rfl, has, earlier⟩ := repeats
  refine ⟨before, after, rfl, same _ (by simp) _ has, earlier.imp_right ?_⟩
  rintro ⟨first, inBefore, has'⟩
  exact ⟨first, inBefore, same _ (List.mem_append_left _ inBefore) _ has'⟩

end Rules

end RapidProto
