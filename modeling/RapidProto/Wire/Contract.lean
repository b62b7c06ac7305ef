import RapidProto.Wire.Grammar

/-!
# Contracts of the tag and group readers

The fused tag read with everything a call leaves behind, and the group read against the grammar and
against the group skip.
-/

namespace RapidProto

/-! ## The fused tag read -/

/-- `TagState`, each state with the out-parameter that is written for it. -/
inductive TagState where
  | tag (found : Tag)
  | atEnd
  | error (failure : WireError)
  deriving DecidableEq, Repr

/-- The state and the returned cursor after `read_tag` was called at `p`: a null result leaves the
caller at `p`. -/
def TagState.ofRead (p : Cursor) (read : Outcome WireError (Tag × Cursor)) :
    Outcome WireError (TagState × Cursor) :=
  match read with
  | .ok (found, np) => .ok (TagState.tag found, np)
  | .fail failure => .ok (TagState.error failure, p)
  | .outside => .outside
  | .spin => .spin

/-- `read_tag_or_end`, with the state it writes and the cursor it returns. -/
def readTagOrEndState (p : Cursor) : Outcome WireError (TagState × Cursor) :=
  if p.length = 0 then .ok (.atEnd, p)
  else do
    let b ← peek p 0
    if terminates b then
      match b.toNat >>> 3, WireType.ofCode (b.toNat &&& 7) with
      | field + 1, some wire => do
        let rest ← advance p 1
        .ok (.tag ⟨field + 1, wire⟩, rest)
      | _, _ => general
    else if 2 ≤ p.length then do
      let b1 ← peek p 1
      if b1 - 1 < 0x7F then
        let value := (b.toNat &&& 0x7F) ||| (b1.toNat <<< 7)
        match WireType.ofCode (value &&& 7) with
        | some wire => do
          let rest ← advance p 2
          .ok (.tag ⟨value >>> 3, wire⟩, rest)
        | none => general
      else general
    else general
where
  /-- Three or more bytes, non-canonical, or invalid. -/
  general : Outcome WireError (TagState × Cursor) :=
    TagState.ofRead p (readTag p)

theorem readTagOrEndState_eq (p : Cursor) :
    readTagOrEndState p =
      if p.length = 0 then .ok (.atEnd, p) else TagState.ofRead p (readTag p) := by
  cases p with
  | nil => rfl
  | cons b rest =>
      have fused : ∀ {found tail}, tag (b :: rest) = .ok (found, tail) →
          TagState.ofRead (b :: rest) (readTag (b :: rest)) = .ok (.tag found, tail) := by
        intro found tail read
        rw [readTag_eq, read]
        rfl
      simp only [readTagOrEndState, readTagOrEndState.general, List.length_cons,
        Nat.add_eq_zero_iff, one_ne_zero, and_false, if_false, peek_cons_zero, Outcome.ok_bind,
        advance_cons_one]
      split
      · rename_i last
        split
        · rename_i field wire fieldIs wireIs
          exact (fused (tag_oneByte last fieldIs wireIs rest)).symm
        · rfl
      · rename_i continues
        split
        · rename_i two
          obtain ⟨b1, rest, rfl⟩ : ∃ b1 rest', rest = b1 :: rest' := by
            cases rest with
            | nil => simp at two
            | cons b1 rest => exact ⟨b1, rest, rfl⟩
          simp only [peek_cons_succ, peek_cons_zero, Outcome.ok_bind]
          split
          · rename_i canonical
            split
            · rename_i wire wireIs
              rw [fused (tag_twoBytes (by simpa using continues) canonical wireIs rest)]
              simp [advance]
            · rfl
          · rfl
        · rfl

/-- What a decode loop does with the result of the call. -/
def TagState.observe : TagState × Cursor → Outcome WireError (Option (Tag × Cursor))
  | (.tag found, rest) => .ok (some (found, rest))
  | (.atEnd, _) => .ok none
  | (.error failure, _) => .fail failure

theorem readTagOrEndState_observe (p : Cursor) :
    readTagOrEndState p >>= TagState.observe = readTagOrEnd p := by
  rw [readTagOrEndState_eq, readTagOrEnd_eq, readTag_eq]
  cases p with
  | nil => rfl
  | cons b rest =>
      rw [tagOrEnd, if_neg (by simp)]
      cases tag (b :: rest) <;> rfl

/-- The fused read is the test for the end followed by `read_tag`: the same state with the same tag
and advanced cursor, or the same error with the cursor unmoved.  It is the read that drives the
decode loops, and it stays inside the buffer. -/
theorem readTagOrEnd_is_readTag (p : Cursor) :
    readTagOrEndState p =
        (if p.length = 0 then .ok (.atEnd, p) else TagState.ofRead p (readTag p)) ∧
      readTagOrEndState p >>= TagState.observe = readTagOrEnd p ∧ (readTag p).Safe := by
  refine ⟨readTagOrEndState_eq p, readTagOrEndState_observe p, ?_⟩
  rw [readTag_eq]
  exact Outcome.safe_ofExcept _

/-! ## The group read -/

theorem readGroup_iff {span number : Nat} {p rest : Cursor} {body : List Byte} :
    readGroup span number p = .ok (body, rest) ↔
      ∃ records mark, EncodesInner kMaxGroupDepth records body ∧
        EncodesTag ⟨number, .egroup⟩ mark ∧ p = body ++ (mark ++ rest) := by
  constructor
  · intro read
    obtain ⟨⟨closing, rest'⟩, scanned, viewed⟩ := Outcome.bind_eq_ok.mp read
    obtain ⟨records, body', mark, encodes, closes, rfl, rfl⟩ :=
      (scans_outermost span number p closing rest').mp scanned
    rw [readGroup_of_encodes encodes closes] at read
    cases read
    exact ⟨records, mark, encodes, closes, rfl⟩
  · rintro ⟨records, mark, encodes, closes, rfl⟩
    exact readGroup_of_encodes encodes closes span rest

/-- Skipping a group and reading it agree in success, cursor and failure. -/
theorem readGroup_eq_skipValue (span number : Nat) (p : Cursor) :
    Prod.snd <$> readGroup span number p = skipValue span ⟨number, .sgroup⟩ p := by
  rw [readGroup_eq, skipValue_eq, payload]
  cases groupBody span number p <;> rfl

theorem readGroup_inBody {span number : Nat} {p : Cursor} {failure : WireFail}
    (inside : p.length ≤ span) (failed : readGroup span number p = .fail failure) :
    failure.InBody span := by
  have skipped : skipValue span ⟨number, .sgroup⟩ p = .fail failure := by
    rw [← readGroup_eq_skipValue, failed]
    rfl
  exact skipValueWith_inBody (fun _ _ _ inside' failed' => scanGroupEnd_inBody inside' failed')
    inside skipped

/-- A group is read iff the bytes hold a well-nested body closed by its end tag; the body can then
be walked to its end, and reading agrees with skipping, whose failures lie in the buffer. -/
theorem readGroup_contract (before p : Cursor) (number : Nat) :
    (∀ body rest, readGroup (before ++ p).length number p = .ok (body, rest) ↔
      ∃ records mark, Encodes (kMaxGroupDepth - 1) records body ∧
        EncodesTag ⟨number, .egroup⟩ mark ∧ p = body ++ (mark ++ rest)) ∧
    (∀ body rest, readGroup (before ++ p).length number p = .ok (body, rest) →
      ∃ skipped, walk (fun _ => false) body = .ok skipped) ∧
    Prod.snd <$> readGroup (before ++ p).length number p =
      skipValue (before ++ p).length ⟨number, .sgroup⟩ p ∧
    (∀ failure, readGroup (before ++ p).length number p = .fail failure →
      failure.span = (before ++ p).length ∧ failure.Within) ∧
    (readGroup (before ++ p).length number p).Safe := by
  refine ⟨fun body rest => readGroup_iff, fun body rest read => ?_, readGroup_eq_skipValue _ _ _,
    fun failure failed => ?_, readGroup_safe _ _ _⟩
  · obtain ⟨records, mark, encodes, -, -⟩ := readGroup_iff.mp read
    have shallow : Encodes kMaxGroupDepth records body := encodes_mono (by decide) encodes
    exact ⟨_, walk_encoded _ shallow⟩
  · obtain ⟨within, span, -⟩ := readGroup_inBody (by simp) failed
    exact ⟨span, within⟩

end RapidProto
