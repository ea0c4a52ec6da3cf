import TaggedUnion.Text.Span

/-!
# Cutting a text at byte positions

A text can be cut at a position if that falls between two characters.

* `Text.InsideCharacter`: the positions at which a text cannot be cut.
* `takeBytes?_eq_some_iff`, `takeBytes?_eq_none_iff`: which first part a cut leaves, and when there
  is none.
* `slice?_append`: the text of a span that covers whole characters.
-/

namespace TaggedUnion.Text

/-- The position falls inside a character of the text. -/
def InsideCharacter (position : Nat) (cs : List Char) : Prop :=
  ∃ before c after, cs = before ++ c :: after ∧ byteSize before < position ∧
    position < byteSize before + c.utf8Size

@[simp] theorem byteSize_nil : byteSize [] = 0 := rfl

@[simp] theorem byteSize_cons (c : Char) (cs : List Char) :
    byteSize (c :: cs) = c.utf8Size + byteSize cs := rfl

theorem byteSize_pos {cs : List Char} (h : cs ≠ []) : 0 < byteSize cs := by
  cases cs with
  | nil => exact absurd rfl h
  | cons c cs =>
    have := c.utf8Size_pos
    rw [byteSize_cons]
    omega

theorem takeBytes?_eq_some_iff {n : Nat} {cs part : List Char} :
    takeBytes? n cs = some part ↔ part <+: cs ∧ byteSize part = n := by
  induction cs generalizing n part with
  | nil =>
    rw [takeBytes?, List.prefix_nil]
    constructor
    · intro h
      split at h <;> simp_all
    · rintro ⟨rfl, rfl⟩
      rfl
  | cons c cs ih =>
    have hsize := c.utf8Size_pos
    rw [takeBytes?, List.prefix_cons_iff]
    split
    · rename_i hzero
      subst hzero
      constructor
      · rintro ⟨⟩
        exact ⟨.inl rfl, rfl⟩
      · rintro ⟨rfl | ⟨rest, rfl, -⟩, hn⟩
        · rfl
        · rw [byteSize_cons] at hn
          omega
    · rename_i hpos
      split
      · rw [Option.map_eq_some_iff]
        simp only [ih]
        constructor
        · rintro ⟨rest, ⟨hinitial, hn⟩, rfl⟩
          exact ⟨.inr ⟨rest, rfl, hinitial⟩, by rw [byteSize_cons]; omega⟩
        · rintro ⟨rfl | ⟨rest, rfl, hinitial⟩, hn⟩
          · exact absurd hn.symm hpos
          · rw [byteSize_cons] at hn
            exact ⟨rest, ⟨hinitial, by omega⟩, rfl⟩
      · refine ⟨nofun, ?_⟩
        rintro ⟨rfl | ⟨rest, rfl, -⟩, hn⟩
        · exact absurd hn.symm hpos
        · rw [byteSize_cons] at hn
          omega

/-- A text can be cut at any position that is not inside a character. -/
theorem takeBytes?_eq_none_iff {n : Nat} {cs : List Char} (hn : n ≤ byteSize cs) :
    takeBytes? n cs = none ↔ InsideCharacter n cs := by
  induction cs generalizing n with
  | nil =>
    obtain rfl : n = 0 := by simpa using hn
    simp [takeBytes?, InsideCharacter]
  | cons c cs ih =>
    rw [byteSize_cons] at hn
    have hsize := c.utf8Size_pos
    -- The position is inside the first character, or inside another one.
    have hcons : InsideCharacter n (c :: cs) ↔
        (0 < n ∧ n < c.utf8Size) ∨ (c.utf8Size ≤ n ∧ InsideCharacter (n - c.utf8Size) cs) := by
      constructor
      · rintro ⟨before, d, after, hsplit, hlow, hhigh⟩
        rcases List.cons_eq_append_iff.mp hsplit with ⟨rfl, hcons⟩ | ⟨rest, rfl, hrest⟩
        · cases hcons
          exact .inl ⟨hlow, by simpa using hhigh⟩
        · rw [byteSize_cons] at hlow hhigh
          exact .inr ⟨by omega, rest, d, after, hrest, by omega, by omega⟩
      · rintro (⟨hlow, hhigh⟩ | ⟨hle, before, d, after, rfl, hlow, hhigh⟩)
        · exact ⟨[], c, cs, rfl, hlow, by simpa using hhigh⟩
        · exact ⟨c :: before, d, after, rfl, by rw [byteSize_cons]; omega,
            by rw [byteSize_cons]; omega⟩
    rw [takeBytes?, hcons]
    split
    · simp only [reduceCtorEq, false_iff]
      omega
    · split
      · rename_i hle
        rw [Option.map_eq_none_iff, ih (by omega)]
        constructor
        · exact fun h => .inr ⟨hle, h⟩
        · rintro (⟨-, hlt⟩ | ⟨-, h⟩)
          · omega
          · exact h
      · simp only [true_iff]
        exact .inl ⟨by omega, by omega⟩

theorem takeBytes?_append (part rest : List Char) :
    takeBytes? (byteSize part) (part ++ rest) = some part :=
  takeBytes?_eq_some_iff.mpr ⟨List.prefix_append part rest, rfl⟩

theorem dropBytes?_append (part rest : List Char) :
    dropBytes? (byteSize part) (part ++ rest) = some rest := by
  induction part with
  | nil => cases rest <;> simp [dropBytes?]
  | cons c part ih =>
    have := c.utf8Size_pos
    rw [List.cons_append, byteSize_cons, dropBytes?, if_neg (by omega), if_pos (by omega),
      Nat.add_sub_cancel_left, ih]

/-- A span that covers whole characters has them for its text. -/
theorem slice?_append {before middle after : List Char} {span : Span}
    (hstart : span.start = byteSize before) (hstop : span.stop = span.start + byteSize middle) :
    slice? span (before ++ (middle ++ after)) = some middle := by
  rw [slice?, hstart, dropBytes?_append, Option.bind_some, hstop, hstart, Nat.add_sub_cancel_left,
    takeBytes?_append]

end TaggedUnion.Text

namespace TaggedUnion

theorem Source.slice_eq {source : Source} {span : Span} {before middle after : List Char}
    (hbody : source.body.toList = before ++ (middle ++ after))
    (hstart : span.start = Text.byteSize before)
    (hstop : span.stop = span.start + Text.byteSize middle) :
    source.slice span = String.ofList middle := by
  rw [slice, hbody, Text.slice?_append hstart hstop, Option.getD_some]

end TaggedUnion
