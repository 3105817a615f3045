import Mathlib.Data.List.Infix

/-!
# Substituting the Matches of a Pattern

A text is read from left to right: where the pattern matches, the match is replaced and the reading
goes on after it, and every other character stays (`Pattern.substitute`). A pattern is given by what
it finds at the head of a text, and never matches the empty text there.

The fuel of `substituteFuel` is scaffolding: with as much fuel as the text has characters the result
is that of `substitute` (`substituteFuel_eq`), which has its own equations.

## Main results

* `Pattern.substitute_of_find`, `Pattern.substitute_of_miss`: one step of the reading.
* `Pattern.substitute_append`: a part without matches stays.
* `Pattern.substitute_eq_self`: a text whose matches are all replaced by themselves stays.
* `exists_of_suffix_flatMap`: where a suffix of a concatenation starts.
* `Pattern.Masks.masking`: what a pattern that only masks leaves of a text was there before.
* `Pattern.not_infix_literal`: a literal that is masked is gone.
-/

namespace Rewriting

variable {α : Type}

/-- What is found at the head of a text: the replacement of the match, and the text after it. -/
structure Pattern (α : Type) where
  find : List α → Option (List α × List α)
  shorter : ∀ {s r rest}, find s = some (r, rest) → rest.length < s.length

namespace Pattern

variable (p : Pattern α)

/-- Replace the matches, reading at most so many times. -/
def substituteFuel : ℕ → List α → List α
  | 0, cs => cs
  | _ + 1, [] => []
  | n + 1, c :: cs =>
    match p.find (c :: cs) with
    | some (r, rest) => r ++ substituteFuel n rest
    | none => c :: substituteFuel n cs

/-- Replace all matches. -/
def substitute (s : List α) : List α := p.substituteFuel s.length s

variable {p}

private theorem substituteFuel_eq_of_le {m n : ℕ} {s : List α} (hm : s.length ≤ m) (hn : s.length ≤ n) :
    p.substituteFuel m s = p.substituteFuel n s := by
  induction m generalizing n s with
  | zero =>
      obtain rfl := List.length_eq_zero_iff.mp (Nat.le_zero.mp hm)
      cases n <;> rfl
  | succ m ih =>
      cases s with
      | nil => cases n <;> rfl
      | cons c cs =>
          obtain ⟨n, rfl⟩ := Nat.exists_eq_add_one_of_ne_zero
            (show n ≠ 0 by rw [List.length_cons] at hn; omega)
          rw [List.length_cons] at hm hn
          rw [substituteFuel, substituteFuel]
          cases hfind : p.find (c :: cs) with
          | none => exact congrArg (c :: ·) (ih (by omega) (by omega))
          | some found =>
              have hlt := p.shorter hfind
              rw [List.length_cons] at hlt
              exact congrArg (found.1 ++ ·) (ih (by omega) (by omega))

/-- **The fuel does not matter** when it reaches to the end. -/
theorem substituteFuel_eq {n : ℕ} {s : List α} (h : s.length ≤ n) :
    p.substituteFuel n s = p.substitute s :=
  substituteFuel_eq_of_le h le_rfl

@[simp] theorem substitute_nil : p.substitute [] = [] := rfl

/-- **A match is replaced**, and the reading goes on after it. -/
theorem substitute_of_find {s r rest : List α} (h : p.find s = some (r, rest)) :
    p.substitute s = r ++ p.substitute rest := by
  have hlt := p.shorter h
  cases s with
  | nil => exact absurd hlt (Nat.not_lt_zero _)
  | cons c cs =>
      rw [List.length_cons] at hlt
      rw [substitute, List.length_cons, substituteFuel, h]
      exact congrArg (r ++ ·) (substituteFuel_eq (by omega))

/-- **A character that starts no match stays.** -/
theorem substitute_of_miss {c : α} {cs : List α} (h : p.find (c :: cs) = none) :
    p.substitute (c :: cs) = c :: p.substitute cs := by
  rw [substitute, List.length_cons, substituteFuel, h]
  exact congrArg (c :: ·) (substituteFuel_eq le_rfl)

/-- A part in which no match starts stays. -/
theorem substitute_append {u s : List α} (h : ∀ c ∈ u, ∀ cs, p.find (c :: cs) = none) :
    p.substitute (u ++ s) = u ++ p.substitute s := by
  induction u with
  | nil => rfl
  | cons c u ih =>
      rw [List.cons_append, substitute_of_miss (h c List.mem_cons_self _),
        ih fun c' hc' => h c' (List.mem_cons_of_mem c hc'), List.cons_append]

/-- **A text whose matches are all replaced by themselves stays as it is.** -/
theorem substitute_eq_self {s : List α}
    (h : ∀ u, u <:+ s → ∀ r rest, p.find u = some (r, rest) → u = r ++ rest) :
    p.substitute s = s := by
  induction hn : s.length using Nat.strong_induction_on generalizing s with
  | _ n ih =>
      cases s with
      | nil => rfl
      | cons c cs =>
          cases hfind : p.find (c :: cs) with
          | none =>
              have hcs := ih cs.length (by rw [← hn, List.length_cons]; omega)
                (fun u hu => h u (hu.trans (List.suffix_cons c cs))) rfl
              rw [substitute_of_miss hfind, hcs]
          | some found =>
              obtain ⟨r, rest⟩ := found
              have heq := h _ List.suffix_rfl r rest hfind
              have hrest := ih rest.length (by rw [← hn]; exact p.shorter hfind)
                (fun u hu => h u (hu.trans (heq ▸ List.suffix_append r rest))) rfl
              rw [substitute_of_find hfind, hrest, heq]

end Pattern

/-- A suffix of two texts one after the other is one of the second, or starts in the first. -/
theorem suffix_append_cases {s u v : List α} (h : s <:+ u ++ v) :
    s <:+ v ∨ ∃ w, w <:+ u ∧ w ≠ [] ∧ s = w ++ v := by
  obtain ⟨t, ht⟩ := h
  rcases List.append_eq_append_iff.mp ht with ⟨w, hu, hs⟩ | ⟨w, -, hv⟩
  · by_cases hw : w = []
    · exact Or.inl ⟨[], by rw [hs, hw, List.nil_append, List.nil_append]⟩
    · exact Or.inr ⟨w, ⟨t, hu.symm⟩, hw, hs⟩
  · exact Or.inl ⟨w, hv.symm⟩

/-- **Where a suffix of a concatenation starts**: inside of one of its parts. -/
theorem exists_of_suffix_flatMap {β : Type} {render : β → List α} {parts : List β} {s : List α}
    (h : s <:+ parts.flatMap render) (hne : s ≠ []) :
    ∃ part rest w, part :: rest <:+ parts ∧ w <:+ render part ∧ w ≠ [] ∧
      s = w ++ rest.flatMap render := by
  induction parts with
  | nil => exact absurd (List.suffix_nil.mp h) hne
  | cons part rest ih =>
      rw [List.flatMap_cons] at h
      rcases suffix_append_cases h with hrest | ⟨w, hw, hwne, hs⟩
      · obtain ⟨part', rest', w, hsuffix, hw⟩ := ih hrest
        exact ⟨part', rest', w, hsuffix.trans (List.suffix_cons part rest), hw⟩
      · exact ⟨part, rest, w, List.suffix_rfl, hw, hwne, hs⟩

/-! ### Masking -/

/-- A text is a masking of another one: whatever it shows without a mark, at its beginning or
anywhere, the other one shows as well. -/
structure Masking (mark : α) (s u : List α) : Prop where
  head : ∀ {t}, mark ∉ t → t <+: u → t <+: s
  part : ∀ {t}, mark ∉ t → t <:+: u → t <:+: s

section Masking

variable {mark : α} {s s' u m t : List α}

/-- Behind marks, everything without one is still there. -/
theorem infix_of_infix_marks (hm : ∀ c ∈ m, c = mark) (ht : mark ∉ t) (h : t <:+: m ++ u) :
    t <:+: u := by
  induction m with
  | nil => exact h
  | cons c m ih =>
      obtain rfl := hm c List.mem_cons_self
      rcases List.infix_cons_iff.mp h with hhead | htail
      · cases t with
        | nil => exact List.nil_infix
        | cons d t =>
            obtain rfl := (List.cons_prefix_cons.mp hhead).1
            exact absurd List.mem_cons_self ht
      · exact ih (fun d hd => hm d (List.mem_cons_of_mem c hd)) htail

namespace Masking

theorem refl (s : List α) : Masking mark s s := ⟨fun _ h => h, fun _ h => h⟩

theorem trans (h : Masking mark s s') (h' : Masking mark s' u) : Masking mark s u :=
  ⟨fun ht hu => h.head ht (h'.head ht hu), fun ht hu => h.part ht (h'.part ht hu)⟩

/-- A character may be kept, -/
theorem cons (h : Masking mark s u) (c : α) : Masking mark (c :: s) (c :: u) := by
  have hhead : ∀ {t}, mark ∉ t → t <+: c :: u → t <+: c :: s := by
    intro t ht htu
    cases t with
    | nil => exact List.nil_prefix
    | cons d t =>
        obtain ⟨rfl, hprefix⟩ := List.cons_prefix_cons.mp htu
        have ht' : mark ∉ t := fun hmem => ht (List.mem_cons_of_mem d hmem)
        exact List.cons_prefix_cons.mpr ⟨rfl, h.head ht' hprefix⟩
  refine ⟨hhead, fun ht htu => ?_⟩
  rcases List.infix_cons_iff.mp htu with hfirst | hrest
  · exact (hhead ht hfirst).isInfix
  · exact List.infix_cons (h.part ht hrest)

/-- and so may a part of the text, -/
theorem append (h : Masking mark s u) (a : List α) : Masking mark (a ++ s) (a ++ u) := by
  induction a with
  | nil => exact h
  | cons c a ih => exact ih.cons c

/-- and a part may be replaced by marks. -/
theorem mask (h : Masking mark s u) (v : List α) (hne : m ≠ []) (hm : ∀ c ∈ m, c = mark) :
    Masking mark (v ++ s) (m ++ u) := by
  refine ⟨fun {t} ht htu => ?_, fun ht htu =>
    List.infix_append_of_infix_right (h.part ht (infix_of_infix_marks hm ht htu))⟩
  obtain ⟨c, m, rfl⟩ := List.exists_cons_of_ne_nil hne
  obtain rfl := hm c List.mem_cons_self
  cases t with
  | nil => exact List.nil_prefix
  | cons d t =>
      obtain rfl := (List.cons_prefix_cons.mp htu).1
      exact absurd List.mem_cons_self ht

end Masking

namespace Pattern

variable {p : Pattern α}

/-- A pattern that only masks: of a match it replaces one part by marks and keeps the rest. -/
def Masks (mark : α) (p : Pattern α) : Prop :=
  ∀ s r rest, p.find s = some (r, rest) → ∃ a v m b, s = a ++ (v ++ (b ++ rest)) ∧
    r = a ++ (m ++ b) ∧ m ≠ [] ∧ ∀ c ∈ m, c = mark

/-- **A pattern that only masks makes a masking of every text.** -/
theorem Masks.masking (h : p.Masks mark) (s : List α) : Masking mark s (p.substitute s) := by
  induction hn : s.length using Nat.strong_induction_on generalizing s with
  | _ n ih =>
      cases s with
      | nil => exact .refl []
      | cons c cs =>
          cases hfind : p.find (c :: cs) with
          | none =>
              rw [substitute_of_miss hfind]
              exact (ih cs.length (by rw [← hn, List.length_cons]; omega) cs rfl).cons c
          | some found =>
              obtain ⟨r, rest⟩ := found
              have hrest := ih rest.length (by rw [← hn]; exact p.shorter hfind) rest rfl
              rw [substitute_of_find hfind]
              obtain ⟨a, v, m, b, hs, rfl, hne, hm⟩ := h _ r rest hfind
              rw [hs, List.append_assoc, List.append_assoc]
              exact ((hrest.append b).mask v hne hm).append a

/-- A literal and its replacement. -/
def literal [DecidableEq α] (word : List α) (hne : word ≠ []) (r : List α) : Pattern α where
  find s := if word.isPrefixOf s then some (r, s.drop word.length) else none
  shorter := by
    intro s r' rest h
    split at h
    · rename_i hprefix
      obtain ⟨-, rfl⟩ := Prod.mk.inj (Option.some.inj h)
      have hle := (List.isPrefixOf_iff_prefix.mp hprefix).length_le
      have hpos := List.length_pos_of_ne_nil hne
      rw [List.length_drop]
      omega
    · exact absurd h (by simp)

variable [DecidableEq α] {word : List α} {hne : word ≠ []}

theorem find_literal (r s : List α) : (literal word hne r).find s =
    if word.isPrefixOf s then some (r, s.drop word.length) else none := rfl

theorem literal_eq_some {r r' rest : List α} (h : (literal word hne r).find s = some (r', rest)) :
    r' = r ∧ s = word ++ rest := by
  rw [find_literal] at h
  split at h
  · rename_i hprefix
    obtain ⟨rfl, rfl⟩ := Prod.mk.inj (Option.some.inj h)
    obtain ⟨rest, rfl⟩ := List.isPrefixOf_iff_prefix.mp hprefix
    rw [List.drop_left]
    exact ⟨rfl, rfl⟩
  · exact absurd h (by simp)

theorem not_prefix_of_literal_eq_none {r : List α} (h : (literal word hne r).find s = none) :
    ¬ word <+: s := by
  rw [find_literal] at h
  split at h
  · exact absurd h (by simp)
  · rename_i hprefix
    exact fun hword => hprefix (List.isPrefixOf_iff_prefix.mpr hword)

/-- Replacing a literal by marks only masks. -/
theorem masks_literal (hm : m ≠ []) (hmark : ∀ c ∈ m, c = mark) :
    (literal word hne m).Masks mark := by
  intro s r rest h
  obtain ⟨rfl, rfl⟩ := literal_eq_some h
  exact ⟨[], word, r, [], rfl, by simp, hm, hmark⟩

/-- **A literal that is replaced by marks is gone**, if it has no mark itself. -/
theorem not_infix_literal (hm : m ≠ []) (hmark : ∀ c ∈ m, c = mark) (hword : mark ∉ word)
    (s : List α) : ¬ word <:+: (literal word hne m).substitute s := by
  induction hn : s.length using Nat.strong_induction_on generalizing s with
  | _ n ih =>
      intro hinfix
      cases s with
      | nil => exact hne (List.infix_nil.mp hinfix)
      | cons c cs =>
          cases hfind : (literal word hne m).find (c :: cs) with
          | none =>
              have hmasks : (literal word hne m).Masks mark := masks_literal hm hmark
              have hmasking := hmasks.masking (c :: cs)
              rw [substitute_of_miss hfind] at hinfix hmasking
              rcases List.infix_cons_iff.mp hinfix with hhead | htail
              · exact not_prefix_of_literal_eq_none hfind (hmasking.head hword hhead)
              · exact ih cs.length (by rw [← hn, List.length_cons]; omega) cs rfl htail
          | some found =>
              obtain ⟨r, rest⟩ := found
              have hlt := shorter _ hfind
              rw [substitute_of_find hfind] at hinfix
              obtain ⟨rfl, -⟩ := literal_eq_some hfind
              exact ih rest.length (hn ▸ hlt) rest rfl (infix_of_infix_marks hmark hword hinfix)

end Pattern

end Masking

end Rewriting
