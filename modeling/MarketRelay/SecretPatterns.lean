import Mathlib.Data.List.Infix
import Mathlib.Data.List.TakeWhile
import MarketRelay.Credentials

/-!
# What the Redaction Patterns Match

The two scanners of the redaction, as statements on the text: a URL credential is `://`, a run of
userinfo characters and `@`; a sensitive parameter is a sensitive name up to case, `=` and a run of
value characters that is taken whole. No sensitive name begins with another one, so there is one
name at most at a place, although the pattern lists alternatives.

## Main results

* `matchUrlCredential_eq_some_iff`, `matchQuerySecret_eq_some_iff`: what either scanner finds.
* `matchQuerySecret_ne_none_iff`: whether there is a sensitive parameter at the head of a text.
* `IsSensitiveName.char_cases`: the characters of a sensitive name.
-/

namespace MarketRelay

/-! ### Runs of a class -/

section

variable {p : Char → Bool} {u s : List Char}

private theorem takeWhile_eq_nil (h : ∀ c ∈ s.head?, p c = false) : s.takeWhile p = [] := by
  cases s with
  | nil => rfl
  | cons c cs => rw [List.takeWhile_cons, h c rfl]; rfl

private theorem dropWhile_eq_self (h : ∀ c ∈ s.head?, p c = false) : s.dropWhile p = s := by
  cases s with
  | nil => rfl
  | cons c cs => rw [List.dropWhile_cons, h c rfl]; rfl

/-- A run is taken whole. -/
theorem takeWhile_run (hu : ∀ c ∈ u, p c = true) (hs : ∀ c ∈ s.head?, p c = false) :
    (u ++ s).takeWhile p = u := by
  rw [List.takeWhile_append_of_pos hu, takeWhile_eq_nil hs, List.append_nil]

theorem dropWhile_run (hu : ∀ c ∈ u, p c = true) (hs : ∀ c ∈ s.head?, p c = false) :
    (u ++ s).dropWhile p = s := by
  rw [List.dropWhile_append_of_pos hu, dropWhile_eq_self hs]

theorem head?_dropWhile_run (p : Char → Bool) (s : List Char) :
    ∀ c ∈ (s.dropWhile p).head?, p c = false := by
  intro c hc
  have hhead := List.head?_dropWhile_not p s
  rwa [Option.mem_def.mp hc] at hhead

/-- A text is split at the first occurrence of a character in one way. -/
theorem append_cons_inj {c : Char} {v t : List Char} (hu : c ∉ u) (hv : c ∉ v)
    (h : u ++ c :: s = v ++ c :: t) : u = v ∧ s = t := by
  have hrun : ∀ {w x : List Char}, c ∉ w → (w ++ c :: x).takeWhile (· != c) = w := fun hw =>
    takeWhile_run (fun d hd => bne_iff_ne.mpr fun heq => hw (heq ▸ hd)) fun d hd => by
      obtain rfl : d = c := (Option.some.inj hd).symm
      exact bne_self_eq_false d
  have huv : u = v := by rw [← hrun (x := s) hu, h, hrun hv]
  subst huv
  exact ⟨rfl, (List.cons.inj (List.append_cancel_left h)).2⟩

end

/-! ### URL credentials -/

/-- **A URL credential** is `://`, a run of userinfo characters and `@`. -/
theorem matchUrlCredential_eq_some_iff {s rest : List Char} :
    matchUrlCredential s = some rest ↔
      ∃ user, user ≠ [] ∧ (∀ c ∈ user, isUserinfo c = true) ∧
        s = ':' :: '/' :: '/' :: (user ++ '@' :: rest) := by
  constructor
  · intro h
    unfold matchUrlCredential at h
    split at h
    · rename_i cs
      split at h
      · rename_i c run rest' hrun hafter
        obtain rfl := Option.some.inj h
        refine ⟨c :: run, List.cons_ne_nil c run, fun d hd => ?_, ?_⟩
        · exact List.mem_takeWhile_imp (hrun ▸ hd)
        · rw [← hrun, ← hafter, List.takeWhile_append_dropWhile]
      · exact absurd h (by simp)
    · exact absurd h (by simp)
  · rintro ⟨user, hne, huser, rfl⟩
    have hat : ∀ c ∈ ('@' :: rest).head?, isUserinfo c = false := by
      rintro c hc
      obtain rfl : c = '@' := (Option.some.inj hc).symm
      decide
    obtain ⟨c, run, rfl⟩ := List.exists_cons_of_ne_nil hne
    simp only [matchUrlCredential, takeWhile_run huser hat, dropWhile_run huser hat]

theorem matchUrlCredential_cons_of_ne {c : Char} (h : c ≠ ':') (cs : List Char) :
    matchUrlCredential (c :: cs) = none := by
  rw [Option.eq_none_iff_forall_ne_some]
  intro rest hrest
  obtain ⟨_, -, -, heq⟩ := matchUrlCredential_eq_some_iff.mp hrest
  exact h (List.cons.inj heq).1

/-! ### Sensitive names -/

/-- The lower-case letter to which a character folds, if it folds to one. -/
def foldCase (c : Char) : Char :=
  if c.toNat = 0x130 ∨ c.toNat = 0x131 then 'i'
  else if c.toNat = 0x212A then 'k'
  else if c.toNat = 0x17F then 's'
  else c.toLower

def sensitiveNames : List (List Char) :=
  [['a', 'p', 'i', 'k', 'e', 'y'], ['a', 'p', 'i', '_', 'k', 'e', 'y'],
    ['a', 'p', 'i', '-', 'k', 'e', 'y'], ['t', 'o', 'k', 'e', 'n'],
    ['s', 'e', 'c', 'r', 'e', 't'], ['p', 'a', 's', 's', 'w', 'o', 'r', 'd']]

/-- The text is a sensitive name, up to case. -/
def IsSensitiveName (u : List Char) : Prop := u.map foldCase ∈ sensitiveNames

theorem toLower_of_gt {c : Char} (h : 90 < c.toNat) : c.toLower = c := by
  refine dif_neg ?_
  rintro ⟨-, hupper⟩
  have : c.toNat ≤ 90 := hupper
  omega

theorem toLower_cases (c : Char) :
    c.toLower = c ∨ (65 ≤ c.toNat ∧ c.toNat ≤ 90) ∧ c.toLower.toNat = c.toNat + 32 := by
  delta Char.toLower
  split
  · rename_i hupper
    have hbounds : 65 ≤ c.toNat ∧ c.toNat ≤ 90 := hupper
    refine Or.inr ⟨hbounds, ?_⟩
    change (c.val + ('a'.val - 'A'.val)).toNat = c.val.toNat + 32
    rw [UInt32.toNat_add]
    have : c.val.toNat ≤ 90 := hupper.2
    exact Nat.mod_eq_of_lt (by simp; omega)
  · exact Or.inl rfl

/-- The comparison of the scanner, as an equation. -/
theorem foldsTo_iff {letter c : Char} (hletter : 'a' ≤ letter ∧ letter ≤ 'z') :
    foldsTo letter c = true ↔ foldCase c = letter := by
  have hbounds : 97 ≤ letter.toNat ∧ letter.toNat ≤ 122 := hletter
  have hself : c = letter → c.toLower = letter := by
    rintro rfl
    exact toLower_of_gt (by omega)
  -- A character beyond `z` is not changed by `toLower`, and no letter.
  have hspecial : 122 < c.toNat → c.toLower ≠ letter := by
    rintro hc rfl
    rw [toLower_of_gt (by omega)] at hbounds
    omega
  simp only [foldsTo, foldCase, Bool.or_eq_true, Bool.and_eq_true, beq_iff_eq]
  split_ifs with hi hk hs
  · have := hspecial (by omega)
    grind
  · have := hspecial (by omega)
    grind
  · have := hspecial (by omega)
    grind
  · grind

theorem matchKeyword_eq_some_iff {letters cs u rest : List Char}
    (hletters : ∀ letter ∈ letters, 'a' ≤ letter ∧ letter ≤ 'z') :
    matchKeyword letters cs = some (u, rest) ↔ u.map foldCase = letters ∧ cs = u ++ rest := by
  induction letters generalizing cs u with
  | nil =>
      simp only [matchKeyword, Option.some.injEq, Prod.mk.injEq, List.map_eq_nil_iff]
      constructor
      · rintro ⟨rfl, rfl⟩
        exact ⟨rfl, rfl⟩
      · rintro ⟨rfl, rfl⟩
        exact ⟨rfl, rfl⟩
  | cons letter letters ih =>
      have ih : ∀ {cs u}, matchKeyword letters cs = some (u, rest) ↔
          u.map foldCase = letters ∧ cs = u ++ rest :=
        ih fun l hl => hletters l (List.mem_cons_of_mem letter hl)
      have hfold : ∀ {c}, foldsTo letter c = true ↔ foldCase c = letter :=
        foldsTo_iff (hletters letter List.mem_cons_self)
      cases cs with
      | nil =>
          simp only [matchKeyword, reduceCtorEq, List.map_eq_cons_iff, false_iff]
          rintro ⟨⟨c, u', rfl, -⟩, h⟩
          exact absurd h (by simp)
      | cons c cs =>
          rw [matchKeyword]
          split
          · rename_i hc
            simp only [Option.map_eq_some_iff, Prod.mk.injEq, Prod.exists]
            constructor
            · rintro ⟨u', rest', h, rfl, rfl⟩
              obtain ⟨rfl, rfl⟩ := ih.mp h
              exact ⟨by rw [List.map_cons, hfold.mp hc], rfl⟩
            · rintro ⟨hmap, heq⟩
              obtain ⟨c', u', rfl, -, hrest⟩ := List.map_eq_cons_iff.mp hmap
              obtain ⟨rfl, rfl⟩ := List.cons.inj heq
              exact ⟨u', rest, ih.mpr ⟨hrest, rfl⟩, rfl, rfl⟩
          · rename_i hc
            simp only [reduceCtorEq, false_iff]
            rintro ⟨hmap, heq⟩
            obtain ⟨c', u', rfl, hc', -⟩ := List.map_eq_cons_iff.mp hmap
            obtain ⟨rfl, -⟩ := List.cons.inj heq
            exact hc (hfold.mpr hc')

/-- One sensitive name at most begins at a place. -/
theorem IsSensitiveName.eq_of_isPrefix {u v : List Char} (hu : IsSensitiveName u)
    (hv : IsSensitiveName v) (h : u <+: v) : u = v := by
  have hnames : ∀ a ∈ sensitiveNames, ∀ b ∈ sensitiveNames, a <+: b → a.length = b.length := by
    decide
  have hlength := hnames _ hu _ hv (h.map foldCase)
  rw [List.length_map, List.length_map] at hlength
  exact h.eq_of_length hlength

/-- The words that the scanners match letter by letter. -/
private def keywords : List (List Char) :=
  [['a', 'p', 'i'], ['k', 'e', 'y'], ['t', 'o', 'k', 'e', 'n'], ['s', 'e', 'c', 'r', 'e', 't'],
    ['p', 'a', 's', 's', 'w', 'o', 'r', 'd'], ['a', 'p', 'i', 'k', 'e', 'y']]

private theorem keyword_letters {keyword : List Char} (h : keyword ∈ keywords) :
    ∀ letter ∈ keyword, 'a' ≤ letter ∧ letter ≤ 'z' := by
  have hall : (keywords.all fun keyword => keyword.all fun letter =>
      decide ('a' ≤ letter ∧ letter ≤ 'z')) = true := by decide
  exact fun letter hletter =>
    of_decide_eq_true (List.all_eq_true.mp (List.all_eq_true.mp hall keyword h) letter hletter)

/-- Only itself folds to a character before the lower-case letters. -/
private theorem eq_of_foldCase {c d : Char} (hd : d.toNat < 97) (h : foldCase c = d) : c = d := by
  rw [foldCase] at h
  split_ifs at h
  · exact absurd hd (by rw [← h]; decide)
  · exact absurd hd (by rw [← h]; decide)
  · exact absurd hd (by rw [← h]; decide)
  · rcases toLower_cases c with hself | ⟨hupper, hlower⟩
    · exact hself.symm.trans h
    · rw [h] at hlower
      omega

/-- The scanner finds one of the names, up to case, at the head of a text. -/
private def Scans (scan : List Char → Option (List Char × List Char)) (names : List (List Char)) :
    Prop :=
  ∀ cs u rest, scan cs = some (u, rest) ↔ u.map foldCase ∈ names ∧ cs = u ++ rest

private theorem scans_matchKeyword (keyword : List Char) (h : keyword ∈ keywords) :
    Scans (matchKeyword keyword) [keyword] := by
  intro cs u rest
  rw [matchKeyword_eq_some_iff (keyword_letters h), List.mem_singleton]

/-- Alternatives find all of their names, as no sensitive name begins another one. -/
private theorem Scans.or {f g : List Char → Option (List Char × List Char)}
    {names names' : List (List Char)} (hf : Scans f names) (hg : Scans g names')
    (hnames : names ⊆ sensitiveNames) (hnames' : names' ⊆ sensitiveNames) :
    Scans (fun cs => f cs <|> g cs) (names ++ names') := by
  intro cs u rest
  change (f cs).orElse (fun _ => g cs) = some (u, rest) ↔ _
  rw [Option.orElse_eq_or, Option.or_eq_some_iff, hf, hg, List.mem_append]
  constructor
  · rintro (⟨hu, heq⟩ | ⟨-, hu, heq⟩)
    · exact ⟨Or.inl hu, heq⟩
    · exact ⟨Or.inr hu, heq⟩
  · rintro ⟨hu | hu, heq⟩
    · exact Or.inl ⟨hu, heq⟩
    · cases hfirst : f cs with
      | none => exact Or.inr ⟨rfl, hu, heq⟩
      | some found =>
          obtain ⟨v, after⟩ := found
          obtain ⟨hv, heq'⟩ := (hf cs v after).mp hfirst
          have hname : IsSensitiveName v := hnames hv
          have hname' : IsSensitiveName u := hnames' hu
          obtain rfl : v = u := by
            rcases List.prefix_or_prefix_of_prefix (heq' ▸ List.prefix_append v after)
              (heq ▸ List.prefix_append u rest) with hle | hle
            · exact hname.eq_of_isPrefix hname' hle
            · exact (hname'.eq_of_isPrefix hname hle).symm
          exact Or.inl ⟨hv, heq⟩

/-- `api[_-]?key` -/
private theorem scans_matchApiKey : Scans matchApiKey
    [['a', 'p', 'i', 'k', 'e', 'y'], ['a', 'p', 'i', '_', 'k', 'e', 'y'],
      ['a', 'p', 'i', '-', 'k', 'e', 'y']] := by
  have hapi : ∀ {cs u rest}, matchKeyword ['a', 'p', 'i'] cs = some (u, rest) ↔
      u.map foldCase = ['a', 'p', 'i'] ∧ cs = u ++ rest :=
    matchKeyword_eq_some_iff (keyword_letters (by decide))
  have hkey : ∀ {cs u rest}, matchKeyword ['k', 'e', 'y'] cs = some (u, rest) ↔
      u.map foldCase = ['k', 'e', 'y'] ∧ cs = u ++ rest :=
    matchKeyword_eq_some_iff (keyword_letters (by decide))
  intro cs u rest
  constructor
  · intro h
    unfold matchApiKey at h
    split at h
    · rename_i api c after hfound
      obtain ⟨hmap, rfl⟩ := hapi.mp hfound
      split at h
      · rename_i hc
        obtain ⟨⟨v, rest'⟩, hv, heq⟩ := Option.map_eq_some_iff.mp h
        obtain ⟨hmap', rfl⟩ := hkey.mp hv
        obtain ⟨rfl, rfl⟩ := Prod.mk.inj heq
        refine ⟨?_, by simp⟩
        rw [List.map_append, List.map_cons, hmap, hmap']
        rcases Bool.or_eq_true_iff.mp hc with hc | hc <;>
        · obtain rfl := beq_iff_eq.mp hc
          decide
      · obtain ⟨⟨v, rest'⟩, hv, heq⟩ := Option.map_eq_some_iff.mp h
        obtain ⟨hmap', hcs⟩ := hkey.mp hv
        obtain ⟨rfl, rfl⟩ := Prod.mk.inj heq
        refine ⟨?_, by rw [hcs, List.append_assoc]⟩
        rw [List.map_append, hmap, hmap']
        decide
    · exact absurd h (by simp)
  · rintro ⟨hu, rfl⟩
    simp only [List.mem_cons, List.not_mem_nil, or_false] at hu
    have hsplit : ∃ api c v, u = api ++ c :: v ∧ api.map foldCase = ['a', 'p', 'i'] ∧
        ((c = '_' ∨ c = '-') ∧ v.map foldCase = ['k', 'e', 'y'] ∨
          foldCase c = 'k' ∧ v.map foldCase = ['e', 'y']) := by
      rcases hu with hu | hu | hu
      all_goals
        obtain ⟨api, tail, rfl, hmap, htail⟩ := List.map_eq_append_iff.mp
          (show u.map foldCase = ['a', 'p', 'i'] ++ _ from hu)
        obtain ⟨c, v, rfl, hc, hv⟩ := List.map_eq_cons_iff.mp htail
        refine ⟨api, c, v, rfl, hmap, ?_⟩
      · exact Or.inr ⟨hc, hv⟩
      · exact Or.inl ⟨Or.inl (eq_of_foldCase (by decide) hc), hv⟩
      · exact Or.inl ⟨Or.inr (eq_of_foldCase (by decide) hc), hv⟩
    obtain ⟨api, c, v, rfl, hmap, hcase⟩ := hsplit
    have hfound : matchKeyword ['a', 'p', 'i'] (api ++ c :: v ++ rest) =
        some (api, c :: (v ++ rest)) := hapi.mpr ⟨hmap, by simp⟩
    rw [matchApiKey, hfound]
    dsimp only
    rcases hcase with ⟨hc, hv⟩ | ⟨hc, hv⟩
    · have hmark : (c == '_' || c == '-') = true := by simpa using hc
      rw [if_pos hmark, hkey.mpr ⟨hv, rfl⟩]
      rfl
    · have hmark : (c == '_' || c == '-') = false := by
        rw [Bool.or_eq_false_iff, beq_eq_false_iff_ne, beq_eq_false_iff_ne]
        constructor <;>
        · rintro rfl
          exact absurd hc (by decide)
      have hfound' : matchKeyword ['k', 'e', 'y'] (c :: (v ++ rest)) = some (c :: v, rest) :=
        hkey.mpr ⟨by rw [List.map_cons, hc, hv], rfl⟩
      rw [hmark, hfound']
      rfl

/-- **A sensitive name** is found where one begins. -/
theorem matchSensitiveName_eq_some_iff {cs u rest : List Char} :
    matchSensitiveName cs = some (u, rest) ↔ IsSensitiveName u ∧ cs = u ++ rest := by
  have hpassword := (scans_matchKeyword ['p', 'a', 's', 's', 'w', 'o', 'r', 'd'] (by decide)).or
    (scans_matchKeyword ['a', 'p', 'i', 'k', 'e', 'y'] (by decide)) (by decide) (by decide)
  have hsecret := (scans_matchKeyword ['s', 'e', 'c', 'r', 'e', 't'] (by decide)).or hpassword
    (by decide) (by decide)
  have htoken := (scans_matchKeyword ['t', 'o', 'k', 'e', 'n'] (by decide)).or hsecret (by decide)
    (by decide)
  have hall := scans_matchApiKey.or htoken (by decide) (by decide)
  refine (hall cs u rest).trans (and_congr_left fun _ => ⟨fun hu => ?_, fun hu => ?_⟩)
  · exact (show _ ⊆ sensitiveNames by decide) hu
  · exact (show sensitiveNames ⊆ _ by decide) hu

/-! ### The characters of a sensitive name -/

/-- A letter, a hyphen or an underscore, or one of the four other characters that fold to a
letter. -/
theorem IsSensitiveName.char_cases {u : List Char} (h : IsSensitiveName u) {c : Char} (hc : c ∈ u) :
    c.toNat = 45 ∨ c.toNat = 95 ∨ (65 ≤ c.toNat ∧ c.toNat ≤ 90) ∨ (97 ≤ c.toNat ∧ c.toNat ≤ 122) ∨
      c.toNat = 0x130 ∨ c.toNat = 0x131 ∨ c.toNat = 0x212A ∨ c.toNat = 0x17F := by
  have hletters : (sensitiveNames.all fun name => name.all fun d =>
      decide (d.toNat = 45 ∨ d.toNat = 95 ∨ (97 ≤ d.toNat ∧ d.toNat ≤ 122))) = true := by decide
  have hfold := of_decide_eq_true
    (List.all_eq_true.mp (List.all_eq_true.mp hletters _ h) (foldCase c) (List.mem_map_of_mem hc))
  rw [foldCase] at hfold
  split_ifs at hfold
  · omega
  · omega
  · omega
  · rcases toLower_cases c with hself | ⟨hupper, hlower⟩
    · rw [hself] at hfold
      omega
    · omega

theorem IsSensitiveName.ne_nil {u : List Char} (h : IsSensitiveName u) : u ≠ [] := by
  have hnames : [] ∉ sensitiveNames := by decide
  rintro rfl
  exact hnames h

/-- No character of a name is one of the separators of the patterns, or of the mask. -/
theorem IsSensitiveName.ne_of_mem {u : List Char} (h : IsSensitiveName u) {c d : Char} (hc : c ∈ u)
    (hd : d ∈ [':', '/', '@', '=', '*', '&']) : c ≠ d := by
  rintro rfl
  have hcases := h.char_cases hc
  simp only [List.mem_cons, List.not_mem_nil, or_false] at hd
  rcases hd with rfl | rfl | rfl | rfl | rfl | rfl <;> exact absurd hcases (by decide)

theorem IsSensitiveName.isSpace_of_mem {u : List Char} (h : IsSensitiveName u) {c : Char}
    (hc : c ∈ u) : isSpace c = false := by
  have hcases := h.char_cases hc
  simp only [isSpace, Bool.or_eq_false_iff, Bool.and_eq_false_iff, decide_eq_false_iff_not,
    beq_eq_false_iff_ne]
  omega

theorem IsSensitiveName.isUserinfo_of_mem {u : List Char} (h : IsSensitiveName u) {c : Char}
    (hc : c ∈ u) : isUserinfo c = true := by
  rw [isUserinfo, h.isSpace_of_mem hc, beq_eq_false_iff_ne.mpr (h.ne_of_mem hc (by decide)),
    beq_eq_false_iff_ne.mpr (h.ne_of_mem hc (by decide))]
  rfl

/-! ### Sensitive parameters -/

/-- The scanner at a name that is followed by a value. -/
theorem matchQuerySecret_name {u : List Char} (hu : IsSensitiveName u) {c : Char}
    (hc : isParameterValue c = true) (rest : List Char) :
    matchQuerySecret (u ++ '=' :: c :: rest) =
      some (u ++ ['='], (c :: rest).dropWhile isParameterValue) := by
  rw [matchQuerySecret, matchSensitiveName_eq_some_iff.mpr ⟨hu, rfl⟩]
  simp only [List.takeWhile_cons, List.dropWhile_cons, hc, if_true]

/-- **A sensitive parameter begins** where a sensitive name, `=` and a value character are. -/
theorem matchQuerySecret_ne_none_iff {s : List Char} :
    matchQuerySecret s ≠ none ↔ ∃ u c rest, IsSensitiveName u ∧ isParameterValue c = true ∧
      s = u ++ '=' :: c :: rest := by
  constructor
  · intro h
    rw [matchQuerySecret] at h
    split at h
    · rename_i u rest hname
      obtain ⟨hu, rfl⟩ := matchSensitiveName_eq_some_iff.mp hname
      split at h
      · rename_i c run hrun
        have hc : isParameterValue c = true := List.mem_takeWhile_imp (hrun ▸ List.mem_cons_self)
        obtain ⟨rest', rfl⟩ : ∃ rest', rest = c :: rest' := by
          have hsplit := List.takeWhile_append_dropWhile (p := isParameterValue) (l := rest)
          rw [hrun] at hsplit
          exact ⟨_, hsplit.symm⟩
        exact ⟨u, c, rest', hu, hc, rfl⟩
      · exact absurd rfl h
    · exact absurd rfl h
  · rintro ⟨u, c, rest, hu, hc, rfl⟩
    rw [matchQuerySecret_name hu hc]
    simp

/-- No sensitive parameter begins with a character that is not of a name. -/
theorem matchQuerySecret_cons_eq_none {c : Char} (h : ∀ u, IsSensitiveName u → c ∉ u)
    (cs : List Char) : matchQuerySecret (c :: cs) = none := by
  by_contra hsome
  obtain ⟨u, d, rest, hu, -, heq⟩ := matchQuerySecret_ne_none_iff.mp hsome
  obtain ⟨e, u, rfl⟩ := List.exists_cons_of_ne_nil hu.ne_nil
  obtain rfl := (List.cons.inj heq).1
  exact h _ hu List.mem_cons_self

/-- **A sensitive parameter** is a sensitive name, `=` and a run of value characters, taken
whole. -/
theorem matchQuerySecret_eq_some_iff {s group rest : List Char} :
    matchQuerySecret s = some (group, rest) ↔ ∃ u c v, IsSensitiveName u ∧ group = u ++ ['='] ∧
      isParameterValue c = true ∧ s = group ++ c :: v ∧ rest = v.dropWhile isParameterValue := by
  constructor
  · intro h
    obtain ⟨u, c, v, hu, hc, rfl⟩ := matchQuerySecret_ne_none_iff.mp (by rw [h]; simp)
    rw [matchQuerySecret_name hu hc, List.dropWhile_cons, if_pos hc] at h
    obtain ⟨rfl, rfl⟩ := Prod.mk.inj (Option.some.inj h)
    exact ⟨u, c, v, hu, rfl, hc, by simp, rfl⟩
  · rintro ⟨u, c, v, hu, rfl, hc, rfl, rfl⟩
    rw [List.append_assoc, List.singleton_append, matchQuerySecret_name hu hc, List.dropWhile_cons,
      if_pos hc]

end MarketRelay
