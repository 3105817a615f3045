import MarketRelay.Lib.Substitution
import MarketRelay.SecretPatterns

/-!
# One Pass of Redaction

A message is redacted by two substitutions, one after the other. The second one can leave a match of
the first: a `/` in the value of a sensitive parameter separates a `://` from a later `@`, and when
the value is replaced by `***` nothing does.

Both substitutions together are one reading of the message into pieces (`pieces`): URL credentials,
sensitive parameters, whose value goes on to the next `&` or space outside of a URL credential, and
single characters. Every piece has its masked text, and what remains to be masked is read off the
pieces (`Exposes`).

## Main results

* `flatMap_masked_pieces`: the redacted message is the masked text of its pieces.
* `querySecret_masked`: the sensitive parameters of the result are always masked.
* `sanitizeMessage_complete_iff`: exactly when one pass is complete.
* `sanitizeMessage_incomplete`: a message that has to be redacted twice.
-/

open Rewriting

namespace MarketRelay

/-! ### The two substitutions -/

def mask : List Char := ['*', '*', '*']

def maskedCredential : List Char := [':', '/', '/', '*', '*', '*', '@']

/-- `_URL_CREDENTIAL_PATTERN` and its replacement. -/
def urlCredential : Pattern Char where
  find s := (matchUrlCredential s).map fun rest => (maskedCredential, rest)
  shorter := by
    intro s r rest h
    obtain ⟨rest', hrest, heq⟩ := Option.map_eq_some_iff.mp h
    obtain ⟨-, rfl⟩ := Prod.mk.inj heq
    obtain ⟨user, -, -, rfl⟩ := matchUrlCredential_eq_some_iff.mp hrest
    simp only [List.length_cons, List.length_append]
    omega

/-- `_QUERY_SECRET_PATTERN` and its replacement. -/
def querySecret : Pattern Char where
  find s := (matchQuerySecret s).map fun m => (m.1 ++ mask, m.2)
  shorter := by
    intro s r rest h
    obtain ⟨⟨group, rest'⟩, hrest, heq⟩ := Option.map_eq_some_iff.mp h
    obtain ⟨-, rfl⟩ := Prod.mk.inj heq
    obtain ⟨u, c, v, -, -, -, rfl, rfl⟩ := matchQuerySecret_eq_some_iff.mp hrest
    have hle := (List.dropWhile_suffix isParameterValue (l := v)).length_le
    simp only [List.length_append, List.length_cons]
    omega

@[simp] theorem urlCredential_find (s : List Char) :
    urlCredential.find s = (matchUrlCredential s).map fun rest => (maskedCredential, rest) := rfl

@[simp] theorem querySecret_find (s : List Char) :
    querySecret.find s = (matchQuerySecret s).map fun m => (m.1 ++ mask, m.2) := rfl

theorem redactUrlCredentials_eq (n : ℕ) (s : List Char) :
    redactUrlCredentials n s = urlCredential.substituteFuel n s := by
  induction n generalizing s with
  | zero => rfl
  | succ n ih =>
      cases s with
      | nil => rfl
      | cons c cs =>
          rw [redactUrlCredentials, Pattern.substituteFuel, urlCredential_find]
          cases matchUrlCredential (c :: cs) with
          | none => exact congrArg (c :: ·) (ih cs)
          | some rest => exact congrArg (maskedCredential ++ ·) (ih rest)

theorem redactQuerySecrets_eq (n : ℕ) (s : List Char) :
    redactQuerySecrets n s = querySecret.substituteFuel n s := by
  induction n generalizing s with
  | zero => rfl
  | succ n ih =>
      cases s with
      | nil => rfl
      | cons c cs =>
          rw [redactQuerySecrets, Pattern.substituteFuel, querySecret_find]
          cases matchQuerySecret (c :: cs) with
          | none => exact congrArg (c :: ·) (ih cs)
          | some found => exact congrArg (found.1 ++ mask ++ ·) (ih found.2)

/-- Without known secrets, a message is redacted by the two substitutions. -/
theorem sanitizeMessage_eq (message : String) :
    sanitizeMessage message [] =
      String.ofList (querySecret.substitute (urlCredential.substitute message.toList)) := by
  simp only [sanitizeMessage, List.foldl_nil, redactUrlCredentials_eq, redactQuerySecrets_eq]
  rw [Pattern.substituteFuel_eq le_rfl, Pattern.substituteFuel_eq le_rfl]

/-! ### One step of either -/

section

variable {s rest group : List Char} {c : Char} {cs : List Char}

theorem url_of_match (h : matchUrlCredential s = some rest) :
    urlCredential.substitute s = maskedCredential ++ urlCredential.substitute rest :=
  Pattern.substitute_of_find (by rw [urlCredential_find, h]; rfl)

theorem url_of_miss (h : matchUrlCredential (c :: cs) = none) :
    urlCredential.substitute (c :: cs) = c :: urlCredential.substitute cs :=
  Pattern.substitute_of_miss (by rw [urlCredential_find, h]; rfl)

theorem query_of_match (h : matchQuerySecret s = some (group, rest)) :
    querySecret.substitute s = group ++ mask ++ querySecret.substitute rest :=
  Pattern.substitute_of_find (by rw [querySecret_find, h]; rfl)

theorem query_of_miss (h : matchQuerySecret (c :: cs) = none) :
    querySecret.substitute (c :: cs) = c :: querySecret.substitute cs :=
  Pattern.substitute_of_miss (by rw [querySecret_find, h]; rfl)

/-- Neither substitution changes the first character. -/
theorem head?_url (s : List Char) : (urlCredential.substitute s).head? = s.head? := by
  cases h : matchUrlCredential s with
  | some rest =>
      rw [url_of_match h]
      obtain ⟨user, -, -, rfl⟩ := matchUrlCredential_eq_some_iff.mp h
      rfl
  | none =>
      cases s with
      | nil => rfl
      | cons c cs => rw [url_of_miss h]; rfl

theorem head?_query (s : List Char) : (querySecret.substitute s).head? = s.head? := by
  cases h : matchQuerySecret s with
  | some found =>
      obtain ⟨group, rest⟩ := found
      rw [query_of_match h]
      obtain ⟨u, c, v, hu, rfl, -, rfl, -⟩ := matchQuerySecret_eq_some_iff.mp h
      obtain ⟨d, u, rfl⟩ := List.exists_cons_of_ne_nil hu.ne_nil
      rfl
  | none =>
      cases s with
      | nil => rfl
      | cons c cs => rw [query_of_miss h]; rfl

/-- What stands before the first colon stays. -/
theorem url_append {u : List Char} (hu : ':' ∉ u) (s : List Char) :
    urlCredential.substitute (u ++ s) = u ++ urlCredential.substitute s :=
  Pattern.substitute_append fun c hc cs => by
    rw [urlCredential_find, matchUrlCredential_cons_of_ne fun heq => hu (heq ▸ hc)]
    rfl

/-- What stands before the first colon of the result was there before, and the next character. -/
theorem url_prefix {u : List Char} (hu : ':' ∉ u) (h : u ++ c :: rest = urlCredential.substitute s) :
    ∃ rest', s = u ++ c :: rest' := by
  induction u generalizing s with
  | nil =>
      have hhead := head?_url s
      rw [← h] at hhead
      exact ⟨s.tail, (List.cons_head?_tail hhead.symm).symm⟩
  | cons d u ih =>
      cases s with
      | nil => exact absurd h (by simp)
      | cons e cs =>
          have hhead := head?_url (e :: cs)
          rw [← h] at hhead
          obtain rfl : d = e := Option.some.inj hhead
          have hmiss : matchUrlCredential (d :: cs) = none :=
            matchUrlCredential_cons_of_ne (fun heq => hu (heq ▸ List.mem_cons_self)) cs
          rw [url_of_miss hmiss] at h
          obtain ⟨rest', rfl⟩ := ih (fun hmem => hu (List.mem_cons_of_mem d hmem))
            (List.cons.inj h).2
          exact ⟨rest', rfl⟩

/-- Redacting the URL credentials makes no sensitive parameter. -/
theorem matchQuerySecret_url (h : matchQuerySecret s = none) :
    matchQuerySecret (urlCredential.substitute s) = none := by
  by_contra hsome
  obtain ⟨u, c, rest, hu, hc, heq⟩ := matchQuerySecret_ne_none_iff.mp hsome
  have hcolon : ':' ∉ u ++ ['='] := by
    intro hmem
    rcases List.mem_append.mp hmem with hmem | hmem
    · exact hu.ne_of_mem hmem (by decide) rfl
    · exact absurd hmem (by decide)
  obtain ⟨rest', rfl⟩ := url_prefix hcolon (by rw [heq, List.append_assoc]; rfl)
  rw [List.append_assoc] at h
  exact matchQuerySecret_ne_none_iff.mpr ⟨u, c, rest', hu, hc, rfl⟩ h

/-- What stands before the first `=` of the result was there before, with a value after it. -/
theorem query_prefix {u : List Char} (hu : '=' ∉ u) (hc : isParameterValue c = true)
    (h : u ++ '=' :: c :: rest = querySecret.substitute s) :
    ∃ c' rest', isParameterValue c' = true ∧ s = u ++ '=' :: c' :: rest' := by
  induction u generalizing s with
  | nil =>
      have hhead := head?_query s
      rw [← h] at hhead
      obtain ⟨cs, rfl⟩ : ∃ cs, s = '=' :: cs := ⟨_, (List.cons_head?_tail hhead.symm).symm⟩
      have hmiss : matchQuerySecret ('=' :: cs) = none :=
        matchQuerySecret_cons_eq_none (fun u hu hmem => hu.ne_of_mem hmem (by decide) rfl) cs
      rw [query_of_miss hmiss] at h
      have hhead' := head?_query cs
      rw [← (List.cons.inj h).2] at hhead'
      exact ⟨c, cs.tail, hc, congrArg ('=' :: ·) (List.cons_head?_tail hhead'.symm).symm⟩
  | cons d u ih =>
      cases hmatch : matchQuerySecret s with
      | some found =>
          obtain ⟨group, after⟩ := found
          rw [query_of_match hmatch] at h
          obtain ⟨u', c', v, hname, rfl, hc', rfl, -⟩ := matchQuerySecret_eq_some_iff.mp hmatch
          simp only [List.append_assoc, List.singleton_append] at h
          obtain ⟨rfl, -⟩ := append_cons_inj hu
            (fun hmem => hname.ne_of_mem hmem (by decide) rfl) h
          exact ⟨c', v, hc', by simp⟩
      | none =>
          cases s with
          | nil => exact absurd h (by simp)
          | cons e cs =>
              rw [query_of_miss hmatch] at h
              obtain ⟨rfl, htail⟩ := List.cons.inj h
              obtain ⟨c', rest', hc', rfl⟩ :=
                ih (fun hmem => hu (List.mem_cons_of_mem d hmem)) htail
              exact ⟨c', rest', hc', rfl⟩

/-- Redacting the sensitive parameters makes no other one before them. -/
theorem matchQuerySecret_query (h : matchQuerySecret (c :: cs) = none) :
    matchQuerySecret (c :: querySecret.substitute cs) = none := by
  by_contra hsome
  obtain ⟨u, x, rest, hu, hx, heq⟩ := matchQuerySecret_ne_none_iff.mp hsome
  rw [← query_of_miss h] at heq
  obtain ⟨x', rest', hx', hs⟩ := query_prefix
    (fun hmem => hu.ne_of_mem hmem (by decide) rfl) hx heq.symm
  exact matchQuerySecret_ne_none_iff.mpr ⟨u, x', rest', hu, hx', hs⟩ h

end

/-! ### The masked texts -/

/-- Every URL credential of the text is masked, and every sensitive parameter. -/
structure Redacted (text : List Char) : Prop where
  urls : ∀ t, t <:+ text → ∀ rest, matchUrlCredential t = some rest → t = maskedCredential ++ rest
  parameters : ∀ t, t <:+ text → ∀ group rest, matchQuerySecret t = some (group, rest) →
    t = group ++ mask ++ rest

/-- Redacting such a text again changes nothing. -/
theorem Redacted.again {text : List Char} (h : Redacted text) :
    querySecret.substitute (urlCredential.substitute text) = text := by
  have hurl : urlCredential.substitute text = text := by
    refine Pattern.substitute_eq_self fun t ht r rest hfind => ?_
    obtain ⟨rest', hmatch, heq⟩ := Option.map_eq_some_iff.mp hfind
    obtain ⟨rfl, rfl⟩ := Prod.mk.inj heq
    exact h.urls t ht _ hmatch
  rw [hurl]
  refine Pattern.substitute_eq_self fun t ht r rest hfind => ?_
  obtain ⟨⟨group, rest'⟩, hmatch, heq⟩ := Option.map_eq_some_iff.mp hfind
  obtain ⟨rfl, rfl⟩ := Prod.mk.inj heq
  exact h.parameters t ht group _ hmatch

/-- A sensitive parameter that begins in the masked text of one is masked too. -/
theorem masked_of_suffix {u w rest group after : List Char}
    (hrest : ∀ c ∈ rest.head?, isParameterValue c = false) (hw : w <:+ u ++ '=' :: mask)
    (hne : w ≠ []) (hu : IsSensitiveName u) (h : matchQuerySecret (w ++ rest) = some (group, after)) :
    w ++ rest = group ++ mask ++ after := by
  rcases suffix_append_cases hw with hmask | ⟨v, hv, -, rfl⟩
  · -- No name begins with `=` or with `*`.
    obtain ⟨d, w, rfl⟩ := List.exists_cons_of_ne_nil hne
    have hd : d ∈ [':', '/', '@', '=', '*', '&'] := by
      have hmem := hmask.subset List.mem_cons_self
      simp only [mask, List.mem_cons, List.not_mem_nil, or_false, or_self] at hmem
      rcases hmem with rfl | rfl <;> decide
    rw [List.cons_append, matchQuerySecret_cons_eq_none
      (fun u hu hmem => hu.ne_of_mem hmem hd rfl)] at h
    exact absurd h (by simp)
  · obtain ⟨u', c, x, hu', rfl, -, heq, rfl⟩ := matchQuerySecret_eq_some_iff.mp h
    simp only [List.append_assoc, List.cons_append, List.nil_append] at heq ⊢
    have hequals : '=' ∉ v := fun hmem => hu.ne_of_mem (hv.subset hmem) (by decide) rfl
    have hequals' : '=' ∉ u' := fun hmem => hu'.ne_of_mem hmem (by decide) rfl
    obtain ⟨rfl, hvalue⟩ := append_cons_inj hequals hequals' heq
    obtain rfl := (List.cons.inj hvalue).2
    have hstars : ∀ c ∈ ['*', '*'], isParameterValue c = true := List.all_eq_true.mp (by decide)
    have hafter : (['*', '*'] ++ rest).dropWhile isParameterValue = rest := dropWhile_run hstars hrest
    exact congrArg (fun after => v ++ '=' :: (mask ++ after)) hafter.symm

/-- **All sensitive parameters of the result are masked.** -/
theorem querySecret_masked (s : List Char) :
    ∀ t, t <:+ querySecret.substitute s → ∀ group rest, matchQuerySecret t = some (group, rest) →
      t = group ++ mask ++ rest := by
  induction hn : s.length using Nat.strong_induction_on generalizing s with
  | _ n ih =>
      intro t ht group rest h
      cases hmatch : matchQuerySecret s with
      | some found =>
          obtain ⟨group', after⟩ := found
          have hlt := querySecret.shorter (s := s) (by rw [querySecret_find, hmatch]; rfl)
          rw [query_of_match hmatch] at ht
          obtain ⟨u, c, v, hu, rfl, -, rfl, rfl⟩ := matchQuerySecret_eq_some_iff.mp hmatch
          have hafter := head?_dropWhile_run isParameterValue v
          rw [← head?_query] at hafter
          rcases suffix_append_cases ht with ht | ⟨w, hw, hne, rfl⟩
          · exact ih _ (hn ▸ hlt) _ rfl t ht group rest h
          · rw [List.append_assoc] at hw
            exact masked_of_suffix hafter hw hne hu h
      | none =>
          cases s with
          | nil =>
              obtain rfl := List.suffix_nil.mp ht
              have hmiss : matchQuerySecret [] = none := by decide
              exact absurd (hmiss.symm.trans h) (by simp)
          | cons c cs =>
              rw [query_of_miss hmatch] at ht
              rcases List.suffix_cons_iff.mp ht with rfl | ht
              · rw [matchQuerySecret_query hmatch] at h
                exact absurd h (by simp)
              · exact ih cs.length (by rw [← hn, List.length_cons]; omega) cs rfl t ht group rest h

/-! ### The pieces of a message -/

/-- What a message is read as. -/
inductive Piece where
  /-- A URL credential. -/
  | credential
  /-- A sensitive parameter, with its name and `=`. -/
  | parameter (group : List Char)
  /-- A character of neither. -/
  | char (c : Char)
deriving DecidableEq, Repr

/-- The text that takes the place of a piece. -/
def Piece.masked : Piece → List Char
  | credential => maskedCredential
  | parameter group => group ++ mask
  | char c => [c]

/-- Read a message from left to right, inside of a value or not. A value goes on to the next `&` or
space outside of a URL credential. The fuel is the length of the text. -/
def pieces : ℕ → Bool → List Char → List Piece
  | 0, _, _ => []
  | _ + 1, _, [] => []
  | n + 1, inValue, c :: cs =>
    match matchUrlCredential (c :: cs) with
    | some rest =>
      if inValue then pieces n true rest else .credential :: pieces n false rest
    | none =>
      if inValue && isParameterValue c then pieces n true cs
      else
        match matchQuerySecret (c :: cs) with
        | some (group, _) => .parameter group :: pieces n true ((c :: cs).drop group.length)
        | none => .char c :: pieces n false cs

section

variable {n : ℕ} {s rest group after : List Char} {c : Char} {cs : List Char}

theorem pieces_credential (h : matchUrlCredential (c :: cs) = some rest) (inValue : Bool) :
    pieces (n + 1) inValue (c :: cs) =
      if inValue then pieces n true rest else .credential :: pieces n false rest := by
  rw [pieces, h]

theorem pieces_value (h : matchUrlCredential (c :: cs) = none) (hc : isParameterValue c = true) :
    pieces (n + 1) true (c :: cs) = pieces n true cs := by
  rw [pieces, h, hc]
  rfl

/-- A value ends before a character that is not of one. -/
theorem pieces_end (h : matchUrlCredential (c :: cs) = none) (hc : isParameterValue c = false) :
    pieces (n + 1) true (c :: cs) = pieces (n + 1) false (c :: cs) := by
  rw [pieces, pieces, h, hc]
  rfl

theorem pieces_parameter (h : matchUrlCredential (c :: cs) = none)
    (hmatch : matchQuerySecret (c :: cs) = some (group, after)) :
    pieces (n + 1) false (c :: cs) =
      .parameter group :: pieces n true ((c :: cs).drop group.length) := by
  rw [pieces, h, hmatch]
  rfl

theorem pieces_char (h : matchUrlCredential (c :: cs) = none)
    (hmiss : matchQuerySecret (c :: cs) = none) :
    pieces (n + 1) false (c :: cs) = .char c :: pieces n false cs := by
  rw [pieces, h, hmiss]
  rfl

/-- A masked credential is not changed by the second substitution. -/
theorem query_maskedCredential (s : List Char) :
    querySecret.substitute (maskedCredential ++ s) = maskedCredential ++ querySecret.substitute s :=
  Pattern.substitute_append fun c hc cs => by
    have hsubset : maskedCredential ⊆ [':', '/', '@', '=', '*', '&'] := by decide
    rw [querySecret_find, matchQuerySecret_cons_eq_none
      fun u hu hcu => hu.ne_of_mem hcu (hsubset hc) rfl]
    rfl

/-- The name of a sensitive parameter is not changed by the first substitution. -/
theorem matchQuerySecret_url_of_match (h : matchQuerySecret s = some (group, after)) :
    ∃ c v, s = group ++ c :: v ∧
      matchQuerySecret (urlCredential.substitute s) =
        some (group, (urlCredential.substitute (c :: v)).dropWhile isParameterValue) := by
  obtain ⟨u, c, v, hu, rfl, hc, rfl, -⟩ := matchQuerySecret_eq_some_iff.mp h
  refine ⟨c, v, rfl, ?_⟩
  have hcolon : ':' ∉ u ++ ['='] := by
    intro hmem
    rcases List.mem_append.mp hmem with hmem | hmem
    · exact hu.ne_of_mem hmem (by decide) rfl
    · exact absurd hmem (by decide)
  have hhead := head?_url (c :: v)
  obtain ⟨v', hv'⟩ : ∃ v', urlCredential.substitute (c :: v) = c :: v' :=
    ⟨_, (List.cons_head?_tail hhead).symm⟩
  refine matchQuerySecret_eq_some_iff.mpr ⟨u, c, v', hu, rfl, hc, ?_, ?_⟩
  · rw [url_append hcolon, hv']
  · rw [hv', List.dropWhile_cons, if_pos hc]

end

/-- **Both substitutions are one reading**: the result is the masked text of the pieces. Inside of a
value, the text goes on after the rest of the value. -/
theorem flatMap_masked_pieces {n : ℕ} {s : List Char} (hn : s.length ≤ n) :
    (pieces n false s).flatMap Piece.masked =
        querySecret.substitute (urlCredential.substitute s) ∧
      (pieces n true s).flatMap Piece.masked =
        querySecret.substitute ((urlCredential.substitute s).dropWhile isParameterValue) := by
  induction n generalizing s with
  | zero =>
      obtain rfl := List.length_eq_zero_iff.mp (Nat.le_zero.mp hn)
      exact ⟨rfl, rfl⟩
  | succ n ih =>
      cases s with
      | nil => exact ⟨rfl, rfl⟩
      | cons c cs =>
          have hcs : cs.length ≤ n := by rw [List.length_cons] at hn; omega
          cases hurl : matchUrlCredential (c :: cs) with
          | some rest =>
              have hrest : rest.length ≤ n := by
                have := urlCredential.shorter (s := c :: cs) (by rw [urlCredential_find, hurl]; rfl)
                rw [List.length_cons] at this
                omega
              have hvalue : ∀ c ∈ maskedCredential, isParameterValue c = true :=
                List.all_eq_true.mp (by decide)
              rw [pieces_credential hurl, pieces_credential hurl, url_of_match hurl,
                query_maskedCredential, List.dropWhile_append_of_pos hvalue]
              refine ⟨?_, (ih hrest).2⟩
              rw [if_neg Bool.false_ne_true, List.flatMap_cons, (ih hrest).1]
              rfl
          | none =>
              have houtside : (pieces (n + 1) false (c :: cs)).flatMap Piece.masked =
                  querySecret.substitute (urlCredential.substitute (c :: cs)) := by
                cases hmatch : matchQuerySecret (c :: cs) with
                | some found =>
                    obtain ⟨group, after⟩ := found
                    obtain ⟨d, v, hs, hmatch'⟩ := matchQuerySecret_url_of_match hmatch
                    have hgroup : group ≠ [] := by
                      obtain ⟨u, -, -, -, rfl, -⟩ := matchQuerySecret_eq_some_iff.mp hmatch
                      simp
                    have hv : (d :: v).length ≤ n := by
                      have := congrArg List.length hs
                      rw [List.length_append] at this
                      have := List.length_pos_iff.mpr hgroup
                      omega
                    rw [pieces_parameter hurl hmatch, query_of_match hmatch', List.flatMap_cons, hs,
                      List.drop_left, (ih hv).2]
                    rfl
                | none =>
                    have hmiss := matchQuerySecret_url hmatch
                    rw [url_of_miss hurl] at hmiss ⊢
                    rw [pieces_char hurl hmatch, query_of_miss hmiss, List.flatMap_cons, (ih hcs).1]
                    rfl
              refine ⟨houtside, ?_⟩
              cases hc : isParameterValue c with
              | true =>
                  rw [pieces_value hurl hc, url_of_miss hurl, List.dropWhile_cons, if_pos hc,
                    (ih hcs).2]
              | false =>
                  rw [pieces_end hurl hc, houtside, url_of_miss hurl, List.dropWhile_cons, hc,
                    if_neg Bool.false_ne_true]

/-! ### What the pieces leave exposed -/

/-- The piece is masked by characters that a URL credential can contain. -/
def Piece.inAuthority : Piece → Bool
  | credential => false
  | parameter _ => true
  | char c => isUserinfo c

/-- Some `://` is followed by characters of a userinfo and at least one sensitive parameter, in any
order, and then by `@`. -/
def Exposes (ps : List Piece) : Prop :=
  ∃ before authority after,
    ps = before ++ .char ':' :: .char '/' :: .char '/' :: (authority ++ .char '@' :: after) ∧
      (∀ p ∈ authority, p.inAuthority = true) ∧ ∃ group, .parameter group ∈ authority

/-- A parameter has a sensitive name. -/
def Piece.Named : Piece → Prop
  | parameter group => ∃ u, IsSensitiveName u ∧ group = u ++ ['=']
  | _ => True

section

variable {n : ℕ} {inValue : Bool} {s : List Char} {c : Char}

theorem named_of_mem_pieces {p : Piece} (h : p ∈ pieces n inValue s) : p.Named := by
  induction n generalizing inValue s with
  | zero => exact absurd h List.not_mem_nil
  | succ n ih =>
      cases s with
      | nil => exact absurd h List.not_mem_nil
      | cons c cs =>
          rw [pieces] at h
          split at h
          · split at h
            · exact ih h
            · rcases List.mem_cons.mp h with rfl | h
              · trivial
              · exact ih h
          · split at h
            · exact ih h
            · split at h
              · rename_i group after hmatch
                rcases List.mem_cons.mp h with rfl | h
                · obtain ⟨u, -, -, hu, hgroup, -⟩ := matchQuerySecret_eq_some_iff.mp hmatch
                  exact ⟨u, hu, hgroup⟩
                · exact ih h
              · rcases List.mem_cons.mp h with rfl | h
                · trivial
                · exact ih h

/-- Where a piece is a character, no URL credential begins, and what follows is read by itself. -/
theorem of_char_suffix {ps : List Piece} (h : .char c :: ps <:+ pieces n inValue s) :
    ∃ m cs, ps = pieces m false cs ∧ matchUrlCredential (c :: cs) = none := by
  induction n generalizing inValue s with
  | zero => exact absurd (List.suffix_nil.mp h) (by simp)
  | succ n ih =>
      cases s with
      | nil => exact absurd (List.suffix_nil.mp h) (by simp)
      | cons d cs =>
          rw [pieces] at h
          split at h
          · split at h
            · exact ih h
            · rcases List.suffix_cons_iff.mp h with heq | h
              · exact absurd (List.cons.inj heq).1 (by simp)
              · exact ih h
          · rename_i hurl
            split at h
            · exact ih h
            · split at h
              · rcases List.suffix_cons_iff.mp h with heq | h
                · exact absurd (List.cons.inj heq).1 (by simp)
                · exact ih h
              · rcases List.suffix_cons_iff.mp h with heq | h
                · obtain ⟨hc, rfl⟩ := List.cons.inj heq
                  obtain rfl := Piece.char.inj hc
                  exact ⟨n, cs, rfl, hurl⟩
                · exact ih h

/-- Characters that are pieces of their own are those of the text. -/
theorem of_pieces_eq_chars {u : List Char} {rest : List Piece}
    (h : pieces n false s = u.map .char ++ rest) : ∃ s', s = u ++ s' := by
  induction u generalizing n s with
  | nil => exact ⟨s, rfl⟩
  | cons d u ih =>
      cases n with
      | zero => exact absurd h (by simp [pieces])
      | succ n =>
          cases s with
          | nil => exact absurd h (by simp [pieces])
          | cons e cs =>
              rw [pieces] at h
              split at h
              · exact absurd (List.cons.inj h).1 (by simp)
              · rw [Bool.false_and, if_neg Bool.false_ne_true] at h
                split at h
                · exact absurd (List.cons.inj h).1 (by simp)
                · obtain ⟨hc, htail⟩ := List.cons.inj h
                  obtain rfl := Piece.char.inj hc
                  obtain ⟨s', rfl⟩ := ih htail
                  exact ⟨s', rfl⟩

/-- The pieces of a message spell no URL credential. -/
theorem not_credential_of_chars {u : List Char} {rest : List Piece} (hne : u ≠ [])
    (hu : ∀ c ∈ u, isUserinfo c = true) :
    ¬ .char ':' :: .char '/' :: .char '/' :: (u.map .char ++ .char '@' :: rest) <:+
      pieces n inValue s := by
  intro h
  obtain ⟨m, cs, hcs, hmiss⟩ := of_char_suffix h
  have hread : pieces m false cs = ('/' :: '/' :: (u ++ ['@'])).map .char ++ rest := by
    simp [← hcs]
  obtain ⟨s', rfl⟩ := of_pieces_eq_chars hread
  have hmatch : matchUrlCredential (':' :: ('/' :: '/' :: (u ++ ['@']) ++ s')) = some s' :=
    matchUrlCredential_eq_some_iff.mpr ⟨u, hne, hu, by simp⟩
  exact absurd (hmiss.symm.trans hmatch) (by simp)

end

/-! ### The URL credentials of the result -/

section

variable {ps : List Piece}

/-- What a piece of an authority is masked by. -/
theorem isUserinfo_of_inAuthority {p : Piece} (hnamed : p.Named) (hp : p.inAuthority = true)
    {c : Char} (hc : c ∈ p.masked) : isUserinfo c = true := by
  cases p with
  | credential => exact absurd hp (by decide)
  | parameter group =>
      obtain ⟨u, hu, rfl⟩ := hnamed
      rcases List.mem_append.mp hc with hc | hc
      · rcases List.mem_append.mp hc with hc | hc
        · exact hu.isUserinfo_of_mem hc
        · rw [List.mem_singleton.mp hc]
          decide
      · have hmask : ∀ c ∈ mask, isUserinfo c = true := List.all_eq_true.mp (by decide)
        exact hmask c hc
  | char d =>
      rw [List.mem_singleton.mp hc]
      exact hp

/-- No parameter is masked by a colon or a slash. -/
theorem not_mem_masked_parameter {group : List Char} (h : (Piece.parameter group).Named) {c : Char}
    (hc : c ∈ [':', '/', '@']) : c ∉ (Piece.parameter group).masked := by
  obtain ⟨u, hu, rfl⟩ := h
  intro hmem
  have hsep : c ∈ [':', '/', '@', '=', '*', '&'] := List.mem_append_left ['=', '*', '&'] hc
  rcases List.mem_append.mp hmem with hmem | hmem
  · rcases List.mem_append.mp hmem with hmem | hmem
    · exact hu.ne_of_mem hmem hsep rfl
    · rw [List.mem_singleton.mp hmem] at hc
      exact absurd hc (by decide)
  · obtain rfl : c = '*' := by simpa [mask] using hmem
    exact absurd hc (by decide)

/-- A slash at the head of the result is a piece of its own. -/
theorem slash_of_masked (hnamed : ∀ p ∈ ps, p.Named) {rest : List Char}
    (h : ps.flatMap Piece.masked = '/' :: rest) :
    ∃ ps', ps = .char '/' :: ps' ∧ ps'.flatMap Piece.masked = rest := by
  cases ps with
  | nil => exact absurd h (by simp)
  | cons p ps =>
      rw [List.flatMap_cons] at h
      cases p with
      | credential => exact absurd (List.cons.inj h).1 (by decide)
      | parameter group =>
          have hmem := not_mem_masked_parameter (hnamed _ List.mem_cons_self)
            (c := '/') (by decide)
          obtain ⟨u, hu, rfl⟩ := hnamed _ List.mem_cons_self
          obtain ⟨d, u, rfl⟩ := List.exists_cons_of_ne_nil hu.ne_nil
          obtain rfl : d = '/' := (List.cons.inj h).1
          exact absurd List.mem_cons_self hmem
      | char d =>
          obtain ⟨rfl, hrest⟩ := List.cons.inj h
          exact ⟨ps, rfl, hrest⟩

/-- A userinfo of the result, with the `@` after it, is that of an authority. -/
theorem exists_authority (hnamed : ∀ p ∈ ps, p.Named) {user rest : List Char}
    (huser : ∀ c ∈ user, isUserinfo c = true)
    (h : ps.flatMap Piece.masked = user ++ '@' :: rest) :
    ∃ authority after, ps = authority ++ .char '@' :: after ∧
      (∀ p ∈ authority, p.inAuthority = true) ∧ authority.flatMap Piece.masked = user := by
  induction ps generalizing user with
  | nil => exact absurd h (by simp)
  | cons p ps ih =>
      have ih := @ih fun p hp => hnamed p (List.mem_cons_of_mem _ hp)
      rw [List.flatMap_cons] at h
      cases p with
      | credential =>
          -- The second character is a slash, which neither is `@` nor belongs to a userinfo.
          match user, huser, h with
          | [], _, h => exact absurd (List.cons.inj h).1 (by decide)
          | [_], _, h => exact absurd (List.cons.inj (List.cons.inj h).2).1 (by decide)
          | _ :: d :: _, huser, h =>
              have hd := huser d (by simp)
              rw [← (List.cons.inj (List.cons.inj h).2).1] at hd
              exact absurd hd (by decide)
      | parameter group =>
          have hat := not_mem_masked_parameter (hnamed _ List.mem_cons_self) (c := '@') (by decide)
          obtain ⟨tail, rfl, htail⟩ : ∃ tail, user = (Piece.parameter group).masked ++ tail ∧
              ps.flatMap Piece.masked = tail ++ '@' :: rest := by
            rcases List.append_eq_append_iff.mp h with ⟨tail, hu, htail⟩ | ⟨tail, hmasked, htail⟩
            · exact ⟨tail, hu, htail⟩
            · cases tail with
              | nil => exact ⟨[], by simpa using hmasked.symm, by simpa using htail.symm⟩
              | cons d tail =>
                  obtain rfl := (List.cons.inj htail).1
                  exact absurd (hmasked ▸ List.mem_append_right _ List.mem_cons_self) hat
          obtain ⟨authority, after, rfl, hauthority, hmasked⟩ :=
            ih (fun c hc => huser c (List.mem_append_right _ hc)) htail
          refine ⟨.parameter group :: authority, after, rfl, fun p hp => ?_, ?_⟩
          · rcases List.mem_cons.mp hp with rfl | hp
            · rfl
            · exact hauthority p hp
          · rw [List.flatMap_cons, hmasked]
      | char d =>
          cases user with
          | nil =>
              obtain ⟨rfl, -⟩ := List.cons.inj h
              exact ⟨[], ps, rfl, by simp, rfl⟩
          | cons e user =>
              obtain ⟨rfl, htail⟩ := List.cons.inj h
              obtain ⟨authority, after, rfl, hauthority, hmasked⟩ :=
                ih (fun c hc => huser c (List.mem_cons_of_mem d hc)) htail
              refine ⟨.char d :: authority, after, rfl, fun p hp => ?_, ?_⟩
              · rcases List.mem_cons.mp hp with rfl | hp
                · exact huser d List.mem_cons_self
                · exact hauthority p hp
              · rw [List.flatMap_cons, hmasked]
                rfl

end

section

variable {n : ℕ} {s : List Char}

/-- **An exposed userinfo** is a URL credential of the result that is not masked. -/
theorem not_redacted_of_exposes (h : Exposes (pieces n false s)) :
    ¬ Redacted ((pieces n false s).flatMap Piece.masked) := by
  obtain ⟨before, authority, after, hps, hauthority, group, hgroup⟩ := h
  intro hredacted
  have hnamed : ∀ p ∈ authority, p.Named := fun p hp => by
    have hmem : p ∈ pieces n false s := by
      rw [hps]
      simp [hp]
    exact named_of_mem_pieces hmem
  have hequals : '=' ∈ authority.flatMap Piece.masked := by
    obtain ⟨u, -, rfl⟩ := hnamed _ hgroup
    exact List.mem_flatMap.mpr ⟨_, hgroup, by simp [Piece.masked]⟩
  have huser : ∀ c ∈ authority.flatMap Piece.masked, isUserinfo c = true := by
    intro c hc
    obtain ⟨p, hp, hc⟩ := List.mem_flatMap.mp hc
    exact isUserinfo_of_inAuthority (hnamed p hp) (hauthority p hp) hc
  have hmatch : matchUrlCredential (':' :: '/' :: '/' :: (authority.flatMap Piece.masked ++
      '@' :: after.flatMap Piece.masked)) = some (after.flatMap Piece.masked) :=
    matchUrlCredential_eq_some_iff.mpr ⟨_, List.ne_nil_of_mem hequals, huser, rfl⟩
  have hsuffix : ':' :: '/' :: '/' :: (authority.flatMap Piece.masked ++
      '@' :: after.flatMap Piece.masked) <:+ (pieces n false s).flatMap Piece.masked := by
    rw [hps]
    exact ⟨before.flatMap Piece.masked, by simp [Piece.masked]⟩
  have hmasked := hredacted.urls _ hsuffix _ hmatch
  have hmask : authority.flatMap Piece.masked = mask := by
    have hat : '@' ∉ authority.flatMap Piece.masked := fun hmem => absurd (huser _ hmem) (by decide)
    simp only [maskedCredential, List.cons_append, List.nil_append, List.cons.injEq, true_and]
      at hmasked
    exact (append_cons_inj hat (show '@' ∉ mask by decide) hmasked).1
  rw [hmask] at hequals
  exact absurd hequals (by decide)

/-- An authority without parameters is the characters that it is masked by. -/
theorem eq_map_char {authority : List Piece} (hauthority : ∀ p ∈ authority, p.inAuthority = true)
    (hnone : ∀ group, .parameter group ∉ authority) :
    authority = (authority.flatMap Piece.masked).map .char := by
  induction authority with
  | nil => rfl
  | cons p rest ih =>
      have ih := ih (fun p hp => hauthority p (List.mem_cons_of_mem _ hp))
        fun group hmem => hnone group (List.mem_cons_of_mem _ hmem)
      cases p with
      | credential => exact absurd (hauthority _ List.mem_cons_self) (by decide)
      | parameter group => exact absurd List.mem_cons_self (hnone group)
      | char c => exact congrArg (.char c :: ·) ih

/-- **Where nothing is exposed**, the URL credentials of the result are masked. -/
theorem masked_of_not_exposes (h : ¬ Exposes (pieces n false s)) {t rest : List Char}
    (ht : t <:+ (pieces n false s).flatMap Piece.masked) (hmatch : matchUrlCredential t = some rest) :
    t = maskedCredential ++ rest := by
  obtain ⟨user, hne, huser, rfl⟩ := matchUrlCredential_eq_some_iff.mp hmatch
  obtain ⟨part, ps, w, hsuffix, hw, hwne, heq⟩ := exists_of_suffix_flatMap ht (by simp)
  have hnamed : ∀ p ∈ part :: ps, p.Named := fun p hp => named_of_mem_pieces (hsuffix.subset hp)
  obtain ⟨d, w, rfl⟩ := List.exists_cons_of_ne_nil hwne
  obtain ⟨rfl, hrest⟩ := List.cons.inj heq
  have hat : '@' ∉ user := fun hmem => absurd (huser _ hmem) (by decide)
  cases part with
  | credential =>
      rcases List.suffix_cons_iff.mp hw with hwhole | htail
      · obtain rfl := (List.cons.inj hwhole).2
        have hmask : user ++ '@' :: rest = mask ++ '@' :: ps.flatMap Piece.masked :=
          (List.cons.inj (List.cons.inj hrest).2).2
        obtain ⟨rfl, rfl⟩ := append_cons_inj hat (show '@' ∉ mask by decide) hmask
        rfl
      · exact absurd (htail.subset List.mem_cons_self) (by decide)
  | parameter group =>
      exact absurd (hw.subset List.mem_cons_self)
        (not_mem_masked_parameter (hnamed _ List.mem_cons_self) (by decide))
  | char d =>
      have hd : ':' :: w = [d] := by
        rcases List.suffix_cons_iff.mp hw with hwhole | hnil
        · exact hwhole
        · exact absurd (List.suffix_nil.mp hnil) (by simp)
      obtain ⟨rfl, rfl⟩ := List.cons.inj hd
      have hnamed' : ∀ p ∈ ps, p.Named := fun p hp => hnamed p (List.mem_cons_of_mem _ hp)
      obtain ⟨ps, rfl, hslash⟩ := slash_of_masked hnamed' hrest.symm
      obtain ⟨ps, rfl, huserinfo⟩ := slash_of_masked
        (fun p hp => hnamed' p (List.mem_cons_of_mem _ hp)) hslash
      obtain ⟨authority, after, rfl, hauthority, rfl⟩ := exists_authority
        (fun p hp => hnamed' p (List.mem_cons_of_mem _ (List.mem_cons_of_mem _ hp))) huser huserinfo
      by_cases hgroup : ∃ group, .parameter group ∈ authority
      · obtain ⟨before, hbefore⟩ := hsuffix
        exact absurd ⟨before, authority, after, hbefore.symm, hauthority, hgroup⟩ h
      · have hchars := eq_map_char hauthority fun group hmem => hgroup ⟨group, hmem⟩
        rw [hchars] at hsuffix
        exact absurd hsuffix (not_credential_of_chars hne huser)

/-- **Where nothing is exposed**, the result is redacted. -/
theorem redacted_of_not_exposes (hn : s.length ≤ n) (h : ¬ Exposes (pieces n false s)) :
    Redacted ((pieces n false s).flatMap Piece.masked) := by
  refine ⟨fun t ht rest hmatch => masked_of_not_exposes h ht hmatch, ?_⟩
  · rw [(flatMap_masked_pieces hn).1]
    exact querySecret_masked _

end

/-! ### One pass -/

/-- The pieces of a message. -/
def piecesOf (message : String) : List Piece := pieces message.toList.length false message.toList

theorem sanitizeMessage_toList (message : String) :
    (sanitizeMessage message []).toList = (piecesOf message).flatMap Piece.masked := by
  rw [sanitizeMessage_eq, String.toList_ofList, piecesOf, (flatMap_masked_pieces le_rfl).1]

/-- **One pass of redaction is complete exactly when** the pieces of the message expose nothing:
every match of either pattern in the result is masked, and sanitizing it again changes nothing. -/
theorem sanitizeMessage_complete_iff (message : String) :
    (Redacted (sanitizeMessage message []).toList ∧
      sanitizeMessage (sanitizeMessage message []) [] = sanitizeMessage message []) ↔
        ¬ Exposes (piecesOf message) := by
  rw [sanitizeMessage_toList]
  constructor
  · exact fun h hexposes => not_redacted_of_exposes hexposes h.1
  · intro h
    have hredacted := redacted_of_not_exposes le_rfl h
    refine ⟨hredacted, String.toList_inj.mp ?_⟩
    rw [sanitizeMessage_eq, String.toList_ofList, sanitizeMessage_toList]
    exact hredacted.again

/-- **A message that has to be redacted twice**: the value of its parameter hides an `@` from the
first substitution. -/
theorem sanitizeMessage_incomplete :
    ¬ ∀ message : String, Redacted (sanitizeMessage message []).toList ∧
      sanitizeMessage (sanitizeMessage message []) [] = sanitizeMessage message [] := by
  intro hall
  have hagain := (hall "x://token=a/b&c@d").2
  revert hagain
  decide +kernel

end MarketRelay
