import MarketRelay.Redaction

/-!
# Known Secrets

After the two patterns, `sanitize_message` replaces the secrets that it is told, one after the other.
Each of these substitutions only masks: of every match it replaces one part by `***` and keeps the
rest. So a sanitized message shows nothing that the message did not show, except for the marks, and a
secret that has been replaced once does not come back when the next one is replaced.

A secret that contains a `*` itself can be spelled by the marks of another one, and is left out here.

## Main results

* `urlCredential_masks`, `querySecret_masks`: both patterns only mask.
* `sanitizeMessage_hides`: no known secret is left, and nothing is shown that was not there.
-/

open Rewriting

namespace MarketRelay

theorem mask_ne_nil : mask ≠ [] := List.cons_ne_nil _ _

theorem eq_star_of_mem_mask : ∀ c ∈ mask, c = '*' := by simp [mask]

/-- Of a URL credential the user is masked. -/
theorem urlCredential_masks : urlCredential.Masks '*' := by
  intro s r rest h
  rw [urlCredential_find] at h
  obtain ⟨rest', hmatch, heq⟩ := Option.map_eq_some_iff.mp h
  obtain ⟨rfl, rfl⟩ := Prod.mk.inj heq
  obtain ⟨user, -, -, rfl⟩ := matchUrlCredential_eq_some_iff.mp hmatch
  exact ⟨[':', '/', '/'], user, mask, ['@'], by simp, rfl, mask_ne_nil, eq_star_of_mem_mask⟩

/-- Of a sensitive parameter the value is masked. -/
theorem querySecret_masks : querySecret.Masks '*' := by
  intro s r rest h
  rw [querySecret_find] at h
  obtain ⟨⟨group, rest'⟩, hmatch, heq⟩ := Option.map_eq_some_iff.mp h
  obtain ⟨rfl, rfl⟩ := Prod.mk.inj heq
  obtain ⟨u, c, v, -, -, -, rfl, rfl⟩ := matchQuerySecret_eq_some_iff.mp hmatch
  refine ⟨group, c :: v.takeWhile isParameterValue, mask, [], ?_, by simp, mask_ne_nil,
    eq_star_of_mem_mask⟩
  rw [List.nil_append, List.cons_append, List.takeWhile_append_dropWhile]

theorem replaceSecret_eq {secret : List Char} (hne : secret ≠ []) (n : ℕ) (s : List Char) :
    replaceSecret secret n s = (Pattern.literal secret hne mask).substituteFuel n s := by
  induction n generalizing s with
  | zero => rfl
  | succ n ih =>
      cases s with
      | nil => rfl
      | cons c cs =>
          rw [replaceSecret, Pattern.substituteFuel, Pattern.find_literal]
          split
          · exact congrArg (mask ++ ·) (ih _)
          · exact congrArg (c :: ·) (ih cs)

/-- Replace a known secret, unless it is empty. -/
def replaceKnown (text : List Char) (secret : String) : List Char :=
  if secret.isEmpty then text else replaceSecret secret.toList text.length text

theorem toList_ne_nil {secret : String} (h : secret.isEmpty = false) : secret.toList ≠ [] := by
  intro hnil
  rw [String.toList_eq_nil_iff] at hnil
  rw [hnil] at h
  exact absurd h (by decide)

section Known

variable {secret : String} {text s : List Char}

theorem replaceKnown_eq (h : secret.isEmpty = false) (text : List Char) :
    replaceKnown text secret =
      (Pattern.literal secret.toList (toList_ne_nil h) mask).substitute text := by
  rw [replaceKnown, h, replaceSecret_eq (toList_ne_nil h), Pattern.substituteFuel_eq le_rfl]
  rfl

theorem masking_replaceKnown (text : List Char) (secret : String) :
    Masking '*' text (replaceKnown text secret) := by
  cases hempty : secret.isEmpty with
  | true =>
      rw [replaceKnown, hempty]
      exact .refl text
  | false =>
      rw [replaceKnown_eq hempty]
      exact (Pattern.masks_literal mask_ne_nil eq_star_of_mem_mask).masking text

/-- However many secrets are replaced, the text is only masked, -/
theorem masking_foldl (knownSecrets : List String) (text : List Char) :
    Masking '*' text (knownSecrets.foldl replaceKnown text) := by
  induction knownSecrets generalizing text with
  | nil => exact .refl text
  | cons secret rest ih => exact (masking_replaceKnown text secret).trans (ih _)

/-- **and none of them is left.** -/
theorem not_infix_foldl {knownSecrets : List String} (hmem : secret ∈ knownSecrets)
    (hempty : secret.isEmpty = false) (hstar : '*' ∉ secret.toList) (text : List Char) :
    ¬ secret.toList <:+: knownSecrets.foldl replaceKnown text := by
  induction knownSecrets generalizing text with
  | nil => exact absurd hmem List.not_mem_nil
  | cons first rest ih =>
      rcases List.mem_cons.mp hmem with rfl | hrest
      · -- The later secrets only mask what is left of the text.
        intro hinfix
        have hback := (masking_foldl rest (replaceKnown text secret)).part hstar hinfix
        rw [replaceKnown_eq hempty] at hback
        exact Pattern.not_infix_literal mask_ne_nil eq_star_of_mem_mask hstar text hback
      · exact ih hrest _

end Known

/-- A message is redacted by the two patterns, and then secret by secret. -/
theorem sanitizeMessage_known (message : String) (knownSecrets : List String) :
    (sanitizeMessage message knownSecrets).toList = knownSecrets.foldl replaceKnown
      (querySecret.substitute (urlCredential.substitute message.toList)) := by
  have hpatterns := sanitizeMessage_eq message
  simp only [sanitizeMessage, List.foldl_nil] at hpatterns
  simp only [sanitizeMessage, String.toList_ofList, String.ofList_injective hpatterns]
  rfl

/-- **A sanitized message hides the known secrets**: none of them is left in it, and what it shows
between its marks was in the message. -/
theorem sanitizeMessage_hides (message : String) (knownSecrets : List String) :
    (∀ secret ∈ knownSecrets, secret ≠ "" → '*' ∉ secret.toList →
      ¬ secret.toList <:+: (sanitizeMessage message knownSecrets).toList) ∧
    ∀ shown : List Char, '*' ∉ shown →
      shown <:+: (sanitizeMessage message knownSecrets).toList → shown <:+: message.toList := by
  rw [sanitizeMessage_known]
  constructor
  · intro secret hmem hne hstar
    have hempty : secret.isEmpty = false := by
      rw [← Bool.not_eq_true, String.isEmpty_iff]
      exact hne
    exact not_infix_foldl hmem hempty hstar _
  · have hurl := urlCredential_masks.masking message.toList
    have hquery := querySecret_masks.masking (urlCredential.substitute message.toList)
    exact fun shown hstar hshown =>
      ((hurl.trans hquery).trans (masking_foldl knownSecrets _)).part hstar hshown

/-- The marks of one secret can spell another one. -/
example : sanitizeMessage "ab" ["a*", "b"] = "a***" := by decide +kernel

end MarketRelay
